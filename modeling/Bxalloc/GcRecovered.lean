import Bxalloc.GcClosedForm
import Bxalloc.GcReclaim

namespace Bxalloc

/-!
# The heap after recovery

A new process has empty free lists, and the blocks in use are those the
collection marked.  With anchors, chains and partial lists as the sweep leaves
them this heap keeps the invariant of the allocator, so everything proved about
runs of the allocator also holds behind a crash.
-/

open Lib (Splits)

namespace Gc

/-- The heap of a process that starts with a collection. -/
def Collected.restart (result : Collected) : Heap :=
  { result.heap with
    cache := fun _ sc => freshFreeList sc
    live := result.marked.sort }

/-- What a crash leaves of the descriptors, the lists and the queue. -/
structure CrashedMeta
    (region : SbRegion)
    (image : Heap) : Prop extends CrashImage region image where
  currAligned : image.currAddr % sbSize = 0
  wholeLists : ∀ sc, nlist ≤ sc → image.partialList sc = []
  inUse :
    ∀ k,
      (image.desc k).heap ≠ none →
      1 ≤ k ∧ region.sbAddr k + sbSize ≤ image.currAddr

section Lists

variable
  {region : SbRegion}
  {image : Heap}
  {marked : Finset Nat}
  {n k sc : Nat}

/-- A partial list has the descriptors of its class with linked blocks. -/
theorem mem_sweptPartial :
    k ∈ sweptPartial region image marked sc n ↔
      (1 ≤ k ∧ k ≤ n) ∧
        linkedIn region image marked k ≠ [] ∧
        (image.desc k).heap = some sc := by
  induction n with
  | zero =>
      refine ⟨fun absent => absurd absent List.not_mem_nil, ?_⟩
      rintro ⟨⟨positive, behind⟩, -⟩
      omega
  | succ n inductionHypothesis =>
      rw [sweptPartial_succ]
      split
      · next linked =>
          rw [List.mem_cons, inductionHypothesis]
          constructor
          · rintro (rfl | ⟨⟨positive, behind⟩, earlier⟩)
            · exact ⟨⟨by omega, Nat.le_refl _⟩, linked⟩
            · exact ⟨⟨positive, by omega⟩, earlier⟩
          · rintro ⟨⟨positive, behind⟩, earlier⟩
            rcases Nat.lt_or_eq_of_le behind with less | same
            · exact Or.inr ⟨⟨positive, by omega⟩, earlier⟩
            · exact Or.inl same
      · next unlinked =>
          rw [inductionHypothesis]
          constructor
          · rintro ⟨⟨positive, behind⟩, earlier⟩
            exact ⟨⟨positive, by omega⟩, earlier⟩
          · rintro ⟨⟨positive, behind⟩, earlier⟩
            refine ⟨⟨positive, ?_⟩, earlier⟩
            rcases Nat.lt_or_eq_of_le behind with less | rfl
            · omega
            · exact absurd earlier unlinked

theorem sweptPartial_nodup :
    (sweptPartial region image marked sc n).Nodup := by
  induction n with
  | zero => exact List.nodup_nil
  | succ n inductionHypothesis =>
      rw [sweptPartial_succ]
      split
      · refine List.nodup_cons.mpr ⟨?_, inductionHypothesis⟩
        intro member
        have := (mem_sweptPartial.mp member).1
        omega
      · exact inductionHypothesis

end Lists

section Recovered

variable
  {region : SbRegion}
  {image : Heap}
  {marked : Finset Nat}
  {n k sc : Nat}

/-- The heap that `n` rounds of the sweep leave, as a new process finds it. -/
def recoveredHeap
    (region : SbRegion)
    (image : Heap)
    (marked : Finset Nat)
    (n : Nat) : Heap :=
  Collected.restart
    { heap := sweptHeap region image marked n
      marked := marked
      availSb := sweptAvail region marked n }

theorem recoveredHeap_currAddr :
    (recoveredHeap region image marked n).currAddr = image.currAddr :=
  rfl

theorem recoveredHeap_queue :
    (recoveredHeap region image marked n).queue = image.queue :=
  rfl

theorem recoveredHeap_memory :
    (recoveredHeap region image marked n).memory =
      sweptMemory region image marked n :=
  rfl

/-- A crash, marks in small classes, and `n` rounds over all superblocks. -/
structure Marked
    (region : SbRegion)
    (image : Heap)
    (marked : Finset Nat)
    (n : Nat) : Prop where
  crashed : CrashedMeta region image
  currAbove : region.start + sbSize ≤ image.currAddr
  currBelow : image.currAddr ≤ region.limit
  allocated : ∀ addr, addr ∈ marked → AllocatedStart region image addr
  small : ∀ k, SmallMarks region image marked k
  all :
    ∀ k, 1 ≤ k → region.sbAddr k + sbSize ≤ image.currAddr → k ≤ n

namespace Marked

/-- The descriptor of a superblock with marks. -/
theorem persistentOk
    (given : Marked region image marked n)
    (anyMark : marksIn region marked k ≠ []) :
    ∃ sc,
      PersistentOk region image k sc ∧
        0 < sc ∧ sc < nlist ∧ k ≤ n := by
  obtain ⟨mark, member⟩ := List.exists_mem_of_ne_nil _ anyMark
  obtain ⟨isMarked, here⟩ := mem_marksIn.mp member
  obtain ⟨sc, inUse, notFirst, notLast⟩ := given.small k mark isMarked here
  have ok :=
    Swept.persistentOk given.currBelow given.allocated isMarked here inUse
  exact ⟨sc, ok, notFirst, notLast, given.all k ok.indexPos ok.inside⟩

/-- Only superblocks with marks are in use after recovery. -/
theorem desc_cases
    (given : Marked region image marked n)
    (k : Nat) :
    ((recoveredHeap region image marked n).desc k).heap = none ∧
        marksIn region marked k = [] ∨
      ∃ sc,
        PersistentOk region image k sc ∧
          (0 < sc ∧ sc < nlist) ∧
          marksIn region marked k ≠ [] ∧
          (1 ≤ k ∧ k ≤ n) ∧
          (recoveredHeap region image marked n).desc k =
            { image.desc k with
              anchor :=
                rebuiltAnchor (image.desc k) (region.sbAddr k)
                  (linkedIn region image marked k) } := by
  by_cases noMark : marksIn region marked k = []
  · refine Or.inl ⟨?_, noMark⟩
    by_cases behind : 1 ≤ k ∧ k ≤ n
    · have isSwept :
          (recoveredHeap region image marked n).desc k =
            sweptDesc region image marked k :=
        sweptHeap_behind behind.1 behind.2
      rw [isSwept]
      unfold sweptDesc
      rw [if_pos noMark]
      rfl
    · have untouched :
          (recoveredHeap region image marked n).desc k = image.desc k :=
        if_neg behind
      rw [untouched]
      by_contra inUse
      obtain ⟨positive, inside⟩ := given.crashed.inUse k inUse
      exact behind ⟨positive, given.all k positive inside⟩
  · obtain ⟨sc, ok, notFirst, notLast, behind⟩ := given.persistentOk noMark
    have isSwept :
        (recoveredHeap region image marked n).desc k =
          sweptDesc region image marked k :=
      sweptHeap_behind ok.indexPos behind
    refine Or.inr ⟨sc, ok, ⟨notFirst, notLast⟩, noMark,
      ⟨ok.indexPos, behind⟩, ?_⟩
    rw [isSwept]
    exact if_neg noMark

/-- The anchor of a rebuilt superblock. -/
theorem anchor_cases
    (given : Marked region image marked n)
    (anyMark : marksIn region marked k ≠ []) :
    (linkedIn region image marked k = [] ∧
        rebuiltAnchor (image.desc k) (region.sbAddr k)
            (linkedIn region image marked k) =
          { avail := (image.desc k).maxcount, count := 0, state := .sbFull }) ∨
      ∃ avail,
        linkedIn region image marked k ≠ [] ∧
          avail < (image.desc k).maxcount ∧
          (linkedIn region image marked k).length < (image.desc k).maxcount ∧
          rebuiltAnchor (image.desc k) (region.sbAddr k)
              (linkedIn region image marked k) =
            { avail := avail
              count := (linkedIn region image marked k).length
              state := .sbPartial } := by
  rcases eq_or_ne (linkedIn region image marked k) [] with full | linked
  · rw [full]
    exact Or.inl ⟨rfl, rfl⟩
  · obtain ⟨j, sc, rfl, atSmall⟩ :=
      exists_atSmall given.currBelow given.allocated given.currAbove
        given.small anyMark
    have sameFree :=
      @sweptState_free region image marked j given.currBelow given.allocated
        anyMark
    have isDesc := atSmall.swept.isDesc
    have starts :
        ∀ mark,
          mark ∈ (sweptState region image marked j).here →
          IsBlock
            ((sweptState region image marked j).heap.desc
              (sweptState region image marked j).currDesc) mark := by
      rw [isDesc]
      exact atSmall.starts
    have all := atSmall.before.free_length starts
    obtain ⟨avail, counted, -, -, isAnchor⟩ :=
      atSmall.before.anchor_of_free starts (by rwa [sameFree])
    have someMark := List.length_pos_iff.mpr atSmall.before.anyMark
    rw [sameFree, isDesc] at all isAnchor
    rw [isDesc] at counted
    exact Or.inr ⟨avail, linked, counted, by omega, isAnchor⟩

/-- Descriptors in use after recovery. -/
theorem descOk
    (given : Marked region image marked n)
    {sc : Nat}
    (inUse : ((recoveredHeap region image marked n).desc k).heap = some sc) :
    Heap.DescOk region (recoveredHeap region image marked n).currAddr k
        ((recoveredHeap region image marked n).desc k) sc ∧
      sc < nlist := by
  rcases given.desc_cases k with
    ⟨unused, -⟩ | ⟨sc', ok, ⟨-, notLast⟩, anyMark, -, isDesc⟩
  · rw [unused] at inUse
    cases inUse
  · rw [recoveredHeap_currAddr]
    rw [isDesc] at inUse ⊢
    obtain rfl : sc = sc' := Option.some.inj (inUse.symm.trans ok.heap)
    refine ⟨⟨ok.classLe, ok.indexPos, ok.inside, ok.superblock, ok.blockSize,
      ok.maxcount, ?_⟩, notLast⟩
    rcases given.anchor_cases anyMark with
      ⟨-, isAnchor⟩ | ⟨avail, linked, early, fewer, isAnchor⟩
    · rw [isAnchor]
      exact ⟨rfl, Nat.le_refl _⟩
    · rw [isAnchor]
      exact ⟨List.length_pos_iff.mpr linked, fewer, early⟩

/-- Lists and queue after recovery. -/
theorem control
    (given : Marked region image marked n) :
    Heap.Control region (recoveredHeap region image marked n) := by
  have notListed :
      ∀ sc,
        nlist ≤ sc →
        (recoveredHeap region image marked n).partialList sc = [] := by
    intro sc beyond
    have untouched :
        (recoveredHeap region image marked n).partialList sc =
          image.partialList sc :=
      if_neg (Nat.not_lt.mpr beyond)
    rw [untouched]
    exact given.crashed.wholeLists sc beyond
  have listed :
      ∀ sc,
        sc < nlist →
        (recoveredHeap region image marked n).partialList sc =
          sweptPartial region image marked sc (n) :=
    fun sc small => if_pos small
  have geometry : Heap.Geometry region (recoveredHeap region image marked n) := by
    refine ⟨fun k sc inUse => (given.descOk inUse).1, ?_, ?_, ?_⟩
    · rw [recoveredHeap_currAddr]
      exact given.crashed.currAligned
    · rw [recoveredHeap_currAddr]
      exact given.currAbove
    · rw [recoveredHeap_currAddr]
      exact given.currBelow
  refine ⟨geometry, ?_, ?_, ?_, given.crashed.queueNodup, ?_,
    fun thread sc valid => Heap.freshFreeList_maxsize valid⟩
  · intro k inUse
    exact absurd (given.descOk inUse).2 (Nat.lt_irrefl _)
  · intro sc
    rcases Nat.lt_or_ge sc nlist with small | beyond
    · rw [listed sc small]
      exact sweptPartial_nodup
    · rw [notListed sc beyond]
      exact List.nodup_nil
  · intro sc k
    rcases Nat.lt_or_ge sc nlist with small | beyond
    · rw [listed sc small, mem_sweptPartial]
      constructor
      · rintro ⟨-, linked, inUse⟩
        have anyMark : marksIn region marked k ≠ [] :=
          fun noMark => linked (linkedIn_of_unmarked noMark)
        rcases given.desc_cases k with
          ⟨-, noMark⟩ | ⟨-, -, -, -, -, isDesc⟩
        · exact absurd noMark anyMark
        · rw [Heap.Listed, isDesc]
          refine ⟨inUse, Or.inl ?_⟩
          rcases given.anchor_cases anyMark with
            ⟨full, -⟩ | ⟨avail, -, -, -, isAnchor⟩
          · exact absurd full linked
          · rw [isAnchor]
      · rintro ⟨inUse, state⟩
        rcases given.desc_cases k with
          ⟨unused, -⟩ | ⟨-, -, -, anyMark, behind, isDesc⟩
        · rw [unused] at inUse
          cases inUse
        · rw [isDesc] at inUse state
          refine ⟨behind, ?_, inUse⟩
          rcases given.anchor_cases anyMark with
            ⟨-, isAnchor⟩ | ⟨avail, linked, -⟩
          · rw [isAnchor] at state
            rcases state with isPartial | isEmpty
            · cases isPartial
            · cases isEmpty
          · exact linked
    · rw [notListed sc beyond]
      refine ⟨fun absent => absurd absent List.not_mem_nil, ?_⟩
      rintro ⟨inUse, -⟩
      have := (given.descOk inUse).2
      omega
  · intro k queued
    have spare := given.crashed.queueSpare k queued
    refine ⟨?_, spare.indexPos, ?_⟩
    case refine_2 =>
      rw [recoveredHeap_currAddr]
      exact spare.inside
    rcases given.desc_cases k with ⟨unused, -⟩ | ⟨sc, ok, -⟩
    · exact unused
    · have blank := spare.blank
      rw [ok.heap] at blank
      cases blank

/-- The free chains after recovery are the linked blocks. -/
theorem chain
    (given : Marked region image marked n)
    (k : Nat) :
    (recoveredHeap region image marked n).freeChain k =
      (linkedIn region image marked k).reverse := by
  rcases given.desc_cases k with
    ⟨unused, noMark⟩ | ⟨sc, ok, -, anyMark, behind, isDesc⟩
  · rw [linkedIn_of_unmarked noMark]
    exact Heap.freeChain_of_blank unused
  · have swept :=
      freeChain_swept given.currBelow given.allocated given.currAbove
        given.small anyMark behind.1 behind.2
    have inUse :
        ((recoveredHeap region image marked n).desc k).heap ≠ none := by
      rw [isDesc, ok.heap]
      exact Option.some_ne_none sc
    have notEmpty :
        ((recoveredHeap region image marked n).desc k).anchor.state ≠
          .sbEmpty := by
      rw [isDesc]
      rcases given.anchor_cases anyMark with
        ⟨-, isAnchor⟩ | ⟨avail, -, -, -, isAnchor⟩
      · rw [isAnchor]
        exact fun isEmpty => by cases isEmpty
      · rw [isAnchor]
        exact fun isEmpty => by cases isEmpty
    have isCount :
        Heap.freeCount ((recoveredHeap region image marked n).desc k) =
          ((recoveredHeap region image marked n).desc k).anchor.count := by
      unfold Heap.freeCount
      rw [if_neg inUse, if_neg notEmpty]
    unfold Heap.freeChain
    rw [isCount]
    exact swept

/-- The superblocks in use after recovery are those with a mark. -/
theorem inUse_iff
    (given : Marked region image marked n)
    (k : Nat) :
    ((recoveredHeap region image marked n).desc k).heap ≠ none ↔
      ∃ addr, addr ∈ marked ∧ region.owner addr = k := by
  have someMark :
      marksIn region marked k ≠ [] ↔
        ∃ addr, addr ∈ marked ∧ region.owner addr = k := by
    rw [ne_eq, marksIn_eq_nil]
    simp only [not_forall, not_not, exists_prop]
  rw [← someMark]
  rcases given.desc_cases k with
    ⟨unused, noMark⟩ | ⟨sc, ok, -, anyMark, -, isDesc⟩
  · exact iff_of_false (not_not.mpr unused) (not_not.mpr noMark)
  · refine iff_of_true ?_ anyMark
    rw [isDesc, ok.heap]
    exact Option.some_ne_none sc

/-- The free chains after recovery, in terms of the recovered descriptors. -/
theorem mem_chain
    (given : Marked region image marked n)
    (k block : Nat) :
    block ∈ (recoveredHeap region image marked n).freeChain k ↔
      ((recoveredHeap region image marked n).desc k).heap ≠ none ∧
        IsBlock ((recoveredHeap region image marked n).desc k) block ∧
        block ∉ marked := by
  rw [given.chain, List.mem_reverse,
    mem_linkedIn given.currBelow given.allocated given.currAbove given.small]
  rcases given.desc_cases k with
    ⟨unused, noMark⟩ | ⟨sc, ok, -, anyMark, -, isDesc⟩
  · exact iff_of_false (fun linked => linked.1 noMark)
      (fun inUse => inUse.1 unused)
  · have inUse :
        ((recoveredHeap region image marked n).desc k).heap ≠ none := by
      rw [isDesc, ok.heap]
      exact Option.some_ne_none sc
    have sameBlocks :
        IsBlock ((recoveredHeap region image marked n).desc k) block ↔
          IsBlock (image.desc k) block := by
      rw [isDesc]
      rfl
    rw [sameBlocks]
    exact and_congr_left' (iff_of_true anyMark inUse)

/-- The linked blocks of a superblock are listed once. -/
theorem linkedIn_nodup
    (given : Marked region image marked n)
    (k : Nat) :
    (linkedIn region image marked k).Nodup := by
  by_cases noMark : marksIn region marked k = []
  · rw [linkedIn_of_unmarked noMark]
    exact List.nodup_nil
  · obtain ⟨j, sc, rfl, atSmall⟩ :=
      exists_atSmall given.currBelow given.allocated given.currAbove
        given.small noMark
    rw [← sweptState_free given.currBelow given.allocated noMark]
    exact atSmall.before.free_nodup

/-- A linked block belongs to the superblock in which it is linked. -/
theorem owner_of_linked
    (given : Marked region image marked n)
    {block : Nat}
    (member : block ∈ linkedIn region image marked k) :
    region.owner block = k := by
  obtain ⟨anyMark, isBlock, -⟩ :=
    (mem_linkedIn given.currBelow given.allocated given.currAbove
      given.small).mp member
  obtain ⟨sc, ok, -⟩ := given.persistentOk anyMark
  exact ok.owner_eq given.currBelow isBlock

/-- After recovery no thread holds a block. -/
theorem content_cache
    (thread sc : Nat) :
    (recoveredHeap region image marked n).content (.cache thread sc) = [] :=
  rfl

/-- The blocks of the superblocks with marks are the blocks in use. -/
theorem isBlock_iff
    (given : Marked region image marked n)
    {block : Nat} :
    (recoveredHeap region image marked n).IsBlock region block ↔
      ∃ k,
        marksIn region marked k ≠ [] ∧ IsBlock (image.desc k) block := by
  constructor
  · rintro ⟨k, inUse, member⟩
    rcases given.desc_cases k with
      ⟨unused, -⟩ | ⟨sc, ok, -, anyMark, -, isDesc⟩
    · exact absurd unused inUse
    · obtain ⟨index, early, rfl⟩ := Heap.mem_blocks.mp member
      rw [isDesc] at early ⊢
      exact ⟨k, anyMark, index, early, by rw [ok.superblock]⟩
  · rintro ⟨k, anyMark, index, early, rfl⟩
    rcases given.desc_cases k with
      ⟨-, noMark⟩ | ⟨sc, ok, -, -, -, isDesc⟩
    · exact absurd noMark anyMark
    · refine ⟨k, ?_, Heap.mem_blocks.mpr ⟨index, ?_, ?_⟩⟩
      · rw [isDesc, ok.heap]
        exact Option.some_ne_none sc
      · rw [isDesc]
        exact early
      · rw [isDesc, ok.superblock]

/-- A marked block is a block of a superblock with marks. -/
theorem isBlock_of_marked
    (given : Marked region image marked n)
    {block : Nat}
    (isMarked : block ∈ marked) :
    marksIn region marked (region.owner block) ≠ [] ∧
      IsBlock (image.desc (region.owner block)) block := by
  obtain ⟨-, -, isBlock, -⟩ :=
    (given.allocated block isMarked).position given.currBelow
  exact ⟨List.ne_nil_of_mem (mem_marksIn.mpr ⟨isMarked, rfl⟩), isBlock⟩

/-- After recovery the blocks are split between the users and the chains. -/
theorem placement
    (given : Marked region image marked n) :
    Heap.Placement region (recoveredHeap region image marked n) := by
  have isLive :
      (recoveredHeap region image marked n).content .live = marked.sort :=
    rfl
  have isChain :
      ∀ k,
        (recoveredHeap region image marked n).content (.chain k) =
          (linkedIn region image marked k).reverse :=
    given.chain
  have unmarked :
      ∀ k block,
        block ∈ linkedIn region image marked k → block ∉ marked :=
    fun k block member =>
      ((mem_linkedIn given.currBelow given.allocated given.currAbove
        given.small).mp member).2.2
  have chainLive :
      ∀ k,
        ((recoveredHeap region image marked n).content (.chain k)).Disjoint
          ((recoveredHeap region image marked n).content .live) := by
    intro k block inChain inLive
    rw [isChain, List.mem_reverse] at inChain
    rw [isLive, Finset.mem_sort] at inLive
    exact unmarked k block inChain inLive
  refine ⟨⟨?_, ?_, ?_⟩, ?_⟩
  · rintro (k | ⟨thread, sc⟩ | -)
    · rw [isChain, List.nodup_reverse]
      exact given.linkedIn_nodup k
    · exact List.nodup_nil
    · rw [isLive]
      exact Finset.sort_nodup marked _
  · rintro (k | ⟨thread, sc⟩ | -) (k' | ⟨thread', sc'⟩ | -) distinct
    · intro block inFirst inSecond
      rw [isChain, List.mem_reverse] at inFirst inSecond
      have first := given.owner_of_linked inFirst
      have second := given.owner_of_linked inSecond
      exact distinct (congrArg Heap.Place.chain (first.symm.trans second))
    · exact List.disjoint_nil_right _
    · exact chainLive k
    · exact List.disjoint_nil_left _
    · exact List.disjoint_nil_left _
    · exact List.disjoint_nil_left _
    · exact (chainLive k').symm
    · exact List.disjoint_nil_right _
    · exact absurd rfl distinct
  · intro block
    rw [given.isBlock_iff]
    constructor
    · rintro ⟨k, anyMark, isBlock⟩
      by_cases isMarked : block ∈ marked
      · refine ⟨.live, ?_⟩
        rw [isLive, Finset.mem_sort]
        exact isMarked
      · refine ⟨.chain k, ?_⟩
        rw [isChain, List.mem_reverse,
          mem_linkedIn given.currBelow given.allocated given.currAbove
            given.small]
        exact ⟨anyMark, isBlock, isMarked⟩
    · rintro ⟨k | ⟨thread, sc⟩ | -, member⟩
      · rw [isChain, List.mem_reverse,
          mem_linkedIn given.currBelow given.allocated given.currAbove
            given.small] at member
        exact ⟨k, member.1, member.2.1⟩
      · exact absurd member List.not_mem_nil
      · rw [isLive, Finset.mem_sort] at member
        exact ⟨region.owner block, given.isBlock_of_marked member⟩
  · rintro (k | ⟨thread, sc⟩ | -) block member
    · rw [isChain, List.mem_reverse] at member
      exact given.owner_of_linked member
    · exact absurd member List.not_mem_nil
    · trivial

/-- The recovered heap keeps the invariant of the allocator. -/
theorem inv
    (given : Marked region image marked n) :
    Heap.Inv region (recoveredHeap region image marked n) :=
  ⟨given.control, given.placement⟩

end Marked

end Recovered

end Gc

end Bxalloc
