import Bxalloc.HeapRuns

namespace Bxalloc

/-!
# Conservation of superblocks

Every superblock below `curr_addr` should be in use or queued.
`small_sb_retire` erases the descriptor of a superblock without queueing it, so
this holds exactly in the runs in which no call retires a small superblock.
-/

open Lib (Memory Reaches)

namespace Heap

variable {region : SbRegion} {heap heap' : Heap}

/-- Every superblock but the first is queued once and blank, or in use. -/
def Conserved (region : SbRegion) (heap : Heap) : Prop :=
  ∀ k,
    1 ≤ k →
    k < (heap.currAddr - region.start) / sbSize →
    (heap.queue.count k = 1 ∧ (heap.desc k).heap = none) ∨
      heap.queue.count k = 0 ∧ (heap.desc k).heap ≠ none

/-- Without stray superblocks the invariant gives conservation. -/
theorem Inv.conserved
    (inv : Inv region heap)
    (noStray : ∀ j, ¬ Stray region heap j) :
    Conserved region heap := by
  intro k positive below
  have inside : region.sbAddr k + sbSize ≤ heap.currAddr := by
    unfold SbRegion.sbAddr
    simp only [sbSize, pageSize] at below ⊢
    omega
  by_cases blank : (heap.desc k).heap = none
  · left
    refine ⟨?_, blank⟩
    apply List.count_eq_one_of_mem inv.control.queueNodup
    by_contra absent
    exact noStray k ⟨⟨blank, positive, inside⟩, absent⟩
  · right
    refine ⟨?_, blank⟩
    rw [List.count_eq_zero]
    intro queued
    exact blank (inv.control.queueSpare k queued).blank

/-- A stray superblock breaks conservation. -/
theorem Stray.not_conserved
    {k : Nat}
    (stray : Stray region heap k) :
    ¬ Conserved region heap := by
  intro conserved
  have inside := stray.spare.inside
  have below : k < (heap.currAddr - region.start) / sbSize := by
    unfold SbRegion.sbAddr at inside
    simp only [sbSize, pageSize] at inside ⊢
    omega
  rcases conserved k stray.spare.indexPos below with ⟨once, -⟩ | ⟨-, used⟩
  · have queued : k ∈ heap.queue := List.one_le_count_iff.mp (by omega)
    exact stray.notQueued queued
  · exact used stray.spare.blank

/-- Steps that retire no small superblock. -/
def QuietStep
    (region : SbRegion)
    (before : Heap)
    (call : Call)
    (after : Heap) : Prop :=
  Step region before call after ∧ ¬ Retires region before call

/-- Runs without retirements conserve all superblocks. -/
theorem conserved_of_quiet
    (reached : Reaches (Fresh region) (QuietStep region) heap) :
    Conserved region heap := by
  have kept : Inv region heap ∧ ∀ j, ¬ Stray region heap j := by
    refine reached.invariant (fun _ fresh => fresh.inv) ?_
    intro before call after held quiet
    obtain ⟨newInv, strays⟩ := quiet.1.inv held.1
    refine ⟨newInv, ?_⟩
    intro j stray
    rcases strays j stray with old | retiring
    · exact held.2 j old
    · exact quiet.2 retiring
  exact kept.1.conserved kept.2

/-- The first malloc of 24 KiB retires nothing. -/
theorem Constructed.malloc_quiet
    {rest : List Nat}
    (made : Constructed region heap rest) :
    ¬ Retires region heap (.malloc 0 24576) := by
  rintro ⟨-, sc, -, -, k, below, shape, -⟩
  rw [made.partialList] at shape
  cases shape

/-- After a malloc in the example region all superblocks are conserved. -/
theorem conserved_of_quiet_served :
    ∃ heap,
      Reaches (Fresh exampleRegion) (QuietStep exampleRegion) heap ∧
        (heap.desc 1).heap = some 159 ∧
        Conserved exampleRegion heap := by
  obtain ⟨heap, fresh⟩ := exists_fresh exampleRegion_room
  obtain ⟨rest, made⟩ := fresh.constructed
  have reached :=
    (Reaches.start fresh).next
      (show QuietStep exampleRegion heap (.malloc 0 24576) _ from
        ⟨.malloc (by decide) (by decide) made.doMalloc, made.malloc_quiet⟩)
  refine ⟨_, reached, ?_, conserved_of_quiet reached⟩
  change ((firstServed exampleRegion rest heap).desc 1).heap = _
  rw [firstServed_desc]
  rfl

/-- A run of all blocks of a full superblock is flushed by retiring it. -/
theorem flushRun_whole
    {thread sc k tail blockCount : Nat}
    (headOwner : region.owner (heap.cache thread sc).list = k)
    (gathered :
      BaseMeta.gatherRun heap.memory (heap.desc k).superblock
          ((heap.cache thread sc).size - 1)
          (heap.cache thread sc).list 1 =
        (tail, blockCount))
    (full : (heap.desc k).anchor.state = .sbFull)
    (complete :
      (heap.desc k).anchor.count + blockCount = (heap.desc k).maxcount)
    (sbOwner : region.owner (heap.desc k).superblock = k) :
    ∃ heap',
      BaseMeta.flushRun region thread sc heap = .ok heap' ∧
        (heap'.desc k).heap = none ∧
        heap'.queue = heap.queue ∧
        heap'.currAddr = heap.currAddr ∧
        (heap'.cache thread sc).size =
          (heap.cache thread sc).size - blockCount := by
  let cache := heap.cache thread sc
  let empty : Anchor :=
    { avail := computeIdx (heap.desc k).superblock cache.list sc
      count := (heap.desc k).maxcount - 1
      state := .sbEmpty }
  let flushed : Heap :=
    { (heap.setCache thread sc
        (cache.popList (readLink heap.memory tail) blockCount)).setAnchor
          k empty with
      memory :=
        writeLink heap.memory tail
          ((heap.desc k).superblock +
            (heap.desc k).anchor.avail * ClassSize.indexToSize sc) }
  refine ⟨flushed.setDesc k .blank, ?_, ?_, rfl, rfl, ?_⟩
  · unfold BaseMeta.flushRun
    simp only [headOwner, gathered, full, if_true, BaseMeta.flushAnchor,
      complete, BaseMeta.smallSbRetire, sbOwner]
    rfl
  · simp [setDesc, Descriptor.blank]
  · have sameList :
        (flushed.setDesc k .blank).cache thread sc =
          cache.popList (readLink heap.memory tail) blockCount :=
      setCache_self thread sc _
    rw [sameList]
    rfl

/-- Classes with empty lists are skipped by `public_flush_cache`. -/
theorem flushClasses_last
    {thread sc more : Nat}
    (emptied :
      ∀ sc',
        sc ≤ sc' →
        sc' < sc + more →
        (heap.cache thread sc').size = 0) :
    BaseMeta.flushClasses region thread sc (more + 1) heap =
      BaseMeta.flushCache region thread (sc + more) heap := by
  induction more generalizing sc with
  | zero =>
      unfold BaseMeta.flushClasses
      cases BaseMeta.flushCache region thread sc heap with
      | error fault => rfl
      | ok after => rfl
  | succ more inductionHypothesis =>
      unfold BaseMeta.flushClasses
      rw [BaseMeta.flushCache, emptied sc (by omega) (by omega),
        show sc + (more + 1) = sc + 1 + more by omega]
      exact inductionHypothesis
        fun sc' lower upper => emptied sc' (by omega) (by omega)

/-- The heap after the first block of 24 KiB is freed again. -/
def firstFreed
    (region : SbRegion)
    (rest : List Nat)
    (heap : Heap) : Heap :=
  { (firstServed region rest heap).setCache 0 159
      ⟨region.sbAddr 1, 2, 2⟩ with
    memory :=
      writeLink (firstServed region rest heap).memory (region.sbAddr 1)
        (region.sbAddr 1 + 24576)
    live := [] }

section Leak

variable {rest : List Nat}

/-- Freeing the block puts both blocks of superblock 1 in the free list. -/
theorem Constructed.free_reaches
    (made : Constructed region heap rest) :
    Reaches (Fresh region) (Step region) (firstFreed region rest heap) := by
  obtain ⟨inside, low⟩ := made.low
  have sbOwner : region.owner (region.sbAddr 1) = 1 :=
    owner_sbAddr (by omega)
  let served : Heap :=
    { firstServed region rest heap with live := [region.sbAddr 1] }
  have servedDesc : served.desc 1 = _ := firstServed_desc region rest heap
  have servedCache : served.cache 0 159 = _ :=
    firstServed_cache region rest heap
  have inRange :
      region.start ≤ region.sbAddr 1 ∧ region.sbAddr 1 < served.currAddr := by
    refine ⟨Nat.le_add_right _ _, ?_⟩
    change region.sbAddr 1 < heap.currAddr
    simp only [sbSize, pageSize] at inside
    omega
  have positive := region.positive
  have returned :
      BaseMeta.doFree region 0 (region.sbAddr 1) served =
        .ok { firstFreed region rest heap with
          live := [region.sbAddr 1] } := by
    unfold BaseMeta.doFree
    rw [if_neg (by omega), if_neg (not_not.mpr inRange), sbOwner, servedDesc]
    simp only [smallDesc]
    rw [if_neg (by decide), servedCache]
    rfl
  have step := Step.free List.mem_cons_self returned
  have noneLive :
      [region.sbAddr 1].erase (region.sbAddr 1) = [] := by
    simp
  simp only [noneLive] at step
  exact made.reaches.next step

/-- The end of the thread flushes the list and loses superblock 1. -/
theorem Constructed.exit_reaches
    (made : Constructed region heap rest) :
    ∃ final,
      Reaches (Fresh region) (Step region) final ∧
        Stray region final 1 := by
  obtain ⟨inside, low⟩ := made.low
  have sbOwner : region.owner (region.sbAddr 1) = 1 :=
    owner_sbAddr (by omega)
  let freed := firstFreed region rest heap
  have freedDesc :
      freed.desc 1 =
        smallDesc (region.sbAddr 1) 159
          { avail := 2, count := 0, state := .sbFull } :=
    firstServed_desc region rest heap
  have freedCache : freed.cache 0 159 = ⟨region.sbAddr 1, 2, 2⟩ := by
    change ((firstServed region rest heap).setCache 0 159 _).cache 0 159 = _
    exact setCache_self 0 159 _
  have gathered :
      BaseMeta.gatherRun freed.memory (freed.desc 1).superblock
          ((freed.cache 0 159).size - 1) (freed.cache 0 159).list 1 =
        (region.sbAddr 1 + 24576, 2) := by
    have readBack :
        readLink freed.memory (region.sbAddr 1) =
          region.sbAddr 1 + 24576 := by
      simp only [sbSize, pageSize] at inside
      exact readLink_writeLink_same _ (by omega) (by omega)
    have stays :
        ¬ (region.sbAddr 1 + 24576 < region.sbAddr 1 ∨
          region.sbAddr 1 + sbSize ≤ region.sbAddr 1 + 24576) := by
      simp only [sbSize, pageSize]
      omega
    rw [freedDesc, freedCache]
    simp only [smallDesc, BaseMeta.gatherRun, readBack, if_neg stays]
  have headOwner : region.owner (freed.cache 0 159).list = 1 := by
    rw [freedCache]
    exact sbOwner
  obtain ⟨after, round, blank, sameQueue, sameCurr, sizeShape⟩ :=
    flushRun_whole headOwner gathered
      (by rw [freedDesc]; rfl)
      (by rw [freedDesc]; exact largestClass.2.1.symm)
      (by rw [freedDesc]; exact sbOwner)
  have nowEmpty : (after.cache 0 159).size = 0 := by
    rw [sizeShape, freedCache]
    exact Nat.sub_self 2
  have flushed : BaseMeta.flushCache region 0 159 freed = .ok after := by
    unfold BaseMeta.flushCache
    rw [freedCache]
    unfold BaseMeta.flushLoop
    rw [freedCache, if_pos Nat.two_pos, round]
    change BaseMeta.flushLoop region 0 159 1 after = _
    unfold BaseMeta.flushLoop
    rw [nowEmpty, if_neg (Nat.lt_irrefl 0)]
  have othersEmpty :
      ∀ sc, 0 ≤ sc → sc < 0 + 159 → (freed.cache 0 sc).size = 0 := by
    intro sc _ upper
    have distinct : ¬ ((0 : Nat) = 0 ∧ sc = 159) := by
      omega
    have same : freed.cache 0 sc = heap.cache 0 sc := by
      simp only [freed, firstFreed, firstServed, filledLargest]
      rw [setCache_other _ distinct, setCache_other _ distinct,
        setCache_other _ distinct]
      rfl
    rw [same, made.cache]
    rfl
  have returned : BaseMeta.publicFlushCache region 0 freed = .ok after := by
    have last : nlist = 159 + 1 := by
      decide
    unfold BaseMeta.publicFlushCache
    generalize nlist = count at last
    rw [last, flushClasses_last othersEmpty, Nat.zero_add]
    exact flushed
  have absent : 1 ∉ rest := by
    have distinct := made.fresh.inv.1.control.queueNodup
    rw [made.queue] at distinct
    exact (List.nodup_cons.mp distinct).1
  refine ⟨after.endThread 0, made.free_reaches.next (.exit returned),
    ⟨blank, Nat.le_refl 1, ?_⟩, ?_⟩
  · change region.sbAddr 1 + sbSize ≤ after.currAddr
    rw [sameCurr]
    exact inside
  · change 1 ∉ after.queue
    rw [sameQueue]
    exact absent

end Leak

/-- A reachable heap in which a retired superblock is neither used nor queued. -/
theorem retired_superblock_lost :
    ∃ heap,
      Reaches (Fresh exampleRegion) (Step exampleRegion) heap ∧
        ¬ Conserved exampleRegion heap := by
  obtain ⟨heap, fresh⟩ := exists_fresh exampleRegion_room
  obtain ⟨rest, made⟩ := fresh.constructed
  obtain ⟨final, reached, stray⟩ := made.exit_reaches
  exact ⟨final, reached, stray.not_conserved⟩

end Heap

end Bxalloc
