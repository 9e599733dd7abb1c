import Bxalloc.GcRebuild
import Bxalloc.HeapRuns

namespace Bxalloc

/-!
# What a round leaves of a small superblock

When all marks are block starts, the round leaves exactly the other blocks on
the free chain.  The default filter also marks addresses inside blocks; the
cursor of the sweep then leaves the block boundaries, and the chain is safe
only for the mark patterns of `MarksFit`.
-/

open Lib (Memory strides gaps SlotStart SafeSlot NeighboursFit LastFits)

namespace Gc

variable {region : SbRegion} {state : Sweep} {sc : Nat} {here later : List Nat}

/-- The blocks on the free chain that an anchor describes. -/
def freeChain (heap : Heap) (k : Nat) : List Nat :=
  let desc := heap.desc k
  List.iterate (readLink heap.memory)
    (desc.superblock + desc.anchor.avail * desc.blockSize) desc.anchor.count

/-- The blocks that the round over the current superblock links. -/
def Sweep.free (state : Sweep) (here : List Nat) : List Nat :=
  freeBlocks (state.heap.desc state.currDesc) state.currSb here

/-- The blocks of a superblock end inside it. -/
theorem SmallInUse.blocksEnd_le
    {desc : Descriptor}
    {currSb : Nat}
    (small : SmallInUse desc currSb sc) :
    blocksEnd desc currSb ≤ currSb + sbSize ∧
      currSb + sbSize < blocksEnd desc currSb + desc.blockSize := by
  have holdsLink := small.holdsLink
  have division := Nat.div_add_mod sbSize desc.blockSize
  have remainder := Nat.mod_lt sbSize (show 0 < desc.blockSize by omega)
  unfold blocksEnd
  rw [small.maxcount, Nat.mul_comm]
  omega

namespace AtSuperblock

/-- Linked blocks lie in the superblock. -/
theorem mem_free
    (before : AtSuperblock state sc here later)
    {block : Nat}
    (member : block ∈ state.free here) :
    state.currSb ≤ block ∧ block < state.currSb + sbSize := by
  have holdsLink := before.small.holdsLink
  constructor
  · refine Lib.le_of_mem_gaps (by omega) before.sorted ?_ member
    intro mark isMark
    have := before.inside mark isMark
    omega
  · refine Lib.lt_of_mem_gaps (by omega) ?_ before.small.blocksEnd_le.1 member
    intro mark isMark
    exact Nat.le_of_lt (before.inside mark isMark).2

/-- Linked blocks are at least one block size apart. -/
theorem free_spaced
    (before : AtSuperblock state sc here later) :
    (state.free here).Pairwise fun a b =>
      a + (state.heap.desc state.currDesc).blockSize ≤ b := by
  have holdsLink := before.small.holdsLink
  exact Lib.gaps_spaced (by omega) before.sorted

/-- No block is linked twice. -/
theorem free_nodup
    (before : AtSuperblock state sc here later) :
    (state.free here).Nodup := by
  have holdsLink := before.small.holdsLink
  refine before.free_spaced.imp ?_
  intro a b apart same
  omega

/-- The round completes if the last linked block has an index. -/
theorem sweepStep_ok
    (before : AtSuperblock state sc here later)
    (aligned :
      TopAligned (state.heap.desc state.currDesc) state.currSb
        (state.free here)) :
    sweepStep region state =
      .ok (state.advance later (rebuiltHeap sc state (state.free here))) := by
  have nonzero : ∀ block, block ∈ state.free here → 0 < block := by
    intro block member
    have := (before.mem_free member).1
    have := before.small.nonzero
    omega
  rw [sweepStep_small before]
  change finishBuilt sc state
    (Built.ofBlocks state.heap.memory (state.free here)) >>= _ = _
  rw [(finishBuilt_ofBlocks nonzero).1 aligned, ok_bind]

/-- Otherwise an assertion fails. -/
theorem sweepStep_badHead
    (before : AtSuperblock state sc here later)
    (notAligned :
      ¬ TopAligned (state.heap.desc state.currDesc) state.currSb
        (state.free here)) :
    sweepStep region state = .error .badHead := by
  have nonzero : ∀ block, block ∈ state.free here → 0 < block := by
    intro block member
    have := (before.mem_free member).1
    have := before.small.nonzero
    omega
  rw [sweepStep_small before]
  change finishBuilt sc state
    (Built.ofBlocks state.heap.memory (state.free here)) >>= _ = _
  rw [(finishBuilt_ofBlocks nonzero).2 notAligned]
  rfl

end AtSuperblock

/-- The rebuilt descriptor differs in its anchor only. -/
theorem rebuiltHeap_desc
    (free : List Nat) :
    (rebuiltHeap sc state free).desc =
      Function.update state.heap.desc state.currDesc
        { state.heap.desc state.currDesc with
          anchor :=
            rebuiltAnchor (state.heap.desc state.currDesc) state.currSb
              free } := by
  unfold rebuiltHeap
  dsimp only
  split <;> rfl

theorem rebuiltHeap_memory
    (free : List Nat) :
    (rebuiltHeap sc state free).memory =
      (Built.ofBlocks state.heap.memory free).memory := by
  unfold rebuiltHeap
  dsimp only
  split <;> rfl

theorem rebuiltHeap_partialList
    (free : List Nat) :
    (rebuiltHeap sc state free).partialList =
      if free = [] then
        state.heap.partialList
      else
        Function.update state.heap.partialList sc
          (state.currDesc :: state.heap.partialList sc) := by
  unfold rebuiltHeap
  dsimp only
  split <;> rfl

namespace AtSuperblock

/-- The anchor points to the block that was linked last. -/
theorem rebuilt_head
    (before : AtSuperblock state sc here later)
    {top : Nat}
    (isTop : (state.free here).getLast? = some top)
    (aligned :
      TopAligned (state.heap.desc state.currDesc) state.currSb
        (state.free here)) :
    state.currSb +
        (rebuiltAnchor (state.heap.desc state.currDesc) state.currSb
          (state.free here)).avail *
            (state.heap.desc state.currDesc).blockSize = top := by
  have lower := (before.mem_free (List.mem_of_getLast? isTop)).1
  unfold rebuiltAnchor
  rw [isTop]
  change state.currSb + (top - state.currSb) / _ * _ = top
  rw [Nat.div_mul_cancel (Nat.dvd_of_mod_eq_zero (aligned top isTop))]
  omega

/-- Following the links from the rebuilt anchor. -/
theorem rebuilt_chain
    (before : AtSuperblock state sc here later)
    (aligned :
      TopAligned (state.heap.desc state.currDesc) state.currSb
        (state.free here)) :
    freeChain (rebuiltHeap sc state (state.free here)) state.currDesc =
        (state.free here).reverse ∧
      ∀ top,
        (state.free here).getLast? = some top →
        (readLink (rebuiltHeap sc state (state.free here)).memory)^[
          (state.free here).length] top = 0 := by
  have holdsLink := before.small.holdsLink
  have spaced : (state.free here).Pairwise fun a b => a + 8 ≤ b := by
    refine before.free_spaced.imp ?_
    intro a b apart
    omega
  have low : ∀ block, block ∈ state.free here → block < 2 ^ 48 := by
    intro block member
    have := (before.mem_free member).2
    have := before.small.userSpace
    omega
  obtain ⟨visited, ended, -⟩ :=
    @Built.ofBlocks_chain state.heap.memory _ spaced low
  rw [Built.ofBlocks_head] at visited ended
  unfold freeChain
  rw [rebuiltHeap_desc, Function.update_self, rebuiltHeap_memory]
  cases isTop : (state.free here).getLast? with
  | none =>
      have isNil : state.free here = [] := List.getLast?_eq_none_iff.mp isTop
      refine ⟨?_, fun top absent => by cases absent⟩
      unfold rebuiltAnchor
      rw [isTop, isNil]
      rfl
  | some top =>
      rw [isTop, Option.getD_some] at visited ended
      have atHead := before.rebuilt_head isTop aligned
      refine ⟨?_, ?_⟩
      · dsimp only
        rw [before.small.ownSb, atHead]
        unfold rebuiltAnchor
        rw [isTop]
        exact visited
      · intro other same
        cases same
        exact ended

end AtSuperblock

/-- The marks of the current superblock come first. -/
theorem atSuperblock_of_sort
    {marked : Finset Nat}
    (small :
      SmallInUse (state.heap.desc state.currDesc) state.currSb sc)
    (nonempty : marked.Nonempty)
    (inside :
      ∀ mark,
        mark ∈ marked →
        state.currSb ≤ mark ∧ mark < state.currSb + sbSize)
    (marks : state.marks = marked.sort ++ later)
    (behind : ∀ mark, mark ∈ later → state.currSb + sbSize ≤ mark) :
    AtSuperblock state sc marked.sort later where
  small := small
  marks := marks
  anyMark isNil := by
    have sameLength := marked.length_sort (· ≤ ·)
    rw [isNil] at sameLength
    exact nonempty.card_ne_zero sameLength.symm
  sorted := (Finset.sortedLT_sort marked).pairwise
  inside mark member := inside mark ((marked.mem_sort _).mp member)
  behind := behind

/-- The block with index `k`, one of the blocks of a superblock. -/
def IsBlock (desc : Descriptor) (block : Nat) : Prop :=
  ∃ k, k < desc.maxcount ∧ block = desc.superblock + k * desc.blockSize

theorem isBlock_iff
    {desc : Descriptor}
    {block : Nat}
    (positive : 0 < desc.blockSize) :
    IsBlock desc block ↔
      SlotStart desc.superblock desc.blockSize block ∧
        block < blocksEnd desc desc.superblock := by
  unfold IsBlock SlotStart blocksEnd
  constructor
  · rintro ⟨k, counted, rfl⟩
    have fewer : k * desc.blockSize < desc.maxcount * desc.blockSize :=
      Nat.mul_lt_mul_of_pos_right counted positive
    exact ⟨⟨k, rfl⟩, by omega⟩
  · rintro ⟨⟨k, rfl⟩, below⟩
    have fewer : k * desc.blockSize < desc.maxcount * desc.blockSize := by
      omega
    exact ⟨k, Nat.lt_of_mul_lt_mul_right fewer, rfl⟩

/-- What a round leaves of a superblock with the given marks. -/
structure Rebuilt
    (state : Sweep)
    (sc : Nat)
    (marked : Finset Nat)
    (later : List Nat)
    (next : Sweep) : Prop where
  /-- The round goes on to the next superblock behind the marks of this one. -/
  consumed :
    next.currSb = state.currSb + sbSize ∧
      next.currDesc = state.currDesc + 1 ∧ next.marks = later
  count :
    (next.heap.desc state.currDesc).anchor.count =
      (state.heap.desc state.currDesc).maxcount - marked.card
  full :
    marked.card = (state.heap.desc state.currDesc).maxcount →
    (next.heap.desc state.currDesc).anchor.state = .sbFull ∧
      (next.heap.desc state.currDesc).anchor.avail =
        (state.heap.desc state.currDesc).maxcount
  notFull :
    marked.card < (state.heap.desc state.currDesc).maxcount →
    (next.heap.desc state.currDesc).anchor.state = .sbPartial ∧
      (next.heap.desc state.currDesc).anchor.avail <
        (state.heap.desc state.currDesc).maxcount ∧
      state.currSb +
          (next.heap.desc state.currDesc).anchor.avail *
            (state.heap.desc state.currDesc).blockSize ∉ marked
  /-- The links from `avail` visit the unmarked blocks. -/
  visits :
    ∀ block,
      block ∈ freeChain next.heap state.currDesc ↔
        IsBlock (state.heap.desc state.currDesc) block ∧ block ∉ marked
  once : (freeChain next.heap state.currDesc).Nodup
  ends :
    (next.heap.desc state.currDesc).anchor.state = .sbPartial →
    (readLink next.heap.memory)^[
        (next.heap.desc state.currDesc).anchor.count]
      (state.currSb +
        (next.heap.desc state.currDesc).anchor.avail *
          (state.heap.desc state.currDesc).blockSize) = 0
  pushed :
    next.heap.partialList =
      if (next.heap.desc state.currDesc).anchor.state = .sbPartial then
        Function.update state.heap.partialList sc
          (state.currDesc :: state.heap.partialList sc)
      else
        state.heap.partialList

namespace AtSuperblock

variable
  (before : AtSuperblock state sc here later)
  (starts :
    ∀ mark, mark ∈ here → IsBlock (state.heap.desc state.currDesc) mark)

include before starts

/-- Marks that are blocks are slot starts before the end of the blocks. -/
theorem slot_of_start
    {mark : Nat}
    (member : mark ∈ here) :
    SlotStart state.currSb (state.heap.desc state.currDesc).blockSize mark ∧
      mark < blocksEnd (state.heap.desc state.currDesc) state.currSb := by
  have holdsLink := before.small.holdsLink
  have isBlock := (isBlock_iff (by omega)).mp (starts mark member)
  rw [before.small.ownSb] at isBlock
  exact isBlock

/-- If all marks are block starts, the other blocks are linked. -/
theorem mem_free_iff
    {block : Nat} :
    block ∈ state.free here ↔
      IsBlock (state.heap.desc state.currDesc) block ∧ block ∉ here := by
  have holdsLink := before.small.holdsLink
  have originStart :
      SlotStart state.currSb (state.heap.desc state.currDesc).blockSize
        state.currSb :=
    ⟨0, by rw [Nat.zero_mul, Nat.add_zero]⟩
  unfold Sweep.free freeBlocks
  rw [Lib.mem_gaps_of_starts (by omega) before.sorted
      (fun mark member => (before.slot_of_start starts member).1)
      (fun mark member =>
        ⟨(before.inside mark member).1,
          (before.slot_of_start starts member).2⟩)
      originStart,
    isBlock_iff (by omega), before.small.ownSb]
  constructor
  · rintro ⟨isStart, -, below, absent⟩
    exact ⟨⟨isStart, below⟩, absent⟩
  · rintro ⟨⟨⟨k, rfl⟩, below⟩, absent⟩
    exact ⟨⟨k, rfl⟩, by omega, below, absent⟩

/-- Marks and linked blocks together are all blocks. -/
theorem free_length :
    (state.free here).length + here.length =
      (state.heap.desc state.currDesc).maxcount := by
  have holdsLink := before.small.holdsLink
  have originStart :
      SlotStart state.currSb (state.heap.desc state.currDesc).blockSize
        state.currSb :=
    ⟨0, by rw [Nat.zero_mul, Nat.add_zero]⟩
  have endStart :
      SlotStart state.currSb (state.heap.desc state.currDesc).blockSize
        (blocksEnd (state.heap.desc state.currDesc) state.currSb) :=
    ⟨_, rfl⟩
  have filled :=
    Lib.gaps_length_of_starts (by omega) before.sorted
      (fun mark member => (before.slot_of_start starts member).1)
      (fun mark member =>
        ⟨(before.inside mark member).1,
          (before.slot_of_start starts member).2⟩)
      originStart endStart (Nat.le_add_right _ _)
  exact Nat.eq_of_mul_eq_mul_right (by omega) (Nat.add_left_cancel filled)

/-- The block in front of the chain is a block. -/
theorem topAligned :
    TopAligned (state.heap.desc state.currDesc) state.currSb
      (state.free here) := by
  intro top isTop
  obtain ⟨k, -, rfl⟩ :=
    ((before.mem_free_iff starts).mp (List.mem_of_getLast? isTop)).1
  rw [before.small.ownSb, Nat.add_sub_cancel_left, Nat.mul_mod_left]

/-- The anchor of a superblock that is not full names a free block. -/
theorem anchor_of_free
    (someFree : state.free here ≠ []) :
    ∃ k,
      k < (state.heap.desc state.currDesc).maxcount ∧
        (state.free here).getLast? =
          some (state.currSb +
            k * (state.heap.desc state.currDesc).blockSize) ∧
        state.currSb + k * (state.heap.desc state.currDesc).blockSize ∉
          here ∧
        rebuiltAnchor (state.heap.desc state.currDesc) state.currSb
            (state.free here) =
          { avail := k
            count := (state.free here).length
            state := .sbPartial } := by
  have holdsLink := before.small.holdsLink
  have isTop := List.getLast?_eq_some_getLast someFree
  obtain ⟨⟨k, counted, isBlock⟩, unmarked⟩ :=
    (before.mem_free_iff starts).mp (List.mem_of_getLast? isTop)
  rw [before.small.ownSb] at isBlock
  rw [isBlock] at isTop unmarked
  refine ⟨k, counted, isTop, unmarked, ?_⟩
  unfold rebuiltAnchor
  rw [isTop]
  simp only [Nat.add_sub_cancel_left]
  rw [Nat.mul_div_cancel k (by omega)]

end AtSuperblock

/--
For every small superblock in use and every non-empty set of its blocks: one
round rebuilds anchor, chain and partial list exactly and consumes the marks.
-/
theorem small_superblock_rebuilt
    (region : SbRegion)
    {marked : Finset Nat}
    (small :
      SmallInUse (state.heap.desc state.currDesc) state.currSb sc)
    (nonempty : marked.Nonempty)
    (starts :
      ∀ mark,
        mark ∈ marked → IsBlock (state.heap.desc state.currDesc) mark)
    (marks : state.marks = marked.sort ++ later)
    (behind : ∀ mark, mark ∈ later → state.currSb + sbSize ≤ mark) :
    ∃ next,
      sweepStep region state = .ok next ∧
        Rebuilt state sc marked later next := by
  have holdsLink := small.holdsLink
  have ends := small.blocksEnd_le
  have inside :
      ∀ mark,
        mark ∈ marked →
        state.currSb ≤ mark ∧ mark < state.currSb + sbSize := by
    intro mark member
    obtain ⟨⟨k, rfl⟩, below⟩ :=
      (isBlock_iff (by omega)).mp (starts mark member)
    rw [small.ownSb] at below ⊢
    omega
  have before := atSuperblock_of_sort small nonempty inside marks behind
  have sortStarts :
      ∀ mark,
        mark ∈ marked.sort →
        IsBlock (state.heap.desc state.currDesc) mark :=
    fun mark member => starts mark ((marked.mem_sort _).mp member)
  have aligned := before.topAligned sortStarts
  have total := before.free_length sortStarts
  rw [Finset.length_sort] at total
  obtain ⟨chain, chainEnds⟩ := before.rebuilt_chain aligned
  have isDesc :
      (rebuiltHeap sc state (state.free marked.sort)).desc state.currDesc =
        { state.heap.desc state.currDesc with
          anchor :=
            rebuiltAnchor (state.heap.desc state.currDesc) state.currSb
              (state.free marked.sort) } := by
    rw [rebuiltHeap_desc, Function.update_self]
  have visits :
      ∀ block,
        block ∈
            freeChain (rebuiltHeap sc state (state.free marked.sort))
              state.currDesc ↔
          IsBlock (state.heap.desc state.currDesc) block ∧
            block ∉ marked := by
    intro block
    rw [chain, List.mem_reverse, before.mem_free_iff sortStarts,
      Finset.mem_sort]
  have once := List.nodup_reverse.mpr before.free_nodup
  rw [← chain] at once
  have pushed := @rebuiltHeap_partialList state sc (state.free marked.sort)
  refine ⟨_, before.sweepStep_ok aligned, ?_⟩
  rcases eq_or_ne (state.free marked.sort) [] with noFree | someFree
  · have isAnchor :
        rebuiltAnchor (state.heap.desc state.currDesc) state.currSb
            (state.free marked.sort) =
          { avail := (state.heap.desc state.currDesc).maxcount
            count := 0
            state := .sbFull } := by
      rw [noFree]
      rfl
    rw [noFree, List.length_nil] at total
    rw [isAnchor] at isDesc
    rw [if_pos noFree] at pushed
    refine ⟨⟨rfl, rfl, rfl⟩, ?_, ?_, ?_, visits, once, ?_, ?_⟩
    all_goals simp only [Sweep.advance, isDesc]
    · omega
    · exact fun _ => ⟨trivial, trivial⟩
    · omega
    · exact fun absent => by cases absent
    · exact pushed
  · obtain ⟨k, counted, isTop, unmarked, isAnchor⟩ :=
      before.anchor_of_free sortStarts someFree
    have positive := List.length_pos_of_ne_nil someFree
    rw [isAnchor] at isDesc
    rw [if_neg someFree] at pushed
    refine ⟨⟨rfl, rfl, rfl⟩, ?_, ?_, ?_, visits, once, ?_, ?_⟩
    all_goals simp only [Sweep.advance, isDesc]
    · omega
    · omega
    · exact fun _ =>
        ⟨trivial, counted, fun isMarked =>
          unmarked ((marked.mem_sort _).mpr isMarked)⟩
    · exact fun _ => chainEnds _ isTop
    · exact pushed

/-- The sweep before the superblock in use of the example image. -/
def exampleSweep (marked : Finset Nat) : Sweep where
  currSb := 0x20000
  currDesc := 1
  marks := marked.sort
  heap := exampleImage
  availSb := []

theorem exampleImage_small :
    SmallInUse (exampleImage.desc 1) 0x20000 159 := by
  constructor <;> decide

/-- With the first of two blocks marked, the second one is free. -/
theorem small_superblock_rebuilt_oneBlock :
    ∃ next,
      sweepStep Heap.exampleRegion (exampleSweep {0x20000}) = .ok next ∧
        (next.heap.desc 1).anchor.count = 1 := by
  obtain ⟨next, stepped, rebuilt⟩ :=
    @small_superblock_rebuilt (exampleSweep {0x20000}) 159 []
      Heap.exampleRegion {0x20000} exampleImage_small
      (Finset.singleton_nonempty _)
      (fun mark member =>
        ⟨0, by decide, by rw [Finset.mem_singleton.mp member]; rfl⟩)
      (List.append_nil _).symm
      (fun mark absent => absurd absent List.not_mem_nil)
  refine ⟨next, stepped, ?_⟩
  have counted := rebuilt.count
  rw [Finset.card_singleton] at counted
  exact counted

/-- The blocks of the chain are blocks of the superblock without marks. -/
structure SafeChain
    (desc : Descriptor)
    (marked : Finset Nat)
    (chain : List Nat) : Prop where
  starts : ∀ block, block ∈ chain → IsBlock desc block
  distinct : chain.Nodup
  unmarked :
    ∀ block mark,
      block ∈ chain →
      mark ∈ marked →
      ¬ (block ≤ mark ∧ mark < block + desc.blockSize)

/--
Mark patterns that keep the cursor on block starts: the first mark, both marks
around a gap of more than a block, and the last mark, if there is room for a
block behind it, are block starts.
-/
structure MarksFit (desc : Descriptor) (marks : List Nat) : Prop where
  first :
    ∀ mark,
      mark ∈ marks.head? →
      SlotStart desc.superblock desc.blockSize mark
  neighbours : marks.IsChain (NeighboursFit desc.superblock desc.blockSize)
  last :
    LastFits desc.superblock desc.blockSize
      (blocksEnd desc desc.superblock) marks

/-- The chain is safe if the linked blocks are. -/
theorem AtSuperblock.safeChain_iff
    {marked : Finset Nat}
    (before : AtSuperblock state sc marked.sort later) :
    SafeChain (state.heap.desc state.currDesc) marked
        (state.free marked.sort).reverse ↔
      ∀ block,
        block ∈ state.free marked.sort →
        SafeSlot state.currSb (state.heap.desc state.currDesc).blockSize
          (blocksEnd (state.heap.desc state.currDesc) state.currSb)
          marked.sort block := by
  have holdsLink := before.small.holdsLink
  have ownSb := before.small.ownSb
  constructor
  · rintro ⟨starts, -, unmarked⟩ block member
    obtain ⟨k, counted, isBlock⟩ :=
      starts block (List.mem_reverse.mpr member)
    rw [ownSb] at isBlock
    refine ⟨⟨k, isBlock⟩, ?_, ?_⟩
    · have fewer :
          k * (state.heap.desc state.currDesc).blockSize <
            (state.heap.desc state.currDesc).maxcount *
              (state.heap.desc state.currDesc).blockSize :=
        Nat.mul_lt_mul_of_pos_right counted (by omega)
      unfold blocksEnd
      omega
    · intro mark isMark
      exact unmarked block mark (List.mem_reverse.mpr member)
        ((marked.mem_sort _).mp isMark)
  · intro safe
    refine ⟨?_, List.nodup_reverse.mpr before.free_nodup, ?_⟩
    · intro block member
      obtain ⟨⟨k, isBlock⟩, below, -⟩ :=
        safe block (List.mem_reverse.mp member)
      refine ⟨k, ?_, by rw [ownSb]; exact isBlock⟩
      have fewer :
          k * (state.heap.desc state.currDesc).blockSize <
            (state.heap.desc state.currDesc).maxcount *
              (state.heap.desc state.currDesc).blockSize := by
        unfold blocksEnd at below
        omega
      exact Nat.lt_of_mul_lt_mul_right fewer
    · intro block mark member isMark
      exact (safe block (List.mem_reverse.mp member)).unmarked mark
        ((marked.mem_sort _).mpr isMark)

/-- Exactly the fitting mark patterns make all linked blocks safe. -/
theorem AtSuperblock.safe_iff
    (before : AtSuperblock state sc here later) :
    (∀ block,
        block ∈ state.free here →
        SafeSlot state.currSb (state.heap.desc state.currDesc).blockSize
          (blocksEnd (state.heap.desc state.currDesc) state.currSb)
          here block) ↔
      MarksFit (state.heap.desc state.currDesc) here := by
  have holdsLink := before.small.holdsLink
  have ends := before.small.blocksEnd_le
  have endStart :
      SlotStart state.currSb (state.heap.desc state.currDesc).blockSize
        (blocksEnd (state.heap.desc state.currDesc) state.currSb) :=
    ⟨_, rfl⟩
  obtain ⟨mark, rest, rfl⟩ := List.exists_cons_of_ne_nil before.anyMark
  unfold Sweep.free freeBlocks
  rw [Lib.gaps_safe_iff (by omega) endStart before.sorted
    (before.inside mark List.mem_cons_self).1
    (fun other member => by
      have := (before.inside other member).2
      omega)]
  rw [← before.small.ownSb]
  constructor
  · rintro ⟨isStart, neighbours, last⟩
    refine ⟨?_, neighbours, last⟩
    intro other isFirst
    cases isFirst
    exact isStart
  · rintro ⟨first, neighbours, last⟩
    exact ⟨first mark rfl, neighbours, last⟩

/-- A safe chain starts at a block, so no assertion fails. -/
theorem topAligned_of_safe
    (safe :
      ∀ block,
        block ∈ state.free here →
        SafeSlot state.currSb (state.heap.desc state.currDesc).blockSize
          (blocksEnd (state.heap.desc state.currDesc) state.currSb)
          here block) :
    TopAligned (state.heap.desc state.currDesc) state.currSb
      (state.free here) := by
  intro top isTop
  obtain ⟨k, rfl⟩ := (safe top (List.mem_of_getLast? isTop)).isStart
  rw [Nat.add_sub_cancel_left, Nat.mul_mod_left]

/--
For every small superblock and every set of marks in it: the round completes
with a free chain of blocks that contain no mark exactly when the marks fit.
-/
theorem conservative_marks_safe_iff
    (region : SbRegion)
    {marked : Finset Nat}
    (small :
      SmallInUse (state.heap.desc state.currDesc) state.currSb sc)
    (nonempty : marked.Nonempty)
    (inside :
      ∀ mark,
        mark ∈ marked →
        state.currSb ≤ mark ∧ mark < state.currSb + sbSize)
    (marks : state.marks = marked.sort ++ later)
    (behind : ∀ mark, mark ∈ later → state.currSb + sbSize ≤ mark) :
    (∃ next,
        sweepStep region state = .ok next ∧
          SafeChain (state.heap.desc state.currDesc) marked
            (freeChain next.heap state.currDesc)) ↔
      MarksFit (state.heap.desc state.currDesc) marked.sort := by
  have before := atSuperblock_of_sort small nonempty inside marks behind
  rw [← before.safe_iff, ← before.safeChain_iff]
  constructor
  · rintro ⟨next, stepped, safe⟩
    by_cases aligned :
        TopAligned (state.heap.desc state.currDesc) state.currSb
          (state.free marked.sort)
    · rw [before.sweepStep_ok aligned] at stepped
      cases stepped
      rw [← (before.rebuilt_chain aligned).1]
      exact safe
    · rw [before.sweepStep_badHead aligned] at stepped
      cases stepped
  · intro safe
    have aligned := topAligned_of_safe (before.safeChain_iff.mp safe)
    refine ⟨_, before.sweepStep_ok aligned, ?_⟩
    change SafeChain _ _ (freeChain (rebuiltHeap _ _ _) _)
    rw [(before.rebuilt_chain aligned).1]
    exact safe

/-- One marked block start is safe. -/
theorem conservative_marks_safe_iff_oneBlock :
    ∃ next,
      sweepStep Heap.exampleRegion (exampleSweep {0x20000}) = .ok next ∧
        SafeChain (exampleImage.desc 1) {0x20000}
          (freeChain next.heap 1) := by
  refine (@conservative_marks_safe_iff (exampleSweep {0x20000}) 159 []
    Heap.exampleRegion {0x20000} exampleImage_small
    (Finset.singleton_nonempty _) ?_ (List.append_nil _).symm
    (fun mark absent => absurd absent List.not_mem_nil)).mpr ?_
  · intro mark member
    rw [Finset.mem_singleton.mp member]
    decide
  · have isStart :
        SlotStart (exampleImage.desc 1).superblock
          (exampleImage.desc 1).blockSize 0x20000 :=
      ⟨0, rfl⟩
    rw [Finset.sort_singleton]
    refine ⟨?_, List.isChain_singleton _, ?_⟩
    · intro mark isFirst
      cases isFirst
      exact isStart
    · intro mark isLast _
      cases isLast
      exact isStart

/-- A mark inside the first block and the second block. -/
def interiorMarks : Finset Nat :=
  {0x20008, 0x26000}

theorem interiorMarks_sort : interiorMarks.sort = [0x20008, 0x26000] := by
  unfold interiorMarks
  rw [Finset.sort_insert, Finset.sort_singleton]
  · decide
  · decide

/-- The block that contains the first mark ends up on the free chain. -/
theorem interior_mark_freed :
    SmallInUse (exampleImage.desc 1) 0x20000 159 ∧
      (∀ mark,
        mark ∈ interiorMarks →
        0x20000 ≤ mark ∧ mark < 0x20000 + sbSize) ∧
      ∃ next,
        sweepStep Heap.exampleRegion (exampleSweep interiorMarks) =
            .ok next ∧
          ¬ SafeChain (exampleImage.desc 1) interiorMarks
            (freeChain next.heap 1) := by
  have inside :
      ∀ mark,
        mark ∈ interiorMarks →
        0x20000 ≤ mark ∧ mark < 0x20000 + sbSize := by
    decide
  have before :
      AtSuperblock (exampleSweep interiorMarks) 159 interiorMarks.sort [] :=
    atSuperblock_of_sort exampleImage_small ⟨0x20008, by decide⟩ inside
      (List.append_nil _).symm
      (fun mark absent => absurd absent List.not_mem_nil)
  have free : (exampleSweep interiorMarks).free interiorMarks.sort =
      [0x20000] := by
    rw [interiorMarks_sort]
    decide +kernel
  have aligned :
      TopAligned (exampleImage.desc 1) 0x20000
        ((exampleSweep interiorMarks).free interiorMarks.sort) := by
    rw [free]
    intro top isTop
    cases isTop
    rfl
  refine ⟨exampleImage_small, inside, _, before.sweepStep_ok aligned, ?_⟩
  intro safe
  have chain := (before.rebuilt_chain aligned).1
  rw [free] at chain
  refine safe.unmarked 0x20000 0x20008 ?_ (by decide) (by decide)
  rw [free]
  exact chain ▸ List.mem_cons_self

end Gc

end Bxalloc
