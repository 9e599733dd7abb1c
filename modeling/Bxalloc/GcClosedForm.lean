import Bxalloc.GcPreserve

namespace Bxalloc

/-!
# The sweep in closed form

If all marks are starts of allocated blocks of the classes 1 to `NLIST - 1`,
the state of the sweep after any number of rounds is a function of the image
and the mark set.  Everything that recovery promises is read off this function.
-/

open Lib (Memory)

namespace Gc

section Definitions

variable (region : SbRegion) (image : Heap) (marked : Finset Nat)

/-- The marks in superblock `k`, in order. -/
def marksIn (k : Nat) : List Nat :=
  marked.sort.filter fun mark => region.owner mark = k

/-- The blocks that the sweep links in superblock `k`. -/
def linkedIn (k : Nat) : List Nat :=
  if marksIn region marked k = [] then
    []
  else
    freeBlocks (image.desc k) (region.sbAddr k) (marksIn region marked k)

/-- The descriptor that the sweep leaves of superblock `k`. -/
def sweptDesc (k : Nat) : Descriptor :=
  if marksIn region marked k = [] then
    .blank
  else
    { image.desc k with
      anchor :=
        rebuiltAnchor (image.desc k) (region.sbAddr k)
          (linkedIn region image marked k) }

/-- The memory after the first `n` rounds. -/
def sweptMemory : Nat → Memory
  | 0 => image.memory
  | n + 1 =>
      (Built.ofBlocks (sweptMemory n) (linkedIn region image marked (n + 1))).memory

/-- The partial list of class `sc` after the first `n` rounds. -/
def sweptPartial (sc : Nat) : Nat → List Nat
  | 0 => []
  | n + 1 =>
      if linkedIn region image marked (n + 1) ≠ [] ∧
          (image.desc (n + 1)).heap = some sc then
        (n + 1) :: sweptPartial sc n
      else
        sweptPartial sc n

/-- The list `avail_sb` after the first `n` rounds. -/
def sweptAvail : Nat → List Nat
  | 0 => []
  | n + 1 =>
      if marksIn region marked (n + 1) = [] then
        (n + 1) :: sweptAvail n
      else
        sweptAvail n

/-- The heap after the first `n` rounds. -/
def sweptHeap (n : Nat) : Heap :=
  { image with
    memory := sweptMemory region image marked n
    desc := fun k =>
      if 1 ≤ k ∧ k ≤ n then
        sweptDesc region image marked k
      else
        image.desc k
    partialList := fun sc =>
      if sc < nlist then
        sweptPartial region image marked sc n
      else
        image.partialList sc }

/-- The number of superblocks behind the first one. -/
def sweepRounds : Nat :=
  (image.currAddr - (region.start + sbSize) + (sbSize - 1)) / sbSize

/-- The sweep after the first `n` rounds. -/
def sweptState (n : Nat) : Sweep where
  currSb := region.sbAddr (n + 1)
  currDesc := n + 1
  marks := marked.sort.filter fun mark => region.sbAddr (n + 1) ≤ mark
  heap := sweptHeap region image marked n
  availSb := sweptAvail region marked n

end Definitions

variable
  {region : SbRegion}
  {image : Heap}
  {marked : Finset Nat}
  {n k : Nat}

theorem mem_marksIn
    {mark : Nat} :
    mark ∈ marksIn region marked k ↔ mark ∈ marked ∧ region.owner mark = k := by
  unfold marksIn
  rw [List.mem_filter, Finset.mem_sort, decide_eq_true_eq]

theorem marksIn_eq_nil :
    marksIn region marked k = [] ↔
      ∀ mark, mark ∈ marked → region.owner mark ≠ k := by
  rw [List.eq_nil_iff_forall_not_mem]
  simp only [mem_marksIn, not_and, ne_eq]

/-- A superblock without marks gets no links. -/
theorem linkedIn_of_unmarked
    (noMark : marksIn region marked k = []) :
    linkedIn region image marked k = [] := by
  unfold linkedIn
  rw [if_pos noMark]

/-- Rounds that are still to come have not touched a descriptor. -/
theorem sweptHeap_ahead
    (ahead : n < k) :
    (sweptHeap region image marked n).desc k = image.desc k := by
  unfold sweptHeap
  dsimp only
  rw [if_neg (by omega)]

/-- A descriptor behind the cursor. -/
theorem sweptHeap_behind
    (positive : 1 ≤ k)
    (behind : k ≤ n) :
    (sweptHeap region image marked n).desc k =
      sweptDesc region image marked k := by
  unfold sweptHeap
  dsimp only
  rw [if_pos ⟨positive, behind⟩]

/-- The round over superblock `n + 1` writes its descriptor. -/
theorem sweptHeap_desc_succ :
    (sweptHeap region image marked (n + 1)).desc =
      Function.update (sweptHeap region image marked n).desc (n + 1)
        (sweptDesc region image marked (n + 1)) := by
  funext k
  rcases eq_or_ne k (n + 1) with rfl | differs
  · rw [Function.update_self, sweptHeap_behind (by omega) (Nat.le_refl _)]
  · rw [Function.update_of_ne differs]
    unfold sweptHeap
    dsimp only
    by_cases behind : 1 ≤ k ∧ k ≤ n
    · rw [if_pos behind, if_pos ⟨behind.1, by omega⟩]
    · rw [if_neg behind, if_neg (by omega)]

theorem sweptPartial_succ
    {sc : Nat} :
    sweptPartial region image marked sc (n + 1) =
      if linkedIn region image marked (n + 1) ≠ [] ∧
          (image.desc (n + 1)).heap = some sc then
        (n + 1) :: sweptPartial region image marked sc n
      else
        sweptPartial region image marked sc n :=
  rfl

/-- A round that links no block leaves the partial lists alone. -/
theorem sweptHeap_partial_same
    (unlinked : linkedIn region image marked (n + 1) = []) :
    (sweptHeap region image marked (n + 1)).partialList =
      (sweptHeap region image marked n).partialList := by
  unfold sweptHeap
  dsimp only
  funext sc
  have unchanged :
      ¬ (linkedIn region image marked (n + 1) ≠ [] ∧
        (image.desc (n + 1)).heap = some sc) :=
    fun linked => linked.1 unlinked
  rw [sweptPartial_succ, if_neg unchanged]

/-- A round that links blocks pushes its descriptor. -/
theorem sweptHeap_partial_push
    {sc : Nat}
    (linked : linkedIn region image marked (n + 1) ≠ [])
    (inUse : (image.desc (n + 1)).heap = some sc)
    (notLast : sc < nlist) :
    (sweptHeap region image marked (n + 1)).partialList =
      Function.update (sweptHeap region image marked n).partialList sc
        ((n + 1) :: (sweptHeap region image marked n).partialList sc) := by
  unfold sweptHeap
  dsimp only
  funext other
  rcases eq_or_ne other sc with rfl | differs
  · rw [Function.update_self, if_pos notLast, if_pos notLast,
      sweptPartial_succ, if_pos ⟨linked, inUse⟩]
  · have otherClass :
        ¬ (linkedIn region image marked (n + 1) ≠ [] ∧
          (image.desc (n + 1)).heap = some other) := by
      rintro ⟨-, same⟩
      exact differs (Option.some.inj (same.symm.trans inUse))
    rw [Function.update_of_ne differs, sweptPartial_succ,
      if_neg otherClass]

/-- The sweep starts in this form. -/
theorem sweepStart_eq
    (currBelow : region.start + sbSize ≤ 2 ^ 47)
    (ahead : ∀ mark, mark ∈ marked → region.sbAddr 1 ≤ mark) :
    sweepStart region image marked = sweptState region image marked 0 := by
  have second : region.sbAddr 1 = region.start + sbSize := by
    unfold SbRegion.sbAddr
    rw [Nat.one_mul]
  have isFirst : region.owner (region.start + sbSize) = 1 := by
    have index :=
      @sbIndex_of_aligned region.start 1 0 region.aligned (by decide)
        (by rw [Nat.one_mul]; omega)
    rw [Nat.one_mul] at index
    exact index
  have allMarks :
      (marked.sort.filter fun mark => region.sbAddr 1 ≤ mark) =
        marked.sort := by
    rw [List.filter_eq_self]
    intro mark member
    rw [decide_eq_true_eq]
    exact ahead mark ((marked.mem_sort _).mp member)
  have cleared : clearPartial image = sweptHeap region image marked 0 := by
    unfold clearPartial sweptHeap
    congr 1
    funext k
    rw [if_neg (by omega)]
  unfold sweepStart sweptState
  rw [isFirst, Nat.zero_add, second, ← cleared, ← second, allMarks]
  rfl

/-- A round over a superblock without marks, in closed form. -/
theorem sweptState_erase
    (noMark : marksIn region marked (n + 1) = [])
    (away :
      ∀ mark,
        mark ∈ marked →
        region.sbAddr (n + 1) ≤ mark →
        region.sbAddr (n + 2) ≤ mark) :
    (sweptState region image marked n).erase =
      sweptState region image marked (n + 1) := by
  have unlinked := @linkedIn_of_unmarked _ image _ _ noMark
  have sameMarks :
      (marked.sort.filter fun mark => region.sbAddr (n + 1) ≤ mark) =
        marked.sort.filter fun mark => region.sbAddr (n + 2) ≤ mark := by
    apply List.filter_congr
    intro mark member
    rw [decide_eq_decide]
    have ordered : region.sbAddr (n + 1) + sbSize ≤ region.sbAddr (n + 2) :=
      sbAddr_le region (Nat.lt_succ_self _)
    exact ⟨away mark ((marked.mem_sort _).mp member), fun later => by omega⟩
  have isBlank : sweptDesc region image marked (n + 1) = .blank := by
    unfold sweptDesc
    rw [if_pos noMark]
  have sameHeap :
      (sweptHeap region image marked n).setDesc (n + 1) .blank =
        sweptHeap region image marked (n + 1) := by
    have sameDesc := @sweptHeap_desc_succ region image marked n
    have sameLists := sweptHeap_partial_same unlinked
    have sameMemory :
        sweptMemory region image marked (n + 1) =
          sweptMemory region image marked n := by
      change (Built.ofBlocks _ (linkedIn region image marked (n + 1))).memory = _
      rw [unlinked]
      rfl
    rw [isBlank] at sameDesc
    unfold Heap.setDesc
    rw [← sameDesc, ← sameLists]
    change
      { sweptHeap region image marked (n + 1) with
        memory := sweptMemory region image marked n } = _
    rw [← sameMemory]
    rfl
  have sameAvail :
      sweptAvail region marked (n + 1) =
        (n + 1) :: sweptAvail region marked n :=
    if_pos noMark
  unfold Sweep.erase sweptState
  rw [sameHeap, sameAvail, sameMarks, sbAddr_succ region (n + 1)]

/-- The cursor before the end of the region. -/
theorem sbAddr_lt_currAddr
    (currAbove : region.start + sbSize ≤ image.currAddr) :
    (sweptState region image marked n).currSb < image.currAddr ↔
      n < sweepRounds region image := by
  unfold sweptState SbRegion.sbAddr sweepRounds
  simp only [sbSize, pageSize] at currAbove ⊢
  omega

/-- Heaps are equal if their fields are. -/
theorem heap_eq_of_fields
    {heap heap' : Heap}
    (memory : heap.memory = heap'.memory)
    (desc : heap.desc = heap'.desc)
    (partialList : heap.partialList = heap'.partialList)
    (queue : heap.queue = heap'.queue)
    (currAddr : heap.currAddr = heap'.currAddr)
    (cache : heap.cache = heap'.cache)
    (live : heap.live = heap'.live) :
    heap = heap' := by
  cases heap
  cases heap'
  rw [Heap.mk.injEq]
  exact ⟨memory, desc, partialList, queue, currAddr, cache, live⟩

/-- A rebuilt superblock leaves the rest of the allocator alone. -/
theorem rebuiltHeap_others
    (sc : Nat)
    (state : Sweep)
    (free : List Nat) :
    (rebuiltHeap sc state free).queue = state.heap.queue ∧
      (rebuiltHeap sc state free).currAddr = state.heap.currAddr ∧
      (rebuiltHeap sc state free).cache = state.heap.cache ∧
      (rebuiltHeap sc state free).live = state.heap.live := by
  unfold rebuiltHeap
  dsimp only
  split <;> exact ⟨rfl, rfl, rfl, rfl⟩

/-- The heap after a round over a superblock with marks. -/
theorem rebuiltHeap_eq
    {sc : Nat}
    (anyMark : marksIn region marked (n + 1) ≠ [])
    (inUse : (image.desc (n + 1)).heap = some sc)
    (notLast : sc < nlist) :
    rebuiltHeap sc (sweptState region image marked n)
        (linkedIn region image marked (n + 1)) =
      sweptHeap region image marked (n + 1) := by
  have isDesc :
      (sweptHeap region image marked n).desc (n + 1) = image.desc (n + 1) :=
    sweptHeap_ahead (Nat.lt_succ_self n)
  have isSwept :
      sweptDesc region image marked (n + 1) =
        { image.desc (n + 1) with
          anchor :=
            rebuiltAnchor (image.desc (n + 1)) (region.sbAddr (n + 1))
              (linkedIn region image marked (n + 1)) } :=
    if_neg anyMark
  obtain ⟨queue, currAddr, cache, live⟩ :=
    rebuiltHeap_others sc (sweptState region image marked n)
      (linkedIn region image marked (n + 1))
  refine heap_eq_of_fields ?_ ?_ ?_ queue currAddr cache live
  · rw [rebuiltHeap_memory]
    rfl
  · rw [rebuiltHeap_desc, sweptHeap_desc_succ, isSwept]
    change
      Function.update (sweptHeap region image marked n).desc (n + 1)
          { (sweptHeap region image marked n).desc (n + 1) with
            anchor :=
              rebuiltAnchor ((sweptHeap region image marked n).desc (n + 1))
                (region.sbAddr (n + 1)) _ } = _
    rw [isDesc]
  · rw [rebuiltHeap_partialList]
    split
    · next unlinked => exact (sweptHeap_partial_same unlinked).symm
    · next linked =>
        exact (sweptHeap_partial_push linked inUse notLast).symm

section Rounds

variable
  (currBelow : image.currAddr ≤ region.limit)
  (allocated :
    ∀ addr, addr ∈ marked → AllocatedStart region image addr)

include currBelow allocated

/-- A mark in superblock `k` is ahead of its start and before the next one. -/
theorem mem_marksIn_iff
    {mark : Nat}
    (isMarked : mark ∈ marked) :
    region.owner mark = k ↔
      region.sbAddr k ≤ mark ∧ mark < region.sbAddr (k + 1) := by
  have before :=
    @AllocatedStart.behind _ _ _ k (allocated mark isMarked) currBelow
  have inside :=
    @AllocatedStart.behind _ _ _ (k + 1) (allocated mark isMarked) currBelow
  omega

/-- The marks in the current superblock. -/
theorem sweptState_here :
    (sweptState region image marked n).here =
      marksIn region marked (n + 1) := by
  unfold Sweep.here sweptState marksIn
  dsimp only
  rw [List.filter_filter]
  apply List.filter_congr
  intro mark member
  rw [← Bool.decide_and, decide_eq_decide,
    mem_marksIn_iff currBelow allocated ((marked.mem_sort _).mp member),
    sbAddr_succ region (n + 1)]
  exact And.comm

/-- The blocks that the round over superblock `n + 1` links. -/
theorem sweptState_free
    (anyMark : marksIn region marked (n + 1) ≠ []) :
    (sweptState region image marked n).free
        (sweptState region image marked n).here =
      linkedIn region image marked (n + 1) := by
  have isDesc :
      (sweptHeap region image marked n).desc (n + 1) = image.desc (n + 1) :=
    sweptHeap_ahead (Nat.lt_succ_self n)
  unfold Sweep.free linkedIn
  rw [sweptState_here currBelow allocated, if_neg anyMark]
  exact congrArg (fun desc => freeBlocks desc _ _) isDesc

/-- All marks are behind the first superblock. -/
theorem marks_ahead
    (mark : Nat)
    (isMarked : mark ∈ marked) :
    region.sbAddr 1 ≤ mark := by
  by_contra before
  have behind :=
    ((allocated mark isMarked).behind currBelow).mp (Nat.lt_of_not_le before)
  obtain ⟨sc, ok, -⟩ := (allocated mark isMarked).position currBelow
  have := ok.indexPos
  omega

/-- The state of the sweep before superblock `n + 1`, with what it keeps. -/
theorem sweptState_step
    (swept :
      Swept region image marked (n + 1) (sweptState region image marked n))
    (small : SmallMarks region image marked (n + 1)) :
    sweepStep region (sweptState region image marked n) =
        .ok (sweptState region image marked (n + 1)) ∧
      Swept region image marked (n + 2)
        (sweptState region image marked (n + 1)) := by
  have stepped :
      sweepStep region (sweptState region image marked n) =
        .ok (sweptState region image marked (n + 1)) := by
    by_cases noMark : marksIn region marked (n + 1) = []
    · have nowhere := marksIn_eq_nil.mp noMark
      rw [(swept.erase currBelow allocated nowhere).1, sweptState_erase noMark]
      intro mark isMarked ahead
      have elsewhere := nowhere mark isMarked
      rw [ne_eq, mem_marksIn_iff currBelow allocated isMarked] at elsewhere
      change region.sbAddr (n + 1 + 1) ≤ mark
      omega
    · obtain ⟨mark, member⟩ := List.exists_mem_of_ne_nil _ noMark
      obtain ⟨isMarked, here⟩ := mem_marksIn.mp member
      obtain ⟨sc, inUse, notFirst, notLast⟩ := small mark isMarked here
      have atSmall :=
        swept.atSmall currBelow allocated isMarked here inUse notFirst notLast
      rw [atSmall.before.sweepStep_ok atSmall.topAligned,
        sweptState_free currBelow allocated noMark,
        rebuiltHeap_eq noMark inUse notLast]
      have sameAvail :
          sweptAvail region marked (n + 1) = sweptAvail region marked n :=
        if_neg noMark
      unfold Sweep.advance
      rw [swept.later_eq]
      unfold sweptState
      rw [sameAvail, sbAddr_succ region (n + 1)]
  refine ⟨stepped, ?_⟩
  obtain ⟨next, isNext, sweptNext⟩ :=
    swept.step currBelow allocated small
  obtain rfl := Except.ok.inj (stepped.symm.trans isNext)
  exact sweptNext

variable
  (currAbove : region.start + sbSize ≤ image.currAddr)
  (small : ∀ k, SmallMarks region image marked k)

include currAbove small

/-- What the sweep keeps holds before every round. -/
theorem sweptState_swept
    (n : Nat) :
    Swept region image marked (n + 1) (sweptState region image marked n) := by
  induction n with
  | zero =>
      have userSpace := region.userSpace
      have started := Swept.start currBelow allocated currAbove
      rwa [sweepStart_eq (Nat.le_trans currAbove (by omega))
        (marks_ahead currBelow allocated)] at started
  | succ n inductionHypothesis =>
      exact
        (sweptState_step currBelow allocated inductionHypothesis
          (small (n + 1))).2

/-- The loop from the state after `n` rounds. -/
theorem sweepLoop_eq
    {fuel : Nat}
    (early : n ≤ sweepRounds region image)
    (enough : sweepRounds region image ≤ n + fuel) :
    sweepLoop region image.currAddr fuel (sweptState region image marked n) =
      .ok (sweptState region image marked (sweepRounds region image)) := by
  induction fuel generalizing n with
  | zero =>
      obtain rfl : n = sweepRounds region image := by
        omega
      unfold sweepLoop
      rw [if_neg fun more =>
        Nat.lt_irrefl _ ((sbAddr_lt_currAddr currAbove).mp more)]
  | succ fuel inductionHypothesis =>
      unfold sweepLoop
      rcases Nat.lt_or_eq_of_le early with more | rfl
      · have stepped :=
          (sweptState_step currBelow allocated
            (sweptState_swept currBelow allocated currAbove small n)
            (small (n + 1))).1
        rw [if_pos ((sbAddr_lt_currAddr currAbove).mpr more), stepped, ok_bind]
        exact inductionHypothesis more (by omega)
      · rw [if_neg fun more =>
          Nat.lt_irrefl _ ((sbAddr_lt_currAddr currAbove).mp more)]

/-- The whole sweep. -/
theorem sweep_eq :
    sweepLoop region image.currAddr (sweepFuel region image)
        (sweepStart region image marked) =
      .ok (sweptState region image marked (sweepRounds region image)) := by
  have userSpace := region.userSpace
  rw [sweepStart_eq (Nat.le_trans currAbove (by omega))
    (marks_ahead currBelow allocated)]
  refine sweepLoop_eq currBelow allocated currAbove small (Nat.zero_le _) ?_
  unfold sweepRounds sweepFuel
  simp only [sbSize, pageSize]
  omega

/-- The round over a superblock with marks. -/
theorem exists_atSmall
    (anyMark : marksIn region marked k ≠ []) :
    ∃ n sc,
      k = n + 1 ∧
        AtSmall region image marked k sc (sweptState region image marked n) := by
  obtain ⟨mark, member⟩ := List.exists_mem_of_ne_nil _ anyMark
  obtain ⟨isMarked, here⟩ := mem_marksIn.mp member
  obtain ⟨sc, inUse, notFirst, notLast⟩ := small k mark isMarked here
  have ok := Swept.persistentOk currBelow allocated isMarked here inUse
  obtain ⟨n, rfl⟩ := Nat.exists_eq_succ_of_ne_zero
    (Nat.one_le_iff_ne_zero.mp ok.indexPos)
  exact ⟨n, sc, rfl,
    (sweptState_swept currBelow allocated currAbove small n).atSmall currBelow
      allocated isMarked here inUse notFirst notLast⟩

/-- Linked blocks are the unmarked blocks of superblocks with marks. -/
theorem mem_linkedIn
    {block : Nat} :
    block ∈ linkedIn region image marked k ↔
      marksIn region marked k ≠ [] ∧
        IsBlock (image.desc k) block ∧ block ∉ marked := by
  by_cases noMark : marksIn region marked k = []
  · rw [linkedIn_of_unmarked noMark]
    simp [noMark]
  · obtain ⟨n, sc, rfl, atSmall⟩ :=
      exists_atSmall currBelow allocated currAbove small noMark
    rw [← sweptState_free currBelow allocated noMark, atSmall.mem_free,
      sweptState_here currBelow allocated, mem_marksIn]
    constructor
    · rintro ⟨isBlock, absent⟩
      have isOwner := atSmall.ok.owner_eq currBelow isBlock
      exact ⟨noMark, isBlock, fun isMarked => absent ⟨isMarked, isOwner⟩⟩
    · rintro ⟨-, isBlock, absent⟩
      exact ⟨isBlock, fun isMarked => absent isMarked.1⟩

/-- A round writes into its own superblock only. -/
theorem sweptMemory_outside
    {address : Nat}
    (away :
      address < region.sbAddr (n + 1) ∨
        region.sbAddr (n + 2) ≤ address) :
    sweptMemory region image marked (n + 1) address =
      sweptMemory region image marked n address := by
  refine Built.ofBlocks_memory ?_
  intro block member
  have noMark :=
    ((mem_linkedIn currBelow allocated currAbove small).mp member).1
  obtain ⟨m, sc, same, atSmall⟩ :=
    exists_atSmall currBelow allocated currAbove small noMark
  obtain rfl : n = m := Nat.succ.inj same
  rw [← sweptState_free currBelow allocated noMark] at member
  have inside : region.sbAddr (n + 1) ≤ block ∧
      block + 8 ≤ region.sbAddr (n + 2) := atSmall.free_inside member
  omega

/-- The links from the anchor of a superblock behind the cursor. -/
theorem freeChain_swept
    (anyMark : marksIn region marked k ≠ [])
    (positive : 1 ≤ k)
    (behind : k ≤ n) :
    freeChain (sweptHeap region image marked n) k =
      (linkedIn region image marked k).reverse := by
  obtain ⟨mark, member⟩ := List.exists_mem_of_ne_nil _ anyMark
  obtain ⟨isMarked, here⟩ := mem_marksIn.mp member
  obtain ⟨sc, inUse, notFirst, notLast⟩ := small k mark isMarked here
  induction n with
  | zero => omega
  | succ n inductionHypothesis =>
      have swept := sweptState_swept currBelow allocated currAbove small n
      rcases Nat.lt_or_eq_of_le behind with earlier | rfl
      · have sameChain :
            freeChain (sweptHeap region image marked (n + 1)) k =
              freeChain (sweptHeap region image marked n) k := by
          refine
            @freeChain_congr (sweptHeap region image marked n) _ k
              (region.sbAddr (n + 1)) ?_ ?_ ?_
          · rw [sweptHeap_behind positive behind,
              sweptHeap_behind positive (by omega)]
          · intro address less
            exact sweptMemory_outside currBelow allocated currAbove small
              (.inl less)
          · intro block inChain
            have before :=
              ((allocated mark isMarked).behind currBelow).mpr
                (by omega : region.owner mark < n + 1)
            refine swept.chains mark block isMarked before ?_
            rw [here]
            exact inChain
        rw [sameChain]
        exact inductionHypothesis (by omega)
      · have atSmall :=
          swept.atSmall currBelow allocated isMarked here inUse notFirst notLast
        have chain := (atSmall.before.rebuilt_chain atSmall.topAligned).1
        have sameFree :
            (sweptState region image marked n).free
                (sweptState region image marked n).here =
              linkedIn region image marked (n + 1) :=
          sweptState_free currBelow allocated anyMark
        rwa [sameFree, rebuiltHeap_eq anyMark inUse notLast] at chain

end Rounds

end Gc

end Bxalloc
