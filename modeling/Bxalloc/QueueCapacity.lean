import Bxalloc.HeapRuns

namespace Bxalloc

/-!
# The capacity of the free-superblock queue

The queue is a ring of 80000 slots, so it holds at most 79999 superblocks.  An
expansion adds 16384 superblocks and happens only when the queue is empty, but
the superblocks of earlier expansions can all be freed later.  What decides is
how many expansions fit in the superblock file.
-/

open Lib (Memory Reaches)

namespace Heap

variable {region : SbRegion} {heap heap' : Heap}

/-- The call left the queue and `curr_addr` alone. -/
def SameSupply (heap heap' : Heap) : Prop :=
  heap'.queue = heap.queue ∧ heap'.currAddr = heap.currAddr

/-- Nothing was queued, or one expansion left what it did not hand out. -/
def Grown (heap heap' : Heap) : Prop :=
  (heap'.queue.length ≤ heap.queue.length ∧
      heap'.currAddr = heap.currAddr) ∨
    (heap'.queue.length < sbRegionExpandSize / sbSize ∧
      heap'.currAddr = heap.currAddr + sbRegionExpandSize)

theorem SameSupply.trans
    {middle : Heap}
    (first : SameSupply heap middle)
    (second : SameSupply middle heap') :
    SameSupply heap heap' :=
  ⟨second.1.trans first.1, second.2.trans first.2⟩

/-- Pushing on a partial list does not touch the supply. -/
theorem heapPushPartial_supply
    {k : Nat}
    (accepted : heap.heapPushPartial k = .ok heap') :
    SameSupply heap heap' := by
  unfold heapPushPartial at accepted
  split at accepted
  · cases accepted
  · obtain rfl := Except.ok.inj accepted
    exact ⟨rfl, rfl⟩

/-- Pushing on a partial list does not push on the queue. -/
theorem heapPushPartial_not_full
    (k : Nat) :
    heap.heapPushPartial k ≠ .error .queueFull := by
  intro rejected
  unfold heapPushPartial at rejected
  split at rejected
  · cases rejected
  · cases rejected

/-- One round of `flush_cache` does not touch the supply. -/
theorem flushRun_supply
    {thread sc : Nat}
    (accepted : BaseMeta.flushRun region thread sc heap = .ok heap') :
    SameSupply heap heap' := by
  unfold BaseMeta.flushRun at accepted
  simp only at accepted
  split at accepted
  · split at accepted
    · obtain rfl := Except.ok.inj accepted
      exact ⟨rfl, rfl⟩
    · obtain ⟨sameQueue, sameCurr⟩ := heapPushPartial_supply accepted
      exact ⟨sameQueue, sameCurr⟩
  · obtain rfl := Except.ok.inj accepted
    exact ⟨rfl, rfl⟩

/-- `flush_cache` does not touch the supply. -/
theorem flushLoop_supply
    {thread sc fuel : Nat}
    (accepted : BaseMeta.flushLoop region thread sc fuel heap = .ok heap') :
    SameSupply heap heap' := by
  induction fuel generalizing heap with
  | zero =>
      obtain rfl := Except.ok.inj accepted
      exact ⟨rfl, rfl⟩
  | succ fuel inductionHypothesis =>
      unfold BaseMeta.flushLoop at accepted
      split at accepted
      · obtain ⟨middle, flushed, rest⟩ := bind_ok accepted
        exact (flushRun_supply flushed).trans (inductionHypothesis rest)
      · obtain rfl := Except.ok.inj accepted
        exact ⟨rfl, rfl⟩

/-- The end of a thread does not touch the supply. -/
theorem flushClasses_supply
    {thread sc more : Nat}
    (accepted : BaseMeta.flushClasses region thread sc more heap = .ok heap') :
    SameSupply heap heap' := by
  induction more generalizing heap sc with
  | zero =>
      obtain rfl := Except.ok.inj accepted
      exact ⟨rfl, rfl⟩
  | succ more inductionHypothesis =>
      unfold BaseMeta.flushClasses at accepted
      obtain ⟨middle, flushed, rest⟩ := bind_ok accepted
      exact (flushLoop_supply flushed).trans (inductionHypothesis rest)

/-- A refill from partial superblocks does not touch the supply. -/
theorem mallocFromPartialLoop_supply
    {thread sc num : Nat}
    {stack : List Nat}
    (accepted :
      BaseMeta.mallocFromPartialLoop region thread sc stack heap =
        .ok (num, heap')) :
    SameSupply heap heap' := by
  induction stack generalizing heap with
  | nil =>
      obtain ⟨-, rfl⟩ := Prod.mk.inj (Except.ok.inj accepted)
      exact ⟨rfl, rfl⟩
  | cons k rest inductionHypothesis =>
      unfold BaseMeta.mallocFromPartialLoop at accepted
      simp only at accepted
      split at accepted
      · split at accepted
        · obtain ⟨sameQueue, sameCurr⟩ := inductionHypothesis accepted
          exact ⟨sameQueue, sameCurr⟩
        split at accepted
        · cases accepted
        · obtain ⟨-, rfl⟩ := Prod.mk.inj (Except.ok.inj accepted)
          exact ⟨rfl, rfl⟩
      · split at accepted
        · obtain ⟨sameQueue, sameCurr⟩ := inductionHypothesis accepted
          exact ⟨sameQueue, sameCurr⟩
        · obtain ⟨pushed, pushing, returned⟩ := bind_ok accepted
          obtain ⟨sameQueue, sameCurr⟩ := heapPushPartial_supply pushing
          obtain ⟨-, rfl⟩ := Prod.mk.inj (Except.ok.inj returned)
          exact ⟨sameQueue, sameCurr⟩

/-- Queueing superblocks keeps `curr_addr`. -/
theorem enqueueFrom_currAddr
    {k more : Nat}
    (accepted : BaseMeta.enqueueFrom k more heap = .ok heap') :
    heap'.currAddr = heap.currAddr := by
  induction more generalizing k heap with
  | zero =>
      obtain rfl := Except.ok.inj accepted
      rfl
  | succ more inductionHypothesis =>
      unfold BaseMeta.enqueueFrom BaseMeta.enqueueBlank at accepted
      split at accepted
      · cases accepted
      · have same := inductionHypothesis accepted
        exact same

/-- `small_sb_alloc` takes from the queue, or expands when it is empty. -/
theorem Geometry.smallSbAlloc_supply
    (geometry : Geometry region heap)
    {superblock : Nat}
    (accepted : BaseMeta.smallSbAlloc region heap = .ok (superblock, heap')) :
    (heap.queue.length = heap'.queue.length + 1 ∧
        heap'.currAddr = heap.currAddr) ∨
      (heap.queue = [] ∧
        heap'.queue.length = sbRegionExpandSize / sbSize - 1 ∧
        heap'.currAddr = heap.currAddr + sbRegionExpandSize) := by
  unfold BaseMeta.smallSbAlloc at accepted
  split at accepted
  · next k rest shape =>
      obtain ⟨-, rfl⟩ := Prod.mk.inj (Except.ok.inj accepted)
      left
      rw [shape]
      exact ⟨rfl, rfl⟩
  · next noneQueued =>
      simp only [geometry.pageAligned] at accepted
      split at accepted
      · cases accepted
      · obtain ⟨middle, organized, returned⟩ := bind_ok accepted
        obtain ⟨-, rfl⟩ := Prod.mk.inj (Except.ok.inj returned)
        rw [organizeSbList_eq region (by decide)] at organized
        obtain ⟨queue, -⟩ := enqueueFrom_queue organized
        have sameCurr := enqueueFrom_currAddr organized
        right
        refine ⟨noneQueued, ?_, sameCurr⟩
        change middle.queue.length = _
        rw [queue, noneQueued, List.nil_append, List.length_range']

/-- `small_sb_alloc` returns while superblocks are queued or space is left. -/
theorem Geometry.smallSbAlloc_ok
    (geometry : Geometry region heap)
    (supplied :
      heap.queue ≠ [] ∨
        heap.currAddr + sbRegionExpandSize ≤ region.limit) :
    ∃ superblock heap',
      BaseMeta.smallSbAlloc region heap = .ok (superblock, heap') := by
  unfold BaseMeta.smallSbAlloc
  split
  · exact ⟨_, _, rfl⟩
  · next noneQueued =>
      have roomLeft := supplied.resolve_left (fun queued => queued noneQueued)
      simp only [geometry.pageAligned]
      rw [if_neg (Nat.not_lt.mpr roomLeft),
        organizeSbList_eq region (by decide)]
      have fewer : sbRegionExpandSize / sbSize - 1 ≤ queueSize - 1 := by
        decide
      obtain ⟨middle, queued⟩ :=
        @enqueueFrom_ok
          { heap with currAddr := heap.currAddr + sbRegionExpandSize }
          (region.owner (heap.currAddr + sbSize))
          (sbRegionExpandSize / sbSize - 1)
          (by simpa only [noneQueued, List.length_nil, Nat.zero_add]
            using fewer)
      rw [queued]
      exact ⟨_, _, rfl⟩

/-- An expansion finds the queue empty, so it never overflows it. -/
theorem Geometry.smallSbAlloc_not_full
    (geometry : Geometry region heap) :
    BaseMeta.smallSbAlloc region heap ≠ .error .queueFull := by
  intro rejected
  by_cases supplied :
      heap.queue ≠ [] ∨ heap.currAddr + sbRegionExpandSize ≤ region.limit
  · obtain ⟨superblock, heap', accepted⟩ := geometry.smallSbAlloc_ok supplied
    rw [accepted] at rejected
    cases rejected
  · obtain ⟨noneQueued, noRoom⟩ := not_or.mp supplied
    unfold BaseMeta.smallSbAlloc at rejected
    rw [not_not.mp noneQueued] at rejected
    simp only [geometry.pageAligned] at rejected
    rw [if_pos (Nat.lt_of_not_le noRoom)] at rejected
    cases rejected

/-- What `small_sb_alloc` does to the supply. -/
theorem Geometry.smallSbAlloc_grown
    (geometry : Geometry region heap)
    {superblock : Nat}
    (accepted : BaseMeta.smallSbAlloc region heap = .ok (superblock, heap')) :
    Grown heap heap' := by
  rcases geometry.smallSbAlloc_supply accepted with
    ⟨shorter, same⟩ | ⟨-, left, moved⟩
  · exact Or.inl ⟨by omega, same⟩
  · exact Or.inr ⟨by rw [left]; decide, moved⟩

/-- A new superblock for a class moves `curr_addr` by one expansion at most. -/
theorem Geometry.mallocFromNewsb_grown
    (geometry : Geometry region heap)
    {thread sc num : Nat}
    (accepted :
      BaseMeta.mallocFromNewsb region thread sc heap = .ok (num, heap')) :
    Grown heap heap' := by
  unfold BaseMeta.mallocFromNewsb at accepted
  obtain ⟨⟨superblock, middle⟩, allocated, rest⟩ := bind_ok accepted
  have grown := geometry.smallSbAlloc_grown allocated
  simp only at rest
  split at rest
  · obtain ⟨-, rfl⟩ := Prod.mk.inj (Except.ok.inj rest)
    exact grown
  · obtain ⟨pushed, pushing, returned⟩ := bind_ok rest
    obtain ⟨sameQueue, sameCurr⟩ := heapPushPartial_supply pushing
    obtain ⟨-, rfl⟩ := Prod.mk.inj (Except.ok.inj returned)
    unfold Grown at grown ⊢
    simp only [setCache, sameQueue, sameCurr]
    exact grown

/-- A new superblock for a class never finds the queue full. -/
theorem Geometry.mallocFromNewsb_not_full
    (geometry : Geometry region heap)
    (thread sc : Nat) :
    BaseMeta.mallocFromNewsb region thread sc heap ≠ .error .queueFull := by
  intro rejected
  unfold BaseMeta.mallocFromNewsb at rejected
  rcases bind_error rejected with failed | ⟨⟨superblock, middle⟩, -, rest⟩
  · exact geometry.smallSbAlloc_not_full failed
  · simp only at rest
    split at rest
    · cases rest
    · rcases bind_error rest with failed | ⟨pushed, -, returned⟩
      · exact heapPushPartial_not_full _ failed
      · cases returned

/-- A refill moves `curr_addr` by one expansion at most. -/
theorem Inv.fillCache_grown
    (inv : Inv region heap)
    {thread sc num : Nat}
    (valid : sc < nlist)
    (emptyList : (heap.cache thread sc).size = 0)
    (accepted :
      BaseMeta.fillCache region thread sc heap = .ok (num, heap')) :
    Grown heap heap' := by
  obtain ⟨taken, middle, fromPartial, refilled, -⟩ :=
    inv.mallocFromPartialLoop valid rfl emptyList
  obtain ⟨sameQueue, sameCurr⟩ := mallocFromPartialLoop_supply fromPartial
  rw [fillCache_of_loop fromPartial] at accepted
  split at accepted
  · have grown :=
      refilled.inv.control.geometry.mallocFromNewsb_grown accepted
    unfold Grown at grown
    rwa [sameQueue, sameCurr] at grown
  · obtain ⟨-, rfl⟩ := Prod.mk.inj (Except.ok.inj accepted)
    exact Or.inl ⟨by rw [sameQueue], sameCurr⟩

/-- A refill never finds the queue full. -/
theorem Inv.fillCache_not_full
    (inv : Inv region heap)
    {thread sc : Nat}
    (valid : sc < nlist)
    (emptyList : (heap.cache thread sc).size = 0) :
    BaseMeta.fillCache region thread sc heap ≠ .error .queueFull := by
  intro rejected
  obtain ⟨taken, middle, fromPartial, refilled, -⟩ :=
    inv.mallocFromPartialLoop valid rfl emptyList
  rw [fillCache_of_loop fromPartial] at rejected
  split at rejected
  · exact refilled.inv.control.geometry.mallocFromNewsb_not_full _ _ rejected
  · cases rejected

/-- `do_malloc` moves `curr_addr` by one expansion at most. -/
theorem Inv.doMalloc_grown
    (inv : Inv region heap)
    {thread size ptr : Nat}
    (accepted :
      BaseMeta.doMalloc region thread size heap = .ok (ptr, heap')) :
    Grown heap heap' := by
  rcases doMalloc_cases accepted with
    ⟨-, whole⟩ | ⟨sc, filled, -, found, fill, popped⟩
  · obtain ⟨middle, allocated, rfl⟩ := mallocWholeSb_cases whole
    have grown := inv.control.geometry.smallSbAlloc_grown allocated
    exact grown
  · have valid := (ClassSize.sizeToIndex_sound found).1
    obtain ⟨-, rfl⟩ := Prod.mk.inj popped
    rcases filledFor_cases fill with
      ⟨emptyList, blockNum, refill⟩ | ⟨-, rfl⟩
    · have grown := inv.fillCache_grown valid emptyList refill
      exact grown
    · exact Or.inl ⟨Nat.le_refl _, rfl⟩

/-- `do_malloc` never finds the queue full. -/
theorem Inv.doMalloc_not_full
    (inv : Inv region heap)
    (thread size : Nat) :
    BaseMeta.doMalloc region thread size heap ≠ .error .queueFull := by
  intro rejected
  rcases doMalloc_error rejected with
    whole | noClass | ⟨sc, valid, emptyList, failed⟩
  · rcases mallocWholeSb_error whole with tooLarge | failed
    · cases tooLarge
    · exact inv.control.geometry.smallSbAlloc_not_full failed
  · cases noClass
  · exact inv.fillCache_not_full valid emptyList failed

/-- Freeing a whole superblock is one push on the queue. -/
theorem Inv.doFree_whole
    (inv : Inv region heap)
    {ptr : Nat}
    (thread : Nat)
    (isLive : ptr ∈ heap.live)
    (used : (heap.desc (region.owner ptr)).heap = some nlist) :
    BaseMeta.doFree region thread ptr heap =
      BaseMeta.enqueueBlank (region.owner ptr) heap := by
  have geometry := inv.control.geometry
  have isBlock := inv.placement.isBlock .live isLive
  have window := geometry.block_window isBlock
  have ok := geometry.descOk _ nlist used
  have inside := ok.inside
  have inRange : region.start ≤ ptr ∧ ptr < heap.currAddr := by
    unfold SbRegion.sbAddr at window inside
    omega
  have bytes : (heap.desc (region.owner ptr)).blockSize = sbSize := by
    rw [ok.blockSize]
    rfl
  have sameOwner :
      region.owner (region.sbAddr (region.owner ptr)) = region.owner ptr :=
    owner_sbAddr window.2.2.2
  unfold BaseMeta.doFree
  rw [if_neg (geometry.block_ne_zero isBlock), if_neg (not_not.mpr inRange)]
  simp only [used, if_true]
  unfold BaseMeta.largeSbRetire
  rw [bytes, ok.superblock, Nat.mod_self, if_neg (fun differs => differs rfl),
    Nat.div_self (by decide)]
  unfold BaseMeta.organizeSbList
  simp only [sameOwner, Nat.sub_self, BaseMeta.enqueueFrom]
  cases BaseMeta.enqueueBlank (region.owner ptr) heap <;> rfl

/-- `flush_cache` does not push on the queue. -/
theorem flushLoop_not_full
    (thread sc fuel : Nat) :
    BaseMeta.flushLoop region thread sc fuel heap ≠ .error .queueFull := by
  induction fuel generalizing heap with
  | zero =>
      intro rejected
      cases rejected
  | succ fuel inductionHypothesis =>
      intro rejected
      unfold BaseMeta.flushLoop at rejected
      split at rejected
      · rcases bind_error rejected with failed | ⟨middle, -, rest⟩
        · unfold BaseMeta.flushRun at failed
          simp only at failed
          split at failed
          · split at failed
            · cases failed
            · exact heapPushPartial_not_full _ failed
          · cases failed
        · exact inductionHypothesis rest
      · cases rejected

/-- The end of a thread does not push on the queue. -/
theorem flushClasses_not_full
    (thread sc more : Nat) :
    BaseMeta.flushClasses region thread sc more heap ≠
      .error .queueFull := by
  induction more generalizing heap sc with
  | zero =>
      intro rejected
      cases rejected
  | succ more inductionHypothesis =>
      intro rejected
      unfold BaseMeta.flushClasses at rejected
      rcases bind_error rejected with failed | ⟨middle, -, rest⟩
      · exact flushLoop_not_full _ _ _ failed
      · exact inductionHypothesis _ rest

/-- A free keeps `curr_addr`. -/
theorem Inv.doFree_currAddr
    (inv : Inv region heap)
    {thread ptr : Nat}
    (isLive : ptr ∈ heap.live)
    (accepted : BaseMeta.doFree region thread ptr heap = .ok heap') :
    heap'.currAddr = heap.currAddr := by
  by_cases whole : (heap.desc (region.owner ptr)).heap = some nlist
  · rw [inv.doFree_whole thread isLive whole] at accepted
    unfold BaseMeta.enqueueBlank at accepted
    split at accepted
    · cases accepted
    · obtain rfl := Except.ok.inj accepted
      rfl
  · unfold BaseMeta.doFree at accepted
    split at accepted
    · obtain rfl := Except.ok.inj accepted
      rfl
    split at accepted
    · cases accepted
    simp only at accepted
    split at accepted
    · cases accepted
    · next sc used =>
        have small : sc ≠ nlist := by
          rintro rfl
          exact whole used
        rw [if_neg small] at accepted
        split at accepted
        · obtain ⟨flushed, flush, pushing⟩ := bind_ok accepted
          obtain ⟨-, sameCurr⟩ := flushLoop_supply flush
          obtain rfl := Except.ok.inj pushing
          exact sameCurr
        · obtain rfl := Except.ok.inj accepted
          rfl

/-- A free finds the queue full only when it holds 79999 superblocks. -/
theorem Inv.doFree_full
    (inv : Inv region heap)
    {thread ptr : Nat}
    (isLive : ptr ∈ heap.live)
    (rejected : BaseMeta.doFree region thread ptr heap = .error .queueFull) :
    heap.queue.length = queueSize - 1 := by
  by_cases whole : (heap.desc (region.owner ptr)).heap = some nlist
  · rw [inv.doFree_whole thread isLive whole] at rejected
    unfold BaseMeta.enqueueBlank at rejected
    split at rejected
    · next full => exact full
    · cases rejected
  · unfold BaseMeta.doFree at rejected
    split at rejected
    · cases rejected
    split at rejected
    · cases rejected
    simp only at rejected
    split at rejected
    · cases rejected
    · next sc used =>
        have small : sc ≠ nlist := by
          rintro rfl
          exact whole used
        rw [if_neg small] at rejected
        split at rejected
        · rcases bind_error rejected with failed | ⟨flushed, -, pushing⟩
          · exact absurd failed (flushLoop_not_full _ _ _)
          · cases pushing
        · cases rejected

/-- `curr_addr` lies a number of whole expansions behind the heap start. -/
def Expanded (region : SbRegion) (heap : Heap) : Prop :=
  ∃ expansions,
    heap.currAddr = region.start + expansions * sbRegionExpandSize

/-- One expansion more or none keeps `curr_addr` at whole expansions. -/
theorem Expanded.grown
    (expanded : Expanded region heap)
    (grown : Grown heap heap') :
    Expanded region heap' := by
  obtain ⟨expansions, shape⟩ := expanded
  rcases grown with ⟨-, same⟩ | ⟨-, moved⟩
  · exact ⟨expansions, same.trans shape⟩
  · refine ⟨expansions + 1, ?_⟩
    rw [moved, shape, Nat.add_mul, Nat.one_mul, Nat.add_assoc]

/-- The constructor expands once. -/
theorem Fresh.expanded
    (fresh : Fresh region heap) :
    heap.currAddr = region.start + sbRegionExpandSize ∧
      heap.queue.length = sbRegionExpandSize / sbSize - 1 ∧
      heap.live = [] := by
  obtain ⟨memory, created⟩ := fresh
  unfold BaseMeta.create at created
  simp only at created
  split at created
  · cases created
  · rw [organizeSbList_eq region (by decide)] at created
    obtain ⟨queue, -, -, live⟩ := enqueueFrom_queue created
    refine ⟨enqueueFrom_currAddr created, ?_, live⟩
    rw [queue, List.nil_append, List.length_range']

/-- One step keeps `curr_addr` at whole expansions. -/
theorem Step.expanded
    {call : Call}
    (step : Step region heap call heap')
    (inv : Inv region heap)
    (expanded : Expanded region heap) :
    Expanded region heap' := by
  cases step with
  | malloc positive fits returned =>
      obtain ⟨expansions, shape⟩ :=
        expanded.grown (inv.doMalloc_grown returned)
      exact ⟨expansions, shape⟩
  | free isLive returned =>
      obtain ⟨expansions, shape⟩ := expanded
      exact ⟨expansions, (inv.doFree_currAddr isLive returned).trans shape⟩
  | exit returned =>
      obtain ⟨expansions, shape⟩ := expanded
      exact ⟨expansions, (flushClasses_supply returned).2.trans shape⟩
  | store isLive lower upper =>
      exact expanded

/-- In every run `curr_addr` stays at whole expansions. -/
theorem Expanded.of_reaches
    (reached : Reaches (Fresh region) (Step region) heap) :
    Expanded region heap := by
  have both : Inv region heap ∧ Expanded region heap := by
    refine @Reaches.invariant _ _ _ _
      (fun state => Inv region state ∧ Expanded region state) ?_ ?_ _ reached
    · intro first fresh
      refine ⟨fresh.inv.1, 1, ?_⟩
      rw [Nat.one_mul]
      exact fresh.expanded.1
    · rintro before call after ⟨inv, expanded⟩ step
      exact ⟨(step.inv inv).1, step.expanded inv expanded⟩
  exact both.2

/-- The queue holds each superblock but the first at most once. -/
theorem Control.queue_length
    (control : Control region heap) :
    region.start + (heap.queue.length + 1) * sbSize ≤ heap.currAddr := by
  have above := control.geometry.currAbove
  have inside :
      ∀ k, k ∈ heap.queue →
        k ∈ List.range' 1 ((heap.currAddr - region.start) / sbSize - 1) := by
    intro k queued
    have spare := control.queueSpare k queued
    have positive := spare.indexPos
    have below := spare.inside
    unfold SbRegion.sbAddr at below
    have bound : k + 1 ≤ (heap.currAddr - region.start) / sbSize := by
      rw [Nat.le_div_iff_mul_le (by decide), Nat.add_mul, Nat.one_mul]
      omega
    rw [List.mem_range'_1]
    omega
  have shorter :=
    (List.subperm_of_subset control.queueNodup inside).length_le
  rw [List.length_range'] at shorter
  have some : 1 ≤ (heap.currAddr - region.start) / sbSize := by
    rw [Nat.le_div_iff_mul_le (by decide), Nat.one_mul]
    omega
  have product :
      (heap.queue.length + 1) * sbSize ≤ heap.currAddr - region.start :=
    calc
      (heap.queue.length + 1) * sbSize
        ≤ (heap.currAddr - region.start) / sbSize * sbSize :=
          Nat.mul_le_mul_right _ (by omega)
      _ ≤ heap.currAddr - region.start :=
          Nat.div_mul_le_self _ _
  generalize (heap.queue.length + 1) * sbSize = bytes at *
  omega

/-- The assertion of `push` never fails in a run over the region. -/
def NeverFull (region : SbRegion) : Prop :=
  (∀ memory, BaseMeta.create region memory ≠ .error .queueFull) ∧
    ∀ heap,
      Reaches (Fresh region) (Step region) heap →
      heap.queue.length ≤ queueSize - 1 ∧
        (∀ thread size,
          BaseMeta.doMalloc region thread size heap ≠ .error .queueFull) ∧
        (∀ thread ptr,
          ptr ∈ heap.live →
          BaseMeta.doFree region thread ptr heap ≠ .error .queueFull) ∧
        ∀ thread,
          BaseMeta.publicFlushCache region thread heap ≠ .error .queueFull

/-- The constructor queues the superblocks of one expansion only. -/
theorem create_not_full
    (memory : Memory) :
    BaseMeta.create region memory ≠ .error .queueFull := by
  intro rejected
  unfold BaseMeta.create at rejected
  simp only at rejected
  split at rejected
  · cases rejected
  · next roomLeft =>
      obtain ⟨heap, created⟩ :=
        @enqueueFrom_ok
          { memory := memory
            desc := fun _ => .blank
            partialList := fun _ => []
            queue := []
            currAddr := region.start + sbRegionExpandSize
            cache := fun _ sc => freshFreeList sc
            live := [] }
          (region.owner (region.start + sbSize))
          (sbRegionExpandSize / sbSize - 1)
          (show 0 + (sbRegionExpandSize / sbSize - 1) ≤ queueSize - 1 by
            decide)
      rw [organizeSbList_eq region (by decide), created] at rejected
      cases rejected

/-- Four expansions do not fill the queue. -/
theorem queue_length_lt
    (reached : Reaches (Fresh region) (Step region) heap)
    (few : region.limit < region.start + 5 * sbRegionExpandSize) :
    heap.queue.length < queueSize - 1 := by
  have inv := Inv.of_reaches reached
  have length := inv.control.queue_length
  have below := inv.control.geometry.currBelow
  obtain ⟨expansions, shape⟩ := Expanded.of_reaches reached
  simp only [sbRegionExpandSize, minSbRegionSize, sbSize, pageSize,
    queueSize] at *
  omega

/-- With fewer than five expansions no push finds the queue full. -/
theorem neverFull_of_few
    (few : region.limit < region.start + 5 * sbRegionExpandSize) :
    NeverFull region := by
  refine ⟨create_not_full, ?_⟩
  intro heap reached
  have inv := Inv.of_reaches reached
  have short := queue_length_lt reached few
  refine ⟨Nat.le_of_lt short, inv.doMalloc_not_full, ?_, ?_⟩
  · intro thread ptr isLive rejected
    exact Nat.ne_of_lt short (inv.doFree_full isLive rejected)
  · intro thread
    exact flushClasses_not_full thread 0 nlist

/-- Users hold whole superblocks only, and the rest is queued. -/
structure WholeOnly
    (region : SbRegion)
    (expansions : Nat)
    (heap : Heap) : Prop where
  reached : Reaches (Fresh region) (Step region) heap
  whole :
    ∀ block,
      block ∈ heap.live →
      (heap.desc (region.owner block)).heap = some nlist
  currAddr :
    heap.currAddr = region.start + expansions * sbRegionExpandSize
  supply :
    heap.queue.length + heap.live.length + 1 =
      expansions * (sbRegionExpandSize / sbSize)

/-- A whole superblock can be allocated while the file has room. -/
theorem mallocWholeSb_supply
    (inv : Inv region heap)
    (supplied :
      heap.queue ≠ [] ∨
        heap.currAddr + sbRegionExpandSize ≤ region.limit)
    (thread : Nat) :
    ∃ ptr heap',
      BaseMeta.doMalloc region thread sbSize heap = .ok (ptr, heap') ∧
        (heap'.desc (region.owner ptr)).heap = some nlist ∧
        ((heap.queue.length = heap'.queue.length + 1 ∧
            heap'.currAddr = heap.currAddr) ∨
          (heap.queue = [] ∧
            heap'.queue.length = sbRegionExpandSize / sbSize - 1 ∧
            heap'.currAddr = heap.currAddr + sbRegionExpandSize)) := by
  have geometry := inv.control.geometry
  obtain ⟨superblock, middle, allocated⟩ :=
    geometry.smallSbAlloc_ok supplied
  have changed := geometry.smallSbAlloc_supply allocated
  refine ⟨superblock, middle.setDesc (region.owner superblock)
    { anchor := { avail := 0, count := 0, state := .sbFull }
      superblock := superblock
      heap := some nlist
      blockSize := sbSize
      maxcount := 1 }, ?_, ?_, changed⟩
  · unfold BaseMeta.doMalloc
    rw [if_pos (by decide)]
    unfold BaseMeta.mallocWholeSb
    rw [roundUpTo_sbSize (by decide) (Nat.le_refl _), allocated]
    simp only [Nat.lt_irrefl, or_self, if_false]
    rfl
  · simp [setDesc]

/-- One more whole superblock, expanding at most to five expansions. -/
theorem WholeOnly.malloc
    {expansions : Nat}
    (state : WholeOnly region expansions heap)
    (room : region.start + 5 * sbRegionExpandSize ≤ region.limit)
    (few : expansions ≤ 5)
    (left : heap.live.length + 1 < 5 * (sbRegionExpandSize / sbSize)) :
    ∃ expansions' heap',
      expansions' ≤ 5 ∧
        WholeOnly region expansions' heap' ∧
        heap'.live.length = heap.live.length + 1 := by
  have inv := Inv.of_reaches state.reached
  have currShape := state.currAddr
  have supply := state.supply
  simp only [superblocksPerExpansion] at left supply
  have supplied :
      heap.queue ≠ [] ∨
        heap.currAddr + sbRegionExpandSize ≤ region.limit := by
    by_cases noneQueued : heap.queue = []
    · right
      rw [noneQueued, List.length_nil] at supply
      have fewer : expansions + 1 ≤ 5 := by
        omega
      have product := Nat.mul_le_mul_right sbRegionExpandSize fewer
      rw [Nat.add_mul, Nat.one_mul] at product
      omega
    · exact Or.inl noneQueued
  obtain ⟨ptr, heap', accepted, isWhole, changed⟩ :=
    mallocWholeSb_supply inv supplied 0
  have served := inv.doMalloc (Nat.le_refl _) accepted
  have reached :=
    state.reached.next (.malloc (by decide) (Nat.le_refl _) accepted)
  have whole :
      ∀ block,
        block ∈ ptr :: heap'.live →
        (heap'.desc (region.owner block)).heap = some nlist := by
    intro block member
    rcases List.mem_cons.mp member with rfl | member
    · exact isWhole
    · rw [served.sameLive] at member
      exact (served.liveKept block member).trans (state.whole block member)
  have longer : (ptr :: heap'.live).length = heap.live.length + 1 := by
    rw [List.length_cons, served.sameLive]
  rcases changed with ⟨fewerQueued, sameCurr⟩ | ⟨noneQueued, queued, moved⟩
  · refine ⟨expansions, _, few,
      ⟨reached, whole, sameCurr.trans currShape, ?_⟩, longer⟩
    change heap'.queue.length + (ptr :: heap'.live).length + 1 = _
    simp only [superblocksPerExpansion]
    omega
  · rw [noneQueued, List.length_nil] at supply
    refine ⟨expansions + 1, _, by omega,
      ⟨reached, whole, ?_, ?_⟩, longer⟩
    · change heap'.currAddr = _
      rw [moved, currShape, Nat.add_mul, Nat.one_mul, Nat.add_assoc]
    · change heap'.queue.length + (ptr :: heap'.live).length + 1 = _
      simp only [superblocksPerExpansion] at queued ⊢
      omega

/-- All superblocks of five expansions but the first can be allocated. -/
theorem exists_wholeOnly
    (room : region.start + 5 * sbRegionExpandSize ≤ region.limit)
    {count : Nat}
    (fits : count + 1 ≤ 5 * (sbRegionExpandSize / sbSize)) :
    ∃ expansions heap,
      expansions ≤ 5 ∧
        WholeOnly region expansions heap ∧
        heap.live.length = count := by
  induction count with
  | zero =>
      have one : region.start + sbRegionExpandSize ≤ region.limit := by
        omega
      obtain ⟨heap, fresh⟩ := exists_fresh one
      obtain ⟨currShape, queued, live⟩ := fresh.expanded
      refine ⟨1, heap, by omega, ⟨.start fresh, ?_, ?_, ?_⟩, ?_⟩
      · simp [live]
      · rw [Nat.one_mul]
        exact currShape
      · rw [queued, live]
        rfl
      · rw [live]
        rfl
  | succ count inductionHypothesis =>
      obtain ⟨expansions, heap, few, state, length⟩ :=
        inductionHypothesis (by omega)
      obtain ⟨expansions', heap', few', state', length'⟩ :=
        state.malloc room few (by omega)
      exact ⟨expansions', heap', few', state', by omega⟩

/-- Freeing a whole superblock queues it while the queue has room. -/
theorem WholeOnly.free
    {expansions : Nat}
    (state : WholeOnly region expansions heap)
    (someLive : heap.live ≠ [])
    (room : heap.queue.length < queueSize - 1) :
    ∃ heap',
      WholeOnly region expansions heap' ∧
        heap'.queue.length = heap.queue.length + 1 := by
  have inv := Inv.of_reaches state.reached
  obtain ⟨ptr, isLive⟩ := List.exists_mem_of_ne_nil heap.live someLive
  have accepted := inv.doFree_whole 0 isLive (state.whole ptr isLive)
  unfold BaseMeta.enqueueBlank at accepted
  rw [if_neg (Nat.ne_of_lt room)] at accepted
  have step : Step region heap (.free 0 ptr) _ := .free isLive accepted
  have longer :
      (heap.queue ++ [region.owner ptr]).length = heap.queue.length + 1 := by
    rw [List.length_append, List.length_singleton]
  have shorter : (heap.live.erase ptr).length + 1 = heap.live.length := by
    rw [List.length_erase_of_mem isLive]
    have positive := List.length_pos_of_mem isLive
    omega
  refine ⟨_, ⟨state.reached.next step, ?_, state.currAddr, ?_⟩, longer⟩
  · intro block member
    have used := (step.inv inv).1.live_used member
    change
      (Function.update heap.desc (region.owner ptr) .blank
        (region.owner block)).heap ≠ none at used
    change
      (Function.update heap.desc (region.owner ptr) .blank
        (region.owner block)).heap = some nlist
    rcases eq_or_ne (region.owner block) (region.owner ptr) with same | differs
    · rw [same, Function.update_self] at used
      exact absurd rfl used
    · rw [Function.update_of_ne differs]
      exact state.whole block (List.mem_of_mem_erase member)
  · have supply := state.supply
    change
      (heap.queue ++ [region.owner ptr]).length +
        (heap.live.erase ptr).length + 1 = _
    omega

/-- Five expansions of whole superblocks can fill the queue. -/
theorem exists_queued
    (room : region.start + 5 * sbRegionExpandSize ≤ region.limit)
    {count : Nat}
    (fits : count ≤ queueSize - 1) :
    ∃ heap, WholeOnly region 5 heap ∧ heap.queue.length = count := by
  induction count with
  | zero =>
      obtain ⟨expansions, heap, few, state, length⟩ :=
        exists_wholeOnly room
          (show 81919 + 1 ≤ 5 * (sbRegionExpandSize / sbSize) by decide)
      have supply := state.supply
      simp only [superblocksPerExpansion] at supply
      obtain rfl : expansions = 5 := by
        omega
      exact ⟨heap, state, by omega⟩
  | succ count inductionHypothesis =>
      obtain ⟨heap, state, length⟩ := inductionHypothesis (by omega)
      have supply := state.supply
      simp only [superblocksPerExpansion, queueSize] at supply fits
      have someLive : heap.live ≠ [] := by
        intro noneLive
        rw [noneLive, List.length_nil] at supply
        omega
      obtain ⟨heap', state', length'⟩ :=
        state.free someLive (by simp only [queueSize]; omega)
      exact ⟨heap', state', by omega⟩

/-- With room for five expansions some run ends at the assertion. -/
theorem exists_full
    (room : region.start + 5 * sbRegionExpandSize ≤ region.limit) :
    ∃ heap ptr,
      Reaches (Fresh region) (Step region) heap ∧
        ptr ∈ heap.live ∧
        heap.queue.length = queueSize - 1 ∧
        BaseMeta.doFree region 0 ptr heap = .error .queueFull := by
  obtain ⟨heap, state, length⟩ := exists_queued room (Nat.le_refl _)
  have supply := state.supply
  simp only [superblocksPerExpansion, queueSize] at supply length
  have someLive : heap.live ≠ [] := by
    intro noneLive
    rw [noneLive, List.length_nil] at supply
    omega
  obtain ⟨ptr, isLive⟩ := List.exists_mem_of_ne_nil heap.live someLive
  refine ⟨heap, ptr, state.reached, isLive, length, ?_⟩
  rw [(Inv.of_reaches state.reached).doFree_whole 0 isLive
    (state.whole ptr isLive)]
  unfold BaseMeta.enqueueBlank
  rw [if_pos length]

/-- The superblock region that `_BXP_init` maps for a heap of `size` bytes. -/
def sbRegionFor
    (sbBase size : Nat)
    (mapped :
      Mappable sbBase (Region.fileSizeFor (size / sbSize * sbSize))) :
    SbRegion where
  start := Region.alignUp (sbBase + pageSize) sbSize
  limit := sbBase + Region.fileSizeFor (size / sbSize * sbSize)
  aligned := (Region.alignUp_pow (sbBase + pageSize) 16).1
  positive := by
    have above := (Region.alignUp_pow (sbBase + pageSize) 16).2.1
    have positive := mapped.positive
    change 0 < Region.alignUp (sbBase + pageSize) (2 ^ 16)
    omega
  userSpace := mapped.userSpace

/--
The queue never overflows exactly when fewer than five expansions fit in the
superblock file: it has fewer than 81920 superblocks, or exactly 81920 and a
base that leaves more than two pages before the heap start.
-/
theorem neverFull_iff_size
    (sbBase size : Nat)
    (mapped :
      Mappable sbBase (Region.fileSizeFor (size / sbSize * sbSize))) :
    NeverFull (sbRegionFor sbBase size mapped) ↔
      size / sbSize < 81920 ∨
        (size / sbSize = 81920 ∧
          sbBase + 2 * pageSize < (sbRegionFor sbBase size mapped).start) := by
  have bounds := Region.alignUp_pow (sbBase + pageSize) 16
  have startShape :
      (sbRegionFor sbBase size mapped).start =
        Region.alignUp (sbBase + pageSize) (2 ^ 16) :=
    rfl
  have limitShape :
      (sbRegionFor sbBase size mapped).limit =
        sbBase + (size / sbSize * 16 + 2) * pageSize := by
    change sbBase + (size / sbSize * sbSize / pageSize + 2) * pageSize = _
    rw [show sbSize = 16 * pageSize from rfl, ← Nat.mul_assoc,
      Nat.mul_div_cancel _ (by decide)]
  have few :
      (sbRegionFor sbBase size mapped).limit <
          (sbRegionFor sbBase size mapped).start + 5 * sbRegionExpandSize ↔
        size / sbSize < 81920 ∨
          (size / sbSize = 81920 ∧
            sbBase + 2 * pageSize <
              (sbRegionFor sbBase size mapped).start) := by
    rw [limitShape, startShape]
    have pages := mapped.pageAligned
    clear startShape limitShape mapped
    generalize size / sbSize = superblocks
    generalize Region.alignUp (sbBase + pageSize) (2 ^ 16) = start at *
    simp only [sbRegionExpandSize, minSbRegionSize, pageSize] at *
    omega
  rw [← few]
  constructor
  · intro neverFull
    by_contra many
    obtain ⟨heap, ptr, reached, isLive, -, rejected⟩ :=
      exists_full (Nat.le_of_not_lt many)
    exact (neverFull.2 heap reached).2.2.1 0 ptr isLive rejected
  · exact neverFull_of_few

/-- A heap of 2 GiB runs and never fills the queue. -/
theorem neverFull_iff_size_2GiB :
    ∃ mapped,
      (∃ heap, Fresh (sbRegionFor (2 ^ 40) (2 ^ 31) mapped) heap) ∧
        NeverFull (sbRegionFor (2 ^ 40) (2 ^ 31) mapped) := by
  have mapped :
      Mappable (2 ^ 40) (Region.fileSizeFor (2 ^ 31 / sbSize * sbSize)) :=
    ⟨by decide, by decide, by decide⟩
  refine ⟨mapped, exists_fresh ?_, ?_⟩
  · change
      Region.alignUp (2 ^ 40 + pageSize) sbSize + sbRegionExpandSize ≤
        2 ^ 40 + Region.fileSizeFor (2 ^ 31 / sbSize * sbSize)
    decide +kernel
  · exact (neverFull_iff_size (2 ^ 40) (2 ^ 31) mapped).mpr
      (Or.inl (by decide))

/-- A heap of 6 GiB, which `_BXP_init` accepts, can fill the queue. -/
theorem queue_full_6GiB :
    minSbRegionSize ≤ 6 * 2 ^ 30 ∧
      6 * 2 ^ 30 < maxSbRegionSize ∧
      ∃ mapped heap ptr,
        Reaches (Fresh (sbRegionFor (2 ^ 40) (6 * 2 ^ 30) mapped))
            (Step (sbRegionFor (2 ^ 40) (6 * 2 ^ 30) mapped)) heap ∧
          ptr ∈ heap.live ∧
          BaseMeta.doFree (sbRegionFor (2 ^ 40) (6 * 2 ^ 30) mapped) 0 ptr
              heap =
            .error .queueFull := by
  have mapped :
      Mappable (2 ^ 40)
        (Region.fileSizeFor (6 * 2 ^ 30 / sbSize * sbSize)) :=
    ⟨by decide, by decide, by decide⟩
  refine ⟨by decide, by decide, mapped, ?_⟩
  have room :
      (sbRegionFor (2 ^ 40) (6 * 2 ^ 30) mapped).start +
          5 * sbRegionExpandSize ≤
        (sbRegionFor (2 ^ 40) (6 * 2 ^ 30) mapped).limit := by
    change
      Region.alignUp (2 ^ 40 + pageSize) sbSize + 5 * sbRegionExpandSize ≤
        2 ^ 40 + Region.fileSizeFor (6 * 2 ^ 30 / sbSize * sbSize)
    decide +kernel
  obtain ⟨heap, ptr, reached, isLive, -, rejected⟩ := exists_full room
  exact ⟨heap, ptr, reached, isLive, rejected⟩

end Heap

end Bxalloc
