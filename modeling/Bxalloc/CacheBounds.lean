import Bxalloc.QueueCapacity

namespace Bxalloc

/-!
# Refills and bounds of the free lists

A thread's free list carries a bound that starts at the number of blocks of a
superblock, capped for small classes, and doubles with the refills.  A refill
takes blocks of one superblock, at least one and at most the bound.  A free
pushes one block on a list that is not over its bound, so a list never holds
more than one block above it.
-/

open Lib (Memory Reaches)

namespace Heap

variable {region : SbRegion} {heap heap' : Heap}

/-- The doubling rule raises a bound and stops at one superblock. -/
theorem growMaxSize_bounds
    (cache : FreeList)
    {maxFlistNum maxcount : Nat}
    (below : maxFlistNum ≤ maxcount) :
    maxFlistNum ≤ (cache.growMaxSize maxFlistNum maxcount).maxsize ∧
      (cache.growMaxSize maxFlistNum maxcount).maxsize ≤ maxcount := by
  unfold FreeList.growMaxSize
  split
  · next fewer =>
      change maxFlistNum ≤ maxFlistNum * 2 ∧ maxFlistNum * 2 ≤ maxcount
      omega
  · exact ⟨below, Nat.le_refl _⟩

/-- The first blocks of a free chain belong to its superblock. -/
theorem Placement.taken_owned
    (placement : Placement region heap)
    {k more start : Nat}
    {memory : Memory}
    (startShape :
      start =
        (heap.desc k).superblock +
          (heap.desc k).anchor.avail * (heap.desc k).blockSize)
    (early : more < freeCount (heap.desc k))
    (sameLinks :
      ∀ block,
        heap.IsBlock region block →
        block ≠ (readLink heap.memory)^[more] start →
        readLink memory block = readLink heap.memory block)
    {block : Nat}
    (member : block ∈ List.iterate (readLink memory) start (more + 1)) :
    region.owner block = k := by
  obtain ⟨left, count⟩ := Nat.exists_eq_add_of_lt early
  rw [(placement.takenLinks startShape
    (by omega : more + 1 + left = _) sameLinks).1] at member
  obtain ⟨index, before, rfl⟩ := List.mem_iterate.mp member
  apply placement.fits (.chain k)
  change (readLink heap.memory)^[index] start ∈ heap.freeChain k
  unfold freeChain
  rw [← startShape]
  exact Lib.LinkWalk.iterate_mem (by omega)

/-- A list of blocks of one superblock is a list of blocks of its class. -/
theorem Inv.one_superblock
    (inv : Inv region heap)
    {thread sc k : Nat}
    (nonempty : 0 < (heap.cache thread sc).size)
    (owned :
      ∀ block, block ∈ heap.cacheList thread sc → region.owner block = k) :
    (heap.desc k).heap = some sc ∧
      ∀ block,
        block ∈ heap.cacheList thread sc →
        block ∈ heap.blocks region k := by
  constructor
  · obtain ⟨used, -⟩ := inv.cacheHead nonempty
    rwa [owned _ (by rw [cacheList_cons nonempty]; exact List.mem_cons_self)]
      at used
  · intro block member
    rw [← owned block member]
    exact inv.control.geometry.mem_blocks_owner
      (inv.placement.isBlock (.cache thread sc) member)

/-- What a refill that finds blocks does to the free lists. -/
structure Restocked
    (region : SbRegion)
    (heap : Heap)
    (thread sc blockNum : Nat)
    (heap' : Heap) : Prop where
  size : (heap'.cache thread sc).size = blockNum
  positive : 1 ≤ blockNum
  few : blockNum ≤ (heap.cache thread sc).maxsize
  oneSuperblock :
    ∃ k,
      (heap'.desc k).heap = some sc ∧
        ∀ block,
          block ∈ heap'.cacheList thread sc →
          block ∈ heap'.blocks region k
  grows : (heap.cache thread sc).maxsize ≤ (heap'.cache thread sc).maxsize
  capped :
    (heap'.cache thread sc).maxsize ≤ sbSize / ClassSize.indexToSize sc
  others :
    ∀ thread' sc',
      ¬ (thread' = thread ∧ sc' = sc) →
      heap'.cache thread' sc' = heap.cache thread' sc'

/-- A refill only reads the free lists of the heap before it. -/
theorem Restocked.of_sameCache
    {middle : Heap}
    {thread sc blockNum : Nat}
    (restocked : Restocked region middle thread sc blockNum heap')
    (same : middle.cache = heap.cache) :
    Restocked region heap thread sc blockNum heap' := by
  obtain ⟨size, positive, few, oneSuperblock, grows, capped, others⟩ :=
    restocked
  rw [same] at few grows others
  exact ⟨size, positive, few, oneSuperblock, grows, capped, others⟩

/-- Taking all free blocks of a partial superblock. -/
theorem Inv.takeAllTop_restocks
    (inv : Inv region heap)
    {thread sc k : Nat}
    {rest : List Nat}
    (shape : heap.partialList sc = k :: rest)
    (isPartial : (heap.desc k).anchor.state = .sbPartial)
    (emptyList : (heap.cache thread sc).size = 0)
    (capped :
      (heap.cache thread sc).maxsize ≤ sbSize / ClassSize.indexToSize sc)
    (all : (heap.desc k).anchor.count ≤ (heap.cache thread sc).maxsize)
    {blockNum : Nat}
    (accepted :
      BaseMeta.mallocFromPartialLoop region thread sc (k :: rest) heap =
        .ok (blockNum, heap')) :
    Restocked region heap thread sc blockNum heap' := by
  obtain ⟨listed, -, -, -, -⟩ := inv.control.top shape
  obtain ⟨positive, -, free⟩ :=
    (inv.control.geometry.descOk k sc listed.1).partial_bounds listed.1
      isPartial
  have taken := inv.takeAllTop shape isPartial emptyList
  rw [mallocFromPartialLoop_all isPartial all] at accepted
  obtain ⟨rfl, rfl⟩ := Prod.mk.inj (Except.ok.inj accepted)
  obtain ⟨more, countShape⟩ := Nat.exists_eq_add_of_le' positive
  refine ⟨?_, positive, all, ⟨k, taken.one_superblock ?_ ?_⟩, ?_, ?_, ?_⟩
  · rw [setCache_self]
    rfl
  · rw [setCache_self]
    exact positive
  · intro block member
    unfold cacheList at member
    rw [setCache_self] at member
    simp only [FreeList.pushList, countShape] at member
    exact inv.placement.taken_owned rfl (by omega) (fun _ _ _ => rfl) member
  · rw [setCache_self]
    exact Nat.le_refl _
  · rw [setCache_self]
    exact capped
  · intro thread' sc' other
    exact setCache_other _ other

/-- Taking as many free blocks of a partial superblock as the list may hold. -/
theorem Inv.takeSomeTop_restocks
    (inv : Inv region heap)
    {thread sc k : Nat}
    {rest : List Nat}
    (shape : heap.partialList sc = k :: rest)
    (isPartial : (heap.desc k).anchor.state = .sbPartial)
    (emptyList : (heap.cache thread sc).size = 0)
    (fewer : (heap.cache thread sc).maxsize < (heap.desc k).anchor.count)
    {blockNum : Nat}
    (accepted :
      BaseMeta.mallocFromPartialLoop region thread sc (k :: rest) heap =
        .ok (blockNum, heap')) :
    Restocked region heap thread sc blockNum heap' := by
  obtain ⟨listed, -, -, -, valid⟩ := inv.control.top shape
  have geometry := inv.control.geometry
  have ok := geometry.descOk k sc listed.1
  obtain ⟨-, upper, free⟩ := ok.partial_bounds listed.1 isPartial
  have maxsizePos := inv.control.maxsizePos thread sc valid
  obtain ⟨more, maxShape⟩ := Nat.exists_eq_add_of_le' maxsizePos
  rw [maxShape] at fewer
  rw [inv.mallocFromPartialLoop_some shape isPartial maxShape fewer]
    at accepted
  obtain ⟨rfl, rfl⟩ := Prod.mk.inj (Except.ok.inj accepted)
  let block :=
    (heap.desc k).superblock +
      (heap.desc k).anchor.avail * (heap.desc k).blockSize
  let cache :=
    ((heap.cache thread sc).pushList block (more + 1)).growMaxSize
      (more + 1) (heap.desc k).maxcount
  have cacheShape : cache.list = block ∧ cache.size = more + 1 :=
    growMaxSize_list _ _ _
  have grown :
      more + 1 ≤ cache.maxsize ∧ cache.maxsize ≤ (heap.desc k).maxcount :=
    growMaxSize_bounds _ (by omega)
  have classCount :
      (heap.desc k).maxcount = sbSize / ClassSize.indexToSize sc := by
    rw [ok.maxcount, blockBytes_small (by omega)]
  have taken :=
    inv.takeSomeTop shape isPartial emptyList fewer cacheShape.1 cacheShape.2
      (by omega)
  rw [cacheShape.1] at taken
  obtain ⟨tailBlock, -, -⟩ :=
    inv.placement.chain_index inv.control.geometry valid listed.1
      (by omega : more < _)
  have nowHere : ∀ state, (heap.setCache thread sc state).cache thread sc =
      state :=
    setCache_self thread sc
  refine ⟨?_, by omega, by omega, ⟨k, taken.one_superblock ?_ ?_⟩, ?_, ?_, ?_⟩
  · exact (congrArg FreeList.size (nowHere cache)).trans cacheShape.2
  · change 0 < ((heap.setCache thread sc cache).cache thread sc).size
    rw [nowHere, cacheShape.2]
    exact Nat.succ_pos more
  · intro node member
    change
      node ∈
        List.iterate _ ((heap.setCache thread sc cache).cache thread sc).list
          ((heap.setCache thread sc cache).cache thread sc).size at member
    rw [nowHere, cacheShape.1, cacheShape.2] at member
    refine inv.placement.taken_owned rfl (by omega) ?_ member
    intro other isBlock notTail
    exact geometry.readLink_write_other 0 tailBlock isBlock notTail
  · change _ ≤ ((heap.setCache thread sc cache).cache thread sc).maxsize
    rw [nowHere, maxShape]
    exact grown.1
  · change ((heap.setCache thread sc cache).cache thread sc).maxsize ≤ _
    rw [nowHere, ← classCount]
    exact grown.2
  · intro thread' sc' other
    exact setCache_other cache other

/--
`malloc_from_partial` leaves all free lists alone when the partial list holds
only empty superblocks, and fills the empty list otherwise.
-/
theorem Inv.mallocFromPartialLoop_restocks
    (inv : Inv region heap)
    {thread sc blockNum : Nat}
    {stack : List Nat}
    (shape : heap.partialList sc = stack)
    (emptyList : (heap.cache thread sc).size = 0)
    (capped :
      (heap.cache thread sc).maxsize ≤ sbSize / ClassSize.indexToSize sc)
    (accepted :
      BaseMeta.mallocFromPartialLoop region thread sc stack heap =
        .ok (blockNum, heap')) :
    (blockNum = 0 ∧
        heap'.cache = heap.cache ∧
        ∀ k, k ∈ stack → (heap.desc k).anchor.state = .sbEmpty) ∨
      Restocked region heap thread sc blockNum heap' := by
  induction stack generalizing heap with
  | nil =>
      obtain ⟨rfl, rfl⟩ := Prod.mk.inj (Except.ok.inj accepted)
      exact Or.inl ⟨rfl, rfl, fun k member => absurd member List.not_mem_nil⟩
  | cons k rest inductionHypothesis =>
      obtain ⟨listed, absent, -, -, -⟩ := inv.control.top shape
      rcases listed.2 with isPartial | isEmpty
      · right
        rcases Nat.lt_or_ge (heap.cache thread sc).maxsize
            (heap.desc k).anchor.count with fewer | all
        · exact inv.takeSomeTop_restocks shape isPartial emptyList fewer
            accepted
        · exact inv.takeAllTop_restocks shape isPartial emptyList capped all
            accepted
      · rw [inv.control.mallocFromPartialLoop_empty shape isEmpty] at accepted
        rcases inductionHypothesis (inv.retireTop shape isEmpty)
            (by simp [setPartial, setDesc]) emptyList capped accepted with
          ⟨nothing, same, allEmpty⟩ | restocked
        · refine Or.inl ⟨nothing, same, ?_⟩
          intro j member
          rcases List.mem_cons.mp member with rfl | later
          · exact isEmpty
          · have state := allEmpty j later
            have distinct : j ≠ k := fun isTop => absent (isTop ▸ later)
            simpa only [setDesc, setPartial, Function.update_of_ne distinct]
              using state
        · exact Or.inr (restocked.of_sameCache rfl)

/-- `malloc_from_newsb` fills the empty list from the new superblock. -/
theorem Inv.mallocFromNewsb_restocks
    (inv : Inv region heap)
    {thread sc blockNum : Nat}
    (valid : sc < nlist)
    (emptyList : (heap.cache thread sc).size = 0)
    (capped :
      (heap.cache thread sc).maxsize ≤ sbSize / ClassSize.indexToSize sc)
    (accepted :
      BaseMeta.mallocFromNewsb region thread sc heap =
        .ok (blockNum, heap')) :
    Restocked region heap thread sc blockNum heap' := by
  have newInv := (inv.mallocFromNewsb valid emptyList accepted).1
  obtain ⟨k, middle, more, anchor, cache, memory, stack, -, delivered, taken,
    numShape, heapShape⟩ := inv.mallocFromNewsb_cases valid accepted
  obtain ⟨listShape, sizeShape⟩ := taken.listShape
  have sameList : middle.cache = heap.cache := delivered.sameCache
  have early : more < sbSize / ClassSize.indexToSize sc := by
    have newCount := taken.newCount
    omega
  have grown :
      (middle.cache thread sc).maxsize ≤ cache.maxsize ∧
        cache.maxsize ≤ sbSize / ClassSize.indexToSize sc := by
    rw [taken.cacheShape]
    apply growMaxSize_bounds
    rw [sameList]
    exact capped
  have here : heap'.cache thread sc = cache := by
    rw [heapShape]
    exact setCache_self thread sc cache
  have nonempty : 0 < (heap'.cache thread sc).size := by
    rw [here, sizeShape]
    exact Nat.succ_pos more
  have owned :
      ∀ block, block ∈ heap'.cacheList thread sc → region.owner block = k := by
    intro block member
    unfold cacheList at member
    rw [here, listShape, sizeShape, heapShape] at member
    obtain ⟨-, linkedPlacement, -⟩ :=
      delivered.inv.placement.linkSuperblock_placement
        delivered.inv.control.geometry valid delivered.stray.spare
    have linked := linkSuperblock_desc region middle k sc
    refine linkedPlacement.taken_owned ?_ ?_ ?_ member
    · rw [linked]
      simp [smallDesc]
    · rw [linked]
      simpa [freeCount, smallDesc] using early
    · intro other isBlock notTail
      exact delivered.inv.placement.newsb_sameLinks
        delivered.inv.control.geometry valid delivered.stray.spare early
        taken.memoryShape isBlock notTail
  refine ⟨?_, by omega, ?_, ⟨k, newInv.one_superblock nonempty owned⟩, ?_, ?_,
    ?_⟩
  · rw [here, sizeShape, numShape]
  · rw [numShape, ← sameList]
    exact taken.few
  · rw [here, ← sameList]
    exact grown.1
  · rw [here]
    exact grown.2
  · intro thread' sc' other
    rw [heapShape, ← sameList]
    exact setCache_other cache other

/-- A returning `fill_cache` fills the empty list from one superblock. -/
theorem Inv.fillCache_restocks
    (inv : Inv region heap)
    {thread sc blockNum : Nat}
    (valid : sc < nlist)
    (emptyList : (heap.cache thread sc).size = 0)
    (capped :
      (heap.cache thread sc).maxsize ≤ sbSize / ClassSize.indexToSize sc)
    (accepted :
      BaseMeta.fillCache region thread sc heap = .ok (blockNum, heap')) :
    Restocked region heap thread sc blockNum heap' := by
  obtain ⟨taken, middle, fromPartial, refilled, -⟩ :=
    inv.mallocFromPartialLoop valid rfl emptyList
  have outcome :=
    inv.mallocFromPartialLoop_restocks rfl emptyList capped fromPartial
  rw [fillCache_of_loop fromPartial] at accepted
  rcases outcome with ⟨nothing, same, -⟩ | restocked
  · rw [if_pos nothing] at accepted
    rw [← same] at emptyList capped
    exact (refilled.inv.mallocFromNewsb_restocks valid emptyList capped
      accepted).of_sameCache same
  · have positive := restocked.positive
    rw [if_neg (by omega)] at accepted
    obtain ⟨rfl, rfl⟩ := Prod.mk.inj (Except.ok.inj accepted)
    exact restocked

/-- There is a block for class `sc` without new space, or space for one. -/
def Supplied (region : SbRegion) (heap : Heap) (sc : Nat) : Prop :=
  (∃ k, k ∈ heap.partialList sc ∧ (heap.desc k).anchor.state = .sbPartial) ∨
    heap.queue ≠ [] ∨
    heap.currAddr + sbRegionExpandSize ≤ region.limit

/-- With a superblock `malloc_from_newsb` returns. -/
theorem mallocFromNewsb_returns
    {thread sc superblock : Nat}
    {middle : Heap}
    (allocated :
      BaseMeta.smallSbAlloc region heap = .ok (superblock, middle)) :
    ∃ blockNum heap',
      BaseMeta.mallocFromNewsb region thread sc heap =
        .ok (blockNum, heap') := by
  unfold BaseMeta.mallocFromNewsb
  rw [allocated]
  simp only [bind, Except.bind]
  split
  · exact ⟨_, _, rfl⟩
  · rw [heapPushPartial_of_heap
      (show (Heap.desc _ (region.owner superblock)).heap = some sc by
        simp [setDesc])]
    exact ⟨_, _, rfl⟩

/-- `fill_cache` only stops for want of space, and then nothing was supplied. -/
theorem Inv.fillCache_stops
    (inv : Inv region heap)
    {thread sc : Nat}
    {fault : Fault}
    (valid : sc < nlist)
    (emptyList : (heap.cache thread sc).size = 0)
    (capped :
      (heap.cache thread sc).maxsize ≤ sbSize / ClassSize.indexToSize sc)
    (rejected : BaseMeta.fillCache region thread sc heap = .error fault) :
    fault = .outOfSpace ∧ ¬ Supplied region heap sc := by
  obtain ⟨taken, middle, fromPartial, refilled, -⟩ :=
    inv.mallocFromPartialLoop valid rfl emptyList
  have outcome :=
    inv.mallocFromPartialLoop_restocks rfl emptyList capped fromPartial
  obtain ⟨sameQueue, sameCurr⟩ := mallocFromPartialLoop_supply fromPartial
  have geometry := refilled.inv.control.geometry
  rw [fillCache_of_loop fromPartial] at rejected
  rcases outcome with ⟨nothing, -, allEmpty⟩ | restocked
  · rw [if_pos nothing] at rejected
    have noSuperblock :
        ∀ superblock heap',
          BaseMeta.smallSbAlloc region middle ≠ .ok (superblock, heap') := by
      intro superblock heap' allocated
      obtain ⟨blockNum, filled, returned⟩ :=
        @mallocFromNewsb_returns region middle thread sc _ _ allocated
      rw [returned] at rejected
      cases rejected
    constructor
    · unfold BaseMeta.mallocFromNewsb at rejected
      rcases bind_error rejected with failed | ⟨⟨superblock, _⟩, found, -⟩
      · refine (smallSbAlloc_error failed).resolve_left ?_
        rintro rfl
        exact geometry.smallSbAlloc_not_full failed
      · exact absurd found (noSuperblock _ _)
    · rintro (⟨k, member, isPartial⟩ | supplied)
      · rw [allEmpty k member] at isPartial
        cases isPartial
      · rw [← sameQueue, ← sameCurr] at supplied
        obtain ⟨superblock, heap', allocated⟩ :=
          geometry.smallSbAlloc_ok supplied
        exact noSuperblock _ _ allocated
  · have positive := restocked.positive
    rw [if_neg (by omega)] at rejected
    cases rejected

/-- The bounds of one free list of class `sc`. -/
structure ListBounded (sc : Nat) (cache : FreeList) : Prop where
  positive : 1 ≤ cache.maxsize
  capped : cache.maxsize ≤ sbSize / ClassSize.indexToSize sc
  short : cache.size ≤ cache.maxsize + 1

/-- All free lists keep their bounds. -/
def Bounded (heap : Heap) : Prop :=
  ∀ thread sc, sc < nlist → ListBounded sc (heap.cache thread sc)

/-- One free list after a call of a thread that goes on: no smaller bound. -/
structure Adapted (sc : Nat) (before after : FreeList) : Prop where
  bounded : ListBounded sc after
  grows : before.maxsize ≤ after.maxsize

/-- The free lists of a new thread keep their bounds. -/
theorem freshFreeList_bounded
    {sc : Nat}
    (valid : sc < nlist) :
    ListBounded sc (freshFreeList sc) := by
  refine ⟨freshFreeList_maxsize valid, ?_, Nat.zero_le _⟩
  unfold freshFreeList
  simp only
  split_ifs <;> omega

/-- A call that changes one free list only has to keep the bounds of that one. -/
theorem Bounded.adapt_one
    (bounded : Bounded heap)
    (thread sc : Nat)
    (own : Adapted sc (heap.cache thread sc) (heap'.cache thread sc))
    (others :
      ∀ thread' sc',
        ¬ (thread' = thread ∧ sc' = sc) →
        heap'.cache thread' sc' = heap.cache thread' sc')
    {thread' sc' : Nat}
    (valid : sc' < nlist) :
    Adapted sc' (heap.cache thread' sc') (heap'.cache thread' sc') := by
  by_cases same : thread' = thread ∧ sc' = sc
  · obtain ⟨rfl, rfl⟩ := same
    exact own
  · rw [others thread' sc' same]
    exact ⟨bounded thread' sc' valid, Nat.le_refl _⟩

/-- A call that leaves all free lists alone keeps their bounds. -/
theorem Bounded.adapt_same
    (bounded : Bounded heap)
    (same : heap'.cache = heap.cache)
    {thread sc : Nat}
    (valid : sc < nlist) :
    Adapted sc (heap.cache thread sc) (heap'.cache thread sc) := by
  rw [same]
  exact ⟨bounded thread sc valid, Nat.le_refl _⟩

/-- The list `do_malloc` pops from keeps its bounds. -/
theorem Inv.filledFor_adapts
    (inv : Inv region heap)
    (bounded : Bounded heap)
    {thread sc : Nat}
    (valid : sc < nlist)
    {filled : Heap}
    (accepted : heap.filledFor region thread sc = .ok filled) :
    Adapted sc (heap.cache thread sc) (filled.cache thread sc) ∧
      ∀ thread' sc',
        ¬ (thread' = thread ∧ sc' = sc) →
        filled.cache thread' sc' = heap.cache thread' sc' := by
  have before := bounded thread sc valid
  rcases filledFor_cases accepted with
    ⟨emptyList, blockNum, fill⟩ | ⟨-, rfl⟩
  · obtain ⟨size, positive, few, -, grows, capped, others⟩ :=
      inv.fillCache_restocks valid emptyList before.capped fill
    have beforePos := before.positive
    exact ⟨⟨⟨by omega, capped, by omega⟩, grows⟩, others⟩
  · exact ⟨⟨before, Nat.le_refl _⟩, fun _ _ _ => rfl⟩

/-- A whole superblock goes past the free lists. -/
theorem Inv.mallocWholeSb_cache
    (inv : Inv region heap)
    {size ptr : Nat}
    (accepted : BaseMeta.mallocWholeSb region size heap = .ok (ptr, heap')) :
    heap'.cache = heap.cache := by
  obtain ⟨middle, allocated, rfl⟩ := mallocWholeSb_cases accepted
  obtain ⟨k, -, delivered⟩ := inv.smallSbAlloc allocated
  exact delivered.sameCache

/-- `do_malloc` keeps the bounds of all free lists. -/
theorem Inv.doMalloc_adapts
    (inv : Inv region heap)
    (bounded : Bounded heap)
    {thread size ptr : Nat}
    (accepted :
      BaseMeta.doMalloc region thread size heap = .ok (ptr, heap'))
    {thread' sc' : Nat}
    (valid : sc' < nlist) :
    Adapted sc' (heap.cache thread' sc') (heap'.cache thread' sc') := by
  rcases doMalloc_cases accepted with
    ⟨-, whole⟩ | ⟨sc, filled, -, found, fill, popped⟩
  · exact bounded.adapt_same (inv.mallocWholeSb_cache whole) valid
  · obtain ⟨-, rfl⟩ := Prod.mk.inj popped
    obtain ⟨⟨⟨positive, capped, short⟩, grows⟩, others⟩ :=
      inv.filledFor_adapts bounded (ClassSize.sizeToIndex_sound found).1 fill
    refine bounded.adapt_one thread sc ?_ ?_ valid
    · rw [setCache_self]
      exact ⟨⟨positive, capped, Nat.le_trans (Nat.sub_le _ _) short⟩, grows⟩
    · intro thread' sc' other
      exact (setCache_other _ other).trans (others thread' sc' other)

/-- One round of `flush_cache` takes blocks off the list and nothing else. -/
theorem flushRun_cache
    {thread sc : Nat}
    (accepted : BaseMeta.flushRun region thread sc heap = .ok heap') :
    ∃ head length,
      heap'.cache =
        (heap.setCache thread sc
          ((heap.cache thread sc).popList head length)).cache := by
  unfold BaseMeta.flushRun at accepted
  simp only at accepted
  split at accepted
  · split at accepted
    · obtain rfl := Except.ok.inj accepted
      exact ⟨_, _, rfl⟩
    · unfold heapPushPartial at accepted
      split at accepted
      · cases accepted
      · obtain rfl := Except.ok.inj accepted
        exact ⟨_, _, rfl⟩
  · obtain rfl := Except.ok.inj accepted
    exact ⟨_, _, rfl⟩

/-- `flush_cache` keeps the bound of the list. -/
theorem flushLoop_maxsize
    {thread sc fuel : Nat}
    (accepted : BaseMeta.flushLoop region thread sc fuel heap = .ok heap') :
    (heap'.cache thread sc).maxsize = (heap.cache thread sc).maxsize := by
  induction fuel generalizing heap with
  | zero =>
      obtain rfl := Except.ok.inj accepted
      rfl
  | succ fuel inductionHypothesis =>
      unfold BaseMeta.flushLoop at accepted
      split at accepted
      · obtain ⟨middle, round, later⟩ := bind_ok accepted
        obtain ⟨head, length, same⟩ := flushRun_cache round
        rw [inductionHypothesis later, same, setCache_self]
        rfl
      · obtain rfl := Except.ok.inj accepted
        rfl

/-- Pushing a block on a list that is not over its bound. -/
theorem Bounded.adapt_push
    (bounded : Bounded heap)
    {flushed : Heap}
    {thread sc : Nat}
    (inTable : sc < nlist)
    (room :
      (flushed.cache thread sc).size ≤ (flushed.cache thread sc).maxsize)
    (sameMax :
      (flushed.cache thread sc).maxsize = (heap.cache thread sc).maxsize)
    (others :
      ∀ thread' sc',
        ¬ (thread' = thread ∧ sc' = sc) →
        flushed.cache thread' sc' = heap.cache thread' sc')
    (ptr : Nat)
    {thread' sc' : Nat}
    (valid : sc' < nlist) :
    Adapted sc' (heap.cache thread' sc')
      ((flushed.setCache thread sc
        ((flushed.cache thread sc).push flushed.memory ptr).2).cache
          thread' sc') := by
  have before := bounded thread sc inTable
  refine bounded.adapt_one thread sc ?_ ?_ valid
  · rw [setCache_self]
    refine ⟨⟨?_, ?_, Nat.succ_le_succ room⟩, Nat.le_of_eq sameMax.symm⟩
    · exact Nat.le_trans before.positive (Nat.le_of_eq sameMax.symm)
    · exact Nat.le_trans (Nat.le_of_eq sameMax) before.capped
  · intro thread' sc' other
    exact (setCache_other _ other).trans (others thread' sc' other)

/-- `do_free` keeps the bounds of all free lists. -/
theorem Inv.doFree_adapts
    (inv : Inv region heap)
    (bounded : Bounded heap)
    {thread ptr : Nat}
    (isLive : ptr ∈ heap.live)
    (accepted : BaseMeta.doFree region thread ptr heap = .ok heap')
    {thread' sc' : Nat}
    (valid : sc' < nlist) :
    Adapted sc' (heap.cache thread' sc') (heap'.cache thread' sc') := by
  have geometry := inv.control.geometry
  have isBlock := inv.placement.isBlock .live isLive
  obtain ⟨sc, -, used, -, -⟩ := geometry.isBlock_cases isBlock
  rcases eq_or_ne sc nlist with rfl | small
  · rw [inv.doFree_whole thread isLive used] at accepted
    unfold BaseMeta.enqueueBlank at accepted
    split at accepted
    · cases accepted
    · obtain rfl := Except.ok.inj accepted
      exact bounded.adapt_same rfl valid
  · have inTable : sc < nlist :=
      Nat.lt_of_le_of_ne (geometry.descOk _ sc used).classLe small
    unfold BaseMeta.doFree at accepted
    rw [if_neg (geometry.block_ne_zero isBlock)] at accepted
    split at accepted
    · cases accepted
    · simp only [used] at accepted
      rw [if_neg small] at accepted
      split at accepted
      · obtain ⟨flushed, flush, pushing⟩ := bind_ok accepted
        obtain rfl := Except.ok.inj pushing
        obtain ⟨done, emptied⟩ := inv.flushCache inTable flush
        exact bounded.adapt_push inTable
          (Nat.le_trans (Nat.le_of_eq emptied) (Nat.zero_le _))
          (flushLoop_maxsize flush) done.others ptr valid
      · next short =>
          obtain rfl := Except.ok.inj accepted
          exact bounded.adapt_push inTable (Nat.le_of_not_lt short) rfl
            (fun _ _ _ => rfl) ptr valid

/--
One step keeps the bounds of all free lists, and lowers no bound but those of a
thread that ends.
-/
theorem Step.adapts
    {call : Call}
    (step : Step region heap call heap')
    (inv : Inv region heap)
    (bounded : Bounded heap)
    {thread sc : Nat}
    (valid : sc < nlist) :
    ListBounded sc (heap'.cache thread sc) ∧
      (call ≠ .exit thread →
        (heap.cache thread sc).maxsize ≤ (heap'.cache thread sc).maxsize) := by
  have adapted :
      ∀ {after : FreeList},
        Adapted sc (heap.cache thread sc) after →
        ListBounded sc after ∧
          (call ≠ .exit thread →
            (heap.cache thread sc).maxsize ≤ after.maxsize) :=
    fun adapted => ⟨adapted.bounded, fun _ => adapted.grows⟩
  cases step with
  | malloc positive fits returned =>
      exact adapted (inv.doMalloc_adapts bounded returned valid)
  | free isLive returned =>
      exact adapted (inv.doFree_adapts bounded isLive returned valid)
  | @exit middle ended returned =>
      obtain ⟨flushed, -⟩ := inv.publicFlushCache returned
      by_cases same : thread = ended
      · subst same
        have here :
            (middle.endThread thread).cache thread sc = freshFreeList sc := by
          simp [endThread, valid]
        rw [here]
        exact ⟨freshFreeList_bounded valid, fun goesOn => absurd rfl goesOn⟩
      · have there :
            (middle.endThread ended).cache thread sc =
              heap.cache thread sc := by
          rw [← flushed.others thread sc (fun own => same own.1)]
          simp [endThread, same]
        rw [there]
        exact ⟨bounded thread sc valid, fun _ => Nat.le_refl _⟩
  | store isLive lower upper =>
      exact adapted (bounded.adapt_same rfl valid)

/-- The free lists keep their bounds in every run. -/
theorem Bounded.of_reaches
    (reached : Reaches (Fresh region) (Step region) heap) :
    Bounded heap := by
  have both : Inv region heap ∧ Bounded heap := by
    refine @Reaches.invariant _ _ _ _
      (fun state => Inv region state ∧ Bounded state) ?_ ?_ _ reached
    · intro first fresh
      refine ⟨fresh.inv.1, fun thread sc valid => ?_⟩
      rw [fresh.lists.2.2.1]
      exact freshFreeList_bounded valid
    · rintro before call after ⟨inv, bounded⟩ step
      exact ⟨(step.inv inv).1, fun thread sc valid =>
        (step.adapts inv bounded valid).1⟩
  exact both.2

/-- A step of a thread's life: anything but the end of that thread. -/
def LifeStep
    (region : SbRegion)
    (thread : Nat)
    (before after : Heap) : Prop :=
  ∃ call, call ≠ .exit thread ∧ Step region before call after

/-- No bound is lowered during the life of its thread. -/
theorem Bounded.life
    (inv : Inv region heap)
    (bounded : Bounded heap)
    {thread : Nat}
    (lived : Relation.ReflTransGen (LifeStep region thread) heap heap')
    {sc : Nat}
    (valid : sc < nlist) :
    (heap.cache thread sc).maxsize ≤ (heap'.cache thread sc).maxsize := by
  have kept :
      Inv region heap' ∧
        Bounded heap' ∧
        (heap.cache thread sc).maxsize ≤
          (heap'.cache thread sc).maxsize := by
    induction lived with
    | refl => exact ⟨inv, bounded, Nat.le_refl _⟩
    | tail _ stepped inductionHypothesis =>
        obtain ⟨nowInv, nowBounded, soFar⟩ := inductionHypothesis
        obtain ⟨call, goesOn, step⟩ := stepped
        exact ⟨(step.inv nowInv).1,
          fun thread' sc' valid' =>
            (step.adapts nowInv nowBounded valid').1,
          soFar.trans ((step.adapts nowInv nowBounded valid).2 goesOn)⟩
  exact kept.2.2

/--
In every state of every run, each free list has a bound between one and the
number of blocks of a superblock and at most one block more than its bound, and
during the life of its thread the bound is never lowered.  A refill returns with
at least one block and at most the bound, all from one superblock of the class,
unless it stops for want of space.  `do_malloc` pops from a list with a block.
-/
theorem caches_refilled_and_bounded
    (reached : Reaches (Fresh region) (Step region) heap) :
    (∀ thread sc,
      sc < nlist →
      1 ≤ (heap.cache thread sc).maxsize ∧
        (heap.cache thread sc).maxsize ≤
          sbSize / ClassSize.indexToSize sc ∧
        (heap.cache thread sc).size ≤ (heap.cache thread sc).maxsize + 1) ∧
      (∀ thread heap' sc,
        Relation.ReflTransGen (LifeStep region thread) heap heap' →
        sc < nlist →
        (heap.cache thread sc).maxsize ≤ (heap'.cache thread sc).maxsize) ∧
      (∀ thread sc,
        sc < nlist →
        (heap.cache thread sc).size = 0 →
        (∃ blockNum heap',
          BaseMeta.fillCache region thread sc heap = .ok (blockNum, heap') ∧
            Restocked region heap thread sc blockNum heap') ∨
          (BaseMeta.fillCache region thread sc heap = .error .outOfSpace ∧
            ¬ Supplied region heap sc)) ∧
      ∀ thread size,
        1 ≤ size →
        size ≤ maxSz →
        ∃ sc,
          sc < nlist ∧
            BaseMeta.doMalloc region thread size heap =
              (filledFor region heap thread sc).map (popFrom thread sc) ∧
            ∀ filled,
              filledFor region heap thread sc = .ok filled →
              1 ≤ (filled.cache thread sc).size := by
  have inv := Inv.of_reaches reached
  have bounded := Bounded.of_reaches reached
  refine ⟨?_, ?_, ?_, ?_⟩
  · intro thread sc valid
    have own := bounded thread sc valid
    exact ⟨own.positive, own.capped, own.short⟩
  · intro thread heap' sc lived valid
    exact bounded.life inv lived valid
  · intro thread sc valid emptyList
    have capped := (bounded thread sc valid).capped
    cases fill : BaseMeta.fillCache region thread sc heap with
    | ok result =>
        exact Or.inl ⟨result.1, result.2, rfl,
          inv.fillCache_restocks valid emptyList capped fill⟩
    | error fault =>
        obtain ⟨rfl, starved⟩ :=
          inv.fillCache_stops valid emptyList capped fill
        exact Or.inr ⟨rfl, starved⟩
  · intro thread size positive small
    obtain ⟨sc, found⟩ := ClassSize.sizeToIndex_roundUp positive small
    have valid := (ClassSize.sizeToIndex_sound found).1
    refine ⟨sc, valid, doMalloc_small small found, ?_⟩
    intro filled accepted
    obtain ⟨-, -, -, -, nonempty⟩ := inv.filledFor valid accepted
    exact nonempty

/-- The first refill of the largest class returns with one or two blocks. -/
theorem caches_refilled_and_bounded_first :
    ∃ heap blockNum heap',
      Reaches (Fresh exampleRegion) (Step exampleRegion) heap ∧
        BaseMeta.fillCache exampleRegion 0 159 heap =
          .ok (blockNum, heap') ∧
        1 ≤ blockNum ∧
        blockNum ≤ 2 ∧
        (heap'.cache 0 159).size = blockNum := by
  obtain ⟨heap, fresh⟩ := exists_fresh exampleRegion_room
  obtain ⟨rest, made⟩ := fresh.constructed
  have reached : Reaches (Fresh exampleRegion) (Step exampleRegion) heap :=
    .start fresh
  have noneCached : heap.cache 0 159 = ⟨0, 0, 2⟩ := by
    rw [made.cache]
    exact largestClass.2.2
  rcases (caches_refilled_and_bounded reached).2.2.1 0 159 (by decide)
      (by rw [noneCached]) with
    ⟨blockNum, heap', filled, restocked⟩ | ⟨-, starved⟩
  · have few := restocked.few
    rw [noneCached] at few
    exact ⟨heap, blockNum, heap', reached, filled, restocked.positive, few,
      restocked.size⟩
  · refine absurd (Or.inr (Or.inl ?_)) starved
    rw [made.queue]
    exact List.cons_ne_nil 1 rest

/-- A malloc of the largest size class. -/
def LargestMalloc
    (region : SbRegion)
    (before : Heap)
    (call : Call)
    (after : Heap) : Prop :=
  Step region before call after ∧ ∃ thread, call = .malloc thread maxSz

/-- The first `served` threads hold one block of 24 KiB each. -/
structure OneEach
    (region : SbRegion)
    (served : Nat)
    (heap : Heap) : Prop where
  reached : Reaches (Fresh region) (LargestMalloc region) heap
  noneListed : heap.partialList 159 = []
  noneCached :
    ∀ thread, served ≤ thread → heap.cache thread 159 = ⟨0, 0, 2⟩
  currAddr : heap.currAddr = region.start + sbRegionExpandSize
  supply : heap.queue.length + served + 1 = sbRegionExpandSize / sbSize

/-- The next thread takes its block out of the next queued superblock. -/
theorem OneEach.malloc
    {served : Nat}
    (state : OneEach region served heap)
    (someQueued : heap.queue ≠ []) :
    ∃ heap', OneEach region (served + 1) heap' := by
  obtain ⟨k, rest, shape⟩ := List.exists_cons_of_ne_nil someQueued
  have control :=
    (Inv.of_reaches (state.reached.mono fun _ _ _ step => step.1)).control
  have spare : Spare region heap k := by
    apply control.queueSpare
    rw [shape]
    exact List.mem_cons_self
  have low : region.sbAddr k + sbSize ≤ 2 ^ 47 :=
    control.geometry.spare_below spare
  have returned :=
    doMalloc_largest shape state.noneListed
      (state.noneCached served (Nat.le_refl _)) low
  have step := Step.malloc (by decide) (by decide) returned
  refine ⟨_, state.reached.next ⟨step, served, rfl⟩, state.noneListed, ?_,
    state.currAddr, ?_⟩
  · intro thread later
    have other : ¬ (thread = served ∧ 159 = 159) := by
      omega
    refine (setCache_other _ other).trans ?_
    refine (setCache_other _ other).trans ?_
    exact state.noneCached thread (by omega)
  · have supply := state.supply
    rw [shape, List.length_cons] at supply
    change rest.length + (served + 1) + 1 = _
    omega

/-- All queued superblocks can be used up in this way. -/
theorem exists_oneEach
    (room : region.start + sbRegionExpandSize ≤ region.limit)
    {served : Nat}
    (early : served < sbRegionExpandSize / sbSize) :
    ∃ heap, OneEach region served heap := by
  induction served with
  | zero =>
      obtain ⟨heap, fresh⟩ := exists_fresh room
      obtain ⟨rest, made⟩ := fresh.constructed
      obtain ⟨currAddr, queued, -⟩ := fresh.expanded
      refine ⟨heap, .start fresh, ?_, ?_, currAddr, ?_⟩
      · rw [made.partialList]
      · intro thread _
        rw [made.cache]
        exact largestClass.2.2
      · rw [queued]
        rfl
  | succ served inductionHypothesis =>
      obtain ⟨heap, state⟩ := inductionHypothesis (by omega)
      refine state.malloc ?_
      intro noneQueued
      have supply := state.supply
      rw [noneQueued, List.length_nil] at supply
      omega

/-- With nothing queued, listed or left in the file a refill stops. -/
theorem OneEach.starved
    {served thread : Nat}
    (state : OneEach region served heap)
    (last : served + 1 = sbRegionExpandSize / sbSize)
    (noRoom :
      region.limit <
        region.start + sbRegionExpandSize + sbRegionExpandSize) :
    BaseMeta.fillCache region thread 159 heap = .error .outOfSpace := by
  have geometry :=
    (Inv.of_reaches
      (state.reached.mono fun _ _ _ step => step.1)).control.geometry
  have noneQueued : heap.queue = [] := by
    have supply := state.supply
    exact List.eq_nil_of_length_eq_zero (by omega)
  have full : region.limit < heap.currAddr + sbRegionExpandSize := by
    rw [state.currAddr]
    exact noRoom
  have stopped :
      BaseMeta.smallSbAlloc region heap = .error .outOfSpace := by
    unfold BaseMeta.smallSbAlloc
    rw [noneQueued]
    simp only [geometry.pageAligned]
    rw [if_pos full]
  rw [fillCache_unlisted state.noneListed]
  unfold BaseMeta.mallocFromNewsb
  rw [stopped]
  rfl

/--
In a heap of 2 GiB, after each of 16383 threads took one block of 24 KiB, the
`fill_cache` in the next such malloc stops at the assertion of
`small_sb_alloc`.
-/
theorem refill_out_of_space :
    minSbRegionSize ≤ 2 ^ 31 ∧
      2 ^ 31 < maxSbRegionSize ∧
      ∃ mapped heap,
        Reaches (Fresh (sbRegionFor (2 ^ 40) (2 ^ 31) mapped))
            (LargestMalloc (sbRegionFor (2 ^ 40) (2 ^ 31) mapped)) heap ∧
          (heap.cache 16383 159).size = 0 ∧
          BaseMeta.doMalloc (sbRegionFor (2 ^ 40) (2 ^ 31) mapped) 16383 maxSz
              heap =
            .error .outOfSpace ∧
          BaseMeta.fillCache (sbRegionFor (2 ^ 40) (2 ^ 31) mapped) 16383 159
              heap =
            .error .outOfSpace := by
  have mapped :
      Mappable (2 ^ 40) (Region.fileSizeFor (2 ^ 31 / sbSize * sbSize)) :=
    ⟨by decide, by decide, by decide⟩
  refine ⟨by decide, by decide, mapped, ?_⟩
  have room :
      (sbRegionFor (2 ^ 40) (2 ^ 31) mapped).start + sbRegionExpandSize ≤
        (sbRegionFor (2 ^ 40) (2 ^ 31) mapped).limit := by
    change
      Region.alignUp (2 ^ 40 + pageSize) sbSize + sbRegionExpandSize ≤
        2 ^ 40 + Region.fileSizeFor (2 ^ 31 / sbSize * sbSize)
    decide +kernel
  have noRoom :
      (sbRegionFor (2 ^ 40) (2 ^ 31) mapped).limit <
        (sbRegionFor (2 ^ 40) (2 ^ 31) mapped).start + sbRegionExpandSize +
          sbRegionExpandSize := by
    change
      2 ^ 40 + Region.fileSizeFor (2 ^ 31 / sbSize * sbSize) <
        Region.alignUp (2 ^ 40 + pageSize) sbSize + sbRegionExpandSize +
          sbRegionExpandSize
    decide +kernel
  have last : 16383 + 1 = sbRegionExpandSize / sbSize := by
    decide
  generalize sbRegionFor (2 ^ 40) (2 ^ 31) mapped = region at *
  obtain ⟨heap, state⟩ :=
    exists_oneEach room (show 16383 < sbRegionExpandSize / sbSize by omega)
  have noneCached := state.noneCached 16383 (Nat.le_refl _)
  have stopped :
      BaseMeta.fillCache region 16383 159 heap = .error .outOfSpace :=
    state.starved last noRoom
  have found :
      ClassSize.sizeToIndex (ClassSize.roundUp maxSz) = some 159 := by
    decide +kernel
  refine ⟨heap, state.reached, by rw [noneCached], ?_, stopped⟩
  rw [doMalloc_small (Nat.le_refl _) found]
  unfold filledFor
  rw [if_pos (by rw [noneCached]), stopped]
  rfl

end Heap

end Bxalloc
