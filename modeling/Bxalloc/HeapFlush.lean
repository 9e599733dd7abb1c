import Bxalloc.HeapSuperblocks

namespace Bxalloc

/-!
# Flushing a free list

Each round of `flush_cache` gathers the leading blocks of a free list that lie
in one superblock and puts them on that superblock's free chain.  A round keeps
the allocator invariant; so does a whole flush, and it leaves the free list
empty.
-/

open Lib

namespace Heap

variable {region : SbRegion} {heap heap' : Heap}

/-- The inner loop of `flush_cache` walks links that stay in the superblock. -/
theorem gatherRun_spec
    (memory : Memory)
    (superblock fuel tail blockCount : Nat) :
    ∃ more,
      more ≤ fuel ∧
        BaseMeta.gatherRun memory superblock fuel tail blockCount =
          ((readLink memory)^[more] tail, blockCount + more) ∧
        ∀ index,
          index < more →
          superblock ≤ (readLink memory)^[index + 1] tail ∧
            (readLink memory)^[index + 1] tail < superblock + sbSize := by
  induction fuel generalizing tail blockCount with
  | zero =>
      exact ⟨0, Nat.le_refl 0, rfl, fun index early => absurd early (by omega)⟩
  | succ fuel inductionHypothesis =>
      unfold BaseMeta.gatherRun
      by_cases leaves :
          readLink memory tail < superblock ∨
            superblock + sbSize ≤ readLink memory tail
      · refine ⟨0, Nat.zero_le _, ?_, fun index early => absurd early (by omega)⟩
        simp only [leaves, if_true]
        rfl
      · obtain ⟨more, bounded, result, stays⟩ :=
          inductionHypothesis (readLink memory tail) (blockCount + 1)
        refine ⟨more + 1, by omega, ?_, ?_⟩
        · simp only [leaves, if_false, result, Function.iterate_succ_apply]
          congr 1
          omega
        · intro index early
          cases index with
          | zero =>
              simp only [Function.iterate_one, Nat.zero_add]
              omega
          | succ index =>
              rw [Function.iterate_succ_apply]
              exact stays index (by omega)

/-- `compute_idx` recovers the index of a block. -/
theorem computeIdx_block
    {superblock index sc : Nat}
    (valid : sc < nlist)
    (inside : index * ClassSize.indexToSize sc < sbSize)
    (low : superblock + sbSize ≤ 2 ^ 64) :
    computeIdx superblock (superblock + index * ClassSize.indexToSize sc) sc =
      index := by
  have positive : 0 < ClassSize.indexToSize sc := by
    have bounds := ClassSize.indexToSize_bounds valid
    omega
  unfold computeIdx
  generalize ClassSize.indexToSize sc = size at *
  have difference :
      u64Sub (superblock + index * size) superblock % 2 ^ 32 =
        index * size := by
    unfold u64Sub
    simp only [sbSize, pageSize] at inside low
    omega
  rw [difference]
  exact Nat.mul_div_cancel _ positive

/-- What the new anchor of a flush says, when the run fits. -/
theorem flushAnchor_spec
    {desc : Descriptor}
    {idx blockCount : Nat}
    (used : desc.heap ≠ none)
    (ok : AnchorOk desc.anchor desc.maxcount)
    (early : idx < desc.maxcount)
    (positive : 1 ≤ blockCount)
    (room : blockCount + freeCount desc ≤ desc.maxcount) :
    let new := BaseMeta.flushAnchor desc.anchor idx blockCount desc.maxcount
    AnchorOk new desc.maxcount ∧
      new.avail = idx ∧
      (desc.anchor.state = .sbFull ∨ desc.anchor.state = .sbPartial) ∧
      (new.state = .sbPartial ∨
        new.state = .sbEmpty ∧
          blockCount + freeCount desc = desc.maxcount) ∧
      freeCount { desc with anchor := new } =
        blockCount + freeCount desc := by
  intro new
  have notEmpty : desc.anchor.state ≠ .sbEmpty := by
    intro isEmpty
    simp only [freeCount, used, isEmpty, if_false, if_true] at room
    omega
  have free : freeCount desc = desc.anchor.count := by
    simp only [freeCount, used, notEmpty, if_false]
  rw [free] at room ⊢
  have old :
      (desc.anchor.state = .sbFull ∧ desc.anchor.count = 0) ∨
        desc.anchor.state = .sbPartial ∧ 1 ≤ desc.anchor.count := by
    unfold AnchorOk at ok
    cases state : desc.anchor.state with
    | sbError =>
        rw [state] at ok
        exact ok.elim
    | sbFull =>
        rw [state] at ok
        exact Or.inl ⟨rfl, ok.1⟩
    | sbPartial =>
        rw [state] at ok
        exact Or.inr ⟨rfl, ok.1⟩
    | sbEmpty => exact absurd state notEmpty
  by_cases complete : desc.anchor.count + blockCount = desc.maxcount
  · have shape : new = ⟨idx, desc.maxcount - 1, .sbEmpty⟩ := by
      simp [new, BaseMeta.flushAnchor, complete]
    rw [shape]
    refine ⟨⟨rfl, early⟩, rfl, old.imp And.left And.left,
      Or.inr ⟨rfl, by omega⟩, ?_⟩
    simp only [freeCount, used, if_false, if_true]
    omega
  · have shape :
        new = ⟨idx, desc.anchor.count + blockCount, .sbPartial⟩ := by
      rcases old with ⟨state, -⟩ | ⟨state, -⟩ <;>
        simp [new, BaseMeta.flushAnchor, complete, state]
    rw [shape]
    refine ⟨⟨?_, ?_, early⟩, rfl, old.imp And.left And.left,
      Or.inl rfl, ?_⟩
    · change 1 ≤ desc.anchor.count + blockCount
      omega
    · change desc.anchor.count + blockCount < desc.maxcount
      omega
    · simp only [freeCount, used, reduceCtorEq, if_false]
      omega

/--
The cached blocks contain, one after the other, all blocks of a superblock: a
flush of this list turns that superblock from full to empty in one exchange.
-/
def WholeRun (region : SbRegion) (heap : Heap) (thread sc : Nat) : Prop :=
  ∃ k run,
    (heap.desc k).heap = some sc ∧
      run <:+: heap.cacheList thread sc ∧
      run.length = (heap.desc k).maxcount ∧
      ∀ block, block ∈ run → region.owner block = k

/-- What flushing lists of a thread does to the heap. -/
structure Flushed
    (region : SbRegion)
    (heap : Heap)
    (thread : Nat)
    (classes : Nat → Prop)
    (heap' : Heap) : Prop where
  inv : Inv region heap'
  kept :
    ∀ j,
      (heap'.desc j).heap ≠ none →
      (heap'.desc j).heap = (heap.desc j).heap ∧
        (heap'.desc j).maxcount = (heap.desc j).maxcount
  suffix :
    ∀ thread' sc',
      heap'.cacheList thread' sc' <:+ heap.cacheList thread' sc'
  others :
    ∀ thread' sc',
      ¬ (thread' = thread ∧ classes sc') →
      heap'.cache thread' sc' = heap.cache thread' sc'
  strays :
    ∀ j,
      Stray region heap' j →
      Stray region heap j ∨
        ∃ sc, classes sc ∧ WholeRun region heap thread sc
  sameLive : heap'.live = heap.live

namespace Flushed

variable {thread : Nat} {classes : Nat → Prop} {middle : Heap}

/-- Flushing nothing. -/
theorem refl
    (inv : Inv region heap) :
    Flushed region heap thread classes heap where
  inv := inv
  kept _ _ := ⟨rfl, rfl⟩
  suffix _ _ := List.suffix_rfl
  others _ _ _ := rfl
  strays _ stray := Or.inl stray
  sameLive := rfl

/-- A run of blocks cached later was cached before. -/
theorem wholeRun
    (flushed : Flushed region heap thread classes heap')
    {sc : Nat}
    (later : WholeRun region heap' thread sc) :
    WholeRun region heap thread sc := by
  obtain ⟨k, run, used, inside, complete, owned⟩ := later
  obtain ⟨sameHeap, sameCount⟩ := flushed.kept k (by simp [used])
  exact ⟨k, run, sameHeap.symm.trans used,
    inside.trans (flushed.suffix thread sc).isInfix,
    complete.trans sameCount, owned⟩

/-- Flushing more classes. -/
theorem mono
    {more : Nat → Prop}
    (flushed : Flushed region heap thread classes heap')
    (included : ∀ sc, classes sc → more sc) :
    Flushed region heap thread more heap' where
  inv := flushed.inv
  kept := flushed.kept
  suffix := flushed.suffix
  others thread' sc' other :=
    flushed.others thread' sc'
      (fun chosen => other ⟨chosen.1, included sc' chosen.2⟩)
  strays j stray :=
    (flushed.strays j stray).imp_right
      fun ⟨sc, chosen, run⟩ => ⟨sc, included sc chosen, run⟩
  sameLive := flushed.sameLive

/-- Flushing twice. -/
theorem trans
    (first : Flushed region heap thread classes middle)
    (second : Flushed region middle thread classes heap') :
    Flushed region heap thread classes heap' where
  inv := second.inv
  kept j used := by
    obtain ⟨sameHeap, sameCount⟩ := second.kept j used
    rw [sameHeap] at used
    obtain ⟨sameHeap', sameCount'⟩ := first.kept j used
    exact ⟨sameHeap.trans sameHeap', sameCount.trans sameCount'⟩
  suffix thread' sc' :=
    (second.suffix thread' sc').trans (first.suffix thread' sc')
  others thread' sc' other :=
    (second.others thread' sc' other).trans (first.others thread' sc' other)
  strays j stray := by
    rcases second.strays j stray with old | ⟨sc, chosen, run⟩
    · exact first.strays j old
    · exact Or.inr ⟨sc, chosen, first.wholeRun run⟩
  sameLive := second.sameLive.trans first.sameLive

end Flushed

/-- The leading blocks of a free list that lie in superblock `k`. -/
structure LeadingRun
    (region : SbRegion)
    (heap : Heap)
    (thread sc k more : Nat) : Prop where
  used : (heap.desc k).heap = some sc
  enough : more + 1 ≤ (heap.cache thread sc).size
  owned :
    ∀ index,
      index ≤ more →
      region.owner
        ((readLink heap.memory)^[index] (heap.cache thread sc).list) = k

/-- The first cached block belongs to a superblock of its class. -/
theorem Placement.cacheHead
    (placement : Placement region heap)
    {thread sc : Nat}
    (nonempty : 0 < (heap.cache thread sc).size) :
    (heap.desc (region.owner (heap.cache thread sc).list)).heap = some sc ∧
      heap.IsBlock region (heap.cache thread sc).list := by
  have occurs :
      (heap.cache thread sc).list ∈ heap.content (.cache thread sc) := by
    change _ ∈ heap.cacheList thread sc
    rw [cacheList_cons nonempty]
    exact List.mem_cons_self
  exact ⟨placement.fits (.cache thread sc) _ occurs,
    placement.isBlock (.cache thread sc) occurs⟩

theorem Inv.cacheHead
    (inv : Inv region heap)
    {thread sc : Nat}
    (nonempty : 0 < (heap.cache thread sc).size) :
    (heap.desc (region.owner (heap.cache thread sc).list)).heap = some sc ∧
      heap.IsBlock region (heap.cache thread sc).list :=
  inv.placement.cacheHead nonempty

/-- The inner loop of `flush_cache` finds a leading run of the free list. -/
theorem Placement.leadingRun
    (geometry : Geometry region heap)
    (placement : Placement region heap)
    {thread sc : Nat}
    (nonempty : 0 < (heap.cache thread sc).size) :
    ∃ more,
      BaseMeta.gatherRun heap.memory
          (heap.desc (region.owner (heap.cache thread sc).list)).superblock
          ((heap.cache thread sc).size - 1)
          (heap.cache thread sc).list 1 =
        ((readLink heap.memory)^[more] (heap.cache thread sc).list,
          more + 1) ∧
      LeadingRun region heap thread sc
        (region.owner (heap.cache thread sc).list) more := by
  obtain ⟨used, isBlock⟩ := placement.cacheHead nonempty
  have ok := geometry.descOk _ sc used
  obtain ⟨more, bounded, result, stays⟩ :=
    gatherRun_spec heap.memory
      (heap.desc (region.owner (heap.cache thread sc).list)).superblock
      ((heap.cache thread sc).size - 1) (heap.cache thread sc).list 1
  refine ⟨more, ?_, used, by omega, ?_⟩
  · rw [result, Nat.add_comm 1 more]
  · intro index early
    cases index with
    | zero => rfl
    | succ index =>
        have window := stays index early
        rw [ok.superblock] at window
        exact owner_of_inside (geometry.below used) window.1 window.2

/-- A leading run comes first in the free list. -/
theorem LeadingRun.isPrefix
    {thread sc k more : Nat}
    (run : LeadingRun region heap thread sc k more) :
    List.iterate (readLink heap.memory) (heap.cache thread sc).list (more + 1)
      <+: heap.cacheList thread sc := by
  obtain ⟨rest, shape⟩ := Nat.exists_eq_add_of_le run.enough
  unfold cacheList
  rw [shape, List.iterate_add _ _ (more + 1) rest]
  exact List.prefix_append _ _

/-- A leading run and the free chain of its superblock fit together in it. -/
theorem LeadingRun.room
    (geometry : Geometry region heap)
    (placement : Placement region heap)
    {thread sc k more : Nat}
    (run : LeadingRun region heap thread sc k more) :
    more + 1 + freeCount (heap.desc k) ≤ (heap.desc k).maxcount := by
  let cached :=
    List.iterate (readLink heap.memory) (heap.cache thread sc).list (more + 1)
  have isPrefix : cached <+: heap.cacheList thread sc := run.isPrefix
  have runCached :
      ∀ block,
        block ∈ cached →
        block ∈ heap.content (.cache thread sc) :=
    fun block member => isPrefix.subset member
  have distinct : (cached ++ heap.freeChain k).Nodup := by
    refine List.nodup_append'.mpr ⟨?_, ?_, ?_⟩
    · exact (placement.splits.nodup (.cache thread sc)).sublist
        isPrefix.sublist
    · exact placement.splits.nodup (.chain k)
    · intro block inRun inChain
      have clash :=
        placement.splits.place_eq (runCached block inRun)
          (show block ∈ heap.content (.chain k) from inChain)
      cases clash
  have inside :
      ∀ block,
        block ∈ cached ++ heap.freeChain k →
        block ∈ heap.blocks region k := by
    intro block member
    have owned : region.owner block = k ∧ heap.IsBlock region block := by
      rcases List.mem_append.mp member with inRun | inChain
      · obtain ⟨index, early, shape⟩ := List.mem_iterate.mp inRun
        refine ⟨?_, placement.isBlock (.cache thread sc)
          (runCached block inRun)⟩
        rw [shape]
        exact run.owned index (by omega)
      · exact ⟨placement.fits (.chain k) block inChain,
          placement.isBlock (.chain k) inChain⟩
    rw [← owned.1]
    exact geometry.mem_blocks_owner owned.2
  have bound := Geometry.length_le_maxcount distinct inside
  simpa only [cached, freeChain, List.length_append, List.length_iterate]
    using bound

/-- `heap_push_partial` of a descriptor in use. -/
theorem heapPushPartial_of_heap
    {k sc : Nat}
    (used : (heap.desc k).heap = some sc) :
    heap.heapPushPartial k =
      .ok (heap.setPartial sc (k :: heap.partialList sc)) := by
  simp only [heapPushPartial, used]

/-- The leading run moved from the free list to the front of a free chain. -/
def spliceRun (heap : Heap) (thread sc k more : Nat) : Heap :=
  let tail := (readLink heap.memory)^[more] (heap.cache thread sc).list
  { heap.setCache thread sc
      ((heap.cache thread sc).popList (readLink heap.memory tail)
        (more + 1)) with
    memory :=
      writeLink heap.memory tail
        ((heap.desc k).superblock +
          (heap.desc k).anchor.avail * (heap.desc k).blockSize) }

/-- The exchange changes the anchor and nothing else of a descriptor. -/
theorem spliceRun_setAnchor
    {thread sc k more : Nat}
    {new : Anchor}
    (j : Nat) :
    (((heap.spliceRun thread sc k more).setAnchor k new).desc j).heap =
        (heap.desc j).heap ∧
      (((heap.spliceRun thread sc k more).setAnchor k new).desc j).maxcount =
        (heap.desc j).maxcount := by
  have same := setAnchor_same (heap.spliceRun thread sc k more) k new j
  exact ⟨same.1, same.2.1⟩

/-- It creates no stray superblock. -/
theorem spliceRun_strays
    {thread sc k more j : Nat}
    {new : Anchor}
    (stray :
      Stray region ((heap.spliceRun thread sc k more).setAnchor k new) j) :
    Stray region heap j :=
  ⟨⟨(spliceRun_setAnchor j).1.symm.trans stray.spare.blank,
    stray.spare.indexPos, stray.spare.inside⟩, stray.notQueued⟩

/-- A round of `flush_cache` that has exchanged the anchor of superblock `k`. -/
structure Splice
    (region : SbRegion)
    (heap : Heap)
    (thread sc k more : Nat)
    (new : Anchor) : Prop where
  inv : Inv region heap
  valid : sc < nlist
  run : LeadingRun region heap thread sc k more
  newOk : AnchorOk new (heap.desc k).maxcount
  newState :
    new.state = .sbPartial ∨
      new.state = .sbEmpty ∧
        more + 1 + freeCount (heap.desc k) = (heap.desc k).maxcount
  newCount :
    freeCount { heap.desc k with anchor := new } =
      more + 1 + freeCount (heap.desc k)
  placement :
    Placement region ((heap.spliceRun thread sc k more).setAnchor k new)
  suffix :
    ∀ thread' sc',
      ((heap.spliceRun thread sc k more).setAnchor k new).cacheList thread'
          sc' <:+
        heap.cacheList thread' sc'

/-- What a round does after the exchange of the anchor. -/
theorem Inv.splice
    (inv : Inv region heap)
    {thread sc : Nat}
    (valid : sc < nlist)
    (nonempty : 0 < (heap.cache thread sc).size)
    (accepted : BaseMeta.flushRun region thread sc heap = .ok heap') :
    ∃ k more new,
      Splice region heap thread sc k more new ∧
        ((heap.desc k).anchor.state = .sbFull ∨
          (heap.desc k).anchor.state = .sbPartial) ∧
        (if (heap.desc k).anchor.state = .sbFull then
            if new.state = .sbEmpty then
              .ok (BaseMeta.smallSbRetire region (heap.desc k).superblock
                ((heap.spliceRun thread sc k more).setAnchor k new))
            else
              ((heap.spliceRun thread sc k more).setAnchor k
                new).heapPushPartial k
          else
            .ok ((heap.spliceRun thread sc k more).setAnchor k new)) =
          Except.ok heap' := by
  obtain ⟨more, gathered, run⟩ :=
    inv.placement.leadingRun inv.control.geometry nonempty
  obtain ⟨used, isBlock⟩ := inv.cacheHead nonempty
  generalize ownerShape :
    region.owner (heap.cache thread sc).list = k at *
  have geometry := inv.control.geometry
  have ok := geometry.descOk k sc used
  have blockSize : (heap.desc k).blockSize = ClassSize.indexToSize sc := by
    rw [ok.blockSize, blockBytes_small (by omega)]
  obtain ⟨sc', index, -, early, headShape⟩ := geometry.isBlock_cases isBlock
  rw [ownerShape] at early headShape
  have idxShape :
      computeIdx (heap.desc k).superblock (heap.cache thread sc).list sc =
        index := by
    have inside := ok.block_inside early
    have large := ok.sizes.1
    have low := geometry.below used
    rw [headShape, ok.superblock, blockSize]
    rw [blockSize] at inside large
    exact computeIdx_block valid (by omega) (by omega)
  obtain ⟨newOk, newAvail, oldState, newState, newCount⟩ :=
    flushAnchor_spec (by simp [used]) ok.anchor early
      (by omega : 1 ≤ more + 1) (run.room geometry inv.placement)
  obtain ⟨placement, suffix⟩ :=
    Placement.flushBlocks geometry inv.placement used run.enough rfl run.owned
      (by
        rw [ok.superblock, newAvail]
        exact headShape.symm)
      newCount
  refine ⟨k, more, _,
    ⟨inv, valid, run, newOk, newState, newCount, placement, suffix⟩, oldState,
    ?_⟩
  rw [← accepted]
  unfold BaseMeta.flushRun
  simp only [ownerShape, gathered, idxShape, ← blockSize]
  rfl

namespace Splice

variable
  {thread sc k more : Nat}
  {new : Anchor}

/-- Moving the run leaves the control state alone. -/
theorem moving
    (splice : Splice region heap thread sc k more new) :
    Control region (heap.spliceRun thread sc k more) :=
  splice.inv.control.congr rfl rfl rfl rfl
    (maxsizePos_setCache splice.inv.control
      (fun valid => splice.inv.control.maxsizePos thread sc valid))

theorem newDescOk
    (splice : Splice region heap thread sc k more new) :
    DescOk region heap.currAddr k { heap.desc k with anchor := new } sc :=
  (splice.inv.control.geometry.descOk k sc splice.run.used).setAnchor
    splice.newOk

theorem onlyClass
    (splice : Splice region heap thread sc k more new)
    {sc' : Nat}
    (usedBy : (heap.desc k).heap = some sc') :
    sc' = sc :=
  only_heap splice.run.used usedBy

theorem notWhole
    (splice : Splice region heap thread sc k more new) :
    (heap.desc k).heap ≠ some nlist := by
  intro whole
  have same := splice.onlyClass whole
  have valid := splice.valid
  omega

theorem newListed
    (splice : Splice region heap thread sc k more new) :
    Listed { heap.desc k with anchor := new } sc :=
  ⟨splice.run.used, splice.newState.imp_right And.left⟩

/-- Every outcome differs only in the descriptor and the partial list. -/
theorem flushed
    (splice : Splice region heap thread sc k more new)
    (inv : Inv region heap')
    (sameMemory : heap'.memory = (heap.spliceRun thread sc k more).memory)
    (sameCache : heap'.cache = (heap.spliceRun thread sc k more).cache)
    (sameLive : heap'.live = heap.live)
    (kept :
      ∀ j,
        (heap'.desc j).heap ≠ none →
        (heap'.desc j).heap = (heap.desc j).heap ∧
          (heap'.desc j).maxcount = (heap.desc j).maxcount)
    (strays :
      ∀ j,
        Stray region heap' j →
        Stray region heap j ∨ WholeRun region heap thread sc) :
    Flushed region heap thread (· = sc) heap' ∧
      (heap'.cache thread sc).size < (heap.cache thread sc).size := by
  have enough := splice.run.enough
  refine ⟨⟨inv, kept, ?_, ?_, ?_, sameLive⟩, ?_⟩
  · intro thread' sc'
    have sameList :
        heap'.cacheList thread' sc' =
          ((heap.spliceRun thread sc k more).setAnchor k new).cacheList
            thread' sc' := by
      unfold cacheList
      rw [sameMemory, sameCache]
      rfl
    rw [sameList]
    exact splice.suffix thread' sc'
  · intro thread' sc' other
    rw [sameCache]
    exact setCache_other _ other
  · intro j stray
    exact (strays j stray).imp_right fun whole => ⟨sc, rfl, whole⟩
  · have sameList :
        (heap.spliceRun thread sc k more).cache thread sc = _ :=
      setCache_self thread sc _
    rw [sameCache, sameList]
    exact Nat.sub_lt (by omega) (Nat.succ_pos more)

/-- A superblock that was partial keeps its place in the partial list. -/
theorem stays
    (splice : Splice region heap thread sc k more new)
    (wasPartial : (heap.desc k).anchor.state = .sbPartial) :
    Flushed region heap thread (· = sc)
        ((heap.spliceRun thread sc k more).setAnchor k new) ∧
      (((heap.spliceRun thread sc k more).setAnchor k new).cache thread
        sc).size < (heap.cache thread sc).size := by
  have used := splice.run.used
  have control :
      Control region ((heap.spliceRun thread sc k more).setAnchor k new) := by
    refine splice.moving.replaceDesc (fun _ => splice.onlyClass)
      (fun _ => splice.onlyClass) (fun _ => splice.newDescOk)
      (fun whole => absurd whole splice.notWhole)
      (fun _ => splice.inv.control.not_queued used) ?_
    exact ⟨fun _ => splice.newListed, fun _ => ⟨used, Or.inl wasPartial⟩⟩
  exact splice.flushed ⟨control, splice.placement⟩ rfl rfl rfl
    (fun j _ => spliceRun_setAnchor j)
    (fun j stray => Or.inl (spliceRun_strays stray))

/-- A full superblock is not in a partial list. -/
theorem wasUnlisted
    (splice : Splice region heap thread sc k more new)
    (wasFull : (heap.desc k).anchor.state = .sbFull) :
    k ∉ heap.partialList sc := by
  intro member
  obtain ⟨-, state⟩ := (splice.inv.control.partialMem sc k).mp member
  rw [wasFull] at state
  rcases state with state | state <;> cases state

/-- A superblock that was full and is not empty now is listed. -/
theorem listed
    (splice : Splice region heap thread sc k more new)
    (wasFull : (heap.desc k).anchor.state = .sbFull) :
    Flushed region heap thread (· = sc)
        (((heap.spliceRun thread sc k more).setAnchor k new).setPartial sc
          (k :: heap.partialList sc)) ∧
      ((((heap.spliceRun thread sc k more).setAnchor k new).setPartial sc
        (k :: heap.partialList sc)).cache thread sc).size <
          (heap.cache thread sc).size := by
  have used := splice.run.used
  have control :
      Control region
        (((heap.spliceRun thread sc k more).setAnchor k new).setPartial sc
          (k :: heap.partialList sc)) := by
    refine splice.moving.replace (fun _ => splice.onlyClass)
      (fun _ => splice.onlyClass) (fun _ => splice.newDescOk)
      (fun whole => absurd whole splice.notWhole)
      (fun _ => splice.inv.control.not_queued used) ?_ ?_ ?_
    · exact List.nodup_cons.mpr
        ⟨splice.wasUnlisted wasFull, splice.inv.control.partialNodup sc⟩
    · intro j distinct
      simp [distinct, spliceRun, setCache]
    · simp only [List.mem_cons, true_or, true_iff]
      exact splice.newListed
  exact splice.flushed ⟨control, splice.placement.congr rfl rfl rfl rfl⟩ rfl
    rfl rfl (fun j _ => spliceRun_setAnchor j)
    (fun j stray => Or.inl (spliceRun_strays
      ⟨stray.spare.congr rfl rfl, stray.notQueued⟩))

/-- A full superblock whose run completes it was cached as a whole. -/
theorem wholeRun
    (splice : Splice region heap thread sc k more new)
    (wasFull : (heap.desc k).anchor.state = .sbFull)
    (complete :
      more + 1 + freeCount (heap.desc k) = (heap.desc k).maxcount) :
    WholeRun region heap thread sc := by
  have run := splice.run
  have noFree : freeCount (heap.desc k) = 0 := by
    have anchorOk :=
      (splice.inv.control.geometry.descOk k sc run.used).anchor
    rw [AnchorOk, wasFull] at anchorOk
    simp [freeCount, wasFull, anchorOk.1]
  refine ⟨k, _, run.used, run.isPrefix.isInfix, ?_, ?_⟩
  · rw [List.length_iterate, ← complete, noFree]
  · intro block member
    obtain ⟨position, before, shape⟩ := List.mem_iterate.mp member
    rw [shape]
    exact run.owned position (by omega)

/-- A superblock that was full and is empty now is retired. -/
theorem retired
    (splice : Splice region heap thread sc k more new)
    (wasFull : (heap.desc k).anchor.state = .sbFull)
    (complete :
      more + 1 + freeCount (heap.desc k) = (heap.desc k).maxcount) :
    Flushed region heap thread (· = sc)
        ((heap.spliceRun thread sc k more).setDesc k .blank) ∧
      (((heap.spliceRun thread sc k more).setDesc k .blank).cache thread
        sc).size < (heap.cache thread sc).size := by
  have used := splice.run.used
  have control :
      Control region
        ((heap.spliceRun thread sc k more).setDesc k .blank) := by
    refine splice.moving.replaceDesc (fun _ => splice.onlyClass) ?_ ?_ ?_ ?_
      ?_
    · intro sc' usedBy
      cases usedBy
    · intro usedBy
      cases usedBy
    · intro usedBy
      cases usedBy
    · intro inUse
      exact absurd rfl inUse
    · constructor
      · intro listed
        exact absurd ((splice.inv.control.partialMem sc k).mpr listed)
          (splice.wasUnlisted wasFull)
      · rintro ⟨usedBy, -⟩
        cases usedBy
  have placed :
      Placement region
        ((heap.spliceRun thread sc k more).setDesc k .blank) := by
    have twice :
        ((heap.spliceRun thread sc k more).setAnchor k new).setDesc k .blank =
          (heap.spliceRun thread sc k more).setDesc k .blank := by
      simp [setAnchor, setDesc]
    rw [← twice]
    refine Placement.retire (splice.moving.geometry.setAnchor splice.newOk)
      splice.placement ((spliceRun_setAnchor k).1.trans used) ?_
    have here :
        ((heap.spliceRun thread sc k more).setAnchor k new).desc k =
          { heap.desc k with anchor := new } := by
      simp [setAnchor, setDesc, spliceRun, setCache]
    rw [here]
    exact splice.newCount.trans complete
  have blankKept :
      ∀ j,
        j ≠ k →
        ((heap.spliceRun thread sc k more).setDesc k .blank).desc j =
          heap.desc j := by
    intro j distinct
    simp [setDesc, spliceRun, setCache, distinct]
  refine splice.flushed ⟨control, placed⟩ rfl rfl rfl ?_ ?_
  · intro j inUse
    have distinct : j ≠ k := by
      intro same
      subst same
      exact inUse (by simp [setDesc, Descriptor.blank])
    rw [blankKept j distinct]
    exact ⟨rfl, rfl⟩
  · rintro j ⟨spare, absent⟩
    by_cases same : j = k
    · exact Or.inr (splice.wholeRun wasFull complete)
    · left
      have blank := spare.blank
      rw [blankKept j same] at blank
      exact ⟨⟨blank, spare.indexPos, spare.inside⟩, absent⟩

end Splice

/-- `small_sb_retire` of a superblock in use erases its descriptor. -/
theorem Splice.smallSbRetire_eq
    {thread sc k more : Nat}
    {new : Anchor}
    (splice : Splice region heap thread sc k more new) :
    BaseMeta.smallSbRetire region (heap.desc k).superblock
        ((heap.spliceRun thread sc k more).setAnchor k new) =
      (heap.spliceRun thread sc k more).setDesc k .blank := by
  have geometry := splice.inv.control.geometry
  have ok := geometry.descOk k sc splice.run.used
  have sbOwner : region.owner (heap.desc k).superblock = k := by
    rw [ok.superblock]
    exact owner_sbAddr (geometry.below splice.run.used)
  unfold BaseMeta.smallSbRetire
  rw [sbOwner]
  simp [setAnchor, setDesc]

/-- One round of `flush_cache` keeps the invariant. -/
theorem Inv.flushRun
    (inv : Inv region heap)
    {thread sc : Nat}
    (valid : sc < nlist)
    (nonempty : 0 < (heap.cache thread sc).size)
    (accepted : BaseMeta.flushRun region thread sc heap = .ok heap') :
    Flushed region heap thread (· = sc) heap' ∧
      (heap'.cache thread sc).size < (heap.cache thread sc).size := by
  obtain ⟨k, more, new, splice, oldState, outcome⟩ :=
    inv.splice valid nonempty accepted
  rcases oldState with wasFull | wasPartial
  · rw [if_pos wasFull] at outcome
    rcases splice.newState with nowPartial | ⟨nowEmpty, complete⟩
    · rw [if_neg (by rw [nowPartial]; simp),
        heapPushPartial_of_heap
          ((spliceRun_setAnchor k).1.trans splice.run.used)] at outcome
      rw [← Except.ok.inj outcome]
      exact splice.listed wasFull
    · rw [if_pos nowEmpty, splice.smallSbRetire_eq] at outcome
      rw [← Except.ok.inj outcome]
      exact splice.retired wasFull complete
  · rw [if_neg (by rw [wasPartial]; simp)] at outcome
    rw [← Except.ok.inj outcome]
    exact splice.stays wasPartial

/-- The outer loop of `flush_cache` keeps the invariant and empties the list. -/
theorem Inv.flushLoop
    (inv : Inv region heap)
    {thread sc fuel : Nat}
    (valid : sc < nlist)
    (enough : (heap.cache thread sc).size ≤ fuel)
    (accepted : BaseMeta.flushLoop region thread sc fuel heap = .ok heap') :
    Flushed region heap thread (· = sc) heap' ∧
      (heap'.cache thread sc).size = 0 := by
  induction fuel generalizing heap with
  | zero =>
      have result : heap = heap' := Except.ok.inj accepted
      rw [← result]
      exact ⟨.refl inv, by omega⟩
  | succ fuel inductionHypothesis =>
      unfold BaseMeta.flushLoop at accepted
      split at accepted
      · next nonempty =>
          obtain ⟨middle, round, later⟩ := bind_ok accepted
          obtain ⟨first, shorter⟩ := inv.flushRun valid nonempty round
          obtain ⟨rest, emptied⟩ :=
            inductionHypothesis first.inv (by omega) later
          exact ⟨first.trans rest, emptied⟩
      · have result : heap = heap' := Except.ok.inj accepted
        rw [← result]
        exact ⟨.refl inv, by omega⟩

/-- `flush_cache` keeps the invariant and empties the list. -/
theorem Inv.flushCache
    (inv : Inv region heap)
    {thread sc : Nat}
    (valid : sc < nlist)
    (accepted : BaseMeta.flushCache region thread sc heap = .ok heap') :
    Flushed region heap thread (· = sc) heap' ∧
      (heap'.cache thread sc).size = 0 :=
  inv.flushLoop valid (Nat.le_refl _) accepted

/-- The class loop of `public_flush_cache` empties the lists it reaches. -/
theorem Inv.flushClasses
    (inv : Inv region heap)
    {thread sc more : Nat}
    (valid : sc + more ≤ nlist)
    (accepted :
      BaseMeta.flushClasses region thread sc more heap = .ok heap') :
    Flushed region heap thread (· < nlist) heap' ∧
      ∀ sc',
        sc ≤ sc' →
        sc' < sc + more →
        (heap'.cache thread sc').size = 0 := by
  induction more generalizing sc heap with
  | zero =>
      have result : heap = heap' := Except.ok.inj accepted
      rw [← result]
      exact ⟨.refl inv, fun sc' lower upper => absurd upper (by omega)⟩
  | succ more inductionHypothesis =>
      unfold BaseMeta.flushClasses at accepted
      obtain ⟨middle, flushed, later⟩ := bind_ok accepted
      obtain ⟨first, emptied⟩ := inv.flushCache (by omega) flushed
      obtain ⟨rest, emptiedLater⟩ :=
        inductionHypothesis first.inv (by omega) later
      have included : ∀ sc', sc' = sc → sc' < nlist := by
        omega
      refine ⟨(first.mono included).trans rest, ?_⟩
      intro sc' lower upper
      by_cases same : sc' = sc
      · subst same
        have shorter := (rest.suffix thread sc').length_le
        simp only [cacheList, List.length_iterate] at shorter
        omega
      · exact emptiedLater sc' (by omega) (by omega)

/-- `public_flush_cache` keeps the invariant and empties the thread's lists. -/
theorem Inv.publicFlushCache
    (inv : Inv region heap)
    {thread : Nat}
    (accepted : BaseMeta.publicFlushCache region thread heap = .ok heap') :
    Flushed region heap thread (· < nlist) heap' ∧
      ∀ sc, sc < nlist → (heap'.cache thread sc).size = 0 := by
  obtain ⟨flushed, emptied⟩ :=
    inv.flushClasses (by omega : 0 + nlist ≤ nlist) accepted
  exact ⟨flushed, fun sc valid => emptied sc (Nat.zero_le sc) (by omega)⟩

end Heap

end Bxalloc
