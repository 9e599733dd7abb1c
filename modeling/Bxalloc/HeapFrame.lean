import Bxalloc.QueueCapacity

namespace Bxalloc

/-!
# What calls leave alone

The small allocator writes only links of blocks that no user holds, and the
link of the block being freed.  So the bytes of every other live block survive
each call, and so does the size of every live block.  A free of a live block
returns, unless it has to queue a whole superblock and the queue is full.
-/

open Lib

namespace Heap

variable {region : SbRegion} {heap middle heap' : Heap}

/-- The live bytes other than `ptr`'s are as they were; so are foreign ones. -/
structure KeptBut
    (region : SbRegion)
    (heap : Heap)
    (ptr : Nat)
    (memory : Memory) : Prop where
  live :
    ∀ block,
      block ∈ heap.live →
      block ≠ ptr →
      ∀ address,
        block ≤ address →
        address < block + (heap.desc (region.owner block)).blockSize →
        memory address = heap.memory address
  outside :
    ∀ address,
      address < region.start ∨ region.limit ≤ address →
      memory address = heap.memory address

/-- The bytes of every live block and outside the region are as they were. -/
def Kept (region : SbRegion) (heap : Heap) (memory : Memory) : Prop :=
  ∀ ptr, KeptBut region heap ptr memory

theorem Kept.refl
    (region : SbRegion)
    (heap : Heap) :
    Kept region heap heap.memory :=
  fun _ => ⟨fun _ _ _ _ _ _ => rfl, fun _ _ => rfl⟩

/-- A block of the same heap class has the same size. -/
theorem Inv.blockSize_congr
    (inv : Inv region heap)
    (inv' : Inv region heap')
    {k : Nat}
    (inUse : (heap.desc k).heap ≠ none)
    (same : (heap'.desc k).heap = (heap.desc k).heap) :
    (heap'.desc k).blockSize = (heap.desc k).blockSize := by
  obtain ⟨sc, used⟩ := Option.ne_none_iff_exists'.mp inUse
  rw [(inv.control.geometry.descOk k sc used).blockSize,
    (inv'.control.geometry.descOk k sc (same.trans used)).blockSize]

/-- Bytes kept by two calls in a row are kept by both together. -/
theorem KeptBut.trans
    {ptr : Nat}
    {memory : Memory}
    (first : KeptBut region heap ptr middle.memory)
    (second : KeptBut region middle ptr memory)
    (sameLive : middle.live = heap.live)
    (sameSize :
      ∀ block,
        block ∈ heap.live →
        (middle.desc (region.owner block)).blockSize =
          (heap.desc (region.owner block)).blockSize) :
    KeptBut region heap ptr memory := by
  refine ⟨?_, ?_⟩
  · intro block isLive differs address lower upper
    have later :=
      second.live block (by rwa [sameLive]) differs address lower
        (by rwa [sameSize block isLive])
    exact later.trans (first.live block isLive differs address lower upper)
  · intro address outside
    exact (second.outside address outside).trans
      (first.outside address outside)

/-- Blocks lie inside the superblock region. -/
theorem Geometry.block_inRegion
    (geometry : Geometry region heap)
    {block : Nat}
    (isBlock : heap.IsBlock region block) :
    region.start ≤ block ∧
      block + (heap.desc (region.owner block)).blockSize ≤ heap.currAddr := by
  obtain ⟨sc, -, used, -, -⟩ := geometry.isBlock_cases isBlock
  have inside := (geometry.descOk _ sc used).inside
  have window := geometry.block_window isBlock
  unfold SbRegion.sbAddr at *
  omega

/-- The bytes outside the region survive a link of a block. -/
theorem Geometry.writeLink_outside
    (geometry : Geometry region heap)
    {block address : Nat}
    (target : Nat)
    (isBlock : heap.IsBlock region block)
    (outside : address < region.start ∨ region.limit ≤ address) :
    writeLink heap.memory block target address = heap.memory address := by
  have inRegion := geometry.block_inRegion isBlock
  have window := geometry.block_window isBlock
  have below := geometry.currBelow
  apply Memory.store64_apart
  omega

/-- Writing the link of a block that no user holds keeps all live bytes. -/
theorem Inv.kept_writeLink
    (inv : Inv region heap)
    {place : Place}
    {node : Nat}
    (target : Nat)
    (occurs : node ∈ heap.content place)
    (notLive : place ≠ .live) :
    Kept region heap (writeLink heap.memory node target) := by
  have geometry := inv.control.geometry
  have nodeBlock := inv.placement.isBlock place occurs
  intro ptr
  refine ⟨?_, fun _ => geometry.writeLink_outside target nodeBlock⟩
  intro block isLive _ address lower upper
  have liveBlock := inv.placement.isBlock .live isLive
  have distinct : block ≠ node := by
    rintro rfl
    exact notLive (inv.placement.splits.place_eq occurs isLive)
  have apart := geometry.blocks_apart liveBlock nodeBlock distinct
  have window := geometry.block_window nodeBlock
  apply Memory.store64_apart
  omega

/-- Writing the link of a live block keeps the bytes of the other ones. -/
theorem Inv.keptBut_writeLink
    (inv : Inv region heap)
    {ptr : Nat}
    (target : Nat)
    (isLive : ptr ∈ heap.live) :
    KeptBut region heap ptr (writeLink heap.memory ptr target) := by
  have geometry := inv.control.geometry
  have ptrBlock := inv.placement.isBlock .live isLive
  refine ⟨?_, fun _ => geometry.writeLink_outside target ptrBlock⟩
  intro block otherLive distinct address lower upper
  have otherBlock := inv.placement.isBlock .live otherLive
  have apart := geometry.blocks_apart otherBlock ptrBlock distinct
  have window := geometry.block_window ptrBlock
  apply Memory.store64_apart
  omega

/-- Writing into a superblock that is not in use keeps all live bytes. -/
theorem Inv.kept_spare
    (inv : Inv region heap)
    {k : Nat}
    {memory : Memory}
    (blank : (heap.desc k).heap = none)
    (below : region.sbAddr k + sbSize ≤ region.limit)
    (outside :
      ∀ address,
        address < region.sbAddr k ∨ region.sbAddr k + sbSize ≤ address →
        memory address = heap.memory address) :
    Kept region heap memory := by
  intro ptr
  refine ⟨?_, ?_⟩
  · intro block isLive _ address lower upper
    have window :=
      inv.control.geometry.block_window (inv.placement.isBlock .live isLive)
    have distinct : region.owner block ≠ k := by
      intro same
      exact inv.live_used isLive (by rw [same]; exact blank)
    have apart := sbAddr_apart region distinct
    apply outside
    omega
  · intro address foreign
    apply outside
    unfold SbRegion.sbAddr at *
    omega

/-- `malloc_from_partial` writes at most the link of one block it takes. -/
theorem Inv.mallocFromPartialLoop_kept
    (inv : Inv region heap)
    {thread sc blockNum : Nat}
    {stack : List Nat}
    (valid : sc < nlist)
    (shape : heap.partialList sc = stack)
    (emptyList : (heap.cache thread sc).size = 0)
    (accepted :
      BaseMeta.mallocFromPartialLoop region thread sc stack heap =
        .ok (blockNum, heap')) :
    Kept region heap heap'.memory := by
  induction stack generalizing heap with
  | nil =>
      obtain ⟨-, rfl⟩ := Prod.mk.inj (Except.ok.inj accepted)
      exact Kept.refl region heap
  | cons k rest inductionHypothesis =>
      obtain ⟨listed, -, -, -, -⟩ := inv.control.top shape
      have geometry := inv.control.geometry
      have ok := geometry.descOk k sc listed.1
      have maxsizePos := inv.control.maxsizePos thread sc valid
      rcases listed.2 with isPartial | isEmpty
      · obtain ⟨-, -, free⟩ := ok.partial_bounds listed.1 isPartial
        by_cases all :
            (heap.desc k).anchor.count ≤ (heap.cache thread sc).maxsize
        · rw [mallocFromPartialLoop_all isPartial all] at accepted
          obtain ⟨-, rfl⟩ := Prod.mk.inj (Except.ok.inj accepted)
          exact Kept.refl region heap
        · obtain ⟨more, maxShape⟩ := Nat.exists_eq_add_of_le' maxsizePos
          rw [inv.mallocFromPartialLoop_some shape isPartial maxShape
            (by omega)] at accepted
          obtain ⟨-, rfl⟩ := Prod.mk.inj (Except.ok.inj accepted)
          have occurs :
              (readLink heap.memory)^[more]
                  ((heap.desc k).superblock +
                    (heap.desc k).anchor.avail * (heap.desc k).blockSize) ∈
                heap.content (.chain k) :=
            LinkWalk.iterate_mem (by omega)
          exact inv.kept_writeLink 0 occurs (by simp)
      · rw [inv.control.mallocFromPartialLoop_empty shape isEmpty] at accepted
        have retired := inv.retireTop shape isEmpty
        have kept :=
          inductionHypothesis retired (by simp [setPartial, setDesc])
            emptyList accepted
        intro ptr
        refine ⟨?_, (kept ptr).outside⟩
        intro block isLive differs address lower upper
        have inUse := retired.live_used (show block ∈ _ from isLive)
        have notRetired : region.owner block ≠ k := by
          intro same
          rw [same] at inUse
          exact inUse (by simp [setDesc, Descriptor.blank])
        refine (kept ptr).live block isLive differs address lower ?_
        simpa [setDesc, setPartial, notRetired] using upper

/-- Linking the blocks of a superblock writes inside it only. -/
theorem linkBlocks_outside
    (memory : Memory)
    {superblock blockSize count address : Nat}
    (large : 8 ≤ blockSize)
    (fits : count * blockSize ≤ sbSize)
    (outside : address < superblock ∨ superblock + sbSize ≤ address) :
    BaseMeta.linkBlocks superblock blockSize count memory address =
      memory address := by
  induction count with
  | zero => rfl
  | succ count inductionHypothesis =>
      rw [Nat.succ_mul] at fits
      unfold BaseMeta.linkBlocks writeLink
      rw [Memory.store64_apart _ _ (by omega)]
      exact inductionHypothesis (by omega)

/-- `malloc_from_newsb` writes only into the superblock it takes. -/
theorem Inv.mallocFromNewsb_kept
    (inv : Inv region heap)
    {thread sc blockNum : Nat}
    (valid : sc < nlist)
    (accepted :
      BaseMeta.mallocFromNewsb region thread sc heap =
        .ok (blockNum, heap')) :
    Kept region heap heap'.memory := by
  obtain ⟨k, middle, more, anchor, cache, memory, stack, -, delivered, taken,
    -, rfl⟩ := inv.mallocFromNewsb_cases valid accepted
  have spare := delivered.stray.spare
  have below : region.sbAddr k + sbSize ≤ region.limit :=
    Nat.le_trans spare.inside delivered.inv.control.geometry.currBelow
  have blank : (heap.desc k).heap = none := by
    by_contra inUse
    have same := delivered.usedSame k inUse
    rw [← same] at inUse
    exact inUse spare.blank
  have bounds := blockBytes_bounds (by omega : sc ≤ nlist)
  have counts := blockCount_bounds (by omega : sc ≤ nlist)
  rw [blockBytes_small (by omega)] at bounds counts
  have fewerBlocks :
      (sbSize / ClassSize.indexToSize sc - 1) * ClassSize.indexToSize sc ≤
        sbSize :=
    Nat.le_trans (Nat.mul_le_mul_right _ (Nat.sub_le _ _)) counts.2.2
  have linkedOutside :
      ∀ address,
        address < region.sbAddr k ∨ region.sbAddr k + sbSize ≤ address →
        BaseMeta.linkBlocks (region.sbAddr k) (ClassSize.indexToSize sc)
            (sbSize / ClassSize.indexToSize sc - 1) middle.memory address =
          heap.memory address := by
    intro address outside
    rw [← delivered.sameMemory]
    exact linkBlocks_outside _ bounds.1 fewerBlocks outside
  rcases taken.memoryShape with linked | cut
  · rw [linked]
    exact inv.kept_spare blank below linkedOutside
  · rw [cut]
    refine inv.kept_spare blank below ?_
    intro address outside
    have newCount := taken.newCount
    have early :
        (more + 1) * ClassSize.indexToSize sc ≤
          sbSize / ClassSize.indexToSize sc * ClassSize.indexToSize sc :=
      Nat.mul_le_mul_right _ (by omega)
    rw [Nat.succ_mul] at early
    exact
      (Memory.store64_apart _ _ (by omega)).trans
        (linkedOutside address outside)

/-- A refill keeps the bytes of all live blocks. -/
theorem Inv.fillCache_kept
    (inv : Inv region heap)
    {thread sc blockNum : Nat}
    (valid : sc < nlist)
    (emptyList : (heap.cache thread sc).size = 0)
    (accepted :
      BaseMeta.fillCache region thread sc heap = .ok (blockNum, heap')) :
    Kept region heap heap'.memory := by
  obtain ⟨taken, middle, fromPartial, refilled, -⟩ :=
    inv.mallocFromPartialLoop valid rfl emptyList
  have first :=
    inv.mallocFromPartialLoop_kept valid rfl emptyList fromPartial
  rw [fillCache_of_loop fromPartial] at accepted
  split at accepted
  · have second := refilled.inv.mallocFromNewsb_kept valid accepted
    intro ptr
    refine (first ptr).trans (second ptr) refilled.sameLive ?_
    intro block isLive
    have inUse :=
      refilled.inv.live_used (by rw [refilled.sameLive]; exact isLive)
    exact inv.blockSize_congr refilled.inv (inv.live_used isLive)
      (refilled.kept _ inUse)
  · obtain ⟨-, rfl⟩ := Prod.mk.inj (Except.ok.inj accepted)
    exact first

/-- `do_malloc` keeps the bytes of all live blocks. -/
theorem Inv.doMalloc_kept
    (inv : Inv region heap)
    {thread size ptr : Nat}
    (accepted :
      BaseMeta.doMalloc region thread size heap = .ok (ptr, heap')) :
    Kept region heap heap'.memory := by
  rcases doMalloc_cases accepted with
    ⟨-, whole⟩ | ⟨sc, filled, -, found, fill, popped⟩
  · obtain ⟨middle, allocated, rfl⟩ := mallocWholeSb_cases whole
    obtain ⟨k, -, delivered⟩ := inv.smallSbAlloc allocated
    change Kept region heap middle.memory
    rw [delivered.sameMemory]
    exact Kept.refl region heap
  · have valid := (ClassSize.sizeToIndex_sound found).1
    obtain ⟨-, rfl⟩ := Prod.mk.inj popped
    rcases filledFor_cases fill with
      ⟨emptyList, blockNum, refill⟩ | ⟨-, rfl⟩
    · have kept := inv.fillCache_kept valid emptyList refill
      exact kept
    · exact Kept.refl region filled

/-- Live blocks keep their size through `do_malloc`. -/
theorem Served.sameSize
    {thread size ptr block : Nat}
    (served : Served region heap thread size ptr heap')
    (inv : Inv region heap)
    (isLive : block ∈ heap.live) :
    (heap'.desc (region.owner block)).blockSize =
      (heap.desc (region.owner block)).blockSize :=
  inv.blockSize_congr served.inv (inv.live_used isLive)
    (served.liveKept block isLive)

/-- Pushing a superblock in use on its partial list writes no byte. -/
theorem heapPushPartial_kept
    {k sc : Nat}
    (used : (heap'.desc k).heap = some sc)
    (kept : Kept region heap heap'.memory) :
    ∃ pushed,
      heap'.heapPushPartial k = .ok pushed ∧
        Kept region heap pushed.memory :=
  ⟨_, heapPushPartial_of_heap used, kept⟩

/-- A round of `flush_cache` returns, and writes one link of a cached block. -/
theorem Inv.flushRun_kept
    (inv : Inv region heap)
    {thread sc : Nat}
    (nonempty : 0 < (heap.cache thread sc).size) :
    ∃ heap',
      BaseMeta.flushRun region thread sc heap = .ok heap' ∧
        Kept region heap heap'.memory := by
  obtain ⟨more, gathered, run⟩ :=
    inv.placement.leadingRun inv.control.geometry nonempty
  have occurs :
      (readLink heap.memory)^[more] (heap.cache thread sc).list ∈
        heap.content (.cache thread sc) :=
    LinkWalk.iterate_mem run.enough
  have used := run.used
  unfold BaseMeta.flushRun
  simp only [gathered]
  split
  · split
    · exact ⟨_, rfl, inv.kept_writeLink _ occurs (by simp)⟩
    · exact heapPushPartial_kept
        ((setAnchor_same (heap.setCache thread sc _) _ _ _).1.trans used)
        (inv.kept_writeLink _ occurs (by simp))
  · exact ⟨_, rfl, inv.kept_writeLink _ occurs (by simp)⟩

/-- Live blocks keep their heap class and size through a flush. -/
theorem Flushed.liveKept
    {thread : Nat}
    {classes : Nat → Prop}
    (flushed : Flushed region heap thread classes heap')
    (inv : Inv region heap)
    {block : Nat}
    (isLive : block ∈ heap.live) :
    (heap'.desc (region.owner block)).heap =
        (heap.desc (region.owner block)).heap ∧
      (heap'.desc (region.owner block)).blockSize =
        (heap.desc (region.owner block)).blockSize := by
  have inUse :=
    flushed.inv.live_used (by rw [flushed.sameLive]; exact isLive)
  have same := (flushed.kept _ inUse).1
  exact ⟨same,
    inv.blockSize_congr flushed.inv (inv.live_used isLive) same⟩

/-- `flush_cache` returns and keeps the bytes of all live blocks. -/
theorem Inv.flushLoop_kept
    (inv : Inv region heap)
    {thread sc : Nat}
    (valid : sc < nlist)
    (fuel : Nat) :
    ∃ heap',
      BaseMeta.flushLoop region thread sc fuel heap = .ok heap' ∧
        Kept region heap heap'.memory := by
  induction fuel generalizing heap with
  | zero => exact ⟨heap, rfl, Kept.refl region heap⟩
  | succ fuel inductionHypothesis =>
      unfold BaseMeta.flushLoop
      split
      · next nonempty =>
          obtain ⟨middle, round, first⟩ := inv.flushRun_kept nonempty
          obtain ⟨flushed, -⟩ := inv.flushRun valid nonempty round
          obtain ⟨heap', later, second⟩ := inductionHypothesis flushed.inv
          refine ⟨heap', ?_, ?_⟩
          · rw [round]
            exact later
          · intro ptr
            refine (first ptr).trans (second ptr) flushed.sameLive ?_
            intro block isLive
            exact (flushed.liveKept inv isLive).2
      · exact ⟨heap, rfl, Kept.refl region heap⟩

/-- The end of a thread leaves all live bytes alone. -/
theorem Inv.flushClasses_kept
    (inv : Inv region heap)
    {thread sc more : Nat}
    (valid : sc + more ≤ nlist)
    (accepted :
      BaseMeta.flushClasses region thread sc more heap = .ok heap') :
    Kept region heap heap'.memory := by
  induction more generalizing sc heap with
  | zero =>
      have result : heap = heap' := Except.ok.inj accepted
      rw [← result]
      exact Kept.refl region heap
  | succ more inductionHypothesis =>
      unfold BaseMeta.flushClasses at accepted
      obtain ⟨middle, flushing, later⟩ := bind_ok accepted
      obtain ⟨flushed, -⟩ := inv.flushCache (by omega) flushing
      obtain ⟨middle', flushing', first⟩ :
          ∃ middle',
            BaseMeta.flushCache region thread sc heap = .ok middle' ∧
              Kept region heap middle'.memory :=
        inv.flushLoop_kept (by omega) _
      obtain rfl := Except.ok.inj (flushing'.symm.trans flushing)
      have second := inductionHypothesis flushed.inv (by omega) later
      intro ptr
      refine (first ptr).trans (second ptr) flushed.sameLive ?_
      intro block isLive
      exact (flushed.liveKept inv isLive).2

/-- What a free of a live block does to the other live blocks. -/
structure Released
    (region : SbRegion)
    (heap : Heap)
    (ptr : Nat)
    (heap' : Heap) : Prop where
  inv : Inv region { heap' with live := heap'.live.erase ptr }
  sameLive : heap'.live = heap.live
  liveKept :
    ∀ block,
      block ∈ heap.live →
      block ≠ ptr →
      (heap'.desc (region.owner block)).blockSize =
        (heap.desc (region.owner block)).blockSize
  bytes : KeptBut region heap ptr heap'.memory

/-- A superblock in use as a whole holds one live block. -/
theorem Inv.whole_alone
    (inv : Inv region heap)
    {block ptr : Nat}
    (isLive : block ∈ heap.live)
    (ptrLive : ptr ∈ heap.live)
    (used : (heap.desc (region.owner ptr)).heap = some nlist)
    (sameOwner : region.owner block = region.owner ptr) :
    block = ptr := by
  have geometry := inv.control.geometry
  have single : (heap.desc (region.owner ptr)).maxcount = 1 := by
    rw [(geometry.descOk _ nlist used).maxcount]
    rfl
  obtain ⟨-, index, -, early, shape⟩ :=
    geometry.isBlock_cases (inv.placement.isBlock .live isLive)
  obtain ⟨-, index', -, early', shape'⟩ :=
    geometry.isBlock_cases (inv.placement.isBlock .live ptrLive)
  rw [sameOwner] at early shape
  obtain rfl : index = 0 := by omega
  obtain rfl : index' = 0 := by omega
  exact shape.trans shape'.symm

/-- A free of a whole superblock returns when the queue has room. -/
theorem Inv.doFree_whole_released
    (inv : Inv region heap)
    {ptr : Nat}
    (thread : Nat)
    (isLive : ptr ∈ heap.live)
    (used : (heap.desc (region.owner ptr)).heap = some nlist)
    (room : heap.queue.length ≠ queueSize - 1) :
    ∃ heap',
      BaseMeta.doFree region thread ptr heap = .ok heap' ∧
        Released region heap ptr heap' := by
  have freed :
      BaseMeta.doFree region thread ptr heap =
        .ok { heap.setDesc (region.owner ptr) .blank with
          queue := heap.queue ++ [region.owner ptr] } := by
    rw [inv.doFree_whole thread isLive used]
    unfold BaseMeta.enqueueBlank
    rw [if_neg room]
  refine ⟨_, freed, (inv.doFree isLive freed).1, rfl, ?_,
    Kept.refl region heap ptr⟩
  intro block otherLive differs
  have distinct : region.owner block ≠ region.owner ptr :=
    fun same => differs (inv.whole_alone otherLive isLive used same)
  simp [setDesc, distinct]

/-- A free of a live block of a size class returns. -/
theorem Inv.doFree_small_released
    (inv : Inv region heap)
    {ptr : Nat}
    (thread : Nat)
    (isLive : ptr ∈ heap.live)
    (small : (heap.desc (region.owner ptr)).heap ≠ some nlist) :
    ∃ heap',
      BaseMeta.doFree region thread ptr heap = .ok heap' ∧
        Released region heap ptr heap' := by
  have geometry := inv.control.geometry
  have isBlock := inv.placement.isBlock .live isLive
  obtain ⟨sc, -, used, -, -⟩ := geometry.isBlock_cases isBlock
  have ok := geometry.descOk _ sc used
  have classLe := ok.classLe
  have notWhole : sc ≠ nlist := by
    rintro rfl
    exact small used
  have valid : sc < nlist := by
    omega
  have window := geometry.block_window isBlock
  have inside := ok.inside
  have inRange : region.start ≤ ptr ∧ ptr < heap.currAddr := by
    unfold SbRegion.sbAddr at window inside
    omega
  -- Both ways to a list that is short enough end with the same push.
  have finish :
      ∀ flushed,
        Flushed region heap thread (· = sc) flushed →
        Kept region heap flushed.memory →
        BaseMeta.doFree region thread ptr heap =
          .ok { flushed.setCache thread sc
              ((flushed.cache thread sc).push flushed.memory ptr).2 with
            memory :=
              ((flushed.cache thread sc).push flushed.memory ptr).1 } →
        ∃ heap',
          BaseMeta.doFree region thread ptr heap = .ok heap' ∧
            Released region heap ptr heap' := by
    intro flushed done kept freed
    have stillLive : ptr ∈ flushed.live := by
      rw [done.sameLive]
      exact isLive
    refine ⟨_, freed, (inv.doFree isLive freed).1, done.sameLive, ?_, ?_⟩
    · intro block otherLive _
      exact (done.liveKept inv otherLive).2
    · refine (kept ptr).trans
        (done.inv.keptBut_writeLink (flushed.cache thread sc).list stillLive)
        done.sameLive ?_
      intro block otherLive
      exact (done.liveKept inv otherLive).2
  by_cases long :
      (heap.cache thread sc).maxsize < (heap.cache thread sc).size
  · obtain ⟨flushed, flush, kept⟩ :=
      inv.flushLoop_kept valid (heap.cache thread sc).size
    refine finish flushed (inv.flushCache valid flush).1 kept ?_
    unfold BaseMeta.doFree
    rw [if_neg (geometry.block_ne_zero isBlock),
      if_neg (not_not.mpr inRange)]
    simp only [used, notWhole, if_false, long, if_true]
    unfold BaseMeta.flushCache
    rw [flush]
    rfl
  · refine finish heap (.refl inv) (Kept.refl region heap) ?_
    unfold BaseMeta.doFree
    rw [if_neg (geometry.block_ne_zero isBlock),
      if_neg (not_not.mpr inRange)]
    simp only [used, notWhole, if_false, long]
    rfl

/-- A free of a live block returns unless it finds the queue full. -/
theorem Inv.doFree_released
    (inv : Inv region heap)
    {ptr : Nat}
    (thread : Nat)
    (isLive : ptr ∈ heap.live)
    (room :
      (heap.desc (region.owner ptr)).heap = some nlist →
      heap.queue.length ≠ queueSize - 1) :
    ∃ heap',
      BaseMeta.doFree region thread ptr heap = .ok heap' ∧
        Released region heap ptr heap' := by
  by_cases whole : (heap.desc (region.owner ptr)).heap = some nlist
  · exact inv.doFree_whole_released thread isLive whole (room whole)
  · exact inv.doFree_small_released thread isLive whole

/-- A free that returned left the other live blocks alone. -/
theorem Inv.doFree_frame
    (inv : Inv region heap)
    {thread ptr : Nat}
    (isLive : ptr ∈ heap.live)
    (accepted : BaseMeta.doFree region thread ptr heap = .ok heap') :
    Released region heap ptr heap' := by
  have room :
      (heap.desc (region.owner ptr)).heap = some nlist →
      heap.queue.length ≠ queueSize - 1 := by
    intro whole full
    rw [inv.doFree_whole thread isLive whole] at accepted
    unfold BaseMeta.enqueueBlank at accepted
    rw [if_pos full] at accepted
    cases accepted
  obtain ⟨freed, returned, released⟩ :=
    inv.doFree_released thread isLive room
  rw [accepted] at returned
  obtain rfl := Except.ok.inj returned
  exact released

end Heap

end Bxalloc
