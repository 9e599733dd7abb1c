import Bxalloc.HeapFlush

namespace Bxalloc

/-!
# Refilling a free list

`malloc_from_partial` retires the empty superblocks on top of the partial list
and takes blocks from the first one that is not empty; `malloc_from_newsb` puts
a spare superblock into use.  Both keep the allocator invariant, and together
they always leave a block in the list.
-/

open Lib

namespace Heap

variable {region : SbRegion} {heap heap' : Heap}

/-- The walk of both refills, on a chain without null. -/
theorem takeLoop_spec
    (memory : Memory)
    (more prev cur num : Nat)
    (nonzero : ∀ index, index ≤ more → (readLink memory)^[index] cur ≠ 0) :
    BaseMeta.takeLoop memory (more + 1) prev cur num =
      ((readLink memory)^[more] cur, (readLink memory)^[more + 1] cur,
        num + (more + 1)) := by
  induction more generalizing prev cur num with
  | zero =>
      have here : cur ≠ 0 := nonzero 0 (Nat.le_refl 0)
      simp [BaseMeta.takeLoop, here]
  | succ more inductionHypothesis =>
      have here : cur ≠ 0 := nonzero 0 (Nat.zero_le _)
      unfold BaseMeta.takeLoop
      rw [if_neg here,
        inductionHypothesis cur (readLink memory cur) (num + 1)
          (fun index early => nonzero (index + 1) (by omega))]
      simp only [Function.iterate_succ_apply]
      congr 2
      omega

/-- The top of a partial list is an empty superblock. -/
def TopEmpty (heap : Heap) (sc : Nat) : Prop :=
  ∃ k rest,
    heap.partialList sc = k :: rest ∧
      (heap.desc k).anchor.state = .sbEmpty

/-- What refilling one empty free list does to the heap. -/
structure Refilled
    (region : SbRegion)
    (heap : Heap)
    (thread sc : Nat)
    (heap' : Heap) : Prop where
  inv : Inv region heap'
  strays :
    ∀ j,
      Stray region heap' j →
      Stray region heap j ∨ heap.TopEmpty sc
  kept :
    ∀ j,
      (heap'.desc j).heap ≠ none →
      (heap'.desc j).heap = (heap.desc j).heap
  sameLive : heap'.live = heap.live

/-- Blocks of superblocks in use are not null. -/
theorem Geometry.block_ne_zero
    (geometry : Geometry region heap)
    {block : Nat}
    (isBlock : heap.IsBlock region block) :
    block ≠ 0 := by
  have window := geometry.block_window isBlock
  have positive := region.positive
  unfold SbRegion.sbAddr at window
  omega

/-- A listed superblock and its top position on the partial list. -/
theorem Control.top
    (control : Control region heap)
    {sc k : Nat}
    {rest : List Nat}
    (shape : heap.partialList sc = k :: rest) :
    Listed (heap.desc k) sc ∧
      k ∉ rest ∧
      rest.Nodup ∧
      (∀ j, j ≠ k → (j ∈ rest ↔ j ∈ heap.partialList sc)) ∧
      sc < nlist := by
  have listed : Listed (heap.desc k) sc := by
    apply (control.partialMem sc k).mp
    rw [shape]
    exact List.mem_cons_self
  have distinct := control.partialNodup sc
  rw [shape, List.nodup_cons] at distinct
  refine ⟨listed, distinct.1, distinct.2, ?_, ?_⟩
  · intro j other
    rw [shape, List.mem_cons]
    simp [other]
  · have classLe := (control.geometry.descOk k sc listed.1).classLe
    by_contra outside
    have same : sc = nlist := by omega
    subst same
    have full := control.wholeFull k listed.1
    rcases listed.2 with state | state <;> (rw [full] at state; cases state)

/-- Popping and retiring the empty superblock on top of a partial list. -/
theorem Inv.retireTop
    (inv : Inv region heap)
    {sc k : Nat}
    {rest : List Nat}
    (shape : heap.partialList sc = k :: rest)
    (isEmpty : (heap.desc k).anchor.state = .sbEmpty) :
    Inv region ((heap.setPartial sc rest).setDesc k .blank) := by
  obtain ⟨listed, absent, distinct, others, -⟩ := inv.control.top shape
  refine ⟨?_, ?_⟩
  · refine inv.control.replace ?_ ?_ ?_ ?_ ?_ distinct others ?_
    · intro sc' used
      exact only_heap listed.1 used
    · intro sc' used
      cases used
    · intro used
      cases used
    · intro used
      cases used
    · intro inUse
      exact absurd rfl inUse
    · refine ⟨fun member => absurd member absent, ?_⟩
      rintro ⟨used, -⟩
      cases used
  · have complete :
        freeCount (heap.desc k) = (heap.desc k).maxcount := by
      simp [freeCount, listed.1, isEmpty]
    exact (Placement.retire inv.control.geometry inv.placement listed.1
      complete).congr rfl rfl rfl rfl

/-- The doubling rule keeps the bound of a free list positive. -/
theorem growMaxSize_pos
    {cache : FreeList}
    {maxFlistNum maxcount : Nat}
    (listPos : 1 ≤ maxFlistNum)
    (countPos : 1 ≤ maxcount) :
    1 ≤ (cache.growMaxSize maxFlistNum maxcount).maxsize := by
  unfold FreeList.growMaxSize
  split
  · change 1 ≤ maxFlistNum * 2
    omega
  · exact countPos

/-- The doubling rule leaves the blocks of a free list alone. -/
theorem growMaxSize_list
    (cache : FreeList)
    (maxFlistNum maxcount : Nat) :
    (cache.growMaxSize maxFlistNum maxcount).list = cache.list ∧
      (cache.growMaxSize maxFlistNum maxcount).size = cache.size := by
  unfold FreeList.growMaxSize
  split
  · exact ⟨rfl, rfl⟩
  · exact ⟨rfl, rfl⟩

/-- A partial anchor has between one and all but one blocks. -/
theorem DescOk.partial_bounds
    {currAddr k sc : Nat}
    {desc : Descriptor}
    (ok : DescOk region currAddr k desc sc)
    (used : desc.heap = some sc)
    (isPartial : desc.anchor.state = .sbPartial) :
    1 ≤ desc.anchor.count ∧
      desc.anchor.count < desc.maxcount ∧
      freeCount desc = desc.anchor.count := by
  have anchorOk := ok.anchor
  rw [AnchorOk, isPartial] at anchorOk
  refine ⟨anchorOk.1, anchorOk.2.1, ?_⟩
  simp [freeCount, used, isPartial]

/-- Taking all free blocks of the superblock on top of a partial list. -/
theorem Inv.takeAllTop
    (inv : Inv region heap)
    {thread sc k : Nat}
    {rest : List Nat}
    (shape : heap.partialList sc = k :: rest)
    (isPartial : (heap.desc k).anchor.state = .sbPartial)
    (emptyList : (heap.cache thread sc).size = 0) :
    Inv region
      (((heap.setPartial sc rest).setAnchor k
        { avail := (heap.desc k).maxcount
          count := 0
          state := .sbFull }).setCache thread sc
            ((heap.cache thread sc).pushList
              ((heap.desc k).superblock +
                (heap.desc k).anchor.avail * (heap.desc k).blockSize)
              (heap.desc k).anchor.count)) := by
  obtain ⟨listed, absent, distinct, others, valid⟩ := inv.control.top shape
  have ok := inv.control.geometry.descOk k sc listed.1
  obtain ⟨positive, -, free⟩ := ok.partial_bounds listed.1 isPartial
  let full : Anchor :=
    { avail := (heap.desc k).maxcount, count := 0, state := .sbFull }
  have fullOk : AnchorOk full (heap.desc k).maxcount :=
    ⟨rfl, Nat.le_refl _⟩
  have onlyClass : ∀ sc', (heap.desc k).heap = some sc' → sc' = sc :=
    fun sc' used => only_heap listed.1 used
  have notQueued : k ∉ heap.queue := inv.control.not_queued listed.1
  have control :
      Control region ((heap.setPartial sc rest).setAnchor k full) := by
    refine inv.control.replace onlyClass onlyClass (fun _ => ?_)
      (fun _ => rfl) (fun _ => notQueued) distinct others ?_
    · exact ok.setAnchor fullOk
    · refine ⟨fun member => absurd member absent, ?_⟩
      rintro ⟨-, state | state⟩ <;> cases state
  refine ⟨?_, ?_⟩
  · refine control.congr rfl rfl rfl rfl ?_
    exact maxsizePos_setCache control
      (fun classValid => inv.control.maxsizePos thread sc classValid)
  · have fullFree : freeCount { heap.desc k with anchor := full } = 0 := by
      simp [freeCount, full]
    obtain ⟨more, countShape⟩ :=
      Nat.exists_eq_add_of_le' positive
    have taken :=
      inv.placement.takeBlocks more full
        ((heap.cache thread sc).pushList
          ((heap.desc k).superblock +
            (heap.desc k).anchor.avail * (heap.desc k).blockSize)
          (heap.desc k).anchor.count)
        heap.memory listed.1 emptyList rfl countShape
        (fun _ _ _ => rfl) (by omega) (by omega)
    exact taken.congr rfl rfl rfl rfl

/-- The index of a block on a chain. -/
theorem Placement.chain_index
    (geometry : Geometry region heap)
    (placement : Placement region heap)
    {k sc index : Nat}
    (valid : sc < nlist)
    (used : (heap.desc k).heap = some sc)
    (early : index < freeCount (heap.desc k)) :
    let start :=
      (heap.desc k).superblock +
        (heap.desc k).anchor.avail * (heap.desc k).blockSize
    let node := (readLink heap.memory)^[index] start
    heap.IsBlock region node ∧
      computeIdx (heap.desc k).superblock node sc < (heap.desc k).maxcount ∧
      (heap.desc k).superblock +
          computeIdx (heap.desc k).superblock node sc *
            (heap.desc k).blockSize = node := by
  intro start node
  have ok := geometry.descOk k sc used
  have occurs : node ∈ heap.content (.chain k) :=
    LinkWalk.iterate_mem early
  have isBlock := placement.isBlock (.chain k) occurs
  have owned : region.owner node = k :=
    placement.fits (.chain k) node occurs
  obtain ⟨-, position, -, before, shape⟩ := geometry.isBlock_cases isBlock
  rw [owned] at before shape
  have blockSize : (heap.desc k).blockSize = ClassSize.indexToSize sc := by
    rw [ok.blockSize, blockBytes_small (by omega)]
  have inside := ok.block_inside before
  have large := ok.sizes.1
  have low := geometry.below used
  have idxShape :
      computeIdx (heap.desc k).superblock node sc = position := by
    rw [shape, ok.superblock, blockSize]
    rw [blockSize] at inside large
    exact computeIdx_block valid (by omega) (by omega)
  rw [idxShape]
  refine ⟨isBlock, before, ?_⟩
  rw [ok.superblock]
  exact shape.symm

/-- Taking some of the free blocks of the superblock on top of a partial list. -/
theorem Inv.takeSomeTop
    (inv : Inv region heap)
    {thread sc k more : Nat}
    {rest : List Nat}
    {cache : FreeList}
    (shape : heap.partialList sc = k :: rest)
    (isPartial : (heap.desc k).anchor.state = .sbPartial)
    (emptyList : (heap.cache thread sc).size = 0)
    (fewer : more + 1 < (heap.desc k).anchor.count)
    (listShape :
      cache.list =
        (heap.desc k).superblock +
          (heap.desc k).anchor.avail * (heap.desc k).blockSize)
    (sizeShape : cache.size = more + 1)
    (maxsizePos : 1 ≤ cache.maxsize) :
    Inv region
      { (heap.setAnchor k
          { avail :=
              computeIdx (heap.desc k).superblock
                ((readLink heap.memory)^[more + 1] cache.list) sc
            count := (heap.desc k).anchor.count - (more + 1)
            state := .sbPartial }).setCache thread sc cache with
        memory :=
          writeLink heap.memory ((readLink heap.memory)^[more] cache.list)
            0 } := by
  obtain ⟨listed, -, -, -, valid⟩ := inv.control.top shape
  have geometry := inv.control.geometry
  have ok := geometry.descOk k sc listed.1
  obtain ⟨positive, upper, free⟩ := ok.partial_bounds listed.1 isPartial
  obtain ⟨tailBlock, -, -⟩ :=
    inv.placement.chain_index geometry valid listed.1 (by omega : more < _)
  obtain ⟨-, headEarly, headShape⟩ :=
    inv.placement.chain_index geometry valid listed.1 (by omega : more + 1 < _)
  rw [← listShape] at tailBlock headEarly headShape
  let idx :=
    computeIdx (heap.desc k).superblock
      ((readLink heap.memory)^[more + 1] cache.list) sc
  let anchor : Anchor :=
    { avail := idx
      count := (heap.desc k).anchor.count - (more + 1)
      state := .sbPartial }
  have anchorOk : AnchorOk anchor (heap.desc k).maxcount := by
    refine ⟨?_, ?_, headEarly⟩
    · change 1 ≤ (heap.desc k).anchor.count - (more + 1)
      omega
    · change (heap.desc k).anchor.count - (more + 1) < (heap.desc k).maxcount
      omega
  have anchorFree :
      freeCount { heap.desc k with anchor := anchor } =
        (heap.desc k).anchor.count - (more + 1) := by
    simp [freeCount, listed.1, anchor]
  have control : Control region (heap.setAnchor k anchor) := by
    refine inv.control.replaceDesc
      (fun sc' used => only_heap listed.1 used)
      (fun sc' used => only_heap listed.1 used) (fun _ => ?_) ?_
      (fun _ => inv.control.not_queued listed.1) ?_
    · exact ok.setAnchor anchorOk
    · intro whole
      have same := only_heap listed.1 whole
      omega
    · exact ⟨fun _ => ⟨listed.1, Or.inl rfl⟩, fun _ => listed⟩
  refine ⟨?_, ?_⟩
  · refine control.congr rfl rfl rfl rfl ?_
    exact maxsizePos_setCache control (fun _ => maxsizePos)
  · refine inv.placement.takeBlocks more anchor cache _ listed.1 emptyList
      listShape sizeShape ?_ (fun _ => headShape) ?_
    · intro block isBlock notTail
      exact geometry.readLink_write_other 0 tailBlock isBlock notTail
    · rw [anchorFree, free]
      omega

/-- Popping the top of a partial list and pushing it back changes nothing. -/
theorem setPartial_restore
    {sc k : Nat}
    {rest : List Nat}
    (shape : heap.partialList sc = k :: rest) :
    Function.update (Function.update heap.partialList sc rest) sc
        (k :: rest) =
      heap.partialList := by
  rw [Function.update_idem, ← shape]
  exact Function.update_eq_self sc heap.partialList

/-- New anchors and lists leave the strays alone. -/
theorem Stray.of_setAnchor
    {k j : Nat}
    {anchor : Anchor}
    (stray : Stray region heap' j)
    (sameDesc : heap'.desc = (heap.setAnchor k anchor).desc)
    (sameQueue : heap'.queue = heap.queue)
    (sameCurr : heap'.currAddr = heap.currAddr) :
    Stray region heap j := by
  obtain ⟨⟨blank, indexPos, inside⟩, absent⟩ := stray
  rw [sameDesc] at blank
  rw [sameCurr] at inside
  rw [sameQueue] at absent
  exact ⟨⟨(setAnchor_same heap k anchor j).1.symm.trans blank, indexPos,
    inside⟩, absent⟩

/-- An empty superblock on top of the partial list is retired and skipped. -/
theorem Control.mallocFromPartialLoop_empty
    (control : Control region heap)
    {thread sc k : Nat}
    {rest : List Nat}
    (shape : heap.partialList sc = k :: rest)
    (isEmpty : (heap.desc k).anchor.state = .sbEmpty) :
    BaseMeta.mallocFromPartialLoop region thread sc (k :: rest) heap =
      BaseMeta.mallocFromPartialLoop region thread sc rest
        ((heap.setPartial sc rest).setDesc k .blank) := by
  obtain ⟨listed, -, -, -, -⟩ := control.top shape
  have sbOwner : region.owner (heap.desc k).superblock = k := by
    rw [(control.geometry.descOk k sc listed.1).superblock]
    exact owner_sbAddr (control.geometry.below listed.1)
  simp only [BaseMeta.mallocFromPartialLoop, setPartial, isEmpty,
    if_true, BaseMeta.smallSbRetire, sbOwner, ite_self]

/-- A partial superblock with few free blocks gives all of them. -/
theorem mallocFromPartialLoop_all
    {thread sc k : Nat}
    {rest : List Nat}
    (isPartial : (heap.desc k).anchor.state = .sbPartial)
    (all : (heap.desc k).anchor.count ≤ (heap.cache thread sc).maxsize) :
    BaseMeta.mallocFromPartialLoop region thread sc (k :: rest) heap =
      .ok ((heap.desc k).anchor.count,
        ((heap.setPartial sc rest).setAnchor k
          { avail := (heap.desc k).maxcount
            count := 0
            state := .sbFull }).setCache thread sc
              ((heap.cache thread sc).pushList
                ((heap.desc k).superblock +
                  (heap.desc k).anchor.avail * (heap.desc k).blockSize)
                (heap.desc k).anchor.count)) := by
  simp only [BaseMeta.mallocFromPartialLoop, setPartial, all, isPartial,
    if_true, if_false, reduceCtorEq, ne_eq, not_true_eq_false]

/--
A partial superblock with more free blocks than the list may hold gives the
first `maxsize` of them and stays on the partial list.
-/
theorem Inv.mallocFromPartialLoop_some
    (inv : Inv region heap)
    {thread sc k more : Nat}
    {rest : List Nat}
    (shape : heap.partialList sc = k :: rest)
    (isPartial : (heap.desc k).anchor.state = .sbPartial)
    (maxShape : (heap.cache thread sc).maxsize = more + 1)
    (fewer : more + 1 < (heap.desc k).anchor.count) :
    let block :=
      (heap.desc k).superblock +
        (heap.desc k).anchor.avail * (heap.desc k).blockSize
    BaseMeta.mallocFromPartialLoop region thread sc (k :: rest) heap =
      .ok (more + 1,
        { (heap.setAnchor k
            { avail :=
                computeIdx (heap.desc k).superblock
                  ((readLink heap.memory)^[more + 1] block) sc
              count := (heap.desc k).anchor.count - (more + 1)
              state := .sbPartial }).setCache thread sc
                (((heap.cache thread sc).pushList block
                  (more + 1)).growMaxSize (more + 1)
                    (heap.desc k).maxcount) with
          memory :=
            writeLink heap.memory ((readLink heap.memory)^[more] block)
              0 }) := by
  intro block
  obtain ⟨listed, -, -, -, valid⟩ := inv.control.top shape
  have geometry := inv.control.geometry
  obtain ⟨-, -, free⟩ :=
    (geometry.descOk k sc listed.1).partial_bounds listed.1 isPartial
  have many :
      ¬ (heap.desc k).anchor.count ≤ (heap.cache thread sc).maxsize := by
    omega
  have walk :
      BaseMeta.takeLoop heap.memory (more + 1) block block 0 =
        ((readLink heap.memory)^[more] block,
          (readLink heap.memory)^[more + 1] block, more + 1) := by
    have spec :=
      takeLoop_spec heap.memory more block block 0 (by
        intro index early
        apply geometry.block_ne_zero
        exact (inv.placement.chain_index geometry valid listed.1
          (by omega : index < _)).1)
    rwa [Nat.zero_add] at spec
  simp only [BaseMeta.mallocFromPartialLoop, setPartial, many, isPartial,
    if_false, reduceCtorEq]
  rw [maxShape]
  simp only [setAnchor, setDesc]
  rw [walk]
  simp only [heapPushPartial, Function.update_self, listed.1, setPartial,
    setPartial_restore shape]
  rfl

/--
`malloc_from_partial` never fails: it retires the empty superblocks on top of
the partial list and takes blocks from the next one, if there is one.
-/
theorem Inv.mallocFromPartialLoop
    (inv : Inv region heap)
    {thread sc : Nat}
    {stack : List Nat}
    (valid : sc < nlist)
    (shape : heap.partialList sc = stack)
    (emptyList : (heap.cache thread sc).size = 0) :
    ∃ blockNum heap',
      BaseMeta.mallocFromPartialLoop region thread sc stack heap =
          .ok (blockNum, heap') ∧
        Refilled region heap thread sc heap' ∧
        (heap'.cache thread sc).size = blockNum := by
  induction stack generalizing heap with
  | nil =>
      exact ⟨0, heap, rfl,
        ⟨inv, fun _ stray => Or.inl stray, fun _ _ => rfl, rfl⟩, emptyList⟩
  | cons k rest inductionHypothesis =>
      obtain ⟨listed, -, -, -, -⟩ := inv.control.top shape
      have ok := inv.control.geometry.descOk k sc listed.1
      have maxsizePos := inv.control.maxsizePos thread sc valid
      rcases listed.2 with isPartial | isEmpty
      · by_cases all :
            (heap.desc k).anchor.count ≤ (heap.cache thread sc).maxsize
        · refine ⟨(heap.desc k).anchor.count, _,
            mallocFromPartialLoop_all isPartial all,
            ⟨inv.takeAllTop shape isPartial emptyList, ?_,
              fun j _ => (setAnchor_same heap k _ j).1, rfl⟩, ?_⟩
          · intro j stray
            exact Or.inl (stray.of_setAnchor rfl rfl rfl)
          · rw [setCache_self]
            rfl
        · obtain ⟨more, maxShape⟩ := Nat.exists_eq_add_of_le' maxsizePos
          let block :=
            (heap.desc k).superblock +
              (heap.desc k).anchor.avail * (heap.desc k).blockSize
          let cache :=
            ((heap.cache thread sc).pushList block (more + 1)).growMaxSize
              (more + 1) (heap.desc k).maxcount
          have cacheShape :
              cache.list = block ∧ cache.size = more + 1 :=
            growMaxSize_list _ _ _
          have taken :=
            inv.takeSomeTop shape isPartial emptyList
              (by omega : more + 1 < _) cacheShape.1 cacheShape.2
              (growMaxSize_pos (by omega) ok.sizes.2.2.1)
          rw [cacheShape.1] at taken
          refine ⟨more + 1, _,
            inv.mallocFromPartialLoop_some shape isPartial maxShape (by omega),
            ⟨taken, ?_, fun j _ => (setAnchor_same heap k _ j).1, rfl⟩, ?_⟩
          · intro j stray
            exact Or.inl (stray.of_setAnchor rfl rfl rfl)
          · change
              ((heap.setCache thread sc cache).cache thread sc).size =
                more + 1
            rw [setCache_self]
            exact cacheShape.2
      · obtain ⟨blockNum, heap', result, refilled, size⟩ :=
          inductionHypothesis (inv.retireTop shape isEmpty)
            (by simp [setPartial, setDesc]) emptyList
        refine ⟨blockNum, heap', ?_, ⟨refilled.inv, ?_, ?_,
          refilled.sameLive⟩, size⟩
        · rw [inv.control.mallocFromPartialLoop_empty shape isEmpty, result]
        · intro j stray
          exact Or.inr ⟨k, rest, shape, isEmpty⟩
        · intro j inUse
          have same := refilled.kept j inUse
          rw [same] at inUse ⊢
          simp only [setPartial, setDesc, Function.update_apply] at inUse ⊢
          by_cases isTop : j = k
          · rw [if_pos isTop] at inUse
            exact absurd rfl inUse
          · rw [if_neg isTop]

section NewSuperblock

variable {superblock blockSize : Nat}

/-- Linking the blocks of a superblock leaves links elsewhere alone. -/
theorem linkBlocks_other
    (memory : Memory)
    {count block : Nat}
    (apart :
      ∀ index,
        index < count →
        block + 8 ≤ superblock + index * blockSize ∨
          superblock + index * blockSize + 8 ≤ block) :
    readLink (BaseMeta.linkBlocks superblock blockSize count memory) block =
      readLink memory block := by
  induction count with
  | zero => rfl
  | succ count inductionHypothesis =>
      unfold BaseMeta.linkBlocks
      rw [readLink_writeLink_apart _ _ (apart count (Nat.lt_succ_self _))]
      exact inductionHypothesis fun index early => apart index (by omega)

/-- Linking the blocks of a superblock links each block to the next. -/
theorem linkBlocks_link
    (memory : Memory)
    {count index : Nat}
    (large : 8 ≤ blockSize)
    (low : superblock + count * blockSize < 2 ^ 48)
    (early : index < count) :
    readLink (BaseMeta.linkBlocks superblock blockSize count memory)
        (superblock + index * blockSize) =
      superblock + (index + 1) * blockSize := by
  induction count with
  | zero => omega
  | succ count inductionHypothesis =>
      unfold BaseMeta.linkBlocks
      have product : (count + 1) * blockSize = count * blockSize + blockSize :=
        Nat.succ_mul _ _
      by_cases isLast : index = count
      · subst isLast
        exact readLink_writeLink_same _ (by omega) low
      · have before : (index + 1) * blockSize ≤ count * blockSize :=
          Nat.mul_le_mul_right _ (by omega)
        rw [Nat.succ_mul] at before
        rw [readLink_writeLink_apart]
        · exact inductionHypothesis (by omega) (by omega)
        · omega

/-- Following the links from the superblock visits its blocks in order. -/
theorem linkBlocks_iterate
    (memory : Memory)
    {count index : Nat}
    (large : 8 ≤ blockSize)
    (low : superblock + count * blockSize < 2 ^ 48)
    (early : index ≤ count) :
    (readLink
        (BaseMeta.linkBlocks superblock blockSize count memory))^[index]
          superblock =
      superblock + index * blockSize := by
  induction index with
  | zero => simp
  | succ index inductionHypothesis =>
      rw [Function.iterate_succ_apply', inductionHypothesis (by omega),
        linkBlocks_link memory large low early]

/-- The refill walk over the first blocks of a linked superblock. -/
theorem takeLoop_linkBlocks
    (memory : Memory)
    {count more : Nat}
    (large : 8 ≤ blockSize)
    (low : superblock + count * blockSize < 2 ^ 48)
    (positive : 0 < superblock)
    (fewer : more + 1 ≤ count) :
    BaseMeta.takeLoop
        (BaseMeta.linkBlocks superblock blockSize count memory)
        (more + 1) superblock superblock 0 =
      (superblock + more * blockSize, superblock + (more + 1) * blockSize,
        more + 1) := by
  have nodes :
      ∀ index,
        index ≤ more + 1 →
        (readLink
            (BaseMeta.linkBlocks superblock blockSize count memory))^[index]
              superblock =
          superblock + index * blockSize :=
    fun index early =>
      linkBlocks_iterate memory large low (Nat.le_trans early fewer)
  rw [takeLoop_spec, nodes more (by omega),
    nodes (more + 1) (Nat.le_refl _), Nat.zero_add]
  intro index early
  rw [nodes index (by omega)]
  omega

/-- The descriptor `malloc_from_newsb` writes, with the given anchor. -/
def smallDesc (superblock sc : Nat) (anchor : Anchor) : Descriptor where
  anchor := anchor
  superblock := superblock
  heap := some sc
  blockSize := ClassSize.indexToSize sc
  maxcount := sbSize / ClassSize.indexToSize sc

/-- The descriptor of a new small superblock is proper. -/
theorem smallDesc_ok
    {k sc : Nat}
    {anchor : Anchor}
    (valid : sc < nlist)
    (spare : Spare region heap k)
    (anchorOk : AnchorOk anchor (sbSize / ClassSize.indexToSize sc)) :
    DescOk region heap.currAddr k
      (smallDesc (region.sbAddr k) sc anchor) sc := by
  have bytes : blockBytes sc = ClassSize.indexToSize sc :=
    blockBytes_small valid
  refine ⟨by omega, spare.indexPos, spare.inside, rfl, bytes.symm, ?_,
    anchorOk⟩
  rw [bytes]
  rfl

/-- The anchor of a superblock whose blocks are all on its chain. -/
theorem smallSb_empty
    {sc : Nat}
    (valid : sc < nlist) :
    AnchorOk
      { avail := 0
        count := sbSize / ClassSize.indexToSize sc - 1
        state := .sbEmpty }
      (sbSize / ClassSize.indexToSize sc) :=
  ⟨rfl, classCount_pos valid⟩

/-- A spare superblock taken into use with all its blocks on its chain. -/
def linkSuperblock (region : SbRegion) (heap : Heap) (k sc : Nat) : Heap :=
  let size := ClassSize.indexToSize sc
  let maxcount := sbSize / size
  { heap.setDesc k
      (smallDesc (region.sbAddr k) sc
        { avail := 0, count := maxcount - 1, state := .sbEmpty }) with
    memory :=
      BaseMeta.linkBlocks (region.sbAddr k) size (maxcount - 1) heap.memory }

theorem linkSuperblock_desc
    (region : SbRegion)
    (heap : Heap)
    (k sc : Nat) :
    (linkSuperblock region heap k sc).desc k =
      smallDesc (region.sbAddr k) sc
        { avail := 0
          count := sbSize / ClassSize.indexToSize sc - 1
          state := .sbEmpty } := by
  simp [linkSuperblock, setDesc]

/-- Its blocks are linked in order and all of them are free. -/
theorem Placement.linkSuperblock_placement
    (geometry : Geometry region heap)
    (placement : Placement region heap)
    {k sc : Nat}
    (valid : sc < nlist)
    (spare : Spare region heap k) :
    Geometry region (linkSuperblock region heap k sc) ∧
      Placement region (linkSuperblock region heap k sc) ∧
      ∀ index,
        index ≤ sbSize / ClassSize.indexToSize sc - 1 →
        (readLink (linkSuperblock region heap k sc).memory)^[index]
            (region.sbAddr k) =
          region.sbAddr k + index * ClassSize.indexToSize sc := by
  have ok := smallDesc_ok valid spare (smallSb_empty valid)
  obtain ⟨large, -, -, -, whole⟩ := ok.sizes
  change 8 ≤ ClassSize.indexToSize sc at large
  change sbSize / ClassSize.indexToSize sc * ClassSize.indexToSize sc ≤ _
    at whole
  have low : region.sbAddr k + sbSize ≤ 2 ^ 47 :=
    geometry.spare_below spare
  have linkedLow :
      region.sbAddr k +
          (sbSize / ClassSize.indexToSize sc - 1) *
            ClassSize.indexToSize sc < 2 ^ 48 := by
    have fewer :
        (sbSize / ClassSize.indexToSize sc - 1) * ClassSize.indexToSize sc ≤
          sbSize / ClassSize.indexToSize sc * ClassSize.indexToSize sc :=
      Nat.mul_le_mul_right _ (Nat.sub_le _ _)
    omega
  refine ⟨?_, ?_, fun index early =>
    linkBlocks_iterate heap.memory large linkedLow early⟩
  · refine (geometry.setDesc ?_).congr rfl rfl
    intro sc' used
    obtain rfl := Option.some.inj used
    exact ok
  · refine Placement.install geometry placement spare.blank rfl ok rfl rfl
      ?_ ?_
    · intro index early
      exact linkBlocks_link heap.memory large linkedLow
        (Nat.lt_sub_of_add_lt early)
    · intro block isBlock
      apply linkBlocks_other
      intro index early
      have window := geometry.block_window isBlock
      have distinct : region.owner block ≠ k := by
        intro same
        obtain ⟨sc', -, used, -, -⟩ := geometry.isBlock_cases isBlock
        rw [same, spare.blank] at used
        cases used
      have apart := sbAddr_apart region distinct
      have inside := ok.block_inside
        (Nat.lt_of_lt_of_le early (Nat.sub_le _ _))
      change
        index * ClassSize.indexToSize sc + ClassSize.indexToSize sc ≤ sbSize
        at inside
      omega

/-- Of the new links `malloc_from_newsb` only changes the one of block `more`. -/
theorem Placement.newsb_sameLinks
    (geometry : Geometry region heap)
    (placement : Placement region heap)
    {k sc more : Nat}
    {memory : Memory}
    (valid : sc < nlist)
    (spare : Spare region heap k)
    (early : more < sbSize / ClassSize.indexToSize sc)
    (memoryShape :
      let linked :=
        BaseMeta.linkBlocks (region.sbAddr k) (ClassSize.indexToSize sc)
          (sbSize / ClassSize.indexToSize sc - 1) heap.memory
      memory = linked ∨
        memory =
          writeLink linked
            (region.sbAddr k + more * ClassSize.indexToSize sc) 0)
    {block : Nat}
    (isBlock : (linkSuperblock region heap k sc).IsBlock region block)
    (notTail :
      block ≠
        (readLink (linkSuperblock region heap k sc).memory)^[more]
          (region.sbAddr k)) :
    readLink memory block =
      readLink (linkSuperblock region heap k sc).memory block := by
  obtain ⟨linkedGeometry, -, nodes⟩ :=
    placement.linkSuperblock_placement geometry valid spare
  have here := linkSuperblock_desc region heap k sc
  have tailShape := nodes more (by omega)
  rcases memoryShape with same | same
  · rw [same]
    rfl
  · rw [same, ← tailShape]
    refine linkedGeometry.readLink_write_other 0 ?_ isBlock notTail
    rw [tailShape]
    refine ⟨k, by rw [here]; simp [smallDesc], ?_⟩
    refine mem_blocks.mpr ⟨more, ?_, ?_⟩
    · rw [here]
      exact early
    · rw [here]
      rfl

/--
A new superblock whose first `more + 1` blocks go to a thread's empty list: as
if all its blocks had first been on its free chain.
-/
theorem Placement.newSuperblock
    (geometry : Geometry region heap)
    (placement : Placement region heap)
    {thread sc k more : Nat}
    {anchor : Anchor}
    {cache : FreeList}
    {memory : Memory}
    (valid : sc < nlist)
    (spare : Spare region heap k)
    (emptyList : (heap.cache thread sc).size = 0)
    (listShape : cache.list = region.sbAddr k)
    (sizeShape : cache.size = more + 1)
    (newStart :
      0 < freeCount (smallDesc (region.sbAddr k) sc anchor) →
      anchor.avail = more + 1)
    (newCount :
      more + 1 + freeCount (smallDesc (region.sbAddr k) sc anchor) =
        sbSize / ClassSize.indexToSize sc)
    (memoryShape :
      let linked :=
        BaseMeta.linkBlocks (region.sbAddr k) (ClassSize.indexToSize sc)
          (sbSize / ClassSize.indexToSize sc - 1) heap.memory
      memory = linked ∨
        memory =
          writeLink linked
            (region.sbAddr k + more * ClassSize.indexToSize sc) 0) :
    Placement region
      { (heap.setDesc k (smallDesc (region.sbAddr k) sc anchor)).setCache
          thread sc cache with
        memory := memory } := by
  obtain ⟨-, linkedPlacement, nodes⟩ :=
    placement.linkSuperblock_placement geometry valid spare
  have here := linkSuperblock_desc region heap k sc
  have moreEarly : more < sbSize / ClassSize.indexToSize sc := by
    omega
  have startShape :
      cache.list =
        ((linkSuperblock region heap k sc).desc k).superblock +
          ((linkSuperblock region heap k sc).desc k).anchor.avail *
            ((linkSuperblock region heap k sc).desc k).blockSize := by
    rw [here, listShape]
    simp [smallDesc]
  have placed :
      Placement region
        { ((linkSuperblock region heap k sc).setAnchor k anchor).setCache
            thread sc cache with
          memory := memory } := by
    refine linkedPlacement.takeBlocks more anchor cache memory
      (by rw [here]; rfl) emptyList startShape sizeShape ?_ ?_ ?_
    · intro block isBlock notTail
      rw [listShape] at notTail
      exact placement.newsb_sameLinks geometry valid spare moreEarly
        memoryShape isBlock notTail
    · intro someLeft
      rw [here] at someLeft ⊢
      have left : 0 < freeCount (smallDesc (region.sbAddr k) sc anchor) :=
        someLeft
      rw [newStart left, listShape]
      exact (nodes (more + 1) (by omega)).symm
    · rw [here]
      exact newCount
  refine placed.congr rfl ?_ rfl rfl
  funext j
  simp only [linkSuperblock, setDesc, setAnchor, setCache,
    Function.update_apply]
  by_cases same : j = k
  · simp [same, smallDesc]
  · simp [same]

end NewSuperblock

/-- Putting a delivered superblock into use keeps the metadata invariant. -/
theorem Control.useSpare
    (control : Control region heap)
    {k sc : Nat}
    {desc : Descriptor}
    (stray : Stray region heap k)
    (used : desc.heap = some sc)
    (ok : DescOk region heap.currAddr k desc sc)
    (whole : sc = nlist → desc.anchor.state = .sbFull)
    {stack : List Nat}
    (stackShape :
      (stack = heap.partialList sc ∧ desc.anchor.state = .sbFull) ∨
        stack = k :: heap.partialList sc ∧
          desc.anchor.state = .sbPartial) :
    Control region ((heap.setDesc k desc).setPartial sc stack) := by
  have unused : ∀ sc', (heap.desc k).heap = some sc' → sc' = sc := by
    intro sc' usedBy
    rw [stray.spare.blank] at usedBy
    cases usedBy
  have unlisted : k ∉ heap.partialList sc := by
    intro member
    have listed := (control.partialMem sc k).mp member
    rw [Listed, stray.spare.blank] at listed
    cases listed.1
  refine control.replace unused ?_ (fun _ => ok) ?_
    (fun _ => stray.notQueued) ?_ ?_ ?_
  · intro sc' usedBy
    rw [used] at usedBy
    exact (Option.some.inj usedBy).symm
  · intro usedBy
    rw [used] at usedBy
    exact whole (Option.some.inj usedBy)
  · rcases stackShape with ⟨shape, -⟩ | ⟨shape, -⟩
    · rw [shape]
      exact control.partialNodup sc
    · rw [shape]
      exact List.nodup_cons.mpr ⟨unlisted, control.partialNodup sc⟩
  · intro j distinct
    rcases stackShape with ⟨shape, -⟩ | ⟨shape, -⟩
    · rw [shape]
    · simp [shape, distinct]
  · rcases stackShape with ⟨shape, state⟩ | ⟨shape, state⟩
    · rw [shape]
      refine ⟨fun member => absurd member unlisted, ?_⟩
      rintro ⟨-, listed | listed⟩ <;> (rw [state] at listed; cases listed)
    · rw [shape]
      simp [Listed, used, state]

/-- A delivered superblock in use, its first blocks in a thread's empty list. -/
theorem Inv.useNewsb
    (inv : Inv region heap)
    {thread sc k more : Nat}
    {anchor : Anchor}
    {cache : FreeList}
    {memory : Memory}
    {stack : List Nat}
    (valid : sc < nlist)
    (stray : Stray region heap k)
    (emptyList : (heap.cache thread sc).size = 0)
    (anchorOk : AnchorOk anchor (sbSize / ClassSize.indexToSize sc))
    (listShape : cache.list = region.sbAddr k)
    (sizeShape : cache.size = more + 1)
    (maxsizePos : 1 ≤ cache.maxsize)
    (newStart :
      0 < freeCount (smallDesc (region.sbAddr k) sc anchor) →
      anchor.avail = more + 1)
    (newCount :
      more + 1 + freeCount (smallDesc (region.sbAddr k) sc anchor) =
        sbSize / ClassSize.indexToSize sc)
    (memoryShape :
      let linked :=
        BaseMeta.linkBlocks (region.sbAddr k) (ClassSize.indexToSize sc)
          (sbSize / ClassSize.indexToSize sc - 1) heap.memory
      memory = linked ∨
        memory =
          writeLink linked
            (region.sbAddr k + more * ClassSize.indexToSize sc) 0)
    (stackShape :
      (stack = heap.partialList sc ∧ anchor.state = .sbFull) ∨
        stack = k :: heap.partialList sc ∧ anchor.state = .sbPartial) :
    Inv region
      { ((heap.setDesc k (smallDesc (region.sbAddr k) sc anchor)).setPartial
          sc stack).setCache thread sc cache with
        memory := memory } := by
  have control :=
    inv.control.useSpare stray
      (rfl : (smallDesc (region.sbAddr k) sc anchor).heap = some sc)
      (smallDesc_ok valid stray.spare anchorOk) (by omega) stackShape
  refine ⟨?_, ?_⟩
  · refine control.congr rfl rfl rfl rfl ?_
    exact maxsizePos_setCache control (fun _ => maxsizePos)
  · exact (inv.placement.newSuperblock inv.control.geometry valid stray.spare
      emptyList listShape sizeShape newStart newCount memoryShape).congr rfl
        rfl rfl rfl

/--
How `malloc_from_newsb` puts a delivered superblock `k` into use with its first
`more + 1` blocks in the list of the thread.
-/
structure NewsbTaken
    (region : SbRegion)
    (heap : Heap)
    (thread sc k more : Nat)
    (anchor : Anchor)
    (cache : FreeList)
    (memory : Memory)
    (stack : List Nat) : Prop where
  few : more + 1 ≤ (heap.cache thread sc).maxsize
  cacheShape :
    cache =
      ((heap.cache thread sc).pushList (region.sbAddr k)
        (more + 1)).growMaxSize (heap.cache thread sc).maxsize
          (sbSize / ClassSize.indexToSize sc)
  anchorOk : AnchorOk anchor (sbSize / ClassSize.indexToSize sc)
  newStart :
    0 < freeCount (smallDesc (region.sbAddr k) sc anchor) →
    anchor.avail = more + 1
  newCount :
    more + 1 + freeCount (smallDesc (region.sbAddr k) sc anchor) =
      sbSize / ClassSize.indexToSize sc
  memoryShape :
    let linked :=
      BaseMeta.linkBlocks (region.sbAddr k) (ClassSize.indexToSize sc)
        (sbSize / ClassSize.indexToSize sc - 1) heap.memory
    memory = linked ∨
      memory =
        writeLink linked
          (region.sbAddr k + more * ClassSize.indexToSize sc) 0
  stackShape :
    (stack = heap.partialList sc ∧ anchor.state = .sbFull) ∨
      stack = k :: heap.partialList sc ∧ anchor.state = .sbPartial

/-- The list of a new superblock starts at its first block. -/
theorem NewsbTaken.listShape
    {thread sc k more : Nat}
    {anchor : Anchor}
    {cache : FreeList}
    {memory : Memory}
    {stack : List Nat}
    (taken :
      NewsbTaken region heap thread sc k more anchor cache memory stack) :
    cache.list = region.sbAddr k ∧ cache.size = more + 1 := by
  rw [taken.cacheShape]
  exact growMaxSize_list _ _ _

/-- The walk over the first blocks of a new superblock. -/
theorem takeLoop_newsb
    {k sc more : Nat}
    (memory : Memory)
    (valid : sc < nlist)
    (low : region.sbAddr k + sbSize ≤ 2 ^ 47)
    (fewer : more + 1 < sbSize / ClassSize.indexToSize sc) :
    let size := ClassSize.indexToSize sc
    BaseMeta.takeLoop
          (BaseMeta.linkBlocks (region.sbAddr k) size (sbSize / size - 1)
            memory)
          (more + 1) (region.sbAddr k) (region.sbAddr k) 0 =
        (region.sbAddr k + more * size,
          region.sbAddr k + (more + 1) * size, more + 1) ∧
      computeIdx (region.sbAddr k) (region.sbAddr k + (more + 1) * size) sc =
        more + 1 := by
  intro size
  have bounds := blockBytes_bounds (by omega : sc ≤ nlist)
  have counts := blockCount_bounds (by omega : sc ≤ nlist)
  rw [blockBytes_small (by omega)] at bounds counts
  have whole : sbSize / size * size ≤ sbSize := counts.2.2
  constructor
  · refine takeLoop_linkBlocks memory bounds.1 ?_
      (Nat.lt_of_lt_of_le region.positive (Nat.le_add_right _ _))
      (Nat.le_sub_one_of_lt fewer)
    have smaller : (sbSize / size - 1) * size ≤ sbSize / size * size :=
      Nat.mul_le_mul_right _ (Nat.sub_le _ _)
    omega
  · apply computeIdx_block valid
    · have smaller : (more + 1) * size < sbSize / size * size :=
        Nat.mul_lt_mul_of_pos_right fewer
          (Nat.lt_of_lt_of_le (by decide) bounds.1)
      exact Nat.lt_of_lt_of_le smaller whole
    · omega

/-- What a returning `malloc_from_newsb` did. -/
theorem Inv.mallocFromNewsb_cases
    (inv : Inv region heap)
    {thread sc blockNum : Nat}
    (valid : sc < nlist)
    (accepted :
      BaseMeta.mallocFromNewsb region thread sc heap =
        .ok (blockNum, heap')) :
    ∃ k middle more anchor cache memory stack,
      BaseMeta.smallSbAlloc region heap = .ok (region.sbAddr k, middle) ∧
        Delivered region heap k middle ∧
        NewsbTaken region middle thread sc k more anchor cache memory stack ∧
        blockNum = more + 1 ∧
        heap' =
          { ((middle.setDesc k
                (smallDesc (region.sbAddr k) sc anchor)).setPartial
              sc stack).setCache thread sc cache with
            memory := memory } := by
  unfold BaseMeta.mallocFromNewsb at accepted
  obtain ⟨⟨superblock, middle⟩, allocated, rest⟩ := bind_ok accepted
  obtain ⟨k, sbShape, delivered⟩ := inv.smallSbAlloc allocated
  subst sbShape
  have low : region.sbAddr k + sbSize ≤ 2 ^ 47 :=
    delivered.inv.control.geometry.spare_below delivered.stray.spare
  have sbOwner : region.owner (region.sbAddr k) = k := owner_sbAddr low
  have maxsizePos := delivered.inv.control.maxsizePos thread sc valid
  have countPos := classCount_pos valid
  simp only [sbOwner] at rest
  split at rest
  · next all =>
      obtain ⟨sameNum, sameHeap⟩ := Prod.mk.inj (Except.ok.inj rest)
      let full : Anchor :=
        { avail := sbSize / ClassSize.indexToSize sc
          count := 0
          state := .sbFull }
      obtain ⟨more, countShape⟩ := Nat.exists_eq_add_of_le' countPos
      have fullFree :
          freeCount (smallDesc (region.sbAddr k) sc full) = 0 := by
        simp [freeCount, smallDesc, full]
      refine ⟨k, middle, more, full, _, _, middle.partialList sc, allocated,
        delivered,
        ⟨by omega, rfl, ⟨rfl, Nat.le_refl _⟩, by omega, by omega, Or.inl rfl,
          Or.inl ⟨rfl, rfl⟩⟩, by omega, ?_⟩
      rw [setPartial_self, ← countShape, ← sameHeap]
      rfl
  · next fewer =>
      obtain ⟨more, maxShape⟩ := Nat.exists_eq_add_of_le' maxsizePos
      rw [maxShape] at rest fewer
      have early := Nat.lt_of_not_le fewer
      obtain ⟨walk, idxShape⟩ := takeLoop_newsb middle.memory valid low early
      simp only [walk, idxShape] at rest
      obtain ⟨pushed, push, returned⟩ := bind_ok rest
      rw [heapPushPartial_of_heap
        (show (Heap.desc _ k).heap = some sc by
          simp [setDesc])] at push
      have pushedShape := Except.ok.inj push
      obtain ⟨sameNum, sameHeap⟩ := Prod.mk.inj (Except.ok.inj returned)
      let anchor : Anchor :=
        { avail := more + 1
          count := sbSize / ClassSize.indexToSize sc - (more + 1)
          state := .sbPartial }
      have anchorFree :
          freeCount (smallDesc (region.sbAddr k) sc anchor) =
            sbSize / ClassSize.indexToSize sc - (more + 1) := by
        simp [freeCount, smallDesc, anchor]
      have anchorOk :
          AnchorOk anchor (sbSize / ClassSize.indexToSize sc) := by
        refine ⟨?_, ?_, early⟩
        · change 1 ≤ sbSize / ClassSize.indexToSize sc - (more + 1)
          omega
        · change
            sbSize / ClassSize.indexToSize sc - (more + 1) <
              sbSize / ClassSize.indexToSize sc
          omega
      refine ⟨k, middle, more, anchor, _, _, k :: middle.partialList sc,
        allocated, delivered,
        ⟨by omega, rfl, anchorOk, fun _ => rfl, by omega, Or.inr rfl,
          Or.inr ⟨rfl, rfl⟩⟩, sameNum.symm, ?_⟩
      rw [maxShape, ← sameHeap, ← pushedShape]
      rfl

/-- `malloc_from_newsb` keeps the invariant and delivers blocks. -/
theorem Inv.mallocFromNewsb
    (inv : Inv region heap)
    {thread sc blockNum : Nat}
    (valid : sc < nlist)
    (emptyList : (heap.cache thread sc).size = 0)
    (accepted :
      BaseMeta.mallocFromNewsb region thread sc heap =
        .ok (blockNum, heap')) :
    Inv region heap' ∧
      (∀ j, Stray region heap' j → Stray region heap j) ∧
      (∀ j,
        (heap.desc j).heap ≠ none →
        (heap'.desc j).heap = (heap.desc j).heap) ∧
      heap'.live = heap.live ∧
      1 ≤ (heap'.cache thread sc).size := by
  obtain ⟨k, middle, more, anchor, cache, memory, stack, -, delivered, taken,
    -, rfl⟩ := inv.mallocFromNewsb_cases valid accepted
  have maxsizePos := delivered.inv.control.maxsizePos thread sc valid
  have nowEmpty : (middle.cache thread sc).size = 0 := by
    rw [delivered.sameCache]
    exact emptyList
  obtain ⟨listShape, sizeShape⟩ := taken.listShape
  have nowPos : 1 ≤ cache.maxsize := by
    rw [taken.cacheShape]
    exact growMaxSize_pos maxsizePos (classCount_pos valid)
  have here :
      (middle.setDesc k (smallDesc (region.sbAddr k) sc anchor)).desc k =
        smallDesc (region.sbAddr k) sc anchor := by
    simp [setDesc]
  have there :
      ∀ j,
        j ≠ k →
        (middle.setDesc k (smallDesc (region.sbAddr k) sc anchor)).desc j =
          middle.desc j := by
    intro j distinct
    simp [setDesc, distinct]
  refine ⟨delivered.inv.useNewsb valid delivered.stray nowEmpty
    taken.anchorOk listShape sizeShape nowPos taken.newStart taken.newCount
    taken.memoryShape taken.stackShape, ?_, ?_, delivered.sameLive, ?_⟩
  · rintro j ⟨⟨blank, indexPos, inside⟩, absent⟩
    change
      ((middle.setDesc k (smallDesc (region.sbAddr k) sc anchor)).desc
        j).heap = none at blank
    have distinct : j ≠ k := by
      rintro rfl
      rw [here] at blank
      cases blank
    rw [there j distinct] at blank
    exact (delivered.strays j
      ⟨⟨blank, indexPos, inside⟩, absent⟩).resolve_left distinct
  · intro j inUse
    have same := delivered.usedSame j inUse
    have distinct : j ≠ k := by
      rintro rfl
      rw [← same, delivered.stray.spare.blank] at inUse
      exact inUse rfl
    change
      ((middle.setDesc k (smallDesc (region.sbAddr k) sc anchor)).desc
        j).heap = _
    rw [there j distinct, same]
  · change 1 ≤ ((middle.setCache thread sc cache).cache thread sc).size
    rw [setCache_self, sizeShape]
    exact Nat.succ_pos more

/-- `fill_cache` needs a new superblock when no partial one had a block. -/
theorem fillCache_of_loop
    {thread sc taken : Nat}
    (fromPartial :
      BaseMeta.mallocFromPartialLoop region thread sc (heap.partialList sc)
          heap =
        .ok (taken, heap')) :
    BaseMeta.fillCache region thread sc heap =
      if taken = 0 then
        BaseMeta.mallocFromNewsb region thread sc heap'
      else
        .ok (taken, heap') := by
  unfold BaseMeta.fillCache BaseMeta.mallocFromPartial
  rw [fromPartial]
  rfl

/-- With an empty partial list `fill_cache` takes a new superblock. -/
theorem fillCache_unlisted
    {thread sc : Nat}
    (noneListed : heap.partialList sc = []) :
    BaseMeta.fillCache region thread sc heap =
      BaseMeta.mallocFromNewsb region thread sc heap := by
  have fromPartial :
      BaseMeta.mallocFromPartialLoop region thread sc (heap.partialList sc)
          heap =
        .ok (0, heap) := by
    rw [noneListed]
    rfl
  rw [fillCache_of_loop fromPartial, if_pos rfl]

end Heap

end Bxalloc
