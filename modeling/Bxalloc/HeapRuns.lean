import Bxalloc.HeapCalls

namespace Bxalloc

/-!
# Runs of the small allocator

A run starts with the heap the constructor builds and takes atomic steps: a
malloc or a free by some thread, the end of a thread, or a store by a user into
a live block.  A call that stops at an assertion is not a step.  In every state
of every run the blocks of superblocks in use are partitioned between free
chains, free lists and users.
-/

open Lib (Memory Reaches)

namespace Heap

variable {region : SbRegion} {heap heap' : Heap}

/-- The free lists of a thread that ended, as its successor constructs them. -/
def endThread (heap : Heap) (thread : Nat) : Heap :=
  { heap with
    cache :=
      Function.update heap.cache thread fun sc =>
        if sc < nlist then freshFreeList sc else heap.cache thread sc }

/-- The heaps the constructor can leave. -/
def Fresh (region : SbRegion) (heap : Heap) : Prop :=
  ∃ memory, BaseMeta.create region memory = .ok heap

/-- What a thread does in one atomic step. -/
inductive Call where
  | malloc (thread size : Nat)
  | free (thread ptr : Nat)
  | exit (thread : Nat)
  | store (address : Nat) (byte : UInt8)

/-- One atomic step. -/
inductive Step (region : SbRegion) : Heap → Call → Heap → Prop where
  | malloc
      {heap heap' : Heap}
      {thread size ptr : Nat}
      (positive : 1 ≤ size)
      (fits : size ≤ sbSize)
      (returned :
        BaseMeta.doMalloc region thread size heap = .ok (ptr, heap')) :
      Step region heap (.malloc thread size)
        { heap' with live := ptr :: heap'.live }
  | free
      {heap heap' : Heap}
      {thread ptr : Nat}
      (isLive : ptr ∈ heap.live)
      (returned : BaseMeta.doFree region thread ptr heap = .ok heap') :
      Step region heap (.free thread ptr)
        { heap' with live := heap'.live.erase ptr }
  | exit
      {heap heap' : Heap}
      {thread : Nat}
      (returned : BaseMeta.publicFlushCache region thread heap = .ok heap') :
      Step region heap (.exit thread) (heap'.endThread thread)
  | store
      {heap : Heap}
      {block address : Nat}
      {byte : UInt8}
      (isLive : block ∈ heap.live)
      (lower : block ≤ address)
      (upper :
        address < block + (heap.desc (region.owner block)).blockSize) :
      Step region heap (.store address byte)
        { heap with memory := heap.memory.store8 address byte }

/-- Free lists of a new thread can hold a block. -/
theorem freshFreeList_maxsize
    {sc : Nat}
    (valid : sc < nlist) :
    1 ≤ (freshFreeList sc).maxsize := by
  unfold freshFreeList
  simp only
  split_ifs
  · decide
  · decide
  · exact classCount_pos valid

/-- The constructed heap before any superblock is queued. -/
theorem Inv.unqueued
    {next : Nat}
    (memory : Memory)
    (aligned : next % sbSize = 0)
    (above : region.start + sbSize ≤ next)
    (below : next ≤ region.limit) :
    Inv region
      { memory := memory
        desc := fun _ => .blank
        partialList := fun _ => []
        queue := []
        currAddr := next
        cache := fun _ sc => freshFreeList sc
        live := [] } := by
  have nothing :
      ∀ place,
        content
          { memory := memory
            desc := fun _ => .blank
            partialList := fun _ => []
            queue := []
            currAddr := next
            cache := fun _ sc => freshFreeList sc
            live := [] } place = [] := by
    intro place
    cases place with
    | chain k => exact freeChain_of_blank rfl
    | cache thread sc => rfl
    | live => rfl
  refine ⟨⟨⟨?_, aligned, above, below⟩, ?_, ?_, ?_, ?_, ?_, ?_⟩, ⟨?_, ?_⟩⟩
  · intro k sc used
    cases used
  · intro k used
    cases used
  · intro sc
    exact List.nodup_nil
  · intro sc k
    constructor
    · intro member
      exact absurd member List.not_mem_nil
    · rintro ⟨used, -⟩
      cases used
  · exact List.nodup_nil
  · intro k member
    exact absurd member List.not_mem_nil
  · intro thread sc valid
    exact freshFreeList_maxsize valid
  · refine ⟨?_, ?_, ?_⟩
    · intro place
      rw [nothing place]
      exact List.nodup_nil
    · intro first second distinct
      rw [nothing first]
      exact List.disjoint_nil_left _
    · intro block
      constructor
      · rintro ⟨k, used, -⟩
        exact absurd rfl used
      · rintro ⟨place, occurs⟩
        rw [nothing place] at occurs
        exact absurd occurs List.not_mem_nil
  · intro place block occurs
    rw [nothing place] at occurs
    exact absurd occurs List.not_mem_nil

/-- The constructor queues every superblock but the first. -/
theorem Inv.organized
    {expandSize more : Nat}
    (memory : Memory)
    (expandShape : expandSize = (1 + more) * sbSize)
    (morePos : 0 < more)
    (roomLeft : region.start + expandSize ≤ region.limit)
    (accepted :
      BaseMeta.organizeSbList region (region.start + sbSize) more
          { memory := memory
            desc := fun _ => .blank
            partialList := fun _ => []
            queue := []
            currAddr := region.start + expandSize
            cache := fun _ sc => freshFreeList sc
            live := [] } =
        .ok heap) :
    Inv region heap ∧ ∀ j, ¬ Stray region heap j := by
  have regionAligned := region.aligned
  have userSpace := region.userSpace
  have large : 2 * sbSize ≤ expandSize := by
    rw [expandShape]
    exact Nat.mul_le_mul_right _ (by omega)
  have aligned : (region.start + expandSize) % sbSize = 0 := by
    rw [expandShape, Nat.add_mul_mod_self_right]
    exact regionAligned
  have unqueued :=
    Inv.unqueued memory aligned (by omega) roomLeft
  have firstShape : region.start + sbSize = region.sbAddr 1 := by
    unfold SbRegion.sbAddr
    rw [Nat.one_mul]
  have firstOwner : region.owner (region.start + sbSize) = 1 := by
    rw [firstShape]
    exact owner_sbAddr (by omega)
  have fits :
      ∀ j,
        region.sbAddr j + sbSize ≤ region.start + expandSize ↔
          j < 1 + more := by
    intro j
    have product : region.sbAddr j + sbSize =
        region.start + (j + 1) * sbSize := by
      unfold SbRegion.sbAddr
      ring
    rw [product, expandShape, Nat.add_le_add_iff_left,
      Nat.mul_le_mul_right_iff (by decide)]
    omega
  rw [organizeSbList_eq region morePos, firstOwner] at accepted
  have queued :=
    unqueued.enqueueFrom
      (fun j lower upper =>
        ⟨⟨rfl, lower, (fits j).mpr upper⟩, List.not_mem_nil⟩)
      accepted
  refine ⟨queued.inv, ?_⟩
  intro j stray
  obtain ⟨⟨spare, -⟩, outside⟩ := (queued.strays j).mp stray
  exact outside ⟨spare.indexPos, (fits j).mp spare.inside⟩

/-- A constructed heap satisfies the invariant and has no stray superblock. -/
theorem Fresh.inv
    (fresh : Fresh region heap) :
    Inv region heap ∧ ∀ j, ¬ Stray region heap j := by
  obtain ⟨memory, created⟩ := fresh
  unfold BaseMeta.create at created
  simp only at created
  split at created
  · cases created
  · next roomLeft =>
      have expandShape :
          sbRegionExpandSize =
            (1 + (sbRegionExpandSize / sbSize - 1)) * sbSize := by
        decide
      exact Inv.organized memory expandShape (by decide)
        (Nat.le_of_not_lt roomLeft) created

/-- Queueing superblocks succeeds while the queue has room. -/
theorem enqueueFrom_ok
    (k more : Nat)
    (room : heap.queue.length + more ≤ queueSize - 1) :
    ∃ heap', BaseMeta.enqueueFrom k more heap = .ok heap' := by
  induction more generalizing k heap with
  | zero => exact ⟨heap, rfl⟩
  | succ more inductionHypothesis =>
      unfold BaseMeta.enqueueFrom BaseMeta.enqueueBlank
      rw [if_neg (by omega)]
      apply inductionHypothesis
      simp only [List.length_append, List.length_singleton]
      omega

/-- The constructor succeeds when the file holds one expansion. -/
theorem exists_fresh
    (roomLeft : region.start + sbRegionExpandSize ≤ region.limit) :
    ∃ heap, Fresh region heap := by
  have positive : 0 < sbRegionExpandSize / sbSize - 1 := by
    decide
  have fewer : sbRegionExpandSize / sbSize - 1 ≤ queueSize - 1 := by
    decide
  generalize memoryShape : (fun _ => 0 : Memory) = memory
  obtain ⟨heap, queued⟩ :=
    @enqueueFrom_ok
      { memory := memory
        desc := fun _ => .blank
        partialList := fun _ => []
        queue := []
        currAddr := region.start + sbRegionExpandSize
        cache := fun _ sc => freshFreeList sc
        live := [] }
      (region.owner (region.start + sbSize))
      (sbRegionExpandSize / sbSize - 1)
      (by simpa only [List.length_nil, Nat.zero_add] using fewer)
  refine ⟨heap, memory, ?_⟩
  unfold BaseMeta.create
  simp only
  rw [if_neg (Nat.not_lt.mpr roomLeft), organizeSbList_eq region positive]
  exact queued

/-- New free lists in place of empty ones keep the invariant. -/
theorem Inv.endThread
    (inv : Inv region heap)
    {thread : Nat}
    (emptied : ∀ sc, sc < nlist → (heap.cache thread sc).size = 0) :
    Inv region (heap.endThread thread) := by
  have sizes :
      ∀ sc, sc < nlist → heap.cacheList thread sc = [] := by
    intro sc valid
    simp [cacheList, emptied sc valid]
  refine ⟨?_, ?_⟩
  · refine inv.control.congr rfl rfl rfl rfl ?_
    intro thread' sc valid
    simp only [Heap.endThread, Function.update_apply]
    by_cases same : thread' = thread
    · rw [if_pos same, if_pos valid]
      exact freshFreeList_maxsize valid
    · rw [if_neg same]
      exact inv.control.maxsizePos thread' sc valid
  · refine inv.placement.congr_content ?_ rfl
    intro place
    cases place with
    | chain k => rfl
    | cache thread' sc =>
        change
          (heap.endThread thread).cacheList thread' sc =
            heap.cacheList thread' sc
        by_cases same : thread' = thread
        · subst same
          by_cases valid : sc < nlist
          · rw [sizes sc valid]
            simp [cacheList, Heap.endThread, valid, freshFreeList]
          · simp [cacheList, Heap.endThread, valid]
        · simp [cacheList, Heap.endThread, same]
    | live => rfl

/-- Writes into live blocks and outside the region move no block. -/
theorem Placement.overwrite
    (geometry : Geometry region heap)
    (placement : Placement region heap)
    {memory : Memory}
    (same :
      ∀ address,
        region.start ≤ address →
        address < region.limit →
        (∀ block,
          block ∈ heap.live →
          address < block ∨
            block + (heap.desc (region.owner block)).blockSize ≤ address) →
        memory address = heap.memory address) :
    Placement region { heap with memory := memory } ∧
      ∀ place,
        place ≠ .live →
        ∀ node,
          node ∈ heap.content place →
          readLink memory node = readLink heap.memory node := by
  have sameLink :
      ∀ place,
        place ≠ .live →
        ∀ node,
          node ∈ heap.content place →
          readLink memory node = readLink heap.memory node := by
    intro place notLive node occurs
    have nodeBlock := placement.isBlock place occurs
    obtain ⟨sc, -, used, -, -⟩ := geometry.isBlock_cases nodeBlock
    have inside := (geometry.descOk _ sc used).inside
    have window := geometry.block_window nodeBlock
    have below := geometry.currBelow
    unfold readLink
    rw [Memory.load64_congr]
    intro address lower upper
    refine same address ?_ ?_ ?_
    · unfold SbRegion.sbAddr at window
      omega
    · unfold SbRegion.sbAddr at window inside
      omega
    · intro block isLive
      have distinct : node ≠ block := by
        rintro rfl
        exact notLive (placement.splits.place_eq occurs isLive)
      have apart :=
        geometry.blocks_apart nodeBlock (placement.isBlock .live isLive)
          distinct
      omega
  refine ⟨placement.congr_content ?_ rfl, sameLink⟩
  intro place
  cases place with
  | chain k =>
      exact Lib.LinkWalk.iterate_congr_of_mem (sameLink (.chain k) (by simp))
  | cache thread sc =>
      exact Lib.LinkWalk.iterate_congr_of_mem
        (sameLink (.cache thread sc) (by simp))
  | live => rfl

/-- Writes into live blocks and outside the region keep the invariant. -/
theorem Inv.overwrite
    (inv : Inv region heap)
    {memory : Memory}
    (same :
      ∀ address,
        region.start ≤ address →
        address < region.limit →
        (∀ block,
          block ∈ heap.live →
          address < block ∨
            block + (heap.desc (region.owner block)).blockSize ≤ address) →
        memory address = heap.memory address) :
    Inv region { heap with memory := memory } :=
  ⟨inv.control.congr rfl rfl rfl rfl inv.control.maxsizePos,
    (inv.placement.overwrite inv.control.geometry same).1⟩

/-- A store into a live block keeps the invariant. -/
theorem Inv.store
    (inv : Inv region heap)
    {block address : Nat}
    (byte : UInt8)
    (isLive : block ∈ heap.live)
    (lower : block ≤ address)
    (upper : address < block + (heap.desc (region.owner block)).blockSize) :
    Inv region
      { heap with memory := heap.memory.store8 address byte } := by
  refine inv.overwrite ?_
  intro other _ _ outside
  have apart := outside block isLive
  have differs : other ≠ address := by
    omega
  simp [Memory.store8, differs]

/-- The calls that retire a small superblock, from the state before them. -/
def Retires (region : SbRegion) (heap : Heap) : Call → Prop
  | .malloc thread size => heap.RetiringMalloc thread size
  | .free thread ptr => RetiringFree region heap thread ptr
  | .exit thread => ∃ sc, sc < nlist ∧ WholeRun region heap thread sc
  | .store _ _ => False

/-- One step keeps the invariant; only retiring calls leave strays behind. -/
theorem Step.inv
    {call : Call}
    (step : Step region heap call heap')
    (inv : Inv region heap) :
    Inv region heap' ∧
      ∀ j,
        Stray region heap' j →
        Stray region heap j ∨ Retires region heap call := by
  cases step with
  | malloc positive fits returned =>
      have served := inv.doMalloc fits returned
      refine ⟨served.inv, ?_⟩
      rintro j ⟨spare, absent⟩
      exact served.strays j ⟨spare.congr rfl rfl, absent⟩
  | free isLive returned =>
      obtain ⟨newInv, strays⟩ := inv.doFree isLive returned
      refine ⟨newInv, ?_⟩
      rintro j ⟨spare, absent⟩
      exact strays j ⟨spare.congr rfl rfl, absent⟩
  | exit returned =>
      obtain ⟨flushed, emptied⟩ := inv.publicFlushCache returned
      refine ⟨flushed.inv.endThread emptied, ?_⟩
      rintro j ⟨spare, absent⟩
      exact flushed.strays j ⟨spare.congr rfl rfl, absent⟩
  | store isLive lower upper =>
      refine ⟨inv.store _ isLive lower upper, ?_⟩
      rintro j ⟨spare, absent⟩
      exact Or.inl ⟨spare.congr rfl rfl, absent⟩

/-- The invariant holds in every state of every run. -/
theorem Inv.of_reaches
    (reached : Reaches (Fresh region) (Step region) heap) :
    Inv region heap :=
  reached.invariant (fun _ fresh => fresh.inv.1)
    (fun _ _ _ inv step => (step.inv inv).1)

/-- A block of a superblock in use occurs once, in one place that suits it. -/
theorem Inv.placed_once
    (inv : Inv region heap)
    {k sc index : Nat}
    (used : (heap.desc k).heap = some sc)
    (early : index < (heap.desc k).maxcount) :
    ∃ place,
      (place = .chain k ∨ (∃ thread, place = .cache thread sc) ∨
          place = .live) ∧
        ∀ other,
          (heap.content other).count
              (region.sbAddr k + index * (heap.desc k).blockSize) =
            if other = place then 1 else 0 := by
  have member :
      region.sbAddr k + index * (heap.desc k).blockSize ∈
        heap.blocks region k :=
    mem_blocks.mpr ⟨index, early, rfl⟩
  generalize region.sbAddr k + index * (heap.desc k).blockSize = block at *
  have isBlock : heap.IsBlock region block := ⟨k, by simp [used], member⟩
  have owned := inv.control.geometry.owner_of_mem_blocks used member
  obtain ⟨place, occurs⟩ := (inv.placement.splits.covers block).mp isBlock
  refine ⟨place, ?_, ?_⟩
  · have fits := inv.placement.fits place block occurs
    cases place with
    | chain j =>
        left
        rw [← (show region.owner block = j from fits), owned]
    | cache thread sc' =>
        right; left
        have usedBy : (heap.desc (region.owner block)).heap = some sc' := fits
        rw [owned] at usedBy
        exact ⟨thread, by rw [only_heap used usedBy]⟩
    | live => exact Or.inr (Or.inr rfl)
  · intro other
    by_cases same : other = place
    · rw [if_pos same, same]
      exact List.count_eq_one_of_mem (inv.placement.splits.nodup place) occurs
    · rw [if_neg same, List.count_eq_zero]
      intro elsewhere
      exact same (inv.placement.splits.place_eq elsewhere occurs)

/-- A block returned by `do_malloc` overlaps no live block. -/
theorem Inv.malloc_apart
    (inv : Inv region heap)
    {thread size ptr : Nat}
    (fits : size ≤ sbSize)
    (returned :
      BaseMeta.doMalloc region thread size heap = .ok (ptr, heap'))
    {block : Nat}
    (isLive : block ∈ heap.live) :
    ptr + (heap'.desc (region.owner ptr)).blockSize ≤ block ∨
      block + (heap.desc (region.owner block)).blockSize ≤ ptr := by
  have served := inv.doMalloc fits returned
  have oldLive : block ∈ heap'.live := by
    rw [served.sameLive]
    exact isLive
  have distinct : ptr ≠ block := by
    have noDuplicates := served.inv.placement.splits.nodup .live
    intro same
    exact (List.nodup_cons.mp noDuplicates).1 (same ▸ oldLive)
  have apart :=
    served.inv.control.geometry.blocks_apart
      (served.inv.placement.isBlock .live List.mem_cons_self)
      (served.inv.placement.isBlock .live
        (List.mem_cons_of_mem _ oldLive))
      distinct
  have sameBytes :
      (heap'.desc (region.owner block)).blockSize =
        (heap.desc (region.owner block)).blockSize := by
    obtain ⟨sc, used⟩ :=
      Option.ne_none_iff_exists'.mp (inv.live_used isLive)
    have usedNow := (served.liveKept block isLive).trans used
    rw [(inv.control.geometry.descOk _ sc used).blockSize,
      (served.inv.control.geometry.descOk _ sc usedNow).blockSize]
  rw [← sameBytes]
  exact apart

/-- What the loop of `organize_sb_list` does to queue and partial lists. -/
theorem enqueueFrom_queue
    {k more : Nat}
    (accepted : BaseMeta.enqueueFrom k more heap = .ok heap') :
    heap'.queue = heap.queue ++ List.range' k more ∧
      heap'.partialList = heap.partialList ∧
      heap'.cache = heap.cache ∧
      heap'.live = heap.live := by
  induction more generalizing k heap with
  | zero =>
      obtain rfl : heap = heap' := Except.ok.inj accepted
      simp
  | succ more inductionHypothesis =>
      unfold BaseMeta.enqueueFrom BaseMeta.enqueueBlank at accepted
      split at accepted
      · cases accepted
      · obtain ⟨sameQueue, same⟩ := inductionHypothesis accepted
        refine ⟨?_, same⟩
        rw [sameQueue, List.range'_succ, List.append_assoc]
        rfl

/-- The lists of a constructed heap. -/
structure Constructed
    (region : SbRegion)
    (heap : Heap)
    (rest : List Nat) : Prop where
  fresh : Fresh region heap
  queue : heap.queue = 1 :: rest
  partialList : heap.partialList = fun _ => []
  cache : heap.cache = fun _ sc => freshFreeList sc
  live : heap.live = []

/-- The constructor queues every superblock but the first, in order. -/
theorem Fresh.lists
    (fresh : Fresh region heap) :
    heap.queue = List.range' 1 (sbRegionExpandSize / sbSize - 1) ∧
      heap.partialList = (fun _ => []) ∧
      heap.cache = (fun _ sc => freshFreeList sc) ∧
      heap.live = [] := by
  obtain ⟨memory, created⟩ := fresh
  unfold BaseMeta.create at created
  simp only at created
  split at created
  · cases created
  · next roomLeft =>
      have positive : 0 < sbRegionExpandSize / sbSize - 1 := by
        decide
      have large : 2 * sbSize ≤ sbRegionExpandSize := by
        decide
      have userSpace := region.userSpace
      generalize sbRegionExpandSize / sbSize - 1 = count at *
      have firstShape : region.start + sbSize = region.sbAddr 1 := by
        unfold SbRegion.sbAddr
        rw [Nat.one_mul]
      have firstOwner : region.owner (region.start + sbSize) = 1 := by
        rw [firstShape]
        exact owner_sbAddr (by omega)
      rw [organizeSbList_eq region positive, firstOwner] at created
      exact enqueueFrom_queue created

/-- The constructor queues superblock 1 first and leaves all lists empty. -/
theorem Fresh.constructed
    (fresh : Fresh region heap) :
    ∃ rest, Constructed region heap rest := by
  obtain ⟨queue, partialList, cache, live⟩ := fresh.lists
  refine ⟨List.range' 2 (sbRegionExpandSize / sbSize - 2), fresh, ?_,
    partialList, cache, live⟩
  rw [queue]
  exact List.range'_succ

/-- A queued superblock is delivered without an expansion. -/
theorem smallSbAlloc_queued
    {k : Nat}
    {rest : List Nat}
    (shape : heap.queue = k :: rest) :
    BaseMeta.smallSbAlloc region heap =
      .ok (region.sbAddr k, { heap with queue := rest }) := by
  unfold BaseMeta.smallSbAlloc
  rw [shape]

/-- The heap after superblock `k` fills a free list of the largest class. -/
def filledLargest
    (region : SbRegion)
    (thread k : Nat)
    (rest : List Nat)
    (heap : Heap) : Heap :=
  { ({ heap with queue := rest }.setDesc k
      (smallDesc (region.sbAddr k) 159
        { avail := 2, count := 0, state := .sbFull })).setCache thread 159
          ⟨region.sbAddr k, 2, 2⟩ with
    memory :=
      writeLink heap.memory (region.sbAddr k) (region.sbAddr k + 24576) }

/-- The largest class has two blocks of 24 KiB in a superblock. -/
theorem largestClass :
    ClassSize.indexToSize 159 = 24576 ∧
      sbSize / ClassSize.indexToSize 159 = 2 ∧
      freshFreeList 159 = ⟨0, 0, 2⟩ := by
  decide

/-- A new superblock of the largest class goes to the free list as a whole. -/
theorem mallocFromNewsb_largest
    {thread k : Nat}
    {rest : List Nat}
    (shape : heap.queue = k :: rest)
    (sbOwner : region.owner (region.sbAddr k) = k)
    (noneCached : heap.cache thread 159 = ⟨0, 0, 2⟩) :
    BaseMeta.mallocFromNewsb region thread 159 heap =
      .ok (2, filledLargest region thread k rest heap) := by
  obtain ⟨bytes, count, -⟩ := largestClass
  have linked :
      BaseMeta.linkBlocks (region.sbAddr k) (ClassSize.indexToSize 159)
          (2 - 1) heap.memory =
        writeLink heap.memory (region.sbAddr k)
          (region.sbAddr k + 24576) := by
    simp [BaseMeta.linkBlocks, bytes]
  have grown :
      (FreeList.pushList ⟨0, 0, 2⟩ (region.sbAddr k) 2).growMaxSize 2 2 =
        ⟨region.sbAddr k, 2, 2⟩ := by
    simp [FreeList.pushList, FreeList.growMaxSize, FreeList.setMaxSize]
  unfold BaseMeta.mallocFromNewsb
  rw [smallSbAlloc_queued shape]
  simp only [bind, Except.bind, sbOwner, noneCached, count]
  rw [if_pos (Nat.le_refl 2), linked, grown]
  unfold filledLargest smallDesc
  rw [count]
  rfl

/-- The heap after the first malloc of 24 KiB. -/
def firstServed
    (region : SbRegion)
    (rest : List Nat)
    (heap : Heap) : Heap :=
  (filledLargest region 0 1 rest heap).setCache 0 159
    ⟨region.sbAddr 1 + 24576, 1, 2⟩

/-- The descriptor of superblock 1 after the first malloc. -/
theorem firstServed_desc
    (region : SbRegion)
    (rest : List Nat)
    (heap : Heap) :
    (firstServed region rest heap).desc 1 =
      smallDesc (region.sbAddr 1) 159
        { avail := 2, count := 0, state := .sbFull } := by
  simp only [firstServed, filledLargest, setCache, setDesc,
    Function.update_self]

/-- The free list of the largest class after the first malloc. -/
theorem firstServed_cache
    (region : SbRegion)
    (rest : List Nat)
    (heap : Heap) :
    (firstServed region rest heap).cache 0 159 =
      ⟨region.sbAddr 1 + 24576, 1, 2⟩ := by
  unfold firstServed
  rw [setCache_self]

/-- Superblock 1 of a constructed heap lies in user space. -/
theorem Constructed.low
    {rest : List Nat}
    (made : Constructed region heap rest) :
    region.sbAddr 1 + sbSize ≤ heap.currAddr ∧ heap.currAddr ≤ 2 ^ 47 := by
  have control := made.fresh.inv.1.control
  have spare : Spare region heap 1 := by
    apply control.queueSpare
    rw [made.queue]
    exact List.mem_cons_self
  exact ⟨spare.inside,
    Nat.le_trans control.geometry.currBelow region.userSpace⟩

/-- A malloc of 24 KiB out of a new superblock returns its start. -/
theorem doMalloc_largest
    {thread k : Nat}
    {rest : List Nat}
    (shape : heap.queue = k :: rest)
    (noneListed : heap.partialList 159 = [])
    (noneCached : heap.cache thread 159 = ⟨0, 0, 2⟩)
    (low : region.sbAddr k + sbSize ≤ 2 ^ 47) :
    BaseMeta.doMalloc region thread 24576 heap =
      .ok (region.sbAddr k,
        (filledLargest region thread k rest heap).setCache thread 159
          ⟨region.sbAddr k + 24576, 1, 2⟩) := by
  have sbOwner : region.owner (region.sbAddr k) = k :=
    owner_sbAddr low
  have found :
      ClassSize.sizeToIndex (ClassSize.roundUp 24576) = some 159 := by
    decide +kernel
  have filled :
      BaseMeta.fillCache region thread 159 heap =
        .ok (2, filledLargest region thread k rest heap) := by
    rw [fillCache_unlisted noneListed]
    exact mallocFromNewsb_largest shape sbOwner noneCached
  have listed :
      (filledLargest region thread k rest heap).cache thread 159 =
        ⟨region.sbAddr k, 2, 2⟩ := by
    unfold filledLargest
    simp only [setCache_self]
  have popped :
      FreeList.pop ⟨region.sbAddr k, 2, 2⟩
          (filledLargest region thread k rest heap).memory =
        (region.sbAddr k, ⟨region.sbAddr k + 24576, 1, 2⟩) := by
    have readBack :
        readLink (filledLargest region thread k rest heap).memory
            (region.sbAddr k) =
          region.sbAddr k + 24576 := by
      simp only [sbSize, pageSize] at low
      exact readLink_writeLink_same _ (by omega) (by omega)
    unfold FreeList.pop
    rw [readBack]
    rfl
  unfold BaseMeta.doMalloc
  rw [if_neg (by decide), found]
  simp only [noneCached, if_true, filled, bind, Except.bind, pure,
    Except.pure]
  rw [listed, popped]

/-- The first malloc of 24 KiB returns the start of superblock 1. -/
theorem Constructed.doMalloc
    {rest : List Nat}
    (made : Constructed region heap rest) :
    BaseMeta.doMalloc region 0 24576 heap =
      .ok (region.sbAddr 1, firstServed region rest heap) := by
  obtain ⟨inside, low⟩ := made.low
  refine doMalloc_largest made.queue ?_ ?_ (by omega)
  · rw [made.partialList]
  · rw [made.cache]
    exact largestClass.2.2

/-- The state after the first malloc of 24 KiB is reachable. -/
theorem Constructed.reaches
    {rest : List Nat}
    (made : Constructed region heap rest) :
    Reaches (Fresh region) (Step region)
      { firstServed region rest heap with
        live := [region.sbAddr 1] } := by
  have step :=
    Step.malloc (by decide) (by decide) made.doMalloc
  have noneLive : (firstServed region rest heap).live = [] := made.live
  rw [noneLive] at step
  exact (Reaches.start made.fresh).next step

theorem exampleStart_aligned : 0x10000 % sbSize = 0 := by
  decide

theorem exampleStart_positive : 0 < 0x10000 := by
  decide

theorem exampleLimit_userSpace :
    0x10000 + sbRegionExpandSize ≤ 2 ^ 47 := by
  decide

/-- A region for one expansion. -/
def exampleRegion : SbRegion where
  start := 0x10000
  limit := 0x10000 + sbRegionExpandSize
  aligned := exampleStart_aligned
  positive := exampleStart_positive
  userSpace := exampleLimit_userSpace

theorem exampleRegion_room :
    exampleRegion.start + sbRegionExpandSize ≤ exampleRegion.limit :=
  Nat.le_refl _

/-- Some run over the example region puts superblock 1 into use. -/
theorem exampleRegion_served :
    ∃ heap,
      Reaches (Fresh exampleRegion) (Step exampleRegion) heap ∧
        heap.desc 1 =
          smallDesc (exampleRegion.sbAddr 1) 159
            { avail := 2, count := 0, state := .sbFull } := by
  obtain ⟨heap, fresh⟩ := exists_fresh exampleRegion_room
  obtain ⟨rest, made⟩ := fresh.constructed
  exact ⟨_, made.reaches, firstServed_desc exampleRegion rest heap⟩

/--
In every state of every run, every block of every small superblock in use
occurs exactly once among the superblock's free chain, the threads' free lists
of its class and the live blocks; and a malloc returns memory that overlaps no
live block.
-/
theorem blocks_partitioned
    (reached : Reaches (Fresh region) (Step region) heap) :
    (∀ k sc index,
      (heap.desc k).heap = some sc →
      sc < nlist →
      index < (heap.desc k).maxcount →
      ∃ place,
        (place = .chain k ∨ (∃ thread, place = .cache thread sc) ∨
            place = .live) ∧
          ∀ other,
            (heap.content other).count
                (region.sbAddr k + index * (heap.desc k).blockSize) =
              if other = place then 1 else 0) ∧
      ∀ thread size ptr heap' block,
        1 ≤ size →
        size ≤ sbSize →
        BaseMeta.doMalloc region thread size heap = .ok (ptr, heap') →
        block ∈ heap.live →
        ptr + (heap'.desc (region.owner ptr)).blockSize ≤ block ∨
          block + (heap.desc (region.owner block)).blockSize ≤ ptr := by
  have inv := Inv.of_reaches reached
  refine ⟨?_, ?_⟩
  · intro k sc index used _ early
    exact inv.placed_once used early
  · intro thread size ptr heap' block _ fits returned isLive
    exact inv.malloc_apart fits returned isLive

/-- The second block of the first superblock served is in one place. -/
theorem blocks_partitioned_served :
    ∃ heap,
      Reaches (Fresh exampleRegion) (Step exampleRegion) heap ∧
        (heap.desc 1).heap = some 159 ∧
        (heap.desc 1).maxcount = 2 ∧
        ∃ place,
          (place = .chain 1 ∨ (∃ thread, place = .cache thread 159) ∨
              place = .live) ∧
            ∀ other,
              (heap.content other).count
                  (exampleRegion.sbAddr 1 + 1 * (heap.desc 1).blockSize) =
                if other = place then 1 else 0 := by
  obtain ⟨heap, reached, shape⟩ := exampleRegion_served
  have used : (heap.desc 1).heap = some 159 := by
    rw [shape]
    rfl
  have count : (heap.desc 1).maxcount = 2 := by
    rw [shape]
    exact largestClass.2.1
  exact ⟨heap, reached, used, count,
    (blocks_partitioned reached).1 1 159 1 used (by decide) (by omega)⟩

/-- A superblock in use with a free block is on the partial list of its heap. -/
theorem Inv.free_listed
    (inv : Inv region heap)
    {k sc : Nat}
    (used : (heap.desc k).heap = some sc)
    (someFree : heap.freeChain k ≠ []) :
    k ∈ heap.partialList sc := by
  have anchorOk := (inv.control.geometry.descOk k sc used).anchor
  refine (inv.control.partialMem sc k).mpr ⟨used, ?_⟩
  unfold AnchorOk at anchorOk
  cases state : (heap.desc k).anchor.state with
  | sbError =>
      rw [state] at anchorOk
      exact anchorOk.elim
  | sbFull =>
      rw [state] at anchorOk
      refine absurd ?_ someFree
      simp [freeChain, freeCount, state, anchorOk.1]
  | sbPartial => exact Or.inl rfl
  | sbEmpty => exact Or.inr rfl

/--
In every state of every run the partial lists hold exactly the superblocks that
are partial or empty, each once and on the list of its own heap; partial
superblocks have a free block and a valid first index; and the assertion that a
popped superblock is partial never fails.
-/
theorem partial_lists_match_anchors
    (reached : Reaches (Fresh region) (Step region) heap) :
    (∀ k sc,
      (heap.desc k).heap = some sc →
      (((heap.desc k).anchor.state = .sbPartial ∨
            (heap.desc k).anchor.state = .sbEmpty) →
          ∀ sc',
            (heap.partialList sc').count k = if sc' = sc then 1 else 0) ∧
        ((heap.desc k).anchor.state = .sbFull →
          ∀ sc', k ∉ heap.partialList sc') ∧
        ((heap.desc k).anchor.state = .sbPartial →
          1 ≤ (heap.desc k).anchor.count ∧
            (heap.desc k).anchor.avail < (heap.desc k).maxcount) ∧
        (heap.freeChain k ≠ [] → k ∈ heap.partialList sc)) ∧
      (∀ k sc, (heap.desc k).heap = none → k ∉ heap.partialList sc) ∧
      ∀ thread size,
        BaseMeta.doMalloc region thread size heap ≠ .error .notPartial := by
  have inv := Inv.of_reaches reached
  have control := inv.control
  refine ⟨?_, ?_, inv.doMalloc_notPartial⟩
  · intro k sc used
    refine ⟨?_, ?_, ?_, inv.free_listed used⟩
    · intro listed sc'
      by_cases same : sc' = sc
      · rw [if_pos same, same]
        exact List.count_eq_one_of_mem (control.partialNodup sc)
          ((control.partialMem sc k).mpr ⟨used, listed⟩)
      · rw [if_neg same, List.count_eq_zero]
        intro member
        exact same (only_heap used ((control.partialMem sc' k).mp member).1)
    · intro full sc' member
      obtain ⟨-, state⟩ := (control.partialMem sc' k).mp member
      rw [full] at state
      rcases state with state | state <;> cases state
    · intro isPartial
      have anchorOk := (control.geometry.descOk k sc used).anchor
      rw [AnchorOk, isPartial] at anchorOk
      exact ⟨anchorOk.1, anchorOk.2.2⟩
  · intro k sc blank member
    have used := ((control.partialMem sc k).mp member).1
    rw [blank] at used
    cases used

/-- The first superblock served is full and on no partial list. -/
theorem partial_lists_match_anchors_served :
    ∃ heap,
      Reaches (Fresh exampleRegion) (Step exampleRegion) heap ∧
        (heap.desc 1).heap = some 159 ∧
        (∀ sc, 1 ∉ heap.partialList sc) ∧
        BaseMeta.doMalloc exampleRegion 0 24576 heap ≠
          .error .notPartial := by
  obtain ⟨heap, reached, shape⟩ := exampleRegion_served
  obtain ⟨inUse, -, noAssertion⟩ := partial_lists_match_anchors reached
  have used : (heap.desc 1).heap = some 159 := by
    rw [shape]
    rfl
  have full : (heap.desc 1).anchor.state = .sbFull := by
    rw [shape]
    rfl
  exact ⟨heap, reached, used, (inUse 1 159 used).2.1 full,
    noAssertion 0 24576⟩

end Heap

end Bxalloc
