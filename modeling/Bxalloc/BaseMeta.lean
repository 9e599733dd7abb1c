import Bxalloc.ClassSize
import Bxalloc.Lookup

namespace Bxalloc

/-!
# The small and medium allocator

This module follows `BaseMeta.cpp`, `FreeList.hpp` and `ThreadCache.cpp` for
one run of the program in which every call executes as one atomic step.

A descriptor is named by its index, so `Descriptor*` is a number and
`desc_lookup` is `sbIndex`.  The partial list of a heap is a stack of
descriptor indices and the free-superblock queue is a bounded FIFO of
descriptor indices.  Links between free blocks live in the blocks themselves,
in the byte memory.  A violated assertion, or a null or past-the-end access,
ends the call with a `Fault`.
-/

open Lib (Memory)

/-- `SuperblockState`. -/
inductive SuperblockState where
  | sbError
  | sbFull
  | sbPartial
  | sbEmpty
  deriving Repr, DecidableEq

/-- `Anchor`: the free chain of a superblock. -/
structure Anchor where
  avail : Nat
  count : Nat
  state : SuperblockState
  deriving Repr, DecidableEq

/-- `Descriptor`; `heap` is the index of its `ProcHeap`, `none` for null. -/
structure Descriptor where
  anchor : Anchor
  superblock : Nat
  heap : Option Nat
  blockSize : Nat
  maxcount : Nat
  deriving Repr, DecidableEq

/-- `new (desc) Descriptor()`. -/
def Descriptor.blank : Descriptor where
  anchor := { avail := 0, count := 0, state := .sbError }
  superblock := 0
  heap := none
  blockSize := 0
  maxcount := 0

/-- `FreeList`: a counted list of blocks linked through their first bytes. -/
structure FreeList where
  /-- `_list`. -/
  list : Nat
  /-- `_size`. -/
  size : Nat
  /-- `_maxsize`. -/
  maxsize : Nat
  deriving Repr, DecidableEq

namespace FreeList

/-- `PushList`. -/
def pushList (cache : FreeList) (obj num : Nat) : FreeList :=
  { cache with list := obj, size := num }

/-- `PopList`. -/
def popList (cache : FreeList) (obj length : Nat) : FreeList :=
  { cache with list := obj, size := cache.size - length }

/-- `Pop`: the returned block and the list behind it. -/
def pop (cache : FreeList) (memory : Memory) : Nat × FreeList :=
  (cache.list,
    { cache with
      list := readLink memory cache.list
      size := cache.size - 1 })

/-- `Push`: the memory with the new link and the longer list. -/
def push (cache : FreeList) (memory : Memory) (obj : Nat) :
    Memory × FreeList :=
  (writeLink memory obj cache.list,
    { cache with list := obj, size := cache.size + 1 })

/-- `SetMaxSize`. -/
def setMaxSize (cache : FreeList) (maxsize : Nat) : FreeList :=
  { cache with maxsize := maxsize }

/-- The doubling rule for `_maxsize` after a refill. -/
def growMaxSize (cache : FreeList) (maxFlistNum maxcount : Nat) : FreeList :=
  if maxFlistNum * 2 < maxcount then
    cache.setMaxSize (maxFlistNum * 2)
  else
    cache.setMaxSize maxcount

end FreeList

/-- The list of class `sc` in a new `ThreadCache`. -/
def freshFreeList (sc : Nat) : FreeList :=
  let temp := sbSize / ClassSize.indexToSize sc
  { list := 0
    size := 0
    maxsize :=
      if 2048 < temp then
        2048
      else if 512 < temp then
        512
      else
        temp }

/-- Where the superblock region lies in this run. -/
structure SbRegion where
  /-- `regions_address[SB_IDX]`. -/
  start : Nat
  /-- `base_addr + FILESIZE`. -/
  limit : Nat
  aligned : start % sbSize = 0
  positive : 0 < start
  userSpace : limit ≤ 2 ^ 47

/-- The superblock of descriptor `k`, `sb_lookup`. -/
def SbRegion.sbAddr (region : SbRegion) (k : Nat) : Nat :=
  region.start + k * sbSize

/-- The descriptor of an address, `desc_lookup`. -/
def SbRegion.owner (region : SbRegion) (ptr : Nat) : Nat :=
  sbIndex region.start ptr

/-- The state of the allocator; `live` records the blocks users hold. -/
structure Heap where
  memory : Memory
  desc : Nat → Descriptor
  /-- `heaps[sc].partial_list`, first element on top. -/
  partialList : Nat → List Nat
  /-- `_queue`, oldest element first. -/
  queue : List Nat
  /-- `curr_addr` of the superblock region. -/
  currAddr : Nat
  /-- `tsl_cache._flist[sc]` of every thread. -/
  cache : Nat → Nat → FreeList
  live : List Nat

/-- Why a call does not return. -/
inductive Fault where
  /-- `assert(0&&"queue is full!")`. -/
  | queueFull
  /-- The region is out of space in `small_sb_alloc`. -/
  | outOfSpace
  /-- `assert(oldanchor.state == SB_PARTIAL)`. -/
  | notPartial
  /-- `assert(size<=SBSIZE)`. -/
  | tooLarge
  /-- `sizetoindex.find` returned `end()`. -/
  | noClass
  /-- `assert(_rgs->in_range(SB_IDX,ptr))`. -/
  | outOfRange
  /-- `desc->heap` is null. -/
  | nullHeap
  /-- `assert(size%SBSIZE == 0)`. -/
  | notMultiple
  deriving Repr, DecidableEq

namespace Heap

/-- Replace one descriptor. -/
def setDesc (heap : Heap) (k : Nat) (desc : Descriptor) : Heap :=
  { heap with desc := Function.update heap.desc k desc }

/-- Replace one anchor, the effect of a successful exchange. -/
def setAnchor (heap : Heap) (k : Nat) (anchor : Anchor) : Heap :=
  heap.setDesc k { heap.desc k with anchor := anchor }

/-- Replace the free list of one thread and class. -/
def setCache (heap : Heap) (thread sc : Nat) (cache : FreeList) : Heap :=
  { heap with
    cache :=
      Function.update heap.cache thread
        (Function.update (heap.cache thread) sc cache) }

/-- Replace the partial list of one heap. -/
def setPartial (heap : Heap) (sc : Nat) (stack : List Nat) : Heap :=
  { heap with partialList := Function.update heap.partialList sc stack }

/-- `heap_push_partial`. -/
def heapPushPartial (heap : Heap) (k : Nat) : Except Fault Heap :=
  match (heap.desc k).heap with
  | none => .error .nullHeap
  | some sc => .ok (heap.setPartial sc (k :: heap.partialList sc))

end Heap

/-- `compute_idx`: the index of a block in its superblock. -/
def computeIdx (superblock block sc : Nat) : Nat :=
  u64Sub block superblock % 2 ^ 32 / ClassSize.indexToSize sc

namespace BaseMeta

variable (region : SbRegion)

/-- Construct one descriptor and push its index on the queue. -/
def enqueueBlank (k : Nat) (heap : Heap) : Except Fault Heap :=
  if heap.queue.length = queueSize - 1 then
    .error .queueFull
  else
    .ok { heap.setDesc k .blank with queue := heap.queue ++ [k] }

/-- The loop of `organize_sb_list` over the remaining descriptors. -/
def enqueueFrom : Nat → Nat → Heap → Except Fault Heap
  | _, 0, heap => .ok heap
  | k, more + 1, heap => do
      let heap ← enqueueBlank k heap
      enqueueFrom (k + 1) more heap

/-- `organize_sb_list`. -/
def organizeSbList
    (start count : Nat)
    (heap : Heap) : Except Fault Heap := do
  let first := region.owner start
  let heap ← enqueueBlank first heap
  enqueueFrom (first + 1) (count - 1) heap

/-- `small_sb_alloc(SBSIZE)`. -/
def smallSbAlloc (heap : Heap) : Except Fault (Nat × Heap) :=
  match heap.queue with
  | k :: rest => .ok (region.sbAddr k, { heap with queue := rest })
  | [] =>
      let res := Region.alignUp heap.currAddr pageSize
      let next := res + sbRegionExpandSize
      if region.limit < next then
        .error .outOfSpace
      else do
        let heap ←
          organizeSbList region (res + sbSize)
            (sbRegionExpandSize / sbSize - 1)
            { heap with currAddr := next }
        return (res, heap.setDesc (region.owner res) .blank)

/-- `small_sb_retire(sb, SBSIZE)`: the descriptor is erased. -/
def smallSbRetire (superblock : Nat) (heap : Heap) : Heap :=
  heap.setDesc (region.owner superblock) .blank

/-- `large_sb_retire`. -/
def largeSbRetire
    (superblock size : Nat)
    (heap : Heap) : Except Fault Heap :=
  if size % sbSize ≠ 0 then
    .error .notMultiple
  else
    organizeSbList region superblock (size / sbSize) heap

/--
The inner loop of `flush_cache`: from `tail`, follow links while they stay in
the superblock, at most `fuel` times.  Returns the last block and the number of
blocks gathered.
-/
def gatherRun (memory : Memory) (superblock : Nat) :
    Nat → Nat → Nat → Nat × Nat
  | 0, tail, blockCount => (tail, blockCount)
  | fuel + 1, tail, blockCount =>
      let ptr := readLink memory tail
      if ptr < superblock ∨ superblock + sbSize ≤ ptr then
        (tail, blockCount)
      else
        gatherRun memory superblock fuel ptr (blockCount + 1)

/-- The new anchor of the exchange in `flush_cache`. -/
def flushAnchor (old : Anchor) (idx blockCount maxcount : Nat) : Anchor :=
  if old.count + blockCount = maxcount then
    { avail := idx, count := maxcount - 1, state := .sbEmpty }
  else
    { avail := idx
      count := old.count + blockCount
      state := if old.state = .sbFull then .sbPartial else old.state }

/-- One round of the outer loop of `flush_cache`. -/
def flushRun (thread sc : Nat) (heap : Heap) : Except Fault Heap :=
  let cache := heap.cache thread sc
  let head := cache.list
  let k := region.owner head
  let desc := heap.desc k
  let superblock := desc.superblock
  let (tail, blockCount) :=
    gatherRun heap.memory superblock (cache.size - 1) head 1
  let idx := computeIdx superblock head sc
  let old := desc.anchor
  let new := flushAnchor old idx blockCount desc.maxcount
  let flushed :=
    { (heap.setCache thread sc
        (cache.popList (readLink heap.memory tail) blockCount)).setAnchor
          k new with
      memory :=
        writeLink heap.memory tail
          (superblock + old.avail * ClassSize.indexToSize sc) }
  if old.state = .sbFull then
    if new.state = .sbEmpty then
      .ok (smallSbRetire region superblock flushed)
    else
      flushed.heapPushPartial k
  else
    .ok flushed

/-- The outer loop of `flush_cache`; every round takes at least one block. -/
def flushLoop (thread sc : Nat) : Nat → Heap → Except Fault Heap
  | 0, heap => .ok heap
  | fuel + 1, heap =>
      if 0 < (heap.cache thread sc).size then do
        let heap ← flushRun region thread sc heap
        flushLoop thread sc fuel heap
      else
        .ok heap

/-- `flush_cache`. -/
def flushCache (thread sc : Nat) (heap : Heap) : Except Fault Heap :=
  flushLoop region thread sc (heap.cache thread sc).size heap

/--
The loop `while(num<max_flist_num&&cur!=nullptr)` of both refills: returns
`prev`, `cur` and `num`.
-/
def takeLoop (memory : Memory) : Nat → Nat → Nat → Nat → Nat × Nat × Nat
  | 0, prev, cur, num => (prev, cur, num)
  | fuel + 1, prev, cur, num =>
      if cur = 0 then
        (prev, cur, num)
      else
        takeLoop memory fuel cur (readLink memory cur) (num + 1)

/--
`malloc_from_partial` with the descriptors still on the partial list: the
number of blocks obtained and the heap.
-/
def mallocFromPartialLoop (thread sc : Nat) :
    List Nat → Heap → Except Fault (Nat × Heap)
  | [], heap => .ok (0, heap)
  | k :: rest, popping =>
      let heap := popping.setPartial sc rest
      let desc := heap.desc k
      let old := desc.anchor
      let superblock := desc.superblock
      let cache := heap.cache thread sc
      let maxFlistNum := cache.maxsize
      let block := superblock + old.avail * desc.blockSize
      if old.count ≤ maxFlistNum then
        if old.state = .sbEmpty then
          mallocFromPartialLoop thread sc rest
            (smallSbRetire region superblock heap)
        else if old.state ≠ .sbPartial then
          .error .notPartial
        else
          .ok (old.count,
            (heap.setAnchor k
              { avail := desc.maxcount, count := 0, state := .sbFull }).setCache
                thread sc (cache.pushList block old.count))
      else if old.state = .sbEmpty then
        mallocFromPartialLoop thread sc rest
          (smallSbRetire region superblock heap)
      else do
        let (tail, newhead, num) :=
          takeLoop heap.memory maxFlistNum block block 0
        let idx := computeIdx superblock newhead sc
        let taken :=
          { heap.setAnchor k
              { avail := idx
                count := old.count - num
                state := .sbPartial } with
            memory := writeLink heap.memory tail 0 }
        let pushed ← taken.heapPushPartial k
        return (num,
          pushed.setCache thread sc
            ((cache.pushList block num).growMaxSize
              maxFlistNum desc.maxcount))

/-- `malloc_from_partial`. -/
def mallocFromPartial (thread sc : Nat) (heap : Heap) :
    Except Fault (Nat × Heap) :=
  mallocFromPartialLoop region thread sc (heap.partialList sc) heap

/-- The loop of `malloc_from_newsb` that links every block to the next one. -/
def linkBlocks (superblock blockSize : Nat) : Nat → Memory → Memory
  | 0, memory => memory
  | idx + 1, memory =>
      writeLink (linkBlocks superblock blockSize idx memory)
        (superblock + idx * blockSize)
        (superblock + (idx + 1) * blockSize)

/-- `malloc_from_newsb`. -/
def mallocFromNewsb (thread sc : Nat) (heap : Heap) :
    Except Fault (Nat × Heap) := do
  let blockSize := ClassSize.indexToSize sc
  let maxcount := sbSize / blockSize
  let (superblock, heap) ← smallSbAlloc region heap
  let k := region.owner superblock
  let desc : Descriptor :=
    { heap.desc k with
      heap := some sc
      blockSize := blockSize
      maxcount := maxcount
      superblock := superblock }
  let cache := heap.cache thread sc
  let maxFlistNum := cache.maxsize
  let linked := linkBlocks superblock blockSize (maxcount - 1) heap.memory
  if maxcount ≤ maxFlistNum then
    let anchor : Anchor :=
      { avail := maxcount, count := 0, state := .sbFull }
    return (maxcount,
      { (heap.setDesc k { desc with anchor := anchor }).setCache thread sc
          ((cache.pushList superblock maxcount).growMaxSize
            maxFlistNum maxcount) with
        memory := linked })
  else
    let (tail, newhead, num) :=
      takeLoop linked maxFlistNum superblock superblock 0
    let anchor : Anchor :=
      { avail := computeIdx superblock newhead sc
        count := maxcount - num
        state := .sbPartial }
    let pushed ←
      { heap.setDesc k { desc with anchor := anchor } with
        memory := writeLink linked tail 0 }.heapPushPartial k
    return (maxFlistNum,
      pushed.setCache thread sc
        ((cache.pushList superblock maxFlistNum).growMaxSize
          maxFlistNum maxcount))

/-- `fill_cache`: the number of blocks obtained and the heap. -/
def fillCache (thread sc : Nat) (heap : Heap) :
    Except Fault (Nat × Heap) := do
  let (blockNum, heap) ← mallocFromPartial region thread sc heap
  if blockNum = 0 then
    mallocFromNewsb region thread sc heap
  else
    return (blockNum, heap)

/-- The branch of `do_malloc` for sizes above `MAX_SZ`. -/
def mallocWholeSb (size : Nat) (heap : Heap) :
    Except Fault (Nat × Heap) := do
  let sbs := ClassSize.roundUpTo size sbSize
  if sbSize < size ∨ sbSize < sbs then
    throw .tooLarge
  let (ptr, heap) ← smallSbAlloc region heap
  let desc : Descriptor :=
    { anchor := { avail := 0, count := 0, state := .sbFull }
      superblock := ptr
      heap := some nlist
      blockSize := sbs
      maxcount := 1 }
  return (ptr, heap.setDesc (region.owner ptr) desc)

/-- `do_malloc`. -/
def doMalloc (thread size : Nat) (heap : Heap) :
    Except Fault (Nat × Heap) :=
  if maxSz < size then
    mallocWholeSb region size heap
  else
    match ClassSize.sizeToIndex (ClassSize.roundUp size) with
    | none => .error .noClass
    | some sc => do
        let filled ←
          if (heap.cache thread sc).size = 0 then do
            let (_, filled) ← fillCache region thread sc heap
            pure filled
          else
            pure heap
        let (block, cache) := (filled.cache thread sc).pop filled.memory
        return (block, filled.setCache thread sc cache)

/-- `do_free`. -/
def doFree (thread ptr : Nat) (heap : Heap) : Except Fault Heap :=
  if ptr = 0 then
    .ok heap
  else if ¬ (region.start ≤ ptr ∧ ptr < heap.currAddr) then
    .error .outOfRange
  else
    let desc := heap.desc (region.owner ptr)
    match desc.heap with
    | none => .error .nullHeap
    | some sc =>
        if sc = nlist then
          largeSbRetire region desc.superblock desc.blockSize heap
        else do
          let cache := heap.cache thread sc
          let heap ←
            if cache.maxsize < cache.size then
              flushCache region thread sc heap
            else
              pure heap
          let (memory, cache) :=
            (heap.cache thread sc).push heap.memory ptr
          return { heap.setCache thread sc cache with memory := memory }

/-- The loop of `public_flush_cache` over the classes from `sc` on. -/
def flushClasses (thread : Nat) : Nat → Nat → Heap → Except Fault Heap
  | _, 0, heap => .ok heap
  | sc, more + 1, heap => do
      let heap ← flushCache region thread sc heap
      flushClasses thread (sc + 1) more heap

/-- `public_flush_cache`. -/
def publicFlushCache (thread : Nat) (heap : Heap) : Except Fault Heap :=
  flushClasses region thread 0 nlist heap

/--
The constructor `BaseMeta::BaseMeta` over a new heap file: one expansion, whose
superblocks but the first are queued.
-/
def create (memory : Memory) : Except Fault Heap :=
  let next := region.start + sbRegionExpandSize
  if region.limit < next then
    .error .outOfSpace
  else
    organizeSbList region (region.start + sbSize)
      (sbRegionExpandSize / sbSize - 1)
      { memory := memory
        desc := fun _ => .blank
        partialList := fun _ => []
        queue := []
        currAddr := next
        cache := fun _ sc => freshFreeList sc
        live := [] }

end BaseMeta

end Bxalloc
