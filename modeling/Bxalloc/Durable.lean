import Bxalloc.HeapRuns

namespace Bxalloc

/-!
# Descriptors in persistent memory

A descriptor fills one cache line.  `Heap.desc` is the volatile image of these
lines; this module adds the persisted image and says which lines each function
of `BaseMeta.cpp` writes back, in the order of its `FLUSH` and `FLUSHFENCE`
pairs.

Two flushes name a descriptor: `FLUSH(this)` in its constructor, when the line
is blank, and `FLUSH(&desc->anchor)` in `malloc_from_partial`.  All the others
are `FLUSH(&desc)`, which names the local variable `desc` and so writes back a
line of the stack.
-/

open Lib (Reaches)

/-- A descriptor line with the contents it is written back with. -/
abbrev DescLine := Nat × Descriptor

/-- The persisted image after some lines were written back, in order. -/
def writeBack
    (lines : List DescLine)
    (persisted : Nat → Descriptor) : Nat → Descriptor :=
  lines.foldl
    (fun image line => Function.update image line.1 line.2) persisted

@[simp]
theorem writeBack_nil
    (persisted : Nat → Descriptor) :
    writeBack [] persisted = persisted :=
  rfl

@[simp]
theorem writeBack_cons
    (line : DescLine)
    (lines : List DescLine)
    (persisted : Nat → Descriptor) :
    writeBack (line :: lines) persisted =
      writeBack lines (Function.update persisted line.1 line.2) :=
  rfl

@[simp]
theorem writeBack_append
    (earlier later : List DescLine)
    (persisted : Nat → Descriptor) :
    writeBack (earlier ++ later) persisted =
      writeBack later (writeBack earlier persisted) :=
  List.foldl_append

namespace BaseMeta

variable (region : SbRegion)

/-- `new (desc) Descriptor()` flushes the blank line. -/
def constructedLine (k : Nat) : DescLine :=
  (k, .blank)

/-- The lines of the loop of `organize_sb_list`. -/
def enqueueFromLines : Nat → Nat → List DescLine
  | _, 0 => []
  | k, more + 1 => constructedLine k :: enqueueFromLines (k + 1) more

/-- The lines `organize_sb_list` writes back. -/
def organizeSbListLines (start count : Nat) : List DescLine :=
  let first := region.owner start
  constructedLine first :: enqueueFromLines (first + 1) (count - 1)

/-- The lines `small_sb_alloc` writes back. -/
def smallSbAllocLines (heap : Heap) : List DescLine :=
  match heap.queue with
  | _ :: _ => []
  | [] =>
      let res := Region.alignUp heap.currAddr pageSize
      organizeSbListLines region (res + sbSize)
          (sbRegionExpandSize / sbSize - 1) ++
        [constructedLine (region.owner res)]

/-- The line `small_sb_retire` writes back. -/
def smallSbRetireLines (superblock : Nat) : List DescLine :=
  [constructedLine (region.owner superblock)]

/-- The lines one round of `flush_cache` writes back. -/
def flushRunLines (thread sc : Nat) (heap : Heap) : List DescLine :=
  let cache := heap.cache thread sc
  let head := cache.list
  let desc := heap.desc (region.owner head)
  let superblock := desc.superblock
  let (_, blockCount) :=
    gatherRun heap.memory superblock (cache.size - 1) head 1
  let idx := computeIdx superblock head sc
  let old := desc.anchor
  let new := flushAnchor old idx blockCount desc.maxcount
  if old.state = .sbFull then
    if new.state = .sbEmpty then
      smallSbRetireLines region superblock
    else
      []
  else
    []

/-- The lines the outer loop of `flush_cache` writes back. -/
def flushLoopLines (thread sc : Nat) : Nat → Heap → List DescLine
  | 0, _ => []
  | fuel + 1, heap =>
      if 0 < (heap.cache thread sc).size then
        flushRunLines region thread sc heap ++
          match flushRun region thread sc heap with
          | .ok heap => flushLoopLines thread sc fuel heap
          | .error _ => []
      else
        []

/-- The lines `flush_cache` writes back. -/
def flushCacheLines (thread sc : Nat) (heap : Heap) : List DescLine :=
  flushLoopLines region thread sc (heap.cache thread sc).size heap

/-- The lines `malloc_from_partial` writes back. -/
def mallocFromPartialLoopLines (thread sc : Nat) :
    List Nat → Heap → List DescLine
  | [], _ => []
  | k :: rest, popping =>
      let heap := popping.setPartial sc rest
      let desc := heap.desc k
      let old := desc.anchor
      let superblock := desc.superblock
      let maxFlistNum := (heap.cache thread sc).maxsize
      let block := superblock + old.avail * desc.blockSize
      if old.state = .sbEmpty then
        smallSbRetireLines region superblock ++
          mallocFromPartialLoopLines thread sc rest
            (smallSbRetire region superblock heap)
      else if old.count ≤ maxFlistNum then
        []
      else
        let (_, newhead, num) :=
          takeLoop heap.memory maxFlistNum block block 0
        let anchor : Anchor :=
          { avail := computeIdx superblock newhead sc
            count := old.count - num
            state := .sbPartial }
        [(k, { desc with anchor := anchor })]

/-- The lines `fill_cache` writes back. -/
def fillCacheLines (thread sc : Nat) (heap : Heap) : List DescLine :=
  mallocFromPartialLoopLines region thread sc (heap.partialList sc) heap ++
    match mallocFromPartial region thread sc heap with
    | .ok (blockNum, heap) =>
        if blockNum = 0 then
          smallSbAllocLines region heap
        else
          []
    | .error _ => []

/-- The lines `do_malloc` writes back. -/
def doMallocLines (thread size : Nat) (heap : Heap) : List DescLine :=
  if maxSz < size then
    smallSbAllocLines region heap
  else
    match ClassSize.sizeToIndex (ClassSize.roundUp size) with
    | none => []
    | some sc =>
        if (heap.cache thread sc).size = 0 then
          fillCacheLines region thread sc heap
        else
          []

/-- The lines `do_free` writes back. -/
def doFreeLines (thread ptr : Nat) (heap : Heap) : List DescLine :=
  if ptr = 0 then
    []
  else
    let desc := heap.desc (region.owner ptr)
    match desc.heap with
    | none => []
    | some sc =>
        if sc = nlist then
          organizeSbListLines region desc.superblock
            (desc.blockSize / sbSize)
        else if (heap.cache thread sc).maxsize <
            (heap.cache thread sc).size then
          flushCacheLines region thread sc heap
        else
          []

/-- The lines of the loop of `public_flush_cache`. -/
def flushClassesLines (thread : Nat) : Nat → Nat → Heap → List DescLine
  | _, 0, _ => []
  | sc, more + 1, heap =>
      flushCacheLines region thread sc heap ++
        match flushCache region thread sc heap with
        | .ok heap => flushClassesLines thread (sc + 1) more heap
        | .error _ => []

/-- The lines one call writes back. -/
def callLines (heap : Heap) : Heap.Call → List DescLine
  | .malloc thread size => doMallocLines region thread size heap
  | .free thread ptr => doFreeLines region thread ptr heap
  | .exit thread => flushClassesLines region thread 0 nlist heap
  | .store _ _ => []

end BaseMeta

/-- The allocator with the persisted image of its descriptors. -/
structure Durable where
  heap : Heap
  persisted : Nat → Descriptor

/-- Two descriptors agree in the fields marked `RP_PERSIST`. -/
def Descriptor.SamePersist (first second : Descriptor) : Prop :=
  first.heap = second.heap ∧
    first.superblock = second.superblock ∧
    first.blockSize = second.blockSize ∧
    first.maxcount = second.maxcount

instance (first second : Descriptor) :
    Decidable (first.SamePersist second) :=
  inferInstanceAs (Decidable (_ ∧ _))

namespace Durable

variable {region : SbRegion}

/-- A new heap file: the constructor ran and no line names a heap. -/
def Initial (region : SbRegion) (state : Durable) : Prop :=
  state.heap.Fresh region ∧ ∀ k, (state.persisted k).heap = none

/-- A call, or `flush_region(DESC_IDX)` as at exit and after recovery. -/
inductive Event where
  | call (call : Heap.Call)
  | flushRegion

/-- One step on both images. -/
inductive Step (region : SbRegion) : Durable → Event → Durable → Prop where
  | call
      {before : Durable}
      {call : Heap.Call}
      {heap : Heap}
      (step : Heap.Step region before.heap call heap) :
      Step region before (.call call)
        { heap := heap
          persisted :=
            writeBack (BaseMeta.callLines region before.heap call)
              before.persisted }
  | flushRegion
      {before : Durable} :
      Step region before .flushRegion
        { heap := before.heap, persisted := before.heap.desc }

/--
Descriptor `k` is durable: its line is recognised as in use and carries the
fields of the volatile descriptor.
-/
def DurableAt (state : Durable) (k : Nat) : Prop :=
  (state.persisted k).heap ≠ none ∧
    (state.persisted k).SamePersist (state.heap.desc k)

/-- The state in which `do_malloc` returns. -/
def afterMalloc
    (region : SbRegion)
    (state : Durable)
    (thread size : Nat)
    (heap : Heap) : Durable where
  heap := heap
  persisted :=
    writeBack (BaseMeta.doMallocLines region thread size state.heap)
      state.persisted

/--
The request is served by a descriptor whose line was already written back with
its heap, or is written back by this call: it is small, and either its free
list holds a block of such a descriptor, or the first descriptor on the partial
list that is not empty has more blocks than the free list takes.
-/
def Prepared
    (region : SbRegion)
    (state : Durable)
    (thread size : Nat) : Prop :=
  size ≤ maxSz ∧
    ∃ sc,
      ClassSize.sizeToIndex (ClassSize.roundUp size) = some sc ∧
        if (state.heap.cache thread sc).size = 0 then
          ∃ k,
            (state.heap.partialList sc).find?
                (fun k => (state.heap.desc k).anchor.state ≠ .sbEmpty) =
              some k ∧
              ((state.heap.cache thread sc).maxsize <
                  (state.heap.desc k).anchor.count ∨
                (state.persisted k).heap ≠ none)
        else
          (state.persisted
            (region.owner (state.heap.cache thread sc).list)).heap ≠ none

end Durable

end Bxalloc
