import Bxalloc.BaseMeta
import Bxalloc.Lib.Worklist
import Mathlib.Data.Finset.Sort

namespace Bxalloc

/-!
# Recovery after a crash

`GarbageCollection::operator()` of `BaseMeta.cpp`.  It runs on the heap a crash
left: descriptors, block contents, `curr_addr` and the queue come from the
files, and the anchors are not used.  The mark phase collects the addresses
reachable from the roots with the default filter, which reads a `pptr` at every
byte of a block.  The sweep walks superblocks, descriptors and the sorted marks
together and rebuilds anchors and free chains.
-/

open Lib (Memory Marking)

namespace Gc

/-- Why the collection does not complete. -/
inductive Fault where
  /-- A loop does not end. -/
  | diverges
  /-- `assert(curr_desc->maxcount == 1)`. -/
  | notOne
  /-- `curr_desc->heap` is null. -/
  | nullHeap
  /-- `assert(free_blocks_head != nullptr)` and the test of its remainder. -/
  | badHead
  /-- `assert(curr_marked_blk == marked_blk.end())`. -/
  | marksLeft
  deriving Repr, DecidableEq

section Mark

variable (start : Nat) (image : Heap)

/-- `in_range(SB_IDX, addr)`; `start` is `regions_address[SB_IDX]`. -/
def InRange (addr : Nat) : Prop :=
  start ≤ addr ∧ addr < image.currAddr

instance (addr : Nat) : Decidable (InRange start image addr) :=
  inferInstanceAs (Decidable (_ ∧ _))

/-- `mark_func`: mark an address in range and push it, once. -/
def markFunc (marking : Marking Nat) (addr : Nat) : Marking Nat :=
  if ¬ InRange start image addr then
    marking
  else
    marking.visit addr

/-- One round of the loop of the default `filter_func`. -/
def filterByte (ptr : Nat) (marking : Marking Nat) (i : Nat) : Marking Nat :=
  let currContent := readLink image.memory (ptr + i)
  if currContent ≠ 0 then
    markFunc start image marking currContent
  else
    marking

/-- The default `filter_func`. -/
def filterFunc (marking : Marking Nat) (ptr : Nat) : Marking Nat :=
  let sz := (image.desc (sbIndex start ptr)).blockSize
  (List.range sz).foldl (filterByte start image ptr) marking

/-- One round of the loop over the roots. -/
def markRoot (marking : Marking Nat) (root : Nat) : Marking Nat :=
  if root ≠ 0 then
    markFunc start image marking root
  else
    marking

/-- The loop `while(!to_filter_node.empty())`, for at most `fuel` rounds. -/
def markLoop : Nat → Marking Nat → Except Fault (Marking Nat)
  | 0, marking =>
      match marking.stack with
      | [] => .ok marking
      | _ :: _ => .error .diverges
  | fuel + 1, marking =>
      match marking.stack with
      | [] => .ok marking
      | node :: rest =>
          markLoop fuel
            (filterFunc start image { marking with stack := rest } node)

/-- The mark phase; every round takes one address of the region. -/
def mark (roots : List Nat) : Except Fault (Marking Nat) :=
  markLoop start image (image.currAddr - start)
    (roots.foldl (markRoot start image) ⟨∅, []⟩)

end Mark

/-- The variables of one round of the sweep, and the blocks it writes to. -/
structure Rebuild where
  anchor : Anchor
  /-- `free_blocks_head`. -/
  head : Nat
  /-- `last_possible_free_block`. -/
  last : Nat
  memory : Memory

/-- Put `freeBlock` in front of the free blocks. -/
def Rebuild.link (rebuild : Rebuild) (freeBlock : Nat) : Rebuild :=
  { rebuild with
    anchor := { rebuild.anchor with count := rebuild.anchor.count + 1 }
    head := freeBlock
    memory := writeLink rebuild.memory freeBlock rebuild.head }

/-- The loop that links the blocks from `freeBlock` up to `bound`. -/
def linkFree (blockSize bound : Nat) :
    Nat → Nat → Rebuild → Except Fault Rebuild
  | 0, freeBlock, rebuild =>
      if freeBlock < bound then .error .diverges else .ok rebuild
  | fuel + 1, freeBlock, rebuild =>
      if freeBlock < bound then
        linkFree blockSize bound fuel (freeBlock + blockSize)
          (rebuild.link freeBlock)
      else
        .ok rebuild

/-- The loop above with fuel for steps of at least one byte. -/
def linkFreeUpTo
    (blockSize bound : Nat)
    (rebuild : Rebuild) : Except Fault Rebuild :=
  linkFree blockSize bound (bound - rebuild.last) rebuild.last rebuild

/-- What the sweep does with one mark in the current superblock. -/
def sweepMark
    (desc : Descriptor)
    (currSb mark : Nat)
    (rebuild : Rebuild) : Except Fault Rebuild :=
  match desc.heap with
  | none => .ok rebuild
  | some sc =>
      if desc.superblock ≠ currSb then
        .ok rebuild
      else if sc = nlist then
        if desc.maxcount ≠ 1 then
          .error .notOne
        else
          .ok { rebuild with anchor := { rebuild.anchor with state := .sbFull } }
      else do
        let linked ←
          linkFreeUpTo desc.blockSize mark
            { rebuild with
              anchor := { rebuild.anchor with state := .sbPartial } }
        return { linked with last := mark + desc.blockSize }

/-- The loop over the marks in the current superblock. -/
def sweepMarks (desc : Descriptor) (currSb : Nat) :
    List Nat → Rebuild → Except Fault (List Nat × Rebuild)
  | [], rebuild => .ok ([], rebuild)
  | mark :: rest, rebuild =>
      if currSb >>> sbShift = mark >>> sbShift then do
        let rebuild ← sweepMark desc currSb mark rebuild
        sweepMarks desc currSb rest rebuild
      else
        .ok (mark :: rest, rebuild)

/-- The state of the sweep between two superblocks. -/
structure Sweep where
  /-- `curr_sb`. -/
  currSb : Nat
  /-- The index of `curr_desc`. -/
  currDesc : Nat
  /-- The marks from `curr_marked_blk` on. -/
  marks : List Nat
  heap : Heap
  /-- The free superblocks linked from `avail_sb`. -/
  availSb : List Nat

variable (region : SbRegion)

/-- The end of a round for a small superblock in use. -/
def finishSmall
    (desc : Descriptor)
    (rebuild : Rebuild)
    (state : Sweep) : Except Fault Heap := do
  let bound :=
    state.currSb + desc.maxcount * desc.blockSize % 2 ^ 32
  let linked ← linkFreeUpTo desc.blockSize bound rebuild
  let heap := { state.heap with memory := linked.memory }
  if linked.anchor.count = 0 then
    return heap.setAnchor state.currDesc
      { avail := desc.maxcount, count := 0, state := .sbFull }
  else if linked.head = 0 then
    throw .badHead
  else if (linked.head - state.currSb) % desc.blockSize ≠ 0 then
    throw .badHead
  else
    let anchor : Anchor :=
      { avail := (linked.head - state.currSb) / desc.blockSize
        count := linked.anchor.count
        state := .sbPartial }
    match heap.heapPushPartial state.currDesc with
    | .error _ => throw .nullHeap
    | .ok pushed => return pushed.setAnchor state.currDesc anchor

/-- One round of the sweep. -/
def sweepStep (state : Sweep) : Except Fault Sweep := do
  let desc := state.heap.desc state.currDesc
  let (marks, rebuild) ←
    sweepMarks desc state.currSb state.marks
      { anchor := { avail := 0, count := 0, state := .sbEmpty }
        head := 0
        last := state.currSb
        memory := state.heap.memory }
  let heap := { state.heap with memory := rebuild.memory }
  if rebuild.anchor.state = .sbEmpty then
    return {
      currSb := state.currSb + sbSize
      currDesc := state.currDesc + 1
      marks := marks
      heap := heap.setDesc state.currDesc .blank
      availSb := state.currDesc :: state.availSb }
  else
    match desc.heap with
    | none => throw .nullHeap
    | some sc =>
        if sc = 0 then
          let next := state.currSb + desc.blockSize
          return {
            currSb := next
            currDesc := region.owner next
            marks := marks
            heap :=
              heap.setAnchor state.currDesc
                { avail := 0, count := 0, state := .sbFull }
            availSb := state.availSb }
        else
          let finished ← finishSmall desc rebuild { state with heap := heap }
          return {
            currSb := state.currSb + sbSize
            currDesc := state.currDesc + 1
            marks := marks
            heap := finished
            availSb := state.availSb }

/-- The loop `while(curr_sb < sb_end)`, for at most `fuel` rounds. -/
def sweepLoop (sbEnd : Nat) : Nat → Sweep → Except Fault Sweep
  | 0, state =>
      if state.currSb < sbEnd then .error .diverges else .ok state
  | fuel + 1, state =>
      if state.currSb < sbEnd then do
        let state ← sweepStep region state
        sweepLoop sbEnd fuel state
      else
        .ok state

/-- The partial lists of all heaps but `heaps[NLIST]` are emptied. -/
def clearPartial (image : Heap) : Heap :=
  { image with
    partialList := fun sc => if sc < nlist then [] else image.partialList sc }

/-- The state in which the sweep starts. -/
def sweepStart (image : Heap) (marked : Finset Nat) : Sweep where
  currSb := region.start + sbSize
  currDesc := region.owner (region.start + sbSize)
  marks := marked.sort
  heap := clearPartial image
  availSb := []

/-- Rounds enough for a sweep that moves by at least one byte each time. -/
def sweepFuel (image : Heap) : Nat :=
  image.currAddr - (region.start + sbSize)

/-- What the collection leaves, with its mark set. -/
structure Collected where
  heap : Heap
  marked : Finset Nat
  availSb : List Nat

/-- `GarbageCollection::operator()`. -/
def collect (roots : List Nat) (image : Heap) : Except Fault Collected := do
  let marking ← mark region.start image roots
  let final ←
    sweepLoop region image.currAddr (sweepFuel region image)
      (sweepStart region image marking.marked)
  if final.marks ≠ [] then
    throw .marksLeft
  else
    return {
      heap := final.heap
      marked := marking.marked
      availSb := final.availSb }

end Gc

end Bxalloc
