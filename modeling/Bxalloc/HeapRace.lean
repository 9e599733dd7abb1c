import Bxalloc.AnchorRace
import Bxalloc.HeapRuns

namespace Bxalloc

/-!
# Threads racing on the whole allocator

`do_malloc`, `do_free` and the end of a thread, by threads that interleave: one
access to an anchor, a partial list, the queue or `curr_addr` a step.  The work
of a thread on memory that only it uses belongs to an access next to it.

Partial lists are stacks and the queue is a bounded FIFO of descriptor indices,
and their operations are single steps.  A failed assertion stops the program.
-/

open Lib

namespace HeapRace

/-- Why a thread is in `flush_cache`. -/
inductive Purpose where
  /-- `do_free` makes room for a block. -/
  | free (block : Nat)
  /-- `~ThreadCache` calls `public_flush_cache`. -/
  | exit
  deriving Repr, DecidableEq

/-- Why a thread is in `small_sb_alloc`. -/
inductive Request where
  /-- `malloc_from_newsb`. -/
  | newsb (sc : Nat)
  /-- `do_malloc` above `MAX_SZ`. -/
  | whole (sbs : Nat)
  deriving Repr, DecidableEq

/-- The variables of one round of `flush_cache`. -/
structure Run where
  sc : Nat
  /-- `desc`. -/
  k : Nat
  superblock : Nat
  head : Nat
  tail : Nat
  blockCount : Nat
  idx : Nat
  purpose : Purpose
  deriving Repr, DecidableEq

/-- What a thread does next. -/
inductive Pc where
  | idle
  /-- `do_malloc` calls `Pop`. -/
  | popCache (sc : Nat)
  /-- `malloc_from_partial` calls `heap_pop_partial`. -/
  | popPartial (sc : Nat)
  /-- `malloc_from_partial` loads the anchor of descriptor `k`. -/
  | refillLoad (sc k : Nat)
  /-- It exchanges the anchor to take the whole chain. -/
  | takeAllCas (sc k : Nat) (old : Anchor)
  /-- It cuts the chain and exchanges the anchor. -/
  | takeSomeCas (sc k : Nat) (old : Anchor)
  /-- It tries the exchange again, with the chain cut. -/
  | takeSomeRetry (sc k head idx num : Nat) (old : Anchor)
  /-- It calls `heap_push_partial` and `PushList`. -/
  | refillPush (sc k head num : Nat)
  /-- It calls `small_sb_retire`. -/
  | refillRetire (sc k : Nat)
  /-- `small_sb_alloc` calls `_queue->pop`. -/
  | popQueue (request : Request)
  /-- `small_sb_alloc` loads `curr_addr`. -/
  | expandLoad (request : Request)
  /-- `small_sb_alloc` exchanges `curr_addr`. -/
  | expandCas (request : Request) (old : Nat)
  /-- `organize_sb_list` pushes descriptor `k` and `more` behind it. -/
  | organize (k more : Nat) (after : Option (Request × Nat))
  /-- `small_sb_alloc` returned. -/
  | useSb (request : Request) (superblock : Nat)
  /-- `malloc_from_newsb` calls `heap_push_partial` and `PushList`. -/
  | newsbPush (sc superblock num : Nat)
  /-- `flush_cache` takes a run off the list and loads the anchor. -/
  | flushLoad (sc : Nat) (purpose : Purpose)
  /-- `flush_cache` links the run to the chain and exchanges the anchor. -/
  | flushCas (run : Run) (old : Anchor)
  /-- `flush_cache` calls `heap_push_partial`. -/
  | flushPush (run : Run)
  /-- `flush_cache` calls `small_sb_retire`. -/
  | flushRetire (run : Run)
  /-- `do_free` calls `Push`. -/
  | pushCache (sc block : Nat)
  deriving Repr, DecidableEq

/-- The allocator and where every thread is in it. -/
structure State where
  heap : Heap
  pc : Nat → Pc

/-- Calls and steps of threads; a weak exchange may fail for no reason. -/
inductive Action where
  | malloc (thread size : Nat)
  | free (thread ptr : Nat)
  | exit (thread : Nat)
  | store (address : Nat) (byte : UInt8)
  | run (thread : Nat) (spurious : Bool)
  deriving Repr, DecidableEq

/-- The heap a thread leaves, and where it goes. -/
def State.next
    (state : State)
    (thread : Nat)
    (heap : Heap)
    (pc : Pc) : State :=
  { heap := heap, pc := Function.update state.pc thread pc }

/-- `fill_cache` behind `malloc_from_partial`. -/
def afterRefill (sc blockNum : Nat) : Pc :=
  if blockNum = 0 then .popQueue (.newsb sc) else .popCache sc

/-- `flush_cache` behind its exchange. -/
def afterFlush (run : Run) (old new : Anchor) : Pc :=
  if old.state = .sbFull then
    if new.state = .sbEmpty then .flushRetire run else .flushPush run
  else
    .flushLoad run.sc run.purpose

/-- `heap_push_partial`, after which the thread goes on. -/
def pushPartial
    (state : State)
    (thread k : Nat)
    (finish : Heap → Heap)
    (pc : Pc) : Option State :=
  match state.heap.heapPushPartial k with
  | .error _ => none
  | .ok pushed => some (state.next thread (finish pushed) pc)

/-- The descriptor that `malloc_from_newsb` writes. -/
def newsbDesc
    (heap : Heap)
    (sc k superblock : Nat)
    (anchor : Anchor) : Descriptor :=
  { heap.desc k with
    anchor := anchor
    heap := some sc
    blockSize := ClassSize.indexToSize sc
    maxcount := sbSize / ClassSize.indexToSize sc
    superblock := superblock }

/-- `small_sb_alloc` returned to its caller. -/
def useSb
    (region : SbRegion)
    (state : State)
    (thread superblock : Nat) : Request → State
  | .newsb sc =>
      let heap := state.heap
      let k := region.owner superblock
      let blockSize := ClassSize.indexToSize sc
      let maxcount := sbSize / blockSize
      let cache := heap.cache thread sc
      let maxFlistNum := cache.maxsize
      let linked :=
        BaseMeta.linkBlocks superblock blockSize (maxcount - 1) heap.memory
      if maxcount ≤ maxFlistNum then
        let anchor : Anchor :=
          { avail := maxcount, count := 0, state := .sbFull }
        state.next thread
          { (heap.setDesc k (newsbDesc heap sc k superblock anchor)).setCache
              thread sc
              ((cache.pushList superblock maxcount).growMaxSize
                maxFlistNum maxcount) with
            memory := linked }
          (.popCache sc)
      else
        let (tail, newhead, num) :=
          BaseMeta.takeLoop linked maxFlistNum superblock superblock 0
        let anchor : Anchor :=
          { avail := computeIdx superblock newhead sc
            count := maxcount - num
            state := .sbPartial }
        state.next thread
          { heap.setDesc k (newsbDesc heap sc k superblock anchor) with
            memory := writeLink linked tail 0 }
          (.newsbPush sc superblock maxFlistNum)
  | .whole sbs =>
      let desc : Descriptor :=
        { anchor := { avail := 0, count := 0, state := .sbFull }
          superblock := superblock
          heap := some nlist
          blockSize := sbs
          maxcount := 1 }
      state.next thread
        { state.heap.setDesc (region.owner superblock) desc with
          live := superblock :: state.heap.live }
        .idle

/-- `organize_sb_list` pushed its last descriptor. -/
def organized
    (region : SbRegion)
    (state : State)
    (thread : Nat)
    (queued : Heap) : Option (Request × Nat) → State
  | none => state.next thread queued .idle
  | some (request, res) =>
      state.next thread (queued.setDesc (region.owner res) .blank)
        (.useSb request res)

/-- One round of `flush_cache` up to the load of the anchor, or its end. -/
def flushLoad
    (region : SbRegion)
    (state : State)
    (thread sc : Nat)
    (purpose : Purpose) : State :=
  let heap := state.heap
  let cache := heap.cache thread sc
  if 0 < cache.size then
    let head := cache.list
    let k := region.owner head
    let superblock := (heap.desc k).superblock
    let (tail, blockCount) :=
      BaseMeta.gatherRun heap.memory superblock (cache.size - 1) head 1
    state.next thread
      (heap.setCache thread sc
        (cache.popList (readLink heap.memory tail) blockCount))
      (.flushCas
        { sc := sc
          k := k
          superblock := superblock
          head := head
          tail := tail
          blockCount := blockCount
          idx := computeIdx superblock head sc
          purpose := purpose }
        (heap.desc k).anchor)
  else
    match purpose with
    | .free block => state.next thread heap (.pushCache sc block)
    | .exit =>
        if sc + 1 < nlist then
          state.next thread heap (.flushLoad (sc + 1) .exit)
        else
          state.next thread (heap.endThread thread) .idle

/-- The next step of a thread. -/
def advance
    (region : SbRegion)
    (state : State)
    (thread : Nat)
    (spurious : Bool) : Option State :=
  let heap := state.heap
  match state.pc thread with
  | .idle => none
  | .popCache sc =>
      let (block, cache) := (heap.cache thread sc).pop heap.memory
      some (state.next thread
        { heap.setCache thread sc cache with live := block :: heap.live }
        .idle)
  | .popPartial sc =>
      match heap.partialList sc with
      | [] => some (state.next thread heap (.popQueue (.newsb sc)))
      | k :: rest =>
          some (state.next thread (heap.setPartial sc rest)
            (.refillLoad sc k))
  | .refillLoad sc k =>
      let old := (heap.desc k).anchor
      if old.count ≤ (heap.cache thread sc).maxsize then
        some (state.next thread heap (.takeAllCas sc k old))
      else if old.state = .sbEmpty then
        some (state.next thread heap (.refillRetire sc k))
      else
        some (state.next thread heap (.takeSomeCas sc k old))
  | .takeAllCas sc k old =>
      let desc := heap.desc k
      if old.state = .sbEmpty then
        some (state.next thread heap (.refillRetire sc k))
      else if old.state ≠ .sbPartial then
        none
      else if desc.anchor = old ∧ spurious = false then
        some (state.next thread
          ((heap.setAnchor k
            { avail := desc.maxcount
              count := 0
              state := .sbFull }).setCache thread sc
            ((heap.cache thread sc).pushList
              (desc.superblock + old.avail * desc.blockSize) old.count))
          (afterRefill sc old.count))
      else
        some (state.next thread heap (.takeAllCas sc k desc.anchor))
  | .takeSomeCas sc k old =>
      let desc := heap.desc k
      let head := desc.superblock + old.avail * desc.blockSize
      let (tail, newhead, num) :=
        BaseMeta.takeLoop heap.memory (heap.cache thread sc).maxsize head
          head 0
      let idx := computeIdx desc.superblock newhead sc
      let cut := { heap with memory := writeLink heap.memory tail 0 }
      if desc.anchor = old ∧ spurious = false then
        some (state.next thread
          (cut.setAnchor k (AnchorRace.restAnchor old idx num))
          (.refillPush sc k head num))
      else
        some (state.next thread cut
          (.takeSomeRetry sc k head idx num desc.anchor))
  | .takeSomeRetry sc k head idx num old =>
      let desc := heap.desc k
      if desc.anchor = old ∧ spurious = false then
        some (state.next thread
          (heap.setAnchor k (AnchorRace.restAnchor old idx num))
          (.refillPush sc k head num))
      else
        some (state.next thread heap
          (.takeSomeRetry sc k head idx num desc.anchor))
  | .refillPush sc k head num =>
      let cache := heap.cache thread sc
      pushPartial state thread k
        (fun pushed =>
          pushed.setCache thread sc
            ((cache.pushList head num).growMaxSize cache.maxsize
              (heap.desc k).maxcount))
        (afterRefill sc num)
  | .refillRetire sc k =>
      some (state.next thread
        (BaseMeta.smallSbRetire region (heap.desc k).superblock heap)
        (.popPartial sc))
  | .popQueue request =>
      match heap.queue with
      | k :: rest =>
          some (state.next thread { heap with queue := rest }
            (.useSb request (region.sbAddr k)))
      | [] => some (state.next thread heap (.expandLoad request))
  | .expandLoad request =>
      if region.limit <
          Region.alignUp heap.currAddr pageSize + sbRegionExpandSize then
        none
      else
        some (state.next thread heap (.expandCas request heap.currAddr))
  | .expandCas request old =>
      if heap.currAddr = old then
        let res := Region.alignUp old pageSize
        let first := region.owner (res + sbSize)
        some (state.next thread
          (({ heap with
            currAddr := res + sbRegionExpandSize } : Heap).setDesc first
              .blank)
          (.organize first (sbRegionExpandSize / sbSize - 1 - 1)
            (some (request, res))))
      else
        some (state.next thread heap (.popQueue request))
  | .organize k more after =>
      if heap.queue.length = queueSize - 1 then
        none
      else
        let queued := { heap with queue := heap.queue ++ [k] }
        match more with
        | 0 => some (organized region state thread queued after)
        | more + 1 =>
            some (state.next thread (queued.setDesc (k + 1) .blank)
              (.organize (k + 1) more after))
  | .useSb request superblock =>
      some (useSb region state thread superblock request)
  | .newsbPush sc superblock num =>
      let cache := heap.cache thread sc
      pushPartial state thread (region.owner superblock)
        (fun pushed =>
          pushed.setCache thread sc
            ((cache.pushList superblock num).growMaxSize num
              (sbSize / ClassSize.indexToSize sc)))
        (.popCache sc)
  | .flushLoad sc purpose =>
      some (flushLoad region state thread sc purpose)
  | .flushCas run old =>
      let desc := heap.desc run.k
      let new :=
        BaseMeta.flushAnchor old run.idx run.blockCount desc.maxcount
      let linked :=
        { heap with
          memory :=
            writeLink heap.memory run.tail
              (run.superblock +
                old.avail * ClassSize.indexToSize run.sc) }
      if desc.anchor = old ∧ spurious = false then
        some (state.next thread (linked.setAnchor run.k new)
          (afterFlush run old new))
      else
        some (state.next thread linked (.flushCas run desc.anchor))
  | .flushPush run =>
      pushPartial state thread run.k id (.flushLoad run.sc run.purpose)
  | .flushRetire run =>
      some (state.next thread
        (BaseMeta.smallSbRetire region run.superblock heap)
        (.flushLoad run.sc run.purpose))
  | .pushCache sc block =>
      let (memory, cache) := (heap.cache thread sc).push heap.memory block
      some (state.next thread
        { heap.setCache thread sc cache with memory := memory }
        .idle)

/-- `do_malloc` up to its first access. -/
def doMalloc (heap : Heap) (thread size : Nat) : Option Pc :=
  if maxSz < size then
    let sbs := ClassSize.roundUpTo size sbSize
    if sbSize < size ∨ sbSize < sbs then none
    else some (.popQueue (.whole sbs))
  else
    (ClassSize.sizeToIndex (ClassSize.roundUp size)).map fun sc =>
      if (heap.cache thread sc).size = 0 then .popPartial sc
      else .popCache sc

/-- `do_free` up to its first access; the user gives the block up. -/
def doFree
    (region : SbRegion)
    (state : State)
    (thread ptr : Nat) : Option State :=
  let heap := state.heap
  if ¬ (region.start ≤ ptr ∧ ptr < heap.currAddr) then
    none
  else
    let desc := heap.desc (region.owner ptr)
    let freed := { heap with live := heap.live.erase ptr }
    match desc.heap with
    | none => none
    | some sc =>
        if sc = nlist then
          if desc.blockSize % sbSize ≠ 0 then
            none
          else
            let first := region.owner desc.superblock
            some (state.next thread (freed.setDesc first .blank)
              (.organize first (desc.blockSize / sbSize - 1) none))
        else if (heap.cache thread sc).maxsize < (heap.cache thread sc).size
        then
          some (state.next thread freed (.flushLoad sc (.free ptr)))
        else
          some (state.next thread freed (.pushCache sc ptr))

/-- One step, if it can be taken. -/
def step (region : SbRegion) (state : State) : Action → Option State
  | .malloc thread size =>
      if state.pc thread = .idle then
        (doMalloc state.heap thread size).map
          (state.next thread state.heap)
      else
        none
  | .free thread ptr =>
      if state.pc thread = .idle ∧ ptr ∈ state.heap.live then
        doFree region state thread ptr
      else
        none
  | .exit thread =>
      if state.pc thread = .idle then
        some (state.next thread state.heap (.flushLoad 0 .exit))
      else
        none
  | .store address byte =>
      if ∃ block ∈ state.heap.live,
          block ≤ address ∧
            address <
              block +
                (state.heap.desc (region.owner block)).blockSize then
        some { state with
          heap :=
            { state.heap with
              memory := state.heap.memory.store8 address byte } }
      else
        none
  | .run thread spurious =>
      advance region state thread spurious

/-- Between calls; a new and a recovered heap satisfy the invariant. -/
def Initial (region : SbRegion) (state : State) : Prop :=
  Heap.Inv region state.heap ∧ ∀ thread, state.pc thread = .idle

/-- Steps of the program. -/
def Step
    (region : SbRegion)
    (before : State)
    (action : Action)
    (after : State) : Prop :=
  step region before action = some after

/-- The exchange that takes part of a chain is on the anchor it loaded. -/
def FirstTry (heap : Heap) (spurious : Bool) : Pc → Prop
  | .takeSomeCas _ k old => (heap.desc k).anchor = old ∧ spurious = false
  | _ => True

/-- An exchange that takes part of a chain succeeds at its first attempt. -/
def CleanStep
    (region : SbRegion)
    (before : State)
    (action : Action)
    (after : State) : Prop :=
  Step region before action after ∧
    ∀ thread spurious,
      action = .run thread spurious →
      FirstTry before.heap spurious (before.pc thread)

end HeapRace

end Bxalloc
