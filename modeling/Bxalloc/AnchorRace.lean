import Bxalloc.HeapRefill
import Bxalloc.Lib.Reach

namespace Bxalloc

/-!
# Threads racing on one superblock

`flush_cache` and `malloc_from_partial` on one superblock of a size class, one
atomic access to the anchor or to the partial list a step.  The work of a
thread on memory that only it uses belongs to the access that follows it.

The free lists of the threads are seen through the blocks of this superblock.
Blocks of other superblocks in a free list end a run of `flush_cache`, so a
flush may take any leading part of the list.
-/

open Lib

namespace AnchorRace

/-- A superblock of a size class. -/
structure Superblock where
  start : Nat
  sc : Nat
  positive : 0 < start
  userSpace : start + sbSize ≤ 2 ^ 47
  small : sc < nlist

namespace Superblock

/-- `desc->block_size`. -/
def blockSize (sb : Superblock) : Nat :=
  ClassSize.indexToSize sb.sc

/-- `desc->maxcount`. -/
def maxcount (sb : Superblock) : Nat :=
  sbSize / sb.blockSize

/-- The address of a block. -/
def block (sb : Superblock) (index : Nat) : Nat :=
  sb.start + index * sb.blockSize

/-- The addresses of all blocks. -/
def blocks (sb : Superblock) : List Nat :=
  (List.range sb.maxcount).map sb.block

end Superblock

/-- What a thread does next. -/
inductive Pc where
  | idle
  /-- `flush_cache` links the run to the chain and exchanges the anchor. -/
  | flushCas (head tail blockCount : Nat) (old : Anchor)
  /-- `flush_cache` calls `heap_push_partial`. -/
  | flushPush
  /-- Either function calls `small_sb_retire`. -/
  | retire
  /-- `malloc_from_partial` popped the descriptor and loads the anchor. -/
  | refillLoad
  /-- `malloc_from_partial` exchanges the anchor to take the whole chain. -/
  | takeAllCas (old : Anchor)
  /-- `malloc_from_partial` cuts the chain and exchanges the anchor. -/
  | takeSomeCas (old : Anchor)
  /-- `malloc_from_partial` tries the exchange again, with the chain cut. -/
  | takeSomeRetry (head idx num : Nat) (old : Anchor)
  /-- `malloc_from_partial` calls `heap_push_partial` and `PushList`. -/
  | refillPush (head num : Nat)
  deriving Repr, DecidableEq

/-- One superblock and the threads that use it. -/
structure State where
  memory : Memory
  anchor : Anchor
  /-- The descriptor is on the partial list. -/
  listed : Bool
  /-- The descriptor was erased. -/
  retired : Bool
  /-- `tsl_cache._flist[sc]` of every thread. -/
  cache : Nat → FreeList
  live : List Nat
  pc : Nat → Pc

/-- Calls and steps of threads; a weak exchange may fail for no reason. -/
inductive Action where
  | malloc (thread : Nat)
  | free (thread block : Nat)
  | store (address : Nat) (byte : UInt8)
  /-- A refill from another superblock raised `_maxsize`. -/
  | grow (thread : Nat)
  | flush (thread blockCount : Nat)
  | refill (thread : Nat)
  | run (thread : Nat) (spurious : Bool)
  deriving Repr, DecidableEq

namespace State

/-- Move one thread. -/
def setPc (state : State) (thread : Nat) (pc : Pc) : State :=
  { state with pc := Function.update state.pc thread pc }

/-- Replace the free list of one thread. -/
def setCache (state : State) (thread : Nat) (cache : FreeList) : State :=
  { state with cache := Function.update state.cache thread cache }

end State

/-- The new anchor of the exchange that takes the whole chain. -/
def fullAnchor (sb : Superblock) : Anchor where
  avail := sb.maxcount
  count := 0
  state := .sbFull

/-- The new anchor of the exchange that takes part of the chain. -/
def restAnchor (old : Anchor) (idx num : Nat) : Anchor where
  avail := idx
  count := old.count - num
  state := .sbPartial

/-- Where `flush_cache` goes after its exchange. -/
def afterFlush (old new : Anchor) : Pc :=
  if old.state = .sbFull then
    if new.state = .sbEmpty then .retire else .flushPush
  else
    .idle

/-- The next step of a thread; a failed assertion stops the program. -/
def advance
    (sb : Superblock)
    (state : State)
    (thread : Nat)
    (spurious : Bool) : Option State :=
  match state.pc thread with
  | .idle => none
  | .flushCas head tail blockCount old =>
      let new :=
        BaseMeta.flushAnchor old (computeIdx sb.start head sb.sc) blockCount
          sb.maxcount
      let linked :=
        { state with
          memory := writeLink state.memory tail (sb.block old.avail) }
      if state.anchor = old ∧ spurious = false then
        some ({ linked with anchor := new }.setPc thread (afterFlush old new))
      else
        some (linked.setPc thread
          (.flushCas head tail blockCount state.anchor))
  | .flushPush =>
      some ({ state with listed := true }.setPc thread .idle)
  | .retire =>
      some ({ state with
        anchor := Descriptor.blank.anchor
        retired := true }.setPc thread .idle)
  | .refillLoad =>
      if state.anchor.count ≤ (state.cache thread).maxsize then
        some (state.setPc thread (.takeAllCas state.anchor))
      else if state.anchor.state = .sbEmpty then
        some (state.setPc thread .retire)
      else
        some (state.setPc thread (.takeSomeCas state.anchor))
  | .takeAllCas old =>
      if old.state = .sbEmpty then
        some (state.setPc thread .retire)
      else if old.state ≠ .sbPartial then
        none
      else if state.anchor = old ∧ spurious = false then
        some (({ state with anchor := fullAnchor sb }.setCache thread
          ((state.cache thread).pushList (sb.block old.avail) old.count)).setPc
            thread .idle)
      else
        some (state.setPc thread (.takeAllCas state.anchor))
  | .takeSomeCas old =>
      let head := sb.block old.avail
      let (tail, newhead, num) :=
        BaseMeta.takeLoop state.memory (state.cache thread).maxsize head head 0
      let idx := computeIdx sb.start newhead sb.sc
      let cut := { state with memory := writeLink state.memory tail 0 }
      if state.anchor = old ∧ spurious = false then
        some ({ cut with anchor := restAnchor old idx num }.setPc thread
          (.refillPush head num))
      else
        some (cut.setPc thread (.takeSomeRetry head idx num state.anchor))
  | .takeSomeRetry head idx num old =>
      if state.anchor = old ∧ spurious = false then
        some ({ state with anchor := restAnchor old idx num }.setPc thread
          (.refillPush head num))
      else
        some (state.setPc thread (.takeSomeRetry head idx num state.anchor))
  | .refillPush head num =>
      let cache := state.cache thread
      some (({ state with listed := true }.setCache thread
        ((cache.pushList head num).growMaxSize cache.maxsize
          sb.maxcount)).setPc thread .idle)

/-- One step, if the thread can take it. -/
def step (sb : Superblock) (state : State) : Action → Option State
  | .malloc thread =>
      if state.pc thread = .idle ∧ 0 < (state.cache thread).size then
        let (block, cache) := (state.cache thread).pop state.memory
        some { state.setCache thread cache with live := block :: state.live }
      else
        none
  | .free thread block =>
      if state.pc thread = .idle ∧ block ∈ state.live then
        let (memory, cache) := (state.cache thread).push state.memory block
        some { state.setCache thread cache with
          memory := memory
          live := state.live.erase block }
      else
        none
  | .store address byte =>
      if ∃ block ∈ state.live,
          block ≤ address ∧ address < block + sb.blockSize then
        some { state with memory := state.memory.store8 address byte }
      else
        none
  | .grow thread =>
      if state.pc thread = .idle then
        let cache := state.cache thread
        some (state.setCache thread
          (cache.growMaxSize cache.maxsize sb.maxcount))
      else
        none
  | .flush thread blockCount =>
      let cache := state.cache thread
      if state.pc thread = .idle ∧ 0 < blockCount ∧
          blockCount ≤ cache.size then
        let tail := (readLink state.memory)^[blockCount - 1] cache.list
        some ((state.setCache thread
          (cache.popList (readLink state.memory tail) blockCount)).setPc
            thread (.flushCas cache.list tail blockCount state.anchor))
      else
        none
  | .refill thread =>
      if state.pc thread = .idle ∧ (state.cache thread).size = 0 ∧
          state.listed = true then
        some ({ state with listed := false }.setPc thread .refillLoad)
      else
        none
  | .run thread spurious =>
      advance sb state thread spurious

/-- The superblock as `malloc_from_newsb` hands it to a thread. -/
def newsb
    (sb : Superblock)
    (memory : Memory)
    (cache : Nat → FreeList)
    (thread : Nat) : State :=
  let linked :=
    BaseMeta.linkBlocks sb.start sb.blockSize (sb.maxcount - 1) memory
  let maxFlistNum := (cache thread).maxsize
  if sb.maxcount ≤ maxFlistNum then
    { memory := linked
      anchor := fullAnchor sb
      listed := false
      retired := false
      cache :=
        Function.update cache thread
          (((cache thread).pushList sb.start sb.maxcount).growMaxSize
            maxFlistNum sb.maxcount)
      live := []
      pc := fun _ => .idle }
  else
    let (tail, newhead, num) :=
      BaseMeta.takeLoop linked maxFlistNum sb.start sb.start 0
    { memory := writeLink linked tail 0
      anchor :=
        { avail := computeIdx sb.start newhead sb.sc
          count := sb.maxcount - num
          state := .sbPartial }
      listed := true
      retired := false
      cache :=
        Function.update cache thread
          (((cache thread).pushList sb.start maxFlistNum).growMaxSize
            maxFlistNum sb.maxcount)
      live := []
      pc := fun _ => .idle }

/-- A new superblock; no thread has a block of it. -/
def Initial (sb : Superblock) (state : State) : Prop :=
  ∃ memory cache thread,
    (∀ other, (cache other).size = 0 ∧ 1 ≤ (cache other).maxsize) ∧
      state = newsb sb memory cache thread

/-- Steps of the program. -/
def Step
    (sb : Superblock)
    (before : State)
    (action : Action)
    (after : State) : Prop :=
  step sb before action = some after

/-- The thread exchanges the anchor it loaded, or is elsewhere. -/
def FirstTry (state : State) (spurious : Bool) : Pc → Prop
  | .takeSomeCas old => state.anchor = old ∧ spurious = false
  | _ => True

/-- An exchange that takes part of the chain succeeds at its first attempt. -/
def CleanStep
    (sb : Superblock)
    (before : State)
    (action : Action)
    (after : State) : Prop :=
  Step sb before action after ∧
    ∀ thread spurious,
      action = .run thread spurious →
      FirstTry before spurious (before.pc thread)

namespace State

/-- The number of blocks on the free chain. -/
def freeCount (sb : Superblock) (anchor : Anchor) : Nat :=
  if anchor.state = .sbEmpty then sb.maxcount else anchor.count

/-- The blocks reached from `anchor.avail` through the in-block links. -/
def chain (sb : Superblock) (state : State) : List Nat :=
  if state.retired then
    []
  else
    List.iterate (readLink state.memory) (sb.block state.anchor.avail)
      (freeCount sb state.anchor)

/-- The blocks in the free list of a thread. -/
def cacheList (state : State) (thread : Nat) : List Nat :=
  List.iterate (readLink state.memory) (state.cache thread).list
    (state.cache thread).size

/-- The blocks a thread carries between its free list and the chain. -/
def hands (state : State) (thread : Nat) : List Nat :=
  match state.pc thread with
  | .flushCas head _ blockCount _ =>
      List.iterate (readLink state.memory) head blockCount
  | .refillPush head num => List.iterate (readLink state.memory) head num
  | _ => []

end State

/-- Where a block can be. -/
inductive Place where
  | chain
  | cache (thread : Nat)
  | hands (thread : Nat)
  | live
  deriving DecidableEq

/-- The blocks in a place. -/
def State.content (sb : Superblock) (state : State) : Place → List Nat
  | .chain => state.chain sb
  | .cache thread => state.cacheList thread
  | .hands thread => state.hands thread
  | .live => state.live

/--
The chain holds distinct blocks of the superblock, none of them live or in a
free list, and no block is lost.
-/
structure Kept (sb : Superblock) (state : State) : Prop where
  nodup : (state.chain sb).Nodup
  blocks : ∀ block, block ∈ state.chain sb → block ∈ sb.blocks
  apart :
    ∀ block,
      block ∈ state.chain sb →
      block ∉ state.live ∧ ∀ thread, block ∉ state.cacheList thread
  noLoss :
    ∀ block,
      block ∈ sb.blocks →
      block ∈ state.live ∨ block ∈ state.chain sb ∨
        ∃ thread,
          block ∈ state.cacheList thread ∨ block ∈ state.hands thread

/-- The thread has the descriptor, which is not on the partial list. -/
def Pc.holds : Pc → Bool
  | .idle | .flushCas _ _ _ _ => false
  | _ => true

/-- What a thread knows in the middle of a call. -/
def PcOk (state : State) (thread : Nat) : Prop :=
  match state.pc thread with
  | .idle | .flushPush => True
  | .retire => state.anchor.state = .sbEmpty
  | .flushCas head tail blockCount _ =>
      1 ≤ blockCount ∧
        tail = (readLink state.memory)^[blockCount - 1] head
  | .refillLoad => (state.cache thread).size = 0
  | .takeAllCas old =>
      (state.cache thread).size = 0 ∧
        (old.state = .sbEmpty → state.anchor.state = .sbEmpty)
  | .takeSomeCas old =>
      (state.cache thread).size = 0 ∧
        old.state ≠ .sbEmpty ∧
        (state.cache thread).maxsize < old.count
  | .takeSomeRetry _ _ _ _ => False
  | .refillPush _ _ => (state.cache thread).size = 0

/-- The descriptor is in one place: full, listed, or held by one thread. -/
structure Custody (state : State) : Prop where
  unique :
    ∀ first second,
      (state.pc first).holds → (state.pc second).holds → first = second
  held :
    ∀ thread,
      (state.pc thread).holds →
      state.listed = false ∧ state.anchor.state ≠ .sbFull ∧
        state.retired = false
  listed :
    state.listed = true →
    state.anchor.state ≠ .sbFull ∧ state.retired = false

/-- What holds between steps when every cut chain is taken at once. -/
structure Inv (sb : Superblock) (state : State) : Prop where
  splits :
    Splits (state.content sb)
      (fun block => block ∈ sb.blocks ∧ state.retired = false)
  anchor : state.retired = false → Heap.AnchorOk state.anchor sb.maxcount
  maxsize : ∀ thread, 1 ≤ (state.cache thread).maxsize
  custody : Custody state
  threads : ∀ thread, PcOk state thread

variable {sb : Superblock} {state state' : State}

namespace Superblock

/-- Blocks hold a link and fit in the superblock. -/
theorem sizes
    (sb : Superblock) :
    8 ≤ sb.blockSize ∧
      1 ≤ sb.maxcount ∧
      sb.maxcount * sb.blockSize ≤ sbSize := by
  have bytes : blockBytes sb.sc = sb.blockSize := by
    have small := sb.small
    rw [blockBytes_small (by omega)]
    rfl
  have bounds := blockBytes_bounds sb.small.le
  have counts := blockCount_bounds sb.small.le
  rw [bytes] at bounds counts
  exact ⟨bounds.1, counts.1, counts.2.2⟩

theorem mem_blocks
    {block : Nat} :
    block ∈ sb.blocks ↔ ∃ index, index < sb.maxcount ∧ sb.block index = block := by
  simp [blocks]

/-- The bytes of a block lie in the superblock. -/
theorem block_inside
    {index : Nat}
    (early : index < sb.maxcount) :
    sb.block index + sb.blockSize ≤ sb.start + sbSize := by
  have step : (index + 1) * sb.blockSize ≤ sb.maxcount * sb.blockSize :=
    Nat.mul_le_mul_right _ early
  have sizes := sb.sizes
  rw [Nat.add_mul, Nat.one_mul] at step
  unfold block
  omega

/-- The end of the superblock is a proper link target too. -/
theorem block_lt
    {index : Nat}
    (within : index ≤ sb.maxcount) :
    sb.block index < 2 ^ 48 := by
  have step : index * sb.blockSize ≤ sb.maxcount * sb.blockSize :=
    Nat.mul_le_mul_right _ within
  have sizes := sb.sizes
  have userSpace := sb.userSpace
  unfold block
  omega

/-- A block is not null and lies in the superblock. -/
theorem window
    {block : Nat}
    (isBlock : block ∈ sb.blocks) :
    0 < block ∧ block + sb.blockSize ≤ sb.start + sbSize := by
  obtain ⟨index, early, rfl⟩ := mem_blocks.mp isBlock
  have positive := sb.positive
  refine ⟨?_, block_inside early⟩
  unfold Superblock.block
  omega

/-- Distinct blocks do not overlap. -/
theorem apart
    {first second : Nat}
    (firstBlock : first ∈ sb.blocks)
    (secondBlock : second ∈ sb.blocks)
    (distinct : first ≠ second) :
    first + sb.blockSize ≤ second ∨ second + sb.blockSize ≤ first := by
  obtain ⟨index, early, rfl⟩ := mem_blocks.mp firstBlock
  obtain ⟨index', early', rfl⟩ := mem_blocks.mp secondBlock
  unfold block at *
  rcases Nat.lt_trichotomy index index' with before | same | after
  · have step : (index + 1) * sb.blockSize ≤ index' * sb.blockSize :=
      Nat.mul_le_mul_right _ before
    rw [Nat.add_mul, Nat.one_mul] at step
    omega
  · exact absurd (by rw [same]) distinct
  · have step : (index' + 1) * sb.blockSize ≤ index * sb.blockSize :=
      Nat.mul_le_mul_right _ after
    rw [Nat.add_mul, Nat.one_mul] at step
    omega

/-- `compute_idx` recovers the index of a block. -/
theorem computeIdx_block
    {index : Nat}
    (early : index < sb.maxcount) :
    computeIdx sb.start (sb.block index) sb.sc = index := by
  have inside := sb.block_inside early
  have sizes := sb.sizes
  have userSpace := sb.userSpace
  apply Heap.computeIdx_block sb.small
  · change index * sb.blockSize < sbSize
    unfold block at inside
    omega
  · omega

/-- The number of blocks. -/
theorem length_blocks
    (sb : Superblock) :
    sb.blocks.length = sb.maxcount := by
  simp [blocks]

/-- Lists of distinct blocks are no longer than the superblock. -/
theorem length_le
    {items : List Nat}
    (noDuplicates : items.Nodup)
    (inside : ∀ block, block ∈ items → block ∈ sb.blocks) :
    items.length ≤ sb.maxcount := by
  have sub := List.subperm_of_subset noDuplicates inside
  simpa [length_blocks] using sub.length_le

/-- A list of as many distinct blocks as there are contains each of them. -/
theorem mem_of_length
    {items : List Nat}
    (noDuplicates : items.Nodup)
    (inside : ∀ block, block ∈ items → block ∈ sb.blocks)
    (complete : items.length = sb.maxcount)
    {block : Nat}
    (isBlock : block ∈ sb.blocks) :
    block ∈ items := by
  have sub := List.subperm_of_subset noDuplicates inside
  have perm := sub.perm_of_length_le (by rw [length_blocks, complete])
  exact perm.mem_iff.mpr isBlock

end Superblock

/-- Whatever is in a place is a block. -/
theorem Inv.isBlock
    (inv : Inv sb state)
    {place : Place}
    {block : Nat}
    (occurs : block ∈ state.content sb place) :
    block ∈ sb.blocks :=
  (inv.splits.member_of_mem occurs).1

/-- Blocks in different places differ. -/
theorem Inv.ne_of_places
    (inv : Inv sb state)
    {first second : Place}
    (distinct : first ≠ second)
    {block other : Nat}
    (inFirst : block ∈ state.content sb first)
    (inSecond : other ∈ state.content sb second) :
    block ≠ other := by
  rintro rfl
  exact distinct (inv.splits.place_eq inFirst inSecond)

/-- While the superblock is used its blocks are kept. -/
theorem Inv.kept
    (inv : Inv sb state)
    (used : state.retired = false) :
    Kept sb state where
  nodup := inv.splits.nodup .chain
  blocks block occurs :=
    inv.isBlock (show block ∈ state.content sb .chain from occurs)
  apart block occurs := by
    have onChain : block ∈ state.content sb .chain := occurs
    constructor
    · intro isLive
      have atUser : block ∈ state.content sb .live := isLive
      cases inv.splits.place_eq onChain atUser
    · intro thread cached
      have atThread : block ∈ state.content sb (.cache thread) := cached
      cases inv.splits.place_eq onChain atThread
  noLoss block isBlock := by
    obtain ⟨place, occurs⟩ := (inv.splits.covers block).mp ⟨isBlock, used⟩
    cases place with
    | chain => exact .inr (.inl occurs)
    | cache thread => exact .inr (.inr ⟨thread, .inl occurs⟩)
    | hands thread => exact .inr (.inr ⟨thread, .inr occurs⟩)
    | live => exact .inl occurs

/-- The fields that a place reads, the memory apart, are the same. -/
def SameAt (state state' : State) : Place → Prop
  | .chain =>
      state'.anchor = state.anchor ∧ state'.retired = state.retired
  | .cache thread => state'.cache thread = state.cache thread
  | .hands thread => state'.pc thread = state.pc thread
  | .live => state'.live = state.live

/-- A place keeps its blocks when its fields and their links stay. -/
theorem content_congr
    {place : Place}
    (same : SameAt state state' place)
    (links :
      ∀ block,
        block ∈ state.content sb place →
        readLink state'.memory block = readLink state.memory block) :
    state'.content sb place = state.content sb place := by
  cases place with
  | chain =>
      change state'.chain sb = state.chain sb
      change ∀ block, block ∈ state.chain sb → _ at links
      unfold State.chain at links ⊢
      rw [same.1, same.2]
      cases used : state.retired with
      | true => rfl
      | false =>
          simp only [used, Bool.false_eq_true, if_false] at links ⊢
          exact LinkWalk.iterate_congr_of_mem links
  | cache thread =>
      change state'.cacheList thread = state.cacheList thread
      unfold State.cacheList
      rw [same]
      exact LinkWalk.iterate_congr_of_mem links
  | hands thread =>
      change state'.hands thread = state.hands thread
      change ∀ block, block ∈ state.hands thread → _ at links
      unfold State.hands at links ⊢
      rw [same]
      cases shape : state.pc thread with
      | flushCas | refillPush =>
          simp only [shape] at links ⊢
          exact LinkWalk.iterate_congr_of_mem links
      | _ =>
          rfl
  | live =>
      exact same

/-- Writing the link of a block leaves the links in other places alone. -/
theorem Inv.readLink_write
    (inv : Inv sb state)
    {written target block : Nat}
    {place other : Place}
    (inPlace : written ∈ state.content sb place)
    (distinct : other ≠ place)
    (inOther : block ∈ state.content sb other) :
    readLink (writeLink state.memory written target) block =
      readLink state.memory block := by
  have differs := inv.ne_of_places distinct inOther inPlace
  have apart := sb.apart (inv.isBlock inOther) (inv.isBlock inPlace) differs
  have sizes := sb.sizes
  exact readLink_writeLink_apart _ _ (by omega)

/-- What a thread knows depends on its own list, blocks and place. -/
theorem PcOk.congr
    {thread : Nat}
    (ok : PcOk state thread)
    (samePc : state'.pc thread = state.pc thread)
    (sameCache : state'.cache thread = state.cache thread)
    (staysEmpty :
      (state.pc thread).holds →
      state.anchor.state = .sbEmpty →
      state'.anchor.state = .sbEmpty)
    (sameLinks :
      ∀ block,
        block ∈ state.hands thread →
        readLink state'.memory block = readLink state.memory block) :
    PcOk state' thread := by
  unfold PcOk at ok ⊢
  rw [samePc, sameCache]
  cases shape : state.pc thread with
  | idle | flushPush =>
      trivial
  | retire =>
      rw [shape] at ok staysEmpty
      exact staysEmpty rfl ok
  | takeAllCas old =>
      rw [shape] at ok staysEmpty
      exact ⟨ok.1, fun isEmpty => staysEmpty rfl (ok.2 isEmpty)⟩
  | flushCas head tail blockCount old =>
      rw [shape] at ok
      refine ⟨ok.1, ok.2.trans (LinkWalk.reach_congr ?_).symm⟩
      intro index early
      apply sameLinks
      unfold State.hands
      rw [shape]
      exact LinkWalk.iterate_mem (by omega)
  | refillLoad | takeSomeCas | takeSomeRetry | refillPush =>
      rw [shape] at ok
      exact ok

/-- Custody depends on who holds the descriptor and on the anchor's state. -/
theorem Custody.congr
    (custody : Custody state)
    (samePc : ∀ thread, (state'.pc thread).holds = (state.pc thread).holds)
    (sameListed : state'.listed = state.listed)
    (sameState : state'.anchor.state = state.anchor.state)
    (sameRetired : state'.retired = state.retired) :
    Custody state' := by
  constructor
  · intro first second
    rw [samePc, samePc]
    exact custody.unique first second
  · intro thread
    rw [samePc, sameListed, sameState, sameRetired]
    exact custody.held thread
  · rw [sameListed, sameState, sameRetired]
    exact custody.listed

end AnchorRace

end Bxalloc
