import Bxalloc.HeapFrame
import Bxalloc.LargeRegion

namespace Bxalloc

/-!
# The interface

`bxalloc.cpp` puts two allocators behind one set of calls: requests up to
`SBSIZE` go to the superblock region, larger ones to the buddy allocator over
the large-object region.  Each entry point makes its own routing decision from
the size or from the address.

A call that stops at an assertion, reads past the class table or would expand
the large-object region does not return here.  Bytes that users write into
large objects can look like headers; a run changes those in its own steps.
-/

open Lib

/-- Where the two regions of a heap lie in this run. -/
structure Pool where
  sb : SbRegion
  /-- The mapping of the large-object file. -/
  larBase : Nat
  mapped : Mappable larBase Large.mappedLength
  apart :
    sb.limit ≤ larBase ∨ larBase + Large.mappedLength ≤ sb.start
  /--
  The word that `desc_lookup(ptr)->block_size` reads for an address outside the
  superblock file, where no descriptor is.
  -/
  foreign : Nat → Nat

namespace Pool

/-- The arena of the large-object region. -/
def layout (pool : Pool) : BuddyLayout :=
  Large.layoutAt pool.larBase

/-- `_rgs->in_range(LAR_SB_IDX,ptr)`. -/
def inLarge (pool : Pool) (ptr : Nat) : Bool :=
  decide (pool.layout.start ≤ ptr ∧ ptr < pool.layout.finish)

/-- The arena is the gigabyte behind the first page of the mapping. -/
theorem layout_bounds
    (pool : Pool) :
    pool.layout.start = pool.larBase + pageSize ∧
      pool.layout.finish = pool.larBase + pageSize + 2 ^ 30 ∧
      pool.larBase + pageSize + 2 ^ 30 ≤
        pool.larBase + Large.mappedLength := by
  have length : Large.mappedLength = 2 ^ 30 + 2 * pageSize := by
    decide
  have total : pool.layout.totalMemorySize = 2 ^ 30 := by
    unfold BuddyLayout.totalMemorySize BuddyLayout.maxBlockSize
      BuddyLayout.levelSize BuddyLayout.basicBlockSize
    norm_num [layout, Large.layoutAt]
  refine ⟨rfl, ?_, ?_⟩
  · unfold BuddyLayout.finish
    rw [total]
    rfl
  · rw [length]
    simp only [pageSize]
    omega

end Pool

/-- Both allocators; `requests` records the pointers in use and their sizes. -/
structure Bxp where
  heap : Heap
  buddy : Buddy
  requests : List (Nat × Nat)

namespace Bxp

variable (pool : Pool)

/-- `_rgs->in_range(SB_IDX,ptr)`. -/
def inSb (state : Bxp) (ptr : Nat) : Bool :=
  decide (pool.sb.start ≤ ptr ∧ ptr < state.heap.currAddr)

/-- `BXP_malloc`. -/
def malloc (thread sz : Nat) (state : Bxp) : Option (Nat × Bxp) :=
  if sbSize < sz then do
    let (ptr, buddy) ←
      Buddy.alloc pool.layout (Buddy.int32 sz) state.buddy
    return (ptr,
      { state with
        buddy := buddy
        requests := (ptr, sz) :: state.requests })
  else
    match BaseMeta.doMalloc pool.sb thread sz state.heap with
    | .error _ => none
    | .ok (ptr, heap) =>
        some (ptr,
          { state with
            heap := { heap with live := ptr :: heap.live }
            requests := (ptr, sz) :: state.requests })

/-- The pointer is no longer in use. -/
def withdraw (state : Bxp) (ptr : Nat) : List (Nat × Nat) :=
  state.requests.filter fun request => request.1 != ptr

/-- `BXP_free`. -/
def free (thread ptr : Nat) (state : Bxp) : Option Bxp :=
  if pool.inLarge ptr then do
    let buddy ← Buddy.free pool.layout ptr state.buddy
    return { state with buddy := buddy, requests := state.withdraw ptr }
  else
    match BaseMeta.doFree pool.sb thread ptr state.heap with
    | .error _ => none
    | .ok heap =>
        some
          { state with
            heap := { heap with live := heap.live.erase ptr }
            requests := state.withdraw ptr }

/-- `BXP_malloc_size`. -/
def mallocSize (state : Bxp) (ptr : Nat) : Nat :=
  if pool.sb.start ≤ ptr ∧ ptr < pool.sb.limit then
    (state.heap.desc (pool.sb.owner ptr)).blockSize
  else
    pool.foreign ptr

/-- `BXP_in_prange`. -/
def inPrange (state : Bxp) (ptr : Nat) : Nat :=
  if state.inSb pool ptr then 1 else 0

/-- Replace the bytes of both regions. -/
def setMemory (state : Bxp) (memory : Memory) : Bxp :=
  { state with heap := { state.heap with memory := memory } }

/-- `BXP_realloc`. -/
def realloc (thread ptr newSize : Nat) (state : Bxp) :
    Option (Nat × Bxp) :=
  if ptr = 0 then
    malloc pool thread newSize state
  else if ¬ state.inSb pool ptr then
    some (0, state)
  else
    let oldSize := state.mallocSize pool ptr
    if oldSize = newSize then
      some (ptr, state)
    else do
      let (newPtr, state) ← malloc pool thread newSize state
      if newPtr = 0 then
        return (0, state)
      else
        let state :=
          state.setMemory (state.heap.memory.copy newPtr ptr oldSize)
        let state ← free pool thread ptr state
        return (newPtr, state)

/-- `BXP_calloc`. -/
def calloc (thread num size : Nat) (state : Bxp) : Option (Nat × Bxp) := do
  let (ptr, state) ← malloc pool thread (num * size % 2 ^ 64) state
  if ptr = 0 then
    return (0, state)
  else
    let realSize := state.mallocSize pool ptr
    return (ptr, state.setMemory (state.heap.memory.fill ptr realSize 0))

/-- The bytes of a block that its user may write. -/
def usable (state : Bxp) (ptr : Nat) : Nat :=
  if pool.inLarge ptr then
    Buddy.sizeAt state.buddy (ptr - sizeofBlockHeader) - sizeofBlockHeader
  else
    (state.heap.desc (pool.sb.owner ptr)).blockSize

/-- The bytes of the block that serves a request of up to `SBSIZE`. -/
def capacity (size : Nat) : Nat :=
  if maxSz < size then sbSize else ClassSize.roundUp size

/-- What a thread does in one atomic step. -/
inductive Call where
  | malloc (thread sz : Nat)
  | free (thread ptr : Nat)
  | realloc (thread ptr newSize : Nat)
  | calloc (thread num size : Nat)
  | exit (thread : Nat)
  | store

/-- One atomic step. -/
inductive Step (pool : Pool) : Bxp → Call → Bxp → Prop where
  | malloc
      {state state' : Bxp}
      {thread sz ptr : Nat}
      (returned : malloc pool thread sz state = some (ptr, state')) :
      Step pool state (.malloc thread sz) state'
  | free
      {state state' : Bxp}
      {thread ptr sz : Nat}
      (requested : (ptr, sz) ∈ state.requests)
      (returned : free pool thread ptr state = some state') :
      Step pool state (.free thread ptr) state'
  | realloc
      {state state' : Bxp}
      {thread ptr sz newSize newPtr : Nat}
      (requested : (ptr, sz) ∈ state.requests)
      (returned :
        realloc pool thread ptr newSize state = some (newPtr, state')) :
      Step pool state (.realloc thread ptr newSize) state'
  | calloc
      {state state' : Bxp}
      {thread num size ptr : Nat}
      (returned : calloc pool thread num size state = some (ptr, state')) :
      Step pool state (.calloc thread num size) state'
  | exit
      {state : Bxp}
      {heap' : Heap}
      {thread : Nat}
      (returned :
        BaseMeta.publicFlushCache pool.sb thread state.heap = .ok heap') :
      Step pool state (.exit thread)
        { state with heap := heap'.endThread thread }
  | store
      {state : Bxp}
      {memory : Memory}
      {header : Nat → BlockHeader}
      (bytes :
        ∀ address,
          (∀ ptr sz,
            (ptr, sz) ∈ state.requests →
            address < ptr ∨ ptr + state.usable pool ptr ≤ address) →
          memory address = state.heap.memory address)
      (headers :
        ∀ address,
          (∀ b,
            b ∈ state.buddy.live →
            address ≤ b ∨ b + Buddy.sizeAt state.buddy b ≤ address) →
          header address = state.buddy.header address) :
      Step pool state .store
        { state.setMemory memory with
          buddy := { state.buddy with header := header } }

/-- The states that `BXP_init` of a new heap can leave. -/
def Initial (state : Bxp) : Prop :=
  Heap.Fresh pool.sb state.heap ∧
    Buddy.Initial pool.layout state.buddy ∧
    state.requests = []

/--
The calls that keep to their own blocks, from the state before them: frees of
large objects merge with whole buddies, zeroed and copied bytes fit in the
block that receives them.
-/
def Clean (state : Bxp) : Call → Prop
  | .malloc _ _ => True
  | .free _ ptr =>
      pool.inLarge ptr = true →
      Buddy.CleanFree pool.layout state.buddy (ptr - sizeofBlockHeader)
  | .realloc _ ptr newSize =>
      state.inSb pool ptr = true →
      state.mallocSize pool ptr ≠ newSize →
      newSize ≤ sbSize →
      state.mallocSize pool ptr ≤ capacity newSize
  | .calloc _ num size => num * size ≤ sbSize
  | .exit _ => True
  | .store => True

/-- Steps whose call keeps to its own blocks. -/
def CleanStep (before : Bxp) (call : Call) (after : Bxp) : Prop :=
  Step pool before call after ∧ before.Clean pool call

end Bxp

end Bxalloc
