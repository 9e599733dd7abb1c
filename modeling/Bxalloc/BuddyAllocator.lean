import Bxalloc.Config
import Bxalloc.Lib.NullList
import Bxalloc.Lib.Reach
import Bxalloc.Lib.Splits
import Bxalloc.Lib.Tiling

namespace Bxalloc

/-!
# The large-object allocator

`BuddyAllocator` keeps its metadata in band: every block of the arena starts
with a `BlockHeader`, and the free blocks of each size are linked through
their headers.  Header addresses are absolute; null is zero.  The allocator is
modelled for the five-argument constructor with `recover=false` and for calls
that find a block without expanding the arena.  Every call holds the lock of
`BuddyManager`, so it is one step.
-/

open Lib

/-- `BlockHeader`. -/
structure BlockHeader where
  free : Bool
  blockSize : Nat
  next : Nat
  deriving Repr, DecidableEq

/-- `sizeof(BlockHeader)`. -/
abbrev sizeofBlockHeader : Nat := 16

/-- The constructor's arguments: power-of-two sizes and whole maximal blocks. -/
structure BuddyLayout where
  start : Nat
  /-- `_basic_block_size` is two to this power. -/
  basicBits : Nat
  /-- `numBlocks`. -/
  levels : Nat
  /-- `_total_memory_length / max_block_size`. -/
  count : Nat
  positive : 0 < start
  someLevel : 1 ≤ levels
  holdsHeader : sizeofBlockHeader ≤ 2 ^ basicBits
  fitsInt : basicBits + levels ≤ 31

namespace BuddyLayout

/-- `basic_block_size`. -/
def basicBlockSize (layout : BuddyLayout) : Nat :=
  2 ^ layout.basicBits

/-- `(1<<i)*basic_block_size`. -/
def levelSize (layout : BuddyLayout) (i : Nat) : Nat :=
  2 ^ i * layout.basicBlockSize

/-- The constructor's argument `max_block_size`. -/
def maxBlockSize (layout : BuddyLayout) : Nat :=
  layout.levelSize (layout.levels - 1)

/-- `total_memory_size`. -/
def totalMemorySize (layout : BuddyLayout) : Nat :=
  layout.count * layout.maxBlockSize

/-- The end of the arena. -/
def finish (layout : BuddyLayout) : Nat :=
  layout.start + layout.totalMemorySize

/-- More than the number of blocks in the arena: bounds every list walk. -/
def walkFuel (layout : BuddyLayout) : Nat :=
  layout.totalMemorySize / layout.basicBlockSize + 1

end BuddyLayout

/-- The headers in memory and the list heads; `live` records users' blocks. -/
structure Buddy where
  header : Nat → BlockHeader
  /-- `FreeList[i].head`. -/
  freeList : Nat → Nat
  /-- The header addresses of allocated blocks. -/
  live : List Nat

namespace Buddy

variable (layout : BuddyLayout)

/-- Replace one header. -/
def setHeader (state : Buddy) (b : Nat) (header : BlockHeader) : Buddy :=
  { state with header := Function.update state.header b header }

@[simp] theorem setHeader_same
    (state : Buddy)
    (b : Nat)
    (header : BlockHeader) :
    (state.setHeader b header).header b = header :=
  Function.update_self ..

theorem setHeader_other
    (state : Buddy)
    (header : BlockHeader)
    {b other : Nat}
    (differs : other ≠ b) :
    (state.setHeader b header).header other = state.header other :=
  Function.update_of_ne differs ..

/-- Replace one list head. -/
def setHead (state : Buddy) (i b : Nat) : Buddy :=
  { state with freeList := Function.update state.freeList i b }

/-- `LinkedList::insert`. -/
def insert (state : Buddy) (i b : Nat) : Buddy :=
  (state.setHeader b
    { state.header b with next := state.freeList i }).setHead i b

/-- The loop of `LinkedList::remove`; `none` when it does not end. -/
def removeLoop (b : Nat) :
    Nat → (Nat → BlockHeader) → Nat → Option (Nat → BlockHeader)
  | 0, _, _ => none
  | fuel + 1, header, currPtr =>
      if currPtr = 0 then
        some header
      else
        let header :=
          if (header currPtr).next = b then
            Function.update header currPtr
              { header currPtr with next := (header b).next }
          else
            header
        removeLoop b fuel header (header currPtr).next

/-- `LinkedList::remove`. -/
def remove (state : Buddy) (i b : Nat) : Option Buddy :=
  if state.freeList i = b then
    some (state.setHead i (state.header b).next)
  else do
    let header ←
      removeLoop b layout.walkFuel state.header (state.freeList i)
    return { state with header := header }

/-- `getbuddy`. -/
def getbuddy (state : Buddy) (b : Nat) : Nat :=
  ((b - layout.start) ^^^ (state.header b).blockSize) + layout.start

/-- `merge`: the merged block and the state with its new size. -/
def merge (state : Buddy) (block1 block2 : Nat) : Nat × Buddy :=
  let block := if block1 < block2 then block1 else block2
  (block,
    state.setHeader block
      { state.header block with
        blockSize := (state.header block).blockSize * 2 })

/-- `split`: the second half gets a header and the first half links to it. -/
def split (state : Buddy) (block : Nat) : Buddy :=
  let half := (state.header block).blockSize / 2
  let block2 := block + half
  let state :=
    state.setHeader block2 { free := true, blockSize := half, next := 0 }
  state.setHeader block
    { state.header block with blockSize := half, next := block2 }

/-- The value of an `int` sum. -/
def int32 (value : Int) : Int :=
  value.bmod (2 ^ 32)

/-- `length + int(sizeof(BlockHeader))`. -/
def need (length : Int) : Int :=
  int32 (length + sizeofBlockHeader)

/-- The search loop of `alloc`; `none` when the arena would be expanded. -/
def findLevel (state : Buddy) (length : Int) : Nat → Nat → Option Nat
  | _, 0 => none
  | i, more + 1 =>
      if state.freeList i = 0 ∨ (layout.levelSize i : Int) < need length then
        findLevel state length (i + 1) more
      else
        some i

/-- The head of list `i` is split once more. -/
def splits (state : Buddy) (length : Int) (i : Nat) : Bool :=
  let half := (state.header (state.freeList i)).blockSize / 2
  need length < half && layout.basicBlockSize ≤ half

/-- The split loop of `alloc`; `none` below the first list. -/
def splitLoop (length : Int) : Nat → Buddy → Option (Nat × Buddy)
  | i, state =>
      if splits layout state length i then
        match i with
        | 0 => none
        | i + 1 =>
            let block := state.freeList (i + 1)
            let b := (state.header block).next
            splitLoop length i
              (((state.split block).setHead i block).setHead (i + 1) b)
      else
        some (i, state)

/-- `alloc` without expansion: the user's address and the new state. -/
def alloc (length : Int) (state : Buddy) : Option (Nat × Buddy) := do
  let i ← findLevel layout state length 0 layout.levels
  let (i, state) ← splitLoop layout length i state
  let b := state.freeList i
  let state ← state.remove layout i b
  return (b + sizeofBlockHeader,
    { state.setHeader b { state.header b with free := false } with
      live := b :: state.live })

/-- The merge loop of `free`, with `more` levels above level `i`. -/
def mergeLoop : Nat → Nat → Nat → Buddy → Option Buddy
  | 0, _, _, state => some state
  | more + 1, i, b, state =>
      if (state.header (state.getbuddy layout b)).free then do
        let state ← state.remove layout i b
        let state ← state.remove layout i (state.getbuddy layout b)
        let (b, state) := state.merge b (state.getbuddy layout b)
        mergeLoop more (i + 1) b (state.insert (i + 1) b)
      else
        some state

/-- The level that `log2(b->block_size/basic_block_size)` computes. -/
def levelOf (state : Buddy) (b : Nat) : Nat :=
  Nat.log2 ((state.header b).blockSize / layout.basicBlockSize)

/-- `b->free = true`: the user has given the block up. -/
def markFree (state : Buddy) (b : Nat) : Buddy :=
  { state.setHeader b { state.header b with free := true } with
    live := state.live.erase b }

/-- `free`. -/
def free (a : Nat) (state : Buddy) : Option Buddy :=
  let b := a - sizeofBlockHeader
  let state := state.markFree b
  let i := state.levelOf layout b
  let buddy := state.getbuddy layout b
  if (state.header buddy).free ∧
      (state.header b).blockSize = (state.header buddy).blockSize then
    mergeLoop layout (layout.levels - 1 - i) i b state
  else
    some (state.insert i b)

/-- The constructor's loop over the maximal blocks before block `i`. -/
def createLoop : Nat → Buddy → Buddy
  | 0, state => state
  | i + 1, state =>
      let state := createLoop i state
      let b := layout.start + i * layout.maxBlockSize
      (state.setHeader b
        { free := true, blockSize := layout.maxBlockSize, next := 0 }).insert
          (layout.levels - 1) b

/-- The five-argument constructor with `recover=false`. -/
def create (header : Nat → BlockHeader) : Buddy :=
  createLoop layout layout.count
    { header := header
      freeList := fun _ => 0
      live := [] }

end Buddy

end Bxalloc
