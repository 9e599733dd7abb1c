import Bxalloc.BuddyRecovery
import Bxalloc.Lib.PersistentLines

namespace Bxalloc

/-!
# Crashes of the large-object allocator

The stores, flushes and fences that `alloc` and `free` issue for the block
headers, in source order, and what the constructor with `recover=true` makes of
the persisted headers.  Every header lies in a cache line of its
own.  `LinkedList::remove` and `insert` store links without flushing them.
-/

open Lib

namespace Buddy

/-- A store, flush or fence of a call. -/
abbrev Event := LineEvent Nat BlockHeader

section Events

variable (layout : BuddyLayout)

/-- The store of `LinkedList::insert`. -/
def insertEvents (state : Buddy) (i b : Nat) : List Event :=
  [.store b { state.header b with next := state.freeList i }]

/-- The stores of the loop of `LinkedList::remove`. -/
def removeLoopEvents (b : Nat) :
    Nat → (Nat → BlockHeader) → Nat → List Event
  | 0, _, _ => []
  | fuel + 1, header, currPtr =>
      if currPtr = 0 then
        []
      else if (header currPtr).next = b then
        let unlinked :=
          { header currPtr with next := (header b).next }
        .store currPtr unlinked ::
          removeLoopEvents b fuel (Function.update header currPtr unlinked)
            unlinked.next
      else
        removeLoopEvents b fuel header (header currPtr).next

/-- The stores of `LinkedList::remove`. -/
def removeEvents (state : Buddy) (i b : Nat) : List Event :=
  if state.freeList i = b then
    []
  else
    removeLoopEvents b layout.walkFuel state.header (state.freeList i)

/-- `merge` doubles the lower block and writes it back. -/
def mergeEvents (state : Buddy) (block1 block2 : Nat) : List Event :=
  let block := if block1 < block2 then block1 else block2
  [.store block
      { state.header block with
        blockSize := (state.header block).blockSize * 2 },
    .flush block,
    .fence]

/-- `split` flushes both halves before its only fence. -/
def splitEvents (state : Buddy) (block : Nat) : List Event :=
  let half := (state.header block).blockSize / 2
  let block2 := block + half
  let stale := state.header block2
  let old := state.header block
  [.store block2 { stale with free := true },
    .store block2 { stale with free := true, blockSize := half },
    .store block2 { free := true, blockSize := half, next := 0 },
    .flush block2,
    .store block { old with next := block2 },
    .store block { old with next := block2, blockSize := half },
    .flush block,
    .fence]

/-- The events of the split loop of `alloc`. -/
def splitLoopEvents (length : Int) : Nat → Buddy → List Event
  | i, state =>
      if splits layout state length i then
        match i with
        | 0 => []
        | i + 1 =>
            let block := state.freeList (i + 1)
            let b := (state.header block).next
            splitEvents state block ++
              splitLoopEvents length i
                (((state.split block).setHead i block).setHead (i + 1) b)
      else
        []

/-- The events of `alloc`; nothing follows the store of the flag. -/
def allocEvents (length : Int) (state : Buddy) : List Event :=
  match findLevel layout state length 0 layout.levels with
  | none => []
  | some i =>
      splitLoopEvents layout length i state ++
        match splitLoop layout length i state with
        | none => []
        | some (i, state) =>
            let b := state.freeList i
            removeEvents layout state i b ++
              match state.remove layout i b with
              | none => []
              | some state =>
                  [.store b { state.header b with free := false }]

/-- The events of the merge loop of `free`. -/
def mergeLoopEvents : Nat → Nat → Nat → Buddy → List Event
  | 0, _, _, _ => []
  | more + 1, i, b, state =>
      if (state.header (state.getbuddy layout b)).free then
        removeEvents layout state i b ++
          match state.remove layout i b with
          | none => []
          | some first =>
              removeEvents layout first i (first.getbuddy layout b) ++
                match first.remove layout i (first.getbuddy layout b) with
                | none => []
                | some second =>
                    let buddy := second.getbuddy layout b
                    let (c, merged) := second.merge b buddy
                    mergeEvents second b buddy ++
                      insertEvents merged (i + 1) c ++
                      mergeLoopEvents more (i + 1) c
                        (merged.insert (i + 1) c)
      else
        []

/-- The events of `free`. -/
def freeEvents (a : Nat) (state : Buddy) : List Event :=
  let b := a - sizeofBlockHeader
  let marked := state.markFree b
  let i := marked.levelOf layout b
  let buddy := marked.getbuddy layout b
  .store b { state.header b with free := true } ::
    if (marked.header buddy).free ∧
        (marked.header b).blockSize = (marked.header buddy).blockSize then
      mergeLoopEvents layout (layout.levels - 1 - i) i b marked
    else
      [.flush b, .fence] ++ insertEvents marked i b

end Events

/-- The five-argument constructor with `recover=true` over a layout. -/
def recover
    (layout : BuddyLayout)
    (header : Nat → BlockHeader) : Option (List Nat × Buddy) :=
  recoverArena layout.recoverArgs header

/-- A call under way: its events to come and the state it ends in. -/
structure Running where
  call : Call
  events : List Event
  final : Buddy

/-- The allocator over persistent memory. -/
structure Arena where
  /-- The state between calls. -/
  buddy : Buddy
  lines : Lines Nat BlockHeader
  running : Option Running
  /-- Blocks whose `alloc` has returned and whose `free` has not started. -/
  held : List Nat

namespace Arena

/-- What happens next. -/
inductive Action where
  | start (call : Call)
  | event
  | finish

/-- One step of a run: a call starts, issues an event or returns. -/
inductive Step (layout : BuddyLayout) : Arena → Action → Arena → Prop where
  | alloc
      {arena : Arena}
      {length : Int}
      {a : Nat}
      {final : Buddy}
      (idle : arena.running = none)
      (returns : Buddy.alloc layout length arena.buddy = some (a, final)) :
      Step layout arena (.start (.alloc length))
        { arena with
          running :=
            some
              { call := .alloc length
                events := allocEvents layout length arena.buddy
                final := final } }
  | free
      {arena : Arena}
      {b : Nat}
      {final : Buddy}
      (idle : arena.running = none)
      (isLive : b ∈ arena.buddy.live)
      (returns :
        Buddy.free layout (b + sizeofBlockHeader) arena.buddy =
          some final) :
      Step layout arena (.start (.free b))
        { arena with
          held := arena.held.erase b
          running :=
            some
              { call := .free b
                events :=
                  freeEvents layout (b + sizeofBlockHeader) arena.buddy
                final := final } }
  | event
      {arena : Arena}
      {call : Call}
      {event : Event}
      {events : List Event}
      {final : Buddy}
      (issues : arena.running = some ⟨call, event :: events, final⟩) :
      Step layout arena .event
        { arena with
          lines := arena.lines.step event
          running := some ⟨call, events, final⟩ }
  | finish
      {arena : Arena}
      {call : Call}
      {final : Buddy}
      (issued : arena.running = some ⟨call, [], final⟩) :
      Step layout arena .finish
        { arena with
          buddy := final
          running := none
          held := final.live }

/-- A well-formed arena whose headers have all been written back. -/
def Initial (layout : BuddyLayout) (arena : Arena) : Prop :=
  (∃ items, Partition layout arena.buddy items []) ∧
    (∀ b, arena.lines b = .clean (arena.buddy.header b)) ∧
    arena.running = none ∧
    arena.held = arena.buddy.live

/--
The steps before a crash that recovery can deal with: every `free` is clean, an
`alloc` splits no block, and no `alloc` returns.
-/
def Quiet (layout : BuddyLayout) (arena : Arena) : Action → Prop
  | .start (.alloc length) =>
      ∀ i,
        findLevel layout arena.buddy length 0 layout.levels = some i →
        splits layout arena.buddy length i = false
  | .start (.free b) => CleanFree layout arena.buddy b
  | .start .store => True
  | .event => True
  | .finish =>
      ∀ length events final,
        arena.running ≠ some ⟨.alloc length, events, final⟩

/-- A quiet step. -/
def QuietStep
    (layout : BuddyLayout)
    (before : Arena)
    (action : Action)
    (after : Arena) : Prop :=
  Step layout before action after ∧ Quiet layout before action

end Arena

/--
Recovery from some headers: the scan ends, the blocks it visits tile the arena,
it uses the existing free lists only, and puts no held block in one of them.
-/
def Recovers
    (layout : BuddyLayout)
    (header : Nat → BlockHeader)
    (held : List Nat) : Prop :=
  ∃ visited recovered,
    recover layout header = some (visited, recovered) ∧
      Tiles (fun b => b ∈ visited) (fun b => (header b).blockSize)
        layout.start layout.finish ∧
      ∃ items : Nat → List Nat,
        (∀ i,
          NullList (nextAt recovered) 0 (recovered.freeList i) (items i)) ∧
          (∀ i, layout.levels ≤ i → items i = []) ∧
          ∀ b i, b ∈ held → b ∉ items i

end Buddy

end Bxalloc
