import Bxalloc.Lib.SharedLines
import Bxalloc.Lookup
import Bxalloc.RegionRace

namespace Bxalloc

/-!
# A region and its write-backs

`curr_addr` lies in the first page of its file.  A call of any of the three
copies of the allocator writes it back before and after its exchange, each time
with a fence.  A crash takes the threads and leaves some value of `curr_addr`
that had not been overwritten durably; the next process maps the file at a base
of its own.

Ranges are compared across processes by their offsets in the file.
`handedOut` records the ranges of all calls that have returned, in any process.
-/

open Lib (SharedLine)

namespace RegionRace

/-- `FLUSH(curr_addr_ptr)`, or `FLUSHFENCE`. -/
inductive WriteBack where
  | flush
  | fence
  deriving Repr, DecidableEq

/-- A thread executes one of them. -/
def perform
    (thread : Nat)
    (line : SharedLine Nat) : WriteBack → SharedLine Nat
  | .flush => line.flush thread
  | .fence => line.fence thread

/-- A thread executes several of them. -/
def performAll
    (thread : Nat)
    (line : SharedLine Nat) : List WriteBack → SharedLine Nat
  | [] => line
  | event :: rest => performAll thread (perform thread line event) rest

/-- The bytes of a file that a call handed out. -/
structure FileRange where
  offset : Nat
  size : Nat
  deriving Repr, DecidableEq

/-- The ranges do not overlap. -/
def FileRange.Disjoint (first second : FileRange) : Prop :=
  first.offset + first.size ≤ second.offset ∨
    second.offset + second.size ≤ first.offset

/-- Where the file has a range of this process. -/
def Range.inFile (region : MappedRegion) (range : Range) : FileRange :=
  { offset := range.res - region.base, size := range.size }

/-- The write-backs of the source between two steps of a thread. -/
def writeBacks : Pc → Bool → List WriteBack
  | .exchange _ _ _ _, _ => [.flush, .fence]
  | .idle, granted => if granted then [.flush, .fence] else []

/-- The range that a step has granted, if any. -/
def newlyGranted (before after : State) : Option Range :=
  if after.granted.length = before.granted.length then
    none
  else
    after.granted.head?

/--
A region, its `curr_addr` in persistent memory and the write-backs that each
thread executes before its next step.  `pending` holds the range that a call
returns behind its last write-back.
-/
structure Machine where
  region : MappedRegion
  state : State
  line : SharedLine Nat
  todo : Nat → List WriteBack
  pending : Nat → Option Range
  handedOut : List FileRange

namespace Machine

/-- A thread has taken a step. -/
def moved (machine : Machine) (thread : Nat) (state' : State) : Machine :=
  let granted := newlyGranted machine.state state'
  { machine with
    state := state'
    line := machine.line.record state'.currAddrWord
    todo :=
      Function.update machine.todo thread
        (writeBacks (state'.pc thread) granted.isSome)
    pending := Function.update machine.pending thread granted }

/-- A thread has executed a write-back. -/
def executed
    (machine : Machine)
    (thread : Nat)
    (event : WriteBack)
    (rest : List WriteBack) : Machine :=
  { machine with
    line := perform thread machine.line event
    todo := Function.update machine.todo thread rest }

/-- A call that has a range returns with it. -/
def returns (machine : Machine) (thread : Nat) : Machine :=
  match machine.pending thread with
  | none => machine
  | some range =>
      { machine with
        pending := Function.update machine.pending thread none
        handedOut := range.inFile machine.region :: machine.handedOut }

/-- A write-back and, behind the last one, the return of the call. -/
def wroteBack
    (machine : Machine)
    (thread : Nat)
    (event : WriteBack)
    (rest : List WriteBack) : Machine :=
  if rest = [] then
    (machine.executed thread event rest).returns thread
  else
    machine.executed thread event rest

/-- The next process has mapped the file. -/
def crashed
    (machine : Machine)
    (region : MappedRegion)
    (survivor : Nat)
    (inside : survivor < machine.line.history.length) : Machine where
  region := region
  state :=
    { currAddrWord := machine.line.history[survivor]
      memptr := fun _ => 0
      pc := fun _ => .idle
      returned := fun _ => none
      granted := [] }
  line := machine.line.crash survivor inside
  todo := fun _ => []
  pending := fun _ => none
  handedOut := machine.handedOut

/-- What happens in one atomic step. -/
inductive Event where
  | act (action : Action)
  | writeBack (thread : Nat)
  | crash
  deriving Repr, DecidableEq

/-- One atomic step. -/
inductive Step : Machine → Event → Machine → Prop where
  | act
      {machine : Machine}
      {action : Action}
      {state' : State}
      (ready : machine.todo action.thread = [])
      (stepped : RegionRace.Step machine.region machine.state action state') :
      Step machine (.act action) (machine.moved action.thread state')
  | writeBack
      {machine : Machine}
      {thread : Nat}
      {event : WriteBack}
      {rest : List WriteBack}
      (next : machine.todo thread = event :: rest) :
      Step machine (.writeBack thread) (machine.wroteBack thread event rest)
  | crash
      {machine : Machine}
      {region : MappedRegion}
      {survivor : Nat}
      (sameFile : region.fileSize = machine.region.fileSize)
      (later : machine.line.durable ≤ survivor)
      (inside : survivor < machine.line.history.length) :
      Step machine .crash (machine.crashed region survivor inside)

/-- Execute a step that is no crash. -/
def execute (machine : Machine) : Event → Option Machine
  | .act action =>
      if machine.todo action.thread = [] ∧ action.Proper then
        (step machine.region machine.state action).map
          (machine.moved action.thread)
      else
        none
  | .writeBack thread =>
      match machine.todo thread with
      | [] => none
      | event :: rest => some (machine.wroteBack thread event rest)
  | .crash => none

theorem step_of_execute
    {machine machine' : Machine}
    {event : Event}
    (executed : machine.execute event = some machine') :
    Step machine event machine' := by
  cases event with
  | act action =>
      simp only [execute] at executed
      split at executed
      · next allowed =>
          obtain ⟨state', accepted, rfl⟩ := Option.map_eq_some_iff.mp executed
          exact .act allowed.1 ⟨allowed.2, accepted⟩
      · cases executed
  | writeBack thread =>
      simp only [execute] at executed
      split at executed
      · cases executed
      · next event rest next =>
          cases executed
          exact .writeBack next
  | crash => cases executed

/-- A file whose `curr_addr` has been written back, and nobody calls. -/
def Initial (machine : Machine) : Prop :=
  RegionRace.Initial machine.region machine.state ∧
    machine.line = .clean machine.state.currAddrWord ∧
    (∀ thread, machine.todo thread = []) ∧
    (∀ thread, machine.pending thread = none) ∧
    machine.handedOut = []

end Machine

section Lines

variable {line line' : SharedLine Nat}

/-- A write-back takes nothing back. -/
theorem extends_perform
    (thread : Nat)
    (line : SharedLine Nat)
    (event : WriteBack) :
    line.Extends (perform thread line event) := by
  cases event with
  | flush => exact line.extends_flush thread
  | fence => exact line.extends_fence thread

theorem extends_performAll
    (thread : Nat)
    (line : SharedLine Nat)
    (events : List WriteBack) :
    line.Extends (performAll thread line events) := by
  induction events generalizing line with
  | nil => exact .refl line
  | cons event rest inductionHypothesis =>
      exact (extends_perform thread line event).trans (inductionHypothesis _)

/-- Executing write-backs later makes no less durable. -/
theorem performAll_mono
    (later : line.Extends line')
    (thread : Nat)
    (events : List WriteBack) :
    (performAll thread line events).Extends
      (performAll thread line' events) := by
  induction events generalizing line line' with
  | nil => exact later
  | cons event rest inductionHypothesis =>
      refine inductionHypothesis ?_
      cases event with
      | flush => exact later.flush thread
      | fence => exact later.fence thread

/-- A write-back stores nothing. -/
theorem perform_history
    (thread : Nat)
    (line : SharedLine Nat)
    (event : WriteBack) :
    (perform thread line event).history = line.history := by
  cases event <;> rfl

theorem performAll_history
    (thread : Nat)
    (line : SharedLine Nat)
    (events : List WriteBack) :
    (performAll thread line events).history = line.history := by
  induction events generalizing line with
  | nil => rfl
  | cons event rest inductionHypothesis =>
      exact (inductionHypothesis _).trans (perform_history thread line event)

end Lines

/-- The word of `curr_addr` at an offset, under any mapping. -/
def wordAt (offset : Nat) : Nat :=
  toPptrOff offset 0

theorem wordAt_eq
    {base offset : Nat}
    (positive : 0 < offset)
    (near : offset < 2 ^ 48) :
    toPptrOff (base + offset) base = wordAt offset := by
  have moved :
      toPptrOff (base + offset) base = toPptrOff (0 + offset) 0 :=
    HeapRegions.toPptrOff_offset positive near
  rwa [Nat.zero_add] at moved

/-- A process reads the offset from its own base. -/
theorem decode_wordAt
    {region : MappedRegion}
    {offset : Nat}
    (positive : 0 < offset)
    (inside : offset ≤ region.fileSize) :
    fromPptrOff (wordAt offset) region.base = region.base + offset := by
  have userSpace := region.userSpace
  rw [← wordAt_eq positive (by omega)]
  exact decode_encode (Nat.le_add_right _ _) (by omega)

theorem wordAt_injective
    {region : MappedRegion}
    {first second : Nat}
    (firstPositive : 0 < first)
    (secondPositive : 0 < second)
    (firstInside : first ≤ region.fileSize)
    (secondInside : second ≤ region.fileSize)
    (same : wordAt first = wordAt second) :
    first = second := by
  have decoded :
      fromPptrOff (wordAt first) region.base =
        fromPptrOff (wordAt second) region.base := by
    rw [same]
  rw [decode_wordAt firstPositive firstInside,
    decode_wordAt secondPositive secondInside] at decoded
  exact Nat.add_left_cancel decoded

namespace Machine

/-- `curr_addr` when a thread has executed its write-backs. -/
def ahead (machine : Machine) (thread : Nat) : SharedLine Nat :=
  performAll thread machine.line (machine.todo thread)

variable {machine : Machine}

theorem ahead_executed
    {thread : Nat}
    {event : WriteBack}
    {rest : List WriteBack}
    (next : machine.todo thread = event :: rest) :
    (machine.executed thread event rest).ahead thread =
      machine.ahead thread := by
  change
    performAll thread (perform thread machine.line event)
        (Function.update machine.todo thread rest thread) =
      performAll thread machine.line (machine.todo thread)
  rw [Function.update_self, next]
  rfl

/-- A thread without write-backs waits for nothing. -/
theorem ahead_ready
    {thread : Nat}
    (ready : machine.todo thread = []) :
    machine.ahead thread = machine.line := by
  unfold ahead
  rw [ready]
  rfl

/-- Nobody's write-backs make less durable behind the write-back of another. -/
theorem ahead_executed_extends
    {thread : Nat}
    {event : WriteBack}
    {rest : List WriteBack}
    (next : machine.todo thread = event :: rest)
    (other : Nat) :
    (machine.ahead other).Extends
      ((machine.executed thread event rest).ahead other) := by
  rcases eq_or_ne other thread with rfl | differs
  · rw [ahead_executed next]
    exact .refl _
  · change
      (performAll other machine.line (machine.todo other)).Extends
        (performAll other (perform thread machine.line event)
          (Function.update machine.todo thread rest other))
    rw [Function.update_of_ne differs]
    exact performAll_mono (extends_perform thread machine.line event) other _

theorem ahead_moved
    (thread : Nat)
    (state' : State) :
    (machine.moved thread state').ahead thread =
      performAll thread (machine.line.record state'.currAddrWord)
        (writeBacks (state'.pc thread)
          (newlyGranted machine.state state').isSome) := by
  change
    performAll thread (machine.line.record state'.currAddrWord)
        (Function.update machine.todo thread _ thread) =
      _
  rw [Function.update_self]

theorem ahead_moved_extends
    {thread other : Nat}
    {state' : State}
    (differs : other ≠ thread) :
    (machine.ahead other).Extends
      ((machine.moved thread state').ahead other) := by
  change
    (performAll other machine.line (machine.todo other)).Extends
      (performAll other (machine.line.record state'.currAddrWord)
        (Function.update machine.todo thread _ other))
  rw [Function.update_of_ne differs]
  exact performAll_mono (machine.line.extends_record _) other _

end Machine

end RegionRace

end Bxalloc
