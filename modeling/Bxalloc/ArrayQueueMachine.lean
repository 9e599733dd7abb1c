import Bxalloc.ArrayQueueLines

namespace Bxalloc

/-!
# The queue of free superblocks and its write-backs

`push` and `pop` write back what they load before they exchange anything, and
what they have exchanged before they return.  Every write-back and every fence
is a step of its own.  A crash takes the threads and leaves of `rear`, `front`
and every slot some value that had not been overwritten durably; the next
process maps the file and goes on with these words, without a repair.
-/

namespace ArrayQueue

universe u

variable {Value : Type u}

/-- The write-backs of the source between two steps of a thread. -/
def writeBacks (size : Nat) : Pc Value → Pc Value → List WriteBack
  | .pushCheck _ _, .helpLoad _ _ => [.front, .rear]
  | .popCheck _, .helpLoad _ _ => [.front, .rear]
  | .popCheck _, .popNode _ => [.front, .rear]
  | .helpLoad _ old, .helpCas _ _ _ => [.node old.rear.index, .fence]
  | .helpCas _ old _, .pushNode _ _ => [.node old.rear.index, .fence]
  | .helpCas _ old _, .popNode _ => [.node old.rear.index, .fence]
  | .pushNode _ _, .pushCas _ _ => [.fence]
  | .pushCas _ _, .idle => [.rear, .fence]
  | .popNode old, .popCas _ _ => [.node (old.front.index % size), .fence]
  | .popCas _ _, .idle => [.front, .fence]
  | _, _ => []

/-- What `finish_enqueue` writes back behind its exchange. -/
theorem writeBacks_afterHelp
    (size : Nat)
    (caller : Caller Value)
    (old : Snapshot Value)
    (oldNode : Node Value) :
    writeBacks size (.helpCas caller old oldNode) (afterHelp old caller) =
      [.node old.rear.index, .fence] := by
  cases caller <;> rfl

/--
The queue, its cells in persistent memory and the write-backs that each thread
executes before its next step.  `lastPush` and `lastPop` number the last
exchange of each thread, and the other counters the last push and the last pop
that have returned.
-/
structure Machine (Value : Type u) where
  state : State Value
  lines : Lines Value
  todo : Nat → List WriteBack
  lastPush : Nat → Nat
  lastPop : Nat → Nat
  returnedPushes : Nat
  returnedPops : Nat

/-- A new number replaces the last one of a thread if the count has grown. -/
def renumber (last : Nat → Nat) (thread before after : Nat) : Nat → Nat :=
  if after = before then last else Function.update last thread after

namespace Machine

/-- A thread has taken a step. -/
def moved
    [DecidableEq Value]
    (machine : Machine Value)
    (size thread : Nat)
    (state' : State Value) : Machine Value where
  state := state'
  lines := machine.lines.record state'
  todo :=
    Function.update machine.todo thread
      (writeBacks size (machine.state.pc thread) (state'.pc thread))
  lastPush :=
    renumber machine.lastPush thread machine.state.pushed.length
      state'.pushed.length
  lastPop :=
    renumber machine.lastPop thread machine.state.popped.length
      state'.popped.length
  returnedPushes := machine.returnedPushes
  returnedPops := machine.returnedPops

/-- A thread has executed a write-back; with the last one a call returns. -/
def wroteBack
    (machine : Machine Value)
    (thread : Nat)
    (event : WriteBack)
    (rest : List WriteBack) : Machine Value where
  state := machine.state
  lines := machine.lines.perform thread event
  todo := Function.update machine.todo thread rest
  lastPush := machine.lastPush
  lastPop := machine.lastPop
  returnedPushes :=
    if rest = [] then
      max machine.returnedPushes (machine.lastPush thread)
    else
      machine.returnedPushes
  returnedPops :=
    if rest = [] then
      max machine.returnedPops (machine.lastPop thread)
    else
      machine.returnedPops

/--
The queue that the next process finds.  The last push is completed if its slot
has its counter.
-/
def found
    (machine : Machine Value)
    (left : Lines.Survivors machine.lines) : State Value :=
  let lines := machine.lines.crash left
  let rear := lines.rear.current
  { rear := rear
    front := lines.front.current
    nodes := fun index => (lines.node index).current
    pc := fun _ => .idle
    pushed := machine.state.pushed.take left.rear
    popped := machine.state.popped.take left.front
    completed :=
      if (lines.node rear.index).current.counter = rear.counter then
        left.rear
      else
        left.rear - 1 }

/-- The counter of the last slot tells whether the last push is completed. -/
theorem found_completed
    (machine : Machine Value)
    (left : Lines.Survivors machine.lines) :
    (machine.found left).completed =
      if
          ((machine.found left).nodes (machine.found left).rear.index).counter =
            (machine.found left).rear.counter then
        left.rear
      else
        left.rear - 1 :=
  rfl

/-- The next process has mapped the file. -/
def crashed
    (machine : Machine Value)
    (left : Lines.Survivors machine.lines) : Machine Value where
  state := machine.found left
  lines := machine.lines.crash left
  todo := fun _ => []
  lastPush := fun _ => 0
  lastPop := fun _ => 0
  returnedPushes := machine.returnedPushes
  returnedPops := machine.returnedPops

/-- What happens in one atomic step. -/
inductive Event (Value : Type u) where
  | act (action : Action Value)
  | writeBack (thread : Nat)
  | crash

/-- One atomic step. -/
inductive Step
    [DecidableEq Value]
    (size : Nat) : Machine Value → Event Value → Machine Value → Prop where
  | act
      {machine : Machine Value}
      {action : Action Value}
      {state' : State Value}
      (ready : machine.todo action.thread = [])
      (stepped : FreshStep size machine.state action state') :
      Step size machine (.act action)
        (machine.moved size action.thread state')
  | writeBack
      {machine : Machine Value}
      {thread : Nat}
      {event : WriteBack}
      {rest : List WriteBack}
      (next : machine.todo thread = event :: rest) :
      Step size machine (.writeBack thread)
        (machine.wroteBack thread event rest)
  | crash
      {machine : Machine Value}
      (left : Lines.Survivors machine.lines) :
      Step size machine .crash (machine.crashed left)

/-- The constructed queue in its file. -/
def new [Zero Value] : Machine Value where
  state := empty
  lines :=
    { rear := .clean (empty : State Value).rear
      front := .clean (empty : State Value).front
      node := fun index => .clean ((empty : State Value).nodes index) }
  todo := fun _ => []
  lastPush := fun _ => 0
  lastPop := fun _ => 0
  returnedPushes := 0
  returnedPops := 0

/-- The cells when a thread has executed its write-backs. -/
def ahead (machine : Machine Value) (thread : Nat) : Lines Value :=
  machine.lines.performAll thread (machine.todo thread)

/-- A thread that executes a write-back has one less to execute. -/
theorem ahead_wroteBack
    {machine : Machine Value}
    {thread : Nat}
    {event : WriteBack}
    {rest : List WriteBack}
    (next : machine.todo thread = event :: rest) :
    (machine.wroteBack thread event rest).ahead thread =
      machine.ahead thread := by
  change
    (machine.lines.perform thread event).performAll thread
        (Function.update machine.todo thread rest thread) =
      machine.lines.performAll thread (machine.todo thread)
  rw [Function.update_self, next]
  rfl

theorem ahead_wroteBack_of_ne
    {machine : Machine Value}
    {thread other : Nat}
    {event : WriteBack}
    {rest : List WriteBack}
    (differs : other ≠ thread) :
    (machine.wroteBack thread event rest).ahead other =
      (machine.lines.perform thread event).performAll other
        (machine.todo other) := by
  change
    (machine.lines.perform thread event).performAll other
        (Function.update machine.todo thread rest other) =
      _
  rw [Function.update_of_ne differs]

theorem ahead_moved
    [DecidableEq Value]
    (machine : Machine Value)
    (size thread : Nat)
    (state' : State Value) :
    (machine.moved size thread state').ahead thread =
      (machine.lines.record state').performAll thread
        (writeBacks size (machine.state.pc thread) (state'.pc thread)) := by
  change (machine.lines.record state').performAll thread
    (Function.update machine.todo thread _ thread) = _
  rw [Function.update_self]

theorem ahead_moved_of_ne
    [DecidableEq Value]
    {machine : Machine Value}
    {size thread other : Nat}
    {state' : State Value}
    (differs : other ≠ thread) :
    (machine.moved size thread state').ahead other =
      (machine.lines.record state').performAll other (machine.todo other) := by
  change (machine.lines.record state').performAll other
    (Function.update machine.todo thread _ other) = _
  rw [Function.update_of_ne differs]

/-- A thread without write-backs waits for nothing. -/
theorem ahead_ready
    {machine : Machine Value}
    {thread : Nat}
    (ready : machine.todo thread = []) :
    machine.ahead thread = machine.lines := by
  unfold ahead
  rw [ready]
  rfl

section Runs

variable [DecidableEq Value]

/-- Execute a step that is no crash. -/
def execute
    (size : Nat)
    (machine : Machine Value) : Event Value → Option (Machine Value)
  | .act action =>
      if
          machine.todo action.thread = [] ∧
            NoWrap size machine.state action ∧
            ¬ StaleExchange size machine.state action then
        (ArrayQueue.step size machine.state action).map
          (machine.moved size action.thread)
      else
        none
  | .writeBack thread =>
      match machine.todo thread with
      | [] => none
      | event :: rest => some (machine.wroteBack thread event rest)
  | .crash => none

theorem step_of_execute
    {size : Nat}
    {machine machine' : Machine Value}
    {event : Event Value}
    (executed : machine.execute size event = some machine') :
    Step size machine event machine' := by
  cases event with
  | act action =>
      simp only [execute] at executed
      split at executed
      · next allowed =>
          obtain ⟨ready, noWrap, fresh⟩ := allowed
          obtain ⟨state', accepted, rfl⟩ := Option.map_eq_some_iff.mp executed
          exact .act ready ⟨⟨accepted, noWrap⟩, fresh⟩
      · cases executed
  | writeBack thread =>
      simp only [execute] at executed
      split at executed
      · cases executed
      · next event rest next =>
          cases executed
          exact .writeBack next
  | crash => cases executed

end Runs

end Machine

end ArrayQueue

end Bxalloc
