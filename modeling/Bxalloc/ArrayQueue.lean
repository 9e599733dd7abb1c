import Bxalloc.Lib.Reach
import Bxalloc.Lib.Ring

namespace Bxalloc

/-!
# The queue of free superblocks under concurrency

`_ArrayQueue<T, size>` with any number of pushers and poppers, one atomic load
or exchange a step.  A push only exchanges `rear`; the value is copied into its
slot later by `finish_enqueue`, called by the next push or by a pop that finds
a single value.

Pushes are numbered from one in the order in which their exchanges of `rear`
succeed.  `pushed` and `popped` list the values of these exchanges and of the
exchanges of `front`; `completed` is the last push whose value was copied into
its slot.
-/

open Lib (Reaches generation)

namespace ArrayQueue

universe u

variable {Value : Type u}

/-- `_ArrayQueue::Rear`. -/
structure Rear (Value : Type u) where
  value : Value
  index : Nat
  counter : Nat
  deriving Repr, DecidableEq

/-- `_ArrayQueue::Front`. -/
structure Front where
  index : Nat
  counter : Nat
  deriving Repr, DecidableEq

/-- `_ArrayQueue::Node`. -/
structure Node (Value : Type u) where
  value : Value
  counter : Nat
  deriving Repr, DecidableEq

/-- The ends of the queue as one thread read them. -/
structure Snapshot (Value : Type u) where
  rear : Rear Value
  front : Front
  /-- The number of pushes when `rear` was read. -/
  since : Nat
  deriving Repr, DecidableEq

/-- The function that calls `finish_enqueue`. -/
inductive Caller (Value : Type u) where
  | push (value : Value)
  | pop
  deriving Repr, DecidableEq

/-- What a thread does next. -/
inductive Pc (Value : Type u) where
  | idle
  /-- `push` loads `rear`. -/
  | pushRear (value : Value)
  /-- `push` loads `front`. -/
  | pushFront (value : Value) (rear : Rear Value) (since : Nat)
  /-- `push` loads `rear` again. -/
  | pushCheck (value : Value) (old : Snapshot Value)
  /-- `pop` loads `front`. -/
  | popFront
  /-- `pop` loads `rear`. -/
  | popRear (front : Front)
  /-- `pop` loads `front` again. -/
  | popCheck (old : Snapshot Value)
  /-- `finish_enqueue` loads the slot. -/
  | helpLoad (caller : Caller Value) (old : Snapshot Value)
  /-- `finish_enqueue` exchanges the slot. -/
  | helpCas
      (caller : Caller Value)
      (old : Snapshot Value)
      (oldNode : Node Value)
  /-- `push` checks for a full queue and loads the next slot. -/
  | pushNode (value : Value) (old : Snapshot Value)
  /-- `push` exchanges `rear`. -/
  | pushCas (old : Snapshot Value) (newRear : Rear Value)
  /-- `pop` checks for an empty queue and loads the first slot. -/
  | popNode (old : Snapshot Value)
  /-- `pop` exchanges `front`. -/
  | popCas (old : Snapshot Value) (ret : Value)
  deriving Repr, DecidableEq

/-- The queue, the threads and the history of the queue. -/
structure State (Value : Type u) where
  rear : Rear Value
  front : Front
  nodes : Nat → Node Value
  pc : Nat → Pc Value
  pushed : List Value
  popped : List Value
  completed : Nat

/--
Threads call `push` or `pop`, or take their next step; a weak exchange may fail
for no reason.
-/
inductive Action (Value : Type u) where
  | push (thread : Nat) (value : Value)
  | pop (thread : Nat)
  | run (thread : Nat) (spurious : Bool)
  deriving Repr, DecidableEq

/-- The thread of an action. -/
def Action.thread : Action Value → Nat
  | .push thread _ => thread
  | .pop thread => thread
  | .run thread _ => thread

/-- Move one thread. -/
def State.setPc
    (state : State Value)
    (thread : Nat)
    (pc : Pc Value) : State Value :=
  { state with pc := Function.update state.pc thread pc }

/-- A thread is where it has moved to. -/
theorem setPc_pc
    (state : State Value)
    (thread : Nat)
    (pc : Pc Value) :
    (state.setPc thread pc).pc thread = pc :=
  Function.update_self ..

/-- Where `finish_enqueue` returns to. -/
def afterHelp (old : Snapshot Value) : Caller Value → Pc Value
  | .push value => .pushNode value old
  | .pop => .popNode old

/-- The `old_node` that `finish_enqueue` expects at first. -/
def expectedNode (old : Snapshot Value) (node : Node Value) : Node Value :=
  { value := node.value, counter := (old.rear.counter + 2 ^ 32 - 1) % 2 ^ 32 }

/-- The `new_node` of `finish_enqueue`. -/
def finishedNode (old : Snapshot Value) : Node Value :=
  { value := old.rear.value, counter := old.rear.counter }

/-- The `new_rear` of `push`. -/
def nextRear
    (size : Nat)
    (value : Value)
    (old : Snapshot Value)
    (node : Node Value) : Rear Value :=
  { value := value
    index := (old.rear.index + 1) % size
    counter := (node.counter + 1) % 2 ^ 32 }

/-- The `new_front` of `pop`. -/
def nextFront (size : Nat) (old : Front) : Front :=
  { index := (old.index + 1) % size, counter := (old.counter + 1) % 2 ^ 32 }

/-- The exchange of `finish_enqueue` succeeded. -/
def State.finish
    (state : State Value)
    (old : Snapshot Value) : State Value :=
  { state with
    nodes :=
      Function.update state.nodes old.rear.index (finishedNode old)
    completed := max state.completed old.since }

section Steps

variable [DecidableEq Value]

/-- The next step of a thread; a failed assertion stops the program. -/
def advance
    (size : Nat)
    (state : State Value)
    (thread : Nat)
    (spurious : Bool) : Option (State Value) :=
  match state.pc thread with
  | .idle => none
  | .pushRear value =>
      some (state.setPc thread
        (.pushFront value state.rear state.pushed.length))
  | .pushFront value rear since =>
      some (state.setPc thread
        (.pushCheck value
          { rear := rear, front := state.front, since := since }))
  | .pushCheck value old =>
      if old.rear = state.rear then
        some (state.setPc thread (.helpLoad (.push value) old))
      else
        some (state.setPc thread (.pushRear value))
  | .popFront =>
      some (state.setPc thread (.popRear state.front))
  | .popRear front =>
      some (state.setPc thread
        (.popCheck
          { rear := state.rear
            front := front
            since := state.pushed.length }))
  | .popCheck old =>
      if old.front = state.front then
        if old.front.index = old.rear.index then
          some (state.setPc thread (.helpLoad .pop old))
        else
          some (state.setPc thread (.popNode old))
      else
        some (state.setPc thread .popFront)
  | .helpLoad caller old =>
      some (state.setPc thread
        (.helpCas caller old
          (expectedNode old (state.nodes old.rear.index))))
  | .helpCas caller old oldNode =>
      if state.nodes old.rear.index = oldNode ∧ spurious = false then
        some ((state.finish old).setPc thread (afterHelp old caller))
      else
        some (state.setPc thread
          (.helpCas caller old (state.nodes old.rear.index)))
  | .pushNode value old =>
      if old.front.index = (old.rear.index + 2) % size then
        none
      else
        some (state.setPc thread
          (.pushCas old
            (nextRear size value old
              (state.nodes ((old.rear.index + 1) % size)))))
  | .pushCas old newRear =>
      if state.rear = old.rear ∧ spurious = false then
        some { state.setPc thread .idle with
          rear := newRear
          pushed := state.pushed ++ [newRear.value] }
      else
        some (state.setPc thread (.pushRear newRear.value))
  | .popNode old =>
      if old.front.index = (old.rear.index + 1) % size then
        some (state.setPc thread .idle)
      else
        some (state.setPc thread
          (.popCas old (state.nodes (old.front.index % size)).value))
  | .popCas old ret =>
      if state.front = old.front then
        some { state.setPc thread .idle with
          front := nextFront size old.front
          popped := state.popped ++ [ret] }
      else
        some (state.setPc thread .popFront)

/-- One step, if the thread can take it. -/
def step
    (size : Nat)
    (state : State Value) :
    Action Value → Option (State Value)
  | .push thread value =>
      if state.pc thread = .idle then
        some (state.setPc thread (.pushRear value))
      else
        none
  | .pop thread =>
      if state.pc thread = .idle then
        some (state.setPc thread .popFront)
      else
        none
  | .run thread spurious =>
      advance size state thread spurious

/-- The counter that a thread computes next does not wrap. -/
def CounterFits (size : Nat) (state : State Value) : Pc Value → Prop
  | .pushNode _ old =>
      (state.nodes ((old.rear.index + 1) % size)).counter + 1 < 2 ^ 32
  | .popCas old _ => old.front.counter + 1 < 2 ^ 32
  | _ => True

/-- No 32-bit counter computed in this step wraps. -/
def NoWrap (size : Nat) (state : State Value) : Action Value → Prop
  | .run thread _ => CounterFits size state (state.pc thread)
  | _ => True

instance
    (size : Nat)
    (state : State Value) :
    (pc : Pc Value) → Decidable (CounterFits size state pc)
  | .pushNode _ _ => inferInstanceAs (Decidable (_ < _))
  | .popCas _ _ => inferInstanceAs (Decidable (_ < _))
  | .idle | .pushRear _ | .pushFront _ _ _ | .pushCheck _ _ | .popFront
  | .popRear _ | .popCheck _ | .helpLoad _ _ | .helpCas _ _ _ | .pushCas _ _
  | .popNode _ => .isTrue trivial

instance
    (size : Nat)
    (state : State Value) :
    (action : Action Value) → Decidable (NoWrap size state action)
  | .run thread _ =>
      inferInstanceAs (Decidable (CounterFits size state (state.pc thread)))
  | .push _ _ | .pop _ => .isTrue trivial

/-- Steps in which no counter wraps. -/
def CountedStep
    (size : Nat)
    (before : State Value)
    (action : Action Value)
    (after : State Value) : Prop :=
  step size before action = some after ∧ NoWrap size before action

/--
The thread is in `finish_enqueue` for a push after which `size` more pushes
were made and the last of them, the next push into the same slot, was
completed; its exchange finds the slot as it last read it.
-/
def Overtaken (size : Nat) (state : State Value) : Pc Value → Prop
  | .helpCas _ old oldNode =>
      state.nodes old.rear.index = oldNode ∧
        old.since + size ≤ state.completed
  | _ => False

/-- The step is a successful exchange of an overtaken `finish_enqueue`. -/
def StaleExchange (size : Nat) (state : State Value) : Action Value → Prop
  | .run thread false => Overtaken size state (state.pc thread)
  | _ => False

instance
    (size : Nat)
    (state : State Value) :
    (pc : Pc Value) → Decidable (Overtaken size state pc)
  | .helpCas _ _ _ => inferInstanceAs (Decidable (_ ∧ _))
  | .idle | .pushRear _ | .pushFront _ _ _ | .pushCheck _ _ | .popFront
  | .popRear _ | .popCheck _ | .helpLoad _ _ | .pushNode _ _ | .pushCas _ _
  | .popNode _ | .popCas _ _ => .isFalse id

instance
    (size : Nat)
    (state : State Value) :
    (action : Action Value) → Decidable (StaleExchange size state action)
  | .run thread false =>
      inferInstanceAs (Decidable (Overtaken size state (state.pc thread)))
  | .run _ true | .push _ _ | .pop _ => .isFalse id

/-- Steps in which no helper was stalled for a lap of the ring. -/
def FreshStep
    (size : Nat)
    (before : State Value)
    (action : Action Value)
    (after : State Value) : Prop :=
  CountedStep size before action after ∧ ¬ StaleExchange size before action

variable {size : Nat} {state state' : State Value}

/-- A thread outside the exchange of `finish_enqueue` writes no slot. -/
theorem advance_nodes
    {thread : Nat}
    {spurious : Bool}
    (accepted : advance size state thread spurious = some state')
    (elsewhere :
      ∀ caller old oldNode,
        state.pc thread ≠ .helpCas caller old oldNode) :
    state'.nodes = state.nodes := by
  unfold advance at accepted
  split at accepted
  case h_9 caller old oldNode shape =>
    exact absurd shape (elsewhere caller old oldNode)
  all_goals repeat' split at accepted
  all_goals cases accepted
  all_goals rfl

/-- Only a successful exchange of `finish_enqueue` writes a slot. -/
theorem step_nodes
    {action : Action Value}
    (accepted : step size state action = some state') :
    state'.nodes = state.nodes ∧ ¬ StaleExchange size state action ∨
      ∃ thread caller old,
        action = .run thread false ∧
          state.pc thread =
            .helpCas caller old (state.nodes old.rear.index) ∧
          state'.nodes =
            Function.update state.nodes old.rear.index (finishedNode old) := by
  cases action with
  | push thread value =>
      simp only [step] at accepted
      split at accepted <;> cases accepted
      exact .inl ⟨rfl, id⟩
  | pop thread =>
      simp only [step] at accepted
      split at accepted <;> cases accepted
      exact .inl ⟨rfl, id⟩
  | run thread spurious =>
      simp only [step] at accepted
      by_cases helping :
          ∃ caller old oldNode, state.pc thread = .helpCas caller old oldNode
      · obtain ⟨caller, old, oldNode, shape⟩ := helping
        simp only [advance, shape] at accepted
        split at accepted
        · next succeeds =>
            obtain ⟨rfl, rfl⟩ := succeeds
            cases accepted
            exact .inr ⟨thread, caller, old, rfl, shape, rfl⟩
        · next fails =>
            cases accepted
            refine .inl ⟨rfl, ?_⟩
            cases spurious with
            | true =>
                exact id
            | false =>
                simp only [StaleExchange, shape, Overtaken]
                exact fun stale => fails ⟨stale.1, rfl⟩
      · have elsewhere :
            ∀ caller old oldNode,
              state.pc thread ≠ .helpCas caller old oldNode :=
          fun caller old oldNode shape => helping ⟨caller, old, oldNode, shape⟩
        refine .inl ⟨advance_nodes accepted elsewhere, ?_⟩
        intro stale
        unfold StaleExchange Overtaken at stale
        split at stale
        · next another sameAction =>
            cases sameAction
            split at stale
            · next caller old oldNode shape =>
                exact elsewhere caller old oldNode shape
            · exact stale
        · exact stale

end Steps

variable [Zero Value]

/-- The queue as its constructor leaves it. -/
def empty : State Value where
  rear := { value := 0, index := 0, counter := 0 }
  front := { index := 1, counter := 0 }
  nodes := fun _ => { value := 0, counter := 0 }
  pc := fun _ => .idle
  pushed := []
  popped := []
  completed := 0

/-- The value of a push; before the first push `rear` holds zero. -/
def valueAt (pushed : List Value) (n : Nat) : Value :=
  (0 :: pushed)[n]?.getD 0

/-- The word in `rear` after a push. -/
def rearAt (size : Nat) (pushed : List Value) (n : Nat) : Rear Value :=
  { value := valueAt pushed n
    index := n % size
    counter := generation size n }

/-- A snapshot holds a past `rear` and a past `front`. -/
structure SnapshotOk
    (size : Nat)
    (state : State Value)
    (old : Snapshot Value) : Prop where
  rear : old.rear = rearAt size state.pushed old.since
  past : old.since ≤ state.pushed.length
  front : old.front.index = (old.front.counter + 1) % size
  popped : old.front.counter ≤ state.popped.length

/-- A checked snapshot holds ends less than a lap apart. -/
structure Checked
    (size : Nat)
    (state : State Value)
    (old : Snapshot Value) : Prop extends SnapshotOk size state old where
  ordered : old.front.counter ≤ old.since
  room : old.since < old.front.counter + size

/-- What a thread knows in the middle of a call. -/
def PcOk (size : Nat) (state : State Value) : Pc Value → Prop
  | .idle => True
  | .pushRear _ => True
  | .pushFront _ rear since =>
      rear = rearAt size state.pushed since ∧ since ≤ state.pushed.length
  | .pushCheck _ old =>
      SnapshotOk size state old ∧ old.since < old.front.counter + size
  | .popFront => True
  | .popRear front =>
      front.index = (front.counter + 1) % size ∧
        front.counter ≤ state.popped.length
  | .popCheck old =>
      SnapshotOk size state old ∧ old.front.counter ≤ old.since
  | .helpLoad _ old => Checked size state old
  | .helpCas _ old _ => Checked size state old
  | .pushNode _ old =>
      Checked size state old ∧ old.since ≤ state.completed
  | .pushCas old newRear =>
      Checked size state old ∧
        old.since ≤ state.completed ∧
        old.since + 2 ≤ old.front.counter + size ∧
        newRear.index = (old.since + 1) % size ∧
        (old.since = state.pushed.length →
          newRear.counter = generation size (old.since + 1))
  | .popNode old =>
      Checked size state old ∧
        (old.since = old.front.counter ∨
          old.front.counter + 1 ≤ state.completed)
  | .popCas old ret =>
      Checked size state old ∧
        old.front.counter + 1 ≤ state.pushed.length ∧
        (old.front.counter = state.popped.length →
          ret = valueAt state.pushed (old.front.counter + 1))

/-- What holds between steps when no helper was stalled for a lap. -/
structure Inv (size : Nat) (state : State Value) : Prop where
  rear : state.rear = rearAt size state.pushed state.pushed.length
  front :
    state.front =
      { index := (state.popped.length + 1) % size
        counter := state.popped.length }
  fifo : state.popped <+: state.pushed
  room : state.pushed.length < state.popped.length + size
  lagging : state.pushed.length ≤ state.completed + 1
  started : state.completed ≤ state.pushed.length
  /-- Every slot waits for one of the next `size` pushes. -/
  counters :
    ∀ n, state.completed < n → n ≤ state.completed + size →
      (state.nodes (n % size)).counter + 1 = generation size n
  /-- The last `size` completed pushes are in their slots. -/
  values :
    ∀ n, n ≤ state.completed → state.completed < n + size →
      (state.nodes (n % size)).value = valueAt state.pushed n
  threads : ∀ thread, PcOk size state (state.pc thread)

variable {size : Nat} {state state' : State Value}

/-- Later pushes leave the earlier values. -/
theorem valueAt_append
    {pushed more : List Value}
    {n : Nat}
    (past : n ≤ pushed.length) :
    valueAt (pushed ++ more) n = valueAt pushed n := by
  unfold valueAt
  rw [← List.cons_append, List.getElem?_append_left]
  rw [List.length_cons]
  omega

/-- The last push has the last value. -/
theorem valueAt_last
    {pushed : List Value}
    {value : Value} :
    valueAt (pushed ++ [value]) (pushed.length + 1) = value := by
  simp [valueAt]

/-- Later pushes leave the earlier words of `rear`. -/
theorem rearAt_append
    {pushed more : List Value}
    {n : Nat}
    (past : n ≤ pushed.length) :
    rearAt size (pushed ++ more) n = rearAt size pushed n := by
  unfold rearAt
  rw [valueAt_append past]

/-- `rear` never returns to an earlier word. -/
theorem rearAt_injective
    {pushed : List Value}
    {first second : Nat}
    (positive : 0 < size)
    (same : rearAt size pushed first = rearAt size pushed second) :
    first = second := by
  injection same with _ sameIndex sameCounter
  exact Lib.eq_of_sameGeneration positive sameIndex sameCounter

/-- The histories of a later state extend those of an earlier one. -/
structure Later (state state' : State Value) : Prop where
  pushed : state.pushed <+: state'.pushed
  popped : state.popped.length ≤ state'.popped.length
  completed : state.completed ≤ state'.completed

/-- Snapshots stay valid. -/
theorem SnapshotOk.later
    {old : Snapshot Value}
    (ok : SnapshotOk size state old)
    (later : Later state state') :
    SnapshotOk size state' old := by
  obtain ⟨more, extended⟩ := later.pushed
  have longer := later.pushed.length_le
  refine ⟨?_, ok.past.trans longer, ok.front, ok.popped.trans later.popped⟩
  rw [← extended, rearAt_append ok.past]
  exact ok.rear

/-- Checked snapshots stay checked. -/
theorem Checked.later
    {old : Snapshot Value}
    (ok : Checked size state old)
    (later : Later state state') :
    Checked size state' old :=
  ⟨ok.toSnapshotOk.later later, ok.ordered, ok.room⟩

/-- What a thread knows stays true when other threads move. -/
theorem PcOk.later
    {pc : Pc Value}
    (ok : PcOk size state pc)
    (later : Later state state') :
    PcOk size state' pc := by
  have longer := later.pushed.length_le
  have popped := later.popped
  have completed := later.completed
  obtain ⟨more, extended⟩ := later.pushed
  cases pc with
  | idle | pushRear | popFront =>
      trivial
  | pushFront value rear since =>
      obtain ⟨isRear, past⟩ := ok
      refine ⟨?_, past.trans longer⟩
      rw [← extended, rearAt_append past]
      exact isRear
  | pushCheck value old =>
      exact ⟨ok.1.later later, ok.2⟩
  | popRear front =>
      exact ⟨ok.1, ok.2.trans popped⟩
  | popCheck old =>
      exact ⟨ok.1.later later, ok.2⟩
  | helpLoad caller old =>
      exact Checked.later ok later
  | helpCas caller old oldNode =>
      exact Checked.later ok later
  | pushNode value old =>
      exact ⟨ok.1.later later, ok.2.trans completed⟩
  | pushCas old newRear =>
      obtain ⟨checked, finished, room, index, counter⟩ := ok
      refine ⟨checked.later later, finished.trans completed, room, index, ?_⟩
      intro current
      have past := checked.past
      exact counter (by omega)
  | popNode old =>
      exact ⟨ok.1.later later, ok.2.imp_right (·.trans completed)⟩
  | popCas old ret =>
      obtain ⟨checked, past, value⟩ := ok
      refine ⟨checked.later later, past.trans longer, ?_⟩
      intro current
      have earlier := checked.popped
      rw [← extended, valueAt_append past]
      exact value (by omega)

/-- Moving a thread to a place it may be at keeps the invariant. -/
theorem Inv.setPc
    (inv : Inv size state)
    {thread : Nat}
    {pc : Pc Value}
    (ok : PcOk size state pc) :
    Inv size (state.setPc thread pc) := by
  refine { inv with threads := ?_ }
  intro other
  have later : Later state (state.setPc thread pc) :=
    ⟨List.prefix_rfl, le_rfl, le_rfl⟩
  refine PcOk.later ?_ later
  change PcOk size state (Function.update state.pc thread pc other)
  rcases eq_or_ne other thread with rfl | differs
  · rw [Function.update_self]
    exact ok
  · rw [Function.update_of_ne differs]
    exact inv.threads other

/-- A snapshot taken under the invariant. -/
theorem Inv.frontOk
    (inv : Inv size state) :
    state.front.index = (state.front.counter + 1) % size ∧
      state.front.counter = state.popped.length := by
  rw [inv.front]
  exact ⟨rfl, rfl⟩

/-- No more values are popped than pushed. -/
theorem Inv.popped_le
    (inv : Inv size state) :
    state.popped.length ≤ state.pushed.length :=
  inv.fifo.length_le

/-- The slot of a push without a completed successor, before and after. -/
theorem Inv.finish
    (inv : Inv size state)
    (several : 2 ≤ size)
    {old : Snapshot Value}
    (checked : Checked size state old)
    (fresh : state.completed < old.since + size) :
    Inv size (state.finish old) := by
  have positive : 0 < size := by omega
  have past := checked.past
  have lagging := inv.lagging
  have started := inv.started
  have written :
      (state.finish old).nodes =
        Function.update state.nodes (old.since % size)
          { value := valueAt state.pushed old.since
            counter := generation size old.since } := by
    simp only [State.finish, finishedNode, checked.rear, rearAt]
  have later : Later state (state.finish old) :=
    ⟨List.prefix_rfl, le_rfl, le_max_left _ _⟩
  have threads :
      ∀ thread, PcOk size (state.finish old) ((state.finish old).pc thread) :=
    fun thread => (inv.threads thread).later later
  rcases Nat.lt_or_ge state.completed old.since with next | done
  · -- The helper completes the last push.
    have completes : (state.finish old).completed = old.since :=
      max_eq_right next.le
    refine
      { rear := inv.rear
        front := inv.front
        fifo := inv.fifo
        room := inv.room
        lagging := ?_
        started := ?_
        counters := ?_
        values := ?_
        threads := threads }
    · rw [completes]
      exact (show state.pushed.length ≤ old.since + 1 by omega)
    · rw [completes]
      exact past
    · intro n after within
      rw [completes] at after within
      rw [written]
      by_cases lap : n = old.since + size
      · rw [lap, Nat.add_mod_right, Function.update_self,
          Lib.generation_add_size positive]
      · rw [Function.update_of_ne]
        · exact inv.counters n (by omega) (by omega)
        · intro sameSlot
          exact after.ne
            (Lib.eq_of_sameSlot sameSlot.symm after.le (by omega))
    · intro n upTo within
      rw [completes] at upTo within
      rw [written]
      by_cases isLast : n = old.since
      · rw [isLast, Function.update_self]
        rfl
      · rw [Function.update_of_ne]
        · exact inv.values n (by omega) (by omega)
        · intro sameSlot
          exact isLast (Lib.eq_of_sameSlot sameSlot upTo within)
  · -- The push was completed before; its slot is written again.
    have unchanged : (state.finish old).nodes = state.nodes := by
      rw [written, Function.update_eq_self_iff]
      have counter := inv.counters (old.since + size) fresh (by omega)
      rw [Nat.add_mod_right, Lib.generation_add_size positive] at counter
      have value := inv.values old.since done fresh
      rw [← value, ← Nat.succ.inj counter]
    have completes : (state.finish old).completed = state.completed :=
      max_eq_left done
    have same : state.finish old = state := by
      cases state
      simp only [State.finish, State.mk.injEq, true_and] at unchanged completes ⊢
      exact ⟨unchanged, completes⟩
    rw [same]
    exact inv

/-- The exchange of `rear` in `push` keeps the invariant. -/
theorem Inv.pushed
    (inv : Inv size state)
    (several : 2 ≤ size)
    {old : Snapshot Value}
    {newRear : Rear Value}
    {thread : Nat}
    (ok : PcOk size state (.pushCas old newRear))
    (unchanged : state.rear = old.rear) :
    Inv size
      { state.setPc thread .idle with
        rear := newRear
        pushed := state.pushed ++ [newRear.value] } := by
  obtain ⟨checked, finished, room, index, counter⟩ := ok
  have positive : 0 < size := by omega
  have same :
      rearAt size state.pushed old.since =
        rearAt size state.pushed state.pushed.length := by
    rw [← inv.rear, unchanged, checked.rear]
  have current : old.since = state.pushed.length :=
    rearAt_injective positive same
  have popped := checked.popped
  have started := inv.started
  have length :
      (state.pushed ++ [newRear.value]).length = state.pushed.length + 1 := by
    simp
  have later :
      Later (state.setPc thread .idle)
        { state.setPc thread .idle with
          rear := newRear
          pushed := state.pushed ++ [newRear.value] } :=
    ⟨List.prefix_append _ _, le_rfl, le_rfl⟩
  refine
    { rear := ?_
      front := inv.front
      fifo := inv.fifo.trans (List.prefix_append _ _)
      room := ?_
      lagging := ?_
      started := ?_
      counters := inv.counters
      values := ?_
      threads := ?_ }
  · change newRear = rearAt size (state.pushed ++ [newRear.value]) _
    rw [length]
    unfold rearAt
    rw [valueAt_last, ← current, ← counter current, ← index]
  · change (state.pushed ++ [newRear.value]).length < state.popped.length + size
    omega
  · change (state.pushed ++ [newRear.value]).length ≤ state.completed + 1
    omega
  · change state.completed ≤ (state.pushed ++ [newRear.value]).length
    omega
  · intro n upTo within
    change n ≤ state.completed at upTo
    change (state.nodes (n % size)).value =
      valueAt (state.pushed ++ [newRear.value]) n
    rw [valueAt_append (by omega)]
    exact inv.values n upTo within
  · intro other
    have leaves : PcOk size state .idle := trivial
    exact ((inv.setPc leaves).threads other).later later

/-- The exchange of `front` in `pop` keeps the invariant. -/
theorem Inv.popped
    (inv : Inv size state)
    {old : Snapshot Value}
    {ret : Value}
    {thread : Nat}
    (ok : PcOk size state (.popCas old ret))
    (unchanged : state.front = old.front)
    (noWrap : old.front.counter + 1 < 2 ^ 32) :
    Inv size
      { state.setPc thread .idle with
        front := nextFront size old.front
        popped := state.popped ++ [ret] } := by
  obtain ⟨checked, available, value⟩ := ok
  have current : old.front.counter = state.popped.length := by
    rw [← unchanged, inv.front]
  have length :
      (state.popped ++ [ret]).length = state.popped.length + 1 := by
    simp
  have later :
      Later (state.setPc thread .idle)
        { state.setPc thread .idle with
          front := nextFront size old.front
          popped := state.popped ++ [ret] } :=
    ⟨List.prefix_rfl, by rw [length]; exact Nat.le_succ _, le_rfl⟩
  refine
    { rear := inv.rear
      front := ?_
      fifo := ?_
      room := ?_
      lagging := inv.lagging
      started := inv.started
      counters := inv.counters
      values := inv.values
      threads := ?_ }
  · change nextFront size old.front = _
    unfold nextFront
    rw [Nat.mod_eq_of_lt noWrap, checked.front, Nat.mod_add_mod, current,
      length]
  · change state.popped ++ [ret] <+: state.pushed
    have next := value current
    rw [current] at next available
    have first : state.pushed[state.popped.length]? = some ret := by
      rw [next, valueAt, List.getElem?_cons_succ,
        List.getElem?_eq_getElem available, Option.getD_some]
    rw [List.prefix_iff_eq_take, length, List.take_add_one, first,
      ← List.prefix_iff_eq_take.mp inv.fifo]
    rfl
  · have room := inv.room
    change state.pushed.length < (state.popped ++ [ret]).length + size
    omega
  · intro other
    have leaves : PcOk size state .idle := trivial
    exact ((inv.setPc leaves).threads other).later later

/-- A snapshot with a single value has equal indices. -/
theorem Checked.notSingle
    {old : Snapshot Value}
    (checked : Checked size state old)
    (differs : old.front.index ≠ old.rear.index) :
    old.since ≠ old.front.counter + 1 := by
  intro single
  apply differs
  rw [checked.front, checked.rear, rearAt, single]

/-- A snapshot that does not look empty has a value. -/
theorem Checked.nonempty
    {old : Snapshot Value}
    (checked : Checked size state old)
    (differs : old.front.index ≠ (old.rear.index + 1) % size) :
    old.since ≠ old.front.counter := by
  intro none
  apply differs
  rw [checked.front, checked.rear, rearAt, Nat.mod_add_mod, none]

/-- A snapshot that does not look full leaves a slot. -/
theorem Checked.notFull
    {old : Snapshot Value}
    (checked : Checked size state old)
    (differs : old.front.index ≠ (old.rear.index + 2) % size) :
    old.since + 2 ≤ old.front.counter + size := by
  have room := checked.room
  by_contra full
  apply differs
  have isFull : old.since + 2 = old.front.counter + 1 + size := by
    omega
  rw [checked.front, checked.rear, rearAt, Nat.mod_add_mod, isFull,
    Nat.add_mod_right]

/--
The slot of a push holds its own or an earlier generation exactly until the
next push into the slot is completed.
-/
theorem Inv.counter_le_iff
    (inv : Inv size state)
    (several : 2 ≤ size)
    {n : Nat}
    (past : n ≤ state.pushed.length) :
    (state.nodes (n % size)).counter ≤ generation size n ↔
      state.completed < n + size := by
  have positive : 0 < size := by omega
  have lagging := inv.lagging
  rcases Nat.lt_or_ge state.completed n with next | done
  · have counter := inv.counters n next (by omega)
    omega
  · -- `laps` completed pushes used the slot after this one.
    obtain ⟨laps, isLaps⟩ :
        ∃ laps, laps = (state.completed - n) / size := ⟨_, rfl⟩
    have divided := Nat.div_add_mod (state.completed - n) size
    have remainder := Nat.mod_lt (state.completed - n) positive
    rw [← isLaps] at divided
    have counter :=
      inv.counters (n + size * (laps + 1))
        (by rw [Nat.mul_succ]; omega)
        (by rw [Nat.mul_succ]; omega)
    rw [Nat.add_mul_mod_self_left, Lib.generation_add_mul positive] at counter
    have noLap : laps = 0 ↔ state.completed - n < size := by
      rw [isLaps, Nat.div_eq_zero_iff]
      omega
    omega

/-- The invariant holds of the constructed queue. -/
theorem inv_empty
    (several : 2 ≤ size) :
    Inv size (empty : State Value) := by
  have positive : 0 < size := by omega
  have first : generation size 0 = 0 := Lib.generation_zero positive
  refine
    { rear := ?_
      front := ?_
      fifo := List.prefix_rfl
      room := ?_
      lagging := Nat.zero_le _
      started := le_rfl
      counters := ?_
      values := ?_
      threads := fun _ => trivial }
  · simp [empty, rearAt, valueAt, first]
  · simp only [empty, List.length_nil, Nat.zero_add, Front.mk.injEq, and_true]
    rw [Nat.mod_eq_of_lt several]
  · exact (Nat.zero_add size).symm ▸ positive
  · intro n after within
    change 0 + 1 = generation size n
    change 0 < n at after
    rcases Nat.lt_or_ge n size with firstLap | lap
    · rw [Lib.generation_of_lt after firstLap]
    · change n ≤ 0 + size at within
      have isSize : n = 0 + size := by omega
      rw [isSize, Lib.generation_add_size positive, first]
  · intro n upTo within
    rw [Nat.le_zero.mp upTo]
    rfl

section Runs

variable [DecidableEq Value]

/-- One step of a thread in a call keeps the invariant. -/
theorem Inv.advance
    (inv : Inv size state)
    (several : 2 ≤ size)
    {thread : Nat}
    {spurious : Bool}
    (accepted : advance size state thread spurious = some state')
    (noWrap : NoWrap size state (.run thread spurious))
    (fresh : ¬ StaleExchange size state (.run thread spurious)) :
    Inv size state' := by
  have positive : 0 < size := by omega
  have room := inv.room
  have lagging := inv.lagging
  have started := inv.started
  have poppedLe := inv.popped_le
  have ok := inv.threads thread
  obtain ⟨frontIndex, frontCounter⟩ := inv.frontOk
  unfold ArrayQueue.advance at accepted
  cases shape : state.pc thread with
  | idle =>
      rw [shape] at accepted
      cases accepted
  | pushRear value =>
      rw [shape] at accepted
      cases accepted
      exact inv.setPc ⟨inv.rear, le_rfl⟩
  | pushFront value rear since =>
      rw [shape] at accepted ok
      cases accepted
      obtain ⟨isRear, past⟩ := ok
      refine inv.setPc ⟨⟨isRear, past, frontIndex, frontCounter.le⟩, ?_⟩
      rw [frontCounter]
      exact past.trans_lt room
  | pushCheck value old =>
      rw [shape] at accepted ok
      obtain ⟨snapshot, within⟩ := ok
      simp only at accepted
      split at accepted
      · next unchanged =>
          cases accepted
          have same :
              rearAt size state.pushed old.since =
                rearAt size state.pushed state.pushed.length := by
            rw [← inv.rear, ← unchanged, snapshot.rear]
          have current := rearAt_injective positive same
          have popped := snapshot.popped
          exact inv.setPc ⟨snapshot, by omega, within⟩
      · cases accepted
        exact inv.setPc trivial
  | popFront =>
      rw [shape] at accepted
      cases accepted
      exact inv.setPc ⟨frontIndex, frontCounter.le⟩
  | popRear front =>
      rw [shape] at accepted ok
      cases accepted
      obtain ⟨index, popped⟩ := ok
      exact inv.setPc
        ⟨⟨inv.rear, le_rfl, index, popped⟩, popped.trans poppedLe⟩
  | popCheck old =>
      rw [shape] at accepted ok
      obtain ⟨snapshot, ordered⟩ := ok
      simp only at accepted
      split at accepted
      · next unchanged =>
          have past := snapshot.past
          have current : old.front.counter = state.popped.length := by
            rw [unchanged, frontCounter]
          have checked : Checked size state old :=
            ⟨snapshot, ordered, by omega⟩
          split at accepted
          · cases accepted
            exact inv.setPc checked
          · next differs =>
              cases accepted
              have notSingle := checked.notSingle differs
              exact inv.setPc ⟨checked, by omega⟩
      · cases accepted
        exact inv.setPc trivial
  | helpLoad caller old =>
      rw [shape] at accepted ok
      cases accepted
      exact inv.setPc ok
  | helpCas caller old oldNode =>
      rw [shape] at accepted ok
      simp only at accepted
      split at accepted
      · next succeeds =>
          obtain ⟨unchanged, rfl⟩ := succeeds
          cases accepted
          simp only [StaleExchange, shape, Overtaken, not_and, not_le] at fresh
          have finished := inv.finish several ok (fresh unchanged)
          have later : Later state (state.finish old) :=
            ⟨List.prefix_rfl, le_rfl, le_max_left _ _⟩
          have checked := Checked.later ok later
          have completes : old.since ≤ (state.finish old).completed :=
            le_max_right _ _
          have ordered := checked.ordered
          cases caller with
          | push value =>
              exact finished.setPc ⟨checked, completes⟩
          | pop =>
              exact finished.setPc ⟨checked, by omega⟩
      · cases accepted
        exact inv.setPc ok
  | pushNode value old =>
      rw [shape] at accepted ok
      simp only [NoWrap, shape, CounterFits] at noWrap
      obtain ⟨checked, completes⟩ := ok
      simp only at accepted
      split at accepted
      · cases accepted
      · next differs =>
          cases accepted
          have slot :
              (old.rear.index + 1) % size = (old.since + 1) % size := by
            rw [checked.rear, rearAt, Nat.mod_add_mod]
          refine inv.setPc
            ⟨checked, completes, checked.notFull differs, slot, ?_⟩
          intro current
          have counter :=
            inv.counters (old.since + 1) (by omega) (by omega)
          rw [slot] at noWrap ⊢
          rw [nextRear, Nat.mod_eq_of_lt noWrap, counter]
  | pushCas old newRear =>
      rw [shape] at accepted ok
      simp only at accepted
      split at accepted
      · next succeeds =>
          cases accepted
          exact inv.pushed several ok succeeds.1
      · cases accepted
        exact inv.setPc trivial
  | popNode old =>
      rw [shape] at accepted ok
      obtain ⟨checked, completes⟩ := ok
      simp only at accepted
      split at accepted
      · cases accepted
        exact inv.setPc trivial
      · next differs =>
          cases accepted
          have nonempty := checked.nonempty differs
          have done : old.front.counter + 1 ≤ state.completed :=
            completes.resolve_left nonempty
          refine inv.setPc ⟨checked, done.trans started, ?_⟩
          intro current
          rw [checked.front, Nat.mod_mod]
          exact inv.values (old.front.counter + 1) done (by omega)
  | popCas old ret =>
      rw [shape] at accepted ok
      simp only [NoWrap, shape, CounterFits] at noWrap
      simp only at accepted
      split at accepted
      · next unchanged =>
          cases accepted
          exact inv.popped ok unchanged noWrap
      · cases accepted
        exact inv.setPc trivial

/-- Every step without a stalled helper keeps the invariant. -/
theorem Inv.step
    (inv : Inv size state)
    (several : 2 ≤ size)
    {action : Action Value}
    (stepped : FreshStep size state action state') :
    Inv size state' := by
  obtain ⟨⟨accepted, noWrap⟩, fresh⟩ := stepped
  cases action with
  | push thread value =>
      simp only [ArrayQueue.step] at accepted
      split at accepted
      · cases accepted
        exact inv.setPc trivial
      · cases accepted
  | pop thread =>
      simp only [ArrayQueue.step] at accepted
      split at accepted
      · cases accepted
        exact inv.setPc trivial
      · cases accepted
  | run thread spurious =>
      exact inv.advance several accepted noWrap fresh

/--
In every run in which no `finish_enqueue` is overtaken, the popped values are
the first pushed values in order; a further step lowers no slot's counter
exactly when it is no exchange of an overtaken `finish_enqueue`.
-/
theorem fifo_of_fresh
    (three : 3 ≤ size)
    (reached : Reaches (· = (empty : State Value)) (FreshStep size) state) :
    state.popped <+: state.pushed ∧
      ∀ action after,
        CountedStep size state action after →
        ((∀ i, (state.nodes i).counter ≤ (after.nodes i).counter) ↔
          ¬ StaleExchange size state action) := by
  have several : 2 ≤ size := by omega
  have inv : Inv size state :=
    reached.invariant
      (fun _ isEmpty => isEmpty ▸ inv_empty several)
      (fun _ _ _ inv stepped => inv.step several stepped)
  refine ⟨inv.fifo, ?_⟩
  intro action after stepped
  rcases step_nodes stepped.1 with
    ⟨unchanged, notStale⟩ | ⟨thread, caller, old, rfl, shape, written⟩
  · rw [unchanged]
    exact ⟨fun _ => notStale, fun _ i => le_rfl⟩
  · have checked : Checked size state old := by
      have ok := inv.threads thread
      rw [shape] at ok
      exact ok
    have boundary := inv.counter_le_iff several checked.past
    have index : old.rear.index = old.since % size := by
      rw [checked.rear]
      rfl
    have counter : old.rear.counter = generation size old.since := by
      rw [checked.rear]
      rfl
    simp only [StaleExchange, shape, Overtaken, true_and, not_le]
    rw [← boundary, written, ← counter, ← index]
    constructor
    · intro grows
      have here := grows old.rear.index
      rw [Function.update_self] at here
      exact here
    · intro here i
      rcases eq_or_ne i old.rear.index with rfl | differs
      · rw [Function.update_self]
        exact here
      · rw [Function.update_of_ne differs]

end Runs

/-- A thread takes several steps. -/
def runs (thread count : Nat) : List (Action Nat) :=
  List.replicate count (.run thread false)

/-- A thread pushes a value and pops a value. -/
def pushPop (thread value : Nat) : List (Action Nat) :=
  .push thread value :: runs thread 8 ++ .pop thread :: runs thread 7

/-- One push and one pop on a ring of three slots. -/
theorem fifo_of_fresh_pushPop :
    ∃ state : State Nat,
      Reaches (· = empty) (FreshStep 3) state ∧
        state.pushed = [10] ∧
        state.popped = [10] ∧
        state.popped <+: state.pushed := by
  have accepted :
      (Reaches.runAll
          (Reaches.guarded
            (fun state action =>
              NoWrap 3 state action ∧ ¬ StaleExchange 3 state action)
            (step 3))
          (pushPop 1 10) empty).map
        (fun state => (state.pushed, state.popped)) =
        some ([10], [10]) := by
    decide +kernel
  obtain ⟨state, executed, histories⟩ := Option.map_eq_some_iff.mp accepted
  obtain ⟨isPushed, isPopped⟩ := Prod.mk.inj histories
  have reached : Reaches (· = empty) (FreshStep 3) state :=
    Reaches.of_guarded
      (fun _ _ _ stepped allowed => ⟨⟨stepped, allowed.1⟩, allowed.2⟩)
      (.start rfl) executed
  exact ⟨state, reached, isPushed, isPopped,
    (fifo_of_fresh (by decide) reached).1⟩

/--
Thread 0 stalls in `finish_enqueue` for the first push while thread 1 goes round
the ring.
-/
def overtaking : List (Action Nat) :=
  .push 1 10 :: runs 1 8 ++ .pop 0 :: runs 0 4 ++ .pop 1 :: runs 1 7 ++
    pushPop 1 20 ++ pushPop 1 30 ++
    .push 1 40 :: runs 1 8 ++ .push 1 50 :: runs 1 7

/--
The stalled exchange of thread 0 fails once and then puts the first value back
into its slot; the next pop returns that value a second time.
-/
theorem stalled_helper_repeats_value :
    ∃ before after final : State Nat,
      Reaches (· = empty) (CountedStep 3) before ∧
        CountedStep 3 before (.run 0 false) after ∧
        (after.nodes 1).counter < (before.nodes 1).counter ∧
        Reaches (· = empty) (CountedStep 3) final ∧
        final.pushed = [10, 20, 30, 40, 50] ∧
        final.popped = [10, 20, 30, 10] ∧
        ¬ final.popped <+: final.pushed := by
  have accepted :
      ((Reaches.runAll (Reaches.guarded (NoWrap 3) (step 3))
            (overtaking ++ runs 0 1) empty).bind fun before =>
          (Reaches.guarded (NoWrap 3) (step 3) before (.run 0 false)).bind
            fun after =>
              (Reaches.runAll (Reaches.guarded (NoWrap 3) (step 3))
                  (.pop 1 :: runs 1 5) after).map fun final =>
                ((before.nodes 1).counter, (after.nodes 1).counter,
                  final.pushed, final.popped)) =
        some (2, 1, [10, 20, 30, 40, 50], [10, 20, 30, 10]) := by
    decide +kernel
  have sound :
      ∀ before action after,
        step 3 before action = some after →
        NoWrap 3 before action →
        @CountedStep Nat _ 3 before action after :=
    fun _ _ _ stepped fits => ⟨stepped, fits⟩
  obtain ⟨before, executed, rest⟩ := Option.bind_eq_some_iff.mp accepted
  obtain ⟨after, exchanged, rest⟩ := Option.bind_eq_some_iff.mp rest
  obtain ⟨final, popped, histories⟩ := Option.map_eq_some_iff.mp rest
  simp only [Prod.mk.injEq] at histories
  obtain ⟨newer, older, isPushed, isPopped⟩ := histories
  have reached : Reaches (· = empty) (CountedStep 3) before :=
    Reaches.of_guarded sound (.start rfl) executed
  have stepped : CountedStep 3 before (.run 0 false) after := by
    unfold Reaches.guarded at exchanged
    split at exchanged
    · next fits =>
        exact ⟨exchanged, fits⟩
    · cases exchanged
  refine ⟨before, after, final, reached, stepped, by omega,
    Reaches.of_guarded sound (reached.next stepped) popped,
    isPushed, isPopped, ?_⟩
  rw [isPushed, isPopped]
  decide

end ArrayQueue

end Bxalloc
