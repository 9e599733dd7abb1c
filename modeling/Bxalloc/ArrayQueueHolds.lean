import Bxalloc.ArrayQueueMachine

namespace Bxalloc

/-!
# What the queue has in persistent memory

Which pushes and pops are durable at which point of a call, and what the
exchanges of `push`, `pop` and `finish_enqueue` keep of it.
-/

open Lib (SharedLine generation)

namespace ArrayQueue

universe u

variable {Value : Type u}

section Invariant

variable {size : Nat} {state state' : State Value}
variable {lines lines' : Lines Value}

/-- The ends that a thread has read are durable behind its next fence. -/
structure Lines.Asked
    (lines : Lines Value)
    (thread : Nat)
    (old : Snapshot Value) : Prop where
  rear : old.since ≤ lines.rear.reach thread
  front : old.front.counter ≤ lines.front.reach thread

/-- The ends that a thread has read are durable. -/
structure Lines.Kept
    (lines : Lines Value)
    (old : Snapshot Value) : Prop where
  rear : old.since ≤ lines.rear.durable
  front : old.front.counter ≤ lines.front.durable

/-- The slot of a push is durable unless other pushes came behind it. -/
def Settled
    (size : Nat)
    (state : State Value)
    (lines : Lines Value)
    (n : Nat) : Prop :=
  n < state.pushed.length ∨
    (lines.node (n % size)).history.length ≤
      (lines.node (n % size)).durable + 1

/-- What has to be durable when a thread takes its next step. -/
def Secured
    (size : Nat)
    (state : State Value)
    (lines : Lines Value)
    (thread : Nat) : Pc Value → Prop
  | .helpLoad _ old => lines.Asked thread old
  | .helpCas _ old _ => lines.Kept old
  | .pushNode _ old => lines.Kept old ∧ Settled size state lines old.since
  | .pushCas old _ => lines.Kept old ∧ Settled size state lines old.since
  | .popNode old => lines.Asked thread old
  | .popCas old _ => lines.Kept old ∧ old.front.counter + 1 ≤ old.since
  | _ => True

theorem Lines.Asked.later
    {thread : Nat}
    {old : Snapshot Value}
    (asked : lines.Asked thread old)
    (later : lines.Extends lines') :
    lines'.Asked thread old :=
  ⟨asked.rear.trans (later.rear.reach thread),
    asked.front.trans (later.front.reach thread)⟩

theorem Lines.Kept.later
    {old : Snapshot Value}
    (kept : lines.Kept old)
    (later : lines.Extends lines') :
    lines'.Kept old :=
  ⟨kept.rear.trans later.rear.durable, kept.front.trans later.front.durable⟩

/-- What is durable need not be asked for. -/
theorem Lines.Kept.asked
    {old : Snapshot Value}
    (kept : lines.Kept old)
    (thread : Nat) :
    lines.Asked thread old :=
  ⟨kept.rear.trans (Nat.le_max_left _ _),
    kept.front.trans (Nat.le_max_left _ _)⟩

/-- The fence has come. -/
theorem Lines.Asked.fence
    {thread : Nat}
    {old : Snapshot Value}
    (asked : lines.Asked thread old) :
    (lines.perform thread .fence).Kept old :=
  ⟨asked.rear, asked.front⟩

/-- A thread writes back a slot and waits for it. -/
theorem settled_of_writtenBack
    (lines : Lines Value)
    (thread n : Nat) :
    Settled size state
      (lines.performAll thread [.node (n % size), .fence]) n := by
  refine .inr ?_
  let line := lines.node (n % size)
  have slot :
      (lines.performAll thread [.node (n % size), .fence]).node (n % size) =
        (line.flush thread).fence thread := by
    change (Function.update lines.node (n % size) _ (n % size)).fence thread = _
    rw [Function.update_self]
  have reach : ((line.flush thread).fence thread).durable = _ :=
    line.reach_flush thread
  have length :
      ((line.flush thread).fence thread).history.length =
        line.history.length :=
    rfl
  rw [slot, reach, length]
  omega

/-- A slot stays settled while nothing is stored into it. -/
theorem Settled.later
    {n : Nat}
    (settled : Settled size state lines n)
    (past : state.pushed.length ≤ state'.pushed.length)
    (history :
      (lines'.node (n % size)).history = (lines.node (n % size)).history)
    (later : lines.Extends lines') :
    Settled size state' lines' n := by
  rcases settled with overtaken | durable
  · exact .inl (overtaken.trans_le past)
  · refine .inr ?_
    rw [history]
    exact durable.trans (Nat.succ_le_succ (later.node (n % size)).durable)

variable [Zero Value]

/-- The word in `front` after a pop. -/
def frontAt (size n : Nat) : Front :=
  { index := (n + 1) % size, counter := n }

/--
A crash could leave the slot of the last push with the value of the push a lap
before.
-/
structure OneLapOld
    (size : Nat)
    (state : State Value)
    (index : Nat)
    (node : Node Value) : Prop where
  completed : state.completed = state.pushed.length
  last : index = state.pushed.length % size
  counter : node.counter + 1 = generation size state.pushed.length
  value :
    size ≤ state.pushed.length →
      node.value = valueAt state.pushed (state.pushed.length - size)

/-- What persistent memory has of the queue. -/
structure Lines.Holds
    (size : Nat)
    (state : State Value)
    (lines : Lines Value) : Prop where
  rear :
    lines.rear.Numbered (rearAt size state.pushed) state.pushed.length
  front : lines.front.Numbered (frontAt size) state.popped.length
  node : ∀ index, (lines.node index).current = state.nodes index
  /-- Nothing is completed or popped before its push is durable. -/
  completed : state.completed ≤ lines.rear.durable
  popped : state.popped.length ≤ lines.rear.durable
  /-- Slots are taken again when the pop that freed them is durable. -/
  room : state.pushed.length < lines.front.durable + size
  oldPops : state.popped.length ≤ lines.front.durable + 1
  slots :
    ∀ index value,
      value ∈ (lines.node index).values →
      value = state.nodes index ∨ OneLapOld size state index value

/-- A thread asks for both ends as they are now. -/
theorem Lines.Holds.asks
    (holds : lines.Holds size state)
    {old : Snapshot Value}
    (past : old.since ≤ state.pushed.length)
    (popped : old.front.counter ≤ state.popped.length)
    (thread : Nat) :
    (lines.performAll thread [.front, .rear]).Asked thread old := by
  constructor
  · change old.since ≤ (lines.rear.flush thread).reach thread
    rw [lines.rear.reach_flush, holds.rear.length]
    exact past
  · change old.front.counter ≤ (lines.front.flush thread).reach thread
    rw [lines.front.reach_flush, holds.front.length]
    exact popped

/-- The slot and the end that a helper needs next are secured behind its fence. -/
theorem secured_afterHelp
    {old : Snapshot Value}
    {thread : Nat}
    (caller : Caller Value)
    (checked : Checked size state old)
    (kept : lines.Kept old) :
    Secured size state'
      (lines.performAll thread [.node old.rear.index, .fence]) thread
      (afterHelp old caller) := by
  have later :=
    kept.later
      (lines.extends_performAll thread [.node old.rear.index, .fence])
  cases caller with
  | push value =>
      refine ⟨later, ?_⟩
      rw [checked.rear]
      exact settled_of_writtenBack lines thread old.since
  | pop => exact later.asked thread

/-- What a thread has secured stays so while others go on. -/
theorem Secured.later
    {thread : Nat}
    {pc : Pc Value}
    (secured : Secured size state lines thread pc)
    (ok : PcOk size state pc)
    (later : lines.Extends lines')
    (settled :
      ∀ n ≤ state.completed,
        Settled size state lines n →
        Settled size state' lines' n) :
    Secured size state' lines' thread pc := by
  cases pc with
  | idle | pushRear | pushFront | pushCheck | popFront | popRear | popCheck =>
      trivial
  | helpLoad caller old => exact Lines.Asked.later secured later
  | helpCas caller old oldNode => exact Lines.Kept.later secured later
  | pushNode value old =>
      exact ⟨secured.1.later later, settled _ ok.2 secured.2⟩
  | pushCas old newRear =>
      exact ⟨secured.1.later later, settled _ ok.2.1 secured.2⟩
  | popNode old => exact Lines.Asked.later secured later
  | popCas old ret => exact ⟨secured.1.later later, secured.2⟩

namespace Lines.Holds

/-- A write-back changes nothing but what is durable. -/
theorem perform
    (holds : lines.Holds size state)
    (thread : Nat)
    (event : WriteBack) :
    (lines.perform thread event).Holds size state := by
  obtain ⟨rear, front, node⟩ := lines.perform_history thread event
  have later := lines.extends_perform thread event
  exact
    { rear := holds.rear.of_history rear
      front := holds.front.of_history front
      node := fun index =>
        (SharedLine.current_congr (node index)).trans (holds.node index)
      completed := holds.completed.trans later.rear.durable
      popped := holds.popped.trans later.rear.durable
      room :=
        holds.room.trans_le (Nat.add_le_add_right later.front.durable size)
      oldPops := holds.oldPops.trans (Nat.succ_le_succ later.front.durable)
      slots := fun index value possible =>
        holds.slots index value (mem_values_perform possible) }

/-- Without a push in progress the slots hold the same across a crash. -/
theorem slots_of_lagging
    (holds : lines.Holds size state)
    (next : state.completed < state.pushed.length)
    {index : Nat}
    {value : Node Value}
    (possible : value ∈ (lines.node index).values) :
    value = state.nodes index :=
  (holds.slots index value possible).resolve_right
    fun old => next.ne old.completed

/-- The slot of the last push is settled when the next push is made. -/
theorem slots_of_settled
    (holds : lines.Holds size state)
    (settled : Settled size state lines state.pushed.length)
    {index : Nat}
    {value : Node Value}
    (possible : value ∈ (lines.node index).values) :
    value = state.nodes index := by
  rcases holds.slots index value possible with same | old
  · exact same
  · rcases settled with overtaken | durable
    · exact absurd overtaken (Nat.lt_irrefl _)
    · rw [← old.last] at durable
      rw [← holds.node index]
      exact SharedLine.values_of_durable durable possible

/-- A step that leaves `front` stores nothing into it. -/
theorem record_front
    (holds : lines.Holds size state)
    (inv : Inv size state) :
    lines.front.record state.front = lines.front := by
  have current : lines.front.current = state.front :=
    holds.front.current.trans inv.front.symm
  rw [← current, SharedLine.record_current]

variable [DecidableEq Value]

/-- A step that leaves `rear` stores nothing into it. -/
theorem record_rear
    (holds : lines.Holds size state)
    (inv : Inv size state) :
    lines.rear.record state.rear = lines.rear := by
  rw [inv.rear, ← holds.rear.current, SharedLine.record_current]

/-- A step that leaves a slot stores nothing into it. -/
theorem record_node
    (holds : lines.Holds size state)
    (index : Nat) :
    (lines.node index).record (state.nodes index) = lines.node index := by
  rw [← holds.node index, SharedLine.record_current]

/-- A step that leaves the queue stores nothing. -/
theorem record
    (holds : lines.Holds size state)
    (inv : Inv size state) :
    lines.record state = lines := by
  unfold Lines.record
  rw [holds.record_rear inv, holds.record_front inv,
    funext holds.record_node]

/-- The exchange of `rear`. -/
theorem afterPush
    (holds : lines.Holds size state)
    (inv : Inv size state)
    (positive : 0 < size)
    {old : Snapshot Value}
    {newRear : Rear Value}
    {thread : Nat}
    (inv' :
      Inv size
        { state.setPc thread .idle with
          rear := newRear
          pushed := state.pushed ++ [newRear.value] })
    (ok : PcOk size state (.pushCas old newRear))
    (current : old.since = state.pushed.length)
    (secured : Secured size state lines thread (.pushCas old newRear)) :
    (lines.record
        { state.setPc thread .idle with
          rear := newRear
          pushed := state.pushed ++ [newRear.value] }).Holds size
      { state.setPc thread .idle with
        rear := newRear
        pushed := state.pushed ++ [newRear.value] } := by
  obtain ⟨checked, finished, room, index, counter⟩ := ok
  obtain ⟨kept, settled⟩ := secured
  have later := lines.rear.extends_record newRear
  have length :
      (state.pushed ++ [newRear.value]).length = state.pushed.length + 1 := by
    rw [List.length_append]
    rfl
  have isNew :
      newRear =
        rearAt size (state.pushed ++ [newRear.value])
          (state.pushed.length + 1) :=
    inv'.rear.trans (by rw [length])
  refine
    { rear := ?_
      front := ?_
      node := fun index => SharedLine.current_record _ _
      completed := holds.completed.trans later.durable
      popped := holds.popped.trans later.durable
      room := ?_
      oldPops := ?_
      slots := ?_ }
  · change
      (lines.rear.record newRear).Numbered
        (rearAt size (state.pushed ++ [newRear.value]))
        (state.pushed ++ [newRear.value]).length
    have grown :
        lines.rear.Numbered (rearAt size (state.pushed ++ [newRear.value]))
          state.pushed.length :=
      holds.rear.congr fun n past => (rearAt_append past).symm
    have stored :=
      grown.record fun same =>
        Nat.succ_ne_self _ (rearAt_injective positive same)
    rw [← isNew] at stored
    rw [length]
    exact stored
  · change (lines.front.record state.front).Numbered _ _
    rw [holds.record_front inv]
    exact holds.front
  · change
      (state.pushed ++ [newRear.value]).length <
        (lines.front.record state.front).durable + size
    have front := kept.front
    rw [holds.record_front inv, length]
    omega
  · change _ ≤ (lines.front.record state.front).durable + 1
    rw [holds.record_front inv]
    exact holds.oldPops
  · intro index value possible
    change value ∈ ((lines.node index).record (state.nodes index)).values
      at possible
    rw [holds.record_node] at possible
    exact .inl (holds.slots_of_settled (current ▸ settled) possible)

/-- The exchange of a slot that completes the last push. -/
theorem afterFinish
    (holds : lines.Holds size state)
    (inv : Inv size state)
    {old : Snapshot Value}
    {thread : Nat}
    {pc : Pc Value}
    (checked : Checked size state old)
    (kept : lines.Kept old)
    (next : state.completed < old.since) :
    (lines.record ((state.finish old).setPc thread pc)).Holds size
      ((state.finish old).setPc thread pc) := by
  have past := checked.past
  have lagging := inv.lagging
  have room := checked.room
  have ordered := checked.ordered
  have isLast : old.since = state.pushed.length := by
    omega
  have completes : (state.finish old).completed = state.pushed.length :=
    (max_eq_right next.le).trans isLast
  have slot : old.rear.index = state.pushed.length % size := by
    rw [checked.rear, isLast]
    rfl
  have waits :=
    inv.counters state.pushed.length (by omega) (by omega)
  have generation_eq :
      (finishedNode old).counter = generation size state.pushed.length := by
    rw [finishedNode, checked.rear, isLast]
    rfl
  refine
    { rear := ?_
      front := ?_
      node := fun index => SharedLine.current_record _ _
      completed := ?_
      popped := ?_
      room := ?_
      oldPops := ?_
      slots := ?_ }
  · change (lines.rear.record state.rear).Numbered _ _
    rw [holds.record_rear inv]
    exact holds.rear
  · change (lines.front.record state.front).Numbered _ _
    rw [holds.record_front inv]
    exact holds.front
  · change
      (state.finish old).completed ≤ (lines.rear.record state.rear).durable
    rw [holds.record_rear inv, completes, ← isLast]
    exact kept.rear
  · change _ ≤ (lines.rear.record state.rear).durable
    rw [holds.record_rear inv]
    exact holds.popped
  · change _ < (lines.front.record state.front).durable + size
    rw [holds.record_front inv]
    exact holds.room
  · change _ ≤ (lines.front.record state.front).durable + 1
    rw [holds.record_front inv]
    exact holds.oldPops
  · intro index value possible
    change
      value ∈
        ((lines.node index).record
          (Function.update state.nodes old.rear.index (finishedNode old)
            index)).values
      at possible
    change
      value = Function.update state.nodes old.rear.index (finishedNode old)
          index ∨
        OneLapOld size ((state.finish old).setPc thread pc) index value
    rcases eq_or_ne index old.rear.index with rfl | differs
    · rw [Function.update_self] at possible ⊢
      have changes : finishedNode old ≠ (lines.node old.rear.index).current := by
        intro same
        rw [holds.node, slot] at same
        rw [← same, generation_eq] at waits
        exact absurd waits (Nat.succ_ne_self _)
      rw [SharedLine.record_of_ne changes, SharedLine.values_store,
        List.mem_append, List.mem_singleton] at possible
      refine possible.symm.imp_right ?_
      intro earlier
      rw [holds.slots_of_lagging (by omega) earlier, slot]
      refine
        { completed := completes
          last := rfl
          counter := waits
          value := ?_ }
      intro lap
      change size ≤ state.pushed.length at lap
      have values :=
        inv.values (state.pushed.length - size)
          (by omega) (by omega)
      rwa [← Nat.mod_eq_sub_mod lap] at values
    · rw [Function.update_of_ne differs, holds.record_node] at possible
      rw [Function.update_of_ne differs]
      exact .inl (holds.slots_of_lagging (by omega) possible)

/-- The exchange of `front`. -/
theorem afterPop
    (holds : lines.Holds size state)
    (inv : Inv size state)
    {old : Snapshot Value}
    {ret : Value}
    {thread : Nat}
    (inv' :
      Inv size
        { state.setPc thread .idle with
          front := nextFront size old.front
          popped := state.popped ++ [ret] })
    (current : old.front.counter = state.popped.length)
    (secured : Secured size state lines thread (.popCas old ret)) :
    (lines.record
        { state.setPc thread .idle with
          front := nextFront size old.front
          popped := state.popped ++ [ret] }).Holds size
      { state.setPc thread .idle with
        front := nextFront size old.front
        popped := state.popped ++ [ret] } := by
  obtain ⟨kept, nonempty⟩ := secured
  have keptRear := kept.rear
  have keptFront := kept.front
  have later := lines.front.extends_record (nextFront size old.front)
  have room := holds.room
  have durable := later.durable
  have length : (state.popped ++ [ret]).length = state.popped.length + 1 := by
    rw [List.length_append]
    rfl
  have isNew :
      nextFront size old.front = frontAt size (state.popped.length + 1) :=
    inv'.front.trans (by rw [length]; rfl)
  refine
    { rear := ?_
      front := ?_
      node := fun index => SharedLine.current_record _ _
      completed := ?_
      popped := ?_
      room := ?_
      oldPops := ?_
      slots := ?_ }
  · change (lines.rear.record state.rear).Numbered _ _
    rw [holds.record_rear inv]
    exact holds.rear
  · change
      (lines.front.record (nextFront size old.front)).Numbered (frontAt size)
        (state.popped ++ [ret]).length
    rw [length, isNew]
    refine holds.front.record ?_
    intro same
    exact absurd (congrArg Front.counter same) (Nat.succ_ne_self _)
  · change _ ≤ (lines.rear.record state.rear).durable
    rw [holds.record_rear inv]
    exact holds.completed
  · change
      (state.popped ++ [ret]).length ≤ (lines.rear.record state.rear).durable
    rw [holds.record_rear inv, length]
    omega
  · change
      state.pushed.length <
        (lines.front.record (nextFront size old.front)).durable + size
    omega
  · change
      (state.popped ++ [ret]).length ≤
        (lines.front.record (nextFront size old.front)).durable + 1
    rw [length]
    omega
  · intro index value possible
    change value ∈ ((lines.node index).record (state.nodes index)).values
      at possible
    rw [holds.record_node] at possible
    exact (holds.slots index value possible).imp_right fun old =>
      ⟨old.completed, old.last, old.counter, old.value⟩

end Lines.Holds

/-- Completing a push that is completed already changes nothing. -/
theorem Inv.finish_again
    (inv : Inv size state)
    (positive : 0 < size)
    {old : Snapshot Value}
    (checked : Checked size state old)
    (done : old.since ≤ state.completed)
    (fresh : state.completed < old.since + size) :
    state.finish old = state := by
  have counter := inv.counters (old.since + size) fresh (by omega)
  have value := inv.values old.since done fresh
  rw [Nat.add_mod_right, Lib.generation_add_size positive] at counter
  have slot : old.rear.index = old.since % size := by
    rw [checked.rear]
    rfl
  have node : finishedNode old = state.nodes old.rear.index := by
    rw [slot, finishedNode, checked.rear]
    unfold rearAt
    rw [← value, ← Nat.succ.inj counter]
  unfold State.finish
  rw [node, Function.update_eq_self, max_eq_left done]

end Invariant

end ArrayQueue

end Bxalloc
