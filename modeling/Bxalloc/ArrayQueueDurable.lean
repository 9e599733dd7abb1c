import Bxalloc.ArrayQueueHolds

namespace Bxalloc

/-!
# The queue of free superblocks across crashes

No push and no pop that has returned is lost in a crash, and at most one
exchange at either end is undone.  Runs start when the constructed queue has
reached the file.
-/

open Lib (Reaches SharedLine generation)

namespace ArrayQueue

universe u

variable {Value : Type u}

section Invariant

variable [Zero Value]
variable {size : Nat} {state state' : State Value}
variable {lines lines' : Lines Value}

namespace Machine

variable {machine : Machine Value}

/-- What holds between the steps of the machine. -/
structure Ok (size : Nat) (machine : Machine Value) : Prop where
  queue : Inv size machine.state
  holds : machine.lines.Holds size machine.state
  threads :
    ∀ thread,
      Secured size machine.state (machine.ahead thread) thread
        (machine.state.pc thread)
  lastPush :
    ∀ thread, machine.lastPush thread ≤ (machine.ahead thread).rear.durable
  lastPop :
    ∀ thread, machine.lastPop thread ≤ (machine.ahead thread).front.durable
  returnedPushes : machine.returnedPushes ≤ machine.lines.rear.durable
  returnedPops : machine.returnedPops ≤ machine.lines.front.durable

/-- The constructed queue. -/
theorem ok_new
    (several : 2 ≤ size) :
    (new : Machine Value).Ok size where
  queue := inv_empty several
  holds :=
    { rear := by
        have first : (empty : State Value).rear = rearAt size [] 0 :=
          (inv_empty several).rear
        change (SharedLine.clean (empty : State Value).rear).Numbered _ 0
        rw [first]
        exact .clean _
      front := by
        have first : (empty : State Value).front = frontAt size 0 :=
          (inv_empty several).front
        change (SharedLine.clean (empty : State Value).front).Numbered _ 0
        rw [first]
        exact .clean _
      node := fun _ => rfl
      completed := Nat.le_refl 0
      popped := Nat.le_refl 0
      room := (Nat.zero_add size).symm ▸ (Nat.lt_of_lt_of_le Nat.two_pos several)
      oldPops := Nat.zero_le _
      slots := fun _ _ possible => .inl (List.mem_singleton.mp possible) }
  threads := fun _ => trivial
  lastPush := fun _ => Nat.le_refl 0
  lastPop := fun _ => Nat.le_refl 0
  returnedPushes := Nat.le_refl 0
  returnedPops := Nat.le_refl 0

/-- The write-backs of one thread leave what the others have secured. -/
theorem Ok.wroteBack
    (ok : machine.Ok size)
    {thread : Nat}
    {event : WriteBack}
    {rest : List WriteBack}
    (next : machine.todo thread = event :: rest) :
    (machine.wroteBack thread event rest).Ok size := by
  have later := machine.lines.extends_perform thread event
  have ahead :
      ∀ other,
        (machine.ahead other).Extends
          ((machine.wroteBack thread event rest).ahead other) := by
    intro other
    rcases eq_or_ne other thread with rfl | differs
    · rw [ahead_wroteBack next]
      exact .refl _
    · rw [ahead_wroteBack_of_ne differs]
      exact later.performAll other (machine.todo other)
  have lastPush :
      rest = [] →
        machine.lastPush thread ≤
          (machine.lines.perform thread event).rear.durable := by
    rintro rfl
    have durable := ok.lastPush thread
    unfold Machine.ahead at durable
    rw [next] at durable
    exact durable
  have lastPop :
      rest = [] →
        machine.lastPop thread ≤
          (machine.lines.perform thread event).front.durable := by
    rintro rfl
    have durable := ok.lastPop thread
    unfold Machine.ahead at durable
    rw [next] at durable
    exact durable
  refine
    { queue := ok.queue
      holds := ok.holds.perform thread event
      threads := ?_
      lastPush := fun other => (ok.lastPush other).trans (ahead other).rear.durable
      lastPop := fun other => (ok.lastPop other).trans (ahead other).front.durable
      returnedPushes := ?_
      returnedPops := ?_ }
  · intro other
    refine (ok.threads other).later (ok.queue.threads other) (ahead other) ?_
    intro n done settled
    refine settled.later (Nat.le_refl _) ?_ (ahead other)
    rcases eq_or_ne other thread with rfl | differs
    · rw [ahead_wroteBack next]
    · rw [ahead_wroteBack_of_ne differs, Lines.performAll_node_history]
      unfold Machine.ahead
      rw [Lines.performAll_node_history]
      exact (machine.lines.perform_history thread event).2.2 _
  · have before := ok.returnedPushes.trans later.rear.durable
    change (if rest = [] then _ else _) ≤ _
    split
    · next last => exact max_le before (lastPush last)
    · exact before
  · have before := ok.returnedPops.trans later.front.durable
    change (if rest = [] then _ else _) ≤ _
    split
    · next last => exact max_le before (lastPop last)
    · exact before

section Moves

variable [DecidableEq Value]

/-- A number given now or before is durable when the thread is done. -/
theorem renumber_le
    {last : Nat → Nat}
    {thread before after other durable : Nat}
    (earlier : last other ≤ durable)
    (grown : other = thread → after ≠ before → after ≤ durable) :
    renumber last thread before after other ≤ durable := by
  unfold renumber
  split
  · exact earlier
  · next differs =>
      rcases eq_or_ne other thread with rfl | elsewhere
      · rw [Function.update_self]
        exact grown rfl differs
      · rw [Function.update_of_ne elsewhere]
        exact earlier

/--
A step keeps the invariant if it secures what its thread needs next and stores
into no slot that another thread has settled.
-/
theorem Ok.moved
    (ok : machine.Ok size)
    {thread : Nat}
    {state' : State Value}
    (ready : machine.todo thread = [])
    (queue : Inv size state')
    (holds : (machine.lines.record state').Holds size state')
    (others :
      ∀ other, other ≠ thread → state'.pc other = machine.state.pc other)
    (past : machine.state.pushed.length ≤ state'.pushed.length)
    (stable :
      ∀ n ≤ machine.state.completed,
        n < state'.pushed.length ∨
          (machine.lines.record state').node (n % size) =
            machine.lines.node (n % size))
    (own :
      Secured size state' ((machine.moved size thread state').ahead thread)
        thread (state'.pc thread))
    (pushed :
      state'.pushed.length ≠ machine.state.pushed.length →
        state'.pushed.length ≤
          ((machine.moved size thread state').ahead thread).rear.durable)
    (popped :
      state'.popped.length ≠ machine.state.popped.length →
        state'.popped.length ≤
          ((machine.moved size thread state').ahead thread).front.durable) :
    (machine.moved size thread state').Ok size := by
  have later := machine.lines.extends_record state'
  have ahead :
      ∀ other,
        (machine.ahead other).Extends
          ((machine.moved size thread state').ahead other) := by
    intro other
    rcases eq_or_ne other thread with rfl | differs
    · rw [ahead_moved, ahead_ready ready]
      exact later.trans (Lines.extends_performAll _ _ _)
    · rw [ahead_moved_of_ne differs]
      exact later.performAll other (machine.todo other)
  refine
    { queue := queue
      holds := holds
      threads := ?_
      lastPush := fun other =>
        renumber_le ((ok.lastPush other).trans (ahead other).rear.durable)
          fun here grown => here ▸ pushed grown
      lastPop := fun other =>
        renumber_le ((ok.lastPop other).trans (ahead other).front.durable)
          fun here grown => here ▸ popped grown
      returnedPushes := ok.returnedPushes.trans later.rear.durable
      returnedPops := ok.returnedPops.trans later.front.durable }
  intro other
  rcases eq_or_ne other thread with rfl | differs
  · exact own
  · change Secured size state' _ other (state'.pc other)
    rw [others other differs]
    refine (ok.threads other).later (ok.queue.threads other) (ahead other) ?_
    intro n done settled
    rcases stable n done with overtaken | same
    · exact .inl overtaken
    · refine settled.later past ?_ (ahead other)
      rw [ahead_moved_of_ne differs]
      exact congrArg SharedLine.history
        (Lines.performAll_node_congr same other (machine.todo other))

/-- A step that stores nothing keeps the invariant. -/
theorem Ok.quiet
    (ok : machine.Ok size)
    {thread : Nat}
    {pc : Pc Value}
    (ready : machine.todo thread = [])
    (queue : Inv size (machine.state.setPc thread pc))
    (own :
      Secured size machine.state
        (machine.lines.performAll thread
          (writeBacks size (machine.state.pc thread) pc))
        thread pc) :
    (machine.moved size thread (machine.state.setPc thread pc)).Ok size := by
  have same :
      machine.lines.record (machine.state.setPc thread pc) = machine.lines :=
    ok.holds.record ok.queue
  refine ok.moved ready queue ?_ ?_ (Nat.le_refl _) ?_ ?_ ?_ ?_
  · rw [same]
    have holds := ok.holds
    exact
      ⟨holds.rear, holds.front, holds.node, holds.completed, holds.popped,
        holds.room, holds.oldPops, fun index value possible =>
          (holds.slots index value possible).imp_right fun old =>
            ⟨old.completed, old.last, old.counter, old.value⟩⟩
  · intro other differs
    exact Function.update_of_ne differs ..
  · intro n done
    exact .inr (by rw [same])
  · rw [ahead_moved, setPc_pc, same]
    cases pc <;> exact own
  · exact fun grown => absurd rfl grown
  · exact fun grown => absurd rfl grown

/-- The exchange of `finish_enqueue` succeeds. -/
theorem Ok.finish
    (ok : machine.Ok size)
    (several : 2 ≤ size)
    {thread : Nat}
    {caller : Caller Value}
    {old : Snapshot Value}
    {oldNode : Node Value}
    (ready : machine.todo thread = [])
    (shape : machine.state.pc thread = .helpCas caller old oldNode)
    (queue :
      Inv size
        ((machine.state.finish old).setPc thread (afterHelp old caller)))
    (fresh : machine.state.completed < old.since + size) :
    (machine.moved size thread
      ((machine.state.finish old).setPc thread (afterHelp old caller))).Ok
      size := by
  have checked : Checked size machine.state old := by
    have known := ok.queue.threads thread
    rw [shape] at known
    exact known
  have kept : machine.lines.Kept old := by
    have secured := ok.threads thread
    rw [ahead_ready ready, shape] at secured
    exact secured
  rcases Nat.lt_or_ge machine.state.completed old.since with next | done
  · -- The helper completes the last push.
    have past := checked.past
    have holds :
        (machine.lines.record
            ((machine.state.finish old).setPc thread
              (afterHelp old caller))).Holds size _ :=
      ok.holds.afterFinish ok.queue checked kept next
    refine ok.moved ready queue holds ?_ (Nat.le_refl _) ?_ ?_ ?_ ?_
    · intro other differs
      exact Function.update_of_ne differs ..
    · intro n upTo
      exact .inl (upTo.trans_lt (next.trans_le past))
    · rw [ahead_moved, setPc_pc, shape, writeBacks_afterHelp]
      exact secured_afterHelp caller checked
        (kept.later (machine.lines.extends_record _))
    · exact fun grown => absurd rfl grown
    · exact fun grown => absurd rfl grown
  · -- The push was completed before; its slot is written again.
    have same : machine.state.finish old = machine.state :=
      ok.queue.finish_again (by omega) checked done fresh
    rw [same] at queue ⊢
    refine ok.quiet ready queue ?_
    rw [shape, writeBacks_afterHelp]
    exact secured_afterHelp caller checked kept

/-- The exchange of `rear` succeeds. -/
theorem Ok.push
    (ok : machine.Ok size)
    (several : 2 ≤ size)
    {thread : Nat}
    {old : Snapshot Value}
    {newRear : Rear Value}
    (ready : machine.todo thread = [])
    (shape : machine.state.pc thread = .pushCas old newRear)
    (unchanged : machine.state.rear = old.rear)
    (queue :
      Inv size
        { machine.state.setPc thread .idle with
          rear := newRear
          pushed := machine.state.pushed ++ [newRear.value] }) :
    (machine.moved size thread
      { machine.state.setPc thread .idle with
        rear := newRear
        pushed := machine.state.pushed ++ [newRear.value] }).Ok size := by
  have positive : 0 < size := by omega
  have known : PcOk size machine.state (.pushCas old newRear) := by
    rw [← shape]
    exact ok.queue.threads thread
  have secured :
      Secured size machine.state machine.lines thread
        (.pushCas old newRear) := by
    have secured := ok.threads thread
    rw [ahead_ready ready, shape] at secured
    exact secured
  have current : old.since = machine.state.pushed.length := by
    have same :
        rearAt size machine.state.pushed old.since =
          rearAt size machine.state.pushed machine.state.pushed.length := by
      rw [← ok.queue.rear, unchanged, known.1.rear]
    exact rearAt_injective positive same
  have holds :=
    ok.holds.afterPush ok.queue positive queue known current secured
  refine ok.moved ready queue holds ?_ ?_ ?_ ?_ ?_ ?_
  · intro other differs
    exact Function.update_of_ne differs ..
  · exact (List.prefix_append _ _).length_le
  · intro n done
    exact .inr (ok.holds.record_node _)
  · change
      Secured size _ _ thread ((machine.state.setPc thread .idle).pc thread)
    rw [setPc_pc]
    trivial
  · intro grown
    rw [ahead_moved, shape]
    change
      _ ≤
        (Lines.performAll thread
          (writeBacks size (.pushCas old newRear)
            ((machine.state.setPc thread .idle).pc thread)) _).rear.durable
    rw [setPc_pc]
    have reach :=
      (machine.lines.rear.record newRear).reach_flush thread
    have length := holds.rear.length
    change (machine.lines.rear.record newRear).history.length = _ at length
    rw [length] at reach
    exact (Nat.le_of_eq reach.symm)
  · exact fun grown => absurd rfl grown

/-- The exchange of `front` succeeds. -/
theorem Ok.pop
    (ok : machine.Ok size)
    {thread : Nat}
    {old : Snapshot Value}
    {ret : Value}
    (ready : machine.todo thread = [])
    (shape : machine.state.pc thread = .popCas old ret)
    (unchanged : machine.state.front = old.front)
    (queue :
      Inv size
        { machine.state.setPc thread .idle with
          front := nextFront size old.front
          popped := machine.state.popped ++ [ret] }) :
    (machine.moved size thread
      { machine.state.setPc thread .idle with
        front := nextFront size old.front
        popped := machine.state.popped ++ [ret] }).Ok size := by
  have secured :
      Secured size machine.state machine.lines thread (.popCas old ret) := by
    have secured := ok.threads thread
    rw [ahead_ready ready, shape] at secured
    exact secured
  have current : old.front.counter = machine.state.popped.length := by
    rw [← unchanged, ok.queue.front]
  have holds := ok.holds.afterPop ok.queue queue current secured
  refine ok.moved ready queue holds ?_ (Nat.le_refl _) ?_ ?_ ?_ ?_
  · intro other differs
    exact Function.update_of_ne differs ..
  · intro n done
    exact .inr (ok.holds.record_node _)
  · change
      Secured size _ _ thread ((machine.state.setPc thread .idle).pc thread)
    rw [setPc_pc]
    trivial
  · exact fun grown => absurd rfl grown
  · intro grown
    rw [ahead_moved, shape]
    change
      _ ≤
        (Lines.performAll thread
          (writeBacks size (.popCas old ret)
            ((machine.state.setPc thread .idle).pc thread)) _).front.durable
    rw [setPc_pc]
    have reach :=
      (machine.lines.front.record (nextFront size old.front)).reach_flush
        thread
    have length := holds.front.length
    change
      (machine.lines.front.record (nextFront size old.front)).history.length =
        _
      at length
    rw [length] at reach
    exact (Nat.le_of_eq reach.symm)

/-- Every step of a thread that has executed its write-backs. -/
theorem Ok.advance
    (ok : machine.Ok size)
    (several : 2 ≤ size)
    {thread : Nat}
    {spurious : Bool}
    {state' : State Value}
    (ready : machine.todo thread = [])
    (accepted :
      ArrayQueue.advance size machine.state thread spurious = some state')
    (queue : Inv size state')
    (fresh : ¬ StaleExchange size machine.state (.run thread spurious)) :
    (machine.moved size thread state').Ok size := by
  have known := ok.queue.threads thread
  have secured := ok.threads thread
  rw [ahead_ready ready] at secured
  unfold ArrayQueue.advance at accepted
  cases shape : machine.state.pc thread with
  | idle =>
      rw [shape] at accepted
      cases accepted
  | pushRear value =>
      rw [shape] at accepted
      cases accepted
      exact ok.quiet ready queue trivial
  | pushFront value rear since =>
      rw [shape] at accepted
      cases accepted
      exact ok.quiet ready queue trivial
  | pushCheck value old =>
      rw [shape] at accepted known
      obtain ⟨snapshot, within⟩ := known
      simp only at accepted
      split at accepted <;> cases accepted
      · refine ok.quiet ready queue ?_
        rw [shape]
        exact ok.holds.asks snapshot.past snapshot.popped thread
      · exact ok.quiet ready queue trivial
  | popFront =>
      rw [shape] at accepted
      cases accepted
      exact ok.quiet ready queue trivial
  | popRear front =>
      rw [shape] at accepted
      cases accepted
      exact ok.quiet ready queue trivial
  | popCheck old =>
      rw [shape] at accepted known
      obtain ⟨snapshot, ordered⟩ := known
      have asks := ok.holds.asks snapshot.past snapshot.popped thread
      simp only at accepted
      split at accepted
      · split at accepted <;> cases accepted
        · refine ok.quiet ready queue ?_
          rw [shape]
          exact asks
        · refine ok.quiet ready queue ?_
          rw [shape]
          exact asks
      · cases accepted
        exact ok.quiet ready queue trivial
  | helpLoad caller old =>
      rw [shape] at accepted secured
      cases accepted
      refine ok.quiet ready queue ?_
      rw [shape]
      exact
        (Lines.Asked.later secured
          (machine.lines.extends_perform thread _)).fence
  | helpCas caller old oldNode =>
      rw [shape] at accepted secured
      simp only at accepted
      split at accepted
      · next succeeds =>
          obtain ⟨unchanged, rfl⟩ := succeeds
          cases accepted
          simp only [StaleExchange, shape, Overtaken, not_and, not_le] at fresh
          exact ok.finish several ready shape queue (fresh unchanged)
      · cases accepted
        refine ok.quiet ready queue ?_
        rw [shape]
        exact secured
  | pushNode value old =>
      rw [shape] at accepted secured
      obtain ⟨kept, settled⟩ := secured
      simp only at accepted
      split at accepted <;> cases accepted
      have later := machine.lines.extends_perform thread .fence
      refine ok.quiet ready queue ?_
      rw [shape]
      exact ⟨kept.later later, settled.later (Nat.le_refl _) rfl later⟩
  | pushCas old newRear =>
      rw [shape] at accepted
      simp only at accepted
      split at accepted <;> cases accepted
      · next succeeds =>
          exact ok.push several ready shape succeeds.1 queue
      · exact ok.quiet ready queue trivial
  | popNode old =>
      rw [shape] at accepted known secured
      simp only at accepted
      split at accepted <;> cases accepted
      · exact ok.quiet ready queue trivial
      · next differs =>
          have ordered := known.1.ordered
          have nonempty := known.1.nonempty differs
          refine ok.quiet ready queue ?_
          rw [shape]
          refine ⟨?_, by omega⟩
          exact
            (Lines.Asked.later secured
              (machine.lines.extends_perform thread _)).fence
  | popCas old ret =>
      rw [shape] at accepted
      simp only at accepted
      split at accepted <;> cases accepted
      · next unchanged => exact ok.pop ready shape unchanged queue
      · exact ok.quiet ready queue trivial

/-- Every step of a thread. -/
theorem Ok.act
    (ok : machine.Ok size)
    (several : 2 ≤ size)
    {action : Action Value}
    {state' : State Value}
    (ready : machine.todo action.thread = [])
    (stepped : FreshStep size machine.state action state') :
    (machine.moved size action.thread state').Ok size := by
  have queue := ok.queue.step several stepped
  obtain ⟨⟨accepted, -⟩, fresh⟩ := stepped
  cases action with
  | push thread value =>
      simp only [ArrayQueue.step] at accepted
      split at accepted <;> cases accepted
      exact ok.quiet ready queue trivial
  | pop thread =>
      simp only [ArrayQueue.step] at accepted
      split at accepted <;> cases accepted
      exact ok.quiet ready queue trivial
  | run thread spurious => exact ok.advance several ready accepted queue fresh

end Moves

section Crash

/-- What a crash leaves lies between what is durable and what was last. -/
structure Bounds
    (size : Nat)
    (state : State Value)
    (rear front : Nat) : Prop where
  pushes : rear ≤ state.pushed.length
  pops : front ≤ state.popped.length
  completed : state.completed ≤ rear
  popped : state.popped.length ≤ rear
  room : rear < front + size
  oldPops : state.popped.length ≤ front + 1

theorem Ok.bounds
    (ok : machine.Ok size)
    (left : Lines.Survivors machine.lines) :
    Bounds size machine.state left.rear left.front := by
  have rear := left.rearInside
  have front := left.frontInside
  have frontLater := left.frontLater
  have room := ok.holds.room
  have oldPops := ok.holds.oldPops
  rw [ok.holds.rear.length] at rear
  rw [ok.holds.front.length] at front
  exact
    { pushes := Nat.le_of_lt_succ rear
      pops := Nat.le_of_lt_succ front
      completed := ok.holds.completed.trans left.rearLater
      popped := ok.holds.popped.trans left.rearLater
      room := by omega
      oldPops := by omega }

/-- How many pushes and pops the next process finds. -/
theorem Ok.found_lengths
    (ok : machine.Ok size)
    (left : Lines.Survivors machine.lines) :
    (machine.found left).pushed.length = left.rear ∧
      (machine.found left).popped.length = left.front :=
  ⟨List.length_take_of_le (ok.bounds left).pushes,
    List.length_take_of_le (ok.bounds left).pops⟩

/-- Words of pushes that a crash leaves. -/
theorem rearAt_take
    {pushed : List Value}
    {n survivor : Nat}
    (past : n ≤ survivor)
    (inside : survivor ≤ pushed.length) :
    rearAt size (pushed.take survivor) n = rearAt size pushed n := by
  have long : n ≤ (pushed.take survivor).length := by
    rw [List.length_take]
    omega
  have whole :
      rearAt size (pushed.take survivor ++ pushed.drop survivor) n =
        rearAt size (pushed.take survivor) n :=
    rearAt_append long
  rwa [List.take_append_drop, eq_comm] at whole

/-- The ends that the next process finds. -/
theorem Ok.found_ends
    (ok : machine.Ok size)
    (left : Lines.Survivors machine.lines) :
    (machine.found left).rear =
        rearAt size (machine.found left).pushed left.rear ∧
      (machine.found left).front = frontAt size left.front := by
  have bounds := ok.bounds left
  constructor
  · change
      (machine.lines.rear.crash left.rear left.rearInside).current =
        rearAt size (machine.state.pushed.take left.rear) left.rear
    rw [rearAt_take (Nat.le_refl _) bounds.pushes]
    exact (ok.holds.rear.crash left.rearInside).current
  · exact (ok.holds.front.crash left.frontInside).current

/-- The slot that the next process finds is the last one or a lap old. -/
theorem Ok.found_node
    (ok : machine.Ok size)
    (left : Lines.Survivors machine.lines)
    (index : Nat) :
    (machine.found left).nodes index = machine.state.nodes index ∨
      OneLapOld size machine.state index
        ((machine.found left).nodes index) := by
  have inside := left.nodeInside index
  have survived :
      (machine.found left).nodes index =
        (machine.lines.node index).history[left.node index] :=
    SharedLine.current_crash _ inside
  rw [survived]
  exact ok.holds.slots index _
    ((machine.lines.node index).mem_values (left.nodeLater index) inside)

/-- What the next process finds in the slots. -/
inductive Found
    (size : Nat)
    (state found : State Value) : Prop where
  /-- The slots are as they were. -/
  | same
      (completed : found.completed = state.completed)
      (nodes : found.nodes = state.nodes)
  /-- The last push is in `rear` only, although it was completed. -/
  | undone
      (node : Node Value)
      (completed : found.completed + 1 = state.pushed.length)
      (old : OneLapOld size state (state.pushed.length % size) node)
      (nodes :
        found.nodes =
          Function.update state.nodes (state.pushed.length % size) node)

/-- The counter of the last slot distinguishes the two cases. -/
theorem Ok.found_slots
    (ok : machine.Ok size)
    (positive : 0 < size)
    (left : Lines.Survivors machine.lines) :
    Found size machine.state (machine.found left) := by
  have bounds := ok.bounds left
  have atMost := bounds.pushes
  have atLeast := bounds.completed
  have lagging := ok.queue.lagging
  have completed := found_completed machine left
  have rear := (ok.found_ends left).1
  have index : (machine.found left).rear.index = left.rear % size := by
    rw [rear]
    rfl
  have counter :
      (machine.found left).rear.counter = generation size left.rear := by
    rw [rear]
    rfl
  rw [index, counter] at completed
  by_cases old :
      OneLapOld size machine.state (machine.state.pushed.length % size)
        ((machine.found left).nodes (machine.state.pushed.length % size))
  · have isLast : left.rear = machine.state.pushed.length := by
      have done := old.completed
      omega
    have lap := old.counter
    have several : machine.state.pushed.length ≠ 0 := by
      intro none
      rw [none, Lib.generation_zero positive] at lap
      exact Nat.succ_ne_zero _ lap
    rw [isLast, if_neg (by omega)] at completed
    refine .undone _ (by omega) old ?_
    funext other
    rcases eq_or_ne other (machine.state.pushed.length % size) with
      rfl | differs
    · rw [Function.update_self]
    · rw [Function.update_of_ne differs]
      exact (ok.found_node left other).resolve_right fun lapped =>
        differs lapped.last
  · have nodes : (machine.found left).nodes = machine.state.nodes := by
      funext other
      refine (ok.found_node left other).resolve_right ?_
      intro lapped
      have last := lapped.last
      subst last
      exact old lapped
    rw [nodes] at completed
    refine .same ?_ nodes
    rcases Nat.lt_or_ge machine.state.completed left.rear with next | done
    · have waits := ok.queue.counters left.rear next (by omega)
      rw [if_neg (by omega)] at completed
      omega
    · have isLast : left.rear = machine.state.completed := by omega
      have waits :=
        ok.queue.counters (machine.state.completed + size) (by omega)
          (Nat.le_refl _)
      rw [Nat.add_mod_right, Lib.generation_add_size positive] at waits
      rw [isLast, if_pos (by omega)] at completed
      exact completed

/-- The values that the next process finds are those of the pushes left. -/
theorem valueAt_take
    {pushed : List Value}
    {n survivor : Nat}
    (past : n ≤ survivor)
    (inside : survivor ≤ pushed.length) :
    valueAt (pushed.take survivor) n = valueAt pushed n := by
  have words :
      rearAt 0 (pushed.take survivor) n = rearAt 0 pushed n :=
    rearAt_take past inside
  exact congrArg Rear.value words

/-- The next process finds a queue. -/
theorem Ok.found
    (ok : machine.Ok size)
    (positive : 0 < size)
    (left : Lines.Survivors machine.lines) :
    Inv size (machine.found left) := by
  have bounds := ok.bounds left
  have pushes := bounds.pushes
  have pops := bounds.pops
  have popped := bounds.popped
  have roomLeft := bounds.room
  have atLeast := bounds.completed
  have lagging := ok.queue.lagging
  obtain ⟨isRear, isFront⟩ := ok.found_ends left
  obtain ⟨pushedLength, poppedLength⟩ := ok.found_lengths left
  have values :
      ∀ n ≤ left.rear,
        valueAt (machine.found left).pushed n =
          valueAt machine.state.pushed n :=
    fun n past => valueAt_take past pushes
  have fifo : (machine.found left).popped <+: (machine.found left).pushed := by
    refine List.prefix_take_iff.mpr
      ⟨(List.take_prefix _ _).trans ok.queue.fifo, ?_⟩
    rw [poppedLength]
    exact pops.trans popped
  rcases ok.found_slots positive left with
    ⟨completed, nodes⟩ | ⟨node, completed, old, nodes⟩
  · exact
      { rear := by rw [pushedLength]; exact isRear
        front := by rw [poppedLength]; exact isFront
        fifo := fifo
        room := by rw [pushedLength, poppedLength]; exact roomLeft
        lagging := by omega
        started := by omega
        counters := by
          rw [completed, nodes]
          exact ok.queue.counters
        values := by
          intro n upTo within
          rw [completed] at upTo within
          rw [nodes, values n (upTo.trans atLeast)]
          exact ok.queue.values n upTo within
        threads := fun _ => trivial }
  · have done := old.completed
    refine
      { rear := by rw [pushedLength]; exact isRear
        front := by rw [poppedLength]; exact isFront
        fifo := fifo
        room := by rw [pushedLength, poppedLength]; exact roomLeft
        lagging := by omega
        started := by omega
        counters := ?_
        values := ?_
        threads := fun _ => trivial }
    · intro n after within
      rw [nodes]
      rcases eq_or_ne n machine.state.pushed.length with rfl | differs
      · rw [Function.update_self]
        exact old.counter
      · rw [Function.update_of_ne]
        · exact ok.queue.counters n (by omega) (by omega)
        · intro sameSlot
          exact differs
            (Lib.eq_of_sameSlot sameSlot.symm (by omega) (by omega)).symm
    · intro n upTo within
      rw [nodes, values n (by omega)]
      by_cases lap : n + size = machine.state.pushed.length
      · have sameSlot : n % size = machine.state.pushed.length % size := by
          rw [← lap, Nat.add_mod_right]
        rw [sameSlot, Function.update_self, old.value (by omega),
          ← lap, Nat.add_sub_cancel]
      · rw [Function.update_of_ne]
        · exact ok.queue.values n (by omega) (by omega)
        · intro sameSlot
          have isLast :=
            Lib.eq_of_sameSlot sameSlot (by omega) (by omega)
          omega

/-- The next process finds the cells as the crash has left them. -/
theorem Ok.crashed
    (ok : machine.Ok size)
    (positive : 0 < size)
    (left : Lines.Survivors machine.lines) :
    (machine.crashed left).Ok size := by
  have bounds := ok.bounds left
  have queue := ok.found positive left
  obtain ⟨pushedLength, poppedLength⟩ := ok.found_lengths left
  have pops := bounds.pops.trans bounds.popped
  refine
    { queue := queue
      holds := ?_
      threads := fun _ => trivial
      lastPush := fun _ => Nat.zero_le _
      lastPop := fun _ => Nat.zero_le _
      returnedPushes := ok.returnedPushes.trans left.rearLater
      returnedPops := ok.returnedPops.trans left.frontLater }
  refine
    { rear := ?_
      front := ?_
      node := fun _ => rfl
      completed := queue.started.trans_eq pushedLength
      popped := poppedLength.trans_le pops
      room := by
        change (machine.found left).pushed.length < left.front + size
        rw [pushedLength]
        exact bounds.room
      oldPops := poppedLength.trans_le (Nat.le_succ _)
      slots := ?_ }
  · change
      (machine.lines.rear.crash left.rear left.rearInside).Numbered
        (rearAt size (machine.found left).pushed)
        (machine.found left).pushed.length
    rw [pushedLength]
    exact (ok.holds.rear.crash left.rearInside).congr fun n past =>
      (rearAt_take past bounds.pushes).symm
  · change
      (machine.lines.front.crash left.front left.frontInside).Numbered
        (frontAt size) (machine.found left).popped.length
    rw [poppedLength]
    exact ok.holds.front.crash left.frontInside
  · intro index value possible
    have inside := left.nodeInside index
    change
      value ∈ ((machine.lines.node index).crash (left.node index) inside).values
      at possible
    rw [SharedLine.values_crash, List.mem_singleton] at possible
    exact .inl (possible.trans (SharedLine.current_crash _ inside).symm)

end Crash

section Runs

variable [DecidableEq Value]

/-- Every step of the machine. -/
theorem Ok.step
    (ok : machine.Ok size)
    (several : 2 ≤ size)
    {event : Event Value}
    {machine' : Machine Value}
    (stepped : Step size machine event machine') :
    machine'.Ok size := by
  cases stepped with
  | act ready accepted => exact ok.act several ready accepted
  | writeBack next => exact ok.wroteBack next
  | crash left => exact ok.crashed (by omega) left

end Runs

end Machine

end Invariant

/--
Over any number of processes, with a crash allowed after every store, write-back
and fence, and as long as no `finish_enqueue` is overtaken, the popped values
are the first pushed values in order.  Wherever a crash comes, the next process
finds all pushes and pops that have returned, and at most one exchange at either
end is undone.
-/
theorem queue_survives_crashes
    [Zero Value]
    [DecidableEq Value]
    {size : Nat}
    {machine : Machine Value}
    (three : 3 ≤ size)
    (reached :
      Reaches (· = (Machine.new : Machine Value)) (Machine.Step size) machine) :
    machine.state.popped <+: machine.state.pushed ∧
      ∀ left : Lines.Survivors machine.lines,
        (machine.found left).pushed <+: machine.state.pushed ∧
          (machine.found left).popped <+: machine.state.popped ∧
          (machine.found left).popped <+: (machine.found left).pushed ∧
          machine.returnedPushes ≤ (machine.found left).pushed.length ∧
          machine.returnedPops ≤ (machine.found left).popped.length ∧
          machine.state.pushed.length ≤
            (machine.found left).pushed.length + 1 ∧
          machine.state.popped.length ≤
            (machine.found left).popped.length + 1 := by
  have several : 2 ≤ size := by omega
  have ok : machine.Ok size :=
    reached.invariant
      (fun _ isNew => isNew ▸ Machine.ok_new several)
      (fun _ _ _ ok stepped => ok.step several stepped)
  refine ⟨ok.queue.fifo, ?_⟩
  intro left
  have bounds := ok.bounds left
  have completed := bounds.completed
  have lagging := ok.queue.lagging
  obtain ⟨pushedLength, poppedLength⟩ := ok.found_lengths left
  rw [pushedLength, poppedLength]
  exact ⟨List.take_prefix _ _, List.take_prefix _ _,
    (ok.found (by omega) left).fifo, ok.returnedPushes.trans left.rearLater,
    ok.returnedPops.trans left.frontLater, by omega, bounds.oldPops⟩

/-- Thread 1 executes several write-backs. -/
def writesBack (count : Nat) : List (Machine.Event Nat) :=
  List.replicate count (.writeBack 1)

/-- A push that returns. -/
def durablePush : List (Machine.Event Nat) :=
  .act (.push 1 10) :: .act (.run 1 false) :: .act (.run 1 false) ::
    .act (.run 1 false) :: writesBack 2 ++
    .act (.run 1 false) :: writesBack 2 ++
    .act (.run 1 false) :: .act (.run 1 false) :: writesBack 2 ++
    .act (.run 1 false) :: writesBack 1 ++
    .act (.run 1 false) :: writesBack 2

/-- Behind a push that has returned, every crash leaves the pushed value. -/
theorem queue_survives_crashes_push :
    ∃ machine : Machine Nat,
      Reaches (· = Machine.new) (Machine.Step 3) machine ∧
        ∀ left : Lines.Survivors machine.lines,
          (machine.found left).pushed = [10] := by
  have accepted :
      (Reaches.runAll (Machine.execute 3) durablePush Machine.new).map
          (fun machine => (machine.state.pushed, machine.returnedPushes)) =
        some ([10], 1) := by
    decide +kernel
  obtain ⟨machine, executed, histories⟩ := Option.map_eq_some_iff.mp accepted
  obtain ⟨isPushed, returned⟩ := Prod.mk.inj histories
  have reached : Reaches (· = Machine.new) (Machine.Step 3) machine :=
    Reaches.of_runAll (fun _ _ _ => Machine.step_of_execute) (.start rfl)
      executed
  refine ⟨machine, reached, ?_⟩
  intro left
  obtain ⟨isPrefix, -, -, durable, -⟩ :=
    (queue_survives_crashes (by decide) reached).2 left
  rw [isPushed] at isPrefix
  rw [returned] at durable
  exact isPrefix.eq_of_length_le durable

end ArrayQueue

end Bxalloc
