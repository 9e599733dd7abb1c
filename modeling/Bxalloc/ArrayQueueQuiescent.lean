import Bxalloc.ArrayQueueDurable

namespace Bxalloc

/-!
# The queue of free superblocks between two calls

A crash that comes while no exchange waits for its write-back leaves the queue
as it is: the next process finds the same values in the same order.
-/

open Lib (Reaches)

namespace ArrayQueue

universe u

variable {Value : Type u}
variable {size : Nat} {state state' : State Value}

/-- The values that wait in the queue, oldest first. -/
def State.contents (state : State Value) : List Value :=
  state.pushed.drop state.popped.length

section Steps

variable [DecidableEq Value]

/-- Only a successful exchange of `rear` pushes, and it ends its call. -/
theorem step_pushed
    {action : Action Value}
    (accepted : step size state action = some state') :
    state'.pushed = state.pushed ∨
      (∃ old newRear, state.pc action.thread = .pushCas old newRear) ∧
        state'.pc action.thread = .idle := by
  cases action with
  | push thread value =>
      simp only [step] at accepted
      split at accepted <;> cases accepted
      exact .inl rfl
  | pop thread =>
      simp only [step] at accepted
      split at accepted <;> cases accepted
      exact .inl rfl
  | run thread spurious =>
      simp only [step] at accepted
      by_cases exchanges :
          ∃ old newRear, state.pc thread = .pushCas old newRear
      · obtain ⟨old, newRear, shape⟩ := exchanges
        simp only [advance, shape] at accepted
        split at accepted <;> cases accepted
        · exact .inr ⟨⟨old, newRear, shape⟩, setPc_pc state thread .idle⟩
        · exact .inl rfl
      · left
        unfold advance at accepted
        split at accepted
        case h_11 old newRear shape =>
          exact absurd ⟨old, newRear, shape⟩ exchanges
        all_goals repeat' split at accepted
        all_goals cases accepted
        all_goals rfl

/-- Only a successful exchange of `front` pops, and it ends its call. -/
theorem step_popped
    {action : Action Value}
    (accepted : step size state action = some state') :
    state'.popped = state.popped ∨
      (∃ old ret, state.pc action.thread = .popCas old ret) ∧
        state'.pc action.thread = .idle := by
  cases action with
  | push thread value =>
      simp only [step] at accepted
      split at accepted <;> cases accepted
      exact .inl rfl
  | pop thread =>
      simp only [step] at accepted
      split at accepted <;> cases accepted
      exact .inl rfl
  | run thread spurious =>
      simp only [step] at accepted
      by_cases exchanges : ∃ old ret, state.pc thread = .popCas old ret
      · obtain ⟨old, ret, shape⟩ := exchanges
        simp only [advance, shape] at accepted
        split at accepted <;> cases accepted
        · exact .inr ⟨⟨old, ret, shape⟩, setPc_pc state thread .idle⟩
        · exact .inl rfl
      · left
        unfold advance at accepted
        split at accepted
        case h_13 old ret shape =>
          exact absurd ⟨old, ret, shape⟩ exchanges
        all_goals repeat' split at accepted
        all_goals cases accepted
        all_goals rfl

end Steps

namespace Machine

variable {machine machine' : Machine Value}

/-- The last exchange of an end is durable, or its thread is not done. -/
structure Newest (machine : Machine Value) : Prop where
  push :
    machine.state.pushed.length ≤ machine.lines.rear.durable ∨
      ∃ thread,
        machine.todo thread ≠ [] ∧
          machine.state.pushed.length ≤ machine.lastPush thread
  pop :
    machine.state.popped.length ≤ machine.lines.front.durable ∨
      ∃ thread,
        machine.todo thread ≠ [] ∧
          machine.state.popped.length ≤ machine.lastPop thread

/-- A number that a step leaves or gives. -/
theorem newest_renumber
    {last : Nat → Nat}
    {todo todo' : Nat → List WriteBack}
    {thread before after durable durable' : Nat}
    (newest :
      before ≤ durable ∨ ∃ other, todo other ≠ [] ∧ before ≤ last other)
    (ready : todo thread = [])
    (grown : durable ≤ durable')
    (others : ∀ other, other ≠ thread → todo' other = todo other)
    (exchanged : after ≠ before → todo' thread ≠ []) :
    after ≤ durable' ∨
      ∃ other,
        todo' other ≠ [] ∧
          after ≤ renumber last thread before after other := by
  unfold renumber
  by_cases same : after = before
  · rw [if_pos same, same]
    rcases newest with settled | ⟨other, busy, newest⟩
    · exact .inl (settled.trans grown)
    · have differs : other ≠ thread := fun here => busy (here ▸ ready)
      exact .inr ⟨other, others other differs ▸ busy, newest⟩
  · rw [if_neg same]
    have own : Function.update last thread after thread = after :=
      Function.update_self ..
    exact .inr ⟨thread, exchanged same, Nat.le_of_eq own.symm⟩

/-- A thread with a new exchange has write-backs to execute. -/
theorem Newest.act
    [DecidableEq Value]
    (newest : machine.Newest)
    {action : Action Value}
    (ready : machine.todo action.thread = [])
    (accepted : step size machine.state action = some state') :
    (machine.moved size action.thread state').Newest := by
  have later := machine.lines.extends_record state'
  have others :
      ∀ other,
        other ≠ action.thread →
        (machine.moved size action.thread state').todo other =
          machine.todo other :=
    fun other differs => Function.update_of_ne differs ..
  have own :
      (machine.moved size action.thread state').todo action.thread =
        writeBacks size (machine.state.pc action.thread)
          (state'.pc action.thread) :=
    Function.update_self ..
  constructor
  · refine newest_renumber newest.push ready later.rear.durable others ?_
    intro grown
    rcases step_pushed accepted with same | ⟨⟨old, newRear, shape⟩, leaves⟩
    · exact absurd (congrArg List.length same) grown
    · rw [own, shape, leaves]
      exact List.cons_ne_nil _ _
  · refine newest_renumber newest.pop ready later.front.durable others ?_
    intro grown
    rcases step_popped accepted with same | ⟨⟨old, ret, shape⟩, leaves⟩
    · exact absurd (congrArg List.length same) grown
    · rw [own, shape, leaves]
      exact List.cons_ne_nil _ _

/-- A thread that is done has made its exchange durable. -/
theorem Newest.wroteBack
    [Zero Value]
    (newest : machine.Newest)
    (ok : machine.Ok size)
    {thread : Nat}
    {event : WriteBack}
    {rest : List WriteBack}
    (next : machine.todo thread = event :: rest) :
    (machine.wroteBack thread event rest).Newest := by
  have later := machine.lines.extends_perform thread event
  have others :
      ∀ other,
        other ≠ thread →
        (machine.wroteBack thread event rest).todo other =
          machine.todo other :=
    fun other differs => Function.update_of_ne differs ..
  have own : (machine.wroteBack thread event rest).todo thread = rest :=
    Function.update_self ..
  have after := ok.wroteBack next
  have done :
      rest = [] →
        (machine.wroteBack thread event rest).ahead thread =
          (machine.wroteBack thread event rest).lines :=
    fun last => ahead_ready (own.trans last)
  constructor
  · rcases newest.push with settled | ⟨other, busy, isNewest⟩
    · exact .inl (settled.trans later.rear.durable)
    · rcases eq_or_ne other thread with rfl | differs
      · by_cases last : rest = []
        · have durable := after.lastPush other
          rw [done last] at durable
          exact .inl (isNewest.trans durable)
        · exact .inr ⟨other, own.symm ▸ last, isNewest⟩
      · exact .inr ⟨other, (others other differs).symm ▸ busy, isNewest⟩
  · rcases newest.pop with settled | ⟨other, busy, isNewest⟩
    · exact .inl (settled.trans later.front.durable)
    · rcases eq_or_ne other thread with rfl | differs
      · by_cases last : rest = []
        · have durable := after.lastPop other
          rw [done last] at durable
          exact .inl (isNewest.trans durable)
        · exact .inr ⟨other, own.symm ▸ last, isNewest⟩
      · exact .inr ⟨other, (others other differs).symm ▸ busy, isNewest⟩

variable [Zero Value] [DecidableEq Value]

/-- Every step of the machine. -/
theorem Newest.step
    (newest : machine.Newest)
    (ok : machine.Ok size)
    {event : Event Value}
    (stepped : Step size machine event machine') :
    machine'.Newest := by
  cases stepped with
  | act ready accepted => exact newest.act ready accepted.1.1
  | writeBack next => exact newest.wroteBack ok next
  | crash left =>
      obtain ⟨pushedLength, poppedLength⟩ := ok.found_lengths left
      exact ⟨.inl (Nat.le_of_eq pushedLength), .inl (Nat.le_of_eq poppedLength)⟩

/-- What every step keeps. -/
structure Settled (size : Nat) (machine : Machine Value) : Prop where
  ok : machine.Ok size
  newest : machine.Newest

theorem Settled.step
    (settled : machine.Settled size)
    (several : 2 ≤ size)
    {event : Event Value}
    (stepped : Step size machine event machine') :
    machine'.Settled size :=
  ⟨settled.ok.step several stepped, settled.newest.step settled.ok stepped⟩

/-- The thread that takes a step. -/
def Event.thread : Event Value → Option Nat
  | .act action => some action.thread
  | .writeBack thread => some thread
  | .crash => none

end Machine

end ArrayQueue

end Bxalloc
