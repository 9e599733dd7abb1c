import Mathlib.Logic.Relation

namespace Bxalloc.Lib

/-!
# Reachable states of labelled systems

A system has initial states and steps labelled by actions.  A property that
holds initially and is kept by every step holds in every reachable state.
Systems given by an executable transition function also run on lists of
actions, and such a run reaches its final state.
-/

universe u v w

variable {State : Type u} {Action : Type v}

/-- A state reached from an initial state by finitely many steps. -/
def Reaches
    (initial : State → Prop)
    (step : State → Action → State → Prop)
    (final : State) : Prop :=
  ∃ start,
    initial start ∧
      Relation.ReflTransGen
        (fun before after => ∃ action, step before action after)
        start final

namespace Reaches

variable {initial : State → Prop}
variable {step : State → Action → State → Prop}

/-- Initial states are reachable. -/
theorem start
    {state : State}
    (isInitial : initial state) :
    Reaches initial step state :=
  ⟨state, isInitial, .refl⟩

/-- One more step keeps a state reachable. -/
theorem next
    {before after : State}
    {action : Action}
    (reached : Reaches initial step before)
    (stepped : step before action after) :
    Reaches initial step after := by
  obtain ⟨first, isInitial, path⟩ := reached
  exact ⟨first, isInitial, path.tail ⟨action, stepped⟩⟩

/-- A property of initial states kept by all steps holds everywhere. -/
theorem invariant
    {property : State → Prop}
    (holdsInitially : ∀ state, initial state → property state)
    (kept :
      ∀ before action after,
        property before →
        step before action after →
        property after)
    {final : State}
    (reached : Reaches initial step final) :
    property final := by
  obtain ⟨first, isInitial, path⟩ := reached
  induction path with
  | refl =>
      exact holdsInitially first isInitial
  | tail _ stepped inductionHypothesis =>
      obtain ⟨action, moved⟩ := stepped
      exact kept _ action _ inductionHypothesis moved

/-- Fewer steps reach fewer states. -/
theorem mono
    {step' : State → Action → State → Prop}
    (included :
      ∀ before action after,
        step before action after →
        step' before action after)
    {final : State}
    (reached : Reaches initial step final) :
    Reaches initial step' final := by
  obtain ⟨first, isInitial, path⟩ := reached
  refine ⟨first, isInitial, Relation.ReflTransGen.mono ?_ _ _ path⟩
  rintro before after ⟨action, stepped⟩
  exact ⟨action, included before action after stepped⟩

/-- Reachable states map to reachable states of a system that simulates. -/
theorem simulated
    {State' : Type w}
    {initial' : State' → Prop}
    {step' : State' → Action → State' → Prop}
    {view : State → State'}
    (starts : ∀ state, initial state → initial' (view state))
    (simulates :
      ∀ before action after,
        Reaches initial step before →
        step before action after →
        step' (view before) action (view after))
    {final : State}
    (reached : Reaches initial step final) :
    Reaches initial' step' (view final) := by
  obtain ⟨first, isInitial, path⟩ := reached
  induction path with
  | refl => exact .start (starts first isInitial)
  | tail earlier stepped inductionHypothesis =>
      obtain ⟨action, stepped⟩ := stepped
      exact inductionHypothesis.next
        (simulates _ action _ ⟨first, isInitial, earlier⟩ stepped)

/-- Run an executable transition function on a list of actions. -/
def runAll
    (execute : State → Action → Option State) :
    List Action → State → Option State
  | [], state => some state
  | action :: rest, state =>
      (execute state action).bind (runAll execute rest)

/-- The final state of an accepted action list is reachable. -/
theorem of_runAll
    {execute : State → Action → Option State}
    (sound :
      ∀ before action after,
        execute before action = some after →
        step before action after)
    {actions : List Action}
    {before final : State}
    (reached : Reaches initial step before)
    (accepted : runAll execute actions before = some final) :
    Reaches initial step final := by
  induction actions generalizing before with
  | nil =>
      simp only [runAll, Option.some.injEq] at accepted
      rwa [← accepted]
  | cons action rest inductionHypothesis =>
      simp only [runAll, Option.bind_eq_some_iff] at accepted
      obtain ⟨middle, executed, later⟩ := accepted
      exact inductionHypothesis
        (reached.next (sound before action middle executed)) later

/-- Execute an action only when it is allowed. -/
def guarded
    (allowed : State → Action → Prop)
    [∀ state action, Decidable (allowed state action)]
    (execute : State → Action → Option State) :
    State → Action → Option State :=
  fun state action =>
    if allowed state action then execute state action else none

/-- The final state of a list of allowed actions is reachable. -/
theorem of_guarded
    {allowed : State → Action → Prop}
    [∀ state action, Decidable (allowed state action)]
    {execute : State → Action → Option State}
    (sound :
      ∀ before action after,
        execute before action = some after →
        allowed before action →
        step before action after)
    {actions : List Action}
    {before final : State}
    (reached : Reaches initial step before)
    (accepted :
      runAll (guarded allowed execute) actions before = some final) :
    Reaches initial step final := by
  refine of_runAll ?_ reached accepted
  intro first action second executed
  unfold guarded at executed
  split at executed
  · next isAllowed =>
      exact sound first action second executed isAllowed
  · cases executed

end Reaches

end Bxalloc.Lib
