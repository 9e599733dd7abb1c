import Bxalloc.Lib.Reach
import Mathlib.Algebra.BigOperators.Group.List.Basic
import Mathlib.Algebra.Order.BigOperators.Group.Finset
import Mathlib.Algebra.Order.Ring.Nat

namespace Bxalloc.Lib

/-!
# Progress by a potential

Steps that make no progress lower a potential, except that some actions may
raise it by their cost.  A run that is longer than the potential and the costs
together makes progress.  The potential of a set of parties is the sum of their
own potentials; a party pays for what its step raises the others by.
-/

universe u v

section Runs

variable {State : Type u} {Action : Type v}

/-- The first step of a run at which something holds, and the run before it. -/
structure StepOf
    (execute : State → Action → Option State)
    (actions : List Action)
    (start before : State)
    (action : Action)
    (after : State) : Prop where
  position :
    ∃ earlier later,
      actions = earlier ++ action :: later ∧
        Reaches.runAll execute earlier start = some before
  executed : execute before action = some after

variable {execute : State → Action → Option State}

/-- A step of the rest of a run is a step of the run. -/
theorem StepOf.later
    {rest : List Action}
    {first action : Action}
    {start next before after : State}
    (found : StepOf execute rest next before action after)
    (executed : execute start first = some next) :
    StepOf execute (first :: rest) start before action after := by
  obtain ⟨earlier, later, isRest, reached⟩ := found.position
  refine ⟨⟨first :: earlier, later, ?_, ?_⟩, found.executed⟩
  · rw [isRest, List.cons_append]
  · rw [Reaches.runAll, executed]
    exact reached

/-- A run longer than its potential and its costs makes progress. -/
theorem exists_progress
    {allowed : Action → Prop}
    {progress : State → Action → State → Prop}
    {potential : State → Nat}
    {cost : Action → Nat}
    (lowers :
      ∀ before action after,
        allowed action →
        execute before action = some after →
        ¬ progress before action after →
        potential after + 1 ≤ potential before + cost action)
    {actions : List Action}
    {start final : State}
    (inside : ∀ action ∈ actions, allowed action)
    (executed : Reaches.runAll execute actions start = some final)
    (long : potential start + (actions.map cost).sum < actions.length) :
    ∃ before action after,
      StepOf execute actions start before action after ∧
        progress before action after := by
  induction actions generalizing start with
  | nil => exact absurd long (Nat.not_lt_zero _)
  | cons first rest inductionHypothesis =>
      rw [Reaches.runAll, Option.bind_eq_some_iff] at executed
      obtain ⟨next, stepped, executed⟩ := executed
      rw [List.map_cons, List.sum_cons, List.length_cons] at long
      by_cases progresses : progress start first next
      · exact ⟨start, first, next, ⟨⟨[], rest, rfl, rfl⟩, stepped⟩, progresses⟩
      · have lowered :=
          lowers start first next (inside first List.mem_cons_self) stepped
            progresses
        obtain ⟨before, action, after, found, progresses⟩ :=
          inductionHypothesis
            (fun action member =>
              inside action (List.mem_cons_of_mem first member))
            executed (by omega)
        exact ⟨before, action, after, found.later stepped, progresses⟩

end Runs

section Parties

variable {Party : Type u} [DecidableEq Party]
variable {parties : Finset Party} {party : Party}
variable {weight weight' : Party → Nat}

/-- A party that leaves the others as they are lowers the sum by its own. -/
theorem sum_lowered
    {cost : Nat}
    (member : party ∈ parties)
    (own : weight' party + 1 ≤ weight party + cost)
    (others : ∀ other, other ≠ party → weight' other = weight other) :
    ∑ p ∈ parties, weight' p + 1 ≤ ∑ p ∈ parties, weight p + cost := by
  rw [← Finset.add_sum_erase parties weight member,
    ← Finset.add_sum_erase parties weight' member]
  have same :
      ∑ p ∈ parties.erase party, weight' p =
        ∑ p ∈ parties.erase party, weight p :=
    Finset.sum_congr rfl fun other erased =>
      others other (Finset.ne_of_mem_erase erased)
  omega

/-- A party may raise every other one by one if it pays for all of them. -/
theorem sum_lowered_of_paid
    (member : party ∈ parties)
    (own : weight' party + parties.card + 1 ≤ weight party)
    (others : ∀ other, other ≠ party → weight' other ≤ weight other + 1) :
    ∑ p ∈ parties, weight' p + 1 ≤ ∑ p ∈ parties, weight p := by
  rw [← Finset.add_sum_erase parties weight member,
    ← Finset.add_sum_erase parties weight' member]
  have raised :
      ∑ p ∈ parties.erase party, weight' p ≤
        ∑ p ∈ parties.erase party, (weight p + 1) :=
    Finset.sum_le_sum fun other erased =>
      others other (Finset.ne_of_mem_erase erased)
  have fewer : (parties.erase party).card ≤ parties.card :=
    Finset.card_le_card (Finset.erase_subset party parties)
  rw [Finset.sum_add_distrib, ← Finset.card_eq_sum_ones] at raised
  omega

end Parties

end Bxalloc.Lib
