import Bxalloc.ArrayQueue
import Bxalloc.Lib.Potential

namespace Bxalloc

/-!
# The queue of free superblocks is lock-free

`push` and `pop` start again when another thread has exchanged `rear` or
`front`, and `finish_enqueue` exchanges its slot again when another thread has.
None of this goes on forever: a thread only starts again because another call
has returned, and a slot is only exchanged by a thread that goes on.

The weight of a thread bounds the steps that it makes until its call returns or
it finds that it has to start again.  A thread in front of `finish_enqueue`
counts one step more for every helper that its exchange may hold up.
-/

open Lib (Reaches StepOf)

namespace ArrayQueue

universe u

variable {Value : Type u}

/-- The steps of a whole attempt. -/
def attempt (helpers : Nat) : Nat :=
  helpers + 8

/-- What a spurious failure of an exchange costs. -/
def failure (helpers : Nat) : Action Value → Nat
  | .run _ true => attempt helpers
  | _ => 0

/-- The exchanges of a run that fail for no reason. -/
def spuriousFailures (actions : List (Action Value)) : Nat :=
  actions.countP fun action =>
    match action with
    | .run _ spurious => spurious
    | _ => false

theorem sum_failure
    (helpers : Nat)
    (actions : List (Action Value)) :
    (actions.map (failure helpers)).sum =
      spuriousFailures actions * attempt helpers := by
  induction actions with
  | nil => exact (Nat.zero_mul _).symm
  | cons first rest inductionHypothesis =>
      unfold spuriousFailures at inductionHypothesis ⊢
      rw [List.map_cons, List.sum_cons, inductionHypothesis, List.countP_cons,
        Nat.add_mul, Nat.add_comm]
      congr 1
      cases first with
      | push thread value => exact (Nat.zero_mul _).symm
      | pop thread => exact (Nat.zero_mul _).symm
      | run thread spurious =>
          cases spurious with
          | true => exact (Nat.one_mul _).symm
          | false => exact (Nat.zero_mul _).symm

/-- The call that a thread is in returns. -/
def Returns
    (before : State Value)
    (action : Action Value)
    (after : State Value) : Prop :=
  before.pc action.thread ≠ .idle ∧ after.pc action.thread = .idle

/-- The parts of the queue that a thread's weight depends on. -/
structure SameEnds (state state' : State Value) : Prop where
  rear : state'.rear = state.rear
  front : state'.front = state.front

/-- A thread that moves leaves both ends as they are. -/
theorem sameEnds_setPc
    (state : State Value)
    (thread : Nat)
    (pc : Pc Value) :
    SameEnds state (state.setPc thread pc) :=
  ⟨rfl, rfl⟩

section Weight

variable [DecidableEq Value]

/-- The attempt that follows one that fails. -/
def again
    (helpers : Nat)
    (state : State Value)
    (old : Snapshot Value) : Caller Value → Nat
  | .push _ => if old.rear = state.rear then 0 else attempt helpers
  | .pop => if old.front = state.front then 0 else attempt helpers

/-- How many steps a thread makes at most while no call returns. -/
def weight
    (helpers : Nat)
    (state : State Value) : Pc Value → Nat
  | .idle => attempt helpers + 1
  | .pushRear _ => attempt helpers
  | .pushFront _ rear _ =>
      if rear = state.rear then helpers + 7 else attempt helpers + 2
  | .pushCheck _ old =>
      if old.rear = state.rear then helpers + 6 else attempt helpers + 1
  | .popFront => attempt helpers
  | .popRear front =>
      if front = state.front then helpers + 7 else attempt helpers + 2
  | .popCheck old =>
      if old.front = state.front then helpers + 6 else attempt helpers + 1
  | .helpLoad caller old => helpers + 5 + again helpers state old caller
  | .helpCas caller old oldNode =>
      (if state.nodes old.rear.index = oldNode then helpers + 3
        else helpers + 4) +
        again helpers state old caller
  | .pushNode value old => 2 + again helpers state old (.push value)
  | .pushCas old newRear => 1 + again helpers state old (.push newRear.value)
  | .popNode old => 2 + again helpers state old .pop
  | .popCas old _ => 1 + again helpers state old .pop

variable {helpers size : Nat} {state state' : State Value}

theorem again_le
    (helpers : Nat)
    (state : State Value)
    (old : Snapshot Value)
    (caller : Caller Value) :
    again helpers state old caller ≤ attempt helpers := by
  cases caller <;> simp only [again] <;> split <;> omega

/-- No thread weighs more than a helper of a failing attempt. -/
theorem weight_le
    (pc : Pc Value) :
    weight helpers state pc ≤ 2 * helpers + 13 := by
  cases pc with
  | idle | pushRear | popFront =>
      simp only [weight, attempt]
      omega
  | pushFront | pushCheck | popRear | popCheck =>
      simp only [weight, attempt]
      split <;> omega
  | helpLoad caller old =>
      have more := again_le helpers state old caller
      simp only [weight, attempt] at more ⊢
      omega
  | helpCas caller old oldNode =>
      have more := again_le helpers state old caller
      simp only [weight, attempt] at more ⊢
      split <;> omega
  | pushNode value old =>
      have more :=
        again_le helpers state old (.push value)
      simp only [weight, attempt] at more ⊢
      omega
  | pushCas old newRear =>
      have more :=
        again_le helpers state old
          (.push newRear.value)
      simp only [weight, attempt] at more ⊢
      omega
  | popNode old | popCas old ret =>
      have more := again_le helpers state old .pop
      simp only [weight, attempt] at more ⊢
      omega

theorem again_congr
    (same : SameEnds state state')
    (old : Snapshot Value)
    (caller : Caller Value) :
    again helpers state' old caller = again helpers state old caller := by
  cases caller <;> simp only [again, same.rear, same.front]

/-- Without an exchange no weight changes. -/
theorem weight_congr
    (same : SameEnds state state')
    (nodes : state'.nodes = state.nodes)
    (pc : Pc Value) :
    weight helpers state' pc = weight helpers state pc := by
  cases pc <;>
    simp only [weight, again_congr same, same.rear, same.front, nodes]

/-- The exchange of a slot holds up every other helper for one step. -/
theorem weight_le_succ
    (same : SameEnds state state')
    (pc : Pc Value) :
    weight helpers state' pc ≤ weight helpers state pc + 1 := by
  cases pc with
  | helpCas caller old oldNode =>
      simp only [weight, again_congr same]
      split <;> split <;> omega
  | idle | pushRear | popFront | pushFront | pushCheck | popRear | popCheck
  | helpLoad | pushNode | pushCas | popNode | popCas =>
      simp only [weight, again_congr same, same.rear, same.front]
      exact Nat.le_succ _

/-- A step that ends no call leaves the ends and lowers the thread's weight. -/
inductive Goes
    (helpers : Nat)
    (state : State Value)
    (thread cost : Nat)
    (state' : State Value) : Prop where
  | quiet
      (same : SameEnds state state')
      (nodes : state'.nodes = state.nodes)
      (own :
        weight helpers state' (state'.pc thread) + 1 ≤
          weight helpers state (state.pc thread) + cost)
  /-- The exchange of `finish_enqueue` pays for all that it holds up. -/
  | helped
      (same : SameEnds state state')
      (own :
        weight helpers state' (state'.pc thread) + helpers + 1 ≤
          weight helpers state (state.pc thread))

/-- A thread that only moves on goes on. -/
theorem Goes.setPc
    {thread cost : Nat}
    {pc : Pc Value}
    (own :
      weight helpers state pc + 1 ≤
        weight helpers state (state.pc thread) + cost) :
    Goes helpers state thread cost (state.setPc thread pc) := by
  refine .quiet ⟨rfl, rfl⟩ rfl ?_
  rw [weight_congr (sameEnds_setPc state thread pc) rfl, setPc_pc]
  exact own

/-- Behind `finish_enqueue` there are two steps left. -/
theorem weight_afterHelp
    (old : Snapshot Value)
    (caller : Caller Value) :
    weight helpers state (afterHelp old caller) =
      2 + again helpers state old caller := by
  cases caller <;> rfl

/-- Every step of a thread that stays in its call. -/
theorem advance_goes
    {thread : Nat}
    {spurious : Bool}
    (accepted : advance size state thread spurious = some state')
    (running : state'.pc thread ≠ .idle) :
    Goes helpers state thread (failure helpers (.run thread spurious : Action Value))
      state' := by
  unfold advance at accepted
  cases shape : state.pc thread with
  | idle =>
      rw [shape] at accepted
      cases accepted
  | pushRear value =>
      rw [shape] at accepted
      cases accepted
      refine .setPc ?_
      simp only [shape, weight, attempt, if_true]
      omega
  | pushFront value rear since =>
      rw [shape] at accepted
      cases accepted
      refine .setPc ?_
      simp only [shape, weight]
      split <;> omega
  | pushCheck value old =>
      rw [shape] at accepted
      simp only at accepted
      split at accepted
      · next current =>
          cases accepted
          refine .setPc ?_
          simp only [shape, weight, again, current, if_true]
          omega
      · next changed =>
          cases accepted
          refine .setPc ?_
          simp only [shape, weight, if_neg changed]
          omega
  | popFront =>
      rw [shape] at accepted
      cases accepted
      refine .setPc ?_
      simp only [shape, weight, attempt, if_true]
      omega
  | popRear front =>
      rw [shape] at accepted
      cases accepted
      refine .setPc ?_
      simp only [shape, weight]
      split <;> omega
  | popCheck old =>
      rw [shape] at accepted
      simp only at accepted
      split at accepted
      · next current =>
          split at accepted <;> cases accepted
          · refine .setPc ?_
            simp only [shape, weight, again, current, if_true]
            omega
          · refine .setPc ?_
            simp only [shape, weight, again, current, if_true]
            omega
      · next changed =>
          cases accepted
          refine .setPc ?_
          simp only [shape, weight, if_neg changed]
          omega
  | helpLoad caller old =>
      rw [shape] at accepted
      cases accepted
      refine .setPc ?_
      simp only [shape, weight]
      split <;> omega
  | helpCas caller old oldNode =>
      rw [shape] at accepted
      simp only at accepted
      split at accepted
      · next succeeds =>
          obtain ⟨unchanged, rfl⟩ := succeeds
          cases accepted
          have same :
              SameEnds state
                ((state.finish old).setPc thread (afterHelp old caller)) :=
            ⟨rfl, rfl⟩
          refine .helped same ?_
          rw [setPc_pc, weight_afterHelp, again_congr same]
          simp only [shape, weight, if_pos unchanged]
          omega
      · next fails =>
          cases accepted
          refine .setPc ?_
          simp only [shape, weight, if_true]
          split
          · next unchanged =>
              have isSpurious : spurious = true := by
                cases spurious with
                | true => rfl
                | false => exact absurd ⟨unchanged, rfl⟩ fails
              simp only [isSpurious, failure, attempt]
              omega
          · omega
  | pushNode value old =>
      rw [shape] at accepted
      simp only at accepted
      split at accepted <;> cases accepted
      refine .setPc ?_
      simp only [shape, weight, again]
      omega
  | pushCas old newRear =>
      rw [shape] at accepted
      simp only at accepted
      split at accepted
      · cases accepted
        exact absurd (setPc_pc state thread .idle) running
      · next fails =>
          cases accepted
          refine .setPc ?_
          simp only [shape, weight, again]
          split
          · next unchanged =>
              have isSpurious : spurious = true := by
                cases spurious with
                | true => rfl
                | false => exact absurd ⟨unchanged.symm, rfl⟩ fails
              simp only [isSpurious, failure]
              omega
          · omega
  | popNode old =>
      rw [shape] at accepted
      simp only at accepted
      split at accepted
      · cases accepted
        exact absurd (setPc_pc state thread .idle) running
      · cases accepted
        refine .setPc ?_
        simp only [shape, weight]
        omega
  | popCas old ret =>
      rw [shape] at accepted
      simp only at accepted
      split at accepted
      · cases accepted
        exact absurd (setPc_pc state thread .idle) running
      · next changed =>
          cases accepted
          refine .setPc ?_
          simp only [shape, weight, again, if_neg (Ne.symm changed)]
          omega

/-- A step moves its own thread only. -/
theorem advance_others
    {thread other : Nat}
    {spurious : Bool}
    (accepted : advance size state thread spurious = some state')
    (differs : other ≠ thread) :
    state'.pc other = state.pc other := by
  unfold advance at accepted
  repeat' split at accepted
  all_goals cases accepted
  all_goals exact Function.update_of_ne differs ..

/-- Every step that ends no call. -/
theorem step_goes
    (helpers : Nat)
    {action : Action Value}
    (accepted : step size state action = some state')
    (running : ¬ Returns state action state') :
    Goes helpers state action.thread (failure helpers action) state' ∧
      ∀ other,
        other ≠ action.thread →
        state'.pc other = state.pc other := by
  cases action with
  | push thread value =>
      simp only [step] at accepted
      split at accepted <;> cases accepted
      next idle =>
        refine ⟨.setPc ?_, fun other differs => Function.update_of_ne differs ..⟩
        simp only [Action.thread, idle, weight]
        omega
  | pop thread =>
      simp only [step] at accepted
      split at accepted <;> cases accepted
      next idle =>
        refine ⟨.setPc ?_, fun other differs => Function.update_of_ne differs ..⟩
        simp only [Action.thread, idle, weight]
        omega
  | run thread spurious =>
      have started : state.pc thread ≠ .idle := by
        intro idle
        simp only [step, advance, idle] at accepted
        cases accepted
      exact
        ⟨advance_goes accepted fun idle => running ⟨started, idle⟩,
          fun other differs => advance_others accepted differs⟩

/-- A step of one of `threads` that ends no call lowers the sum of weights. -/
theorem step_lowers
    {threads : Finset Nat}
    {action : Action Value}
    (inside : action.thread ∈ threads)
    (accepted : step size state action = some state')
    (running : ¬ Returns state action state') :
    ∑ thread ∈ threads,
          weight threads.card state' (state'.pc thread) + 1 ≤
      ∑ thread ∈ threads, weight threads.card state (state.pc thread) +
        failure threads.card action := by
  obtain ⟨goes, others⟩ := step_goes threads.card accepted running
  cases goes with
  | quiet same nodes own =>
      refine Lib.sum_lowered inside own ?_
      intro other differs
      rw [others other differs]
      exact weight_congr same nodes _
  | helped same own =>
      refine (Lib.sum_lowered_of_paid inside own ?_).trans
        (Nat.le_add_right _ _)
      intro other differs
      rw [others other differs]
      exact weight_le_succ same _

/--
From any state, in any interleaving of any threads, a call returns once the
threads have taken more steps than `2 * n + 13` for each of the `n` threads and
`n + 8` for each exchange that failed for no reason.
-/
theorem queue_lock_free
    {threads : Finset Nat}
    {actions : List (Action Value)}
    {start final : State Value}
    (inside : ∀ action ∈ actions, action.thread ∈ threads)
    (executed : Reaches.runAll (step size) actions start = some final)
    (long :
      threads.card * (2 * threads.card + 13) +
          spuriousFailures actions * (threads.card + 8) <
        actions.length) :
    ∃ before action after,
      StepOf (step size) actions start before action after ∧
        Returns before action after := by
  have bounded :
      ∑ thread ∈ threads, weight threads.card start (start.pc thread) ≤
        threads.card * (2 * threads.card + 13) :=
    Finset.sum_le_card_nsmul threads _ _ fun thread _ => weight_le _
  refine
    Lib.exists_progress
      (fun _ _ _ member stepped running => step_lowers member stepped running)
      inside executed ?_
  rw [sum_failure]
  unfold attempt
  omega

end Weight

/-- One thread pushes and pops in seventeen steps. -/
theorem queue_lock_free_pushPop :
    ∃ final : State Nat,
      Reaches.runAll (step 3) (pushPop 1 10) empty = some final ∧
        ∃ before action after,
          StepOf (step 3) (pushPop 1 10) empty before action after ∧
            Returns before action after := by
  have accepted :
      (Reaches.runAll (step 3) (pushPop 1 10) (empty : State Nat)).isSome := by
    decide +kernel
  obtain ⟨final, executed⟩ := Option.isSome_iff_exists.mp accepted
  have oneThread :
      ∀ action ∈ pushPop 1 10, action.thread ∈ ({1} : Finset Nat) := by
    decide
  exact ⟨final, executed, queue_lock_free oneThread executed (by decide)⟩

end ArrayQueue

end Bxalloc
