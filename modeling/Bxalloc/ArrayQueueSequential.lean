import Bxalloc.ArrayQueue

namespace Bxalloc

/-!
# The queue of free superblocks without interference

Calls of `_ArrayQueue<T, size>` made one after the other, each run from its
first to its last step by one thread while all others are idle.  Weak exchanges
may still fail for no reason.  The newest value lies in `rear` until the next
push, or a pop that finds no other value, copies it into its slot.  Nothing
here depends on the counters, which may wrap.
-/

open Lib (eq_of_sameSlot)

namespace ArrayQueue

universe u

variable {Value : Type u}

/-- The calls of the queue. -/
inductive Call (Value : Type u) where
  | push (value : Value)
  | pop
  deriving Repr, DecidableEq

/-- How a call ends. -/
inductive Result (Value : Type u) where
  | pushed
  | popped (value : Option Value)
  /-- `assert(0&&"queue is full!")`. -/
  | full
  deriving Repr, DecidableEq

/-- The results of calls of a bounded first-in first-out list. -/
def fifo (capacity : Nat) : List Value → List (Call Value) → List (Result Value)
  | _, [] => []
  | items, .push value :: rest =>
      if items.length = capacity then
        [.full]
      else
        .pushed :: fifo capacity (items ++ [value]) rest
  | items, .pop :: rest =>
      .popped items.head? :: fifo capacity items.tail rest

section Execute

variable [DecidableEq Value]

/-- A call with its thread and the failures of its weak exchanges. -/
structure Request (Value : Type u) where
  thread : Nat
  call : Call Value
  /-- For each step, whether a weak exchange made in it fails. -/
  spurious : List Bool

/-- A finished call: it asserts or leaves a state. -/
inductive Ending (Value : Type u) where
  | full
  | returned (state : State Value)

/-- The steps of one thread up to the end of its call, at most `fuel` many. -/
def runThread (size thread : Nat) :
    Nat → List Bool → State Value → Option (Ending Value)
  | 0, _, _ => none
  | fuel + 1, spurious, state =>
      match advance size state thread (spurious.headD false) with
      | none => some .full
      | some next =>
          if next.pc thread = .idle then
            some (.returned next)
          else
            runThread size thread fuel spurious.tail next

/-- The step in which a thread enters a call. -/
def Call.start (thread : Nat) : Call Value → Action Value
  | .push value => .push thread value
  | .pop => .pop thread

/-- One call; without spurious failures eight steps end it. -/
def perform
    (size : Nat)
    (request : Request Value)
    (state : State Value) : Option (Ending Value) := do
  let started ← step size state (request.call.start request.thread)
  runThread size request.thread (request.spurious.length + 8)
    request.spurious started

/-- What a call returned: a pop returns the value of its exchange. -/
def resultOf (before after : State Value) : Call Value → Result Value
  | .push _ => .pushed
  | .pop => .popped after.popped[before.popped.length]?

/-- Calls made one after the other; `none` when a call does not end. -/
def execute (size : Nat) :
    State Value → List (Request Value) → Option (List (Result Value))
  | _, [] => some []
  | state, request :: rest =>
      match perform size request state with
      | none => none
      | some .full => some [.full]
      | some (.returned next) => do
          let results ← execute size next rest
          return resultOf state next request.call :: results

end Execute

variable {size : Nat} {state next : State Value} {items : List Value}

/-- The ring holds `items`, the last of them perhaps in `rear` only. -/
structure Ring
    (size : Nat)
    (state : State Value)
    (items : List Value) : Prop where
  contents : state.popped ++ items = state.pushed
  room : items.length < size
  rearIndex : state.rear.index = state.pushed.length % size
  frontIndex : state.front.index = (state.popped.length + 1) % size
  last : ∀ value, items.getLast? = some value → state.rear.value = value
  slots :
    ∀ i value,
      i + 1 < items.length →
      items[i]? = some value →
      (state.nodes ((state.popped.length + 1 + i) % size)).value = value

/-- The value in `rear` has been copied into its slot. -/
def Copied (state : State Value) : Prop :=
  (state.nodes state.rear.index).value = state.rear.value

namespace Ring

theorem pushed_length
    (ring : Ring size state items) :
    state.pushed.length = state.popped.length + items.length := by
  rw [← ring.contents, List.length_append]

/-- The test of `pop` for an empty queue. -/
theorem empty_iff
    (ring : Ring size state items) :
    state.front.index = (state.rear.index + 1) % size ↔ items = [] := by
  have length := ring.pushed_length
  have room := ring.room
  rw [ring.rearIndex, ring.frontIndex, Nat.mod_add_mod, ← List.length_eq_zero_iff]
  constructor
  · intro same
    have none := eq_of_sameSlot same (by omega) (by omega)
    omega
  · intro none
    rw [length, none, Nat.add_zero]

/-- The test of `push` for a full queue. -/
theorem full_iff
    (ring : Ring size state items) :
    state.front.index = (state.rear.index + 2) % size ↔
      items.length = size - 1 := by
  have length := ring.pushed_length
  have room := ring.room
  rw [ring.rearIndex, ring.frontIndex, Nat.mod_add_mod]
  constructor
  · intro same
    by_contra notFull
    have again := eq_of_sameSlot same (by omega) (by omega)
    omega
  · intro full
    have lap :
        state.pushed.length + 2 = state.popped.length + 1 + size := by
      omega
    rw [lap, Nat.add_mod_right]

/-- With a single value both ends are at its slot. -/
theorem single
    (ring : Ring size state items)
    (one : items.length = 1) :
    state.front.index = state.rear.index := by
  rw [ring.rearIndex, ring.frontIndex, ring.pushed_length, one]

/-- Copying the value of `rear` into its slot keeps the contents. -/
theorem finish
    (ring : Ring size state items)
    {old : Snapshot Value}
    (current : old.rear = state.rear) :
    Ring size (state.finish old) items ∧ Copied (state.finish old) := by
  refine ⟨⟨ring.contents, ring.room, ring.rearIndex, ring.frontIndex,
    ring.last, ?_⟩, ?_⟩
  · intro i value before isValue
    have length := ring.pushed_length
    have room := ring.room
    have differs :
        (state.popped.length + 1 + i) % size ≠ old.rear.index := by
      intro same
      rw [current, ring.rearIndex] at same
      have again := eq_of_sameSlot same (by omega) (by omega)
      omega
    simp only [State.finish, Function.update_of_ne differs]
    exact ring.slots i value before isValue
  · unfold Copied
    simp only [State.finish, finishedNode, current, Function.update_self]

/-- The value that `pop` reads. -/
theorem front_value
    (ring : Ring size state items)
    (copied : items.length = 1 → Copied state)
    {value : Value}
    (isHead : items.head? = some value) :
    (state.nodes (state.front.index % size)).value = value := by
  rw [ring.frontIndex, Nat.mod_mod]
  cases shape : items with
  | nil =>
      rw [shape] at isHead
      cases isHead
  | cons first rest =>
      rw [shape] at isHead
      cases rest with
      | nil =>
          have one : items.length = 1 := by
            rw [shape]
            rfl
          have same := ring.single one
          have lastValue := ring.last first (by rw [shape]; rfl)
          rw [← ring.frontIndex, same, copied one, lastValue]
          exact Option.some.inj isHead
      | cons second more =>
          have slot :=
            ring.slots 0 value (by rw [shape]; simp) (by rw [shape]; exact isHead)
          simpa using slot

/-- Moving a thread does not touch the ring. -/
theorem setPc
    (ring : Ring size state items)
    (thread : Nat)
    (pc : Pc Value) :
    Ring size (state.setPc thread pc) items :=
  ⟨ring.contents, ring.room, ring.rearIndex, ring.frontIndex, ring.last,
    ring.slots⟩

/-- The exchange of `rear` appends a value. -/
theorem push
    (ring : Ring size state items)
    (copied : Copied state)
    (notFull : items.length ≠ size - 1)
    {newRear : Rear Value}
    (isIndex : newRear.index = (state.rear.index + 1) % size) :
    Ring size
      { state with
        rear := newRear
        pushed := state.pushed ++ [newRear.value] }
      (items ++ [newRear.value]) := by
  have room := ring.room
  have length := ring.pushed_length
  refine ⟨?_, ?_, ?_, ring.frontIndex, ?_, ?_⟩
  · simp only
    rw [← List.append_assoc, ring.contents]
  · rw [List.length_append, List.length_singleton]
    omega
  · simp only
    rw [isIndex, ring.rearIndex, Nat.mod_add_mod, List.length_append,
      List.length_singleton]
  · intro value isLast
    rw [List.getLast?_concat] at isLast
    exact Option.some.inj isLast
  · intro i value before isValue
    rw [List.length_append, List.length_singleton] at before
    rw [List.getElem?_append_left (by omega)] at isValue
    simp only
    rcases Nat.lt_or_ge (i + 1) items.length with inSlot | isLast
    · exact ring.slots i value inSlot isValue
    · have position :
          state.popped.length + 1 + i = state.pushed.length := by
        omega
      have lastValue := ring.last value (by
        rw [List.getLast?_eq_getElem?]
        rw [← isValue]
        congr 1
        omega)
      rw [position, ← ring.rearIndex, copied, lastValue]

/-- The exchange of `front` takes the first value. -/
theorem pop
    (ring : Ring size state items)
    {value : Value}
    (isHead : items.head? = some value) :
    Ring size
      { state with
        front := nextFront size state.front
        popped := state.popped ++ [value] }
      items.tail := by
  have room := ring.room
  cases shape : items with
  | nil =>
      rw [shape] at isHead
      cases isHead
  | cons first rest =>
      rw [shape] at isHead room
      obtain rfl : first = value := Option.some.inj isHead
      rw [List.length_cons] at room
      rw [List.tail_cons]
      refine ⟨?_, by omega, ring.rearIndex, ?_, ?_, ?_⟩
      · simp only
        rw [← ring.contents, shape, List.append_assoc, List.singleton_append]
      · simp only [nextFront]
        rw [ring.frontIndex, Nat.mod_add_mod, List.length_append,
          List.length_singleton]
      · intro value isLast
        refine ring.last value ?_
        rw [shape, List.getLast?_cons, isLast]
        rfl
      · intro i value before isValue
        have slot :=
          ring.slots (i + 1) value
            (by rw [shape, List.length_cons]; omega)
            (by rw [shape, List.getElem?_cons_succ]; exact isValue)
        simp only
        rw [List.length_append, List.length_singleton]
        rw [show state.popped.length + 1 + 1 + i =
          state.popped.length + 1 + (i + 1) by omega]
        exact slot

end Ring

/-- The new queue holds nothing. -/
theorem ring_empty
    [Zero Value]
    (twoSlots : 2 ≤ size) :
    Ring size (empty : State Value) [] := by
  refine ⟨rfl, Nat.lt_of_lt_of_le Nat.two_pos twoSlots, ?_, ?_, ?_, ?_⟩
  · exact (Nat.zero_mod size).symm
  · exact (Nat.mod_eq_of_lt (by omega : 0 + 1 < size)).symm
  · intro value isLast
    cases isLast
  · intro i value before
    cases before

/-- The call that `finish_enqueue` is made from. -/
def Caller.call : Caller Value → Call Value
  | .push value => .push value
  | .pop => .pop

/-- The snapshot still shows both ends. -/
def Current (state : State Value) (old : Snapshot Value) : Prop :=
  old.rear = state.rear ∧ old.front = state.front

/-- Where a thread can be in its call while the ring holds `items`. -/
def Midway
    (size : Nat)
    (items : List Value)
    (state : State Value)
    (call : Call Value) : Pc Value → Prop
  | .idle => False
  | .pushRear value => call = .push value
  | .pushFront value rear _ => call = .push value ∧ rear = state.rear
  | .pushCheck value old => call = .push value ∧ Current state old
  | .popFront => call = .pop
  | .popRear front => call = .pop ∧ front = state.front
  | .popCheck old => call = .pop ∧ Current state old
  | .helpLoad caller old => call = caller.call ∧ Current state old
  | .helpCas caller old _ => call = caller.call ∧ Current state old
  | .pushNode value old =>
      call = .push value ∧ Current state old ∧ Copied state
  | .pushCas old newRear =>
      call = .push newRear.value ∧
        Current state old ∧
        Copied state ∧
        newRear.index = (state.rear.index + 1) % size ∧
        items.length ≠ size - 1
  | .popNode old =>
      call = .pop ∧ Current state old ∧ (items.length = 1 → Copied state)
  | .popCas old ret =>
      call = .pop ∧ Current state old ∧ items.head? = some ret

/-- What a call leaves when it returns. -/
def Outcome
    (size : Nat)
    (items popped : List Value)
    (next : State Value) : Call Value → Prop
  | .push value =>
      items.length ≠ size - 1 ∧ Ring size next (items ++ [value])
  | .pop =>
      Ring size next items.tail ∧ next.popped[popped.length]? = items.head?

section Steps

variable [DecidableEq Value]

/-- How many steps a call still makes when no exchange fails. -/
def rank (state : State Value) : Pc Value → Nat
  | .idle => 0
  | .pushRear _ | .popFront => 8
  | .pushFront _ _ _ | .popRear _ => 7
  | .pushCheck _ _ | .popCheck _ => 6
  | .helpLoad _ _ => 5
  | .helpCas _ old oldNode =>
      if state.nodes old.rear.index = oldNode then 3 else 4
  | .pushNode _ _ | .popNode _ => 2
  | .pushCas _ _ | .popCas _ _ => 1

theorem rank_le
    (state : State Value)
    (pc : Pc Value) :
    rank state pc ≤ 8 := by
  unfold rank
  split <;> try split
  all_goals decide

/-- What one step of the calling thread does. -/
structure Stepped
    (size thread : Nat)
    (items : List Value)
    (state next : State Value)
    (call : Call Value)
    (spurious : Bool) : Prop where
  others : ∀ other, other ≠ thread → next.pc other = state.pc other
  outcome :
    next.pc thread = .idle ∧ Outcome size items state.popped next call ∨
      Ring size next items ∧
        next.popped = state.popped ∧
        Midway size items next call (next.pc thread) ∧
        (spurious = false →
          rank next (next.pc thread) < rank state (state.pc thread))

variable {thread : Nat} {call : Call Value} {spurious : Bool}

/-- A step that only moves the thread. -/
theorem stepped_setPc
    (ring : Ring size state items)
    {pc pc' : Pc Value}
    (shape : state.pc thread = pc)
    (mid : Midway size items (state.setPc thread pc') call pc')
    (progress :
      spurious = false →
      rank (state.setPc thread pc') pc' < rank state pc) :
    Stepped size thread items state (state.setPc thread pc') call
      spurious := by
  have here : (state.setPc thread pc').pc thread = pc' :=
    Function.update_self ..
  refine ⟨fun other differs => Function.update_of_ne differs .., .inr ?_⟩
  rw [here, shape]
  exact ⟨ring.setPc thread pc', rfl, mid, progress⟩

/-- A step in the middle of a call asserts on a full queue or goes on. -/
theorem advance_midway
    (ring : Ring size state items)
    (mid : Midway size items state call (state.pc thread)) :
    advance size state thread spurious = none ∧
        (∃ value, call = .push value) ∧
        items.length = size - 1 ∨
      ∃ next,
        advance size state thread spurious = some next ∧
          Stepped size thread items state next call spurious := by
  cases shape : state.pc thread with
  | idle =>
      rw [shape] at mid
      exact mid.elim
  | pushRear value =>
      rw [shape] at mid
      simp only [advance, shape]
      refine .inr ⟨_, rfl, stepped_setPc ring shape ⟨mid, rfl⟩ ?_⟩
      intro _
      simp only [rank]
      decide
  | pushFront value rear since =>
      rw [shape] at mid
      simp only [advance, shape]
      refine .inr ⟨_, rfl, stepped_setPc ring shape ⟨mid.1, mid.2, rfl⟩ ?_⟩
      intro _
      simp only [rank]
      decide
  | pushCheck value old =>
      rw [shape] at mid
      simp only [advance, shape, if_pos mid.2.1]
      refine .inr ⟨_, rfl, stepped_setPc ring shape ⟨mid.1, mid.2⟩ ?_⟩
      intro _
      simp only [rank]
      decide
  | popFront =>
      rw [shape] at mid
      simp only [advance, shape]
      refine .inr ⟨_, rfl, stepped_setPc ring shape ⟨mid, rfl⟩ ?_⟩
      intro _
      simp only [rank]
      decide
  | popRear front =>
      rw [shape] at mid
      simp only [advance, shape]
      refine .inr ⟨_, rfl, stepped_setPc ring shape ⟨mid.1, rfl, mid.2⟩ ?_⟩
      intro _
      simp only [rank]
      decide
  | popCheck old =>
      rw [shape] at mid
      obtain ⟨isPop, sameRear, sameFront⟩ := mid
      simp only [advance, shape, if_pos sameFront]
      split
      · refine .inr ⟨_, rfl, ?_⟩
        refine stepped_setPc ring shape ⟨isPop, sameRear, sameFront⟩ ?_
        intro _
        simp only [rank]
        decide
      · next apart =>
          refine .inr ⟨_, rfl, ?_⟩
          refine stepped_setPc ring shape ⟨isPop, ⟨sameRear, sameFront⟩, ?_⟩ ?_
          · intro one
            rw [sameRear, sameFront] at apart
            exact absurd (ring.single one) apart
          · intro _
            simp only [rank]
            decide
  | helpLoad caller old =>
      rw [shape] at mid
      simp only [advance, shape]
      refine .inr ⟨_, rfl, stepped_setPc ring shape ⟨mid.1, mid.2⟩ ?_⟩
      intro _
      simp only [rank]
      split <;> decide
  | helpCas caller old oldNode =>
      rw [shape] at mid
      obtain ⟨isCall, current⟩ := mid
      simp only [advance, shape]
      split
      · next succeeds =>
          obtain ⟨ring', copied⟩ := ring.finish current.1
          refine .inr ⟨_, rfl, ?_⟩
          have here :
              ((state.finish old).setPc thread (afterHelp old caller)).pc
                  thread = afterHelp old caller :=
            Function.update_self ..
          refine ⟨fun other differs => Function.update_of_ne differs ..,
            .inr ⟨ring'.setPc _ _, rfl, ?_, ?_⟩⟩
          · rw [here]
            cases caller with
            | push value => exact ⟨isCall, current, copied⟩
            | pop => exact ⟨isCall, current, fun _ => copied⟩
          · intro _
            rw [here, shape]
            cases caller <;> simp only [afterHelp, rank, if_pos succeeds.1] <;>
              decide
      · next fails =>
          refine .inr ⟨_, rfl, stepped_setPc ring shape ⟨isCall, current⟩ ?_⟩
          intro strong
          have stale : state.nodes old.rear.index ≠ oldNode :=
            fun same => fails ⟨same, strong⟩
          have again :
              (state.setPc thread
                (.helpCas caller old (state.nodes old.rear.index))).nodes
                  old.rear.index =
                state.nodes old.rear.index :=
            rfl
          simp only [rank, if_neg stale, if_pos again]
          decide
  | pushNode value old =>
      rw [shape] at mid
      obtain ⟨isPush, current, copied⟩ := mid
      simp only [advance, shape, current.1, current.2, ring.full_iff]
      split
      · next full => exact .inl ⟨rfl, ⟨value, isPush⟩, full⟩
      · next notFull =>
          refine .inr ⟨_, rfl, ?_⟩
          refine stepped_setPc ring shape
            ⟨isPush, current, copied, ?_, notFull⟩ ?_
          · simp only [nextRear, current.1]
            rfl
          · intro _
            simp only [rank]
            decide
  | pushCas old newRear =>
      rw [shape] at mid
      obtain ⟨isPush, current, copied, isIndex, notFull⟩ := mid
      simp only [advance, shape, current.1]
      split
      · refine .inr ⟨_, rfl, ?_⟩
        refine ⟨fun other differs => Function.update_of_ne differs ..,
          .inl ⟨Function.update_self .., ?_⟩⟩
        rw [isPush]
        exact ⟨notFull, (ring.push copied notFull isIndex).setPc thread .idle⟩
      · next fails =>
          refine .inr ⟨_, rfl, stepped_setPc ring shape isPush ?_⟩
          intro strong
          exact absurd ⟨trivial, strong⟩ fails
  | popNode old =>
      rw [shape] at mid
      obtain ⟨isPop, current, copied⟩ := mid
      simp only [advance, shape, current.1, current.2, ring.empty_iff]
      split
      · next empty =>
          refine .inr ⟨_, rfl, ?_⟩
          refine ⟨fun other differs => Function.update_of_ne differs ..,
            .inl ⟨Function.update_self .., ?_⟩⟩
          rw [isPop, empty]
          refine ⟨?_, ?_⟩
          · rw [empty] at ring
            exact ring.setPc thread .idle
          · exact List.getElem?_eq_none (Nat.le_refl _)
      · next nonempty =>
          refine .inr ⟨_, rfl, stepped_setPc ring shape ⟨isPop, current, ?_⟩ ?_⟩
          · obtain ⟨first, rest, list⟩ := List.exists_cons_of_ne_nil nonempty
            rw [list, List.head?_cons,
              ring.front_value copied (by rw [list, List.head?_cons])]
          · intro _
            simp only [rank]
            decide
  | popCas old ret =>
      rw [shape] at mid
      obtain ⟨isPop, current, isHead⟩ := mid
      simp only [advance, shape, current.2, if_true]
      refine .inr ⟨_, rfl, ?_⟩
      refine ⟨fun other differs => Function.update_of_ne differs ..,
        .inl ⟨Function.update_self .., ?_⟩⟩
      rw [isPop]
      refine ⟨(ring.pop isHead).setPc thread .idle, ?_⟩
      simp only [isHead]
      exact List.getElem?_concat_length

/-- In the middle of a call there is a step to make. -/
theorem rank_pos
    {pc : Pc Value}
    (mid : Midway size items state call pc) :
    0 < rank state pc := by
  unfold rank
  split
  case h_1 => exact mid.elim
  all_goals try split
  all_goals decide

/-- How the steps of one thread end its call. -/
theorem runThread_ends
    (ring : Ring size state items)
    (mid : Midway size items state call (state.pc thread))
    (others : ∀ other, other ≠ thread → state.pc other = .idle)
    {fuel : Nat}
    {flags : List Bool}
    (steady : flags = [] → rank state (state.pc thread) ≤ fuel)
    (enough : flags ≠ [] → flags.length + 8 ≤ fuel) :
    runThread size thread fuel flags state = some .full ∧
        (∃ value, call = .push value) ∧
        items.length = size - 1 ∨
      ∃ next,
        runThread size thread fuel flags state = some (.returned next) ∧
          (∀ other, next.pc other = .idle) ∧
          Outcome size items state.popped next call := by
  induction fuel generalizing state flags with
  | zero =>
      have positive := rank_pos mid
      cases flags with
      | nil =>
          have none := steady rfl
          omega
      | cons flag rest =>
          have none := enough (List.cons_ne_nil _ _)
          omega
  | succ fuel inductionHypothesis =>
      unfold runThread
      rcases @advance_midway _ size state items _ thread call
          (flags.headD false) ring mid with
        ⟨asserts, isPush, full⟩ | ⟨next, advanced, stepped⟩
      · rw [asserts]
        exact .inl ⟨rfl, isPush, full⟩
      · rw [advanced]
        have othersIdle :
            ∀ other, other ≠ thread → next.pc other = .idle := by
          intro other differs
          rw [stepped.others other differs]
          exact others other differs
        simp only
        rcases stepped.outcome with ⟨idle, outcome⟩ | ⟨ring', same, mid', down⟩
        · rw [if_pos idle]
          refine .inr ⟨next, rfl, ?_, outcome⟩
          intro other
          rcases eq_or_ne other thread with rfl | differs
          · exact idle
          · exact othersIdle other differs
        · have busy : next.pc thread ≠ .idle := by
            intro idle
            rw [idle] at mid'
            exact mid'
          rw [if_neg busy, ← same]
          refine inductionHypothesis ring' mid' othersIdle ?_ ?_
          · intro noneLeft
            cases flags with
            | nil =>
                have now := steady rfl
                have less := down rfl
                omega
            | cons flag rest =>
                have now := enough (List.cons_ne_nil _ _)
                have bounded := rank_le next (next.pc thread)
                simp only [List.length_cons] at now
                omega
          · intro more
            cases flags with
            | nil => exact absurd rfl more
            | cons flag rest =>
                have now := enough (List.cons_ne_nil _ _)
                simp only [List.length_cons] at now
                simp only [List.tail_cons]
                omega

/-- How one call ends. -/
theorem perform_ends
    (ring : Ring size state items)
    (idle : ∀ thread, state.pc thread = .idle)
    (request : Request Value) :
    perform size request state = some .full ∧
        (∃ value, request.call = .push value) ∧
        items.length = size - 1 ∨
      ∃ next,
        perform size request state = some (.returned next) ∧
          (∀ other, next.pc other = .idle) ∧
          Outcome size items state.popped next request.call := by
  obtain ⟨thread, call, flags⟩ := request
  have started :
      ∃ pc,
        step size state (call.start thread) = some (state.setPc thread pc) ∧
          Midway size items (state.setPc thread pc) call pc := by
    cases call with
    | push value =>
        refine ⟨.pushRear value, ?_, rfl⟩
        simp only [Call.start, step, idle, if_true]
    | pop =>
        refine ⟨.popFront, ?_, rfl⟩
        simp only [Call.start, step, idle, if_true]
  obtain ⟨pc, entered, mid⟩ := started
  have here : (state.setPc thread pc).pc thread = pc :=
    Function.update_self ..
  have others :
      ∀ other, other ≠ thread → (state.setPc thread pc).pc other = .idle := by
    intro other differs
    exact (Function.update_of_ne differs ..).trans (idle other)
  unfold perform
  simp only [entered, bind, Option.bind_some]
  refine runThread_ends (ring.setPc thread pc) ?_ others ?_ ?_
  · rw [here]
    exact mid
  · intro _
    exact Nat.le_trans (rank_le _ _) (Nat.le_add_left _ _)
  · intro _
    exact Nat.le_refl _

/-- From every state the results are those of the list. -/
theorem execute_eq_fifo
    (ring : Ring size state items)
    (idle : ∀ thread, state.pc thread = .idle)
    (requests : List (Request Value)) :
    execute size state requests =
      some (fifo (size - 1) items (requests.map Request.call)) := by
  induction requests generalizing state items with
  | nil => rfl
  | cons request rest inductionHypothesis =>
      rw [List.map_cons]
      unfold execute
      rcases perform_ends ring idle request with
        ⟨performed, ⟨value, isPush⟩, full⟩ | ⟨next, performed, idle', outcome⟩
      · rw [performed, isPush]
        simp only [fifo, if_pos full]
      · rw [performed]
        cases isCall : request.call with
        | push value =>
            rw [isCall] at outcome
            simp only [fifo, if_neg outcome.1,
              inductionHypothesis outcome.2 idle']
            rfl
        | pop =>
            rw [isCall] at outcome
            simp only [fifo, inductionHypothesis outcome.1 idle', resultOf,
              outcome.2]
            rfl

variable [Zero Value]

/--
For every ring size from two on, calls made one after the other on a new queue
all end, with the results of a first-in first-out list of one place less.
-/
theorem sequential_queue_is_fifo
    (twoSlots : 2 ≤ size)
    (requests : List (Request Value)) :
    execute size (empty : State Value) requests =
      some (fifo (size - 1) [] (requests.map Request.call)) :=
  execute_eq_fifo (ring_empty twoSlots) (fun _ => rfl) requests

/-- A ring of two slots that is filled, emptied and overfilled. -/
theorem sequential_queue_is_fifo_twoSlots :
    execute 2 (empty : State Nat)
        [⟨0, .push 7, [true]⟩, ⟨1, .pop, []⟩, ⟨0, .pop, []⟩,
          ⟨2, .push 8, []⟩, ⟨2, .push 9, []⟩, ⟨0, .pop, []⟩] =
      some [.pushed, .popped (some 7), .popped none, .pushed, .full] :=
  sequential_queue_is_fifo (by decide) _

end Steps

end ArrayQueue

end Bxalloc
