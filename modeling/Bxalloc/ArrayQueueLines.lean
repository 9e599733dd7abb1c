import Bxalloc.ArrayQueue
import Bxalloc.Lib.SharedLines

namespace Bxalloc

/-!
# The queue of free superblocks in persistent memory

A cell is written back as a whole; slots that share a cache line are seen as
lines of their own, which leaves a crash more to choose from.
-/

open Lib (SharedLine)

namespace ArrayQueue

universe u

variable {Value : Type u}

/-- `FLUSH` of a cell of the queue, or `FLUSHFENCE`. -/
inductive WriteBack where
  | rear
  | front
  | node (index : Nat)
  | fence
  deriving Repr, DecidableEq

/-- The cells of the queue as persistent memory has them. -/
structure Lines (Value : Type u) where
  rear : SharedLine (Rear Value)
  front : SharedLine Front
  node : Nat → SharedLine (Node Value)

namespace Lines

/-- A thread executes a `FLUSH` or a `FLUSHFENCE`. -/
def perform (thread : Nat) : WriteBack → Lines Value → Lines Value
  | .rear, lines => { lines with rear := lines.rear.flush thread }
  | .front, lines => { lines with front := lines.front.flush thread }
  | .node index, lines =>
      { lines with
        node :=
          Function.update lines.node index ((lines.node index).flush thread) }
  | .fence, lines =>
      { rear := lines.rear.fence thread
        front := lines.front.fence thread
        node := fun index => (lines.node index).fence thread }

/-- A thread executes several of them. -/
def performAll (thread : Nat) : List WriteBack → Lines Value → Lines Value
  | [], lines => lines
  | event :: rest, lines => performAll thread rest (lines.perform thread event)

/-- What a step stores. -/
def record
    [DecidableEq Value]
    (lines : Lines Value)
    (state : State Value) : Lines Value where
  rear := lines.rear.record state.rear
  front := lines.front.record state.front
  node := fun index => (lines.node index).record (state.nodes index)

/-- The values that a crash leaves, as places in the histories. -/
structure Survivors (lines : Lines Value) where
  rear : Nat
  front : Nat
  node : Nat → Nat
  rearLater : lines.rear.durable ≤ rear
  rearInside : rear < lines.rear.history.length
  frontLater : lines.front.durable ≤ front
  frontInside : front < lines.front.history.length
  nodeLater : ∀ index, (lines.node index).durable ≤ node index
  nodeInside : ∀ index, node index < (lines.node index).history.length

/-- The cells behind a crash. -/
def crash (lines : Lines Value) (left : Survivors lines) : Lines Value where
  rear := lines.rear.crash left.rear left.rearInside
  front := lines.front.crash left.front left.frontInside
  node := fun index =>
    (lines.node index).crash (left.node index) (left.nodeInside index)

end Lines

/-- The cells as they are later. -/
structure Lines.Extends (lines lines' : Lines Value) : Prop where
  rear : lines.rear.Extends lines'.rear
  front : lines.front.Extends lines'.front
  node : ∀ index, (lines.node index).Extends (lines'.node index)

namespace Lines

variable {lines lines' : Lines Value}

theorem Extends.refl
    (lines : Lines Value) :
    lines.Extends lines :=
  ⟨.refl _, .refl _, fun _ => .refl _⟩

theorem Extends.trans
    {lines'' : Lines Value}
    (first : lines.Extends lines')
    (second : lines'.Extends lines'') :
    lines.Extends lines'' :=
  ⟨first.rear.trans second.rear, first.front.trans second.front,
    fun index => (first.node index).trans (second.node index)⟩

/-- Executing a write-back later makes no less durable. -/
theorem Extends.perform
    (later : lines.Extends lines')
    (thread : Nat)
    (event : WriteBack) :
    (lines.perform thread event).Extends (lines'.perform thread event) := by
  cases event with
  | rear => exact ⟨later.rear.flush thread, later.front, later.node⟩
  | front => exact ⟨later.rear, later.front.flush thread, later.node⟩
  | node index =>
      refine ⟨later.rear, later.front, ?_⟩
      intro other
      change
        (Function.update lines.node index _ other).Extends
          (Function.update lines'.node index _ other)
      rcases eq_or_ne other index with rfl | differs
      · rw [Function.update_self, Function.update_self]
        exact (later.node other).flush thread
      · rw [Function.update_of_ne differs, Function.update_of_ne differs]
        exact later.node other
  | fence =>
      exact ⟨later.rear.fence thread, later.front.fence thread,
        fun index => (later.node index).fence thread⟩

theorem Extends.performAll
    (later : lines.Extends lines')
    (thread : Nat)
    (events : List WriteBack) :
    (lines.performAll thread events).Extends
      (lines'.performAll thread events) := by
  induction events generalizing lines lines' with
  | nil => exact later
  | cons event rest inductionHypothesis =>
      exact inductionHypothesis (later.perform thread event)

/-- A write-back takes nothing back. -/
theorem extends_perform
    (lines : Lines Value)
    (thread : Nat)
    (event : WriteBack) :
    lines.Extends (lines.perform thread event) := by
  cases event with
  | rear => exact ⟨lines.rear.extends_flush thread, .refl _, fun _ => .refl _⟩
  | front =>
      exact ⟨.refl _, lines.front.extends_flush thread, fun _ => .refl _⟩
  | node index =>
      refine ⟨.refl _, .refl _, ?_⟩
      intro other
      change
        (lines.node other).Extends (Function.update lines.node index _ other)
      rcases eq_or_ne other index with rfl | differs
      · rw [Function.update_self]
        exact (lines.node other).extends_flush thread
      · rw [Function.update_of_ne differs]
        exact .refl _
  | fence =>
      exact ⟨lines.rear.extends_fence thread,
        lines.front.extends_fence thread,
        fun index => (lines.node index).extends_fence thread⟩

theorem extends_performAll
    (lines : Lines Value)
    (thread : Nat)
    (events : List WriteBack) :
    lines.Extends (lines.performAll thread events) := by
  induction events generalizing lines with
  | nil => exact .refl lines
  | cons event rest inductionHypothesis =>
      exact (lines.extends_perform thread event).trans
        (inductionHypothesis _)

theorem extends_record
    [DecidableEq Value]
    (lines : Lines Value)
    (state : State Value) :
    lines.Extends (lines.record state) :=
  ⟨lines.rear.extends_record _, lines.front.extends_record _,
    fun index => (lines.node index).extends_record _⟩

/-- A write-back stores nothing. -/
theorem perform_history
    (lines : Lines Value)
    (thread : Nat)
    (event : WriteBack) :
    (lines.perform thread event).rear.history = lines.rear.history ∧
      (lines.perform thread event).front.history = lines.front.history ∧
      ∀ index,
        ((lines.perform thread event).node index).history =
          (lines.node index).history := by
  cases event with
  | rear => exact ⟨rfl, rfl, fun _ => rfl⟩
  | front => exact ⟨rfl, rfl, fun _ => rfl⟩
  | node index =>
      refine ⟨rfl, rfl, ?_⟩
      intro other
      change (Function.update lines.node index _ other).history = _
      rcases eq_or_ne other index with rfl | differs
      · rw [Function.update_self]
        rfl
      · rw [Function.update_of_ne differs]
  | fence => exact ⟨rfl, rfl, fun _ => rfl⟩

/-- A write-back leaves a crash no new choice. -/
theorem mem_values_perform
    {thread index : Nat}
    {event : WriteBack}
    {value : Node Value}
    (possible :
      value ∈ ((lines.perform thread event).node index).values) :
    value ∈ (lines.node index).values := by
  cases event with
  | rear => exact possible
  | front => exact possible
  | node other =>
      change value ∈ (Function.update lines.node other _ index).values
        at possible
      rcases eq_or_ne index other with rfl | differs
      · rw [Function.update_self] at possible
        exact possible
      · rw [Function.update_of_ne differs] at possible
        exact possible
  | fence => exact SharedLine.mem_of_mem_values_fence possible

/-- Write-backs store nothing. -/
theorem performAll_node_history
    (lines : Lines Value)
    (thread : Nat)
    (events : List WriteBack)
    (index : Nat) :
    ((lines.performAll thread events).node index).history =
      (lines.node index).history := by
  induction events generalizing lines with
  | nil => rfl
  | cons event rest inductionHypothesis =>
      exact (inductionHypothesis _).trans
        ((lines.perform_history thread event).2.2 index)

/-- What a write-back does to a slot depends on that slot only. -/
theorem performAll_node_congr
    {index : Nat}
    (same : lines'.node index = lines.node index)
    (thread : Nat)
    (events : List WriteBack) :
    (lines'.performAll thread events).node index =
      (lines.performAll thread events).node index := by
  induction events generalizing lines lines' with
  | nil => exact same
  | cons event rest inductionHypothesis =>
      refine inductionHypothesis ?_
      cases event with
      | rear | front => exact same
      | node other =>
          change
            Function.update lines'.node other _ index =
              Function.update lines.node other _ index
          rcases eq_or_ne index other with rfl | differs
          · rw [Function.update_self, Function.update_self, same]
          · rw [Function.update_of_ne differs, Function.update_of_ne differs,
              same]
      | fence => exact congrArg (SharedLine.fence · thread) same

end Lines

end ArrayQueue

end Bxalloc
