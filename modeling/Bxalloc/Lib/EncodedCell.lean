import Mathlib.Logic.Basic

namespace Bxalloc.Lib

/-!
# Atomic cells behind an encoding

An atomic cell of values kept in one atomic word through an encoding.  The
encoding may forget part of a value: `normal` is what a value becomes when it
is stored and loaded again.  Equal words then mean equal normal forms, so an
exchange of words behaves as an exchange of values.
-/

/-- What a compare-exchange returns and leaves behind. -/
structure Exchange (Word Value : Type) where
  succeeded : Bool
  cell : Word
  /-- The value left in the `expected` argument. -/
  expected : Value
  deriving Repr, DecidableEq

/-- Code that tests for failure leaves what code that tests for success leaves. -/
theorem ite_not_succeeded
    {Value : Type}
    (succeeded : Bool)
    (seen expected : Value) :
    (if !succeeded then seen else expected) =
      if succeeded then expected else seen := by
  cases succeeded <;> rfl

namespace AtomicWord

variable {Word : Type} [DecidableEq Word]

/-- `std::atomic::compare_exchange_strong`. -/
def compareExchangeStrong
    (cell expected desired : Word) : Exchange Word Word :=
  if cell = expected then
    { succeeded := true, cell := desired, expected := expected }
  else
    { succeeded := false, cell := cell, expected := cell }

/-- `std::atomic::compare_exchange_weak`, which may fail for no reason. -/
def compareExchangeWeak
    (spurious : Bool)
    (cell expected desired : Word) : Exchange Word Word :=
  if spurious then
    { succeeded := false, cell := cell, expected := cell }
  else
    compareExchangeStrong cell expected desired

end AtomicWord

/-- The operations of an atomic cell. -/
inductive CellOperation (Value : Type) where
  | load
  | store (desired : Value)
  | compareExchangeStrong (expected desired : Value)
  | compareExchangeWeak (spurious : Bool) (expected desired : Value)
  deriving Repr, DecidableEq

/-- What the caller of an operation learns. -/
inductive CellResponse (Value : Type) where
  | loaded (value : Value)
  | stored
  | exchanged (succeeded : Bool) (expected : Value)
  deriving Repr, DecidableEq

namespace CellOperation

/-- The values an operation hands to the cell. -/
def arguments {Value : Type} : CellOperation Value → List Value
  | .load => []
  | .store desired => [desired]
  | .compareExchangeStrong expected desired => [expected, desired]
  | .compareExchangeWeak _ expected desired => [expected, desired]

end CellOperation

/-- One operation on an atomic cell of values, which keeps normal forms. -/
def atomicStep
    {Value : Type}
    [DecidableEq Value]
    (normal : Value → Value)
    (cell : Value) :
    CellOperation Value → CellResponse Value × Value
  | .load => (.loaded cell, cell)
  | .store desired => (.stored, normal desired)
  | .compareExchangeStrong expected desired =>
      if cell = normal expected then
        (.exchanged true expected, normal desired)
      else
        (.exchanged false cell, cell)
  | .compareExchangeWeak spurious expected desired =>
      if spurious = false ∧ cell = normal expected then
        (.exchanged true expected, normal desired)
      else
        (.exchanged false cell, cell)

/-- The responses of a run of operations, and the cell it leaves. -/
def runCell
    {Value Cell : Type}
    (step : Cell → CellOperation Value → CellResponse Value × Cell) :
    Cell → List (CellOperation Value) → List (CellResponse Value) × Cell
  | cell, [] => ([], cell)
  | cell, operation :: rest =>
      let (response, after) := step cell operation
      let (responses, final) := runCell step after rest
      (response :: responses, final)

/-- An encoding of values into words, and what survives it. -/
structure Codec (Value Word : Type) where
  encode : Value → Word
  decode : Word → Value
  normal : Value → Value
  /-- The values the encoding is meant for. -/
  Storable : Value → Prop
  decode_encode : ∀ {value}, Storable value → decode (encode value) = normal value
  encode_normal : ∀ {value}, Storable value → encode (normal value) = encode value

namespace Codec

variable {Value Word : Type} (codec : Codec Value Word)

/-- Words are equal exactly when the stored values have one normal form. -/
theorem encode_eq_iff
    {first second : Value}
    (firstStorable : codec.Storable first)
    (secondStorable : codec.Storable second) :
    codec.encode first = codec.encode second ↔
      codec.normal first = codec.normal second := by
  constructor
  · intro sameWord
    rw [← codec.decode_encode firstStorable,
      ← codec.decode_encode secondStorable, sameWord]
  · intro sameValue
    rw [← codec.encode_normal firstStorable,
      ← codec.encode_normal secondStorable, sameValue]

section Exchange

variable [DecidableEq Word]

/-- An exchange of values made on the encoded words. -/
def compareExchangeStrong
    (cell : Word)
    (expected desired : Value) : Exchange Word Value :=
  let result :=
    AtomicWord.compareExchangeStrong cell
      (codec.encode expected) (codec.encode desired)
  { succeeded := result.succeeded
    cell := result.cell
    expected :=
      if result.succeeded then expected else codec.decode result.expected }

/-- The weak exchange of values made on the encoded words. -/
def compareExchangeWeak
    (spurious : Bool)
    (cell : Word)
    (expected desired : Value) : Exchange Word Value :=
  let result :=
    AtomicWord.compareExchangeWeak spurious cell
      (codec.encode expected) (codec.encode desired)
  { succeeded := result.succeeded
    cell := result.cell
    expected :=
      if result.succeeded then expected else codec.decode result.expected }

variable {codec} {stored expected desired : Value}

/-- The exchange finds the expected value. -/
theorem compareExchangeStrong_same
    (storedStorable : codec.Storable stored)
    (expectedStorable : codec.Storable expected)
    (same : codec.normal stored = codec.normal expected) :
    codec.compareExchangeStrong (codec.encode stored) expected desired =
      { succeeded := true
        cell := codec.encode desired
        expected := expected } := by
  have sameWord :=
    (codec.encode_eq_iff storedStorable expectedStorable).mpr same
  simp [compareExchangeStrong, AtomicWord.compareExchangeStrong, sameWord]

/-- The exchange finds another value. -/
theorem compareExchangeStrong_other
    (storedStorable : codec.Storable stored)
    (expectedStorable : codec.Storable expected)
    (differ : codec.normal stored ≠ codec.normal expected) :
    codec.compareExchangeStrong (codec.encode stored) expected desired =
      { succeeded := false
        cell := codec.encode stored
        expected := codec.normal stored } := by
  have otherWord : codec.encode stored ≠ codec.encode expected :=
    fun sameWord => differ
      ((codec.encode_eq_iff storedStorable expectedStorable).mp sameWord)
  simp [compareExchangeStrong, AtomicWord.compareExchangeStrong, otherWord,
    codec.decode_encode storedStorable]

/-- The weak exchange fails for no reason. -/
theorem compareExchangeWeak_spurious
    (storedStorable : codec.Storable stored) :
    codec.compareExchangeWeak true (codec.encode stored) expected desired =
      { succeeded := false
        cell := codec.encode stored
        expected := codec.normal stored } := by
  simp [compareExchangeWeak, AtomicWord.compareExchangeWeak,
    codec.decode_encode storedStorable]

/-- A weak exchange that does not fail for no reason is a strong one. -/
theorem compareExchangeWeak_steady
    (cell : Word) :
    codec.compareExchangeWeak false cell expected desired =
      codec.compareExchangeStrong cell expected desired :=
  rfl

/-- What an exchange of storable values does. -/
theorem compareExchangeStrong_spec
    (storedStorable : codec.Storable stored)
    (expectedStorable : codec.Storable expected) :
    let result :=
      codec.compareExchangeStrong (codec.encode stored) expected desired
    (result.succeeded = true ↔
      codec.normal stored = codec.normal expected) ∧
    (result.succeeded = true →
      result.cell = codec.encode desired ∧ result.expected = expected) ∧
    (result.succeeded = false →
      result.cell = codec.encode stored ∧
        result.expected = codec.normal stored) := by
  by_cases same : codec.normal stored = codec.normal expected
  · simp [compareExchangeStrong_same storedStorable expectedStorable same, same]
  · simp [compareExchangeStrong_other storedStorable expectedStorable same, same]

end Exchange

section Runs

variable [DecidableEq Word] [DecidableEq Value]

/-- One operation on the cell of encoded words. -/
def step (cell : Word) : CellOperation Value → CellResponse Value × Word
  | .load => (.loaded (codec.decode cell), cell)
  | .store desired => (.stored, codec.encode desired)
  | .compareExchangeStrong expected desired =>
      let result := codec.compareExchangeStrong cell expected desired
      (.exchanged result.succeeded result.expected, result.cell)
  | .compareExchangeWeak spurious expected desired =>
      let result := codec.compareExchangeWeak spurious cell expected desired
      (.exchanged result.succeeded result.expected, result.cell)

/-- The word holds the encoding of a value with this normal form. -/
def Represents (cell : Word) (value : Value) : Prop :=
  ∃ stored,
    codec.Storable stored ∧
    cell = codec.encode stored ∧
    value = codec.normal stored

variable {codec} {cell : Word} {value : Value}

/-- A strong exchange of words answers as one of values, and keeps the tie. -/
theorem compareExchangeStrong_refines
    {expected desired : Value}
    (represents : codec.Represents cell value)
    (expectedStorable : codec.Storable expected)
    (desiredStorable : codec.Storable desired) :
    (codec.step cell (.compareExchangeStrong expected desired)).1 =
      (atomicStep codec.normal value (.compareExchangeStrong expected desired)).1 ∧
    codec.Represents
      (codec.step cell (.compareExchangeStrong expected desired)).2
      (atomicStep codec.normal value (.compareExchangeStrong expected desired)).2 := by
  obtain ⟨stored, storedStorable, rfl, rfl⟩ := represents
  by_cases same : codec.normal stored = codec.normal expected
  · rw [step, atomicStep,
      compareExchangeStrong_same storedStorable expectedStorable same,
      if_pos same]
    exact ⟨rfl, desired, desiredStorable, rfl, rfl⟩
  · rw [step, atomicStep,
      compareExchangeStrong_other storedStorable expectedStorable same,
      if_neg same]
    exact ⟨rfl, stored, storedStorable, rfl, rfl⟩

/-- Every operation on the word answers as the cell of values does. -/
theorem step_refines
    {operation : CellOperation Value}
    (represents : codec.Represents cell value)
    (storable :
      ∀ argument ∈ operation.arguments, codec.Storable argument) :
    (codec.step cell operation).1 = (atomicStep codec.normal value operation).1 ∧
    codec.Represents
      (codec.step cell operation).2 (atomicStep codec.normal value operation).2 := by
  cases operation with
  | load =>
      obtain ⟨stored, storedStorable, rfl, rfl⟩ := represents
      refine ⟨?_, stored, storedStorable, rfl, rfl⟩
      simp only [step, atomicStep, codec.decode_encode storedStorable]
  | store desired =>
      exact ⟨rfl, desired, storable desired (by simp [CellOperation.arguments]),
        rfl, rfl⟩
  | compareExchangeStrong expected desired =>
      exact compareExchangeStrong_refines represents
        (storable expected (by simp [CellOperation.arguments]))
        (storable desired (by simp [CellOperation.arguments]))
  | compareExchangeWeak spurious expected desired =>
      cases spurious with
      | true =>
          obtain ⟨stored, storedStorable, rfl, rfl⟩ := represents
          rw [step, atomicStep, compareExchangeWeak_spurious storedStorable,
            if_neg (by simp)]
          exact ⟨rfl, stored, storedStorable, rfl, rfl⟩
      | false =>
          have strong :=
            compareExchangeStrong_refines represents
              (storable expected (by simp [CellOperation.arguments]))
              (storable desired (by simp [CellOperation.arguments]))
          simpa only [step, atomicStep, compareExchangeWeak_steady,
            true_and] using strong

/-- Every run on the word answers as the run on the cell of values. -/
theorem run_refines
    {operations : List (CellOperation Value)}
    (represents : codec.Represents cell value)
    (storable :
      ∀ operation ∈ operations,
        ∀ argument ∈ operation.arguments, codec.Storable argument) :
    (runCell codec.step cell operations).1 =
      (runCell (atomicStep codec.normal) value operations).1 ∧
    codec.Represents
      (runCell codec.step cell operations).2
      (runCell (atomicStep codec.normal) value operations).2 := by
  induction operations generalizing cell value with
  | nil =>
      exact ⟨rfl, represents⟩
  | cons operation rest inductionHypothesis =>
      obtain ⟨sameResponse, after⟩ :=
        step_refines represents (storable operation (by simp))
      obtain ⟨sameResponses, final⟩ :=
        inductionHypothesis after
          (fun later member => storable later (by simp [member]))
      refine ⟨?_, final⟩
      simp only [runCell, sameResponse, sameResponses]

end Runs

end Codec

end Bxalloc.Lib
