import Mathlib.Logic.Function.Basic

namespace Bxalloc.Lib

/-!
# Cache lines over persistent memory

A line has the value that is certain to survive a crash and the values stored
since, any of which may reach memory before a crash.  A flush asks for the
current value to be written back; the next fence makes it the surviving one.
A program is seen as the list of its stores, flushes and fences, and a crash
can come before, between or after them.
-/

universe u v

variable {Address : Type u} {Value : Type v}

/-- One cache line. -/
structure Line (Value : Type v) where
  /-- The value that survives every crash. -/
  durable : Value
  /-- The values stored since, oldest first. -/
  later : List Value
  /-- How many of them the last flush covers. -/
  requested : Nat

namespace Line

/-- A line all of whose stores have been written back. -/
def clean (value : Value) : Line Value where
  durable := value
  later := []
  requested := 0

/-- The values a crash can leave. -/
def values (line : Line Value) : List Value :=
  line.durable :: line.later

/-- Store a value. -/
def store (line : Line Value) (value : Value) : Line Value :=
  { line with later := line.later ++ [value] }

/-- Ask for the current value to be written back. -/
def flush (line : Line Value) : Line Value :=
  { line with requested := line.later.length }

/-- Wait for the requested write-back. -/
def fence (line : Line Value) : Line Value where
  durable := (line.later.take line.requested).getLastD line.durable
  later := line.later.drop line.requested
  requested := 0

@[simp]
theorem values_clean
    (value : Value) :
    (clean value).values = [value] :=
  rfl

@[simp]
theorem values_store
    (line : Line Value)
    (value : Value) :
    (line.store value).values = line.values ++ [value] :=
  rfl

@[simp]
theorem values_flush
    (line : Line Value) :
    line.flush.values = line.values :=
  rfl

/-- A fence adds no value. -/
theorem mem_values_fence
    {line : Line Value}
    {value : Value}
    (possible : value ∈ line.fence.values) :
    value ∈ line.values := by
  unfold values fence at possible
  rcases List.mem_cons.mp possible with isDurable | isLater
  · rw [isDurable, List.getLastD_eq_getLast?]
    cases last : (line.later.take line.requested).getLast? with
    | none => exact List.mem_cons_self
    | some value =>
        have member := List.mem_of_getLast? last
        exact List.mem_cons_of_mem _ (List.mem_of_mem_take member)
  · exact List.mem_cons_of_mem _ (List.mem_of_mem_drop isLater)

/-- A store, a flush and a fence leave the stored value only. -/
theorem values_store_flush_fence
    (line : Line Value)
    (value : Value) :
    (line.store value).flush.fence.values = [value] := by
  unfold values fence flush store
  simp only [List.take_length, List.drop_length]
  rw [List.getLastD_eq_getLast?, List.getLast?_concat]
  rfl

end Line

/-- The lines of a memory. -/
abbrev Lines (Address : Type u) (Value : Type v) : Type (max u v) :=
  Address → Line Value

/-- What a program does to the lines. -/
inductive LineEvent (Address : Type u) (Value : Type v) where
  | store (address : Address) (value : Value)
  | flush (address : Address)
  | fence

namespace Lines

variable [DecidableEq Address]

/-- The effect of one event. -/
def step (lines : Lines Address Value) :
    LineEvent Address Value → Lines Address Value
  | .store address value =>
      Function.update lines address ((lines address).store value)
  | .flush address =>
      Function.update lines address (lines address).flush
  | .fence => fun address => (lines address).fence

@[simp]
theorem step_store_same
    (lines : Lines Address Value)
    (address : Address)
    (value : Value) :
    lines.step (.store address value) address =
      (lines address).store value :=
  Function.update_self ..

theorem step_store_other
    (lines : Lines Address Value)
    (value : Value)
    {address other : Address}
    (differs : other ≠ address) :
    lines.step (.store address value) other = lines other :=
  Function.update_of_ne differs ..

@[simp]
theorem step_flush_same
    (lines : Lines Address Value)
    (address : Address) :
    lines.step (.flush address) address = (lines address).flush :=
  Function.update_self ..

theorem step_flush_other
    (lines : Lines Address Value)
    {address other : Address}
    (differs : other ≠ address) :
    lines.step (.flush address) other = lines other :=
  Function.update_of_ne differs ..

@[simp]
theorem step_fence
    (lines : Lines Address Value)
    (address : Address) :
    lines.step .fence address = (lines address).fence :=
  rfl

/-- The effect of a list of events. -/
def steps
    (lines : Lines Address Value)
    (events : List (LineEvent Address Value)) : Lines Address Value :=
  events.foldl step lines

@[simp]
theorem steps_nil
    (lines : Lines Address Value) :
    lines.steps [] = lines :=
  rfl

@[simp]
theorem steps_cons
    (lines : Lines Address Value)
    (event : LineEvent Address Value)
    (events : List (LineEvent Address Value)) :
    lines.steps (event :: events) = (lines.step event).steps events :=
  rfl

@[simp]
theorem steps_append
    (lines : Lines Address Value)
    (events later : List (LineEvent Address Value)) :
    lines.steps (events ++ later) = (lines.steps events).steps later :=
  List.foldl_append

/-- The memory contents a crash can leave. -/
def IsImage
    (lines : Lines Address Value)
    (image : Address → Value) : Prop :=
  ∀ address, image address ∈ (lines address).values

/-- A property of the lines before, between and after the events. -/
def Throughout
    (property : Lines Address Value → Prop) :
    Lines Address Value → List (LineEvent Address Value) → Prop
  | lines, [] => property lines
  | lines, event :: events =>
      property lines ∧ Throughout property (lines.step event) events

variable {property : Lines Address Value → Prop}
variable {lines : Lines Address Value}

/-- It holds before the first event. -/
theorem Throughout.head
    {events : List (LineEvent Address Value)}
    (always : Throughout property lines events) :
    property lines := by
  cases events with
  | nil => exact always
  | cons event events => exact always.1

/-- Two event lists one after the other. -/
theorem Throughout.append
    {events later : List (LineEvent Address Value)}
    (first : Throughout property lines events)
    (second : Throughout property (lines.steps events) later) :
    Throughout property lines (events ++ later) := by
  induction events generalizing lines with
  | nil => exact second
  | cons event events inductionHypothesis =>
      exact ⟨first.1, inductionHypothesis first.2 second⟩

/-- Events that keep an invariant keep what follows from it. -/
theorem Throughout.of_invariant
    {invariant : Lines Address Value → Prop}
    {events : List (LineEvent Address Value)}
    (enough : ∀ lines, invariant lines → property lines)
    (kept :
      ∀ lines event,
        event ∈ events →
        invariant lines →
        invariant (lines.step event))
    (start : invariant lines) :
    Throughout property lines events ∧ invariant (lines.steps events) := by
  induction events generalizing lines with
  | nil => exact ⟨enough lines start, start⟩
  | cons event events inductionHypothesis =>
      have next := kept lines event List.mem_cons_self start
      obtain ⟨later, final⟩ :=
        inductionHypothesis
          (fun lines other member =>
            kept lines other (List.mem_cons_of_mem _ member))
          next
      exact ⟨⟨enough lines start, later⟩, final⟩

/-- A store, a flush and a fence at one address. -/
def overwrite
    (address : Address)
    (value : Value) : List (LineEvent Address Value) :=
  [.store address value, .flush address, .fence]

/-- They leave the stored value there and add nothing elsewhere. -/
theorem mem_values_overwrite
    {address other : Address}
    {value possible : Value}
    (occurs :
      possible ∈ (lines.steps (overwrite address value) other).values) :
    other = address ∧ possible = value ∨
      other ≠ address ∧ possible ∈ (lines other).values := by
  change possible ∈
    (((lines.step (.store address value)).step (.flush address)).step .fence
      other).values at occurs
  rcases eq_or_ne other address with rfl | differs
  · rw [step_fence, step_flush_same, step_store_same,
      Line.values_store_flush_fence] at occurs
    exact Or.inl ⟨rfl, List.mem_singleton.mp occurs⟩
  · rw [step_fence, step_flush_other _ differs, step_store_other _ _ differs]
      at occurs
    exact Or.inr ⟨differs, Line.mem_values_fence occurs⟩

/-- A crash meanwhile leaves an image with the old or with the new value. -/
theorem Throughout.overwrite
    {allowed : (Address → Value) → Prop}
    {address : Address}
    {value : Value}
    (before : ∀ image, lines.IsImage image → allowed image)
    (after :
      ∀ image,
        image address = value →
        (∀ other, other ≠ address → image other ∈ (lines other).values) →
        allowed image) :
    Throughout (fun lines => ∀ image, lines.IsImage image → allowed image)
      lines (overwrite address value) := by
  have stored :
      ∀ image,
        (lines.step (.store address value)).IsImage image →
        allowed image := by
    intro image isImage
    have others :
        ∀ other, other ≠ address → image other ∈ (lines other).values := by
      intro other differs
      have occurs := isImage other
      rwa [step_store_other _ _ differs] at occurs
    have here := isImage address
    rw [step_store_same, Line.values_store] at here
    rcases List.mem_append.mp here with old | new
    · refine before image fun other => ?_
      rcases eq_or_ne other address with rfl | differs
      · exact old
      · exact others other differs
    · exact after image (List.mem_singleton.mp new) others
  refine ⟨before, stored, ?_, ?_⟩
  · intro image isImage
    refine stored image fun other => ?_
    have occurs := isImage other
    rcases eq_or_ne other address with rfl | differs
    · rw [step_flush_same, Line.values_flush] at occurs
      exact occurs
    · rw [step_flush_other _ differs] at occurs
      exact occurs
  · intro image isImage
    have possible := fun other => mem_values_overwrite (isImage other)
    refine after image ?_ ?_
    · exact ((possible address).resolve_right fun other =>
        other.1 rfl).2
    · intro other differs
      exact ((possible other).resolve_left fun same => differs same.1).2

end Lines

end Bxalloc.Lib
