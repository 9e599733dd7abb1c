import Mathlib.Data.List.TakeDrop
import Mathlib.Logic.Function.Basic

namespace Bxalloc.Lib

/-!
# Cache lines that many threads write and write back

A line over persistent memory keeps the values it has had, oldest first.  One of
them is certain to survive a crash, and each later one may survive.  A flush by
a thread asks for the value of that moment to be written back, and the thread's
next fence waits for it; in between other threads store, flush and fence.
-/

universe u

/-- One cache line and what every thread has asked for. -/
structure SharedLine (Value : Type u) where
  history : List Value
  /-- The place of the value that survives every crash. -/
  durable : Nat
  /-- The places of the values that the threads' last flushes ask for. -/
  flushed : Nat → Nat
  durableInside : durable < history.length
  flushedInside : ∀ thread, flushed thread < history.length

namespace SharedLine

variable {Value : Type u}

/-- A line that has had one value and has been written back. -/
def clean (value : Value) : SharedLine Value where
  history := [value]
  durable := 0
  flushed := fun _ => 0
  durableInside := Nat.one_pos
  flushedInside := fun _ => Nat.one_pos

/-- Lines are never without a value. -/
theorem history_ne_nil
    (line : SharedLine Value) :
    line.history ≠ [] :=
  List.ne_nil_of_length_pos (Nat.zero_lt_of_lt line.durableInside)

/-- The value that loads return. -/
def current (line : SharedLine Value) : Value :=
  line.history.getLast line.history_ne_nil

/-- The values a crash can leave. -/
def values (line : SharedLine Value) : List Value :=
  line.history.drop line.durable

/-- The place that is durable behind a fence by the thread. -/
def reach (line : SharedLine Value) (thread : Nat) : Nat :=
  max line.durable (line.flushed thread)

/-- Store a value. -/
def store (line : SharedLine Value) (value : Value) : SharedLine Value where
  history := line.history ++ [value]
  durable := line.durable
  flushed := line.flushed
  durableInside := by
    rw [List.length_append]
    exact Nat.lt_add_right _ line.durableInside
  flushedInside thread := by
    rw [List.length_append]
    exact Nat.lt_add_right _ (line.flushedInside thread)

/-- Store a value unless the line has it already. -/
def record
    [DecidableEq Value]
    (line : SharedLine Value)
    (value : Value) : SharedLine Value :=
  if value = line.current then line else line.store value

/-- A thread asks for the current value to be written back. -/
def flush (line : SharedLine Value) (thread : Nat) : SharedLine Value where
  history := line.history
  durable := line.durable
  flushed := Function.update line.flushed thread (line.history.length - 1)
  durableInside := line.durableInside
  flushedInside other := by
    have inside := line.durableInside
    rcases eq_or_ne other thread with rfl | differs
    · rw [Function.update_self]
      omega
    · rw [Function.update_of_ne differs]
      exact line.flushedInside other

/-- A thread waits for what it asked for. -/
def fence (line : SharedLine Value) (thread : Nat) : SharedLine Value where
  history := line.history
  durable := line.reach thread
  flushed := line.flushed
  durableInside := Nat.max_lt.mpr
    ⟨line.durableInside, line.flushedInside thread⟩
  flushedInside := line.flushedInside

/-- The line behind a crash that leaves one of its values. -/
def crash
    (line : SharedLine Value)
    (survivor : Nat)
    (inside : survivor < line.history.length) : SharedLine Value where
  history := line.history.take (survivor + 1)
  durable := survivor
  flushed := fun _ => survivor
  durableInside := by
    rw [List.length_take]
    omega
  flushedInside thread := by
    rw [List.length_take]
    omega

theorem current_eq
    {line : SharedLine Value}
    {value : Value}
    (last : line.history.getLast? = some value) :
    line.current = value := by
  unfold current
  rw [List.getLast?_eq_some_getLast line.history_ne_nil] at last
  exact Option.some.inj last

@[simp]
theorem current_clean
    (value : Value) :
    (clean value).current = value :=
  rfl

@[simp]
theorem current_store
    (line : SharedLine Value)
    (value : Value) :
    (line.store value).current = value :=
  current_eq List.getLast?_concat

@[simp]
theorem current_flush
    (line : SharedLine Value)
    (thread : Nat) :
    (line.flush thread).current = line.current :=
  rfl

@[simp]
theorem current_fence
    (line : SharedLine Value)
    (thread : Nat) :
    (line.fence thread).current = line.current :=
  rfl

/-- Behind a crash the line has the value that survived. -/
theorem current_crash
    (line : SharedLine Value)
    {survivor : Nat}
    (inside : survivor < line.history.length) :
    (line.crash survivor inside).current = line.history[survivor] := by
  refine current_eq ?_
  change (line.history.take (survivor + 1)).getLast? = _
  rw [List.getLast?_eq_getElem?, List.length_take,
    Nat.min_eq_left inside, Nat.succ_sub_one,
    List.getElem?_take_of_lt (Nat.lt_succ_self _),
    List.getElem?_eq_getElem inside]

/-- A survivor is one of the values a crash can leave. -/
theorem mem_values
    (line : SharedLine Value)
    {survivor : Nat}
    (later : line.durable ≤ survivor)
    (inside : survivor < line.history.length) :
    line.history[survivor] ∈ line.values := by
  obtain ⟨offset, rfl⟩ := Nat.exists_eq_add_of_le later
  refine List.mem_iff_getElem.mpr ⟨offset, ?_, ?_⟩
  · unfold values
    rw [List.length_drop]
    omega
  · exact List.getElem_drop

@[simp]
theorem values_clean
    (value : Value) :
    (clean value).values = [value] :=
  rfl

/-- A crash leaves one value. -/
theorem values_crash
    (line : SharedLine Value)
    {survivor : Nat}
    (inside : survivor < line.history.length) :
    (line.crash survivor inside).values = [line.history[survivor]] := by
  change (line.history.take (survivor + 1)).drop survivor = _
  rw [List.drop_take, Nat.add_sub_cancel_left, List.drop_eq_getElem_cons inside]
  rfl

/-- A store adds one value. -/
theorem values_store
    (line : SharedLine Value)
    (value : Value) :
    (line.store value).values = line.values ++ [value] :=
  List.drop_append_of_le_length (Nat.le_of_lt line.durableInside)

/-- A fence adds no value. -/
theorem mem_of_mem_values_fence
    {line : SharedLine Value}
    {thread : Nat}
    {value : Value}
    (possible : value ∈ (line.fence thread).values) :
    value ∈ line.values := by
  have later : line.durable ≤ line.reach thread := Nat.le_max_left _ _
  obtain ⟨more, isMore⟩ := Nat.exists_eq_add_of_le later
  change value ∈ line.history.drop (line.reach thread) at possible
  rw [isMore, ← List.drop_drop] at possible
  exact List.mem_of_mem_drop possible

/-- A line that is durable to its end leaves its value. -/
theorem values_of_durable
    {line : SharedLine Value}
    {value : Value}
    (settled : line.history.length ≤ line.durable + 1)
    (possible : value ∈ line.values) :
    value = line.current := by
  have inside := line.durableInside
  have last : line.durable = line.history.length - 1 := by
    omega
  unfold values at possible
  rw [last, List.drop_length_sub_one line.history_ne_nil,
    List.mem_singleton] at possible
  exact possible

section Record

variable [DecidableEq Value]

@[simp]
theorem current_record
    (line : SharedLine Value)
    (value : Value) :
    (line.record value).current = value := by
  unfold record
  split
  · next same => exact same.symm
  · exact line.current_store value

@[simp]
theorem record_current
    (line : SharedLine Value) :
    line.record line.current = line :=
  if_pos rfl

theorem record_of_ne
    {line : SharedLine Value}
    {value : Value}
    (differs : value ≠ line.current) :
    line.record value = line.store value :=
  if_neg differs

end Record

/-- The line as it is later: more values, more of them durable or asked for. -/
structure Extends (line line' : SharedLine Value) : Prop where
  history : line.history.length ≤ line'.history.length
  durable : line.durable ≤ line'.durable
  flushed : ∀ thread, line.flushed thread ≤ line'.flushed thread

namespace Extends

variable {line line' line'' : SharedLine Value}

theorem refl
    (line : SharedLine Value) :
    line.Extends line :=
  ⟨Nat.le_refl _, Nat.le_refl _, fun _ => Nat.le_refl _⟩

theorem trans
    (first : line.Extends line')
    (second : line'.Extends line'') :
    line.Extends line'' :=
  ⟨Nat.le_trans first.history second.history,
    Nat.le_trans first.durable second.durable,
    fun thread => Nat.le_trans (first.flushed thread) (second.flushed thread)⟩

/-- What a fence would make durable grows. -/
theorem reach
    (later : line.Extends line')
    (thread : Nat) :
    line.reach thread ≤ line'.reach thread := by
  have durable := later.durable
  have flushed := later.flushed thread
  unfold SharedLine.reach
  omega

/-- Flushing later asks for no less. -/
theorem flush
    (later : line.Extends line')
    (thread : Nat) :
    (line.flush thread).Extends (line'.flush thread) := by
  refine ⟨later.history, later.durable, ?_⟩
  intro other
  change
    Function.update line.flushed thread (line.history.length - 1) other ≤
      Function.update line'.flushed thread (line'.history.length - 1) other
  rcases eq_or_ne other thread with rfl | differs
  · rw [Function.update_self, Function.update_self]
    exact Nat.sub_le_sub_right later.history 1
  · rw [Function.update_of_ne differs, Function.update_of_ne differs]
    exact later.flushed other

/-- Waiting later waits for no less. -/
theorem fence
    (later : line.Extends line')
    (thread : Nat) :
    (line.fence thread).Extends (line'.fence thread) :=
  ⟨later.history, later.reach thread, later.flushed⟩

end Extends

theorem extends_store
    (line : SharedLine Value)
    (value : Value) :
    line.Extends (line.store value) := by
  refine ⟨?_, Nat.le_refl _, fun _ => Nat.le_refl _⟩
  change line.history.length ≤ (line.history ++ [value]).length
  rw [List.length_append]
  exact Nat.le_add_right _ _

theorem extends_record
    [DecidableEq Value]
    (line : SharedLine Value)
    (value : Value) :
    line.Extends (line.record value) := by
  unfold record
  split
  · exact .refl line
  · exact line.extends_store value

theorem extends_flush
    (line : SharedLine Value)
    (thread : Nat) :
    line.Extends (line.flush thread) := by
  refine ⟨Nat.le_refl _, Nat.le_refl _, ?_⟩
  intro other
  change
    line.flushed other ≤
      Function.update line.flushed thread (line.history.length - 1) other
  rcases eq_or_ne other thread with rfl | differs
  · rw [Function.update_self]
    exact Nat.le_sub_one_of_lt (line.flushedInside other)
  · exact Nat.le_of_eq (Function.update_of_ne differs ..).symm

theorem extends_fence
    (line : SharedLine Value)
    (thread : Nat) :
    line.Extends (line.fence thread) :=
  ⟨Nat.le_refl _, Nat.le_max_left _ _, fun _ => Nat.le_refl _⟩

/-- A flush reaches the current value. -/
theorem reach_flush
    (line : SharedLine Value)
    (thread : Nat) :
    (line.flush thread).reach thread = line.history.length - 1 := by
  have inside := line.durableInside
  unfold reach
  change
    max line.durable
        (Function.update line.flushed thread (line.history.length - 1)
          thread) =
      _
  rw [Function.update_self]
  omega

/-- Lines with the same history hold the same value. -/
theorem current_congr
    {line line' : SharedLine Value}
    (same : line.history = line'.history) :
    line.current = line'.current := by
  refine current_eq ?_
  rw [same]
  exact List.getLast?_eq_some_getLast line'.history_ne_nil

/-- The line has had the values numbered from zero to `last`. -/
def Numbered
    (line : SharedLine Value)
    (word : Nat → Value)
    (last : Nat) : Prop :=
  line.history = (List.range (last + 1)).map word

namespace Numbered

variable {line : SharedLine Value}
variable {word word' : Nat → Value}
variable {last : Nat}

theorem clean
    (word : Nat → Value) :
    (SharedLine.clean (word 0)).Numbered word 0 :=
  rfl

theorem length
    (numbered : line.Numbered word last) :
    line.history.length = last + 1 := by
  rw [numbered, List.length_map, List.length_range]

/-- What survives every crash has a number, too. -/
theorem durable_le
    (numbered : line.Numbered word last) :
    line.durable ≤ last := by
  have inside := line.durableInside
  have length := numbered.length
  omega

theorem getElem
    (numbered : line.Numbered word last)
    {place : Nat}
    (inside : place < line.history.length) :
    line.history[place] = word place := by
  simp only [Numbered] at numbered
  simp only [numbered, List.getElem_map, List.getElem_range]

/-- Loads return the last word. -/
theorem current
    (numbered : line.Numbered word last) :
    line.current = word last := by
  refine current_eq ?_
  rw [numbered, List.range_succ, List.map_append]
  exact List.getLast?_concat

/-- The numbers may go on in another way. -/
theorem congr
    (numbered : line.Numbered word last)
    (agree : ∀ n ≤ last, word n = word' n) :
    line.Numbered word' last := by
  unfold Numbered at numbered ⊢
  rw [numbered]
  refine List.map_congr_left ?_
  intro n inside
  exact agree n (Nat.le_of_lt_succ (List.mem_range.mp inside))

/-- The next word is stored. -/
theorem record
    [DecidableEq Value]
    (numbered : line.Numbered word last)
    (differs : word (last + 1) ≠ word last) :
    (line.record (word (last + 1))).Numbered word (last + 1) := by
  rw [record_of_ne (numbered.current ▸ differs)]
  change line.history ++ [word (last + 1)] =
    (List.range (last + 1 + 1)).map word
  have whole :
      (List.range (last + 1 + 1)).map word =
        (List.range (last + 1)).map word ++ [word (last + 1)] := by
    rw [List.range_succ, List.map_append]
    rfl
  rw [whole, numbered]

/-- Behind a crash the line has the words up to the surviving one. -/
theorem crash
    (numbered : line.Numbered word last)
    {survivor : Nat}
    (inside : survivor < line.history.length) :
    (line.crash survivor inside).Numbered word survivor := by
  have within := inside
  rw [numbered.length] at within
  change line.history.take (survivor + 1) = _
  rw [numbered, ← List.map_take, List.take_range, Nat.min_eq_left within]

/-- Write-backs store no word. -/
theorem of_history
    {line' : SharedLine Value}
    (numbered : line.Numbered word last)
    (same : line'.history = line.history) :
    line'.Numbered word last :=
  same.trans numbered

end Numbered

end SharedLine

end Bxalloc.Lib
