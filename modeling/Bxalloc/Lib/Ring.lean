import Mathlib.Data.Nat.ModEq

namespace Bxalloc.Lib

/-!
# Numbered items in a ring of slots

Item `n` of an unbounded sequence lies in slot `n % size` and is the
`generation size n`-th item of that slot.  Slot and generation together
determine the item, and items less than a ring apart lie in different slots.
-/

/-- How many items up to `n`, the zeroth apart, share the slot of item `n`. -/
def generation (size n : Nat) : Nat :=
  (n + size - 1) / size

variable {size : Nat}

/-- One lap later the generation is one larger. -/
theorem generation_add_size
    (positive : 0 < size)
    (n : Nat) :
    generation size (n + size) = generation size n + 1 := by
  unfold generation
  rw [show n + size + size - 1 = n + size - 1 + size by omega,
    Nat.add_div_right _ positive]

/-- The generation grows by the number of laps. -/
theorem generation_add_mul
    (positive : 0 < size)
    (n laps : Nat) :
    generation size (n + size * laps) = generation size n + laps := by
  induction laps with
  | zero =>
      rfl
  | succ laps inductionHypothesis =>
      rw [Nat.mul_succ, ← Nat.add_assoc, generation_add_size positive,
        inductionHypothesis, Nat.add_assoc]

/-- Items of the first lap have generation one. -/
theorem generation_of_lt
    {n : Nat}
    (positive : 0 < n)
    (firstLap : n < size) :
    generation size n = 1 := by
  unfold generation
  rw [Nat.div_eq_iff (by omega)]
  omega

/-- The zeroth item has generation zero. -/
theorem generation_zero
    (positive : 0 < size) :
    generation size 0 = 0 := by
  unfold generation
  rw [Nat.zero_add, Nat.div_eq_of_lt (by omega)]

/-- Items of one slot are whole laps apart. -/
theorem eq_add_laps
    {first second : Nat}
    (sameSlot : first % size = second % size)
    (ordered : first ≤ second) :
    second = first + size * ((second - first) / size) := by
  have divides : size ∣ second - first :=
    (Nat.modEq_iff_dvd' ordered).mp sameSlot
  rw [Nat.mul_div_cancel' divides]
  omega

/-- Items of one slot less than a lap apart are the same item. -/
theorem eq_of_sameSlot
    {first second : Nat}
    (sameSlot : first % size = second % size)
    (ordered : first ≤ second)
    (near : second < first + size) :
    first = second := by
  have laps := eq_add_laps sameSlot ordered
  rw [Nat.div_eq_of_lt (by omega)] at laps
  omega

/-- Slot and generation determine the item. -/
theorem eq_of_sameGeneration
    {first second : Nat}
    (positive : 0 < size)
    (sameSlot : first % size = second % size)
    (sameGeneration : generation size first = generation size second) :
    first = second := by
  rcases Nat.le_total first second with ordered | ordered
  · have laps := eq_add_laps sameSlot ordered
    rw [laps, generation_add_mul positive] at sameGeneration
    have none : (second - first) / size = 0 := by omega
    rw [none] at laps
    omega
  · have laps := eq_add_laps sameSlot.symm ordered
    rw [laps, generation_add_mul positive] at sameGeneration
    have none : (first - second) / size = 0 := by omega
    rw [none] at laps
    omega

end Bxalloc.Lib
