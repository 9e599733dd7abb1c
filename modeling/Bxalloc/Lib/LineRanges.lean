import Bxalloc.Lib.PersistentLines
import Mathlib.Order.Basic

namespace Bxalloc.Lib

/-!
# Ranges of bytes and the lines flushed for them

A write-back names addresses; each flush writes back the whole line its address
lies in.  The range is durable after the fence exactly when every line that
holds a byte of it was named.  Lines are `width` bytes wide.
-/

/-- The bytes from `start` up to `finish`. -/
structure ByteRange where
  start : Nat
  finish : Nat
  deriving Repr, DecidableEq

variable {width : Nat}

/-- The line holds a byte of the range. -/
def ByteRange.Overlaps (width : Nat) (range : ByteRange) (line : Nat) : Prop :=
  ∃ byte, range.start ≤ byte ∧ byte < range.finish ∧ byte / width = line

/-- The line of one of the addresses. -/
def Flushed (width : Nat) (addresses : List Nat) (line : Nat) : Prop :=
  ∃ address ∈ addresses, address / width = line

/-- Every line of the range is flushed. -/
def Covers (width : Nat) (addresses : List Nat) (range : ByteRange) : Prop :=
  ∀ line, range.Overlaps width line → Flushed width addresses line

/-- No other line is flushed. -/
def Within (width : Nat) (addresses : List Nat) (range : ByteRange) : Prop :=
  ∀ line, Flushed width addresses line → range.Overlaps width line

/-- More flushes cover no less. -/
theorem Covers.mono
    {addresses more : List Nat}
    {range : ByteRange}
    (covers : Covers width addresses range)
    (included : ∀ address ∈ addresses, address ∈ more) :
    Covers width more range := by
  intro line overlaps
  obtain ⟨address, member, isLine⟩ := covers line overlaps
  exact ⟨address, included address member, isLine⟩

/-- `count` addresses, one line apart. -/
def strided (width first count : Nat) : List Nat :=
  (List.range count).map fun index => first + width * index

theorem strided_succ
    (width first count : Nat) :
    strided width first (count + 1) =
      first :: strided width (first + width) count := by
  unfold strided
  rw [List.range_succ_eq_map, List.map_cons, List.map_map]
  congr 1
  apply List.map_congr_left
  intro index _
  simp only [Function.comp_apply, Nat.mul_succ]
  omega

/-- The lines of strided addresses follow each other. -/
theorem flushed_strided
    {line : Nat}
    (first count : Nat)
    (positive : 0 < width) :
    Flushed width (strided width first count) line ↔
      first / width ≤ line ∧ line < first / width + count := by
  have lineOf :
      ∀ index, (first + width * index) / width = first / width + index :=
    fun index => Nat.add_mul_div_left first index positive
  constructor
  · rintro ⟨address, member, rfl⟩
    obtain ⟨index, inRange, rfl⟩ := List.mem_map.mp member
    have below := List.mem_range.mp inRange
    rw [lineOf]
    omega
  · rintro ⟨lower, upper⟩
    refine ⟨first + width * (line - first / width), ?_, ?_⟩
    · exact List.mem_map.mpr ⟨_, List.mem_range.mpr (by omega), rfl⟩
    · rw [lineOf]
      omega

/-- Lines needed for `length` bytes from the start of a line. -/
def lineCount (width length : Nat) : Nat :=
  (length + width - 1) / width

theorem lt_lineCount
    {index length : Nat}
    (positive : 0 < width) :
    index < lineCount width length ↔ index * width < length := by
  unfold lineCount
  rw [← Nat.succ_le_iff, Nat.le_div_iff_mul_le positive, Nat.succ_mul]
  omega

theorem lineCount_pos
    {length : Nat}
    (positive : 0 < width) :
    0 < lineCount width length ↔ 0 < length := by
  rw [lt_lineCount positive, Nat.zero_mul]

theorem lineCount_zero
    (positive : 0 < width) :
    lineCount width 0 = 0 := by
  have counted := @lineCount_pos width 0 positive
  omega

/-- The first line of some bytes, and the lines of the rest. -/
theorem lineCount_step
    {length : Nat}
    (positive : 0 < width)
    (nonempty : 0 < length) :
    lineCount width length = lineCount width (length - width) + 1 := by
  unfold lineCount
  rw [← Nat.add_div_right _ positive]
  by_cases enough : width ≤ length
  · congr 1
    omega
  · have restEmpty : length - width = 0 := by
      omega
    rw [restEmpty]
    have one : (length + width - 1) / width = 1 :=
      Nat.div_eq_of_lt_le (by omega) (by omega)
    have alsoOne : (0 + width - 1 + width) / width = 1 :=
      Nat.div_eq_of_lt_le (by omega) (by omega)
    rw [one, alsoOne]

/-- The lines of a range that starts on a line. -/
theorem overlaps_aligned
    {start length line : Nat}
    (positive : 0 < width)
    (aligned : start % width = 0) :
    ByteRange.Overlaps width ⟨start, start + length⟩ line ↔
      start / width ≤ line ∧ line < start / width + lineCount width length := by
  have startOf : width * (start / width) = start :=
    Nat.mul_div_cancel' (Nat.dvd_of_mod_eq_zero aligned)
  have lineStart :
      ∀ lower, start / width ≤ lower →
        (lower < start / width + lineCount width length ↔
          width * lower < start + length) := by
    intro lower least
    have index :
        lower < start / width + lineCount width length ↔
          lower - start / width < lineCount width length := by
      omega
    have product :
        width * lower = start + (lower - start / width) * width := by
      rw [Nat.mul_comm (lower - start / width), Nat.mul_sub, startOf]
      have below := Nat.mul_le_mul_left width least
      omega
    rw [index, lt_lineCount positive, product]
    omega
  constructor
  · rintro ⟨byte, lower, upper, rfl⟩
    have least : start / width ≤ byte / width :=
      Nat.div_le_div_right lower
    have below := Nat.mul_div_le byte width
    exact ⟨least, (lineStart _ least).mpr (Nat.lt_of_le_of_lt below upper)⟩
  · rintro ⟨least, bounded⟩
    have above := Nat.mul_le_mul_left width least
    refine ⟨width * line, ?_, (lineStart _ least).mp bounded, ?_⟩
    · simp only
      omega
    · exact Nat.mul_div_cancel_left line positive

/-- Flushing one address a line from an aligned start covers the range and
nothing else. -/
theorem strided_exact
    {start : Nat}
    (length : Nat)
    (positive : 0 < width)
    (aligned : start % width = 0) :
    Covers width (strided width start (lineCount width length))
        ⟨start, start + length⟩ ∧
      Within width (strided width start (lineCount width length))
        ⟨start, start + length⟩ := by
  constructor
  · intro line overlaps
    rw [flushed_strided _ _ positive]
    exact (overlaps_aligned positive aligned).mp overlaps
  · intro line flushed
    rw [flushed_strided _ _ positive] at flushed
    exact (overlaps_aligned positive aligned).mpr flushed

/-- Flushing one line late misses the first line of the range, unless the range
is empty. -/
theorem strided_late_covers
    {start length : Nat}
    (positive : 0 < width)
    (aligned : start % width = 0) :
    Covers width (strided width (start + width) (lineCount width length))
        ⟨start, start + length⟩ ↔
      length = 0 := by
  constructor
  · intro covers
    by_contra nonempty
    have counted := (@lineCount_pos width length positive).mpr (by omega)
    have first : ByteRange.Overlaps width ⟨start, start + length⟩ (start / width) :=
      (overlaps_aligned positive aligned).mpr (by omega)
    have flushed := covers _ first
    rw [flushed_strided _ _ positive, Nat.add_div_right _ positive] at flushed
    omega
  · rintro rfl line ⟨byte, lower, upper, _⟩
    simp only at lower upper
    omega

/-- Flushing one line late flushes a line behind the range, unless the range is
empty. -/
theorem strided_late_within
    {start length : Nat}
    (positive : 0 < width)
    (aligned : start % width = 0) :
    Within width (strided width (start + width) (lineCount width length))
        ⟨start, start + length⟩ ↔
      length = 0 := by
  constructor
  · intro within
    by_contra nonempty
    have counted := (@lineCount_pos width length positive).mpr (by omega)
    have last :
        Flushed width (strided width (start + width) (lineCount width length))
          (start / width + lineCount width length) := by
      rw [flushed_strided _ _ positive, Nat.add_div_right _ positive]
      omega
    have overlaps := within _ last
    rw [overlaps_aligned positive aligned] at overlaps
    omega
  · rintro rfl line ⟨address, member, _⟩
    rw [lineCount_zero positive] at member
    simp [strided] at member

/-- One flush at the start covers a range that stays in the line. -/
theorem single_covers
    {start length : Nat}
    (positive : 0 < width) :
    Covers width [start] ⟨start, start + length⟩ ↔
      start % width + length ≤ width := by
  have split := Nat.div_add_mod start width
  have small := Nat.mod_lt start positive
  constructor
  · intro covers
    by_cases empty : length = 0
    · omega
    · obtain ⟨address, member, sameLine⟩ :=
        covers ((start + length - 1) / width)
          ⟨start + length - 1, by simp only; omega, by simp only; omega, rfl⟩
      rw [List.mem_singleton.mp member] at sameLine
      have last := Nat.lt_mul_div_succ (start + length - 1) positive
      rw [← sameLine, Nat.mul_add] at last
      omega
  · rintro fits line ⟨byte, lower, upper, rfl⟩
    simp only at lower upper
    refine ⟨start, List.mem_singleton.mpr rfl, ?_⟩
    refine (Nat.div_eq_of_lt_le ?_ ?_).symm
    · rw [Nat.mul_comm]
      omega
    · rw [Nat.succ_mul, Nat.mul_comm]
      omega

section Durability

variable {Value : Type}

/-- The flushes of a write-back and the fence behind them. -/
def writeBackEvents (width : Nat) (addresses : List Nat) :
    List (LineEvent Nat Value) :=
  addresses.map (fun address => .flush (address / width)) ++ [.fence]

/-- What a list of flushes does to a line. -/
theorem steps_flushes
    (lines : Lines Nat Value)
    (addresses : List Nat)
    (line : Nat) :
    (Flushed width addresses line →
      lines.steps (addresses.map fun address => .flush (address / width)) line =
        (lines line).flush) ∧
    (¬ Flushed width addresses line →
      lines.steps (addresses.map fun address => .flush (address / width)) line =
        lines line) := by
  induction addresses generalizing lines with
  | nil =>
      refine ⟨?_, fun _ => rfl⟩
      rintro ⟨address, member, _⟩
      simp at member
  | cons address rest inductionHypothesis =>
      obtain ⟨restFlushed, restOther⟩ :=
        inductionHypothesis (lines.step (.flush (address / width)))
      rw [List.map_cons, Lines.steps_cons]
      by_cases here : line = address / width
      · subst here
        have flushedAgain :
            lines.step (.flush (address / width)) (address / width) =
              (lines (address / width)).flush :=
          Lines.step_flush_same lines _
        constructor
        · intro _
          by_cases later : Flushed width rest (address / width)
          · rw [restFlushed later, flushedAgain]
            rfl
          · rw [restOther later, flushedAgain]
        · intro missed
          exact absurd ⟨address, List.mem_cons_self, rfl⟩ missed
      · have untouched :
            lines.step (.flush (address / width)) line = lines line :=
          Lines.step_flush_other lines here
        have sameFlushed :
            Flushed width (address :: rest) line ↔ Flushed width rest line := by
          constructor
          · rintro ⟨other, member, isLine⟩
            rcases List.mem_cons.mp member with rfl | later
            · exact absurd isLine.symm here
            · exact ⟨other, later, isLine⟩
          · rintro ⟨other, member, isLine⟩
            exact ⟨other, List.mem_cons_of_mem _ member, isLine⟩
        rw [sameFlushed, ← untouched]
        exact ⟨restFlushed, restOther⟩

/-- A line that the write-back names can no longer lose a store. -/
theorem writeBack_settles
    {line : Nat}
    (lines : Lines Nat Value)
    {addresses : List Nat}
    (flushed : Flushed width addresses line) :
    (lines.steps (writeBackEvents width addresses) line).later = [] := by
  rw [writeBackEvents, Lines.steps_append]
  simp only [Lines.steps_cons, Lines.steps_nil, Lines.step_fence]
  rw [(steps_flushes lines addresses line).1 flushed]
  simp [Line.fence, Line.flush]

/-- A line that it does not name keeps the stores no flush has covered. -/
theorem writeBack_misses
    {line : Nat}
    {lines : Lines Nat Value}
    {addresses : List Nat}
    (missed : ¬ Flushed width addresses line)
    (unrequested : (lines line).requested = 0) :
    (lines.steps (writeBackEvents width addresses) line).later =
      (lines line).later := by
  rw [writeBackEvents, Lines.steps_append]
  simp only [Lines.steps_cons, Lines.steps_nil, Lines.step_fence]
  rw [(steps_flushes lines addresses line).2 missed]
  simp [Line.fence, unrequested]

/-- The range is durable after the write-back, whatever was stored before,
exactly when the flushes cover it. -/
theorem covers_iff_durable
    [Inhabited Value]
    {addresses : List Nat}
    {range : ByteRange} :
    Covers width addresses range ↔
      ∀ (lines : Lines Nat Value) (line : Nat),
        range.Overlaps width line →
        (lines.steps (writeBackEvents width addresses) line).later = [] := by
  constructor
  · intro covers lines line overlaps
    exact writeBack_settles lines (covers line overlaps)
  · intro durable line overlaps
    by_contra missed
    have pending :=
      durable (fun _ => ⟨default, [default], 0⟩) line overlaps
    rw [writeBack_misses missed rfl] at pending
    simp at pending

end Durability

end Bxalloc.Lib
