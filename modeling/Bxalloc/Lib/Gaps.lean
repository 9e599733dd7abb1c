import Mathlib.Data.List.Chain
import Mathlib.Data.List.Sort

namespace Bxalloc.Lib

/-!
# Positions between marks

A row of slots of equal length starts at an origin.  Walking along a sorted
list of marks, `gaps` collects in steps of one slot the positions before each
mark, goes on one slot behind it, and ends at a bound.  When all marks are slot
starts the gaps are the other slot starts.  Otherwise the walk can leave the
slots; `gaps_safe_iff` says exactly when it does not.
-/

/-- The positions from `first` on in steps of `step`, below `bound`. -/
def strides (step first bound : Nat) : List Nat :=
  (List.range ((bound - first + (step - 1)) / step)).map
    fun i => first + i * step

/-- The positions before, between and behind marks, up to a bound. -/
def gaps (step bound : Nat) : Nat → List Nat → List Nat
  | first, [] => strides step first bound
  | first, mark :: rest =>
      strides step first mark ++ gaps step bound (mark + step) rest

/-- A position where a slot starts. -/
def SlotStart (origin step position : Nat) : Prop :=
  ∃ k, position = origin + k * step

section Strides

variable {step first bound position : Nat}

theorem strides_empty
    (behind : bound ≤ first) :
    strides step first bound = [] := by
  unfold strides
  rcases Nat.eq_zero_or_pos step with rfl | positive
  · simp
  · rw [Nat.sub_eq_zero_of_le behind, Nat.zero_add,
      Nat.div_eq_of_lt (by omega)]
    rfl

theorem strides_first
    (positive : 0 < step)
    (ahead : first < bound) :
    strides step first bound =
      first :: strides step (first + step) bound := by
  unfold strides
  have counts :
      (bound - first + (step - 1)) / step =
        (bound - (first + step) + (step - 1)) / step + 1 := by
    rcases Nat.le_total bound (first + step) with near | far
    · rw [Nat.sub_eq_zero_of_le near, Nat.zero_add,
        Nat.div_eq_of_lt (by omega : step - 1 < step)]
      have split :
          bound - first + (step - 1) = bound - first - 1 + step := by
        omega
      rw [split, Nat.add_div_right _ positive,
        Nat.div_eq_of_lt (by omega)]
    · have split :
          bound - first + (step - 1) =
            bound - (first + step) + (step - 1) + step := by
        omega
      rw [split, Nat.add_div_right _ positive]
  rw [counts, List.range_succ_eq_map, List.map_cons, List.map_map]
  congr 1
  · omega
  · apply List.map_congr_left
    intro i _
    simp only [Function.comp_apply, Nat.succ_mul]
    omega

theorem mem_strides
    (positive : 0 < step) :
    position ∈ strides step first bound ↔
      position < bound ∧ SlotStart first step position := by
  unfold strides SlotStart
  simp only [List.mem_map, List.mem_range,
    Nat.lt_iff_add_one_le, Nat.le_div_iff_mul_le positive, Nat.succ_mul]
  constructor
  · rintro ⟨i, early, rfl⟩
    exact ⟨by omega, i, rfl⟩
  · rintro ⟨below, i, rfl⟩
    exact ⟨i, by omega, rfl⟩

/-- Neighbouring positions are one step apart. -/
theorem strides_spaced :
    (strides step first bound).Pairwise fun a b => a + step ≤ b := by
  unfold strides
  rw [List.pairwise_map]
  refine List.pairwise_lt_range.imp ?_
  intro i j earlier
  have grows : (i + 1) * step ≤ j * step := Nat.mul_le_mul_right _ earlier
  rw [Nat.succ_mul] at grows
  omega

/-- Whole steps fill the distance. -/
theorem strides_length
    (positive : 0 < step)
    (whole : SlotStart first step bound) :
    first + (strides step first bound).length * step = bound := by
  obtain ⟨k, rfl⟩ := whole
  unfold strides
  rw [List.length_map, List.length_range, Nat.add_sub_cancel_left,
    Nat.add_comm (k * step), Nat.add_mul_div_right _ _ positive,
    Nat.div_eq_of_lt (by omega), Nat.zero_add]

end Strides

section Gaps

variable {origin step bound first position : Nat} {marks : List Nat}

/-- The gaps begin where the walk begins. -/
theorem le_of_mem_gaps
    (positive : 0 < step)
    (sorted : marks.Pairwise (· < ·))
    (near : ∀ mark, mark ∈ marks → first ≤ mark + step)
    (member : position ∈ gaps step bound first marks) :
    first ≤ position := by
  induction marks generalizing first with
  | nil =>
      obtain ⟨-, k, rfl⟩ := (mem_strides positive).mp member
      omega
  | cons mark rest inductionHypothesis =>
      obtain ⟨before, restSorted⟩ := List.pairwise_cons.mp sorted
      rcases List.mem_append.mp member with here | later
      · obtain ⟨-, k, rfl⟩ := (mem_strides positive).mp here
        omega
      · have next : mark + step ≤ position := by
          refine inductionHypothesis restSorted ?_ later
          intro other isLater
          have := before other isLater
          omega
        have := near mark List.mem_cons_self
        omega

/-- The gaps end before the marks and the bound do. -/
theorem lt_of_mem_gaps
    (positive : 0 < step)
    {limit : Nat}
    (marksBelow : ∀ mark, mark ∈ marks → mark ≤ limit)
    (boundBelow : bound ≤ limit)
    (member : position ∈ gaps step bound first marks) :
    position < limit := by
  induction marks generalizing first with
  | nil =>
      have := ((mem_strides positive).mp member).1
      omega
  | cons mark rest inductionHypothesis =>
      rcases List.mem_append.mp member with here | later
      · have := ((mem_strides positive).mp here).1
        have := marksBelow mark List.mem_cons_self
        omega
      · exact inductionHypothesis
          (fun other isLater => marksBelow other (List.mem_cons_of_mem _ isLater))
          later

/-- Positions in gaps are at least one step apart. -/
theorem gaps_spaced
    (positive : 0 < step)
    (sorted : marks.Pairwise (· < ·)) :
    (gaps step bound first marks).Pairwise fun a b => a + step ≤ b := by
  induction marks generalizing first with
  | nil => exact strides_spaced
  | cons mark rest inductionHypothesis =>
      obtain ⟨before, restSorted⟩ := List.pairwise_cons.mp sorted
      refine List.pairwise_append.mpr
        ⟨strides_spaced, inductionHypothesis restSorted, ?_⟩
      intro a here b later
      have below := ((mem_strides positive).mp here).1
      have behind : mark + step ≤ b := by
        refine le_of_mem_gaps positive restSorted ?_ later
        intro other isLater
        have := before other isLater
        omega
      omega

/-- Slot starts are at least one step apart. -/
theorem SlotStart.apart
    {a b : Nat}
    (aStart : SlotStart origin step a)
    (bStart : SlotStart origin step b)
    (less : a < b) :
    a + step ≤ b := by
  obtain ⟨i, rfl⟩ := aStart
  obtain ⟨j, rfl⟩ := bStart
  have fewer : i * step < j * step := by
    omega
  have next : (i + 1) * step ≤ j * step :=
    Nat.mul_le_mul_right _ (Nat.lt_of_mul_lt_mul_right fewer)
  rw [Nat.succ_mul] at next
  omega

/-- Steps from a slot start lead to slot starts. -/
theorem SlotStart.next
    {a : Nat}
    (aStart : SlotStart origin step a) :
    SlotStart origin step (a + step) := by
  obtain ⟨i, rfl⟩ := aStart
  exact ⟨i + 1, by rw [Nat.succ_mul, Nat.add_assoc]⟩

/-- From a slot start on, the positions in steps are the slot starts. -/
theorem SlotStart.iff_of_start
    (firstStart : SlotStart origin step first) :
    SlotStart first step position ↔
      SlotStart origin step position ∧ first ≤ position := by
  obtain ⟨i, rfl⟩ := firstStart
  constructor
  · rintro ⟨k, rfl⟩
    exact ⟨⟨i + k, by rw [Nat.add_mul, Nat.add_assoc]⟩, by omega⟩
  · rintro ⟨⟨j, rfl⟩, ahead⟩
    have more : i * step ≤ j * step := by
      omega
    refine ⟨j - i, ?_⟩
    rw [Nat.sub_mul]
    omega

/-- Between marks that are slot starts, the gaps are the other slot starts. -/
theorem mem_gaps_of_starts
    (positive : 0 < step)
    (sorted : marks.Pairwise (· < ·))
    (starts : ∀ mark, mark ∈ marks → SlotStart origin step mark)
    (ahead : ∀ mark, mark ∈ marks → first ≤ mark ∧ mark < bound)
    (firstStart : SlotStart origin step first) :
    position ∈ gaps step bound first marks ↔
      SlotStart origin step position ∧
        first ≤ position ∧ position < bound ∧ position ∉ marks := by
  induction marks generalizing first with
  | nil =>
      unfold gaps
      rw [mem_strides positive, firstStart.iff_of_start]
      simp only [List.not_mem_nil, not_false_eq_true, and_true]
      tauto
  | cons mark rest inductionHypothesis =>
      obtain ⟨before, restSorted⟩ := List.pairwise_cons.mp sorted
      have markStart := starts mark List.mem_cons_self
      obtain ⟨firstLe, markBelow⟩ := ahead mark List.mem_cons_self
      have restStarts :
          ∀ other, other ∈ rest → SlotStart origin step other :=
        fun other member => starts other (List.mem_cons_of_mem _ member)
      have restAhead :
          ∀ other, other ∈ rest → mark + step ≤ other ∧ other < bound := by
        intro other member
        refine ⟨markStart.apart (restStarts other member)
          (before other member), ?_⟩
        exact (ahead other (List.mem_cons_of_mem _ member)).2
      unfold gaps
      rw [List.mem_append, mem_strides positive, firstStart.iff_of_start,
        inductionHypothesis restSorted restStarts restAhead markStart.next,
        List.mem_cons, not_or]
      constructor
      · rintro (⟨below, isStart, lower⟩ | ⟨isStart, lower, upper, absent⟩)
        · refine ⟨isStart, lower, by omega, by omega, ?_⟩
          intro member
          have := before position member
          omega
        · exact ⟨isStart, by omega, upper, by omega, absent⟩
      · rintro ⟨isStart, lower, upper, differs, absent⟩
        rcases Nat.lt_or_gt_of_ne differs with below | above
        · exact .inl ⟨below, isStart, lower⟩
        · exact .inr ⟨isStart, markStart.apart isStart above, upper, absent⟩

/-- Marks that are slot starts and the gaps together fill all slots. -/
theorem gaps_length_of_starts
    (positive : 0 < step)
    (sorted : marks.Pairwise (· < ·))
    (starts : ∀ mark, mark ∈ marks → SlotStart origin step mark)
    (ahead : ∀ mark, mark ∈ marks → first ≤ mark ∧ mark < bound)
    (firstStart : SlotStart origin step first)
    (boundStart : SlotStart origin step bound)
    (inside : first ≤ bound) :
    first + ((gaps step bound first marks).length + marks.length) * step =
      bound := by
  induction marks generalizing first with
  | nil =>
      exact strides_length positive
        (firstStart.iff_of_start.mpr ⟨boundStart, inside⟩)
  | cons mark rest inductionHypothesis =>
      obtain ⟨before, restSorted⟩ := List.pairwise_cons.mp sorted
      have markStart := starts mark List.mem_cons_self
      obtain ⟨firstLe, markBelow⟩ := ahead mark List.mem_cons_self
      have restStarts :
          ∀ other, other ∈ rest → SlotStart origin step other :=
        fun other member => starts other (List.mem_cons_of_mem _ member)
      have later :=
        inductionHypothesis restSorted restStarts
          (fun other member =>
            ⟨markStart.apart (restStarts other member) (before other member),
              (ahead other (List.mem_cons_of_mem _ member)).2⟩)
          markStart.next (markStart.apart boundStart markBelow)
      have here :=
        strides_length positive
          (firstStart.iff_of_start.mpr ⟨markStart, firstLe⟩)
      unfold gaps
      rw [List.length_append, List.length_cons]
      simp only [Nat.add_mul, Nat.one_mul] at *
      omega

/-- A position where a slot starts that contains no mark. -/
structure SafeSlot
    (origin step bound : Nat)
    (marks : List Nat)
    (position : Nat) : Prop where
  isStart : SlotStart origin step position
  below : position < bound
  unmarked :
    ∀ mark, mark ∈ marks → ¬ (position ≤ mark ∧ mark < position + step)

/-- The step before a slot start, behind the origin, is a slot start. -/
theorem SlotStart.previous
    (positive : 0 < step)
    (behind : origin ≤ first)
    (next : SlotStart origin step (first + step)) :
    SlotStart origin step first := by
  obtain ⟨k, shape⟩ := next
  cases k with
  | zero => omega
  | succ k =>
      rw [Nat.succ_mul] at shape
      exact ⟨k, by omega⟩

/-- The walk up to a mark stays in slots without it if both ends are starts. -/
theorem strides_safe_iff
    {mark : Nat}
    (positive : 0 < step)
    (ahead : first < mark) :
    (∀ position,
        position ∈ strides step first mark →
        SlotStart origin step position ∧
          ¬ (position ≤ mark ∧ mark < position + step)) ↔
      SlotStart origin step first ∧ SlotStart origin step mark := by
  constructor
  · intro safe
    have firstStart : SlotStart origin step first :=
      (safe first ((mem_strides positive).mpr
        ⟨ahead, 0, by rw [Nat.zero_mul, Nat.add_zero]⟩)).1
    refine ⟨firstStart, ?_⟩
    -- The last step before the mark ends at the mark.
    have division := Nat.div_add_mod (mark - first) step
    have remainder := Nat.mod_lt (mark - first) positive
    rw [Nat.mul_comm] at division
    generalize (mark - first) / step = count at division
    rcases Nat.eq_zero_or_pos ((mark - first) % step) with exactly | partway
    · exact (firstStart.iff_of_start.mp ⟨count, by omega⟩).1
    · refine absurd ⟨by omega, by omega⟩
        (safe (first + count * step) ((mem_strides positive).mpr
          ⟨by omega, count, rfl⟩)).2
  · rintro ⟨firstStart, markStart⟩ position member
    obtain ⟨below, steps⟩ := (mem_strides positive).mp member
    have isStart := (firstStart.iff_of_start.mp steps).1
    have := isStart.apart markStart below
    exact ⟨isStart, by omega⟩

/-- Neighbouring marks with room for a slot between them are slot starts. -/
def NeighboursFit (origin step mark next : Nat) : Prop :=
  mark + step < next →
  SlotStart origin step mark ∧ SlotStart origin step next

/-- The last mark is a slot start if there is room for a slot behind it. -/
def LastFits (origin step bound : Nat) (marks : List Nat) : Prop :=
  ∀ mark,
    mark ∈ marks.getLast? →
    mark + step < bound →
    SlotStart origin step mark

/-- The gap before a mark is safe for this mark and for all later marks. -/
theorem strides_safeSlot_iff
    {mark : Nat}
    {rest : List Nat}
    (positive : 0 < step)
    (boundStart : SlotStart origin step bound)
    (before : ∀ other, other ∈ rest → mark < other)
    (below : mark < bound + step) :
    (∀ position,
        position ∈ strides step first mark →
        SafeSlot origin step bound (mark :: rest) position) ↔
      (first < mark →
        SlotStart origin step first ∧ SlotStart origin step mark) := by
  rcases Nat.lt_or_ge first mark with ahead | behind
  · rw [← @strides_safe_iff origin step first mark positive ahead]
    constructor
    · intro safe _ position member
      have slot := safe position member
      exact ⟨slot.isStart, slot.unmarked mark List.mem_cons_self⟩
    · intro safe position member
      have markStart :=
        ((strides_safe_iff positive ahead).mp (safe ahead)).2
      have early := ((mem_strides positive).mp member).1
      obtain ⟨isStart, notHere⟩ := safe ahead position member
      refine ⟨isStart, ?_, ?_⟩
      · by_contra late
        have := boundStart.apart markStart (by omega)
        omega
      · intro other isMark
        rcases List.mem_cons.mp isMark with rfl | later
        · exact notHere
        · have := before other later
          omega
  · rw [strides_empty behind]
    constructor
    · intro _ ahead
      omega
    · intro _ position member
      cases member

/-- The walk behind a mark cannot come back to it. -/
theorem gaps_safeSlot_cons
    {mark : Nat}
    {rest : List Nat}
    (positive : 0 < step)
    (sorted : (mark :: rest).Pairwise (· < ·)) :
    (∀ position,
        position ∈ gaps step bound (mark + step) rest →
        SafeSlot origin step bound (mark :: rest) position) ↔
      ∀ position,
        position ∈ gaps step bound (mark + step) rest →
        SafeSlot origin step bound rest position := by
  obtain ⟨before, restSorted⟩ := List.pairwise_cons.mp sorted
  refine forall₂_congr fun position member => ?_
  have lower : mark + step ≤ position := by
    refine le_of_mem_gaps positive restSorted ?_ member
    intro other later
    have := before other later
    omega
  constructor
  · rintro ⟨isStart, early, unmarked⟩
    exact ⟨isStart, early, fun other later =>
      unmarked other (List.mem_cons_of_mem _ later)⟩
  · rintro ⟨isStart, early, unmarked⟩
    refine ⟨isStart, early, ?_⟩
    intro other isMark
    rcases List.mem_cons.mp isMark with rfl | later
    · omega
    · exact unmarked other later

/-- The walk behind a mark stays in slots without marks. -/
theorem gaps_behind_safe_iff
    {mark : Nat}
    {rest : List Nat}
    (positive : 0 < step)
    (boundStart : SlotStart origin step bound)
    (behind : origin ≤ mark)
    (sorted : (mark :: rest).Pairwise (· < ·))
    (below : ∀ other, other ∈ rest → other < bound + step) :
    (∀ position,
        position ∈ gaps step bound (mark + step) rest →
        SafeSlot origin step bound rest position) ↔
      (mark :: rest).IsChain (NeighboursFit origin step) ∧
        LastFits origin step bound (mark :: rest) := by
  induction rest generalizing mark with
  | nil =>
      unfold gaps LastFits
      simp only [List.isChain_singleton, true_and, List.getLast?_singleton,
        Option.mem_def, Option.some.injEq, forall_eq']
      constructor
      · intro safe ahead
        refine SlotStart.previous positive behind ?_
        exact (safe _ ((mem_strides positive).mpr
          ⟨ahead, 0, by rw [Nat.zero_mul, Nat.add_zero]⟩)).isStart
      · intro isStart position member
        obtain ⟨early, steps⟩ := (mem_strides positive).mp member
        have ahead : mark + step < bound := by
          obtain ⟨k, rfl⟩ := steps
          omega
        have nextStart := (isStart ahead).next
        exact ⟨(nextStart.iff_of_start.mp steps).1, early,
          fun other absent => absurd absent List.not_mem_nil⟩
  | cons next rest inductionHypothesis =>
      obtain ⟨before, restSorted⟩ := List.pairwise_cons.mp sorted
      obtain ⟨nextBefore, -⟩ := List.pairwise_cons.mp restSorted
      have earlier := before next List.mem_cons_self
      have gapBefore :=
        @strides_safeSlot_iff origin step bound (mark + step) next rest
          positive boundStart nextBefore (below next List.mem_cons_self)
      have gapsBehind :=
        inductionHypothesis (by omega) restSorted
          fun other later => below other (List.mem_cons_of_mem _ later)
      have sameLast :
          LastFits origin step bound (mark :: next :: rest) ↔
            LastFits origin step bound (next :: rest) := by
        unfold LastFits
        rw [List.getLast?_cons_cons]
      have sameStart :
          (mark + step < next →
              SlotStart origin step (mark + step) ∧
                SlotStart origin step next) ↔
            NeighboursFit origin step mark next := by
        unfold NeighboursFit
        refine forall_congr' fun _ => and_congr_left fun _ => ?_
        exact ⟨SlotStart.previous positive behind, SlotStart.next⟩
      unfold gaps
      simp only [List.forall_mem_append]
      rw [gapBefore, gaps_safeSlot_cons positive restSorted, gapsBehind,
        sameLast, sameStart, List.isChain_cons_cons, and_assoc]

/--
The walk collects only slots without marks exactly when the first mark, every
mark next to a gap between marks, and the last mark, if there is room behind
it, are slot starts.
-/
theorem gaps_safe_iff
    {mark : Nat}
    {rest : List Nat}
    (positive : 0 < step)
    (boundStart : SlotStart origin step bound)
    (sorted : (mark :: rest).Pairwise (· < ·))
    (behind : origin ≤ mark)
    (below :
      ∀ other, other ∈ mark :: rest → other < bound + step) :
    (∀ position,
        position ∈ gaps step bound origin (mark :: rest) →
        SafeSlot origin step bound (mark :: rest) position) ↔
      SlotStart origin step mark ∧
        (mark :: rest).IsChain (NeighboursFit origin step) ∧
        LastFits origin step bound (mark :: rest) := by
  obtain ⟨before, -⟩ := List.pairwise_cons.mp sorted
  have originStart : SlotStart origin step origin :=
    ⟨0, by rw [Nat.zero_mul, Nat.add_zero]⟩
  have firstGap :
      (origin < mark →
          SlotStart origin step origin ∧ SlotStart origin step mark) ↔
        SlotStart origin step mark := by
    constructor
    · intro fits
      rcases Nat.eq_or_lt_of_le behind with rfl | ahead
      · exact originStart
      · exact (fits ahead).2
    · intro markStart _
      exact ⟨originStart, markStart⟩
  unfold gaps
  simp only [List.forall_mem_append]
  rw [strides_safeSlot_iff positive boundStart before
      (below mark List.mem_cons_self),
    gaps_safeSlot_cons positive sorted,
    gaps_behind_safe_iff positive boundStart behind sorted
      (fun other later => below other (List.mem_cons_of_mem _ later)),
    firstGap]

end Gaps

end Bxalloc.Lib
