import Bxalloc.GcMark

namespace Bxalloc

/-!
# Rounds of the sweep

What one round of the sweep can do, and how properties of states carry over
from round to round to the end of the loop.
-/

namespace Gc

variable {region : SbRegion}

/-- The variables of a round before the first mark is looked at. -/
def Sweep.roundStart (state : Sweep) : Rebuild where
  anchor := { avail := 0, count := 0, state := .sbEmpty }
  head := 0
  last := state.currSb
  memory := state.heap.memory

/-- The heap of the sweep with the links a round has written. -/
def Sweep.linked (state : Sweep) (rebuild : Rebuild) : Heap :=
  { state.heap with memory := rebuild.memory }

/-- An address belongs to the superblock of its high bits. -/
theorem sameSb_iff
    {currSb mark : Nat}
    (aligned : currSb % sbSize = 0) :
    currSb >>> sbShift = mark >>> sbShift ↔
      currSb ≤ mark ∧ mark < currSb + sbSize := by
  simp only [Nat.shiftRight_eq_div_pow, sbShift, sbSize, pageSize] at *
  omega

/-- Whole superblocks ahead of an aligned address. -/
theorem laterSb_iff
    {currSb mark : Nat}
    (aligned : currSb % sbSize = 0) :
    currSb >>> sbShift < mark >>> sbShift ↔ currSb + sbSize ≤ mark := by
  simp only [Nat.shiftRight_eq_div_pow, sbShift, sbSize, pageSize] at *
  omega

/-- What the end of a round for a small superblock changes. -/
theorem finishSmall_cases
    {desc : Descriptor}
    {rebuild : Rebuild}
    {state : Sweep}
    {heap : Heap}
    (finished : finishSmall desc rebuild state = .ok heap) :
    ∃ memory lists anchor,
      heap =
        Heap.setAnchor
          { state.heap with memory := memory, partialList := lists }
          state.currDesc anchor := by
  unfold finishSmall at finished
  obtain ⟨linked, -, rest⟩ := Heap.bind_ok finished
  split at rest
  · injection rest with same
    exact ⟨_, _, _, same.symm⟩
  · split at rest
    · cases rest
    · split at rest
      · cases rest
      · simp only at rest
        unfold Heap.heapPushPartial at rest
        split at rest
        · cases rest
        · next pushed pushing =>
            injection rest with same
            split at pushing
            · cases pushing
            · injection pushing with samePushed
              subst samePushed
              exact ⟨_, _, _, same.symm⟩

/-- A round over a superblock that is not in use. -/
structure Erased (state : Sweep) (rebuild : Rebuild) (next : Sweep) : Prop where
  unused : rebuild.anchor.state = .sbEmpty
  currSb : next.currSb = state.currSb + sbSize
  currDesc : next.currDesc = state.currDesc + 1
  heap : next.heap = (state.linked rebuild).setDesc state.currDesc .blank
  availSb : next.availSb = state.currDesc :: state.availSb

/-- A round over a superblock of `heaps[0]`: the cursor moves by a block. -/
structure Skipped
    (region : SbRegion)
    (state : Sweep)
    (rebuild : Rebuild)
    (next : Sweep) : Prop where
  used : rebuild.anchor.state ≠ .sbEmpty
  first : (state.heap.desc state.currDesc).heap = some 0
  currSb :
    next.currSb =
      state.currSb + (state.heap.desc state.currDesc).blockSize
  currDesc : next.currDesc = region.owner next.currSb
  heap :
    next.heap =
      (state.linked rebuild).setAnchor state.currDesc
        { avail := 0, count := 0, state := .sbFull }
  availSb : next.availSb = state.availSb

/-- A round over a superblock of another heap. -/
structure Relinked
    (state : Sweep)
    (rebuild : Rebuild)
    (sc : Nat)
    (next : Sweep) : Prop where
  used : rebuild.anchor.state ≠ .sbEmpty
  inUse : (state.heap.desc state.currDesc).heap = some sc
  notFirst : sc ≠ 0
  currSb : next.currSb = state.currSb + sbSize
  currDesc : next.currDesc = state.currDesc + 1
  finished :
    finishSmall (state.heap.desc state.currDesc) rebuild
        { state with heap := state.linked rebuild } = .ok next.heap
  availSb : next.availSb = state.availSb

/-- What one round does. -/
theorem sweepStep_cases
    {state next : Sweep}
    (stepped : sweepStep region state = .ok next) :
    ∃ rebuild,
      sweepMarks (state.heap.desc state.currDesc) state.currSb state.marks
          state.roundStart = .ok (next.marks, rebuild) ∧
        (Erased state rebuild next ∨
          Skipped region state rebuild next ∨
          ∃ sc, Relinked state rebuild sc next) := by
  unfold sweepStep at stepped
  obtain ⟨⟨marks, rebuild⟩, swept, rest⟩ := Heap.bind_ok stepped
  simp only at rest
  split at rest
  · next unused =>
      injection rest with same
      subst same
      exact ⟨rebuild, swept, .inl ⟨unused, rfl, rfl, rfl, rfl⟩⟩
  · next used =>
      split at rest
      · cases rest
      · next sc inUse =>
          split at rest
          · next isFirst =>
              injection rest with same
              subst same
              subst isFirst
              exact ⟨rebuild, swept, .inr (.inl
                ⟨used, inUse, rfl, rfl, rfl, rfl⟩)⟩
          · next notFirst =>
              obtain ⟨heap, finished, last⟩ := Heap.bind_ok rest
              injection last with same
              subst same
              exact ⟨rebuild, swept, .inr (.inr
                ⟨sc, used, inUse, notFirst, rfl, rfl, finished, rfl⟩)⟩

section Introduction

variable
  {state : Sweep}
  {marks : List Nat}
  {rebuild : Rebuild}
  (swept :
    sweepMarks (state.heap.desc state.currDesc) state.currSb state.marks
      state.roundStart = .ok (marks, rebuild))

include swept

theorem exists_sweepStep_erased
    (unused : rebuild.anchor.state = .sbEmpty) :
    ∃ next, sweepStep region state = .ok next := by
  unfold Sweep.roundStart at swept
  unfold sweepStep
  dsimp only
  rw [swept, ok_bind]
  simp only [unused, if_true]
  exact ⟨_, rfl⟩

theorem exists_sweepStep_skipped
    (used : rebuild.anchor.state ≠ .sbEmpty)
    (isFirst : (state.heap.desc state.currDesc).heap = some 0) :
    ∃ next, sweepStep region state = .ok next := by
  unfold Sweep.roundStart at swept
  unfold sweepStep
  dsimp only
  rw [swept, ok_bind]
  simp only [if_neg used, isFirst, if_true]
  exact ⟨_, rfl⟩

end Introduction

/-- The sweep after a round over a superblock without marks. -/
def Sweep.erase (state : Sweep) : Sweep where
  currSb := state.currSb + sbSize
  currDesc := state.currDesc + 1
  marks := state.marks
  heap := state.heap.setDesc state.currDesc .blank
  availSb := state.currDesc :: state.availSb

/-- Without a mark in the current superblock its descriptor is erased. -/
theorem sweepStep_unmarked
    {state : Sweep}
    (notHere :
      ∀ mark,
        mark ∈ state.marks.head? →
        ¬ state.currSb >>> sbShift = mark >>> sbShift) :
    sweepStep region state = .ok state.erase := by
  unfold sweepStep Sweep.erase
  cases shape : state.marks with
  | nil => rfl
  | cons mark rest =>
      have away := notHere mark (by rw [shape]; rfl)
      simp only [sweepMarks, if_neg away]
      rfl

/-- A round changes the current descriptor only: its anchor, or all of it. -/
theorem sweepStep_desc
    {state next : Sweep}
    (stepped : sweepStep region state = .ok next) :
    ∃ desc,
      next.heap.desc =
          Function.update state.heap.desc state.currDesc desc ∧
        (desc = .blank ∨
          ∃ anchor,
            desc =
              { state.heap.desc state.currDesc with anchor := anchor }) := by
  obtain ⟨rebuild, -, erased | skipped | ⟨sc, relinked⟩⟩ :=
    sweepStep_cases stepped
  · rw [erased.heap]
    exact ⟨_, rfl, .inl rfl⟩
  · rw [skipped.heap]
    exact ⟨_, rfl, .inr ⟨_, rfl⟩⟩
  · obtain ⟨memory, lists, anchor, same⟩ :=
      finishSmall_cases relinked.finished
    rw [same]
    exact ⟨_, rfl, .inr ⟨_, rfl⟩⟩

/-- The marks in the current superblock are taken from the sorted marks. -/
theorem sweepMarks_rest
    {desc : Descriptor}
    {currSb : Nat}
    {marks rest : List Nat}
    {rebuild result : Rebuild}
    (sorted : marks.Pairwise (· < ·))
    (ahead :
      ∀ mark, mark ∈ marks → currSb >>> sbShift ≤ mark >>> sbShift)
    (swept : sweepMarks desc currSb marks rebuild = .ok (rest, result)) :
    rest =
      marks.filter fun mark => currSb >>> sbShift < mark >>> sbShift := by
  induction marks generalizing rebuild with
  | nil =>
      injection swept with same
      injection same with sameRest
      rw [← sameRest]
      rfl
  | cons mark later inductionHypothesis =>
      obtain ⟨before, laterSorted⟩ := List.pairwise_cons.mp sorted
      have lower := ahead mark List.mem_cons_self
      unfold sweepMarks at swept
      split at swept
      · next here =>
          obtain ⟨middle, -, sweptLater⟩ := Heap.bind_ok swept
          rw [List.filter_cons_of_neg (by simp [here])]
          exact inductionHypothesis laterSorted
            (fun other member => ahead other (List.mem_cons_of_mem _ member))
            sweptLater
      · next notHere =>
          injection swept with same
          injection same with sameRest
          rw [← sameRest, eq_comm, List.filter_eq_self]
          intro other member
          have ordered : mark ≤ other := by
            rcases List.mem_cons.mp member with rfl | isLater
            · exact Nat.le_refl _
            · exact Nat.le_of_lt (before other isLater)
          have monotone : mark >>> sbShift ≤ other >>> sbShift := by
            rw [Nat.shiftRight_eq_div_pow, Nat.shiftRight_eq_div_pow]
            exact Nat.div_le_div_right ordered
          rw [decide_eq_true_eq]
          omega

/-- A superblock counts as used only if it contains a mark. -/
theorem exists_mark_of_used
    {desc : Descriptor}
    {currSb : Nat}
    {marks rest : List Nat}
    {rebuild result : Rebuild}
    (swept : sweepMarks desc currSb marks rebuild = .ok (rest, result))
    (used : result.anchor.state ≠ rebuild.anchor.state) :
    ∃ mark, mark ∈ marks ∧ currSb >>> sbShift = mark >>> sbShift := by
  cases marks with
  | nil =>
      injection swept with same
      injection same with _ sameResult
      exact absurd (by rw [sameResult]) used
  | cons mark later =>
      unfold sweepMarks at swept
      split at swept
      · next here => exact ⟨mark, List.mem_cons_self, here⟩
      · injection swept with same
        injection same with _ sameResult
        exact absurd (by rw [sameResult]) used

/-- Rounds leave the queue alone. -/
theorem sweepStep_queue
    {state next : Sweep}
    (stepped : sweepStep region state = .ok next) :
    next.heap.queue = state.heap.queue := by
  obtain ⟨rebuild, -, erased | skipped | ⟨sc, relinked⟩⟩ :=
    sweepStep_cases stepped
  · rw [erased.heap]
    rfl
  · rw [skipped.heap]
    rfl
  · obtain ⟨memory, lists, anchor, same⟩ :=
      finishSmall_cases relinked.finished
    rw [same]
    rfl

/-- What holds before every round holds at the end of the loop. -/
theorem sweepLoop_invariant
    {sbEnd fuel : Nat}
    {state final : Sweep}
    {property : Sweep → Prop}
    (swept : sweepLoop region sbEnd fuel state = .ok final)
    (holds : property state)
    (kept :
      ∀ before after,
        property before →
        before.currSb < sbEnd →
        sweepStep region before = .ok after →
        property after) :
    property final ∧ sbEnd ≤ final.currSb := by
  induction fuel generalizing state with
  | zero =>
      unfold sweepLoop at swept
      split at swept
      · cases swept
      · next ended =>
          injection swept with same
          subst same
          exact ⟨holds, Nat.le_of_not_lt ended⟩
  | succ fuel inductionHypothesis =>
      unfold sweepLoop at swept
      split at swept
      · next more =>
          obtain ⟨middle, stepped, rest⟩ := Heap.bind_ok swept
          exact inductionHypothesis rest (kept state middle holds more stepped)
      · next ended =>
          injection swept with same
          subst same
          exact ⟨holds, Nat.le_of_not_lt ended⟩

/-- A loop whose rounds all succeed and move by a superblock ends. -/
theorem sweepLoop_total
    {sbEnd fuel : Nat}
    {state : Sweep}
    {property : Sweep → Prop}
    (holds : property state)
    (enough : sbEnd ≤ state.currSb + fuel)
    (kept :
      ∀ before,
        property before →
        before.currSb < sbEnd →
        ∃ after,
          sweepStep region before = .ok after ∧
            before.currSb < after.currSb ∧
            property after) :
    ∃ final,
      sweepLoop region sbEnd fuel state = .ok final ∧
        property final ∧
        sbEnd ≤ final.currSb := by
  induction fuel generalizing state with
  | zero =>
      unfold sweepLoop
      rw [if_neg (by omega)]
      exact ⟨state, rfl, holds, enough⟩
  | succ fuel inductionHypothesis =>
      unfold sweepLoop
      split
      · next more =>
          obtain ⟨after, stepped, moved, holdsAfter⟩ := kept state holds more
          rw [stepped, ok_bind]
          exact inductionHypothesis holdsAfter (by omega)
      · next ended =>
          exact ⟨state, rfl, holds, Nat.le_of_not_lt ended⟩

/-- A loop that has not ended makes a round. -/
theorem sweepLoop_next
    {sbEnd fuel : Nat}
    {state final : Sweep}
    (swept : sweepLoop region sbEnd fuel state = .ok final)
    (more : state.currSb < sbEnd) :
    ∃ fuel' next,
      sweepStep region state = .ok next ∧
        sweepLoop region sbEnd fuel' next = .ok final := by
  cases fuel with
  | zero =>
      unfold sweepLoop at swept
      rw [if_pos more] at swept
      cases swept
  | succ fuel =>
      unfold sweepLoop at swept
      rw [if_pos more] at swept
      obtain ⟨next, stepped, rest⟩ := Heap.bind_ok swept
      exact ⟨fuel, next, stepped, rest⟩

/-- The fuel of the sweep is enough for rounds that move. -/
theorem sweepFuel_enough
    (region : SbRegion)
    (image : Heap)
    (marked : Finset Nat) :
    image.currAddr ≤
      (sweepStart region image marked).currSb + sweepFuel region image := by
  unfold sweepStart sweepFuel
  generalize region.start + sbSize = second
  simp only
  omega

end Gc

end Bxalloc
