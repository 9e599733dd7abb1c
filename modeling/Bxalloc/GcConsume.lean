import Bxalloc.GcSweep
import Bxalloc.HeapRuns

namespace Bxalloc

/-!
# Which marks the sweep consumes

The sweep starts at the second superblock, while `mark_func` accepts every
address from the heap start on.  A mark in the first superblock is the smallest
one; the sweep never gets past it and erases all superblocks.
-/

namespace Gc

variable {region : SbRegion} {image : Heap} {state next : Sweep}

/-- No descriptor of `heaps[0]` is in use. -/
def NoFirstClass (heap : Heap) : Prop :=
  ∀ k, (heap.desc k).heap ≠ some 0

/-- Rounds do not put descriptors into use. -/
theorem NoFirstClass.step
    (noFirst : NoFirstClass state.heap)
    (stepped : sweepStep region state = .ok next) :
    NoFirstClass next.heap := by
  intro k
  obtain ⟨desc, isUpdate, shape⟩ := sweepStep_desc stepped
  rw [isUpdate]
  rcases eq_or_ne k state.currDesc with rfl | differs
  · rw [Function.update_self]
    rcases shape with rfl | ⟨anchor, rfl⟩
    · intro isFirst
      cases isFirst
    · exact noFirst state.currDesc
  · rw [Function.update_of_ne differs]
    exact noFirst k

/-- Without the first class every round moves by a superblock. -/
theorem NoFirstClass.currSb
    (noFirst : NoFirstClass state.heap)
    (stepped : sweepStep region state = .ok next) :
    next.currSb = state.currSb + sbSize := by
  obtain ⟨rebuild, -, erased | skipped | ⟨sc, relinked⟩⟩ :=
    sweepStep_cases stepped
  · exact erased.currSb
  · exact absurd skipped.first (noFirst state.currDesc)
  · exact relinked.currSb

/-- The remaining marks lie ahead of the cursor. -/
structure Ahead (image : Heap) (state : Sweep) : Prop where
  aligned : state.currSb % sbSize = 0
  sorted : state.marks.Pairwise (· < ·)
  ahead :
    ∀ mark,
      mark ∈ state.marks → state.currSb ≤ mark ∧ mark < image.currAddr
  noFirst : NoFirstClass state.heap

/-- A round consumes the marks of its superblock. -/
theorem Ahead.step
    (cursor : Ahead image state)
    (stepped : sweepStep region state = .ok next) :
    Ahead image next := by
  obtain ⟨rebuild, swept, -⟩ := sweepStep_cases stepped
  have moved := cursor.noFirst.currSb stepped
  have rest :=
    sweepMarks_rest cursor.sorted
      (fun mark member => by
        rw [Nat.shiftRight_eq_div_pow, Nat.shiftRight_eq_div_pow]
        exact Nat.div_le_div_right (cursor.ahead mark member).1)
      swept
  refine ⟨?_, ?_, ?_, cursor.noFirst.step stepped⟩
  · rw [moved, Nat.add_mod_right]
    exact cursor.aligned
  · rw [rest]
    exact cursor.sorted.filter _
  · intro mark member
    rw [rest, List.mem_filter, decide_eq_true_eq,
      laterSb_iff cursor.aligned] at member
    rw [moved]
    exact ⟨member.2, (cursor.ahead mark member.1).2⟩

/-- One round of the loop `while(curr_sb < sb_end)`. -/
def Round (region : SbRegion) (image : Heap) (state next : Sweep) : Prop :=
  state.currSb < image.currAddr ∧ sweepStep region state = .ok next

/-- A mark behind the cursor: every round erases and no mark is consumed. -/
structure Stuck (marks : List Nat) (state : Sweep) : Prop where
  aligned : state.currSb % sbSize = 0
  same : state.marks = marks
  behind : ∀ mark, mark ∈ marks.head? → mark < state.currSb

/-- The sweep stays stuck. -/
theorem Stuck.step
    {marks : List Nat}
    (stuck : Stuck marks state)
    (nonempty : marks ≠ []) :
    ∃ next,
      sweepStep region state = .ok next ∧
        state.currSb < next.currSb ∧
        Stuck marks next := by
  obtain ⟨mark, later, rfl⟩ := List.exists_cons_of_ne_nil nonempty
  have behind := stuck.behind mark rfl
  have notHere : ¬ state.currSb >>> sbShift = mark >>> sbShift := by
    rw [sameSb_iff stuck.aligned]
    omega
  have moved : state.currSb < state.currSb + sbSize :=
    Nat.lt_add_of_pos_right (by decide)
  refine ⟨state.erase, sweepStep_unmarked ?_, moved, ?_, stuck.same, ?_⟩
  · intro other isFirst
    rw [stuck.same] at isFirst
    cases isFirst
    exact notHere
  · change (state.currSb + sbSize) % sbSize = 0
    rw [Nat.add_mod_right]
    exact stuck.aligned
  · intro other isFirst
    cases isFirst
    exact Nat.lt_trans behind moved

end Gc

end Bxalloc
