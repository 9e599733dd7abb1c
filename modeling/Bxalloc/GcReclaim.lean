import Bxalloc.DurableRuns
import Bxalloc.GcSweep
import Bxalloc.QueueCapacity

namespace Bxalloc

/-!
# Recovery and the queue of free superblocks

The sweep erases the descriptors of superblocks without marks and links them in
a list `avail_sb` that nothing reads; `small_sb_alloc` takes superblocks from
the queue, which the collection leaves as the crash left it.  So recovery
reclaims everything unreachable exactly when nothing outside the queue was
unreachable.
-/

open Lib (Reaches)

namespace Gc

variable {region : SbRegion} {image heap heap' : Heap}

/-- What the files hold after a crash: queued superblocks are blank. -/
structure CrashImage (region : SbRegion) (image : Heap) : Prop where
  queueNodup : image.queue.Nodup
  queueSpare : ∀ k, k ∈ image.queue → Heap.Spare region image k

namespace CrashImage

/-- A crash after a superblock left the queue and before its first use. -/
theorem pop
    (crashed : CrashImage region image)
    {k : Nat}
    {rest : List Nat}
    (shape : image.queue = k :: rest) :
    CrashImage region { image with queue := rest } := by
  have distinct := crashed.queueNodup
  rw [shape] at distinct
  refine ⟨distinct.of_cons, ?_⟩
  intro j member
  refine (crashed.queueSpare j ?_).congr rfl rfl
  rw [shape]
  exact List.mem_cons_of_mem _ member

/-- A crash after a descriptor outside the queue changed in any way. -/
theorem setDesc
    (crashed : CrashImage region image)
    {k : Nat}
    (absent : k ∉ image.queue)
    (desc : Descriptor) :
    CrashImage region (image.setDesc k desc) := by
  refine ⟨crashed.queueNodup, ?_⟩
  intro j member
  have spare := crashed.queueSpare j member
  have distinct : j ≠ k := by
    rintro rfl
    exact absent member
  refine ⟨?_, spare.indexPos, spare.inside⟩
  simp only [Heap.setDesc, Function.update_of_ne distinct]
  exact spare.blank

/-- A crash after a constructed descriptor was queued. -/
theorem push
    (crashed : CrashImage region image)
    {k : Nat}
    (spare : Heap.Spare region image k)
    (absent : k ∉ image.queue) :
    CrashImage region { image with queue := image.queue ++ [k] } := by
  refine ⟨?_, ?_⟩
  · refine crashed.queueNodup.append (List.nodup_singleton k) ?_
    rw [List.disjoint_singleton]
    exact absent
  · intro j member
    rcases List.mem_append.mp member with old | new
    · exact (crashed.queueSpare j old).congr rfl rfl
    · rw [List.mem_singleton.mp new]
      exact spare.congr rfl rfl

end CrashImage

/--
A crash between two calls: each descriptor line has its persisted or its
volatile contents, and block contents are arbitrary.
-/
structure Crashed (state : Durable) (image : Heap) : Prop where
  line :
    ∀ k,
      image.desc k = state.persisted k ∨ image.desc k = state.heap.desc k
  queue : image.queue = state.heap.queue
  currAddr : image.currAddr = state.heap.currAddr

/-- Every crash of every run leaves a crash image. -/
theorem Crashed.crashImage
    {state : Durable}
    (crashed : Crashed state image)
    (reached :
      Reaches (Durable.Initial region) (Durable.Step region) state) :
    CrashImage region image := by
  have inv := Durable.Inv.of_reaches reached
  refine ⟨?_, ?_⟩
  · rw [crashed.queue]
    exact inv.heap.control.queueNodup
  · intro k member
    rw [crashed.queue] at member
    have spare := inv.heap.control.queueSpare k member
    refine ⟨?_, spare.indexPos, ?_⟩
    · rcases crashed.line k with persisted | volatile
      · rw [persisted]
        exact inv.synced.blank spare.blank
      · rw [volatile]
        exact spare.blank
    · rw [crashed.currAddr]
      exact spare.inside

/-- The whole sweep leaves the queue alone. -/
theorem sweepLoop_queue
    {sbEnd fuel : Nat}
    {state final : Sweep}
    (swept : sweepLoop region sbEnd fuel state = .ok final) :
    final.heap.queue = state.heap.queue :=
  (@sweepLoop_invariant region sbEnd fuel state final
    (fun reached => reached.heap.queue = state.heap.queue) swept rfl
    (fun _ _ same _ stepped => (sweepStep_queue stepped).trans same)).1

/-- Superblock `k` contains a marked address. -/
def HasMark (region : SbRegion) (marked : Finset Nat) (k : Nat) : Prop :=
  ∃ addr, addr ∈ marked ∧ region.owner addr = k

/--
After the collection every superblock without a marked block is queued once,
and no superblock of an in-use descriptor with a marked block is queued.
-/
def Reclaimed
    (region : SbRegion)
    (image : Heap)
    (result : Collected) : Prop :=
  ∀ k,
    1 ≤ k →
    region.sbAddr k < image.currAddr →
    (¬ HasMark region result.marked k →
        result.heap.queue.count k = 1) ∧
      (HasMark region result.marked k →
        (image.desc k).heap ≠ none →
        k ∉ result.heap.queue)

/-- Every superblock outside the queue contains a reachable address. -/
def NothingLost
    (region : SbRegion)
    (roots : List Nat)
    (image : Heap) : Prop :=
  ∀ k,
    1 ≤ k →
    region.sbAddr k < image.currAddr →
    k ∉ image.queue →
    ∃ addr, Reachable region.start image roots addr ∧ region.owner addr = k

/--
For every crash image and every root assignment: a completed collection leaves
the queue as the claim has it exactly when every superblock that was outside
the queue at the crash contains a reachable address.
-/
theorem reclaimed_iff_nothingLost
    (crashed : CrashImage region image)
    {roots : List Nat}
    {result : Collected}
    (completed : collect region roots image = .ok result) :
    Reclaimed region image result ↔ NothingLost region roots image := by
  obtain ⟨final, swept, -, sameHeap, -, marked⟩ := collect_cases completed
  have sameQueue : result.heap.queue = image.queue := by
    rw [sameHeap]
    exact sweepLoop_queue swept
  have hasMark :
      ∀ k,
        HasMark region result.marked k ↔
          ∃ addr, Reachable region.start image roots addr ∧
            region.owner addr = k := by
    intro k
    simp only [HasMark, marked]
  constructor
  · intro reclaimed k positive below absent
    by_contra unreachable
    have once := (reclaimed k positive below).1 (by rwa [hasMark])
    rw [sameQueue, List.count_eq_zero.mpr absent] at once
    cases once
  · intro nothingLost k positive below
    refine ⟨?_, ?_⟩
    · intro unmarked
      rw [hasMark] at unmarked
      have queued : k ∈ image.queue := by
        by_contra absent
        exact unmarked (nothingLost k positive below absent)
      rw [sameQueue]
      exact List.count_eq_one_of_mem crashed.queueNodup queued
    · intro _ inUse queued
      rw [sameQueue] at queued
      exact inUse (crashed.queueSpare k queued).blank

/-- Without roots nothing is reachable. -/
theorem not_reachable_nil
    {addr : Nat} :
    ¬ Reachable region.start image [] addr := by
  intro reachable
  induction reachable with
  | root isRoot => exact List.not_mem_nil isRoot.1
  | step _ _ inductionHypothesis => exact inductionHypothesis

/-- Without marks the sweep erases one descriptor after the other. -/
theorem sweepLoop_unmarked
    {sbEnd fuel : Nat}
    {state : Sweep}
    (noMarks : state.marks = [])
    (enough : sbEnd ≤ state.currSb + fuel) :
    ∃ final,
      sweepLoop region sbEnd fuel state = .ok final ∧ final.marks = [] := by
  have kept :
      ∀ before : Sweep,
        before.marks = [] →
        before.currSb < sbEnd →
        ∃ after,
          sweepStep region before = .ok after ∧
            before.currSb < after.currSb ∧
            after.marks = [] := by
    intro before none _
    refine ⟨before.erase, sweepStep_unmarked ?_,
      Nat.lt_add_of_pos_right (by decide), none⟩
    intro mark isFirst
    rw [none] at isFirst
    cases isFirst
  obtain ⟨final, swept, none, -⟩ := sweepLoop_total noMarks enough kept
  exact ⟨final, swept, none⟩

/-- Without roots the collection completes and marks nothing. -/
theorem exists_collect_nil
    (region : SbRegion)
    (image : Heap) :
    ∃ result, collect region [] image = .ok result := by
  obtain ⟨marking, marked, exactly⟩ := mark_spec region.start image []
  have nothing : marking.marked = ∅ := by
    apply Finset.eq_empty_of_forall_notMem
    intro addr member
    exact not_reachable_nil ((exactly addr).mp member)
  have started : (sweepStart region image marking.marked).marks = [] := by
    unfold sweepStart
    rw [nothing]
    exact Finset.sort_empty _
  obtain ⟨final, swept, consumed⟩ :=
    @sweepLoop_unmarked region _ _ _ started
      (sweepFuel_enough region image marking.marked)
  exact ⟨_, collect_eq marked swept consumed⟩

/-- A crash of a new heap: all its superblocks are in the queue. -/
theorem reclaimed_iff_nothingLost_fresh :
    ∃ image result,
      CrashImage Heap.exampleRegion image ∧
        collect Heap.exampleRegion [] image = .ok result ∧
        Reclaimed Heap.exampleRegion image result := by
  obtain ⟨heap, fresh⟩ := Heap.exists_fresh Heap.exampleRegion_room
  obtain ⟨result, completed⟩ := exists_collect_nil Heap.exampleRegion heap
  have control := fresh.inv.1.control
  have crashed : CrashImage Heap.exampleRegion heap :=
    ⟨control.queueNodup, control.queueSpare⟩
  refine ⟨heap, result, crashed, completed, ?_⟩
  refine (reclaimed_iff_nothingLost crashed completed).mpr ?_
  intro k positive below absent
  refine absurd ?_ absent
  rw [fresh.lists.1, List.mem_range'_1]
  refine ⟨positive, ?_⟩
  have early := fresh.expanded.1 ▸ below
  have perExpansion : sbRegionExpandSize / sbSize - 1 = 16383 := by
    decide
  rw [perExpansion]
  unfold SbRegion.sbAddr at early
  simp only [sbRegionExpandSize, minSbRegionSize, sbSize, pageSize] at early
  omega

/-- The first malloc takes superblock 1 from the queue. -/
theorem exists_unqueued
    {rest : List Nat}
    (made : heap.Constructed region rest) :
    ∃ state,
      Reaches (Durable.Initial region) (Durable.Step region) state ∧
        1 ∉ state.heap.queue ∧
        region.sbAddr 1 < state.heap.currAddr := by
  have malloc := Heap.Step.malloc (by decide) (by decide) made.doMalloc
  have reached :=
    (Reaches.start (Durable.initial_of_constructed made)).next
      (Durable.Step.call malloc)
  have inv := Durable.Inv.of_reaches reached
  refine ⟨_, reached, ?_, ?_⟩
  · have distinct := made.fresh.inv.1.control.queueNodup
    rw [made.queue] at distinct
    exact (List.nodup_cons.mp distinct).1
  · have inside := made.low.1
    change region.sbAddr 1 < heap.currAddr
    exact Nat.lt_of_lt_of_le (Nat.lt_add_of_pos_right (by decide)) inside

/-- The superblock of the first block is lost by a crash right after it. -/
theorem crash_after_first_malloc_loses_superblock :
    ∃ state image result,
      Reaches (Durable.Initial Heap.exampleRegion)
          (Durable.Step Heap.exampleRegion) state ∧
        Crashed state image ∧
        collect Heap.exampleRegion [] image = .ok result ∧
        ¬ Reclaimed Heap.exampleRegion image result := by
  obtain ⟨heap, fresh⟩ := Heap.exists_fresh Heap.exampleRegion_room
  obtain ⟨rest, made⟩ := fresh.constructed
  obtain ⟨state, reached, lost, below⟩ := exists_unqueued made
  obtain ⟨result, completed⟩ :=
    exists_collect_nil Heap.exampleRegion state.heap
  have crashed : Crashed state state.heap :=
    ⟨fun _ => Or.inr rfl, rfl, rfl⟩
  refine ⟨state, state.heap, result, reached, crashed, completed, ?_⟩
  intro reclaimed
  obtain ⟨final, swept, -, sameHeap, -, marked⟩ := collect_cases completed
  have sameQueue : final.heap.queue = state.heap.queue :=
    sweepLoop_queue swept
  have unmarked : ¬ HasMark Heap.exampleRegion result.marked 1 := by
    rintro ⟨addr, isMarked, -⟩
    exact not_reachable_nil ((marked addr).mp isMarked)
  have once := (reclaimed 1 (Nat.le_refl 1) below).1 unmarked
  rw [sameHeap, sameQueue, List.count_eq_zero.mpr lost] at once
  cases once

end Gc

end Bxalloc
