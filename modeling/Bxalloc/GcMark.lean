import Bxalloc.Gc
import Bxalloc.HeapSuperblocks
import Mathlib.Order.Interval.Finset.Nat

namespace Bxalloc

/-!
# The mark phase

The default filter visits exactly the in-range targets of the `pptr` values
that start at some byte of a block, so the worklist loop computes the closure
of the roots under these targets, and it ends because the region is finite.
-/

open Lib (Closure Marking)

namespace Gc

variable {start : Nat} {region : SbRegion} {image : Heap}

/-- A root the mark phase starts from. -/
def IsRoot
    (start : Nat)
    (image : Heap)
    (roots : List Nat)
    (addr : Nat) : Prop :=
  addr ∈ roots ∧ addr ≠ 0 ∧ InRange start image addr

/-- The in-range targets of the pointers at the bytes of a block. -/
def targets (start : Nat) (image : Heap) (ptr : Nat) : List Nat :=
  ((List.range (image.desc (sbIndex start ptr)).blockSize).map
    fun i => readLink image.memory (ptr + i)).filter
      fun addr => addr ≠ 0 ∧ InRange start image addr

/-- The addresses reachable from the roots, as the default filter sees them. -/
def Reachable
    (start : Nat)
    (image : Heap)
    (roots : List Nat) : Nat → Prop :=
  Closure (IsRoot start image roots) (targets start image)

theorem mem_targets
    {ptr addr : Nat} :
    addr ∈ targets start image ptr ↔
      (∃ i,
        i < (image.desc (sbIndex start ptr)).blockSize ∧
          readLink image.memory (ptr + i) = addr) ∧
        addr ≠ 0 ∧ InRange start image addr := by
  simp [targets]

/-- Testing each address before visiting it visits the filtered list. -/
theorem foldl_markFunc
    (marking : Marking Nat)
    (addrs : List Nat) :
    addrs.foldl (markRoot start image) marking =
      marking.visitAll
        (addrs.filter fun addr => addr ≠ 0 ∧ InRange start image addr) := by
  induction addrs generalizing marking with
  | nil =>
      rfl
  | cons addr rest inductionHypothesis =>
      rw [List.foldl_cons, inductionHypothesis]
      by_cases nonzero : addr ≠ 0
      · by_cases inside : InRange start image addr
        · simp [markRoot, markFunc, nonzero, inside, Marking.visitAll]
        · simp [markRoot, markFunc, inside]
      · simp [markRoot, nonzero]

/-- The default filter visits the targets of a block. -/
theorem filterFunc_eq
    (marking : Marking Nat)
    (ptr : Nat) :
    filterFunc start image marking ptr =
      marking.visitAll (targets start image ptr) := by
  unfold targets
  rw [← foldl_markFunc, List.foldl_map]
  rfl

/-- The loop of the mark phase is the worklist loop over the targets. -/
theorem markLoop_of_run
    {fuel : Nat}
    {marking final : Marking Nat}
    (ran : Marking.run (targets start image) fuel marking = some final) :
    markLoop start image fuel marking = .ok final := by
  induction fuel generalizing marking with
  | zero =>
      obtain ⟨marked, stack⟩ := marking
      cases stack with
      | nil =>
          rw [Marking.run_emptied] at ran
          exact congrArg Except.ok (Option.some.inj ran)
      | cons node rest =>
          cases ran
  | succ fuel inductionHypothesis =>
      obtain ⟨marked, stack⟩ := marking
      cases stack with
      | nil =>
          rw [Marking.run_emptied] at ran
          exact congrArg Except.ok (Option.some.inj ran)
      | cons node rest =>
          unfold markLoop
          simp only [filterFunc_eq]
          exact inductionHypothesis ran

/-- Reachable addresses are in range. -/
theorem Reachable.inRange
    {roots : List Nat}
    {addr : Nat}
    (reachable : Reachable start image roots addr) :
    InRange start image addr := by
  cases reachable with
  | root isRoot => exact isRoot.2.2
  | step _ edge => exact (mem_targets.mp edge).2.2

/-- The worklist loop ends with exactly the reachable addresses. -/
theorem exists_run
    (start : Nat)
    (image : Heap)
    (roots : List Nat) :
    ∃ final,
      Marking.run (targets start image) (image.currAddr - start)
          (roots.foldl (markRoot start image) ⟨∅, []⟩) = some final ∧
        ∀ addr,
          addr ∈ final.marked ↔ Reachable start image roots addr := by
  let rootList :=
    roots.filter fun addr => addr ≠ 0 ∧ InRange start image addr
  have sound :
      Marking.Sound (IsRoot start image roots) (targets start image)
        (Marking.visitAll ⟨∅, []⟩ rootList) := by
    apply Marking.sound_start
    intro addr
    simp [IsRoot, rootList]
  have bounded :
      ∀ addr,
        Closure (IsRoot start image roots) (targets start image) addr →
        addr ∈ Finset.Ico start image.currAddr := by
    intro addr reachable
    exact Finset.mem_Ico.mpr (Reachable.inRange reachable)
  have balance := Marking.visitAll_balance ⟨∅, []⟩ rootList
  simp only [Finset.card_empty, List.length_nil] at balance
  have enough :
      (Finset.Ico start image.currAddr).card +
          (Marking.visitAll ⟨∅, []⟩ rootList).stack.length ≤
        image.currAddr - start +
          (Marking.visitAll ⟨∅, []⟩ rootList).marked.card := by
    rw [Nat.card_Ico]
    omega
  rw [foldl_markFunc]
  exact sound.run_eq_closure bounded enough

/-- The mark phase ends with exactly the reachable addresses. -/
theorem mark_spec
    (start : Nat)
    (image : Heap)
    (roots : List Nat) :
    ∃ marking,
      mark start image roots = .ok marking ∧
        ∀ addr,
          addr ∈ marking.marked ↔ Reachable start image roots addr := by
  obtain ⟨final, ran, closed⟩ := exists_run start image roots
  exact ⟨final, markLoop_of_run ran, closed⟩

/-- The calls of the default filter from the worklist loop, in order. -/
def filterCalls (start : Nat) (image : Heap) : Nat → Marking Nat → List Nat
  | 0, _ => []
  | fuel + 1, marking =>
      match marking.stack with
      | [] => []
      | node :: rest =>
          node ::
            filterCalls start image fuel
              (filterFunc start image { marking with stack := rest } node)

/-- The filter is called for the nodes that the worklist loop pops. -/
theorem filterCalls_eq
    (fuel : Nat)
    (marking : Marking Nat) :
    filterCalls start image fuel marking =
      Marking.popped (targets start image) fuel marking := by
  induction fuel generalizing marking with
  | zero => rfl
  | succ fuel inductionHypothesis =>
      obtain ⟨marked, stack⟩ := marking
      cases stack with
      | nil => rfl
      | cons node rest =>
          unfold filterCalls Marking.popped
          simp only [filterFunc_eq, inductionHypothesis]

/--
A set that holds the roots in range and, with every address, the in-range
targets of the valid pointers at the bytes of its block.
-/
structure Conservative
    (start : Nat)
    (image : Heap)
    (roots : List Nat)
    (addrs : Set Nat) : Prop where
  rooted :
    ∀ root,
      root ∈ roots →
      root ≠ 0 →
      InRange start image root →
      root ∈ addrs
  closed :
    ∀ addr i,
      addr ∈ addrs →
      i < (image.desc (sbIndex start addr)).blockSize →
      isValidPptr (image.memory.load64 (addr + i)) = true →
      isNullPptr (image.memory.load64 (addr + i)) = false →
      InRange start image
        (fromPptrOff (image.memory.load64 (addr + i)) (addr + i)) →
      fromPptrOff (image.memory.load64 (addr + i)) (addr + i) ∈ addrs

/-- Only valid pointers that are not null decode to an address. -/
theorem valid_of_fromPptrOff
    {word pointer : Nat}
    (nonzero : fromPptrOff word pointer ≠ 0) :
    isValidPptr word = true ∧ isNullPptr word = false := by
  unfold fromPptrOff at nonzero
  split at nonzero
  · exact absurd rfl nonzero
  · next valid =>
      simpa using valid

/-- The reachable addresses are the least conservative set. -/
theorem reachable_isLeast
    (positive : 0 < start)
    (roots : List Nat) :
    IsLeast {addrs | Conservative start image roots addrs}
      {addr | Reachable start image roots addr} := by
  refine ⟨⟨?_, ?_⟩, ?_⟩
  · intro root member nonzero inside
    exact Closure.root ⟨member, nonzero, inside⟩
  · intro addr i reachable early _ _ inside
    refine Closure.step reachable (mem_targets.mpr ⟨⟨i, early, rfl⟩, ?_, inside⟩)
    exact Nat.ne_of_gt (Nat.lt_of_lt_of_le positive inside.1)
  · intro addrs conservative addr reachable
    induction reachable with
    | root isRoot =>
        exact conservative.rooted _ isRoot.1 isRoot.2.1 isRoot.2.2
    | step _ edge inductionHypothesis =>
        obtain ⟨⟨i, early, rfl⟩, nonzero, inside⟩ := mem_targets.mp edge
        obtain ⟨valid, notNull⟩ := valid_of_fromPptrOff nonzero
        exact conservative.closed _ i inductionHypothesis early valid notNull
          inside

/--
For every content of the superblocks, every block size and every assignment of
roots: the mark phase ends, its marks are the least conservative set, and the
filter is called once for each of them.
-/
theorem mark_least
    (positive : 0 < start)
    (image : Heap)
    (roots : List Nat) :
    ∃ marking,
      mark start image roots = .ok marking ∧
        IsLeast {addrs | Conservative start image roots addrs}
          (marking.marked : Set Nat) ∧
        ∃ calls,
          calls =
              filterCalls start image (image.currAddr - start)
                (roots.foldl (markRoot start image) ⟨∅, []⟩) ∧
            calls.Nodup ∧
            ∀ addr, addr ∈ calls ↔ addr ∈ marking.marked := by
  obtain ⟨final, ran, closed⟩ := exists_run start image roots
  have least := @reachable_isLeast start image positive roots
  have sameSet :
      {addr | Reachable start image roots addr} =
        (final.marked : Set Nat) := by
    ext addr
    exact (closed addr).symm
  rw [sameSet] at least
  refine ⟨final, markLoop_of_run ran, least, _, rfl, ?_⟩
  rw [filterCalls_eq]
  rw [foldl_markFunc] at ran ⊢
  let rootList :=
    roots.filter fun addr => addr ≠ 0 ∧ InRange start image addr
  have empty : Marking.Tidy (⟨∅, []⟩ : Marking Nat) :=
    ⟨List.nodup_nil, fun node absent => absurd absent List.not_mem_nil⟩
  have tidy := empty.visitAll rootList
  refine ⟨(tidy.popped_nodup _).1, ?_⟩
  intro addr
  -- At the start of the loop everything that is marked is still on the stack.
  have waiting :
      ¬ (addr ∈ (Marking.visitAll ⟨∅, []⟩ rootList).marked ∧
        addr ∉ (Marking.visitAll ⟨∅, []⟩ rootList).stack) := by
    rw [Marking.mem_visitAll_marked, Marking.mem_visitAll_stack]
    simp
  rw [tidy.mem_popped ran addr]
  exact ⟨Or.inl, fun either => either.resolve_right waiting⟩

/-- Two superblocks; the second holds two blocks of 24 KiB. -/
def exampleImage : Heap where
  memory := fun _ => 0
  desc := fun k =>
    if k = 1 then
      { anchor := { avail := 2, count := 0, state := .sbFull }
        superblock := 0x20000
        heap := some 159
        blockSize := 24576
        maxcount := 2 }
    else
      .blank
  partialList := fun _ => []
  queue := []
  currAddr := 0x30000
  cache := fun _ sc => freshFreeList sc
  live := []

/-- A root that names the first block is marked. -/
theorem mark_least_oneRoot :
    ∃ marking,
      mark 0x10000 exampleImage [0x20000] = .ok marking ∧
        0x20000 ∈ marking.marked := by
  obtain ⟨marking, marked, least, -⟩ :=
    @mark_least 0x10000 (by decide) exampleImage [0x20000]
  refine ⟨marking, marked, ?_⟩
  exact least.1.rooted 0x20000 List.mem_cons_self (by decide) (by decide)

/-- What a completed collection ran through. -/
theorem collect_cases
    {roots : List Nat}
    {result : Collected}
    (completed : collect region roots image = .ok result) :
    ∃ final,
      sweepLoop region image.currAddr (sweepFuel region image)
          (sweepStart region image result.marked) = .ok final ∧
        final.marks = [] ∧
        result.heap = final.heap ∧
        result.availSb = final.availSb ∧
        ∀ addr,
          addr ∈ result.marked ↔ Reachable region.start image roots addr := by
  obtain ⟨marking, marked, exactly⟩ := mark_spec region.start image roots
  unfold collect at completed
  obtain ⟨found, marking', completed⟩ := Heap.bind_ok completed
  obtain rfl : marking = found := Except.ok.inj (marked.symm.trans marking')
  obtain ⟨final, swept, last⟩ := Heap.bind_ok completed
  split at last
  · cases last
  · next none =>
      injection last with same
      subst same
      exact ⟨final, swept, not_not.mp none, rfl, rfl, exactly⟩

/-- A call that succeeds hands its value on. -/
theorem ok_bind
    {Error Value Result : Type}
    (value : Value)
    (second : Value → Except Error Result) :
    (Except.ok value >>= second) = second value :=
  rfl

/-- A sweep that consumes all marks completes the collection. -/
theorem collect_eq
    {roots : List Nat}
    {marking : Marking Nat}
    {final : Sweep}
    (marked : mark region.start image roots = .ok marking)
    (swept :
      sweepLoop region image.currAddr (sweepFuel region image)
          (sweepStart region image marking.marked) = .ok final)
    (consumed : final.marks = []) :
    collect region roots image =
      .ok ⟨final.heap, marking.marked, final.availSb⟩ := by
  unfold collect
  rw [marked, ok_bind, swept, ok_bind, if_neg (not_not.mpr consumed)]
  rfl

end Gc

end Bxalloc
