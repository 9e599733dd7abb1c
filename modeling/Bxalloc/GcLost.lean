import Bxalloc.GcPreserve

namespace Bxalloc

/-!
# What recovery loses

The first superblock with a mark whose class is 0 or `NLIST` is reached by a
proper sweep.  A whole superblock is then linked as a free block; behind class
0 the next round erases the descriptor again.  Later rounds do not come back to
it, so the loss is there at the end.
-/

namespace Gc

variable
  {region : SbRegion}
  {image : Heap}
  {marked : Finset Nat}
  {state next : Sweep}
  {j : Nat}
  {desc : Descriptor}

/-- The sweep is past superblock `j`, whose descriptor is `desc`. -/
structure Past
    (region : SbRegion)
    (image : Heap)
    (marked : Finset Nat)
    (j : Nat)
    (desc : Descriptor)
    (state : Sweep) : Prop where
  running : Running region image marked state
  behind : j < state.currDesc
  fixed : state.heap.desc j = desc

section Tail

variable
  (currBelow : image.currAddr ≤ region.limit)
  (allocated :
    ∀ addr, addr ∈ marked → AllocatedStart region image addr)

include currBelow allocated

/-- Rounds stay past the superblock and leave its descriptor alone. -/
theorem Past.step
    (past : Past region image marked j desc state)
    (more : state.currSb < image.currAddr)
    (stepped : sweepStep region state = .ok next) :
    Past region image marked j desc next := by
  have behind := past.behind
  obtain ⟨-, ordered⟩ :=
    past.running.follows currBelow allocated more stepped
  obtain ⟨changed, isUpdate, -⟩ := sweepStep_desc stepped
  refine ⟨past.running.step currBelow allocated more stepped, by omega, ?_⟩
  rw [isUpdate, Function.update_of_ne (Nat.ne_of_lt behind)]
  exact past.fixed

/-- At the end of the sweep the descriptor is still the same. -/
theorem Past.final
    (past : Past region image marked j desc state)
    {fuel : Nat}
    {final : Sweep}
    (swept : sweepLoop region image.currAddr fuel state = .ok final) :
    final.heap.desc j = desc :=
  (sweepLoop_invariant swept past fun _ _ before more stepped =>
    before.step currBelow allocated more stepped).1.fixed

/-- A completed sweep passes every superblock up to the first odd one. -/
theorem Swept.reach
    {fuel count : Nat}
    {final : Sweep}
    (start : Swept region image marked j state)
    (swept : sweepLoop region image.currAddr fuel state = .ok final)
    (below :
      ∀ i, i < count → region.sbAddr (j + i) < image.currAddr)
    (small : ∀ i, i < count → SmallMarks region image marked (j + i)) :
    ∃ fuel' reached,
      Swept region image marked (j + count) reached ∧
        sweepLoop region image.currAddr fuel' reached = .ok final := by
  induction count with
  | zero => exact ⟨fuel, state, start, swept⟩
  | succ count inductionHypothesis =>
      obtain ⟨fuel', reached, sweptReached, rest⟩ :=
        inductionHypothesis (fun i early => below i (by omega))
          (fun i early => small i (by omega))
      have more : reached.currSb < image.currAddr := by
        rw [sweptReached.currSb]
        exact below count (by omega)
      obtain ⟨fuel'', next, stepped, later⟩ := sweepLoop_next rest more
      obtain ⟨next', stepped', sweptNext⟩ :=
        sweptReached.step currBelow allocated (small count (by omega))
      obtain rfl : next = next' :=
        Except.ok.inj (stepped.symm.trans stepped')
      exact ⟨fuel'', next, sweptNext, later⟩

/-- A whole superblock with a mark is linked as a free block. -/
theorem Swept.whole
    (swept : Swept region image marked j state)
    {addr : Nat}
    (isMarked : addr ∈ marked)
    (here : region.owner addr = j)
    (inUse : (image.desc j).heap = some nlist)
    (more : state.currSb < image.currAddr)
    (stepped : sweepStep region state = .ok next) :
    Past region image marked j
      { image.desc j with
        anchor := { avail := 0, count := 1, state := .sbPartial } }
      next := by
  have ok := Swept.persistentOk currBelow allocated isMarked here inUse
  have isDesc := swept.isDesc
  have isCurrent := swept.currDesc
  have startPositive := region.positive
  have running := swept.running currBelow (by rw [← swept.currSb]; exact more)
  have split :=
    running.split currBelow allocated
      (by rw [swept.currSb]; exact sbAddr_aligned region j)
  obtain ⟨first, rest, shape⟩ :=
    List.exists_cons_of_ne_nil (List.ne_nil_of_mem
      ((swept.mem_here currBelow allocated isMarked).mpr here))
  have firstHere :
      ∃ mark,
        mark ∈ state.marks.head? ∧
          state.currSb >>> sbShift = mark >>> sbShift := by
    refine ⟨first, ?_, ?_⟩
    · rw [split.marks, shape]
      rfl
    · rw [sameSb_iff (by rw [swept.currSb]; exact sbAddr_aligned region j)]
      exact split.inside first (shape ▸ List.mem_cons_self)
  obtain ⟨remaining, linked⟩ :=
    @sweepStep_whole region state (by rw [isDesc]; exact inUse)
      (by rw [isDesc, swept.currSb]; exact ok.superblock)
      (by rw [isDesc, ok.blockSize]; rfl)
      (by rw [isDesc, ok.maxcount]; rfl)
      (by rw [swept.currSb]; unfold SbRegion.sbAddr; omega) firstHere
  refine ⟨running.step currBelow allocated more stepped, ?_, ?_⟩
  all_goals
    obtain rfl := Except.ok.inj (stepped.symm.trans linked)
  · rw [← isCurrent]
    exact Nat.lt_succ_self _
  · change (rebuiltHeap nlist state [state.currSb]).desc j = _
    rw [rebuiltHeap_desc, isDesc, isCurrent, Function.update_self]
    unfold rebuiltAnchor
    simp only [List.getLast?_singleton, Nat.sub_self, Nat.zero_div,
      List.length_singleton]

/-- A superblock of class 0 with a mark is erased by the round after it. -/
theorem Swept.firstClass
    (swept : Swept region image marked j state)
    {addr fuel : Nat}
    {final : Sweep}
    (isMarked : addr ∈ marked)
    (here : region.owner addr = j)
    (inUse : (image.desc j).heap = some 0)
    (loop : sweepLoop region image.currAddr fuel state = .ok final) :
    final.heap.desc j = .blank := by
  have ok := Swept.persistentOk currBelow allocated isMarked here inUse
  have inside := ok.inside
  have aligned := sbAddr_aligned region j
  have bytes : blockBytes 0 = 8 := by
    decide
  have size := sbSize_eq
  have more : state.currSb < image.currAddr := by
    rw [swept.currSb]
    omega
  have isDesc := swept.isDesc
  have isCurrent := swept.currDesc
  have running := swept.running currBelow (by omega)
  obtain ⟨fuel', middle, stepped, rest⟩ := sweepLoop_next loop more
  have runningMiddle := running.step currBelow allocated more stepped
  obtain ⟨rebuild, taken, erased | skipped | ⟨sc, relinked⟩⟩ :=
    sweepStep_cases stepped
  · have past : Past region image marked j .blank middle := by
      refine ⟨runningMiddle, ?_, ?_⟩
      · rw [erased.currDesc, isCurrent]
        exact Nat.lt_succ_self _
      · rw [erased.heap, isCurrent]
        exact Function.update_self ..
    exact past.final currBelow allocated rest
  · have isSb : middle.currSb = region.sbAddr j + 8 := by
      rw [skipped.currSb, isDesc, swept.currSb, ok.blockSize, bytes]
    have sameIndex : middle.currDesc = j := by
      have userSpace := region.userSpace
      rw [skipped.currDesc, isSb]
      exact Heap.owner_of_inside (by omega) (by omega) (by omega)
    have moreMiddle : middle.currSb < image.currAddr := by
      omega
    have unmarked : sweepStep region middle = .ok middle.erase := by
      refine sweepStep_unmarked ?_
      intro mark isFirst same
      -- The marks that are left belong to later superblocks.
      have member := List.mem_of_head? isFirst
      rw [sweepMarks_rest running.sorted
          (fun other isMark => (running.marks other isMark).2) taken,
        List.mem_filter, decide_eq_true_eq, swept.currSb] at member
      have later := member.2
      rw [isSb] at same
      rw [size] at aligned
      simp only [Nat.shiftRight_eq_div_pow, sbShift] at same later
      omega
    obtain ⟨fuel'', after, erased, last⟩ := sweepLoop_next rest moreMiddle
    obtain rfl : after = middle.erase :=
      Except.ok.inj (erased.symm.trans unmarked)
    have past : Past region image marked j .blank middle.erase := by
      refine ⟨runningMiddle.step currBelow allocated moreMiddle erased, ?_, ?_⟩
      · rw [← sameIndex]
        exact Nat.lt_succ_self _
      · simp only [Sweep.erase, Heap.setDesc, sameIndex, Function.update_self]
    exact past.final currBelow allocated last
  · have otherClass := relinked.inUse
    rw [isDesc, inUse] at otherClass
    cases otherClass
    exact absurd rfl relinked.notFirst

/-- A marked block of class 0 or `NLIST` is not kept in the first such place. -/
theorem Swept.not_kept
    (swept : Swept region image marked j state)
    {addr sc fuel : Nat}
    {final : Sweep}
    (isMarked : addr ∈ marked)
    (here : region.owner addr = j)
    (inUse : (image.desc j).heap = some sc)
    (odd : sc = 0 ∨ sc = nlist)
    (loop : sweepLoop region image.currAddr fuel state = .ok final) :
    ¬ BlockKept region image final.heap final.availSb addr := by
  intro kept
  have ok := Swept.persistentOk currBelow allocated isMarked here inUse
  rcases odd with rfl | rfl
  · have sameHeap := kept.fields.heap
    rw [here, swept.firstClass currBelow allocated isMarked here inUse loop,
      inUse] at sameHeap
    cases sameHeap
  · have inside := ok.inside
    have more : state.currSb < image.currAddr := by
      rw [swept.currSb]
      exact Nat.lt_of_lt_of_le (Nat.lt_add_of_pos_right (by decide)) inside
    obtain ⟨fuel', next, stepped, rest⟩ := sweepLoop_next loop more
    have past := swept.whole currBelow allocated isMarked here inUse more stepped
    have isDesc := past.final currBelow allocated rest
    obtain ⟨-, -, ⟨i, counted, isBlock⟩, -, -⟩ :=
      (allocated addr isMarked).position currBelow
    rw [here] at counted isBlock
    have onlyOne : (image.desc j).maxcount = 1 := by
      rw [ok.maxcount]
      rfl
    obtain rfl : i = 0 := by
      omega
    apply kept.notChained
    rw [here]
    unfold freeChain
    rw [isDesc, isBlock]
    exact List.mem_cons_self

/-- A completed sweep that keeps all blocks has met small classes only. -/
theorem smallMarks_of_kept
    (currAbove : region.start + sbSize ≤ image.currAddr)
    {final : Sweep}
    (loop :
      sweepLoop region image.currAddr (sweepFuel region image)
        (sweepStart region image marked) = .ok final)
    (kept :
      ∀ addr,
        addr ∈ marked →
        BlockKept region image final.heap final.availSb addr)
    (k : Nat) :
    SmallMarks region image marked k := by
  induction k using Nat.strong_induction_on with
  | _ k earlier =>
      intro addr isMarked here
      obtain ⟨sc, ok, -⟩ := (allocated addr isMarked).position currBelow
      rw [here] at ok
      refine ⟨sc, ok.heap, ?_⟩
      by_contra odd
      have classLe := ok.classLe
      have indexPos := ok.indexPos
      have inside := ok.inside
      have size := sbSize_eq
      have below :
          ∀ i, i < k - 1 → region.sbAddr (1 + i) < image.currAddr := by
        intro i early
        have ordered : region.sbAddr (1 + i) + sbSize ≤ region.sbAddr k :=
          sbAddr_le region (by omega)
        omega
      obtain ⟨fuel', reached, sweptReached, rest⟩ :=
        (Swept.start currBelow allocated currAbove).reach currBelow allocated
          loop below fun i early => earlier (1 + i) (by omega)
      have isIndex : 1 + (k - 1) = k := by
        omega
      rw [isIndex] at sweptReached
      exact sweptReached.not_kept currBelow allocated isMarked here ok.heap
        (by omega) rest (kept addr isMarked)

end Tail

section Collections

variable {roots : List Nat} {result : Collected}

/-- The collection of a crash image completes. -/
theorem Recoverable.completes
    (recoverable : Recoverable region image roots) :
    ∃ result, collect region roots image = .ok result := by
  obtain ⟨marking, marked, isMarked⟩ := mark_spec region.start image roots
  obtain ⟨final, loop, consumed⟩ :=
    sweep_completes recoverable.currBelow fun addr member =>
      recoverable.allocated ((isMarked addr).mp member)
  exact ⟨_, collect_eq marked loop consumed⟩

/-- It keeps its blocks exactly if it has marked small classes only. -/
theorem Recoverable.preserved_iff_smallMarks
    (recoverable : Recoverable region image roots)
    (completed : collect region roots image = .ok result) :
    Preserved region image result ↔
      ∀ k, SmallMarks region image result.marked k := by
  obtain ⟨final, loop, -, sameHeap, sameAvail, isMarked⟩ :=
    collect_cases completed
  have allocated :
      ∀ addr,
        addr ∈ result.marked → AllocatedStart region image addr :=
    fun addr member => recoverable.allocated ((isMarked addr).mp member)
  unfold Preserved
  rw [sameHeap, sameAvail]
  constructor
  · exact smallMarks_of_kept recoverable.currBelow allocated
      recoverable.currAbove loop
  · exact sweep_keeps recoverable.currBelow allocated recoverable.currAbove
      loop

end Collections

/--
For every crash image whose roots and reachable pointers name allocated block
starts: the collection completes, and it keeps every marked block exactly when
no reachable block belongs to class 0 or is a whole superblock.
-/
theorem preserved_iff_small_classes
    {roots : List Nat}
    (recoverable : Recoverable region image roots) :
    ∃ result,
      collect region roots image = .ok result ∧
        (Preserved region image result ↔
          ∀ addr,
            Reachable region.start image roots addr →
            (image.desc (region.owner addr)).heap ≠ some 0 ∧
              (image.desc (region.owner addr)).heap ≠ some nlist) := by
  obtain ⟨result, completed⟩ := recoverable.completes
  obtain ⟨-, -, -, -, -, isMarked⟩ := collect_cases completed
  refine ⟨result, completed, ?_⟩
  rw [recoverable.preserved_iff_smallMarks completed]
  constructor
  · intro small addr reachable
    obtain ⟨sc, inUse, notFirst, notLast⟩ :=
      small _ addr ((isMarked addr).mpr reachable) rfl
    rw [inUse]
    simp only [ne_eq, Option.some.injEq]
    omega
  · rintro notOdd k addr member rfl
    have reachable := (isMarked addr).mp member
    obtain ⟨sc, ok, -⟩ :=
      (recoverable.allocated reachable).position recoverable.currBelow
    have classLe := ok.classLe
    have otherClass := notOdd addr reachable
    rw [ok.heap] at otherClass
    simp only [ne_eq, Option.some.injEq] at otherClass
    exact ⟨sc, ok.heap, by omega, by omega⟩

/-- Memory without pointers: only the root is reachable. -/
theorem recoverable_of_zero
    {root : Nat}
    (zero : image.memory = fun _ => 0)
    (currAbove : region.start + sbSize ≤ image.currAddr)
    (currBelow : image.currAddr ≤ region.limit)
    (allocated : AllocatedStart region image root) :
    Recoverable region image [root] := by
  refine ⟨currAbove, currBelow, ?_, ?_⟩
  · intro other isRoot
    rw [List.mem_singleton.mp isRoot.1]
    exact allocated
  · intro addr target _ edge
    obtain ⟨⟨i, -, isTarget⟩, nonzero, -⟩ := mem_targets.mp edge
    refine absurd ?_ nonzero
    rw [← isTarget, zero]
    exact readLink_zeros _

theorem exampleImage_recoverable :
    Recoverable Heap.exampleRegion exampleImage [0x20000] := by
  refine recoverable_of_zero rfl (by decide) (by decide)
    ⟨1, 159, ?_, 0, by decide, rfl⟩
  constructor <;> decide

/-- The only reachable address of the example image. -/
theorem exampleImage_reachable
    {addr : Nat}
    (reachable : Reachable 0x10000 exampleImage [0x20000] addr) :
    addr = 0x20000 := by
  cases reachable with
  | root isRoot => exact List.mem_singleton.mp isRoot.1
  | step _ edge =>
      obtain ⟨⟨i, -, isTarget⟩, nonzero, -⟩ := mem_targets.mp edge
      exact absurd (isTarget.symm.trans (readLink_zeros _)) nonzero

/-- A reachable block of 24 KiB survives. -/
theorem preserved_iff_small_classes_24KiB :
    ∃ result,
      collect Heap.exampleRegion [0x20000] exampleImage = .ok result ∧
        Preserved Heap.exampleRegion exampleImage result := by
  obtain ⟨result, completed, keeps⟩ :=
    preserved_iff_small_classes exampleImage_recoverable
  refine ⟨result, completed, keeps.mpr ?_⟩
  intro addr reachable
  rw [exampleImage_reachable reachable]
  decide

/-- The same image with a block that takes the whole superblock. -/
def wholeImage : Heap :=
  { exampleImage with
    desc := fun k =>
      if k = 1 then
        { anchor := { avail := 0, count := 0, state := .sbFull }
          superblock := 0x20000
          heap := some nlist
          blockSize := sbSize
          maxcount := 1 }
      else
        .blank }

theorem wholeImage_recoverable :
    Recoverable Heap.exampleRegion wholeImage [0x20000] := by
  refine recoverable_of_zero rfl (by decide) (by decide)
    ⟨1, nlist, ?_, 0, by decide, rfl⟩
  constructor <;> decide

/-- A reachable block that takes a whole superblock is not kept. -/
theorem whole_superblock_not_preserved :
    Recoverable Heap.exampleRegion wholeImage [0x20000] ∧
      ∃ result,
        collect Heap.exampleRegion [0x20000] wholeImage = .ok result ∧
          ¬ Preserved Heap.exampleRegion wholeImage result := by
  obtain ⟨result, completed⟩ := wholeImage_recoverable.completes
  refine ⟨wholeImage_recoverable, result, completed, ?_⟩
  rw [wholeImage_recoverable.preserved_iff_smallMarks completed]
  intro small
  obtain ⟨-, -, -, -, -, isMarked⟩ := collect_cases completed
  have reachable :
      Reachable 0x10000 wholeImage [0x20000] 0x20000 :=
    .root ⟨List.mem_cons_self, by decide, by decide⟩
  obtain ⟨sc, inUse, -, notLast⟩ :=
    small 1 0x20000 ((isMarked _).mpr reachable) (by decide)
  cases inUse
  exact absurd notLast (by decide)

end Gc

end Bxalloc
