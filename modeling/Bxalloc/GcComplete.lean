import Bxalloc.GcImage

namespace Bxalloc

/-!
# The collection completes

Whatever classes the reachable blocks have, every round of the sweep succeeds.
Behind a superblock of class 0 the cursor is not at the start of a superblock,
and the rounds then take the marks without looking at them.
-/

open Lib (strides)

namespace Gc

variable
  {region : SbRegion}
  {image : Heap}
  {marked : Finset Nat}
  {state next : Sweep}

section OtherClasses

variable
  {desc : Descriptor}
  {currSb : Nat}
  {marks : List Nat}
  {rebuild : Rebuild}

/-- Away from the start of a superblock marks are taken without effect. -/
theorem sweepMarks_foreign
    (foreign : desc.superblock ≠ currSb) :
    ∃ rest, sweepMarks desc currSb marks rebuild = .ok (rest, rebuild) := by
  induction marks with
  | nil => exact ⟨[], rfl⟩
  | cons mark later inductionHypothesis =>
      have first : sweepMark desc currSb mark rebuild = .ok rebuild := by
        unfold sweepMark
        cases desc.heap with
        | none => rfl
        | some sc => exact if_pos foreign
      unfold sweepMarks
      split
      · rw [first, ok_bind]
        exact inductionHypothesis
      · exact ⟨_, rfl⟩

/-- The marks of a whole superblock leave the chain empty. -/
theorem sweepMarks_whole
    (inUse : desc.heap = some nlist)
    (ownSb : desc.superblock = currSb)
    (isOne : desc.maxcount = 1) :
    ∃ rest result,
      sweepMarks desc currSb marks rebuild = .ok (rest, result) ∧
        result.built = rebuild.built ∧
        result.last = rebuild.last ∧
        ((∃ mark, mark ∈ marks.head? ∧
            currSb >>> sbShift = mark >>> sbShift) ∨
          rebuild.anchor.state = .sbFull →
          result.anchor.state = .sbFull) := by
  induction marks generalizing rebuild with
  | nil =>
      refine ⟨[], rebuild, rfl, rfl, rfl, ?_⟩
      rintro (⟨mark, absent, -⟩ | full)
      · cases absent
      · exact full
  | cons mark later inductionHypothesis =>
      unfold sweepMarks
      split
      · unfold sweepMark
        simp only [inUse, ownSb, isOne, ne_eq, not_true_eq_false, if_false,
          if_true]
        rw [ok_bind]
        obtain ⟨rest, result, swept, sameBuilt, sameLast, full⟩ :=
          @inductionHypothesis
            { rebuild with
              anchor := { rebuild.anchor with state := .sbFull } }
        exact ⟨rest, result, swept, sameBuilt, sameLast,
          fun _ => full (.inr rfl)⟩
      · next notHere =>
          refine ⟨_, rebuild, rfl, rfl, rfl, ?_⟩
          rintro (⟨other, isFirst, here⟩ | full)
          · cases isFirst
            exact absurd here notHere
          · exact full

/-- The end of a round links a whole superblock as a free block. -/
theorem finishSmall_whole
    (inUse : desc.heap = some nlist)
    (isSize : desc.blockSize = sbSize)
    (isOne : desc.maxcount = 1)
    (isDesc : state.heap.desc state.currDesc = desc)
    (nonzero : 0 < state.currSb)
    (isBuilt : rebuild.built = ⟨0, 0, state.heap.memory⟩)
    (isLast : rebuild.last = state.currSb) :
    finishSmall desc rebuild state =
      .ok (rebuiltHeap nlist state [state.currSb]) := by
  have isEnd : blocksEnd desc state.currSb = state.currSb + sbSize := by
    unfold blocksEnd
    rw [isOne, isSize, Nat.one_mul]
  have oneBlock :
      strides sbSize state.currSb (state.currSb + sbSize) =
        [state.currSb] := by
    rw [Lib.strides_first (by decide) (Nat.lt_add_of_pos_right (by decide)),
      Lib.strides_empty (Nat.le_refl _)]
  have aligned :
      TopAligned (state.heap.desc state.currDesc) state.currSb
        [state.currSb] := by
    intro top isTop
    cases isTop
    change (state.currSb - state.currSb) % _ = 0
    rw [Nat.sub_self, Nat.zero_mod]
  rw [finishSmall_eq inUse (by rw [isSize]; decide)
      (by rw [isOne, isSize]; decide) isDesc,
    isEnd, isLast, isSize, oneBlock, isBuilt]
  refine (finishBuilt_ofBlocks ?_).1 aligned
  intro block member
  rw [List.mem_singleton.mp member]
  exact nonzero

/-- A round over a whole superblock with a mark. -/
theorem sweepStep_whole
    (inUse : (state.heap.desc state.currDesc).heap = some nlist)
    (ownSb : (state.heap.desc state.currDesc).superblock = state.currSb)
    (isSize : (state.heap.desc state.currDesc).blockSize = sbSize)
    (isOne : (state.heap.desc state.currDesc).maxcount = 1)
    (nonzero : 0 < state.currSb)
    (here :
      ∃ mark,
        mark ∈ state.marks.head? ∧
          state.currSb >>> sbShift = mark >>> sbShift) :
    ∃ rest,
      sweepStep region state =
        .ok (state.advance rest
          (rebuiltHeap nlist state [state.currSb])) := by
  obtain ⟨rest, rebuild, swept, sameBuilt, sameLast, full⟩ :=
    @sweepMarks_whole _ _ state.marks state.roundStart inUse ownSb isOne
  have isFull := full (.inl here)
  have sameMemory : rebuild.memory = state.heap.memory :=
    congrArg Built.memory sameBuilt
  have finished :=
    finishSmall_whole inUse isSize isOne rfl nonzero sameBuilt sameLast
  refine ⟨rest, ?_⟩
  unfold Sweep.roundStart at swept
  unfold sweepStep
  dsimp only
  rw [swept, ok_bind]
  simp only [isFull, inUse, reduceCtorEq, if_false, sameMemory, finished]
  rfl

end OtherClasses

/-- A sorted list is what lies before a limit and what lies behind it. -/
theorem filter_split
    {marks : List Nat}
    (sorted : marks.Pairwise (· < ·))
    (limit : Nat) :
    marks =
      (marks.filter fun mark => mark < limit) ++
        marks.filter fun mark => limit ≤ mark := by
  induction marks with
  | nil => rfl
  | cons mark rest inductionHypothesis =>
      obtain ⟨before, restSorted⟩ := List.pairwise_cons.mp sorted
      rcases Nat.lt_or_ge mark limit with below | behind
      · rw [List.filter_cons_of_pos (by simpa using below),
          List.filter_cons_of_neg (by simpa using below), List.cons_append,
          ← inductionHypothesis restSorted]
      · have noneBelow :
            (mark :: rest).filter (fun other => other < limit) = [] := by
          rw [List.filter_eq_nil_iff]
          intro other member
          rcases List.mem_cons.mp member with rfl | later
          · simpa using behind
          · have := before other later
            simp only [decide_eq_true_eq]
            omega
        have allBehind :
            (mark :: rest).filter (fun other => limit ≤ other) =
              mark :: rest := by
          rw [List.filter_eq_self]
          intro other member
          rcases List.mem_cons.mp member with rfl | later
          · simpa using behind
          · have := before other later
            simp only [decide_eq_true_eq]
            omega
        rw [noneBelow, allBehind, List.nil_append]

/-- What holds between rounds for all classes. -/
structure Running
    (region : SbRegion)
    (image : Heap)
    (marked : Finset Nat)
    (state : Sweep) : Prop where
  currDesc : state.currDesc = region.owner state.currSb
  lower : region.start ≤ state.currSb
  fields :
    ∀ k,
      state.currDesc ≤ k → SameFields (state.heap.desc k) (image.desc k)
  sorted : state.marks.Pairwise (· < ·)
  marks :
    ∀ mark,
      mark ∈ state.marks →
      mark ∈ marked ∧ state.currSb >>> sbShift ≤ mark >>> sbShift

/-- The marks in the current superblock and those behind it. -/
structure Split (state : Sweep) (here later : List Nat) : Prop where
  marks : state.marks = here ++ later
  sorted : here.Pairwise (· < ·)
  inside :
    ∀ mark,
      mark ∈ here → state.currSb ≤ mark ∧ mark < state.currSb + sbSize
  behind : ∀ mark, mark ∈ later → state.currSb + sbSize ≤ mark
  starts :
    ∀ mark, mark ∈ here → IsBlock (state.heap.desc state.currDesc) mark

/-- The marks in the current superblock. -/
def Sweep.here (state : Sweep) : List Nat :=
  state.marks.filter fun mark => mark < state.currSb + sbSize

/-- The marks behind the current superblock. -/
def Sweep.later (state : Sweep) : List Nat :=
  state.marks.filter fun mark => state.currSb + sbSize ≤ mark

section Rounds

variable
  (currBelow : image.currAddr ≤ region.limit)
  (allocated :
    ∀ addr, addr ∈ marked → AllocatedStart region image addr)

include currBelow allocated

/-- The descriptor of a superblock in which a mark is found. -/
theorem Running.persistentOk
    (running : Running region image marked state)
    {mark : Nat}
    (member : mark ∈ state.marks)
    (here : state.currSb >>> sbShift = mark >>> sbShift) :
    ∃ sc,
      PersistentOk region image state.currDesc sc ∧
        IsBlock (image.desc state.currDesc) mark := by
  have isMarked := (running.marks mark member).1
  obtain ⟨sc, ok, isBlock, -⟩ := (allocated mark isMarked).position currBelow
  have sameOwner : region.owner mark = state.currDesc := by
    rw [running.currDesc]
    unfold SbRegion.owner sbIndex
    rw [here]
  rw [sameOwner] at ok isBlock
  exact ⟨sc, ok, isBlock⟩

/-- Every round moves forward, by at most a superblock. -/
theorem Running.moved
    (running : Running region image marked state)
    (stepped : sweepStep region state = .ok next) :
    state.currSb < next.currSb ∧ next.currSb ≤ state.currSb + sbSize := by
  have size := sbSize_eq
  obtain ⟨rebuild, swept, erased | skipped | ⟨sc, relinked⟩⟩ :=
    sweepStep_cases stepped
  · have := erased.currSb
    omega
  · obtain ⟨mark, member, here⟩ := exists_mark_of_used swept skipped.used
    obtain ⟨sc, ok, -⟩ :=
      running.persistentOk currBelow allocated member here
    have sizes := ok.sizes
    have isNext := skipped.currSb
    rw [(running.fields _ (Nat.le_refl _)).blockSize] at isNext
    omega
  · have := relinked.currSb
    omega

/-- The descriptor index follows the cursor. -/
theorem Running.follows
    (running : Running region image marked state)
    (more : state.currSb < image.currAddr)
    (stepped : sweepStep region state = .ok next) :
    next.currDesc = region.owner next.currSb ∧
      state.currDesc ≤ next.currDesc := by
  have userSpace := region.userSpace
  have lower := running.lower
  have size := sbSize_eq
  obtain ⟨less, near⟩ := running.moved currBelow allocated stepped
  have ownState := @owner_eq_div region _ lower (by omega)
  have ownNext := @owner_eq_div region next.currSb (by omega) (by omega)
  have ordered : state.currSb / sbSize ≤ next.currSb / sbSize :=
    Nat.div_le_div_right (by omega)
  have isCurrent := running.currDesc
  have advance :
      next.currSb = state.currSb + sbSize →
      next.currDesc = state.currDesc + 1 →
      next.currDesc = region.owner next.currSb := by
    intro isNext isDesc
    rw [isNext, Nat.add_div_right _ (by decide)] at ownNext
    have base : region.start / sbSize ≤ state.currSb / sbSize :=
      Nat.div_le_div_right lower
    rw [isDesc, isCurrent, ownState, isNext, ownNext]
    omega
  obtain ⟨rebuild, -, erased | skipped | ⟨sc, relinked⟩⟩ :=
    sweepStep_cases stepped
  · exact ⟨advance erased.currSb erased.currDesc, by
      rw [erased.currDesc]
      omega⟩
  · refine ⟨skipped.currDesc, ?_⟩
    rw [skipped.currDesc, isCurrent, ownState, ownNext]
    exact Nat.sub_le_sub_right ordered _
  · exact ⟨advance relinked.currSb relinked.currDesc, by
      rw [relinked.currDesc]
      omega⟩

/-- Every round keeps what holds between rounds. -/
theorem Running.step
    (running : Running region image marked state)
    (more : state.currSb < image.currAddr)
    (stepped : sweepStep region state = .ok next) :
    Running region image marked next := by
  have userSpace := region.userSpace
  have lower := running.lower
  have size := sbSize_eq
  obtain ⟨less, near⟩ := running.moved currBelow allocated stepped
  obtain ⟨isOwner, ordered⟩ :=
    running.follows currBelow allocated more stepped
  obtain ⟨changed, isUpdate, -⟩ := sweepStep_desc stepped
  obtain ⟨rebuild, swept, cases⟩ := sweepStep_cases stepped
  have rest :=
    sweepMarks_rest running.sorted
      (fun mark member => (running.marks mark member).2) swept
  have nextShift :
      next.currSb >>> sbShift ≤ state.currSb >>> sbShift + 1 := by
    simp only [Nat.shiftRight_eq_div_pow, sbShift]
    omega
  refine ⟨isOwner, by omega, ?_, ?_, ?_⟩
  · intro k ahead
    have same := running.fields k (by omega)
    rcases eq_or_ne k state.currDesc with rfl | differs
    · -- The index stays only in a round that changes no more than the anchor.
      rcases cases with erased | skipped | ⟨sc, relinked⟩
      · have := erased.currDesc
        omega
      · rw [skipped.heap]
        simp only [Heap.setAnchor, Heap.setDesc, Function.update_self]
        exact ⟨same.heap, same.superblock, same.blockSize, same.maxcount⟩
      · have := relinked.currDesc
        omega
    · rw [isUpdate, Function.update_of_ne differs]
      exact same
  · rw [rest]
    exact running.sorted.filter _
  · intro mark member
    rw [rest, List.mem_filter, decide_eq_true_eq] at member
    exact ⟨(running.marks mark member.1).1, by omega⟩

/-- At the start of a superblock the marks in it come first. -/
theorem Running.split
    (running : Running region image marked state)
    (aligned : state.currSb % sbSize = 0) :
    Split state state.here state.later := by
  have inside :
      ∀ mark,
        mark ∈ state.here →
        mark ∈ state.marks ∧
          state.currSb ≤ mark ∧ mark < state.currSb + sbSize := by
    intro mark member
    unfold Sweep.here at member
    rw [List.mem_filter, decide_eq_true_eq] at member
    have ahead := (running.marks mark member.1).2
    have notLater : ¬ state.currSb >>> sbShift < mark >>> sbShift := by
      rw [laterSb_iff aligned]
      omega
    have same : state.currSb >>> sbShift = mark >>> sbShift := by
      omega
    exact ⟨member.1, (sameSb_iff aligned).mp same⟩
  refine ⟨filter_split running.sorted _, running.sorted.filter _,
    fun mark member => (inside mark member).2, ?_, ?_⟩
  · intro mark member
    unfold Sweep.later at member
    rw [List.mem_filter, decide_eq_true_eq] at member
    exact member.2
  · intro mark member
    obtain ⟨isMark, within⟩ := inside mark member
    obtain ⟨-, -, isBlock⟩ :=
      running.persistentOk currBelow allocated isMark
        ((sameSb_iff aligned).mpr within)
    exact (running.fields _ (Nat.le_refl _)).isBlock.mpr isBlock

/-- A superblock of a small class with a mark, as a round finds it. -/
theorem Running.atSuperblock
    (running : Running region image marked state)
    (atStart : state.currSb = region.sbAddr state.currDesc)
    {sc : Nat}
    (ok : PersistentOk region image state.currDesc sc)
    (notFirst : 0 < sc)
    (notLast : sc < nlist)
    (anyMark : state.here ≠ []) :
    AtSuperblock state sc state.here state.later := by
  have split :=
    running.split currBelow allocated
      (by rw [atStart]; exact sbAddr_aligned region _)
  refine ⟨?_, split.marks, anyMark, split.sorted, split.inside, split.behind⟩
  rw [atStart]
  exact ok.small (running.fields _ (Nat.le_refl _)) currBelow notFirst notLast

/-- A round at the start of a superblock with a mark succeeds. -/
theorem Running.complete_atStart
    (running : Running region image marked state)
    (atStart : state.currSb = region.sbAddr state.currDesc)
    {mark : Nat}
    (isFirst : mark ∈ state.marks.head?)
    (here : state.currSb >>> sbShift = mark >>> sbShift) :
    ∃ next, sweepStep region state = .ok next := by
  have isMark := List.mem_of_head? isFirst
  have same := running.fields _ (Nat.le_refl _)
  have aligned : state.currSb % sbSize = 0 := by
    rw [atStart]
    exact sbAddr_aligned region _
  obtain ⟨sc, ok, -⟩ := running.persistentOk currBelow allocated isMark here
  have split := running.split currBelow allocated aligned
  have anyMark : state.here ≠ [] := by
    refine List.ne_nil_of_mem (List.mem_filter.mpr ⟨isMark, ?_⟩)
    rw [decide_eq_true_eq]
    exact ((sameSb_iff aligned).mp here).2
  have inUse := same.heap.trans ok.heap
  have ownSb := same.superblock.trans ok.superblock
  rw [← atStart] at ownSb
  have classLe := ok.classLe
  rcases Nat.eq_zero_or_pos sc with rfl | notFirst
  · have holdsLink := ok.sizes.1
    obtain ⟨rebuild, swept, -, isPartial⟩ :=
      @sweepMarks_small _ _ 0 state.roundStart inUse ownSb (by decide)
        (by rw [same.blockSize]; omega) state.here state.later
        (fun other member =>
          (sameSb_iff aligned).mpr (split.inside other member))
        (fun other member within => by
          have := (sameSb_iff aligned).mp within
          have := split.behind other member
          omega)
    rw [← split.marks] at swept
    have used := isPartial (.inl anyMark)
    exact exists_sweepStep_skipped swept (by rw [used]; decide) inUse
  · rcases Nat.lt_or_eq_of_le classLe with notLast | rfl
    · have atSb :=
        running.atSuperblock currBelow allocated atStart ok notFirst notLast
          anyMark
      exact ⟨_, atSb.sweepStep_ok (atSb.topAligned split.starts)⟩
    · have startPositive := region.positive
      obtain ⟨rest, stepped⟩ :=
        @sweepStep_whole region state inUse ownSb
          (by rw [same.blockSize, ok.blockSize]; rfl)
          (by rw [same.maxcount, ok.maxcount]; rfl)
          (by rw [atStart]; unfold SbRegion.sbAddr; omega)
          ⟨mark, isFirst, here⟩
      exact ⟨_, stepped⟩

/-- Every round succeeds. -/
theorem Running.complete
    (running : Running region image marked state) :
    ∃ next, sweepStep region state = .ok next := by
  by_cases marked :
      ∃ mark,
        mark ∈ state.marks.head? ∧
          state.currSb >>> sbShift = mark >>> sbShift
  · obtain ⟨mark, isFirst, here⟩ := marked
    by_cases atStart : state.currSb = region.sbAddr state.currDesc
    · exact running.complete_atStart currBelow allocated atStart isFirst here
    · obtain ⟨sc, ok, -⟩ :=
        running.persistentOk currBelow allocated (List.mem_of_head? isFirst)
          here
      have foreign :
          (state.heap.desc state.currDesc).superblock ≠ state.currSb := by
        rw [(running.fields _ (Nat.le_refl _)).superblock, ok.superblock]
        exact Ne.symm atStart
      obtain ⟨rest, swept⟩ := sweepMarks_foreign foreign
      exact exists_sweepStep_erased swept rfl
  · exact ⟨_, sweepStep_unmarked fun mark isFirst here =>
      marked ⟨mark, isFirst, here⟩⟩

/-- Behind `curr_addr` no mark is left. -/
theorem Running.consumed
    (running : Running region image marked state)
    (ended : image.currAddr ≤ state.currSb) :
    state.marks = [] := by
  apply List.eq_nil_iff_forall_not_mem.mpr
  intro mark member
  obtain ⟨isMarked, ahead⟩ := running.marks mark member
  obtain ⟨sc, ok, -, -, upper⟩ :=
    (allocated mark isMarked).position currBelow
  have aligned := sbAddr_aligned region (region.owner mark)
  have holdsLink := ok.sizes.1
  have inside := ok.inside
  have size := sbSize_eq
  rw [size] at aligned
  simp only [Nat.shiftRight_eq_div_pow, sbShift] at ahead
  omega

/-- The start of the sweep, with all marks ahead. -/
theorem Running.start :
    Running region image marked (sweepStart region image marked) := by
  refine ⟨rfl, Nat.le_add_right _ _, fun _ _ => ⟨rfl, rfl, rfl, rfl⟩,
    (Finset.sortedLT_sort marked).pairwise, ?_⟩
  intro mark member
  have isMarked : mark ∈ marked := (marked.mem_sort _).mp member
  refine ⟨isMarked, ?_⟩
  obtain ⟨sc, ok, -, lower, -⟩ :=
    (allocated mark isMarked).position currBelow
  have first := sbAddr_le region ok.indexPos
  have isStart : region.sbAddr 0 = region.start := by
    unfold SbRegion.sbAddr
    rw [Nat.zero_mul, Nat.add_zero]
  change (region.start + sbSize) >>> sbShift ≤ mark >>> sbShift
  simp only [Nat.shiftRight_eq_div_pow, sbShift]
  omega

/-- The sweep ends, with all marks taken. -/
theorem sweep_completes :
    ∃ final,
      sweepLoop region image.currAddr (sweepFuel region image)
          (sweepStart region image marked) = .ok final ∧
        final.marks = [] := by
  obtain ⟨final, swept, running, ended⟩ :=
    @sweepLoop_total region _ _ _ (Running region image marked)
      (Running.start currBelow allocated)
      (sweepFuel_enough region image marked)
      (by
        intro before running more
        obtain ⟨after, stepped⟩ := running.complete currBelow allocated
        exact ⟨after, stepped,
          (running.moved currBelow allocated stepped).1,
          running.step currBelow allocated more stepped⟩)
  exact ⟨final, swept, running.consumed currBelow allocated ended⟩

end Rounds

end Gc

end Bxalloc
