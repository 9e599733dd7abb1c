import Bxalloc.Durable
import Mathlib.Data.List.Find

namespace Bxalloc

/-!
# When a returned block has a durable descriptor

A persisted line is either blank or carries the fields of the volatile
descriptor, in every state of every run.  The descriptor of a returned block is
therefore durable exactly when its line is not blank, and that depends on where
`do_malloc` takes the block from: a superblock taken from the queue or from an
expansion has a blank line, and only a split refill from a partial superblock
writes a line back.
-/

open Lib (Memory Reaches)

namespace Durable

variable {region : SbRegion}
variable {heap heap' : Heap}
variable {persisted : Nat → Descriptor}

/-- Every persisted line is blank or carries the volatile fields. -/
def Synced (heap : Heap) (persisted : Nat → Descriptor) : Prop :=
  ∀ k,
    (persisted k).heap = none ∨
      (persisted k).SamePersist (heap.desc k)

namespace Synced

/-- A line of a descriptor that is not in use is blank. -/
theorem blank
    (synced : Synced heap persisted)
    {k : Nat}
    (spare : (heap.desc k).heap = none) :
    (persisted k).heap = none := by
  rcases synced k with isBlank | same
  · exact isBlank
  · exact same.1.trans spare

/-- A heap with the same descriptors has the same lines. -/
theorem congr
    (synced : Synced heap persisted)
    (sameDesc : heap'.desc = heap.desc) :
    Synced heap' persisted := by
  intro k
  rw [sameDesc]
  exact synced k

/-- Constructing a descriptor erases its line. -/
theorem erase
    (synced : Synced heap persisted)
    (k : Nat) :
    Synced (heap.setDesc k .blank)
      (Function.update persisted k .blank) := by
  intro j
  by_cases same : j = k
  · subst same
    left
    rw [Function.update_self]
    rfl
  · simp only [Heap.setDesc, Function.update_of_ne same]
    exact synced j

/-- An anchor is not a persistent field. -/
theorem setAnchor
    (synced : Synced heap persisted)
    (k : Nat)
    (anchor : Anchor) :
    Synced (heap.setAnchor k anchor) persisted := by
  intro j
  by_cases same : j = k
  · subst same
    simp only [Heap.setAnchor, Heap.setDesc, Function.update_self]
    exact synced j
  · simp only [Heap.setAnchor, Heap.setDesc, Function.update_of_ne same]
    exact synced j

/-- Writing a descriptor back makes its line agree. -/
theorem writeBackAnchor
    (synced : Synced heap persisted)
    (k : Nat)
    (anchor : Anchor) :
    Synced (heap.setAnchor k anchor)
      (Function.update persisted k
        { heap.desc k with anchor := anchor }) := by
  intro j
  by_cases same : j = k
  · subst same
    right
    simp only [Heap.setAnchor, Heap.setDesc, Function.update_self]
    exact ⟨rfl, rfl, rfl, rfl⟩
  · rw [Function.update_of_ne same]
    simp only [Heap.setAnchor, Heap.setDesc, Function.update_of_ne same]
    exact synced j

/-- A spare descriptor is set up in the volatile image only. -/
theorem setUp
    (synced : Synced heap persisted)
    {k : Nat}
    (spare : (heap.desc k).heap = none)
    (desc : Descriptor) :
    Synced (heap.setDesc k desc) persisted := by
  intro j
  by_cases same : j = k
  · subst same
    exact Or.inl (synced.blank spare)
  · simp only [Heap.setDesc, Function.update_of_ne same]
    exact synced j

/-- The loop of `organize_sb_list` erases the lines it constructs. -/
theorem enqueueFrom
    (synced : Synced heap persisted)
    {k more : Nat}
    (accepted : BaseMeta.enqueueFrom k more heap = .ok heap') :
    Synced heap'
      (writeBack (BaseMeta.enqueueFromLines k more) persisted) := by
  induction more generalizing k heap persisted with
  | zero =>
      injection accepted with same
      subst same
      exact synced
  | succ more inductionHypothesis =>
      obtain ⟨middle, queued, rest⟩ := Heap.bind_ok accepted
      unfold BaseMeta.enqueueBlank at queued
      split at queued
      · cases queued
      · injection queued with same
        refine inductionHypothesis ?_ rest
        rw [← same]
        exact (synced.erase k).congr rfl

/-- `organize_sb_list` erases the lines it constructs. -/
theorem organizeSbList
    (synced : Synced heap persisted)
    {start count : Nat}
    (accepted :
      BaseMeta.organizeSbList region start count heap = .ok heap') :
    Synced heap'
      (writeBack (BaseMeta.organizeSbListLines region start count)
        persisted) := by
  have whole :
      BaseMeta.enqueueFrom (region.owner start) (count - 1 + 1) heap =
        .ok heap' :=
    accepted
  exact synced.enqueueFrom whole

/-- `small_sb_alloc` erases the lines it constructs. -/
theorem smallSbAlloc
    (synced : Synced heap persisted)
    {superblock : Nat}
    (accepted :
      BaseMeta.smallSbAlloc region heap = .ok (superblock, heap')) :
    Synced heap'
      (writeBack (BaseMeta.smallSbAllocLines region heap) persisted) := by
  cases shape : heap.queue with
  | cons k rest =>
      rw [Heap.smallSbAlloc_queued shape] at accepted
      injection accepted with same
      injection same with samePtr sameHeap
      rw [← sameHeap]
      unfold BaseMeta.smallSbAllocLines
      simp only [shape]
      exact synced.congr rfl
  | nil =>
      unfold BaseMeta.smallSbAlloc at accepted
      unfold BaseMeta.smallSbAllocLines
      simp only [shape] at accepted ⊢
      generalize sbRegionExpandSize / sbSize - 1 = count at accepted ⊢
      split at accepted
      · cases accepted
      · obtain ⟨middle, organized, last⟩ := Heap.bind_ok accepted
        injection last with same
        injection same with samePtr sameHeap
        rw [← sameHeap]
        simp only [writeBack_append, writeBack_cons, writeBack_nil]
        have expanded :
            Synced
              { heap with
                queue := []
                currAddr :=
                  Region.alignUp heap.currAddr pageSize +
                    sbRegionExpandSize }
              persisted :=
          synced.congr rfl
        exact (expanded.organizeSbList organized).erase _

/-- One round of `flush_cache` erases the line of a superblock it retires. -/
theorem flushRun
    (synced : Synced heap persisted)
    {thread sc : Nat}
    (accepted : BaseMeta.flushRun region thread sc heap = .ok heap') :
    Synced heap'
      (writeBack (BaseMeta.flushRunLines region thread sc heap)
        persisted) := by
  unfold BaseMeta.flushRun at accepted
  unfold BaseMeta.flushRunLines
  simp only at accepted ⊢
  split at accepted
  · next full =>
      rw [if_pos full]
      split at accepted
      · next empty =>
          rw [if_pos empty]
          injection accepted with same
          rw [← same]
          refine Synced.erase ?_ _
          exact (synced.setAnchor _ _).congr rfl
      · next notEmpty =>
          rw [if_neg notEmpty]
          unfold Heap.heapPushPartial at accepted
          split at accepted
          · cases accepted
          · injection accepted with same
            rw [← same]
            exact (synced.setAnchor _ _).congr rfl
  · next notFull =>
      rw [if_neg notFull]
      injection accepted with same
      rw [← same]
      exact (synced.setAnchor _ _).congr rfl

/-- The outer loop of `flush_cache` keeps the images in step. -/
theorem flushLoop
    (synced : Synced heap persisted)
    {thread sc fuel : Nat}
    (accepted : BaseMeta.flushLoop region thread sc fuel heap = .ok heap') :
    Synced heap'
      (writeBack (BaseMeta.flushLoopLines region thread sc fuel heap)
        persisted) := by
  induction fuel generalizing heap persisted with
  | zero =>
      injection accepted with same
      subst same
      exact synced
  | succ fuel inductionHypothesis =>
      unfold BaseMeta.flushLoop at accepted
      unfold BaseMeta.flushLoopLines
      split at accepted
      · next nonempty =>
          obtain ⟨middle, round, rest⟩ := Heap.bind_ok accepted
          rw [if_pos nonempty, round, writeBack_append]
          exact inductionHypothesis (synced.flushRun round) rest
      · next done =>
          rw [if_neg done]
          injection accepted with same
          subst same
          exact synced

/-- `public_flush_cache` keeps the images in step. -/
theorem flushClasses
    (synced : Synced heap persisted)
    {thread sc more : Nat}
    (accepted :
      BaseMeta.flushClasses region thread sc more heap = .ok heap') :
    Synced heap'
      (writeBack (BaseMeta.flushClassesLines region thread sc more heap)
        persisted) := by
  induction more generalizing sc heap persisted with
  | zero =>
      injection accepted with same
      subst same
      exact synced
  | succ more inductionHypothesis =>
      obtain ⟨middle, flushed, rest⟩ := Heap.bind_ok accepted
      unfold BaseMeta.flushClassesLines
      rw [flushed, writeBack_append]
      exact inductionHypothesis (synced.flushLoop flushed) rest

/-- `malloc_from_partial` keeps the images in step. -/
theorem mallocFromPartialLoop
    (synced : Synced heap persisted)
    {thread sc blockNum : Nat}
    {stack : List Nat}
    (accepted :
      BaseMeta.mallocFromPartialLoop region thread sc stack heap =
        .ok (blockNum, heap')) :
    Synced heap'
      (writeBack
        (BaseMeta.mallocFromPartialLoopLines region thread sc stack heap)
        persisted) := by
  induction stack generalizing heap persisted with
  | nil =>
      injection accepted with same
      injection same with sameNum sameHeap
      subst sameHeap
      exact synced
  | cons k rest inductionHypothesis =>
      unfold BaseMeta.mallocFromPartialLoop at accepted
      unfold BaseMeta.mallocFromPartialLoopLines
      simp only at accepted ⊢
      by_cases empty :
          ((heap.setPartial sc rest).desc k).anchor.state = .sbEmpty
      · rw [if_pos empty]
        simp only [empty, if_true, ite_self] at accepted
        rw [writeBack_append]
        refine inductionHypothesis ?_ accepted
        exact (synced.erase _).congr rfl
      · rw [if_neg empty]
        split at accepted
        · next all =>
            rw [if_pos all]
            split at accepted
            · cases accepted
            · injection accepted with same
              injection same with sameNum sameHeap
              rw [← sameHeap]
              exact (synced.setAnchor k _).congr rfl
        · next some =>
            rw [if_neg some]
            obtain ⟨pushed, listed, last⟩ := Heap.bind_ok accepted
            injection last with same
            injection same with sameNum sameHeap
            rw [← sameHeap]
            unfold Heap.heapPushPartial at listed
            split at listed
            · cases listed
            · injection listed with samePushed
              rw [← samePushed]
              exact (synced.writeBackAnchor k _).congr rfl

/-- `malloc_from_newsb` sets up a descriptor whose line stays blank. -/
theorem mallocFromNewsb
    (synced : Synced heap persisted)
    (inv : heap.Inv region)
    {thread sc blockNum : Nat}
    (valid : sc < nlist)
    (accepted :
      BaseMeta.mallocFromNewsb region thread sc heap =
        .ok (blockNum, heap')) :
    Synced heap'
        (writeBack (BaseMeta.smallSbAllocLines region heap) persisted) ∧
      (writeBack (BaseMeta.smallSbAllocLines region heap) persisted
        (region.owner (heap'.cache thread sc).list)).heap = none := by
  obtain ⟨k, middle, more, anchor, cache, memory, stack, allocated, delivered,
    taken, -, rfl⟩ := inv.mallocFromNewsb_cases valid accepted
  have middleSynced := synced.smallSbAlloc allocated
  have spare := delivered.stray.spare
  have sbOwner : region.owner (region.sbAddr k) = k := by
    apply Heap.owner_sbAddr
    exact delivered.inv.control.geometry.spare_below spare
  refine ⟨(middleSynced.setUp spare.blank _).congr rfl, ?_⟩
  rw [Heap.setCache_self, taken.listShape.1, sbOwner]
  exact middleSynced.blank spare.blank

/-- A whole superblock is set up and its line stays blank. -/
theorem mallocWholeSb
    (synced : Synced heap persisted)
    (inv : heap.Inv region)
    {size ptr : Nat}
    (accepted :
      BaseMeta.mallocWholeSb region size heap = .ok (ptr, heap')) :
    Synced heap'
        (writeBack (BaseMeta.smallSbAllocLines region heap) persisted) ∧
      (writeBack (BaseMeta.smallSbAllocLines region heap) persisted
        (region.owner ptr)).heap = none := by
  obtain ⟨middle, allocated, rfl⟩ := Heap.mallocWholeSb_cases accepted
  obtain ⟨k, rfl, delivered⟩ := inv.smallSbAlloc allocated
  have middleSynced := synced.smallSbAlloc allocated
  have spare := delivered.stray.spare
  have sbOwner : region.owner (region.sbAddr k) = k := by
    apply Heap.owner_sbAddr
    exact delivered.inv.control.geometry.spare_below spare
  rw [sbOwner]
  exact ⟨middleSynced.setUp spare.blank _, middleSynced.blank spare.blank⟩

end Synced

/-- The source of a refill is a partial superblock on top of the stack. -/
theorem partial_source_top
    (persisted : Nat → Descriptor)
    (inv : heap.Inv region)
    {thread sc blockNum k : Nat}
    {rest : List Nat}
    (shape : heap.partialList sc = k :: rest)
    (isPartial : (heap.desc k).anchor.state = .sbPartial)
    (accepted :
      BaseMeta.mallocFromPartialLoop region thread sc (k :: rest) heap =
        .ok (blockNum, heap')) :
    blockNum ≠ 0 ∧
      region.owner (heap'.cache thread sc).list = k ∧
      ((writeBack
          (BaseMeta.mallocFromPartialLoopLines region thread sc (k :: rest)
            heap) persisted k).heap ≠ none ↔
        (heap.cache thread sc).maxsize < (heap.desc k).anchor.count ∨
          (persisted k).heap ≠ none) := by
  obtain ⟨listed, -, -, -, valid⟩ := inv.control.top shape
  have geometry := inv.control.geometry
  have ok := geometry.descOk k sc listed.1
  have maxsizePos := inv.control.maxsizePos thread sc valid
  obtain ⟨positive, -, free⟩ := ok.partial_bounds listed.1 isPartial
  have anchorOk := ok.anchor
  rw [Heap.AnchorOk, isPartial] at anchorOk
  have startBlock :
      (heap.desc k).superblock +
          (heap.desc k).anchor.avail * (heap.desc k).blockSize ∈
        heap.blocks region k := by
    rw [Heap.mem_blocks, ok.superblock]
    exact ⟨_, anchorOk.2.2, rfl⟩
  have startOwner := geometry.owner_of_mem_blocks listed.1 startBlock
  simp only [BaseMeta.mallocFromPartialLoopLines, Heap.setPartial, isPartial,
    reduceCtorEq, if_false]
  by_cases all :
      (heap.desc k).anchor.count ≤ (heap.cache thread sc).maxsize
  · rw [Heap.mallocFromPartialLoop_all isPartial all] at accepted
    obtain ⟨rfl, rfl⟩ := Prod.mk.inj (Except.ok.inj accepted)
    rw [Heap.setCache_self]
    simp only [all, if_true]
    refine ⟨by omega, startOwner, ?_⟩
    simp only [writeBack_nil, Nat.not_lt.mpr all, false_or]
  · obtain ⟨more, maxShape⟩ := Nat.exists_eq_add_of_le' maxsizePos
    rw [inv.mallocFromPartialLoop_some shape isPartial maxShape (by omega)]
      at accepted
    obtain ⟨rfl, rfl⟩ := Prod.mk.inj (Except.ok.inj accepted)
    rw [Heap.setCache_self, (Heap.growMaxSize_list _ _ _).1]
    simp only [all, if_false]
    refine ⟨Nat.succ_ne_zero more, startOwner, ?_⟩
    simp only [writeBack_cons, writeBack_nil, Function.update_self, listed.1]
    simp only [ne_eq, reduceCtorEq, not_false_eq_true, true_iff]
    omega

/--
Where `malloc_from_partial` takes blocks from: the first descriptor on the
partial list that is not empty.  Its line is blank afterwards unless the refill
was split or the line was written back before.
-/
theorem partial_source
    (persisted : Nat → Descriptor)
    (inv : heap.Inv region)
    {thread sc blockNum : Nat}
    {stack : List Nat}
    (shape : heap.partialList sc = stack)
    (accepted :
      BaseMeta.mallocFromPartialLoop region thread sc stack heap =
        .ok (blockNum, heap')) :
    match stack.find? (fun k => (heap.desc k).anchor.state ≠ .sbEmpty) with
    | none => blockNum = 0
    | some k =>
        blockNum ≠ 0 ∧
          region.owner (heap'.cache thread sc).list = k ∧
          ((writeBack
              (BaseMeta.mallocFromPartialLoopLines region thread sc stack
                heap) persisted k).heap ≠ none ↔
            (heap.cache thread sc).maxsize < (heap.desc k).anchor.count ∨
              (persisted k).heap ≠ none) := by
  induction stack generalizing heap persisted with
  | nil =>
      injection accepted with same
      injection same with sameNum sameHeap
      exact sameNum.symm
  | cons k rest inductionHypothesis =>
      obtain ⟨listed, absent, -, -, -⟩ := inv.control.top shape
      rcases listed.2 with isPartial | isEmpty
      · have found :
            (k :: rest).find?
                (fun k => (heap.desc k).anchor.state ≠ .sbEmpty) =
              some k := by
          simp [isPartial]
        rw [found]
        exact partial_source_top persisted inv shape isPartial accepted
      · have found :
            (k :: rest).find?
                (fun k => (heap.desc k).anchor.state ≠ .sbEmpty) =
              rest.find?
                (fun k => (heap.desc k).anchor.state ≠ .sbEmpty) := by
          simp [isEmpty]
        have geometry := inv.control.geometry
        have sbOwner : region.owner (heap.desc k).superblock = k := by
          rw [(geometry.descOk k sc listed.1).superblock]
          exact Heap.owner_sbAddr (geometry.below listed.1)
        rw [inv.control.mallocFromPartialLoop_empty shape isEmpty] at accepted
        have later :=
          inductionHypothesis (Function.update persisted k .blank)
            (inv.retireTop shape isEmpty)
            (by simp [Heap.setPartial, Heap.setDesc]) accepted
        have others :
            ∀ j,
              j ∈ rest →
              ((heap.setPartial sc rest).setDesc k .blank).desc j =
                heap.desc j := by
          intro j member
          have distinct : j ≠ k := by
            rintro rfl
            exact absent member
          simp [Heap.setPartial, Heap.setDesc, distinct]
        rw [List.find?_congr (fun j member => by rw [others j member])]
          at later
        rw [found]
        cases source :
            rest.find? (fun k => (heap.desc k).anchor.state ≠ .sbEmpty) with
        | none =>
            rw [source] at later
            exact later
        | some j =>
            rw [source] at later
            simp only at later
            have member := List.mem_of_find?_eq_some source
            have distinct : j ≠ k := by
              rintro rfl
              exact absent member
            rw [others j member, Function.update_of_ne distinct] at later
            simp only [BaseMeta.mallocFromPartialLoopLines, Heap.setPartial,
              isEmpty, if_true, BaseMeta.smallSbRetire, sbOwner,
              BaseMeta.smallSbRetireLines]
            exact later

/--
`fill_cache` keeps the images in step, and the line of the block it puts first
is written back exactly when that block comes from a partial superblock whose
line was written back before or by a split refill.
-/
theorem Synced.fillCache
    (synced : Synced heap persisted)
    (inv : heap.Inv region)
    {thread sc blockNum : Nat}
    (valid : sc < nlist)
    (emptyList : (heap.cache thread sc).size = 0)
    (accepted :
      BaseMeta.fillCache region thread sc heap = .ok (blockNum, heap')) :
    Synced heap'
        (writeBack (BaseMeta.fillCacheLines region thread sc heap)
          persisted) ∧
      ((writeBack (BaseMeta.fillCacheLines region thread sc heap) persisted
          (region.owner (heap'.cache thread sc).list)).heap ≠ none ↔
        ∃ k,
          (heap.partialList sc).find?
              (fun k => (heap.desc k).anchor.state ≠ .sbEmpty) =
            some k ∧
            ((heap.cache thread sc).maxsize <
                (heap.desc k).anchor.count ∨
              (persisted k).heap ≠ none)) := by
  obtain ⟨taken, middle, fromPartial, refilled, -⟩ :=
    inv.mallocFromPartialLoop valid rfl emptyList
  have middleSynced := synced.mallocFromPartialLoop fromPartial
  have source := partial_source persisted inv rfl fromPartial
  rw [Heap.fillCache_of_loop fromPartial] at accepted
  unfold BaseMeta.fillCacheLines BaseMeta.mallocFromPartial
  rw [fromPartial]
  simp only [writeBack_append]
  cases first :
      (heap.partialList sc).find?
        (fun k => (heap.desc k).anchor.state ≠ .sbEmpty) with
  | none =>
      rw [first] at source
      simp only at source
      rw [if_pos source] at accepted ⊢
      obtain ⟨newSynced, blank⟩ :=
        middleSynced.mallocFromNewsb refilled.inv valid accepted
      refine ⟨newSynced, ?_⟩
      simp [blank]
  | some k =>
      rw [first] at source
      obtain ⟨something, owned, written⟩ := source
      rw [if_neg something] at accepted ⊢
      injection accepted with same
      injection same with sameNum sameHeap
      rw [← sameHeap, writeBack_nil]
      refine ⟨middleSynced, ?_⟩
      rw [owned, written]
      simp

/--
`do_malloc` keeps the images in step, and the line of the returned block is
written back exactly when the state before was prepared for the request.
-/
theorem Synced.doMalloc
    {state : Durable}
    (synced : Synced state.heap state.persisted)
    (inv : state.heap.Inv region)
    {thread size ptr : Nat}
    (accepted :
      BaseMeta.doMalloc region thread size state.heap = .ok (ptr, heap')) :
    Synced heap' (afterMalloc region state thread size heap').persisted ∧
      (((afterMalloc region state thread size heap').persisted
          (region.owner ptr)).heap ≠ none ↔
        Prepared region state thread size) := by
  unfold BaseMeta.doMalloc at accepted
  unfold afterMalloc BaseMeta.doMallocLines Prepared
  split at accepted
  · next large =>
      obtain ⟨newSynced, blank⟩ := synced.mallocWholeSb inv accepted
      simp only [large, if_true]
      refine ⟨newSynced, ?_⟩
      simp only [blank, ne_eq, not_true_eq_false, false_iff, not_and]
      omega
  · next small =>
      rw [if_neg small]
      split at accepted
      · cases accepted
      · next sc found =>
          obtain ⟨valid, -⟩ := ClassSize.sizeToIndex_sound found
          simp only [found, Nat.le_of_not_lt small, true_and,
            Option.some.injEq, exists_eq_left'] at accepted ⊢
          split at accepted
          · next emptyList =>
              simp only [emptyList, if_true]
              obtain ⟨⟨blockNum, filled⟩, fill, popping⟩ :=
                Heap.bind_ok accepted
              injection popping with same
              injection same with samePtr sameHeap
              rw [← sameHeap, ← samePtr]
              obtain ⟨newSynced, written⟩ :=
                synced.fillCache inv valid emptyList fill
              exact ⟨newSynced.congr rfl, written⟩
          · next nonempty =>
              simp only [nonempty, if_false]
              injection accepted with same
              injection same with samePtr sameHeap
              rw [← sameHeap, ← samePtr]
              exact ⟨synced.congr rfl, Iff.rfl⟩

/-- `do_free` keeps the images in step. -/
theorem Synced.doFree
    (synced : Synced heap persisted)
    {thread ptr : Nat}
    (accepted : BaseMeta.doFree region thread ptr heap = .ok heap') :
    Synced heap'
      (writeBack (BaseMeta.doFreeLines region thread ptr heap)
        persisted) := by
  unfold BaseMeta.doFree at accepted
  unfold BaseMeta.doFreeLines
  split at accepted
  · next isNull =>
      rw [if_pos isNull]
      injection accepted with same
      exact same ▸ synced
  · next notNull =>
      rw [if_neg notNull]
      split at accepted
      · cases accepted
      · cases used : (heap.desc (region.owner ptr)).heap with
        | none =>
            simp only [used] at accepted
            cases accepted
        | some sc =>
            simp only [used] at accepted ⊢
            split at accepted
            · next whole =>
                rw [if_pos whole]
                unfold BaseMeta.largeSbRetire at accepted
                split at accepted
                · cases accepted
                · exact synced.organizeSbList accepted
            · next small =>
                rw [if_neg small]
                split at accepted
                · next crowded =>
                    rw [if_pos crowded]
                    obtain ⟨middle, flushed, last⟩ := Heap.bind_ok accepted
                    injection last with same
                    rw [← same]
                    exact (synced.flushLoop flushed).congr rfl
                · next roomy =>
                    rw [if_neg roomy]
                    injection accepted with same
                    rw [← same]
                    exact synced.congr rfl

/-- What holds in every state of every run. -/
structure Inv (region : SbRegion) (state : Durable) : Prop where
  heap : state.heap.Inv region
  synced : Synced state.heap state.persisted

/-- One step keeps the invariant and the images in step. -/
theorem Step.inv
    {before after : Durable}
    {event : Event}
    (step : Step region before event after)
    (inv : Inv region before) :
    Inv region after := by
  cases step with
  | flushRegion =>
      exact ⟨inv.heap, fun k => Or.inr ⟨rfl, rfl, rfl, rfl⟩⟩
  | call step =>
      refine ⟨(step.inv inv.heap).1, ?_⟩
      cases step with
      | malloc positive fits returned =>
          exact (inv.synced.doMalloc inv.heap returned).1.congr rfl
      | free isLive returned =>
          exact (inv.synced.doFree returned).congr rfl
      | exit returned =>
          exact (inv.synced.flushClasses returned).congr rfl
      | store isLive lower upper =>
          exact inv.synced.congr rfl

/-- The invariant holds in every state of every run. -/
theorem Inv.of_reaches
    {state : Durable}
    (reached : Reaches (Initial region) (Step region) state) :
    Inv region state :=
  reached.invariant
    (fun _ fresh => ⟨fresh.1.inv.1, fun k => Or.inl (fresh.2 k)⟩)
    (fun _ _ _ inv step => step.inv inv)

/--
In every state of every run: the descriptor of the block a malloc returns is
durable at the return exactly when the state before was prepared for it.
-/
theorem durableAt_iff_prepared
    {state : Durable}
    (reached : Reaches (Initial region) (Step region) state)
    {thread size ptr : Nat}
    (returned :
      BaseMeta.doMalloc region thread size state.heap = .ok (ptr, heap')) :
    (afterMalloc region state thread size heap').DurableAt
        (region.owner ptr) ↔
      Prepared region state thread size := by
  have inv := Inv.of_reaches reached
  obtain ⟨synced, written⟩ := inv.synced.doMalloc inv.heap returned
  rw [← written]
  constructor
  · intro durable
    exact durable.1
  · intro recognised
    exact ⟨recognised, (synced _).resolve_left recognised⟩

/-- A constructed heap over a blank image is an initial state. -/
theorem initial_of_constructed
    {rest : List Nat}
    (made : heap.Constructed region rest) :
    Initial region { heap := heap, persisted := fun _ => .blank } :=
  ⟨made.fresh, fun _ => rfl⟩

/-- A malloc of 24 KiB takes the first block of a nonempty free list. -/
theorem doMalloc_cached
    (region : SbRegion)
    (nonempty : (heap.cache 0 159).size ≠ 0) :
    ∃ heap',
      BaseMeta.doMalloc region 0 24576 heap =
        .ok ((heap.cache 0 159).list, heap') := by
  have found :
      ClassSize.sizeToIndex (ClassSize.roundUp 24576) = some 159 := by
    decide +kernel
  unfold BaseMeta.doMalloc
  rw [if_neg (by decide), found]
  simp only [nonempty, if_false]
  exact ⟨_, rfl⟩

/-- One malloc and a flush of all descriptors leave a block in a free list. -/
theorem exists_flushed
    {rest : List Nat}
    (made : heap.Constructed region rest) :
    ∃ state,
      Reaches (Initial region) (Step region) state ∧
        state.persisted = state.heap.desc ∧
        (state.heap.cache 0 159).size ≠ 0 := by
  have malloc := Heap.Step.malloc (by decide) (by decide) made.doMalloc
  have reached :=
    ((Reaches.start (initial_of_constructed made)).next
      (Step.call malloc)).next Step.flushRegion
  refine ⟨_, reached, rfl, ?_⟩
  have listed := Heap.firstServed_cache region rest heap
  change ((Heap.firstServed region rest heap).cache 0 159).size ≠ 0
  rw [listed]
  exact Nat.one_ne_zero

/-- Once all lines are written back, cached blocks are durable. -/
theorem durableAt_iff_prepared_flushed :
    ∃ state ptr heap',
      Reaches (Initial Heap.exampleRegion) (Step Heap.exampleRegion) state ∧
        BaseMeta.doMalloc Heap.exampleRegion 0 24576 state.heap =
          .ok (ptr, heap') ∧
        (afterMalloc Heap.exampleRegion state 0 24576 heap').DurableAt
          (Heap.exampleRegion.owner ptr) := by
  obtain ⟨heap, fresh⟩ := Heap.exists_fresh Heap.exampleRegion_room
  obtain ⟨rest, made⟩ := fresh.constructed
  obtain ⟨state, reached, flushed, nonempty⟩ := exists_flushed made
  obtain ⟨heap', returned⟩ := doMalloc_cached Heap.exampleRegion nonempty
  refine ⟨state, _, heap', reached, returned, ?_⟩
  refine (durableAt_iff_prepared reached returned).mpr ?_
  refine ⟨by decide, 159, by decide +kernel, ?_⟩
  have inv := Inv.of_reaches reached
  have used := (inv.heap.cacheHead (Nat.pos_of_ne_zero nonempty)).1
  rw [if_neg nonempty, flushed, used]
  exact Option.some_ne_none _

/-- The first malloc of a run is not prepared. -/
theorem not_prepared_of_constructed
    {rest : List Nat}
    (made : heap.Constructed region rest) :
    ¬ Prepared region { heap := heap, persisted := fun _ => .blank } 0
        24576 := by
  rintro ⟨-, sc, found, source⟩
  have largest :
      ClassSize.sizeToIndex (ClassSize.roundUp 24576) = some 159 := by
    decide +kernel
  obtain rfl : sc = 159 := by
    rw [largest] at found
    exact (Option.some.inj found).symm
  simp [made.cache, made.partialList, Heap.largestClass.2.2] at source

/-- The first malloc of a run returns a block with a blank descriptor. -/
theorem first_malloc_not_durable :
    ∃ state heap',
      Reaches (Initial Heap.exampleRegion) (Step Heap.exampleRegion) state ∧
        BaseMeta.doMalloc Heap.exampleRegion 0 24576 state.heap =
          .ok (Heap.exampleRegion.sbAddr 1, heap') ∧
        ¬ (afterMalloc Heap.exampleRegion state 0 24576 heap').DurableAt
            (Heap.exampleRegion.owner (Heap.exampleRegion.sbAddr 1)) := by
  obtain ⟨heap, fresh⟩ := Heap.exists_fresh Heap.exampleRegion_room
  obtain ⟨rest, made⟩ := fresh.constructed
  let state : Durable := ⟨heap, fun _ => .blank⟩
  have synced : Synced state.heap state.persisted := fun _ => Or.inl rfl
  have returned :
      BaseMeta.doMalloc Heap.exampleRegion 0 24576 state.heap = _ :=
    made.doMalloc
  refine ⟨state, _, Reaches.start (initial_of_constructed made), returned,
    ?_⟩
  intro durable
  have written := (synced.doMalloc fresh.inv.1 returned).2
  exact not_prepared_of_constructed made (written.mp durable.1)

end Durable

end Bxalloc
