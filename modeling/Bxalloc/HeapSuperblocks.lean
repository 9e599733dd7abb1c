import Bxalloc.HeapMoves

namespace Bxalloc

/-!
# Superblocks entering and leaving use

A spare superblock becomes a small superblock with all its blocks free, or a
single block of its own size.  The lemmas about `Control` say how replacing one
descriptor and one partial list keeps the metadata invariant; the specification
of `small_sb_alloc` says that it always delivers a spare superblock that is no
longer queued.
-/

open Lib

namespace Heap

variable {region : SbRegion} {heap heap' : Heap}

/-- A sequence of two calls succeeds when both do. -/
theorem bind_ok
    {Error Value Result : Type}
    {first : Except Error Value}
    {second : Value → Except Error Result}
    {result : Result}
    (accepted : first >>= second = .ok result) :
    ∃ value, first = .ok value ∧ second value = .ok result := by
  cases first with
  | error fault => cases accepted
  | ok value => exact ⟨value, rfl, accepted⟩

/-- Being spare only looks at descriptors and `curr_addr`. -/
theorem Spare.congr
    {k : Nat}
    (spare : Spare region heap k)
    (sameDesc : heap'.desc = heap.desc)
    (sameCurr : heap'.currAddr = heap.currAddr) :
    Spare region heap' k where
  blank := by
    rw [sameDesc]
    exact spare.blank
  indexPos := spare.indexPos
  inside := by
    rw [sameCurr]
    exact spare.inside

/-- A descriptor belongs to one heap only. -/
theorem only_heap
    {k sc sc' : Nat}
    (used : (heap.desc k).heap = some sc)
    (alsoUsed : (heap.desc k).heap = some sc') :
    sc' = sc := by
  rw [used] at alsoUsed
  exact (Option.some.inj alsoUsed).symm

/-- Superblocks in use are not queued. -/
theorem Control.not_queued
    (control : Control region heap)
    {k sc : Nat}
    (used : (heap.desc k).heap = some sc) :
    k ∉ heap.queue := by
  intro queued
  have blank := (control.queueSpare k queued).blank
  rw [used] at blank
  cases blank

/-- A proper descriptor for one superblock keeps the geometry. -/
theorem Geometry.setDesc
    (geometry : Geometry region heap)
    {k : Nat}
    {desc : Descriptor}
    (ok :
      ∀ sc,
        desc.heap = some sc →
        DescOk region heap.currAddr k desc sc) :
    Geometry region (heap.setDesc k desc) where
  descOk := by
    intro j sc used
    simp only [Heap.setDesc, Function.update_apply] at used ⊢
    by_cases same : j = k
    · subst same
      simp only [if_true] at used ⊢
      exact ok sc used
    · simp only [same, if_false] at used ⊢
      exact geometry.descOk j sc used
  currAligned := geometry.currAligned
  currAbove := geometry.currAbove
  currBelow := geometry.currBelow

/-- A proper anchor keeps a descriptor proper. -/
theorem DescOk.setAnchor
    {currAddr k sc : Nat}
    {desc : Descriptor}
    (ok : DescOk region currAddr k desc sc)
    {anchor : Anchor}
    (anchorOk : AnchorOk anchor desc.maxcount) :
    DescOk region currAddr k { desc with anchor := anchor } sc :=
  ⟨ok.classLe, ok.indexPos, ok.inside, ok.superblock, ok.blockSize,
    ok.maxcount, anchorOk⟩

/-- A proper anchor keeps the geometry. -/
theorem Geometry.setAnchor
    (geometry : Geometry region heap)
    {k : Nat}
    {anchor : Anchor}
    (ok : AnchorOk anchor (heap.desc k).maxcount) :
    Geometry region (heap.setAnchor k anchor) :=
  geometry.setDesc fun sc used =>
    (geometry.descOk k sc used).setAnchor ok

/-- Replace one descriptor and the partial list of its only heap. -/
theorem Control.replace
    (control : Control region heap)
    {k sc : Nat}
    {desc : Descriptor}
    {stack : List Nat}
    (oldHeap : ∀ sc', (heap.desc k).heap = some sc' → sc' = sc)
    (newHeap : ∀ sc', desc.heap = some sc' → sc' = sc)
    (ok : desc.heap = some sc → DescOk region heap.currAddr k desc sc)
    (whole : desc.heap = some nlist → desc.anchor.state = .sbFull)
    (notQueued : desc.heap ≠ none → k ∉ heap.queue)
    (stackNodup : stack.Nodup)
    (stackOther :
      ∀ j, j ≠ k → (j ∈ stack ↔ j ∈ heap.partialList sc))
    (stackSelf : k ∈ stack ↔ Listed desc sc) :
    Control region ((heap.setDesc k desc).setPartial sc stack) where
  geometry := by
    refine (control.geometry.setDesc ?_).congr rfl rfl
    intro sc' used
    obtain rfl := newHeap sc' used
    exact ok used
  wholeFull j used := by
    simp only [setPartial, setDesc, Function.update_apply] at used ⊢
    by_cases same : j = k
    · simp only [same, if_true] at used ⊢
      exact whole used
    · simp only [same, if_false] at used ⊢
      exact control.wholeFull j used
  partialNodup sc' := by
    simp only [setPartial, setDesc, Function.update_apply]
    by_cases same : sc' = sc
    · simpa only [same, if_true] using stackNodup
    · simpa only [same, if_false] using control.partialNodup sc'
  partialMem sc' j := by
    simp only [setPartial, setDesc, Function.update_apply]
    by_cases sameHeap : sc' = sc
    · subst sameHeap
      simp only [if_true]
      by_cases same : j = k
      · simpa only [same, if_true] using stackSelf
      · simp only [same, if_false]
        rw [stackOther j same]
        exact control.partialMem sc' j
    · simp only [sameHeap, if_false]
      by_cases same : j = k
      · subst same
        simp only [if_true]
        constructor
        · intro member
          exact absurd
            (oldHeap sc' ((control.partialMem sc' j).mp member).1) sameHeap
        · intro listed
          exact absurd (newHeap sc' listed.1) sameHeap
      · simp only [same, if_false]
        exact control.partialMem sc' j
  queueNodup := control.queueNodup
  queueSpare j member := by
    have spare := control.queueSpare j member
    refine ⟨?_, spare.indexPos, spare.inside⟩
    simp only [setPartial, setDesc, Function.update_apply]
    by_cases same : j = k
    · subst same
      simp only [if_true]
      by_contra inUse
      exact notQueued inUse member
    · simpa only [same, if_false] using spare.blank
  maxsizePos := control.maxsizePos

/-- Replacing a partial list by itself changes nothing. -/
theorem setPartial_self
    (heap : Heap)
    (k sc : Nat)
    (desc : Descriptor) :
    (heap.setDesc k desc).setPartial sc (heap.partialList sc) =
      heap.setDesc k desc := by
  simp [setPartial, setDesc, Function.update_eq_self]

/-- Replace one descriptor without touching any partial list. -/
theorem Control.replaceDesc
    (control : Control region heap)
    {k sc : Nat}
    {desc : Descriptor}
    (oldHeap : ∀ sc', (heap.desc k).heap = some sc' → sc' = sc)
    (newHeap : ∀ sc', desc.heap = some sc' → sc' = sc)
    (ok : desc.heap = some sc → DescOk region heap.currAddr k desc sc)
    (whole : desc.heap = some nlist → desc.anchor.state = .sbFull)
    (notQueued : desc.heap ≠ none → k ∉ heap.queue)
    (sameListed : Listed (heap.desc k) sc ↔ Listed desc sc) :
    Control region (heap.setDesc k desc) := by
  have replaced :=
    control.replace oldHeap newHeap ok whole notQueued
      (control.partialNodup sc) (fun _ _ => Iff.rfl)
      ((control.partialMem sc k).trans sameListed)
  rwa [setPartial_self] at replaced

/-- Queue a spare superblock. -/
theorem Control.enqueue
    (control : Control region heap)
    {k : Nat}
    (spare : Spare region heap k)
    (fresh : k ∉ heap.queue) :
    Control region { heap with queue := heap.queue ++ [k] } where
  geometry := control.geometry.congr rfl rfl
  wholeFull := control.wholeFull
  partialNodup := control.partialNodup
  partialMem := control.partialMem
  queueNodup := by
    refine List.nodup_append'.mpr
      ⟨control.queueNodup, List.nodup_singleton k, ?_⟩
    intro j queued isLast
    rw [List.mem_singleton.mp isLast] at queued
    exact fresh queued
  queueSpare j member := by
    rcases List.mem_append.mp member with queued | isLast
    · exact (control.queueSpare j queued).congr rfl rfl
    · rw [List.mem_singleton.mp isLast]
      exact spare.congr rfl rfl
  maxsizePos := control.maxsizePos

/-- Erasing an already blank descriptor changes no place. -/
theorem Placement.setBlank
    (placement : Placement region heap)
    {k : Nat}
    (blank : (heap.desc k).heap = none) :
    Placement region (heap.setDesc k .blank) := by
  have sameHeap :
      ∀ j, ((heap.setDesc k .blank).desc j).heap = (heap.desc j).heap := by
    intro j
    simp only [setDesc, Function.update_apply]
    by_cases same : j = k
    · simp [same, blank, Descriptor.blank]
    · simp [same]
  have sameContent :
      ∀ place,
        (heap.setDesc k .blank).content place = heap.content place := by
    intro place
    by_cases isChain : place = .chain k
    · subst isChain
      change (heap.setDesc k .blank).freeChain k = heap.freeChain k
      rw [freeChain_of_blank blank,
        freeChain_of_blank ((sameHeap k).trans blank)]
    · exact content_setDesc_other heap _ isChain
  refine ⟨?_, ?_⟩
  · refine (placement.splits.congr_content sameContent).congr_member ?_
    intro block
    have used :
        ∀ j,
          (heap.desc j).heap ≠ none →
          (heap.setDesc k .blank).desc j = heap.desc j := by
      intro j inUse
      have distinct : j ≠ k := fun same => inUse (same ▸ blank)
      simp [setDesc, distinct]
    constructor
    · rintro ⟨j, inUse, member⟩
      rw [sameHeap j] at inUse
      unfold blocks at member
      rw [used j inUse] at member
      exact ⟨j, inUse, member⟩
    · rintro ⟨j, inUse, member⟩
      refine ⟨j, by rwa [sameHeap j], ?_⟩
      unfold blocks
      rw [used j inUse]
      exact member
  · intro place block occurs
    rw [sameContent place] at occurs
    have old := placement.fits place block occurs
    cases place with
    | chain j => exact old
    | cache thread sc => exact (sameHeap _).trans old
    | live => trivial

/-- The blocks of a superblock are pairwise distinct. -/
theorem DescOk.blocks_nodup
    {currAddr k sc : Nat}
    (ok : DescOk region currAddr k (heap.desc k) sc) :
    (heap.blocks region k).Nodup := by
  have large := ok.sizes.1
  unfold blocks
  refine List.Nodup.map_on ?_ List.nodup_range
  intro first _ second _ same
  have product :
      first * (heap.desc k).blockSize = second * (heap.desc k).blockSize := by
    omega
  exact Nat.eq_of_mul_eq_mul_right (by omega) product

/-- Blocks exist exactly where they did before, or in the new superblock. -/
theorem isBlock_setDesc_iff
    {k : Nat}
    {desc : Descriptor}
    (blank : (heap.desc k).heap = none)
    (inUse : desc.heap ≠ none)
    (block : Nat) :
    (heap.setDesc k desc).IsBlock region block ↔
      block ∈ (heap.setDesc k desc).blocks region k ∨
        heap.IsBlock region block := by
  have here : (heap.setDesc k desc).desc k = desc := by
    simp [setDesc]
  have there :
      ∀ j, j ≠ k → (heap.setDesc k desc).desc j = heap.desc j := by
    intro j distinct
    simp [setDesc, distinct]
  constructor
  · rintro ⟨j, used, member⟩
    by_cases same : j = k
    · rw [same] at member
      exact Or.inl member
    · right
      unfold blocks at member
      rw [there j same] at used member
      exact ⟨j, used, member⟩
  · rintro (member | ⟨j, used, member⟩)
    · exact ⟨k, by rwa [here], member⟩
    · have distinct : j ≠ k := fun same => used (same ▸ blank)
      refine ⟨j, by rwa [there j distinct], ?_⟩
      unfold blocks
      rw [there j distinct]
      exact member

/-- No block of another superblock lies among the blocks of a spare one. -/
theorem Geometry.spare_fresh
    (geometry : Geometry region heap)
    {k sc : Nat}
    {desc : Descriptor}
    (blank : (heap.desc k).heap = none)
    (ok : DescOk region heap.currAddr k desc sc)
    {block : Nat}
    (member : block ∈ (heap.setDesc k desc).blocks region k) :
    region.owner block = k ∧ ¬ heap.IsBlock region block := by
  have here : (heap.setDesc k desc).desc k = desc := by
    simp [Heap.setDesc]
  obtain ⟨index, early, shape⟩ := mem_blocks.mp member
  rw [here] at early shape
  have inside := ok.block_inside early
  have large := ok.sizes.1
  have low : region.sbAddr k + sbSize ≤ 2 ^ 47 :=
    Nat.le_trans ok.inside
      (Nat.le_trans geometry.currBelow region.userSpace)
  have owned : region.owner block = k := by
    apply owner_of_inside low
    · omega
    · omega
  refine ⟨owned, ?_⟩
  intro isBlock
  obtain ⟨sc', index', used, -, -⟩ := geometry.isBlock_cases isBlock
  rw [owned, blank] at used
  cases used

/-- Put a spare superblock into use with all its blocks on its free chain. -/
theorem Placement.install
    (geometry : Geometry region heap)
    (placement : Placement region heap)
    {k sc : Nat}
    {desc : Descriptor}
    {memory : Memory}
    (blank : (heap.desc k).heap = none)
    (used : desc.heap = some sc)
    (ok : DescOk region heap.currAddr k desc sc)
    (allFree : freeCount desc = desc.maxcount)
    (firstAvail : desc.anchor.avail = 0)
    (linked :
      ∀ index,
        index + 1 < desc.maxcount →
        readLink memory (region.sbAddr k + index * desc.blockSize) =
          region.sbAddr k + (index + 1) * desc.blockSize)
    (sameLinks :
      ∀ block,
        heap.IsBlock region block →
        readLink memory block = readLink heap.memory block) :
    Placement region { heap.setDesc k desc with memory := memory } := by
  let final : Heap := { heap.setDesc k desc with memory := memory }
  have here : final.desc k = desc := by
    simp [final, setDesc]
  have there : ∀ j, j ≠ k → final.desc j = heap.desc j := by
    intro j distinct
    simp [final, setDesc, distinct]
  have reached :
      ∀ index,
        index < desc.maxcount →
        (readLink memory)^[index] (region.sbAddr k) =
          region.sbAddr k + index * desc.blockSize := by
    intro index
    induction index with
    | zero => simp
    | succ index inductionHypothesis =>
        intro early
        rw [Function.iterate_succ_apply',
          inductionHypothesis (by omega), linked index early]
  have chain : final.freeChain k = final.blocks region k := by
    unfold freeChain blocks
    rw [here, allFree, firstAvail, ok.superblock, Nat.zero_mul, Nat.add_zero,
      ← List.range_map_iterate]
    apply List.map_congr_left
    intro index inRange
    exact reached index (List.mem_range.mp inRange)
  have others :
      ∀ place,
        place ≠ .chain k →
        final.content place = heap.content place := by
    intro place notChain
    let relinked : Heap := { heap with memory := memory }
    have shape : final = relinked.setDesc k desc := rfl
    rw [shape, content_setDesc_other _ _ notChain]
    cases place with
    | chain j =>
        exact LinkWalk.iterate_congr_of_mem fun node member =>
          sameLinks node (placement.isBlock (.chain j) member)
    | cache thread sc' =>
        exact LinkWalk.iterate_congr_of_mem fun node member =>
          sameLinks node (placement.isBlock (.cache thread sc') member)
    | live => rfl
  have inUse : desc.heap ≠ none := by
    simp [used]
  have okHere :
      DescOk region heap.currAddr k ((heap.setDesc k desc).desc k) sc := by
    simpa [setDesc] using ok
  refine ⟨?_, ?_⟩
  · refine placement.splits.add (.chain k) okHere.blocks_nodup ?_ ?_ others
      (isBlock_setDesc_iff blank inUse)
    · intro block member
      exact (geometry.spare_fresh blank ok member).2
    · change (final.freeChain k).Perm (_ ++ heap.freeChain k)
      rw [chain, freeChain_of_blank blank, List.append_nil]
      exact List.Perm.refl _
  · intro place block occurs
    by_cases isChain : place = .chain k
    · subst isChain
      change block ∈ final.freeChain k at occurs
      rw [chain] at occurs
      exact (geometry.spare_fresh blank ok occurs).1
    · change block ∈ final.content place at occurs
      rw [others place isChain] at occurs
      have old := placement.fits place block occurs
      cases place with
      | chain j => exact old
      | cache thread sc' =>
          have distinct : region.owner block ≠ k := by
            intro same
            change (heap.desc (region.owner block)).heap = some sc' at old
            rw [same, blank] at old
            cases old
          change (final.desc (region.owner block)).heap = some sc'
          rw [there _ distinct]
          exact old
      | live => trivial

/-- Hand a spare superblock out whole. -/
theorem Placement.installWhole
    (geometry : Geometry region heap)
    (placement : Placement region heap)
    {k : Nat}
    {desc : Descriptor}
    (blank : (heap.desc k).heap = none)
    (used : desc.heap = some nlist)
    (ok : DescOk region heap.currAddr k desc nlist)
    (full : desc.anchor.state = .sbFull) :
    Placement region
      { heap.setDesc k desc with
        live := region.sbAddr k :: heap.live } := by
  have here : (heap.setDesc k desc).desc k = desc := by
    simp [setDesc]
  have single : (heap.setDesc k desc).blocks region k = [region.sbAddr k] := by
    have one : desc.maxcount = 1 := by
      rw [ok.maxcount]
      rfl
    simp [blocks, here, one]
  have noFree : freeCount desc = 0 := by
    have anchor := ok.anchor
    rw [AnchorOk, full] at anchor
    simp [freeCount, full, anchor.1]
  have chains :
      ∀ j, (heap.setDesc k desc).freeChain j = heap.freeChain j := by
    intro j
    by_cases same : j = k
    · subst same
      rw [freeChain_of_blank blank]
      unfold freeChain
      rw [here, noFree]
      rfl
    · have other : Place.chain j ≠ .chain k := by
        simpa using same
      exact content_setDesc_other heap desc other
  have inUse : desc.heap ≠ none := by
    simp [used]
  have okHere :
      DescOk region heap.currAddr k ((heap.setDesc k desc).desc k) nlist := by
    rw [here]
    exact ok
  refine ⟨?_, ?_⟩
  · refine placement.splits.add .live okHere.blocks_nodup ?_ ?_ ?_
      (isBlock_setDesc_iff blank inUse)
    · intro block member
      exact (geometry.spare_fresh blank ok member).2
    · rw [single]
      exact List.Perm.refl _
    · intro place notLive
      cases place with
      | chain j => exact chains j
      | cache thread sc => rfl
      | live => exact absurd rfl notLive
  · intro place block occurs
    cases place with
    | chain j =>
        have old : block ∈ heap.freeChain j := by
          rw [← chains j]
          exact occurs
        exact placement.fits (.chain j) block old
    | cache thread sc =>
        have old :
            (heap.desc (region.owner block)).heap = some sc :=
          placement.fits (.cache thread sc) block occurs
        have distinct : region.owner block ≠ k := by
          intro same
          rw [same, blank] at old
          cases old
        change ((heap.setDesc k desc).desc (region.owner block)).heap = _
        simpa [setDesc, distinct] using old
    | live => trivial

/-- Give a whole superblock back: its only block disappears. -/
theorem Placement.retireWhole
    (geometry : Geometry region heap)
    (placement : Placement region heap)
    {k : Nat}
    (used : (heap.desc k).heap = some nlist)
    (full : (heap.desc k).anchor.state = .sbFull)
    (isLive : region.sbAddr k ∈ heap.live) :
    Placement region
      { heap.setDesc k .blank with
        live := heap.live.erase (region.sbAddr k) } := by
  have ok := geometry.descOk k nlist used
  have one : (heap.desc k).maxcount = 1 := by
    rw [ok.maxcount]
    rfl
  have noFree : heap.freeChain k = [] := by
    have anchor := ok.anchor
    rw [AnchorOk, full] at anchor
    simp [freeChain, freeCount, full, anchor.1]
  -- The block first joins its own free chain, then the superblock retires.
  let anchor : Anchor := { avail := 0, count := 0, state := .sbEmpty }
  let idle : Heap :=
    { heap.setAnchor k anchor with
      live := heap.live.erase (region.sbAddr k) }
  have idleDesc : idle.desc k = { heap.desc k with anchor := anchor } := by
    simp [idle, setAnchor, setDesc]
  have idleChain : idle.freeChain k = [region.sbAddr k] := by
    unfold freeChain
    rw [idleDesc]
    simp [freeCount, used, anchor, one, ok.superblock, List.iterate]
  have idleGeometry : Geometry region idle := by
    refine (geometry.setAnchor ?_).congr rfl rfl
    simp [AnchorOk, anchor, one]
  have idlePlacement : Placement region idle := by
    refine placement.exchange (setAnchor_same heap k anchor)
      .live (.chain k) (by simp) ?_ ?_ ?_ ?_
    · change
        (heap.live ++ heap.freeChain k).Perm
          (heap.live.erase (region.sbAddr k) ++ idle.freeChain k)
      rw [noFree, idleChain, List.append_nil]
      refine (List.perm_cons_erase isLive).trans ?_
      exact (List.perm_append_singleton _ _).symm
    · intro place notLive notChain
      cases place with
      | chain j => exact content_setAnchor_other heap anchor notChain
      | cache thread sc => rfl
      | live => exact absurd rfl notLive
    · intro block occurs
      trivial
    · intro block occurs
      change block ∈ idle.freeChain k at occurs
      rw [idleChain, List.mem_singleton] at occurs
      rw [occurs]
      exact owner_sbAddr (geometry.below used)
  have usedIdle : (idle.desc k).heap = some nlist := by
    rw [idleDesc]
    exact used
  have complete : freeCount (idle.desc k) = (idle.desc k).maxcount := by
    rw [idleDesc]
    simp [freeCount, used, anchor]
  have retired := Placement.retire idleGeometry idlePlacement usedIdle complete
  refine retired.congr rfl ?_ rfl rfl
  funext j
  simp only [setDesc, idle, setAnchor, Function.update_apply]
  by_cases same : j = k
  · simp [same]
  · simp [same]

/-- A spare superblock that is not queued: nothing will hand it out again. -/
structure Stray (region : SbRegion) (heap : Heap) (k : Nat) : Prop where
  spare : Spare region heap k
  notQueued : k ∉ heap.queue

/-- Erasing a blank descriptor keeps the metadata invariant. -/
theorem Control.setBlank
    (control : Control region heap)
    {k : Nat}
    (blank : (heap.desc k).heap = none) :
    Control region (heap.setDesc k .blank) := by
  have unused : ∀ sc', (heap.desc k).heap = some sc' → sc' = 0 := by
    intro sc' used
    rw [blank] at used
    cases used
  have unusedBlank : ∀ sc', Descriptor.blank.heap = some sc' → sc' = 0 := by
    intro sc' used
    cases used
  refine control.replaceDesc unused unusedBlank ?_ ?_ ?_ ?_
  · intro used
    cases used
  · intro used
    cases used
  · intro used
    exact absurd rfl used
  · constructor
    · rintro ⟨used, -⟩
      rw [blank] at used
      cases used
    · rintro ⟨used, -⟩
      cases used

/-- What queueing some stray superblocks does to the heap. -/
structure Queued
    (region : SbRegion)
    (heap : Heap)
    (chosen : Nat → Prop)
    (heap' : Heap) : Prop where
  inv : Inv region heap'
  strays : ∀ j, Stray region heap' j ↔ Stray region heap j ∧ ¬ chosen j
  usedSame : ∀ j, (heap.desc j).heap ≠ none → heap'.desc j = heap.desc j
  blankSame : ∀ j, (heap.desc j).heap = none → (heap'.desc j).heap = none
  sameMemory : heap'.memory = heap.memory
  sameCache : heap'.cache = heap.cache
  sameLive : heap'.live = heap.live

/-- The loop body of `organize_sb_list` queues one stray superblock. -/
theorem Inv.enqueueBlank
    (inv : Inv region heap)
    {k : Nat}
    (stray : Stray region heap k)
    (accepted : BaseMeta.enqueueBlank k heap = .ok heap') :
    Queued region heap (· = k) heap' := by
  unfold BaseMeta.enqueueBlank at accepted
  split at accepted
  · cases accepted
  · have result :
        { heap.setDesc k .blank with queue := heap.queue ++ [k] } = heap' :=
      Except.ok.inj accepted
    subst result
    have blank := stray.spare.blank
    have here : (heap.setDesc k .blank).desc k = .blank := by
      simp [setDesc]
    have there :
        ∀ j, j ≠ k → (heap.setDesc k .blank).desc j = heap.desc j := by
      intro j distinct
      simp [setDesc, distinct]
    have sameHeap :
        ∀ j, ((heap.setDesc k .blank).desc j).heap = (heap.desc j).heap := by
      intro j
      by_cases same : j = k
      · rw [same, here, blank]
        rfl
      · rw [there j same]
    have spareIff :
        ∀ j,
          Spare region
              { heap.setDesc k .blank with queue := heap.queue ++ [k] } j ↔
            Spare region heap j := by
      intro j
      constructor
      · intro spare
        exact ⟨(sameHeap j).symm.trans spare.blank, spare.indexPos,
          spare.inside⟩
      · intro spare
        exact ⟨(sameHeap j).trans spare.blank, spare.indexPos, spare.inside⟩
    refine ⟨⟨?_, ?_⟩, ?_, ?_, ?_, rfl, rfl, rfl⟩
    · refine (inv.control.setBlank blank).enqueue ?_ stray.notQueued
      exact ⟨(sameHeap k).trans blank, stray.spare.indexPos,
        stray.spare.inside⟩
    · exact (inv.placement.setBlank blank).congr rfl rfl rfl rfl
    · intro j
      constructor
      · rintro ⟨spare, notQueued⟩
        rw [List.mem_append, List.mem_singleton, not_or] at notQueued
        exact ⟨⟨(spareIff j).mp spare, notQueued.1⟩, notQueued.2⟩
      · rintro ⟨⟨spare, notQueued⟩, distinct⟩
        refine ⟨(spareIff j).mpr spare, ?_⟩
        rw [List.mem_append, List.mem_singleton, not_or]
        exact ⟨notQueued, distinct⟩
    · intro j used
      exact there j (fun same => used (same ▸ blank))
    · intro j isBlank
      exact (sameHeap j).trans isBlank

/-- The loop of `organize_sb_list` queues a range of stray superblocks. -/
theorem Inv.enqueueFrom
    (inv : Inv region heap)
    {k more : Nat}
    (strays : ∀ j, k ≤ j → j < k + more → Stray region heap j)
    (accepted : BaseMeta.enqueueFrom k more heap = .ok heap') :
    Queued region heap (fun j => k ≤ j ∧ j < k + more) heap' := by
  induction more generalizing k heap with
  | zero =>
      have result : heap = heap' := Except.ok.inj accepted
      subst result
      refine ⟨inv, ?_, fun _ _ => rfl, fun _ blank => blank, rfl, rfl, rfl⟩
      intro j
      constructor
      · intro stray
        exact ⟨stray, by omega⟩
      · exact And.left
  | succ more inductionHypothesis =>
      unfold BaseMeta.enqueueFrom at accepted
      obtain ⟨middle, first, later⟩ := bind_ok accepted
      have queued := inv.enqueueBlank (strays k (by omega) (by omega)) first
      have rest :=
        inductionHypothesis queued.inv
          (fun j lower upper =>
            (queued.strays j).mpr
              ⟨strays j (by omega) (by omega), by omega⟩)
          later
      refine ⟨rest.inv, ?_, ?_, ?_, ?_, ?_, ?_⟩
      · intro j
        rw [rest.strays, queued.strays]
        constructor
        · rintro ⟨⟨stray, distinct⟩, outside⟩
          exact ⟨stray, by omega⟩
        · rintro ⟨stray, outside⟩
          exact ⟨⟨stray, by omega⟩, by omega⟩
      · intro j used
        have kept := queued.usedSame j used
        rw [← kept] at used ⊢
        exact rest.usedSame j used
      · intro j blank
        exact rest.blankSame j (queued.blankSame j blank)
      · exact rest.sameMemory.trans queued.sameMemory
      · exact rest.sameCache.trans queued.sameCache
      · exact rest.sameLive.trans queued.sameLive

/-- What `small_sb_alloc` delivers: a spare superblock that left the queue. -/
structure Delivered
    (region : SbRegion)
    (heap : Heap)
    (k : Nat)
    (heap' : Heap) : Prop where
  inv : Inv region heap'
  stray : Stray region heap' k
  strays : ∀ j, Stray region heap' j → j = k ∨ Stray region heap j
  usedSame : ∀ j, (heap.desc j).heap ≠ none → heap'.desc j = heap.desc j
  blankSame : ∀ j, (heap.desc j).heap = none → (heap'.desc j).heap = none
  sameMemory : heap'.memory = heap.memory
  sameCache : heap'.cache = heap.cache
  sameLive : heap'.live = heap.live

/-- Taking the oldest queued superblock keeps the invariant. -/
theorem Inv.dequeue
    (inv : Inv region heap)
    {k : Nat}
    {rest : List Nat}
    (shape : heap.queue = k :: rest) :
    Delivered region heap k { heap with queue := rest } := by
  have queued : k ∈ heap.queue := by
    rw [shape]
    exact List.mem_cons_self
  have distinct := inv.control.queueNodup
  rw [shape, List.nodup_cons] at distinct
  have stillQueued : ∀ j, j ∈ rest → j ∈ heap.queue := by
    intro j member
    rw [shape]
    exact List.mem_cons_of_mem _ member
  refine ⟨⟨?_, ?_⟩, ?_, ?_, fun _ _ => rfl, fun _ blank => blank,
    rfl, rfl, rfl⟩
  · exact
      { geometry := inv.control.geometry.congr rfl rfl
        wholeFull := inv.control.wholeFull
        partialNodup := inv.control.partialNodup
        partialMem := inv.control.partialMem
        queueNodup := distinct.2
        queueSpare := fun j member =>
          (inv.control.queueSpare j (stillQueued j member)).congr rfl rfl
        maxsizePos := inv.control.maxsizePos }
  · exact inv.placement.congr rfl rfl rfl rfl
  · exact ⟨(inv.control.queueSpare k queued).congr rfl rfl, distinct.1⟩
  · rintro j ⟨spare, notQueued⟩
    by_cases same : j = k
    · exact Or.inl same
    · right
      refine ⟨spare.congr rfl rfl, ?_⟩
      rw [shape, List.mem_cons, not_or]
      exact ⟨same, notQueued⟩

/-- The descriptors from `curr_addr` on are blank. -/
theorem Geometry.blank_beyond
    (geometry : Geometry region heap)
    {k : Nat}
    (beyond : heap.currAddr ≤ region.sbAddr k) :
    (heap.desc k).heap = none := by
  by_contra inUse
  obtain ⟨sc, used⟩ := Option.ne_none_iff_exists'.mp inUse
  have inside := (geometry.descOk k sc used).inside
  have positive : 0 < sbSize := by decide
  omega

/-- Moving `curr_addr` up keeps the invariant while nothing is queued. -/
theorem Inv.expand
    (inv : Inv region heap)
    {next : Nat}
    (noneQueued : heap.queue = [])
    (above : heap.currAddr ≤ next)
    (aligned : next % sbSize = 0)
    (below : next ≤ region.limit) :
    Inv region { heap with currAddr := next } := by
  have geometry := inv.control.geometry
  refine ⟨?_, inv.placement.congr rfl rfl rfl rfl⟩
  exact
    { geometry :=
        { descOk := fun k sc used =>
            let ok := geometry.descOk k sc used
            { classLe := ok.classLe
              indexPos := ok.indexPos
              inside := Nat.le_trans ok.inside above
              superblock := ok.superblock
              blockSize := ok.blockSize
              maxcount := ok.maxcount
              anchor := ok.anchor }
          currAligned := aligned
          currAbove := Nat.le_trans geometry.currAbove above
          currBelow := below }
      wholeFull := inv.control.wholeFull
      partialNodup := inv.control.partialNodup
      partialMem := inv.control.partialMem
      queueNodup := inv.control.queueNodup
      queueSpare := by
        intro k member
        change k ∈ heap.queue at member
        rw [noneQueued] at member
        exact absurd member List.not_mem_nil
      maxsizePos := inv.control.maxsizePos }

/-- `organize_sb_list` on a positive count is its loop from the first index. -/
theorem organizeSbList_eq
    (region : SbRegion)
    {start count : Nat}
    (positive : 0 < count)
    (heap : Heap) :
    BaseMeta.organizeSbList region start count heap =
      BaseMeta.enqueueFrom (region.owner start) count heap := by
  obtain ⟨more, rfl⟩ := Nat.exists_eq_succ_of_ne_zero (by omega : count ≠ 0)
  rfl

/-- An expansion queues all new superblocks but the first, which it delivers. -/
theorem Inv.deliverExpansion
    (inv : Inv region heap)
    {k more next : Nat}
    {middle : Heap}
    (noneQueued : heap.queue = [])
    (indexPos : 1 ≤ k)
    (currShape : heap.currAddr = region.sbAddr k)
    (nextShape : next = region.sbAddr (k + 1 + more))
    (roomLeft : next ≤ region.limit)
    (organized :
      BaseMeta.enqueueFrom (k + 1) more { heap with currAddr := next } =
        .ok middle) :
    Delivered region heap k (middle.setDesc k .blank) := by
  have geometry := inv.control.geometry
  have regionAligned := region.aligned
  have above : heap.currAddr ≤ next := by
    rw [currShape, nextShape]
    unfold SbRegion.sbAddr
    exact Nat.add_le_add_left (Nat.mul_le_mul_right _ (by omega)) _
  have aligned : next % sbSize = 0 := by
    rw [nextShape]
    unfold SbRegion.sbAddr
    rw [Nat.add_mul_mod_self_right]
    exact regionAligned
  have expanded := inv.expand noneQueued above aligned roomLeft
  have fresh :
      ∀ j,
        k ≤ j →
        j < k + 1 + more →
        Stray region { heap with currAddr := next } j := by
    intro j lower upper
    refine ⟨⟨?_, by omega, ?_⟩, ?_⟩
    · apply geometry.blank_beyond
      rw [currShape]
      unfold SbRegion.sbAddr
      exact Nat.add_le_add_left (Nat.mul_le_mul_right _ lower) _
    · change region.sbAddr j + sbSize ≤ next
      rw [nextShape]
      unfold SbRegion.sbAddr
      have step : (j + 1) * sbSize ≤ (k + 1 + more) * sbSize :=
        Nat.mul_le_mul_right _ upper
      rw [Nat.add_mul, Nat.one_mul] at step
      omega
    · change j ∉ heap.queue
      rw [noneQueued]
      exact List.not_mem_nil
  have queued :=
    expanded.enqueueFrom
      (fun j lower upper => fresh j (by omega) (by omega)) organized
  have stray : Stray region middle k :=
    (queued.strays k).mpr ⟨fresh k (by omega) (by omega), by omega⟩
  have blank := stray.spare.blank
  have sameHeap :
      ∀ j, ((middle.setDesc k .blank).desc j).heap = (middle.desc j).heap := by
    intro j
    by_cases same : j = k
    · simp [setDesc, same, blank, Descriptor.blank]
    · simp [setDesc, same]
  refine ⟨⟨queued.inv.control.setBlank blank,
    queued.inv.placement.setBlank blank⟩, ?_, ?_, ?_, ?_,
    queued.sameMemory, queued.sameCache, queued.sameLive⟩
  · exact ⟨⟨(sameHeap k).trans blank, stray.spare.indexPos,
      stray.spare.inside⟩, stray.notQueued⟩
  · rintro j ⟨spare, notQueued⟩
    have old : Stray region middle j :=
      ⟨⟨(sameHeap j).symm.trans spare.blank, spare.indexPos, spare.inside⟩,
        notQueued⟩
    obtain ⟨⟨⟨blankThere, positive, insideThere⟩, -⟩, outside⟩ :=
      (queued.strays j).mp old
    by_cases same : j = k
    · exact Or.inl same
    · right
      have before : j < k := by
        have insideNext : region.sbAddr j + sbSize ≤ next := insideThere
        rw [nextShape] at insideNext
        unfold SbRegion.sbAddr at insideNext
        simp only [sbSize, pageSize] at insideNext
        omega
      refine ⟨⟨blankThere, positive, ?_⟩, ?_⟩
      · rw [currShape]
        unfold SbRegion.sbAddr
        simp only [sbSize, pageSize]
        omega
      · rw [noneQueued]
        exact List.not_mem_nil
  · intro j used
    have kept := queued.usedSame j used
    have distinct : j ≠ k := by
      intro same
      subst same
      rw [kept] at blank
      exact used blank
    rw [← kept]
    simp [setDesc, distinct]
  · intro j blankThere
    exact (sameHeap j).trans (queued.blankSame j blankThere)

/-- The expanding branch of `small_sb_alloc`, for any expansion size. -/
theorem Inv.expandBranch
    (inv : Inv region heap)
    {expandSize more : Nat}
    {middle : Heap}
    (noneQueued : heap.queue = [])
    (expandShape : expandSize = (1 + more) * sbSize)
    (morePos : 0 < more)
    (roomLeft : heap.currAddr + expandSize ≤ region.limit)
    (organized :
      BaseMeta.organizeSbList region (heap.currAddr + sbSize) more
          { heap with currAddr := heap.currAddr + expandSize } =
        .ok middle) :
    ∃ k,
      heap.currAddr = region.sbAddr k ∧
        Delivered region heap k
          (middle.setDesc (region.owner heap.currAddr) .blank) := by
  have currAligned := inv.control.geometry.currAligned
  have currAbove := inv.control.geometry.currAbove
  have regionAligned := region.aligned
  have userSpace := region.userSpace
  obtain ⟨k, currShape⟩ : ∃ k, heap.currAddr = region.sbAddr k := by
    refine ⟨(heap.currAddr - region.start) / sbSize, ?_⟩
    unfold SbRegion.sbAddr
    simp only [sbSize, pageSize] at *
    omega
  have indexPos : 1 ≤ k := by
    unfold SbRegion.sbAddr at currShape
    simp only [sbSize, pageSize] at currAbove currShape
    omega
  have nextShape :
      heap.currAddr + expandSize = region.sbAddr (k + 1 + more) := by
    rw [currShape, expandShape]
    unfold SbRegion.sbAddr
    ring
  have sbShape : heap.currAddr + sbSize = region.sbAddr (k + 1) := by
    rw [currShape]
    unfold SbRegion.sbAddr
    ring
  have low : region.sbAddr (k + 1) + sbSize ≤ 2 ^ 47 := by
    have large : 2 * sbSize ≤ expandSize := by
      rw [expandShape]
      exact Nat.mul_le_mul_right _ (by omega)
    omega
  have nextOwner : region.owner (heap.currAddr + sbSize) = k + 1 := by
    rw [sbShape]
    exact owner_sbAddr low
  have hereOwner : region.owner heap.currAddr = k := by
    rw [currShape] at sbShape ⊢
    exact owner_sbAddr (by omega)
  rw [organizeSbList_eq region morePos, nextOwner] at organized
  rw [hereOwner]
  exact ⟨k, currShape,
    inv.deliverExpansion noneQueued indexPos currShape nextShape roomLeft
      organized⟩

/-- `curr_addr` is page aligned, so an expansion starts right there. -/
theorem Geometry.pageAligned
    (geometry : Geometry region heap) :
    Region.alignUp heap.currAddr pageSize = heap.currAddr := by
  have currAligned := geometry.currAligned
  have bounds := Region.alignUp_pow heap.currAddr 12
  change Region.alignUp heap.currAddr (2 ^ 12) = heap.currAddr
  simp only [sbSize, pageSize] at currAligned
  omega

/-- `small_sb_alloc` returns the start of a spare superblock. -/
theorem Inv.smallSbAlloc
    (inv : Inv region heap)
    {superblock : Nat}
    (accepted : BaseMeta.smallSbAlloc region heap = .ok (superblock, heap')) :
    ∃ k,
      superblock = region.sbAddr k ∧ Delivered region heap k heap' := by
  unfold BaseMeta.smallSbAlloc at accepted
  split at accepted
  · next k rest shape =>
      injection accepted with same
      injection same with samePtr sameHeap
      subst sameHeap
      exact ⟨k, samePtr.symm, inv.dequeue shape⟩
  · next noneQueued =>
      simp only [inv.control.geometry.pageAligned] at accepted
      split at accepted
      · cases accepted
      · next roomLeft =>
          obtain ⟨middle, organized, returned⟩ := bind_ok accepted
          injection returned with same
          injection same with samePtr sameHeap
          have expandShape :
              sbRegionExpandSize =
                (1 + (sbRegionExpandSize / sbSize - 1)) * sbSize := by
            decide
          obtain ⟨k, currShape, delivered⟩ :=
            inv.expandBranch noneQueued expandShape (by decide)
              (Nat.le_of_not_lt roomLeft) organized
          rw [← sameHeap]
          exact ⟨k, samePtr.symm.trans currShape, delivered⟩

end Heap

end Bxalloc
