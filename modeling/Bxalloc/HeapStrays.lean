import Bxalloc.HeapConservation
import Bxalloc.HeapLives

namespace Bxalloc

/-!
# Superblocks that are lost for good

A superblock that is neither in use nor queued stays so in every later state,
also behind crashes and recoveries.  `small_sb_retire` makes such superblocks:
once all blocks are back and all free lists are flushed, the next malloc of a
class retires every superblock of the class.
-/

open Lib (Memory Reaches)

namespace Heap

variable {region : SbRegion} {heap heap' : Heap} {j : Nat}

/-- A descriptor that is blank after a change was blank or is erased. -/
theorem Stray.of_kept
    (stray : Stray region heap j)
    (kept :
      (heap'.desc j).heap ≠ none →
      (heap'.desc j).heap = (heap.desc j).heap)
    (supply : SameSupply heap heap') :
    Stray region heap' j := by
  obtain ⟨⟨blank, positive, inside⟩, notQueued⟩ := stray
  obtain ⟨sameQueue, sameCurr⟩ := supply
  refine ⟨⟨?_, positive, ?_⟩, ?_⟩
  · by_contra inUse
    exact inUse ((kept inUse).trans blank)
  · rw [sameCurr]
    exact inside
  · rw [sameQueue]
    exact notQueued

/-- Other descriptors may change. -/
theorem Spare.of_desc
    (spare : Spare region heap j)
    (sameDesc : heap'.desc j = heap.desc j)
    (sameCurr : heap'.currAddr = heap.currAddr) :
    Spare region heap' j := by
  obtain ⟨blank, positive, inside⟩ := spare
  refine ⟨?_, positive, ?_⟩
  · rw [sameDesc]
    exact blank
  · rw [sameCurr]
    exact inside

/-- A superblock taken from the queue is not stray. -/
theorem Inv.dequeue_stray
    (inv : Inv region heap)
    {k : Nat}
    {rest : List Nat}
    (shape : heap.queue = k :: rest)
    (stray : Stray region heap j) :
    Stray region { heap with queue := rest } j ∧
      region.owner (region.sbAddr k) ≠ j := by
  have notQueued := stray.notQueued
  rw [shape, List.mem_cons, not_or] at notQueued
  have queued : k ∈ heap.queue := by
    rw [shape]
    exact List.mem_cons_self
  have low :=
    inv.control.geometry.spare_below (inv.control.queueSpare k queued)
  rw [owner_sbAddr low]
  exact ⟨⟨stray.spare.congr rfl rfl, notQueued.2⟩, Ne.symm notQueued.1⟩

/-- The superblocks of an expansion lie behind all stray ones. -/
theorem Geometry.owner_expansion
    (geometry : Geometry region heap)
    (room : heap.currAddr + sbRegionExpandSize ≤ region.limit)
    (stray : Stray region heap j) :
    j < region.owner heap.currAddr ∧
      region.owner (heap.currAddr + sbSize) =
        region.owner heap.currAddr + 1 := by
  have currAligned := geometry.currAligned
  have currAbove := geometry.currAbove
  have regionAligned := region.aligned
  have userSpace := region.userSpace
  obtain ⟨k, currShape⟩ : ∃ k, heap.currAddr = region.sbAddr k := by
    refine ⟨(heap.currAddr - region.start) / sbSize, ?_⟩
    unfold SbRegion.sbAddr
    simp only [sbSize, pageSize] at *
    omega
  have sbShape : heap.currAddr + sbSize = region.sbAddr (k + 1) := by
    rw [currShape]
    unfold SbRegion.sbAddr
    ring
  have low : region.sbAddr (k + 1) + sbSize ≤ 2 ^ 47 := by
    have large : 2 * sbSize ≤ sbRegionExpandSize := by
      decide
    omega
  have here : region.owner heap.currAddr = k := by
    rw [currShape] at sbShape ⊢
    exact owner_sbAddr (by omega)
  rw [here, sbShape, owner_sbAddr low]
  refine ⟨?_, rfl⟩
  have inside := stray.spare.inside
  rw [currShape] at inside
  unfold SbRegion.sbAddr at inside
  simp only [sbSize, pageSize] at inside
  omega

/-- `small_sb_alloc` does not hand out a stray superblock. -/
theorem Inv.smallSbAlloc_stray
    (inv : Inv region heap)
    {superblock : Nat}
    (accepted : BaseMeta.smallSbAlloc region heap = .ok (superblock, heap'))
    (stray : Stray region heap j) :
    Stray region heap' j ∧ region.owner superblock ≠ j := by
  obtain ⟨k, -, delivered⟩ := inv.smallSbAlloc accepted
  have blank := delivered.blankSame j stray.spare.blank
  unfold BaseMeta.smallSbAlloc at accepted
  split at accepted
  · next k rest shape =>
      obtain ⟨rfl, rfl⟩ := Prod.mk.inj (Except.ok.inj accepted)
      exact inv.dequeue_stray shape stray
  · next noneQueued =>
      simp only [inv.control.geometry.pageAligned] at accepted
      split at accepted
      · cases accepted
      · next roomLeft =>
          obtain ⟨middle, organized, returned⟩ := bind_ok accepted
          obtain ⟨rfl, rfl⟩ := Prod.mk.inj (Except.ok.inj returned)
          obtain ⟨behind, next⟩ :=
            inv.control.geometry.owner_expansion
              (Nat.le_of_not_lt roomLeft) stray
          rw [organizeSbList_eq region (by decide), next] at organized
          have queue := (enqueueFrom_queue organized).1
          have moved := enqueueFrom_currAddr organized
          refine ⟨⟨⟨blank, stray.spare.indexPos, ?_⟩, ?_⟩,
            Nat.ne_of_gt behind⟩
          · change region.sbAddr j + sbSize ≤ middle.currAddr
            rw [moved]
            exact Nat.le_trans stray.spare.inside (Nat.le_add_right ..)
          · change j ∉ middle.queue
            rw [queue]
            change j ∉ heap.queue ++ _
            rw [noneQueued, List.nil_append, List.mem_range'_1]
            omega

/-- A new superblock for a class is not a stray one. -/
theorem Inv.mallocFromNewsb_stray
    (inv : Inv region heap)
    {thread sc num : Nat}
    (valid : sc < nlist)
    (accepted :
      BaseMeta.mallocFromNewsb region thread sc heap = .ok (num, heap'))
    (stray : Stray region heap j) :
    Stray region heap' j := by
  obtain ⟨k, supplied, more, anchor, cache, memory, stack, allocated,
    delivered, -, -, rfl⟩ :=
    inv.mallocFromNewsb_cases valid accepted
  obtain ⟨strayNext, differs⟩ := inv.smallSbAlloc_stray allocated stray
  have low :=
    delivered.inv.control.geometry.spare_below delivered.stray.spare
  rw [owner_sbAddr low] at differs
  exact ⟨strayNext.spare.of_desc
    (Function.update_of_ne (Ne.symm differs) ..) rfl, strayNext.notQueued⟩

/-- `fill_cache` does not take a stray superblock. -/
theorem Inv.fillCache_stray
    (inv : Inv region heap)
    {thread sc num : Nat}
    (valid : sc < nlist)
    (emptyList : (heap.cache thread sc).size = 0)
    (accepted :
      BaseMeta.fillCache region thread sc heap = .ok (num, heap'))
    (stray : Stray region heap j) :
    Stray region heap' j := by
  obtain ⟨taken, middle, fromPartial, refilled, -⟩ :=
    inv.mallocFromPartialLoop valid rfl emptyList
  have strayMiddle :=
    stray.of_kept (refilled.kept j) (mallocFromPartialLoop_supply fromPartial)
  rw [fillCache_of_loop fromPartial] at accepted
  split at accepted
  · exact refilled.inv.mallocFromNewsb_stray valid accepted strayMiddle
  · obtain ⟨-, rfl⟩ := Prod.mk.inj (Except.ok.inj accepted)
    exact strayMiddle

/-- `do_malloc` returns no block of a stray superblock. -/
theorem Inv.doMalloc_stray
    (inv : Inv region heap)
    {thread size ptr : Nat}
    (fits : size ≤ sbSize)
    (accepted :
      BaseMeta.doMalloc region thread size heap = .ok (ptr, heap'))
    (stray : Stray region heap j) :
    Stray region heap' j ∧ region.owner ptr ≠ j := by
  have served := inv.doMalloc fits accepted
  have inUse : (heap'.desc (region.owner ptr)).heap ≠ none :=
    served.inv.live_used List.mem_cons_self
  have still : Stray region heap' j := by
    rcases doMalloc_cases accepted with
      ⟨large, whole⟩ | ⟨sc, filled, small, found, fill, popped⟩
    · obtain ⟨middle, allocated, rfl⟩ := mallocWholeSb_cases whole
      obtain ⟨strayNext, differs⟩ := inv.smallSbAlloc_stray allocated stray
      exact ⟨strayNext.spare.of_desc
        (Function.update_of_ne (Ne.symm differs) ..) rfl, strayNext.notQueued⟩
    · have valid := (ClassSize.sizeToIndex_sound found).1
      obtain ⟨-, rfl⟩ := Prod.mk.inj popped
      have strayFilled : Stray region filled j := by
        rcases filledFor_cases fill with
          ⟨emptyList, blockNum, filling⟩ | ⟨-, rfl⟩
        · exact inv.fillCache_stray valid emptyList filling stray
        · exact stray
      exact ⟨strayFilled.spare.congr rfl rfl, strayFilled.notQueued⟩
  refine ⟨still, ?_⟩
  rintro rfl
  exact inUse still.spare.blank

/-- A flush leaves stray superblocks alone. -/
theorem Inv.flushCache_stray
    (inv : Inv region heap)
    {thread sc : Nat}
    (valid : sc < nlist)
    (accepted : BaseMeta.flushCache region thread sc heap = .ok heap')
    (stray : Stray region heap j) :
    Stray region heap' j := by
  obtain ⟨flushed, -⟩ := inv.flushCache valid accepted
  exact stray.of_kept (fun inUse => (flushed.kept j inUse).1)
    (flushLoop_supply accepted)

/-- The end of a thread leaves stray superblocks alone. -/
theorem Inv.publicFlushCache_stray
    (inv : Inv region heap)
    {thread : Nat}
    (accepted : BaseMeta.publicFlushCache region thread heap = .ok heap')
    (stray : Stray region heap j) :
    Stray region heap' j := by
  obtain ⟨flushed, -⟩ := inv.publicFlushCache accepted
  exact stray.of_kept (fun inUse => (flushed.kept j inUse).1)
    (flushClasses_supply accepted)

/-- `do_free` queues no stray superblock. -/
theorem Inv.doFree_stray
    (inv : Inv region heap)
    {thread ptr : Nat}
    (isLive : ptr ∈ heap.live)
    (accepted : BaseMeta.doFree region thread ptr heap = .ok heap')
    (stray : Stray region heap j) :
    Stray region heap' j := by
  have differs : j ≠ region.owner ptr := by
    rintro rfl
    exact inv.live_used isLive stray.spare.blank
  by_cases whole : (heap.desc (region.owner ptr)).heap = some nlist
  · rw [inv.doFree_whole thread isLive whole] at accepted
    unfold BaseMeta.enqueueBlank at accepted
    split at accepted
    · cases accepted
    · obtain rfl := Except.ok.inj accepted
      refine ⟨stray.spare.of_desc (Function.update_of_ne differs ..) rfl, ?_⟩
      rw [List.mem_append, List.mem_singleton]
      exact not_or.mpr ⟨stray.notQueued, differs⟩
  · obtain ⟨sc, used⟩ := Option.ne_none_iff_exists'.mp (inv.live_used isLive)
    have small : sc ≠ nlist := by
      rintro rfl
      exact whole used
    have valid : sc < nlist := by
      have classLe := (inv.control.geometry.descOk _ sc used).classLe
      omega
    unfold BaseMeta.doFree at accepted
    split at accepted
    · obtain rfl := Except.ok.inj accepted
      exact stray
    split at accepted
    · cases accepted
    simp only [used] at accepted
    rw [if_neg small] at accepted
    split at accepted
    · obtain ⟨flushed, flush, pushing⟩ := bind_ok accepted
      obtain rfl := Except.ok.inj pushing
      have still := inv.flushCache_stray valid flush stray
      exact ⟨still.spare.congr rfl rfl, still.notQueued⟩
    · obtain rfl := Except.ok.inj accepted
      exact ⟨stray.spare.congr rfl rfl, stray.notQueued⟩

/-- One step leaves stray superblocks stray. -/
theorem Step.stray
    {call : Call}
    (step : Step region heap call heap')
    (inv : Inv region heap)
    (stray : Stray region heap j) :
    Stray region heap' j := by
  cases step with
  | malloc positive fits returned =>
      have still := (inv.doMalloc_stray fits returned stray).1
      exact ⟨still.spare.congr rfl rfl, still.notQueued⟩
  | free isLive returned =>
      have still := inv.doFree_stray isLive returned stray
      exact ⟨still.spare.congr rfl rfl, still.notQueued⟩
  | exit returned =>
      have still := inv.publicFlushCache_stray returned stray
      exact ⟨still.spare.congr rfl rfl, still.notQueued⟩
  | store isLive lower upper =>
      exact ⟨stray.spare.congr rfl rfl, stray.notQueued⟩

section Example

variable {rest : List Nat}

end Example

end Heap

namespace HeapFile

variable {file before after : HeapFile} {j : Nat}

/-- A recovery leaves stray superblocks alone. -/
theorem PowerLost.stray
    {region : SbRegion}
    {image : Heap}
    {marked : Finset Nat}
    (lost : before.PowerLost region image)
    (inv : Durable.Inv before.region before.state)
    {n : Nat}
    (given : Gc.Marked region image marked n)
    (stray : Heap.Stray before.region before.state.heap j) :
    Heap.Stray region (Gc.recoveredHeap region image marked n) j := by
  obtain ⟨⟨blank, positive, inside⟩, notQueued⟩ := stray
  have imageBlank : (image.desc j).heap = none := by
    rcases lost.heap_eq inv.synced j with isBlank | same
    · exact isBlank
    · exact same.trans blank
  refine ⟨⟨?_, positive, ?_⟩, ?_⟩
  · rcases given.desc_cases j with ⟨unused, -⟩ | ⟨sc, ok, -⟩
    · exact unused
    · have inUse := ok.heap
      rw [imageBlank] at inUse
      cases inUse
  · rw [Gc.recoveredHeap_currAddr]
    exact lost.inside inside
  · change j ∉ image.queue
    rw [lost.queue]
    exact notQueued

/-- One step of a life leaves stray superblocks stray. -/
theorem Step.stray
    {event : Event}
    (step : Step before event after)
    (inv : Durable.Inv before.region before.state)
    (stray : Heap.Stray before.region before.state.heap j) :
    Heap.Stray after.region after.state.heap j := by
  cases step with
  | run step =>
      cases step with
      | call step => exact step.stray inv.heap stray
      | flushRegion => exact stray
  | recover lost rooted collected =>
      obtain ⟨found, completed, -, given, isRestart⟩ :=
        lost.recovered rooted inv
      obtain rfl := Except.ok.inj (completed.symm.trans collected)
      change Heap.Stray _ found.restart j
      rw [isRestart]
      exact lost.stray inv given stray

end HeapFile

end Bxalloc
