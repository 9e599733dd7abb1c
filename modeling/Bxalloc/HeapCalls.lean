import Bxalloc.HeapRefill
import Bxalloc.Lib.Reach

namespace Bxalloc

/-!
# Calls keep the invariant

`do_malloc`, `do_free` and the end of a thread, each as one atomic step, keep
the allocator invariant.  A malloc makes one new block live, of at least the
requested size, and never stops at the assertion that a superblock on a partial
list is partial.
-/

open Lib

namespace Heap

variable {region : SbRegion} {heap heap' : Heap}

/--
A malloc that finds its free list empty and an empty superblock on top of the
partial list: it retires that superblock.
-/
def RetiringMalloc (heap : Heap) (thread size : Nat) : Prop :=
  size ≤ maxSz ∧
    ∃ sc,
      ClassSize.sizeToIndex (ClassSize.roundUp size) = some sc ∧
        (heap.cache thread sc).size = 0 ∧
        heap.TopEmpty sc

/-- What a successful `do_malloc` does, with the returned block made live. -/
structure Served
    (region : SbRegion)
    (heap : Heap)
    (thread size ptr : Nat)
    (heap' : Heap) : Prop where
  inv : Inv region { heap' with live := ptr :: heap'.live }
  sameLive : heap'.live = heap.live
  enough : size ≤ (heap'.desc (region.owner ptr)).blockSize
  strays :
    ∀ j,
      Stray region heap' j →
      Stray region heap j ∨ heap.RetiringMalloc thread size
  liveKept :
    ∀ block,
      block ∈ heap.live →
      (heap'.desc (region.owner block)).heap =
        (heap.desc (region.owner block)).heap

/-- Live blocks lie in superblocks in use. -/
theorem Inv.live_used
    (inv : Inv region heap)
    {block : Nat}
    (isLive : block ∈ heap.live) :
    (heap.desc (region.owner block)).heap ≠ none := by
  obtain ⟨sc, -, used, -, -⟩ :=
    inv.control.geometry.isBlock_cases (inv.placement.isBlock .live isLive)
  simp [used]

/-- `fill_cache` keeps the invariant and leaves a block in the list. -/
theorem Inv.fillCache
    (inv : Inv region heap)
    {thread sc blockNum : Nat}
    (valid : sc < nlist)
    (emptyList : (heap.cache thread sc).size = 0)
    (accepted :
      BaseMeta.fillCache region thread sc heap = .ok (blockNum, heap')) :
    Inv region heap' ∧
      (∀ j, Stray region heap' j → Stray region heap j ∨ heap.TopEmpty sc) ∧
      (∀ block,
        block ∈ heap.live →
        (heap'.desc (region.owner block)).heap =
          (heap.desc (region.owner block)).heap) ∧
      heap'.live = heap.live ∧
      1 ≤ (heap'.cache thread sc).size := by
  obtain ⟨taken, middle, fromPartial, refilled, size⟩ :=
    inv.mallocFromPartialLoop valid rfl emptyList
  have liveKept :
      ∀ block,
        block ∈ heap.live →
        (middle.desc (region.owner block)).heap ≠ none ∧
          (middle.desc (region.owner block)).heap =
            (heap.desc (region.owner block)).heap := by
    intro block isLive
    rw [← refilled.sameLive] at isLive
    have inUse := refilled.inv.live_used isLive
    exact ⟨inUse, refilled.kept _ inUse⟩
  rw [fillCache_of_loop fromPartial] at accepted
  split at accepted
  · next nothing =>
      obtain ⟨newInv, strays, kept, sameLive, filled⟩ :=
        refilled.inv.mallocFromNewsb valid (size.trans nothing) accepted
      refine ⟨newInv, ?_, ?_, sameLive.trans refilled.sameLive, filled⟩
      · intro j stray
        exact refilled.strays j (strays j stray)
      · intro block isLive
        obtain ⟨inUse, same⟩ := liveKept block isLive
        exact (kept _ inUse).trans same
  · next something =>
      injection accepted with same
      injection same with sameNum sameHeap
      subst sameHeap
      exact ⟨refilled.inv, refilled.strays,
        fun block isLive => (liveKept block isLive).2, refilled.sameLive,
        by omega⟩

/-- `round_up(size, SBSIZE)` of a size up to `SBSIZE`. -/
theorem roundUpTo_sbSize
    {size : Nat}
    (positive : 1 ≤ size)
    (fits : size ≤ sbSize) :
    ClassSize.roundUpTo size sbSize = sbSize := by
  have small : size ≤ 65536 := fits
  have power : sbSize = 2 ^ 16 := by
    norm_num [sbSize, pageSize]
  have quotient : (size + 2 ^ 16 - 1) / 2 ^ 16 = 1 := by
    omega
  rw [power, ClassSize.roundUpTo_pow 16 small (Nat.le_refl 16), quotient,
    Nat.one_mul]

/-- What a returning `do_malloc` above `MAX_SZ` did. -/
theorem mallocWholeSb_cases
    {size ptr : Nat}
    (accepted : BaseMeta.mallocWholeSb region size heap = .ok (ptr, heap')) :
    ∃ middle,
      BaseMeta.smallSbAlloc region heap = .ok (ptr, middle) ∧
        heap' =
          middle.setDesc (region.owner ptr)
            { anchor := { avail := 0, count := 0, state := .sbFull }
              superblock := ptr
              heap := some nlist
              blockSize := ClassSize.roundUpTo size sbSize
              maxcount := 1 } := by
  unfold BaseMeta.mallocWholeSb at accepted
  simp only at accepted
  split at accepted
  · cases accepted
  · obtain ⟨⟨superblock, middle⟩, allocated, rest⟩ := bind_ok accepted
    obtain ⟨rfl, rfl⟩ := Prod.mk.inj (Except.ok.inj rest)
    exact ⟨middle, allocated, rfl⟩

/-- The branch of `do_malloc` for whole superblocks. -/
theorem Inv.mallocWholeSb
    (inv : Inv region heap)
    {thread size ptr : Nat}
    (large : maxSz < size)
    (fits : size ≤ sbSize)
    (accepted : BaseMeta.mallocWholeSb region size heap = .ok (ptr, heap')) :
    Served region heap thread size ptr heap' := by
  obtain ⟨middle, allocated, rfl⟩ := mallocWholeSb_cases accepted
  obtain ⟨k, rfl, delivered⟩ := inv.smallSbAlloc allocated
  have sbOwner : region.owner (region.sbAddr k) = k := by
    apply owner_sbAddr
    exact delivered.inv.control.geometry.spare_below delivered.stray.spare
  rw [sbOwner, roundUpTo_sbSize (by omega) fits]
  let desc : Descriptor :=
    { anchor := { avail := 0, count := 0, state := .sbFull }
      superblock := region.sbAddr k
      heap := some nlist
      blockSize := sbSize
      maxcount := 1 }
  have ok : DescOk region middle.currAddr k desc nlist :=
    ⟨Nat.le_refl _, delivered.stray.spare.indexPos,
      delivered.stray.spare.inside, rfl, rfl, rfl, rfl, Nat.zero_le _⟩
  have control :=
    delivered.inv.control.useSpare delivered.stray
      (rfl : desc.heap = some nlist) ok (fun _ => rfl) (Or.inl ⟨rfl, rfl⟩)
  rw [setPartial_self] at control
  have here : (middle.setDesc k desc).desc k = desc := by
    simp [setDesc]
  have there :
      ∀ j, j ≠ k → (middle.setDesc k desc).desc j = middle.desc j := by
    intro j distinct
    simp [setDesc, distinct]
  refine ⟨⟨?_, ?_⟩, delivered.sameLive, ?_, ?_, ?_⟩
  · exact control.congr rfl rfl rfl rfl control.maxsizePos
  · exact Placement.installWhole delivered.inv.control.geometry
      delivered.inv.placement delivered.stray.spare.blank rfl ok rfl
  · rw [sbOwner, here]
    exact fits
  · rintro j ⟨spare, absent⟩
    have blank := spare.blank
    have distinct : j ≠ k := by
      intro isNew
      rw [isNew, here] at blank
      cases blank
    rw [there j distinct] at blank
    exact Or.inl ((delivered.strays j
      ⟨⟨blank, spare.indexPos, spare.inside⟩, absent⟩).resolve_left distinct)
  · intro block isLive
    have inUse := inv.live_used isLive
    have same := delivered.usedSame _ inUse
    have distinct : region.owner block ≠ k := by
      intro isNew
      rw [isNew] at same inUse
      rw [← same, delivered.stray.spare.blank] at inUse
      exact inUse rfl
    rw [there _ distinct, same]

/-- The heap `do_malloc` pops from: an empty list is filled first. -/
def filledFor
    (region : SbRegion)
    (heap : Heap)
    (thread sc : Nat) : Except Fault Heap :=
  if (heap.cache thread sc).size = 0 then
    (BaseMeta.fillCache region thread sc heap).map Prod.snd
  else
    .ok heap

/-- The pop at the end of `do_malloc`. -/
def popFrom (thread sc : Nat) (heap : Heap) : Nat × Heap :=
  let (block, cache) := (heap.cache thread sc).pop heap.memory
  (block, heap.setCache thread sc cache)

/-- `do_malloc` of a size up to `MAX_SZ` fills the list if need be and pops. -/
theorem doMalloc_small
    {thread size sc : Nat}
    (small : size ≤ maxSz)
    (found : ClassSize.sizeToIndex (ClassSize.roundUp size) = some sc) :
    BaseMeta.doMalloc region thread size heap =
      (filledFor region heap thread sc).map (popFrom thread sc) := by
  unfold BaseMeta.doMalloc filledFor
  rw [if_neg (Nat.not_lt.mpr small), found]
  simp only
  split
  · cases BaseMeta.fillCache region thread sc heap <;> rfl
  · rfl

/-- Where the block of a returning `do_malloc` comes from. -/
theorem doMalloc_cases
    {thread size ptr : Nat}
    (accepted :
      BaseMeta.doMalloc region thread size heap = .ok (ptr, heap')) :
    (maxSz < size ∧
        BaseMeta.mallocWholeSb region size heap = .ok (ptr, heap')) ∨
      ∃ sc filled,
        size ≤ maxSz ∧
          ClassSize.sizeToIndex (ClassSize.roundUp size) = some sc ∧
          filledFor region heap thread sc = .ok filled ∧
          popFrom thread sc filled = (ptr, heap') := by
  rcases Nat.lt_or_ge maxSz size with large | small
  · unfold BaseMeta.doMalloc at accepted
    rw [if_pos large] at accepted
    exact Or.inl ⟨large, accepted⟩
  · cases found : ClassSize.sizeToIndex (ClassSize.roundUp size) with
    | none =>
        unfold BaseMeta.doMalloc at accepted
        rw [if_neg (Nat.not_lt.mpr small), found] at accepted
        cases accepted
    | some sc =>
        rw [doMalloc_small small found] at accepted
        cases fill : filledFor region heap thread sc with
        | error fault =>
            rw [fill] at accepted
            cases accepted
        | ok filled =>
            rw [fill] at accepted
            exact Or.inr ⟨sc, filled, small, rfl, fill,
              Except.ok.inj accepted⟩

/-- The heap `do_malloc` pops from is a filled one or the one it began with. -/
theorem filledFor_cases
    {thread sc : Nat}
    {filled : Heap}
    (accepted : filledFor region heap thread sc = .ok filled) :
    ((heap.cache thread sc).size = 0 ∧
        ∃ blockNum,
          BaseMeta.fillCache region thread sc heap =
            .ok (blockNum, filled)) ∨
      ((heap.cache thread sc).size ≠ 0 ∧ filled = heap) := by
  unfold filledFor at accepted
  split at accepted
  · next emptyList =>
      cases fill : BaseMeta.fillCache region thread sc heap with
      | error fault =>
          rw [fill] at accepted
          cases accepted
      | ok result =>
          rw [fill] at accepted
          obtain rfl : result.2 = filled := Except.ok.inj accepted
          exact Or.inl ⟨emptyList, result.1, rfl⟩
  · next nonempty =>
      exact Or.inr ⟨nonempty, (Except.ok.inj accepted).symm⟩

/-- The list `do_malloc` pops from has a block. -/
theorem Inv.filledFor
    (inv : Inv region heap)
    {thread sc : Nat}
    {filled : Heap}
    (valid : sc < nlist)
    (accepted : heap.filledFor region thread sc = .ok filled) :
    Inv region filled ∧
      (∀ j,
        Stray region filled j →
        Stray region heap j ∨
          ((heap.cache thread sc).size = 0 ∧ heap.TopEmpty sc)) ∧
      (∀ block,
        block ∈ heap.live →
        (filled.desc (region.owner block)).heap =
          (heap.desc (region.owner block)).heap) ∧
      filled.live = heap.live ∧
      1 ≤ (filled.cache thread sc).size := by
  rcases filledFor_cases accepted with
    ⟨emptyList, blockNum, fill⟩ | ⟨nonempty, rfl⟩
  · obtain ⟨newInv, strays, kept, sameLive, filledUp⟩ :=
      inv.fillCache valid emptyList fill
    exact ⟨newInv,
      fun j stray => (strays j stray).imp_right fun top => ⟨emptyList, top⟩,
      kept, sameLive, filledUp⟩
  · exact ⟨inv, fun _ stray => Or.inl stray, fun _ _ => rfl, rfl,
      Nat.pos_of_ne_zero nonempty⟩

/-- `do_malloc` makes one new block of at least the requested size live. -/
theorem Inv.doMalloc
    (inv : Inv region heap)
    {thread size ptr : Nat}
    (fits : size ≤ sbSize)
    (accepted :
      BaseMeta.doMalloc region thread size heap = .ok (ptr, heap')) :
    Served region heap thread size ptr heap' := by
  rcases doMalloc_cases accepted with
    ⟨large, whole⟩ | ⟨sc, filled, small, found, fill, popped⟩
  · exact inv.mallocWholeSb large fits whole
  · obtain ⟨valid, sameSize⟩ := ClassSize.sizeToIndex_sound found
    obtain ⟨newInv, strays, kept, sameLive, nonempty⟩ :=
      inv.filledFor valid fill
    obtain ⟨rfl, rfl⟩ := Prod.mk.inj popped
    refine ⟨newInv.popBlock nonempty, sameLive, ?_, ?_, kept⟩
    · obtain ⟨used, -⟩ := newInv.cacheHead nonempty
      have ok := newInv.control.geometry.descOk _ sc used
      have rounded := ClassSize.le_roundUp (by omega : size ≤ 65536)
      change size ≤ (filled.desc _).blockSize
      rw [ok.blockSize, blockBytes_small valid, sameSize]
      exact rounded
    · rintro j ⟨spare, absent⟩
      refine (strays j ⟨spare.congr rfl rfl, absent⟩).imp_right ?_
      rintro ⟨emptyList, topEmpty⟩
      exact ⟨small, sc, found, emptyList, topEmpty⟩

/--
A free that finds its free list too long and in it, one after the other, all
blocks of one superblock: the flush retires that superblock.
-/
def RetiringFree
    (region : SbRegion)
    (heap : Heap)
    (thread ptr : Nat) : Prop :=
  ∃ sc,
    (heap.desc (region.owner ptr)).heap = some sc ∧
      (heap.cache thread sc).maxsize < (heap.cache thread sc).size ∧
      WholeRun region heap thread sc

/-- Freeing a whole superblock queues it again. -/
theorem Inv.freeWholeSb
    (inv : Inv region heap)
    {ptr : Nat}
    (isLive : ptr ∈ heap.live)
    (used : (heap.desc (region.owner ptr)).heap = some nlist)
    (accepted :
      BaseMeta.largeSbRetire region
          (heap.desc (region.owner ptr)).superblock
          (heap.desc (region.owner ptr)).blockSize heap =
        .ok heap') :
    Inv region { heap' with live := heap'.live.erase ptr } ∧
      ∀ j, Stray region heap' j → Stray region heap j := by
  have geometry := inv.control.geometry
  have isBlock := inv.placement.isBlock .live isLive
  obtain ⟨-, index, -, early, shape⟩ := geometry.isBlock_cases isBlock
  generalize region.owner ptr = k at *
  have ok := geometry.descOk k nlist used
  have single : (heap.desc k).maxcount = 1 := by
    rw [ok.maxcount]
    rfl
  have ptrShape : ptr = region.sbAddr k := by
    rw [shape, show index = 0 by omega, Nat.zero_mul, Nat.add_zero]
  have full := inv.control.wholeFull k used
  have bytes : (heap.desc k).blockSize = sbSize := by
    rw [ok.blockSize]
    rfl
  have sbOwner : region.owner (heap.desc k).superblock = k := by
    rw [ok.superblock]
    exact owner_sbAddr (geometry.below used)
  unfold BaseMeta.largeSbRetire at accepted
  rw [bytes, if_neg (by simp), Nat.div_self (by decide),
    organizeSbList_eq region Nat.one_pos, sbOwner] at accepted
  obtain ⟨middle, queued, returned⟩ := bind_ok accepted
  obtain rfl : middle = heap' := Except.ok.inj returned
  unfold BaseMeta.enqueueBlank at queued
  split at queued
  · cases queued
  · have result := Except.ok.inj queued
    have here : (heap.setDesc k .blank).desc k = .blank := by
      simp [setDesc]
    have there :
        ∀ j, j ≠ k → (heap.setDesc k .blank).desc j = heap.desc j := by
      intro j distinct
      simp [setDesc, distinct]
    have control : Control region (heap.setDesc k .blank) := by
      refine inv.control.replaceDesc
        (fun sc' usedBy => only_heap used usedBy) ?_ ?_ ?_ ?_ ?_
      · intro sc' usedBy
        cases usedBy
      · intro usedBy
        cases usedBy
      · intro usedBy
        cases usedBy
      · intro inUse
        exact absurd rfl inUse
      · constructor
        · rintro ⟨-, state⟩
          rw [full] at state
          rcases state with state | state <;> cases state
        · rintro ⟨usedBy, -⟩
          cases usedBy
    have spare : Spare region (heap.setDesc k .blank) k :=
      ⟨by rw [here]; rfl, ok.indexPos, ok.inside⟩
    rw [← result]
    refine ⟨⟨?_, ?_⟩, ?_⟩
    · have enqueued :=
        control.enqueue spare (inv.control.not_queued used)
      exact enqueued.congr rfl rfl rfl rfl enqueued.maxsizePos
    · rw [ptrShape] at isLive ⊢
      exact (Placement.retireWhole geometry inv.placement used full
        isLive).congr rfl rfl rfl rfl
    · rintro j ⟨spareThere, absent⟩
      rw [List.mem_append, List.mem_singleton, not_or] at absent
      have blank := spareThere.blank
      change ((heap.setDesc k .blank).desc j).heap = none at blank
      rw [there j absent.2] at blank
      exact ⟨⟨blank, spareThere.indexPos, spareThere.inside⟩, absent.1⟩

/-- `do_free` of a live block keeps the invariant. -/
theorem Inv.doFree
    (inv : Inv region heap)
    {thread ptr : Nat}
    (isLive : ptr ∈ heap.live)
    (accepted : BaseMeta.doFree region thread ptr heap = .ok heap') :
    Inv region { heap' with live := heap'.live.erase ptr } ∧
      ∀ j,
        Stray region heap' j →
        Stray region heap j ∨ RetiringFree region heap thread ptr := by
  have geometry := inv.control.geometry
  have isBlock := inv.placement.isBlock .live isLive
  unfold BaseMeta.doFree at accepted
  rw [if_neg (geometry.block_ne_zero isBlock)] at accepted
  split at accepted
  · cases accepted
  · next inRange =>
      simp only at accepted
      split at accepted
      · cases accepted
      · next sc used =>
          split at accepted
          · next whole =>
              subst whole
              obtain ⟨newInv, strays⟩ := inv.freeWholeSb isLive used accepted
              exact ⟨newInv, fun j stray => Or.inl (strays j stray)⟩
          · next small =>
              have valid : sc < nlist := by
                have classLe := (geometry.descOk _ sc used).classLe
                omega
              have finish :
                  ∀ flushed,
                    Inv region flushed →
                    ptr ∈ flushed.live →
                    (flushed.desc (region.owner ptr)).heap = some sc →
                    (∀ j,
                      Stray region flushed j →
                      Stray region heap j ∨
                        RetiringFree region heap thread ptr) →
                    { flushed.setCache thread sc
                        ((flushed.cache thread sc).push
                          flushed.memory ptr).2 with
                      memory :=
                        ((flushed.cache thread sc).push
                          flushed.memory ptr).1 } = heap' →
                    Inv region { heap' with live := heap'.live.erase ptr } ∧
                      ∀ j,
                        Stray region heap' j →
                        Stray region heap j ∨
                          RetiringFree region heap thread ptr := by
                intro flushed newInv stillLive stillUsed strays sameHeap
                subst sameHeap
                refine ⟨newInv.pushBlock stillLive stillUsed, ?_⟩
                rintro j ⟨spare, absent⟩
                exact strays j ⟨spare.congr rfl rfl, absent⟩
              split at accepted
              · next long =>
                  obtain ⟨flushed, flush, pushing⟩ := bind_ok accepted
                  obtain ⟨done, -⟩ := inv.flushCache valid flush
                  have stillLive : ptr ∈ flushed.live := by
                    rw [done.sameLive]
                    exact isLive
                  have stillUsed :
                      (flushed.desc (region.owner ptr)).heap = some sc :=
                    ((done.kept _ (done.inv.live_used stillLive)).1).trans
                      used
                  refine finish flushed done.inv stillLive stillUsed ?_
                    (Except.ok.inj pushing)
                  intro j stray
                  refine (done.strays j stray).imp_right ?_
                  rintro ⟨sc', rfl, whole⟩
                  exact ⟨sc', used, long, whole⟩
              · exact finish heap inv isLive used
                  (fun _ stray => Or.inl stray) (Except.ok.inj accepted)

/-- A sequence of two calls fails when one of them does. -/
theorem bind_error
    {Error Value Result : Type}
    {first : Except Error Value}
    {second : Value → Except Error Result}
    {fault : Error}
    (rejected : first >>= second = .error fault) :
    first = .error fault ∨
      ∃ value, first = .ok value ∧ second value = .error fault := by
  cases first with
  | error other =>
      left
      injection rejected with same
      rw [same]
  | ok value => exact Or.inr ⟨value, rfl, rejected⟩

/-- Queueing superblocks can only fail with a full queue. -/
theorem enqueueFrom_error
    {k more : Nat}
    {fault : Fault}
    (rejected : BaseMeta.enqueueFrom k more heap = .error fault) :
    fault = .queueFull := by
  induction more generalizing k heap with
  | zero => cases rejected
  | succ more inductionHypothesis =>
      unfold BaseMeta.enqueueFrom at rejected
      rcases bind_error rejected with failed | ⟨middle, -, later⟩
      · unfold BaseMeta.enqueueBlank at failed
        split at failed
        · injection failed with same
          exact same.symm
        · cases failed
      · exact inductionHypothesis later

/-- `small_sb_alloc` can only fail for want of space or queue slots. -/
theorem smallSbAlloc_error
    {fault : Fault}
    (rejected : BaseMeta.smallSbAlloc region heap = .error fault) :
    fault = .queueFull ∨ fault = .outOfSpace := by
  unfold BaseMeta.smallSbAlloc at rejected
  split at rejected
  · cases rejected
  · simp only at rejected
    split at rejected
    · injection rejected with same
      exact Or.inr same.symm
    · rcases bind_error rejected with failed | ⟨middle, -, returned⟩
      · rw [organizeSbList_eq region (by decide)] at failed
        exact Or.inl (enqueueFrom_error failed)
      · cases returned

/-- `malloc_from_newsb` never fails at the state assertion. -/
theorem mallocFromNewsb_error
    {thread sc : Nat}
    {fault : Fault}
    (rejected :
      BaseMeta.mallocFromNewsb region thread sc heap = .error fault) :
    fault ≠ .notPartial := by
  unfold BaseMeta.mallocFromNewsb at rejected
  rcases bind_error rejected with failed | ⟨⟨superblock, middle⟩, -, rest⟩
  · rcases smallSbAlloc_error failed with same | same <;> simp [same]
  · simp only at rest
    split at rest
    · cases rest
    · rcases bind_error rest with failed | ⟨pushed, -, returned⟩
      · unfold heapPushPartial at failed
        split at failed
        · injection failed with same
          simp [← same]
        · cases failed
      · cases returned

/-- A whole superblock is refused for its size or for want of a superblock. -/
theorem mallocWholeSb_error
    {size : Nat}
    {fault : Fault}
    (rejected : BaseMeta.mallocWholeSb region size heap = .error fault) :
    fault = .tooLarge ∨ BaseMeta.smallSbAlloc region heap = .error fault := by
  unfold BaseMeta.mallocWholeSb at rejected
  simp only at rejected
  split at rejected
  · injection rejected with same
    exact Or.inl same.symm
  · rcases bind_error rejected with failed | ⟨value, -, returned⟩
    · exact Or.inr failed
    · cases returned

/-- Where a `do_malloc` that does not return stops. -/
theorem doMalloc_error
    {thread size : Nat}
    {fault : Fault}
    (rejected : BaseMeta.doMalloc region thread size heap = .error fault) :
    BaseMeta.mallocWholeSb region size heap = .error fault ∨
      fault = .noClass ∨
      ∃ sc,
        sc < nlist ∧
          (heap.cache thread sc).size = 0 ∧
          BaseMeta.fillCache region thread sc heap = .error fault := by
  rcases Nat.lt_or_ge maxSz size with large | small
  · unfold BaseMeta.doMalloc at rejected
    rw [if_pos large] at rejected
    exact Or.inl rejected
  · cases found : ClassSize.sizeToIndex (ClassSize.roundUp size) with
    | none =>
        unfold BaseMeta.doMalloc at rejected
        rw [if_neg (Nat.not_lt.mpr small), found] at rejected
        injection rejected with same
        exact Or.inr (Or.inl same.symm)
    | some sc =>
        rw [doMalloc_small small found] at rejected
        have valid := (ClassSize.sizeToIndex_sound found).1
        unfold filledFor at rejected
        split at rejected
        · next emptyList =>
            cases fill : BaseMeta.fillCache region thread sc heap with
            | error other =>
                rw [fill] at rejected
                injection rejected with same
                rw [same] at fill
                exact Or.inr (Or.inr ⟨sc, valid, emptyList, fill⟩)
            | ok result =>
                rw [fill] at rejected
                cases rejected
        · cases rejected

/-- The assertion `oldanchor.state == SB_PARTIAL` never fails. -/
theorem Inv.doMalloc_notPartial
    (inv : Inv region heap)
    (thread size : Nat) :
    BaseMeta.doMalloc region thread size heap ≠ .error .notPartial := by
  intro rejected
  rcases doMalloc_error rejected with
    whole | noClass | ⟨sc, valid, emptyList, failed⟩
  · rcases mallocWholeSb_error whole with tooLarge | failed
    · cases tooLarge
    · rcases smallSbAlloc_error failed with same | same <;> cases same
  · cases noClass
  · obtain ⟨taken, middle, fromPartial, -, -⟩ :=
      inv.mallocFromPartialLoop valid rfl emptyList
    rw [fillCache_of_loop fromPartial] at failed
    split at failed
    · exact mallocFromNewsb_error failed rfl
    · cases failed

end Heap

end Bxalloc
