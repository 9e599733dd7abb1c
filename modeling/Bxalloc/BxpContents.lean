import Bxalloc.BxpQueries

namespace Bxalloc

/-!
# Copied and zeroed bytes

`BXP_realloc` copies as many bytes as the old block has, whatever the size of
the new one, and `BXP_calloc` clears as many as `BXP_malloc_size` reports, after
a product that may wrap.  Where the new block is no smaller than the old one,
and the product no larger than `SBSIZE`, both stay inside their block.
-/

open Lib

namespace Bxp

variable {pool : Pool} {state : Bxp}

/-- What `BXP_calloc` promises about a pointer it returns. -/
structure Zeroed
    (pool : Pool)
    (state : Bxp)
    (thread num size ptr : Nat)
    (after : Bxp) : Prop where
  enough : num * size ≤ after.usable pool ptr
  zero :
    ∀ offset,
      offset < num * size →
      after.heap.memory (ptr + offset) = 0
  /-- Clearing the block changes no byte outside it. -/
  cleared :
    ∃ allocated,
      malloc pool thread (num * size % 2 ^ 64) state =
          some (ptr, allocated) ∧
        ∀ address,
          address < ptr ∨ ptr + after.usable pool ptr ≤ address →
          after.heap.memory address = allocated.heap.memory address
  /-- The whole call changes no byte of another pointer in use. -/
  others :
    ∀ other sz,
      (other, sz) ∈ state.requests →
      ∀ offset,
        offset < state.usable pool other →
        after.heap.memory (other + offset) =
          state.heap.memory (other + offset)

/-- A block served by `BXP_malloc` lies apart from all pointers in use. -/
theorem SmallServed.apart
    {sz ptr : Nat}
    {after : Bxp}
    (served : SmallServed pool state sz ptr after)
    (inv : Inv pool state)
    {other sz' offset : Nat}
    (requested : (other, sz') ∈ state.requests)
    (inside : offset < state.usable pool other) :
    after.heap.memory (other + offset) =
        state.heap.memory (other + offset) ∧
      (other + offset < ptr ∨
        ptr + after.usable pool ptr ≤ other + offset) := by
  have isLive : ptr ∈ after.heap.live := by
    rw [served.live]
    exact List.mem_cons_self
  have place := served.inv.small_place isLive
  rw [served.inv.usable_small isLive]
  rcases inv.backed other sz' requested with
    ⟨-, otherLive, -⟩ | ⟨-, b, otherLive, rfl⟩
  · rw [inv.usable_small otherLive] at inside
    have distinct : other ≠ ptr := by
      rintro rfl
      exact served.fresh otherLive
    have stillLive : other ∈ after.heap.live := by
      rw [served.live]
      exact List.mem_cons_of_mem _ otherLive
    have apart :=
      served.inv.heap.control.geometry.blocks_apart
        (served.inv.heap.placement.isBlock .live stillLive)
        (served.inv.heap.placement.isBlock .live isLive) distinct
    rw [(served.sameSize other otherLive).2] at apart
    refine ⟨(served.bytes ptr).live other otherLive distinct _
      (Nat.le_add_right _ _) (by omega), by omega⟩
  · rw [inv.usable_large otherLive] at inside
    have there := inv.large_place otherLive
    obtain ⟨starts, ends, mapped⟩ := pool.layout_bounds
    have regions := pool.apart
    simp only [sizeofBlockHeader] at inside ⊢
    exact ⟨(served.bytes ptr).outside _ (by omega), by omega⟩

/--
In every state of every clean run, a `BXP_calloc` whose product is at most
`SBSIZE` zeroes its block and nothing else.
-/
theorem calloc_zeroes
    (reached : Reaches (Initial pool) (CleanStep pool) state)
    {thread num size ptr : Nat}
    {after : Bxp}
    (fits : num * size ≤ sbSize)
    (returned : calloc pool thread num size state = some (ptr, after)) :
    Zeroed pool state thread num size ptr after := by
  have inv := Inv.of_reaches reached
  obtain ⟨allocated, allocation, served, rfl⟩ :=
    inv.calloc_returned fits returned
  have isLive : ptr ∈ allocated.heap.live := by
    rw [served.live]
    exact List.mem_cons_self
  have enough : num * size ≤ allocated.usable pool ptr := by
    rw [served.inv.usable_small isLive, served.size]
    exact served.enough
  have noWrap : num * size % 2 ^ 64 = num * size := by
    apply Nat.mod_eq_of_lt
    simp only [sbSize, pageSize] at fits
    omega
  refine ⟨enough, ?_, ⟨allocated, ?_, ?_⟩, ?_⟩
  · intro offset early
    exact Memory.fill_inside _ 0 (by omega)
  · rw [noWrap]
    exact allocation
  · intro address outside
    exact Memory.fill_outside _ 0 outside
  · intro other sz requested offset inside
    obtain ⟨same, apart⟩ := served.apart inv requested inside
    exact (Memory.fill_outside _ 0 apart).trans same

/-- A new block is not one of the live blocks of the superblock region. -/
theorem Inv.malloc_distinct
    (inv : Inv pool state)
    {thread sz newPtr ptr : Nat}
    {allocated : Bxp}
    (returned :
      Bxp.malloc pool thread sz state = some (newPtr, allocated))
    (isLive : ptr ∈ state.heap.live) :
    newPtr ≠ ptr := by
  rintro rfl
  by_cases small : sz ≤ sbSize
  · exact (inv.malloc_small small returned).fresh isLive
  · have served := inv.malloc_large (Nat.lt_of_not_le small) returned
    obtain ⟨b, rfl, live, -⟩ := served.block
    have newLive : b ∈ allocated.buddy.live := by
      rw [live]
      exact List.mem_cons_self
    have inside := (served.inv.large_place newLive).2.2.2
    rw [(inv.small_place isLive).2.2.2.2] at inside
    cases inside

/-- The first `BXP_malloc` of 24 KiB in a new heap. -/
theorem Initial.malloc_largest
    (initial : Initial pool state) :
    ∃ allocated,
      malloc pool 0 24576 state = some (pool.sb.sbAddr 1, allocated) ∧
        allocated.heap.queue.length = sbRegionExpandSize / sbSize - 2 := by
  obtain ⟨fresh, -, -⟩ := initial
  obtain ⟨rest, made⟩ := fresh.constructed
  obtain ⟨queue, -⟩ := fresh.lists
  have left : rest.length = sbRegionExpandSize / sbSize - 2 := by
    have counted := congrArg List.length (made.queue.symm.trans queue)
    rw [List.length_cons, List.length_range'] at counted
    omega
  unfold malloc
  rw [if_neg (by decide), made.doMalloc]
  exact ⟨_, rfl, left⟩

/-- Three eights of a 64 KiB superblock, zeroed. -/
theorem calloc_zeroes_24KiB :
    ∃ state ptr after,
      Reaches (Initial examplePool) (CleanStep examplePool) state ∧
        calloc examplePool 0 3 8192 state = some (ptr, after) ∧
        Zeroed examplePool state 0 3 8192 ptr after := by
  obtain ⟨heap, initial⟩ := examplePool_initial
  obtain ⟨allocated, returned, -⟩ := initial.malloc_largest
  have notNull : examplePool.sb.sbAddr 1 ≠ 0 := by
    decide
  have done :=
    @calloc_of_malloc examplePool _ 0 3 8192 _ _ returned notNull
  exact ⟨_, _, _, .start initial, done,
    calloc_zeroes (.start initial) (by decide) done⟩

/-- A product of `3 * 2 ^ 64 + 24576` bytes gets a block of 24576 bytes. -/
theorem calloc_product_wraps :
    ∃ state ptr after,
      Reaches (Initial examplePool) (Step examplePool) state ∧
        calloc examplePool 0 24576 (2 ^ 51 + 1) state = some (ptr, after) ∧
        ¬ Zeroed examplePool state 0 24576 (2 ^ 51 + 1) ptr after := by
  obtain ⟨heap, initial⟩ := examplePool_initial
  obtain ⟨allocated, returned, -⟩ := initial.malloc_largest
  have notNull : examplePool.sb.sbAddr 1 ≠ 0 := by
    decide
  have served :=
    (Inv.of_reaches (.start initial)).malloc_small (by decide) returned
  have isLive : examplePool.sb.sbAddr 1 ∈ allocated.heap.live := by
    rw [served.live]
    exact List.mem_cons_self
  have bytes := served.inv.usable_small isLive
  rw [served.size, show capacity 24576 = 24576 by decide +kernel] at bytes
  have wraps : 24576 * (2 ^ 51 + 1) % 2 ^ 64 = 24576 := by
    decide
  rw [← wraps] at returned
  have done := calloc_of_malloc returned notNull
  refine ⟨_, _, _, .start initial, done, ?_⟩
  rintro ⟨enough, -, -, -⟩
  rw [usable_setMemory, bytes] at enough
  revert enough
  decide

/-- A heap with one object of 24 KiB that can serve a whole superblock. -/
theorem exists_growing :
    ∃ state newPtr allocated,
      Reaches (Initial examplePool) (CleanStep examplePool) state ∧
        (examplePool.sb.sbAddr 1, 24576) ∈ state.requests ∧
        state.mallocSize examplePool (examplePool.sb.sbAddr 1) = 24576 ∧
        state.inSb examplePool (examplePool.sb.sbAddr 1) = true ∧
        state.heap.queue.length = sbRegionExpandSize / sbSize - 2 ∧
        malloc examplePool 0 sbSize state = some (newPtr, allocated) := by
  obtain ⟨heap, initial⟩ := examplePool_initial
  obtain ⟨state, returned, queued⟩ := initial.malloc_largest
  have served :=
    (Inv.of_reaches (.start initial)).malloc_small (by decide) returned
  have reached :
      Reaches (Initial examplePool) (CleanStep examplePool) state :=
    (Reaches.start initial).next ⟨.malloc returned, trivial⟩
  have requested : (examplePool.sb.sbAddr 1, 24576) ∈ state.requests := by
    rw [served.requests]
    exact List.mem_cons_self
  have isLive : examplePool.sb.sbAddr 1 ∈ state.heap.live := by
    rw [served.live]
    exact List.mem_cons_self
  obtain ⟨oldShape, inside⟩ := served.inv.mallocSize_small isLive
  rw [served.size, show capacity 24576 = 24576 by decide +kernel] at oldShape
  have someQueued : state.heap.queue ≠ [] := by
    intro none
    rw [none] at queued
    revert queued
    decide
  obtain ⟨ptr, heap', accepted, -, -⟩ :=
    Heap.mallocWholeSb_supply served.inv.heap (Or.inl someQueued) 0
  have allocation :
      malloc examplePool 0 sbSize state =
        some (ptr,
          { state with
            heap := { heap' with live := ptr :: heap'.live }
            requests := (ptr, sbSize) :: state.requests }) := by
    unfold malloc
    rw [if_neg (Nat.lt_irrefl _), accepted]
  exact ⟨state, ptr, _, reached, requested, oldShape, inside, queued,
    allocation⟩

end Bxp

end Bxalloc
