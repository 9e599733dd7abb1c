import Bxalloc.BxpRuns

namespace Bxalloc

/-!
# Sizes and queries

Which request sizes `BXP_malloc` honours, and for which pointers the queries
`BXP_in_prange` and `BXP_malloc_size` speak about the pointer's own block.  A
request above `SBSIZE` passes through the `int` parameter of the buddy
allocator, and the queries only know the superblock region.
-/

open Lib

namespace Buddy

variable {layout : BuddyLayout} {state : Buddy} {items : Nat → List Nat}

/-- The header and a narrowed request, as `alloc` adds them up. -/
theorem need_int32
    (sz : Nat) :
    need (int32 sz) =
      if (sz + 16) % 2 ^ 32 < 2 ^ 31 then
        (((sz + 16) % 2 ^ 32 : Nat) : Int)
      else
        (((sz + 16) % 2 ^ 32 : Nat) : Int) - 2 ^ 32 := by
  unfold need int32
  simp only [sizeofBlockHeader, Int.bmod_add_bmod]
  rw [Int.bmod_def]
  norm_num
  split_ifs <;> omega

end Buddy

namespace Bxp

variable {pool : Pool} {state : Bxp}

/-- What `BXP_malloc(sz)` promises in a state about the size of its block. -/
structure SizeHonoured
    (pool : Pool)
    (state : Bxp)
    (thread sz : Nat) : Prop where
  enough :
    ∀ ptr after,
      malloc pool thread sz state = some (ptr, after) →
      sz ≤ after.usable pool ptr
  classFound :
    sz ≤ maxSz →
    ClassSize.sizeToIndex (ClassSize.roundUp sz) ≠ none

/--
The sizes that survive the conversion to `int` and the sum with the header; a
size whose low 32 bits ask for more than a maximal block never returns.
-/
def Honourable (sz : Nat) : Prop :=
  1 ≤ sz ∧
    (sz < 2 ^ 31 - 16 ∨
      (2 ^ 30 - 16 < sz % 2 ^ 32 ∧ sz % 2 ^ 32 < 2 ^ 31 - 16))

/-- A large object is no larger than the arena. -/
theorem Inv.sizeAt_le
    (inv : Inv pool state)
    {b : Nat}
    (isLive : b ∈ state.buddy.live) :
    Buddy.sizeAt state.buddy b ≤ 2 ^ 30 := by
  have place := inv.large_place isLive
  obtain ⟨starts, ends, -⟩ := pool.layout_bounds
  omega

/-- Honourable sizes are honoured. -/
theorem Inv.sizeHonoured
    (inv : Inv pool state)
    {thread sz : Nat}
    (honourable : Honourable sz) :
    SizeHonoured pool state thread sz := by
  obtain ⟨positive, narrow⟩ := honourable
  refine ⟨?_, ?_⟩
  · intro ptr after returned
    by_cases small : sz ≤ sbSize
    · have served := inv.malloc_small small returned
      have isLive : ptr ∈ after.heap.live := by
        rw [served.live]
        exact List.mem_cons_self
      rw [served.inv.usable_small isLive, served.size]
      exact served.enough
    · have served := inv.malloc_large (Nat.lt_of_not_le small) returned
      obtain ⟨b, rfl, live, enough⟩ := served.block
      have isLive : b ∈ after.buddy.live := by
        rw [live]
        exact List.mem_cons_self
      have upper := served.inv.sizeAt_le isLive
      rw [served.inv.usable_large isLive]
      rw [Buddy.need_int32] at enough
      simp only [sizeofBlockHeader]
      split_ifs at enough <;> omega
  · intro routed missing
    obtain ⟨index, found⟩ := ClassSize.sizeToIndex_roundUp positive routed
    rw [found] at missing
    cases missing

/-- A heap of one expansion and its large-object region. -/
def examplePool : Pool where
  sb := Heap.exampleRegion
  larBase := 2 ^ 40
  mapped := Large.example_mapped
  apart := Or.inl (by decide)
  foreign := fun _ => 0

/-- The example heap can be created. -/
theorem examplePool_initial :
    ∃ heap,
      Initial examplePool
        { heap := heap
          buddy := Large.exampleLarge.buddy
          requests := [] } := by
  obtain ⟨heap, fresh⟩ := Heap.exists_fresh Heap.exampleRegion_room
  exact ⟨heap, fresh, Large.exampleLarge_initial.2, rfl⟩

/-- The first large object of the example heap. -/
theorem examplePool_malloc
    {heap : Heap}
    {sz : Nat}
    (large : sbSize < sz)
    (narrowed : Buddy.int32 sz = 100000) :
    ∃ buddy,
      malloc examplePool 0 sz
          { heap := heap
            buddy := Large.exampleLarge.buddy
            requests := [] } =
        some (2 ^ 40 + 4112,
          { heap := heap
            buddy := buddy
            requests := [(2 ^ 40 + 4112, sz)] }) ∧
        Buddy.sizeAt buddy (2 ^ 40 + 4096) = 2 ^ 17 := by
  have executed :
      (Buddy.alloc (Large.layoutAt (2 ^ 40)) 100000
          Large.exampleLarge.buddy).map
        (fun result =>
          (result.1, Buddy.sizeAt result.2 (2 ^ 40 + 4096))) =
        some (2 ^ 40 + 4112, 2 ^ 17) := by
    decide +kernel
  obtain ⟨⟨ptr, buddy⟩, allocated, facts⟩ :=
    Option.map_eq_some_iff.mp executed
  obtain ⟨rfl, size⟩ := Prod.mk.inj facts
  refine ⟨buddy, ?_, size⟩
  unfold malloc
  rw [if_pos large, narrowed]
  change Option.bind (Buddy.alloc (Large.layoutAt (2 ^ 40)) 100000
    Large.exampleLarge.buddy) _ = _
  rw [allocated]
  rfl

/-- The queries about a pointer speak about the block that serves it. -/
structure QueriesAgree
    (pool : Pool)
    (state : Bxp)
    (ptr sz : Nat) : Prop where
  /-- `BXP_free` goes to the allocator that `BXP_malloc` chose. -/
  routed : pool.inLarge ptr = true ↔ sbSize < sz
  inPrange : state.inPrange pool ptr = 1
  /-- The descriptor that `BXP_malloc_size` reads has `ptr` as a block. -/
  ownDescriptor :
    pool.sb.start ≤ ptr ∧
      ptr < pool.sb.limit ∧
      (state.heap.desc (pool.sb.owner ptr)).heap ≠ none ∧
      ptr ∈ state.heap.blocks pool.sb (pool.sb.owner ptr)
  atLeast : sz ≤ state.mallocSize pool ptr
  atMost : state.mallocSize pool ptr ≤ state.usable pool ptr

/--
In every run of clean steps the queries agree for a pointer in use exactly
when its size was at most `SBSIZE`.
-/
theorem queriesAgree_iff_small
    (reached : Reaches (Initial pool) (CleanStep pool) state)
    {ptr sz : Nat}
    (requested : (ptr, sz) ∈ state.requests) :
    QueriesAgree pool state ptr sz ↔ sz ≤ sbSize := by
  have inv := Inv.of_reaches reached
  rcases inv.backed ptr sz requested with
    ⟨small, isLive, holds⟩ | ⟨large, b, isLive, rfl⟩
  · refine ⟨fun _ => small, fun _ => ?_⟩
    have place := inv.small_place isLive
    obtain ⟨size, inside⟩ := inv.mallocSize_small isLive
    have geometry := inv.heap.control.geometry
    refine ⟨?_, ?_, ⟨place.1, by omega, inv.heap.live_used isLive, ?_⟩, ?_,
      ?_⟩
    · rw [place.2.2.2.2]
      simp only [Bool.false_eq_true, false_iff]
      omega
    · unfold Bxp.inPrange
      rw [if_pos inside]
    · exact geometry.mem_blocks_owner
        (inv.heap.placement.isBlock .live isLive)
    · rw [size]
      exact holds
    · rw [size, inv.usable_small isLive]
  · refine ⟨?_, fun small => absurd small (Nat.not_le.mpr large)⟩
    rintro ⟨-, inPrange, -, -, -⟩
    unfold Bxp.inPrange at inPrange
    rw [inv.inSb_large isLive] at inPrange
    cases inPrange

/-- A large object of 100000 bytes in the example heap. -/
theorem examplePool_large :
    ∃ state,
      Reaches (Initial examplePool) (CleanStep examplePool) state ∧
        (2 ^ 40 + 4112, 100000) ∈ state.requests := by
  obtain ⟨heap, initial⟩ := examplePool_initial
  obtain ⟨buddy, returned, -⟩ :=
    @examplePool_malloc heap 100000 (by decide) (by decide)
  have step :
      CleanStep examplePool _ (.malloc 0 100000) _ :=
    ⟨.malloc returned, trivial⟩
  exact ⟨_, (Reaches.start initial).next step, List.mem_cons_self⟩

/-- The queries about that object and its size, as the theorem has them. -/
theorem queriesAgree_iff_small_large :
    ∃ state,
      Reaches (Initial examplePool) (CleanStep examplePool) state ∧
        (QueriesAgree examplePool state (2 ^ 40 + 4112) 100000 ↔
          100000 ≤ sbSize) := by
  obtain ⟨state, reached, requested⟩ := examplePool_large
  exact ⟨state, reached, queriesAgree_iff_small reached requested⟩

/-- A live large object is reported to lie outside the heap. -/
theorem large_object_not_in_prange :
    ∃ state,
      Reaches (Initial examplePool) (Step examplePool) state ∧
        (2 ^ 40 + 4112, 100000) ∈ state.requests ∧
        state.inPrange examplePool (2 ^ 40 + 4112) = 0 ∧
        ¬ QueriesAgree examplePool state (2 ^ 40 + 4112) 100000 := by
  obtain ⟨state, reached, requested⟩ := examplePool_large
  have inv := Inv.of_reaches reached
  have outside : state.inPrange examplePool (2 ^ 40 + 4112) = 0 := by
    rcases inv.backed _ _ requested with
      ⟨small, -, -⟩ | ⟨-, b, isLive, shape⟩
    · exact absurd small (by decide)
    · unfold Bxp.inPrange
      rw [shape, inv.inSb_large isLive]
      rfl
  refine ⟨state, reached.mono (fun _ _ _ step => step.1), requested,
    outside, ?_⟩
  rintro ⟨-, inPrange, -, -, -⟩
  rw [outside] at inPrange
  cases inPrange

end Bxp

end Bxalloc
