import Bxalloc.Bxp

namespace Bxalloc

/-!
# Runs of the interface

In every run of clean steps both allocators keep their invariants, and every
pointer in use is a live block of the allocator that its size chose.
-/

open Lib

/-- `do_malloc` takes the block from a class or superblock of the capacity. -/
theorem Heap.Inv.doMalloc_capacity
    {region : SbRegion}
    {heap heap' : Heap}
    (inv : Heap.Inv region heap)
    {thread size ptr : Nat}
    (fits : size ≤ sbSize)
    (accepted :
      BaseMeta.doMalloc region thread size heap = .ok (ptr, heap')) :
    (heap'.desc (region.owner ptr)).blockSize = Bxp.capacity size := by
  unfold Bxp.capacity
  rcases Heap.doMalloc_cases accepted with
    ⟨large, whole⟩ | ⟨sc, filled, small, found, fill, popped⟩
  · rw [if_pos large]
    obtain ⟨middle, -, rfl⟩ := Heap.mallocWholeSb_cases whole
    simp [Heap.setDesc, Heap.roundUpTo_sbSize (by omega) fits]
  · rw [if_neg (Nat.not_lt.mpr small)]
    obtain ⟨valid, sameSize⟩ := ClassSize.sizeToIndex_sound found
    obtain ⟨newInv, -, -, -, nonempty⟩ := inv.filledFor valid fill
    obtain ⟨rfl, rfl⟩ := Prod.mk.inj popped
    obtain ⟨used, -⟩ := newInv.cacheHead nonempty
    have ok := newInv.control.geometry.descOk _ sc used
    change (filled.desc _).blockSize = _
    rw [ok.blockSize, blockBytes_small valid, sameSize]

namespace Bxp

variable {pool : Pool} {state state' : Bxp}

/-- New bytes leave the sizes of all blocks alone. -/
@[simp] theorem usable_setMemory
    (state : Bxp)
    (memory : Memory)
    (ptr : Nat) :
    (state.setMemory memory).usable pool ptr = state.usable pool ptr :=
  rfl

/-- `BXP_calloc` clears what `BXP_malloc` of the wrapped product returned. -/
theorem calloc_of_malloc
    {thread num size ptr : Nat}
    {allocated : Bxp}
    (returned :
      malloc pool thread (num * size % 2 ^ 64) state =
        some (ptr, allocated))
    (notNull : ptr ≠ 0) :
    calloc pool thread num size state =
      some (ptr,
        allocated.setMemory
          (allocated.heap.memory.fill ptr
            (allocated.mallocSize pool ptr) 0)) := by
  unfold calloc
  simp only [returned, bind, Option.bind_some, if_neg notNull]
  rfl

/-- A pointer in use is a live block of the allocator its size chose. -/
def Backed (pool : Pool) (state : Bxp) (ptr sz : Nat) : Prop :=
  (sz ≤ sbSize ∧
      ptr ∈ state.heap.live ∧
      sz ≤ (state.heap.desc (pool.sb.owner ptr)).blockSize) ∨
    (sbSize < sz ∧
      ∃ b, b ∈ state.buddy.live ∧ ptr = b + sizeofBlockHeader)

/-- The invariant of both allocators and of the pointers in use. -/
structure Inv (pool : Pool) (state : Bxp) : Prop where
  heap : Heap.Inv pool.sb state.heap
  arena : ∃ items, Buddy.Partition pool.layout state.buddy items []
  backed :
    ∀ ptr sz, (ptr, sz) ∈ state.requests → Backed pool state ptr sz

namespace Inv

/-- Live blocks of the superblock region are no large objects. -/
theorem small_place
    (inv : Inv pool state)
    {ptr : Nat}
    (isLive : ptr ∈ state.heap.live) :
    pool.sb.start ≤ ptr ∧
      ptr + (state.heap.desc (pool.sb.owner ptr)).blockSize ≤
        state.heap.currAddr ∧
      8 ≤ (state.heap.desc (pool.sb.owner ptr)).blockSize ∧
      state.heap.currAddr ≤ pool.sb.limit ∧
      pool.inLarge ptr = false := by
  have geometry := inv.heap.control.geometry
  have isBlock := inv.heap.placement.isBlock .live isLive
  have inRegion := geometry.block_inRegion isBlock
  have window := geometry.block_window isBlock
  have below := geometry.currBelow
  obtain ⟨starts, ends, mapped⟩ := pool.layout_bounds
  have apart := pool.apart
  refine ⟨inRegion.1, inRegion.2, window.2.2.1, below, ?_⟩
  unfold Pool.inLarge
  rw [decide_eq_false_iff_not]
  omega

/-- Large objects lie in the arena. -/
theorem large_place
    (inv : Inv pool state)
    {b : Nat}
    (isLive : b ∈ state.buddy.live) :
    pool.layout.start ≤ b ∧
      b + Buddy.sizeAt state.buddy b ≤ pool.layout.finish ∧
      2 ^ 17 ≤ Buddy.sizeAt state.buddy b ∧
      pool.inLarge (b + sizeofBlockHeader) = true := by
  obtain ⟨items, partition⟩ := inv.arena
  have isTile : Buddy.Tile state.buddy items [] b := ⟨.live, isLive⟩
  have lower := partition.tiles.lower b isTile
  have upper := partition.tiles.upper b isTile
  obtain ⟨i, -, size⟩ := partition.level isTile
  have atLeast : 2 ^ 17 ≤ Buddy.sizeAt state.buddy b := by
    rw [size, Buddy.levelSize_eq_pow]
    exact Nat.pow_le_pow_right (by decide) (Nat.le_add_left 17 i)
  refine ⟨lower, upper, atLeast, ?_⟩
  unfold Pool.inLarge
  rw [decide_eq_true_eq]
  simp only [sizeofBlockHeader]
  omega

/-- The user's bytes of a live block of the superblock region. -/
theorem usable_small
    (inv : Inv pool state)
    {ptr : Nat}
    (isLive : ptr ∈ state.heap.live) :
    state.usable pool ptr =
      (state.heap.desc (pool.sb.owner ptr)).blockSize := by
  unfold usable
  rw [(inv.small_place isLive).2.2.2.2]
  rfl

/-- The user's bytes of a large object. -/
theorem usable_large
    (inv : Inv pool state)
    {b : Nat}
    (isLive : b ∈ state.buddy.live) :
    state.usable pool (b + sizeofBlockHeader) =
      Buddy.sizeAt state.buddy b - sizeofBlockHeader := by
  unfold usable
  rw [(inv.large_place isLive).2.2.2, Nat.add_sub_cancel]
  rfl

/-- Pointers in use are not null. -/
theorem backed_ne_zero
    (inv : Inv pool state)
    {ptr sz : Nat}
    (backed : Backed pool state ptr sz) :
    ptr ≠ 0 := by
  rcases backed with ⟨-, isLive, -⟩ | ⟨-, b, -, rfl⟩
  · exact inv.heap.control.geometry.block_ne_zero
      (inv.heap.placement.isBlock .live isLive)
  · simp [sizeofBlockHeader]

end Inv

/-- What a `BXP_malloc` of up to `SBSIZE` bytes does. -/
structure SmallServed
    (pool : Pool)
    (state : Bxp)
    (sz ptr : Nat)
    (after : Bxp) : Prop where
  inv : Inv pool after
  requests : after.requests = (ptr, sz) :: state.requests
  sameBuddy : after.buddy = state.buddy
  live : after.heap.live = ptr :: state.heap.live
  fresh : ptr ∉ state.heap.live
  size :
    (after.heap.desc (pool.sb.owner ptr)).blockSize = capacity sz
  enough : sz ≤ capacity sz
  sameSize :
    ∀ block,
      block ∈ state.heap.live →
      (after.heap.desc (pool.sb.owner block)).heap =
          (state.heap.desc (pool.sb.owner block)).heap ∧
        (after.heap.desc (pool.sb.owner block)).blockSize =
          (state.heap.desc (pool.sb.owner block)).blockSize
  bytes : Heap.Kept pool.sb state.heap after.heap.memory
  supply : Heap.Grown state.heap after.heap

/-- `BXP_malloc` of up to `SBSIZE` bytes. -/
theorem Inv.malloc_small
    (inv : Inv pool state)
    {thread sz ptr : Nat}
    {after : Bxp}
    (small : sz ≤ sbSize)
    (returned : malloc pool thread sz state = some (ptr, after)) :
    SmallServed pool state sz ptr after := by
  unfold malloc at returned
  rw [if_neg (Nat.not_lt.mpr small)] at returned
  split at returned
  · cases returned
  · next served heap accepted =>
      obtain ⟨rfl, rfl⟩ := Prod.mk.inj (Option.some.inj returned)
      have result := inv.heap.doMalloc small accepted
      have size := inv.heap.doMalloc_capacity small accepted
      have enough := result.enough
      have noDuplicates := result.inv.placement.splits.nodup .live
      have sameLive := result.sameLive
      have supply := inv.heap.doMalloc_grown accepted
      have bytes := inv.heap.doMalloc_kept accepted
      refine ⟨⟨result.inv, inv.arena, ?_⟩, rfl, rfl, ?_, ?_, size, ?_, ?_,
        bytes, supply⟩
      · intro other sz' requested
        rcases List.mem_cons.mp requested with isNew | old
        · obtain ⟨rfl, rfl⟩ := Prod.mk.inj isNew
          exact Or.inl ⟨small, List.mem_cons_self, enough⟩
        · refine (inv.backed other sz' old).imp ?_ id
          rintro ⟨fits, isLive, holds⟩
          refine ⟨fits, List.mem_cons_of_mem _ ?_, ?_⟩
          · rw [sameLive]
            exact isLive
          · rw [result.sameSize inv.heap isLive]
            exact holds
      · change _ :: heap.live = _
        rw [sameLive]
      · rw [← sameLive]
        exact (List.nodup_cons.mp noDuplicates).1
      · rw [← size]
        exact enough
      · intro block isLive
        exact ⟨result.liveKept block isLive,
          result.sameSize inv.heap isLive⟩

/-- What a `BXP_malloc` of more than `SBSIZE` bytes does. -/
structure LargeServed
    (pool : Pool)
    (state : Bxp)
    (sz ptr : Nat)
    (after : Bxp) : Prop where
  inv : Inv pool after
  requests : after.requests = (ptr, sz) :: state.requests
  sameHeap : after.heap = state.heap
  block :
    ∃ b,
      ptr = b + sizeofBlockHeader ∧
        after.buddy.live = b :: state.buddy.live ∧
        Buddy.need (Buddy.int32 sz) ≤ Buddy.sizeAt after.buddy b

/-- `BXP_malloc` of more than `SBSIZE` bytes. -/
theorem Inv.malloc_large
    (inv : Inv pool state)
    {thread sz ptr : Nat}
    {after : Bxp}
    (large : sbSize < sz)
    (returned : malloc pool thread sz state = some (ptr, after)) :
    LargeServed pool state sz ptr after := by
  unfold malloc at returned
  rw [if_pos large] at returned
  simp only [bind, Option.bind_eq_some_iff] at returned
  obtain ⟨⟨a, buddy⟩, allocated, rest⟩ := returned
  obtain ⟨rfl, rfl⟩ := Prod.mk.inj (Option.some.inj rest)
  obtain ⟨items, partition⟩ := inv.arena
  obtain ⟨b, items', shape, partition', live, enough⟩ :=
    partition.alloc allocated
  refine ⟨⟨inv.heap, ⟨items', partition'⟩, ?_⟩, rfl, rfl, b, shape, live,
    enough⟩
  intro other sz' requested
  rcases List.mem_cons.mp requested with isNew | old
  · obtain ⟨rfl, rfl⟩ := Prod.mk.inj isNew
    refine Or.inr ⟨large, b, ?_, shape⟩
    rw [live]
    exact List.mem_cons_self
  · refine (inv.backed other sz' old).imp id ?_
    rintro ⟨big, c, isLive, place⟩
    refine ⟨big, c, ?_, place⟩
    rw [live]
    exact List.mem_cons_of_mem _ isLive

/-- `BXP_malloc` keeps the invariant. -/
theorem Inv.malloc
    (inv : Inv pool state)
    {thread sz ptr : Nat}
    {after : Bxp}
    (returned : Bxp.malloc pool thread sz state = some (ptr, after)) :
    Inv pool after := by
  by_cases small : sz ≤ sbSize
  · exact (inv.malloc_small small returned).inv
  · exact (inv.malloc_large (Nat.lt_of_not_le small) returned).inv

/-- What is still requested after a free was requested before. -/
theorem mem_withdraw
    {ptr other sz : Nat} :
    (other, sz) ∈ state.withdraw ptr ↔
      (other, sz) ∈ state.requests ∧ other ≠ ptr := by
  simp [withdraw]

/-- `BXP_free` of a live block of the superblock region. -/
theorem Inv.free_small
    (inv : Inv pool state)
    {thread ptr : Nat}
    {heap' : Heap}
    (isLive : ptr ∈ state.heap.live)
    (accepted :
      BaseMeta.doFree pool.sb thread ptr state.heap = .ok heap') :
    free pool thread ptr state =
        some
          { state with
            heap := { heap' with live := heap'.live.erase ptr }
            requests := state.withdraw ptr } ∧
      Inv pool
        { state with
          heap := { heap' with live := heap'.live.erase ptr }
          requests := state.withdraw ptr } := by
  have released := inv.heap.doFree_frame isLive accepted
  refine ⟨?_, released.inv, inv.arena, ?_⟩
  · unfold free
    rw [(inv.small_place isLive).2.2.2.2, accepted]
    rfl
  · intro other sz requested
    obtain ⟨before, differs⟩ := mem_withdraw.mp requested
    refine (inv.backed other sz before).imp ?_ id
    rintro ⟨fits, otherLive, holds⟩
    refine ⟨fits, ?_, ?_⟩
    · change other ∈ heap'.live.erase ptr
      rw [released.sameLive]
      exact (List.mem_erase_of_ne differs).mpr otherLive
    · change sz ≤ (heap'.desc _).blockSize
      rw [released.liveKept other otherLive differs]
      exact holds

/-- `BXP_free` of a large object. -/
theorem Inv.free_large
    (inv : Inv pool state)
    {thread b : Nat}
    {after : Bxp}
    (isLive : b ∈ state.buddy.live)
    (clean : Buddy.CleanFree pool.layout state.buddy b)
    (returned :
      free pool thread (b + sizeofBlockHeader) state = some after) :
    Inv pool after := by
  obtain ⟨items, partition⟩ := inv.arena
  obtain ⟨buddy, items', freed, partition', live⟩ :=
    partition.free isLive clean
  unfold free at returned
  rw [(inv.large_place isLive).2.2.2] at returned
  simp only [if_true, bind, freed, Option.bind_some] at returned
  obtain rfl := Option.some.inj returned
  refine ⟨inv.heap, ⟨items', partition'⟩, ?_⟩
  intro other sz requested
  obtain ⟨before, differs⟩ := mem_withdraw.mp requested
  refine (inv.backed other sz before).imp id ?_
  rintro ⟨big, c, otherLive, place⟩
  refine ⟨big, c, ?_, place⟩
  change c ∈ buddy.live
  rw [live]
  refine (List.mem_erase_of_ne ?_).mpr otherLive
  rintro rfl
  exact differs place

/-- A clean `BXP_free` of a pointer in use keeps the invariant. -/
theorem Inv.free
    (inv : Inv pool state)
    {thread ptr sz : Nat}
    {after : Bxp}
    (requested : (ptr, sz) ∈ state.requests)
    (clean : state.Clean pool (.free thread ptr))
    (returned : Bxp.free pool thread ptr state = some after) :
    Inv pool after := by
  rcases inv.backed ptr sz requested with
    ⟨-, isLive, -⟩ | ⟨-, b, isLive, rfl⟩
  · unfold Bxp.free at returned
    rw [(inv.small_place isLive).2.2.2.2] at returned
    simp only [Bool.false_eq_true, if_false] at returned
    split at returned
    · cases returned
    · next heap' accepted =>
        obtain rfl := Option.some.inj returned
        exact (inv.free_small isLive accepted).2
  · refine inv.free_large isLive ?_ returned
    have cleanFree := clean (inv.large_place isLive).2.2.2
    rwa [Nat.add_sub_cancel] at cleanFree

/-- Stores into the bytes of pointers in use keep the invariant. -/
theorem Inv.store
    (inv : Inv pool state)
    {memory : Memory}
    {header : Nat → BlockHeader}
    (bytes :
      ∀ address,
        (∀ ptr sz,
          (ptr, sz) ∈ state.requests →
          address < ptr ∨ ptr + state.usable pool ptr ≤ address) →
        memory address = state.heap.memory address)
    (headers :
      ∀ address,
        (∀ b,
          b ∈ state.buddy.live →
          address ≤ b ∨ b + Buddy.sizeAt state.buddy b ≤ address) →
        header address = state.buddy.header address) :
    Inv pool
      { state.setMemory memory with
        buddy := { state.buddy with header := header } } := by
  have newHeap :
      Heap.Inv pool.sb { state.heap with memory := memory } := by
    refine inv.heap.overwrite ?_
    intro address lower upper outside
    refine bytes address ?_
    intro ptr sz requested
    rcases inv.backed ptr sz requested with
      ⟨-, isLive, -⟩ | ⟨-, b, isLive, rfl⟩
    · rw [inv.usable_small isLive]
      exact outside ptr isLive
    · rw [inv.usable_large isLive]
      have place := inv.large_place isLive
      obtain ⟨starts, ends, mapped⟩ := pool.layout_bounds
      have apart := pool.apart
      omega
  obtain ⟨items, partition⟩ := inv.arena
  exact ⟨newHeap, ⟨items, partition.store headers⟩, inv.backed⟩

/-- Stores into the bytes of one pointer in use keep the invariant. -/
theorem Inv.setMemory
    (inv : Inv pool state)
    {memory : Memory}
    {ptr sz : Nat}
    (requested : (ptr, sz) ∈ state.requests)
    (same :
      ∀ address,
        address < ptr ∨ ptr + state.usable pool ptr ≤ address →
        memory address = state.heap.memory address) :
    Inv pool (state.setMemory memory) :=
  inv.store (fun address outside => same address (outside ptr sz requested))
    (fun _ _ => rfl)

/-- A live block of the superblock region has its own descriptor. -/
theorem Inv.mallocSize_small
    (inv : Inv pool state)
    {ptr : Nat}
    (isLive : ptr ∈ state.heap.live) :
    state.mallocSize pool ptr =
        (state.heap.desc (pool.sb.owner ptr)).blockSize ∧
      state.inSb pool ptr = true := by
  have place := inv.small_place isLive
  constructor
  · unfold mallocSize
    rw [if_pos (by omega)]
  · unfold inSb
    rw [decide_eq_true_eq]
    omega

/-- Large objects lie outside the superblock region. -/
theorem Inv.inSb_large
    (inv : Inv pool state)
    {b : Nat}
    (isLive : b ∈ state.buddy.live) :
    state.inSb pool (b + sizeofBlockHeader) = false := by
  have place := inv.large_place isLive
  have below := inv.heap.control.geometry.currBelow
  obtain ⟨starts, ends, mapped⟩ := pool.layout_bounds
  have apart := pool.apart
  unfold inSb
  rw [decide_eq_false_iff_not]
  simp only [sizeofBlockHeader]
  omega

/-- The block that serves a request holds an old block of clean size. -/
theorem Inv.malloc_holds
    (inv : Inv pool state)
    {thread oldSize newSize newPtr : Nat}
    {allocated : Bxp}
    (returned :
      Bxp.malloc pool thread newSize state = some (newPtr, allocated))
    (oldFits : oldSize ≤ sbSize)
    (clean : newSize ≤ sbSize → oldSize ≤ capacity newSize) :
    oldSize ≤ allocated.usable pool newPtr := by
  by_cases small : newSize ≤ sbSize
  · have served := inv.malloc_small small returned
    have isLive : newPtr ∈ allocated.heap.live := by
      rw [served.live]
      exact List.mem_cons_self
    rw [served.inv.usable_small isLive, served.size]
    exact clean small
  · have served := inv.malloc_large (Nat.lt_of_not_le small) returned
    obtain ⟨b, rfl, live, -⟩ := served.block
    have isLive : b ∈ allocated.buddy.live := by
      rw [live]
      exact List.mem_cons_self
    have place := served.inv.large_place isLive
    rw [served.inv.usable_large isLive]
    simp only [sbSize, pageSize, sizeofBlockHeader] at *
    omega

/-- `BXP_malloc` leaves the other pointers and live blocks in use. -/
theorem Inv.malloc_others
    (inv : Inv pool state)
    {thread sz ptr : Nat}
    {after : Bxp}
    (returned : Bxp.malloc pool thread sz state = some (ptr, after)) :
    after.requests = (ptr, sz) :: state.requests ∧
      ∀ block, block ∈ state.heap.live → block ∈ after.heap.live := by
  by_cases small : sz ≤ sbSize
  · have served := inv.malloc_small small returned
    refine ⟨served.requests, ?_⟩
    intro block isLive
    rw [served.live]
    exact List.mem_cons_of_mem _ isLive
  · have served := inv.malloc_large (Nat.lt_of_not_le small) returned
    refine ⟨served.requests, ?_⟩
    intro block isLive
    rw [served.sameHeap]
    exact isLive

/-- The copy of a clean `BXP_realloc` keeps the invariant. -/
theorem Inv.copied
    (inv : Inv pool state)
    {thread ptr oldSize newSize newPtr : Nat}
    {allocated : Bxp}
    (returned :
      Bxp.malloc pool thread newSize state = some (newPtr, allocated))
    (oldFits : oldSize ≤ sbSize)
    (clean : newSize ≤ sbSize → oldSize ≤ capacity newSize) :
    Inv pool
      (allocated.setMemory
        (allocated.heap.memory.copy newPtr ptr oldSize)) := by
  have holds := inv.malloc_holds returned oldFits clean
  have requested : (newPtr, newSize) ∈ allocated.requests := by
    rw [(inv.malloc_others returned).1]
    exact List.mem_cons_self
  refine (inv.malloc returned).setMemory requested ?_
  intro address outside
  exact Memory.copy_outside _ (by omega)

/-- A clean `BXP_realloc` of a pointer in use keeps the invariant. -/
theorem Inv.realloc
    (inv : Inv pool state)
    {thread ptr sz newSize newPtr : Nat}
    {after : Bxp}
    (requested : (ptr, sz) ∈ state.requests)
    (clean : state.Clean pool (.realloc thread ptr newSize))
    (returned :
      Bxp.realloc pool thread ptr newSize state = some (newPtr, after)) :
    Inv pool after := by
  have backed := inv.backed ptr sz requested
  unfold Bxp.realloc at returned
  rw [if_neg (inv.backed_ne_zero backed)] at returned
  rcases backed with ⟨-, isLive, -⟩ | ⟨-, b, isLive, rfl⟩
  · obtain ⟨oldShape, inside⟩ := inv.mallocSize_small isLive
    have oldFits : state.mallocSize pool ptr ≤ sbSize := by
      obtain ⟨sc, used⟩ :=
        Option.ne_none_iff_exists'.mp (inv.heap.live_used isLive)
      rw [oldShape]
      exact (inv.heap.control.geometry.descOk _ sc used).sizes.2.1
    rw [if_neg (by simp [inside])] at returned
    simp only at returned
    split at returned
    · obtain ⟨-, rfl⟩ := Prod.mk.inj (Option.some.inj returned)
      exact inv
    · next differs =>
        simp only [bind, Option.bind_eq_some_iff] at returned
        obtain ⟨⟨q, allocated⟩, allocation, rest⟩ := returned
        have fits := clean inside differs
        split at rest
        · obtain ⟨-, rfl⟩ := Prod.mk.inj (Option.some.inj rest)
          exact inv.malloc allocation
        · simp only [Option.bind_eq_some_iff] at rest
          obtain ⟨freed, freeing, finished⟩ := rest
          obtain ⟨-, rfl⟩ := Prod.mk.inj (Option.some.inj finished)
          have copied :
              Inv pool
                (allocated.setMemory
                  (allocated.heap.memory.copy q ptr
                    (state.mallocSize pool ptr))) :=
            inv.copied allocation oldFits fits
          obtain ⟨requests, stillLive⟩ := inv.malloc_others allocation
          have stillRequested : (ptr, sz) ∈ allocated.requests := by
            rw [requests]
            exact List.mem_cons_of_mem _ requested
          refine copied.free stillRequested ?_ freeing
          intro isLarge
          have notLarge :=
            (copied.small_place (stillLive ptr isLive)).2.2.2.2
          rw [notLarge] at isLarge
          cases isLarge
  · rw [if_pos (by simp [inv.inSb_large isLive])] at returned
    obtain ⟨-, rfl⟩ := Prod.mk.inj (Option.some.inj returned)
    exact inv

/-- A clean `BXP_calloc` zeroes its own block only. -/
theorem Inv.calloc_returned
    (inv : Inv pool state)
    {thread num size ptr : Nat}
    {after : Bxp}
    (clean : num * size ≤ sbSize)
    (returned : Bxp.calloc pool thread num size state = some (ptr, after)) :
    ∃ allocated,
      Bxp.malloc pool thread (num * size) state = some (ptr, allocated) ∧
        SmallServed pool state (num * size) ptr allocated ∧
        after =
          allocated.setMemory
            (allocated.heap.memory.fill ptr
              (allocated.usable pool ptr) 0) := by
  unfold Bxp.calloc at returned
  have noWrap : num * size % 2 ^ 64 = num * size := by
    apply Nat.mod_eq_of_lt
    simp only [sbSize, pageSize] at clean
    omega
  simp only [bind, Option.bind_eq_some_iff, noWrap] at returned
  obtain ⟨⟨q, allocated⟩, allocation, rest⟩ := returned
  have served := inv.malloc_small clean allocation
  have isLive : q ∈ allocated.heap.live := by
    rw [served.live]
    exact List.mem_cons_self
  have notNull : q ≠ 0 :=
    served.inv.heap.control.geometry.block_ne_zero
      (served.inv.heap.placement.isBlock .live isLive)
  rw [if_neg notNull] at rest
  obtain ⟨rfl, rfl⟩ := Prod.mk.inj (Option.some.inj rest)
  refine ⟨allocated, allocation, served, ?_⟩
  rw [(served.inv.mallocSize_small isLive).1,
    served.inv.usable_small isLive]

/-- A clean `BXP_calloc` keeps the invariant. -/
theorem Inv.calloc
    (inv : Inv pool state)
    {thread num size ptr : Nat}
    {after : Bxp}
    (clean : num * size ≤ sbSize)
    (returned : Bxp.calloc pool thread num size state = some (ptr, after)) :
    Inv pool after := by
  obtain ⟨allocated, -, served, rfl⟩ := inv.calloc_returned clean returned
  have requested : (ptr, num * size) ∈ allocated.requests := by
    rw [served.requests]
    exact List.mem_cons_self
  refine served.inv.setMemory requested ?_
  intro address outside
  exact Memory.fill_outside _ 0 outside

/-- The end of a thread keeps the invariant. -/
theorem Inv.exit
    (inv : Inv pool state)
    {thread : Nat}
    {heap' : Heap}
    (returned :
      BaseMeta.publicFlushCache pool.sb thread state.heap = .ok heap') :
    Inv pool { state with heap := heap'.endThread thread } := by
  obtain ⟨flushed, emptied⟩ := inv.heap.publicFlushCache returned
  refine ⟨flushed.inv.endThread emptied, inv.arena, ?_⟩
  intro ptr sz requested
  refine (inv.backed ptr sz requested).imp ?_ id
  rintro ⟨fits, isLive, holds⟩
  refine ⟨fits, ?_, ?_⟩
  · change ptr ∈ heap'.live
    rw [flushed.sameLive]
    exact isLive
  · change sz ≤ (heap'.desc _).blockSize
    rw [(flushed.liveKept inv.heap isLive).2]
    exact holds

/-- A clean step keeps the invariant. -/
theorem CleanStep.inv
    {call : Call}
    (step : CleanStep pool state call state')
    (inv : Inv pool state) :
    Inv pool state' := by
  obtain ⟨step, clean⟩ := step
  cases step with
  | malloc returned => exact inv.malloc returned
  | free requested returned => exact inv.free requested clean returned
  | realloc requested returned =>
      exact inv.realloc requested clean returned
  | calloc returned => exact inv.calloc clean returned
  | exit returned => exact inv.exit returned
  | store bytes headers => exact inv.store bytes headers

/-- The invariant holds in every state of every run of clean steps. -/
theorem Inv.of_reaches
    (reached : Reaches (Initial pool) (CleanStep pool) state) :
    Inv pool state := by
  refine reached.invariant ?_ ?_
  · rintro first ⟨fresh, ⟨header, shape⟩, none⟩
    refine ⟨fresh.inv.1, ⟨_, shape ▸ Buddy.create_partition _ header⟩, ?_⟩
    intro ptr sz requested
    rw [none] at requested
    cases requested
  · intro before call after inv step
    exact step.inv inv

end Bxp

end Bxalloc
