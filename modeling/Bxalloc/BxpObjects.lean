import Bxalloc.BuddyFrame
import Bxalloc.BxpContents

namespace Bxalloc

/-!
# The interface as a table of objects

A user knows the pointers in use and the bytes behind them.  Seen so, the heap is
a table from pointers to contents.  A malloc adds an entry, a free removes one, a
realloc moves one, and nothing else in the table changes; two allocators, thread
caches, superblocks and buddies do not show.  Every run of clean steps is a run
of the table.
-/

open Lib

namespace Bxp

/-- The bytes of every pointer in use. -/
abbrev Objects := Nat → Option (List UInt8)

/-- What the interface promises about the table. -/
inductive ObjectStep : Objects → Call → Objects → Prop where
  | malloc
      {objects : Objects}
      {thread sz ptr : Nat}
      {contents : List UInt8}
      (unused : objects ptr = none)
      (enough : Honourable sz → sz ≤ contents.length) :
      ObjectStep objects (.malloc thread sz)
        (Function.update objects ptr (some contents))
  | free
      {objects : Objects}
      {thread ptr : Nat}
      {contents : List UInt8}
      (used : objects ptr = some contents) :
      ObjectStep objects (.free thread ptr)
        (Function.update objects ptr none)
  /-- The block has the new size already, or it is a large object. -/
  | reallocSame
      {objects : Objects}
      {thread ptr newSize : Nat}
      {contents : List UInt8}
      (used : objects ptr = some contents)
      (unmoved : contents.length = newSize ∨ sbSize < contents.length) :
      ObjectStep objects (.realloc thread ptr newSize) objects
  | realloc
      {objects : Objects}
      {thread ptr newSize newPtr : Nat}
      {contents newContents : List UInt8}
      (used : objects ptr = some contents)
      (unused : objects newPtr = none)
      (copied : contents <+: newContents)
      (enough : Honourable newSize → newSize ≤ newContents.length) :
      ObjectStep objects (.realloc thread ptr newSize)
        (Function.update
          (Function.update objects newPtr (some newContents)) ptr none)
  | calloc
      {objects : Objects}
      {thread num size ptr length : Nat}
      (unused : objects ptr = none)
      (enough : num * size ≤ length) :
      ObjectStep objects (.calloc thread num size)
        (Function.update objects ptr (some (List.replicate length 0)))
  | exit
      {objects : Objects}
      {thread : Nat} :
      ObjectStep objects (.exit thread) objects
  | store
      {objects objects' : Objects}
      (sameShape :
        ∀ ptr,
          (objects' ptr).map List.length = (objects ptr).map List.length) :
      ObjectStep objects .store objects'

/-- The call names the pointer, or it writes through pointers. -/
def Call.Names (ptr : Nat) : Call → Prop
  | .malloc _ _ => False
  | .free _ other => other = ptr
  | .realloc _ other _ => other = ptr
  | .calloc _ _ _ => False
  | .exit _ => False
  | .store => True

/-- An entry survives every call that does not name it. -/
theorem ObjectStep.kept
    {objects objects' : Objects}
    {call : Call}
    {ptr : Nat}
    {contents : List UInt8}
    (step : ObjectStep objects call objects')
    (used : objects ptr = some contents)
    (unnamed : ¬ call.Names ptr) :
    objects' ptr = some contents := by
  have differs : ∀ other, objects other = none → ptr ≠ other := by
    rintro other unused rfl
    rw [used] at unused
    cases unused
  cases step with
  | malloc unused _ =>
      rw [Function.update_of_ne (differs _ unused)]
      exact used
  | free _ =>
      rw [Function.update_of_ne (Ne.symm unnamed)]
      exact used
  | reallocSame _ _ => exact used
  | realloc _ unused _ _ =>
      rw [Function.update_of_ne (Ne.symm unnamed),
        Function.update_of_ne (differs _ unused)]
      exact used
  | calloc unused _ =>
      rw [Function.update_of_ne (differs _ unused)]
      exact used
  | exit => exact used
  | store _ => exact absurd trivial unnamed

variable {pool : Pool} {state allocated after : Bxp}

/-- The bytes a user may touch behind a pointer. -/
def contents (pool : Pool) (state : Bxp) (ptr : Nat) : List UInt8 :=
  (List.range (state.usable pool ptr)).map fun offset =>
    state.heap.memory (ptr + offset)

/-- The table of a state. -/
def objects (pool : Pool) (state : Bxp) : Objects :=
  fun ptr =>
    if ptr ∈ state.requests.map Prod.fst then
      some (state.contents pool ptr)
    else
      none

/-- The bytes behind a pointer are as they were, and as many. -/
structure SameObject
    (pool : Pool)
    (state after : Bxp)
    (ptr : Nat) : Prop where
  usable : after.usable pool ptr = state.usable pool ptr
  bytes :
    ∀ offset,
      offset < state.usable pool ptr →
      after.heap.memory (ptr + offset) = state.heap.memory (ptr + offset)

@[simp] theorem length_contents
    (state : Bxp)
    (ptr : Nat) :
    (state.contents pool ptr).length = state.usable pool ptr := by
  simp [contents]

theorem mem_pointers
    {ptr : Nat} :
    ptr ∈ state.requests.map Prod.fst ↔
      ∃ sz, (ptr, sz) ∈ state.requests := by
  simp

theorem objects_requested
    {ptr sz : Nat}
    (requested : (ptr, sz) ∈ state.requests) :
    state.objects pool ptr = some (state.contents pool ptr) :=
  if_pos (mem_pointers.mpr ⟨sz, requested⟩)

theorem objects_unused
    {ptr : Nat}
    (unused : ∀ sz, (ptr, sz) ∉ state.requests) :
    state.objects pool ptr = none := by
  refine if_neg ?_
  rw [mem_pointers]
  rintro ⟨sz, requested⟩
  exact unused sz requested

/-- An entry is a pointer in use with its bytes. -/
theorem objects_cases
    {ptr : Nat}
    {bytes : List UInt8}
    (used : state.objects pool ptr = some bytes) :
    (∃ sz, (ptr, sz) ∈ state.requests) ∧
      bytes = state.contents pool ptr := by
  unfold objects at used
  split at used
  · next member =>
      exact ⟨mem_pointers.mp member, (Option.some.inj used).symm⟩
  · cases used

theorem SameObject.contents
    {ptr : Nat}
    (same : SameObject pool state after ptr) :
    after.contents pool ptr = state.contents pool ptr := by
  unfold Bxp.contents
  rw [same.usable]
  refine List.map_congr_left ?_
  intro offset member
  exact same.bytes offset (List.mem_range.mp member)

/-- A call that changes one object changes one entry. -/
theorem objects_update
    {ptr : Nat}
    (pointers :
      ∀ other,
        other ≠ ptr →
        ((∃ sz, (other, sz) ∈ after.requests) ↔
          ∃ sz, (other, sz) ∈ state.requests))
    (same :
      ∀ other sz,
        other ≠ ptr →
        (other, sz) ∈ state.requests →
        SameObject pool state after other) :
    after.objects pool =
      Function.update (state.objects pool) ptr (after.objects pool ptr) := by
  funext other
  by_cases differs : other = ptr
  · rw [differs, Function.update_self]
  · rw [Function.update_of_ne differs]
    by_cases used : ∃ sz, (other, sz) ∈ state.requests
    · obtain ⟨sz, requested⟩ := used
      obtain ⟨sz', requested'⟩ :=
        (pointers other differs).mpr ⟨sz, requested⟩
      rw [objects_requested requested, objects_requested requested',
        (same other sz differs requested).contents]
    · have unused := mt (pointers other differs).mp used
      rw [objects_unused (not_exists.mp used),
        objects_unused (not_exists.mp unused)]

namespace Inv

/-- Two objects share no byte. -/
theorem objects_apart
    (inv : Inv pool state)
    {ptr other sz sz' : Nat}
    (requested : (ptr, sz) ∈ state.requests)
    (requested' : (other, sz') ∈ state.requests)
    (distinct : ptr ≠ other) :
    ptr + state.usable pool ptr ≤ other ∨
      other + state.usable pool other ≤ ptr := by
  obtain ⟨starts, ends, mapped⟩ := pool.layout_bounds
  have regions := pool.apart
  rcases inv.backed ptr sz requested with
    ⟨-, isLive, -⟩ | ⟨-, b, isLive, rfl⟩
  · have place := inv.small_place isLive
    rw [inv.usable_small isLive]
    rcases inv.backed other sz' requested' with
      ⟨-, otherLive, -⟩ | ⟨-, c, otherLive, rfl⟩
    · rw [inv.usable_small otherLive]
      exact
        inv.heap.control.geometry.blocks_apart
          (inv.heap.placement.isBlock .live isLive)
          (inv.heap.placement.isBlock .live otherLive) distinct
    · have there := inv.large_place otherLive
      rw [inv.usable_large otherLive]
      simp only [sizeofBlockHeader] at there ⊢
      omega
  · have place := inv.large_place isLive
    rw [inv.usable_large isLive]
    rcases inv.backed other sz' requested' with
      ⟨-, otherLive, -⟩ | ⟨-, c, otherLive, rfl⟩
    · have there := inv.small_place otherLive
      rw [inv.usable_small otherLive]
      simp only [sizeofBlockHeader] at place ⊢
      omega
    · have there := inv.large_place otherLive
      rw [inv.usable_large otherLive]
      obtain ⟨items, partition⟩ := inv.arena
      have blocks :=
        partition.tiles.apart b c ⟨.live, isLive⟩ ⟨.live, otherLive⟩
          (by rintro rfl; exact distinct rfl)
      simp only [sizeofBlockHeader] at place there ⊢
      omega

/-- `BXP_malloc` returns no pointer in use. -/
theorem malloc_unused
    (inv : Inv pool state)
    {thread sz ptr : Nat}
    (returned : Bxp.malloc pool thread sz state = some (ptr, allocated)) :
    ∀ sz', (ptr, sz') ∉ state.requests := by
  intro sz' requested
  rcases inv.backed ptr sz' requested with
    ⟨-, isLive, -⟩ | ⟨-, b, isLive, rfl⟩
  · exact inv.malloc_distinct returned isLive rfl
  · by_cases small : sz ≤ sbSize
    · have served := inv.malloc_small small returned
      have newLive : b + sizeofBlockHeader ∈ allocated.heap.live := by
        rw [served.live]
        exact List.mem_cons_self
      have outside := (served.inv.small_place newLive).2.2.2.2
      rw [(inv.large_place isLive).2.2.2] at outside
      cases outside
    · have served := inv.malloc_large (Nat.lt_of_not_le small) returned
      obtain ⟨c, shape, live, -⟩ := served.block
      obtain rfl : b = c := by omega
      obtain ⟨items, partition⟩ := served.inv.arena
      have noDuplicates : allocated.buddy.live.Nodup :=
        partition.splits.nodup .live
      rw [live] at noDuplicates
      exact (List.nodup_cons.mp noDuplicates).1 isLive

/-- `BXP_malloc` leaves all objects as they are. -/
theorem malloc_same
    (inv : Inv pool state)
    {thread sz ptr other sz' : Nat}
    (returned : Bxp.malloc pool thread sz state = some (ptr, allocated))
    (requested : (other, sz') ∈ state.requests) :
    SameObject pool state allocated other := by
  by_cases small : sz ≤ sbSize
  · have served := inv.malloc_small small returned
    refine ⟨?_, fun offset inside =>
      (served.apart inv requested inside).1⟩
    unfold usable
    rcases inv.backed other sz' requested with
      ⟨-, isLive, -⟩ | ⟨-, b, isLive, rfl⟩
    · rw [(inv.small_place isLive).2.2.2.2]
      exact (served.sameSize other isLive).2
    · rw [(inv.large_place isLive).2.2.2, served.sameBuddy]
      rfl
  · have large := Nat.lt_of_not_le small
    have served := inv.malloc_large large returned
    refine ⟨?_, fun offset _ => by rw [served.sameHeap]⟩
    unfold usable
    rcases inv.backed other sz' requested with
      ⟨-, isLive, -⟩ | ⟨-, b, isLive, rfl⟩
    · rw [(inv.small_place isLive).2.2.2.2, served.sameHeap]
      rfl
    · obtain ⟨items, partition⟩ := inv.arena
      unfold Bxp.malloc at returned
      rw [if_pos large] at returned
      simp only [bind, Option.bind_eq_some_iff] at returned
      obtain ⟨⟨a, buddy⟩, allocation, rest⟩ := returned
      obtain ⟨rfl, rfl⟩ := Prod.mk.inj (Option.some.inj rest)
      rw [(inv.large_place isLive).2.2.2, Nat.add_sub_cancel]
      simp only [if_true]
      rw [partition.alloc_sameSize allocation isLive]

/-- `BXP_malloc` adds one entry. -/
theorem malloc_objects
    (inv : Inv pool state)
    {thread sz ptr : Nat}
    (returned : Bxp.malloc pool thread sz state = some (ptr, allocated)) :
    allocated.objects pool =
      Function.update (state.objects pool) ptr
        (some (allocated.contents pool ptr)) := by
  have requests := (inv.malloc_others returned).1
  have requested : (ptr, sz) ∈ allocated.requests := by
    rw [requests]
    exact List.mem_cons_self
  rw [← objects_requested requested]
  refine objects_update ?_ ?_
  · intro other differs
    simp [requests, differs]
  · intro other sz' _ requested'
    exact inv.malloc_same returned requested'

/-- A write into one object changes one entry. -/
theorem setMemory_objects
    (inv : Inv pool state)
    {memory : Memory}
    {ptr sz : Nat}
    (requested : (ptr, sz) ∈ state.requests)
    (same :
      ∀ address,
        address < ptr ∨ ptr + state.usable pool ptr ≤ address →
        memory address = state.heap.memory address) :
    (state.setMemory memory).objects pool =
      Function.update (state.objects pool) ptr
        (some ((state.setMemory memory).contents pool ptr)) := by
  have stillRequested : (ptr, sz) ∈ (state.setMemory memory).requests :=
    requested
  rw [← objects_requested stillRequested]
  refine objects_update (fun _ _ => Iff.rfl) ?_
  intro other sz' differs requested'
  refine ⟨rfl, ?_⟩
  intro offset inside
  have apart := inv.objects_apart requested requested' differs.symm
  exact same _ (by omega)

/-- A clean `BXP_free` leaves the other objects as they are. -/
theorem free_same
    (inv : Inv pool state)
    {thread ptr sz other sz' : Nat}
    (requested : (ptr, sz) ∈ state.requests)
    (clean : state.Clean pool (.free thread ptr))
    (returned : Bxp.free pool thread ptr state = some after)
    (requested' : (other, sz') ∈ state.requests)
    (differs : other ≠ ptr) :
    SameObject pool state after other := by
  obtain ⟨starts, ends, mapped⟩ := pool.layout_bounds
  have regions := pool.apart
  rcases inv.backed ptr sz requested with
    ⟨-, isLive, -⟩ | ⟨-, b, isLive, rfl⟩
  · unfold Bxp.free at returned
    rw [(inv.small_place isLive).2.2.2.2] at returned
    simp only [Bool.false_eq_true, if_false] at returned
    split at returned
    · cases returned
    · next heap' accepted =>
        have released := inv.heap.doFree_frame isLive accepted
        obtain rfl := Option.some.inj returned
        rcases inv.backed other sz' requested' with
          ⟨-, otherLive, -⟩ | ⟨-, c, otherLive, rfl⟩
        · refine ⟨?_, ?_⟩
          · unfold usable
            rw [(inv.small_place otherLive).2.2.2.2]
            exact released.liveKept other otherLive differs
          · intro offset inside
            rw [inv.usable_small otherLive] at inside
            exact released.bytes.live other otherLive differs _
              (Nat.le_add_right _ _) (by omega)
        · refine ⟨?_, ?_⟩
          · unfold usable
            rw [(inv.large_place otherLive).2.2.2]
            rfl
          · intro offset inside
            have there := inv.large_place otherLive
            rw [inv.usable_large otherLive] at inside
            simp only [sizeofBlockHeader] at inside ⊢
            exact released.bytes.outside _ (by omega)
  · have cleanFree := clean (inv.large_place isLive).2.2.2
    rw [Nat.add_sub_cancel] at cleanFree
    obtain ⟨items, partition⟩ := inv.arena
    unfold Bxp.free at returned
    rw [(inv.large_place isLive).2.2.2] at returned
    simp only [if_true, bind, Option.bind_eq_some_iff] at returned
    obtain ⟨buddy, freed, finished⟩ := returned
    obtain rfl := Option.some.inj finished
    refine ⟨?_, fun _ _ => rfl⟩
    unfold usable
    rcases inv.backed other sz' requested' with
      ⟨-, otherLive, -⟩ | ⟨-, c, otherLive, rfl⟩
    · rw [(inv.small_place otherLive).2.2.2.2]
      rfl
    · rw [(inv.large_place otherLive).2.2.2, Nat.add_sub_cancel]
      simp only [if_true]
      rw [partition.free_sameSize isLive cleanFree freed otherLive
        (by rintro rfl; exact differs rfl)]

/-- What a `BXP_free` that returns does to the pointers in use. -/
theorem free_requests
    {thread ptr : Nat}
    (returned : Bxp.free pool thread ptr state = some after) :
    after.requests = state.withdraw ptr := by
  unfold Bxp.free at returned
  split at returned
  · simp only [bind, Option.bind_eq_some_iff] at returned
    obtain ⟨buddy, -, finished⟩ := returned
    obtain rfl := Option.some.inj finished
    rfl
  · split at returned
    · cases returned
    · obtain rfl := Option.some.inj returned
      rfl

/-- A clean `BXP_free` removes one entry. -/
theorem free_objects
    (inv : Inv pool state)
    {thread ptr sz : Nat}
    (requested : (ptr, sz) ∈ state.requests)
    (clean : state.Clean pool (.free thread ptr))
    (returned : Bxp.free pool thread ptr state = some after) :
    after.objects pool = Function.update (state.objects pool) ptr none := by
  have requests := free_requests returned
  have gone : after.objects pool ptr = none := by
    refine objects_unused ?_
    intro sz' still
    rw [requests] at still
    exact (mem_withdraw.mp still).2 rfl
  rw [← gone]
  refine objects_update ?_ ?_
  · intro other differs
    simp only [requests, mem_withdraw, differs, ne_eq, not_false_eq_true,
      and_true]
  · intro other sz' differs requested'
    exact inv.free_same requested clean returned requested' differs

/-- A clean `BXP_realloc` moves one entry, or nothing changes. -/
theorem realloc_objects
    (inv : Inv pool state)
    {thread ptr sz newSize newPtr : Nat}
    (requested : (ptr, sz) ∈ state.requests)
    (clean : state.Clean pool (.realloc thread ptr newSize))
    (returned :
      Bxp.realloc pool thread ptr newSize state = some (newPtr, after)) :
    ObjectStep (state.objects pool) (.realloc thread ptr newSize)
      (after.objects pool) := by
  have backed := inv.backed ptr sz requested
  have used := @objects_requested pool state ptr sz requested
  unfold Bxp.realloc at returned
  rw [if_neg (inv.backed_ne_zero backed)] at returned
  rcases backed with ⟨-, isLive, -⟩ | ⟨-, b, isLive, rfl⟩
  · obtain ⟨oldShape, inside⟩ := inv.mallocSize_small isLive
    have oldUsable : state.usable pool ptr = state.mallocSize pool ptr :=
      (inv.usable_small isLive).trans oldShape.symm
    have oldFits : state.mallocSize pool ptr ≤ sbSize := by
      obtain ⟨sc, inUse⟩ :=
        Option.ne_none_iff_exists'.mp (inv.heap.live_used isLive)
      rw [oldShape]
      exact (inv.heap.control.geometry.descOk _ sc inUse).sizes.2.1
    rw [if_neg (by simp [inside])] at returned
    simp only at returned
    split at returned
    · next same =>
        obtain ⟨-, rfl⟩ := Prod.mk.inj (Option.some.inj returned)
        refine .reallocSame used (Or.inl ?_)
        rw [length_contents, oldUsable]
        exact same
    · next differs =>
        simp only [bind, Option.bind_eq_some_iff] at returned
        obtain ⟨⟨q, served⟩, allocation, rest⟩ := returned
        have newRequested : (q, newSize) ∈ served.requests := by
          rw [(inv.malloc_others allocation).1]
          exact List.mem_cons_self
        have stillRequested : (ptr, sz) ∈ served.requests := by
          rw [(inv.malloc_others allocation).1]
          exact List.mem_cons_of_mem _ requested
        have servedInv := inv.malloc allocation
        have notNull : q ≠ 0 :=
          servedInv.backed_ne_zero (servedInv.backed q newSize newRequested)
        rw [if_neg notNull] at rest
        simp only [Option.bind_eq_some_iff] at rest
        obtain ⟨freed, freeing, finished⟩ := rest
        obtain ⟨-, rfl⟩ := Prod.mk.inj (Option.some.inj finished)
        have holds :=
          inv.malloc_holds allocation oldFits (clean inside differs)
        have copied :
            Inv pool
              (served.setMemory
                (served.heap.memory.copy q ptr
                  (state.mallocSize pool ptr))) :=
          inv.copied allocation oldFits (clean inside differs)
        have unused := inv.malloc_unused allocation
        have same := inv.malloc_same allocation requested
        have copyFits :
            ∀ address,
              address < q ∨ q + served.usable pool q ≤ address →
              served.heap.memory.copy q ptr (state.mallocSize pool ptr)
                  address =
                served.heap.memory address := by
          intro address outside
          exact Memory.copy_outside _ (by omega)
        have table :=
          copied.free_objects stillRequested
            (by
              intro isLarge
              have notLarge :=
                (copied.small_place
                  ((inv.malloc_others allocation).2 ptr isLive)).2.2.2.2
              rw [notLarge] at isLarge
              cases isLarge)
            freeing
        rw [servedInv.setMemory_objects newRequested copyFits,
          inv.malloc_objects allocation, Function.update_idem] at table
        rw [table]
        refine .realloc used (objects_unused unused) ?_ ?_
        · refine List.prefix_iff_eq_take.mpr ?_
          rw [length_contents]
          unfold Bxp.contents
          rw [← List.map_take, List.take_range, usable_setMemory,
            Nat.min_eq_left (by rw [oldUsable]; exact holds)]
          refine List.map_congr_left ?_
          intro offset member
          have early := List.mem_range.mp member
          refine (same.bytes offset early).symm.trans ?_
          rw [oldUsable] at early
          exact (Memory.copy_inside _ early).symm
        · intro honourable
          rw [length_contents, usable_setMemory]
          exact
            (inv.sizeHonoured honourable).enough q served allocation
  · rw [if_pos (by simp [inv.inSb_large isLive])] at returned
    obtain ⟨-, rfl⟩ := Prod.mk.inj (Option.some.inj returned)
    refine .reallocSame used (Or.inr ?_)
    have place := inv.large_place isLive
    rw [length_contents, inv.usable_large isLive]
    simp only [sbSize, pageSize, sizeofBlockHeader] at *
    omega

/-- A clean `BXP_calloc` adds an entry of zeros. -/
theorem calloc_objects
    (inv : Inv pool state)
    {thread num size ptr : Nat}
    (clean : num * size ≤ sbSize)
    (returned : Bxp.calloc pool thread num size state = some (ptr, after)) :
    ObjectStep (state.objects pool) (.calloc thread num size)
      (after.objects pool) := by
  obtain ⟨served, allocation, small, rfl⟩ :=
    inv.calloc_returned clean returned
  have requested : (ptr, num * size) ∈ served.requests := by
    rw [small.requests]
    exact List.mem_cons_self
  have isLive : ptr ∈ served.heap.live := by
    rw [small.live]
    exact List.mem_cons_self
  have cleared :
      (served.setMemory
          (served.heap.memory.fill ptr (served.usable pool ptr) 0)).contents
          pool ptr =
        List.replicate (served.usable pool ptr) 0 := by
    refine List.eq_replicate_iff.mpr ⟨length_contents _ _, ?_⟩
    intro byte member
    obtain ⟨offset, early, rfl⟩ := List.mem_map.mp member
    exact Memory.fill_inside _ 0 (List.mem_range.mp early)
  rw [small.inv.setMemory_objects requested
      (fun address outside => Memory.fill_outside _ 0 outside),
    inv.malloc_objects allocation, Function.update_idem, cleared]
  refine .calloc (objects_unused (inv.malloc_unused allocation)) ?_
  rw [small.inv.usable_small isLive, small.size]
  exact small.enough

/-- The end of a thread changes no entry. -/
theorem exit_objects
    (inv : Inv pool state)
    {thread : Nat}
    {heap' : Heap}
    (returned :
      BaseMeta.publicFlushCache pool.sb thread state.heap = .ok heap') :
    objects pool { state with heap := heap'.endThread thread } =
      state.objects pool := by
  obtain ⟨flushed, -⟩ := inv.heap.publicFlushCache returned
  have kept :=
    inv.heap.flushClasses_kept (by omega : 0 + nlist ≤ nlist) returned
  funext ptr
  by_cases used : ∃ sz, (ptr, sz) ∈ state.requests
  · obtain ⟨sz, requested⟩ := used
    have same :
        SameObject pool state { state with heap := heap'.endThread thread }
          ptr := by
      rcases inv.backed ptr sz requested with
        ⟨-, isLive, -⟩ | ⟨-, b, isLive, rfl⟩
      · refine ⟨?_, ?_⟩
        · unfold usable
          rw [(inv.small_place isLive).2.2.2.2]
          exact (flushed.liveKept inv.heap isLive).2
        · intro offset inside
          rw [inv.usable_small isLive] at inside
          exact (kept (ptr + 1)).live ptr isLive (by omega) _
            (Nat.le_add_right _ _) (by omega)
      · refine ⟨?_, ?_⟩
        · unfold usable
          rw [(inv.large_place isLive).2.2.2]
          rfl
        · intro offset inside
          have place := inv.large_place isLive
          obtain ⟨starts, ends, mapped⟩ := pool.layout_bounds
          have regions := pool.apart
          rw [inv.usable_large isLive] at inside
          simp only [sizeofBlockHeader] at inside ⊢
          exact (kept 0).outside _ (by omega)
    rw [objects_requested requested, ← same.contents]
    exact objects_requested requested
  · rw [objects_unused (not_exists.mp used)]
    exact objects_unused (not_exists.mp used)

/-- Stores keep the table's shape: sizes are not the user's to write. -/
theorem store_objects
    (inv : Inv pool state)
    (requests : after.requests = state.requests)
    (desc : after.heap.desc = state.heap.desc)
    (headers :
      ∀ address,
        (∀ b,
          b ∈ state.buddy.live →
          address ≤ b ∨ b + Buddy.sizeAt state.buddy b ≤ address) →
        after.buddy.header address = state.buddy.header address)
    (ptr : Nat) :
    (after.objects pool ptr).map List.length =
      (state.objects pool ptr).map List.length := by
  by_cases used : ∃ sz, (ptr, sz) ∈ state.requests
  · obtain ⟨sz, requested⟩ := used
    have requested' := requested
    rw [← requests] at requested'
    rw [objects_requested requested, objects_requested requested']
    simp only [Option.map_some, length_contents, Option.some.injEq]
    unfold usable
    rcases inv.backed ptr sz requested with
      ⟨-, isLive, -⟩ | ⟨-, b, isLive, rfl⟩
    · rw [(inv.small_place isLive).2.2.2.2, desc]
      rfl
    · have same : after.buddy.header b = state.buddy.header b := by
        refine headers b ?_
        intro c otherLive
        obtain ⟨items, partition⟩ := inv.arena
        rcases eq_or_ne b c with rfl | differs
        · exact Or.inl (Nat.le_refl _)
        · have apart :=
            partition.tiles.apart b c ⟨.live, isLive⟩ ⟨.live, otherLive⟩
              differs
          omega
      rw [(inv.large_place isLive).2.2.2, Nat.add_sub_cancel]
      unfold Buddy.sizeAt
      rw [same]
      rfl
  · have unused := used
    rw [← requests] at unused
    rw [objects_unused (not_exists.mp used),
      objects_unused (not_exists.mp unused)]

end Inv

/-- A clean step is a step of the table. -/
theorem CleanStep.objectStep
    {call : Call}
    (step : CleanStep pool state call after)
    (inv : Inv pool state) :
    ObjectStep (state.objects pool) call (after.objects pool) := by
  obtain ⟨step, clean⟩ := step
  cases step with
  | @malloc _ thread sz ptr returned =>
      rw [inv.malloc_objects returned]
      refine .malloc (objects_unused (inv.malloc_unused returned)) ?_
      intro honourable
      rw [length_contents]
      exact (inv.sizeHonoured honourable).enough ptr after returned
  | free requested returned =>
      rw [inv.free_objects requested clean returned]
      exact .free (objects_requested requested)
  | realloc requested returned =>
      exact inv.realloc_objects requested clean returned
  | calloc returned => exact inv.calloc_objects clean returned
  | exit returned =>
      rw [inv.exit_objects returned]
      exact .exit
  | store bytes headers =>
      exact .store (inv.store_objects rfl rfl headers)

/--
Every clean run is a run of the table: its state shows a reachable table, whose
objects share no byte, and every clean step from it is a step of the table.
-/
theorem objects_simulated
    (reached : Reaches (Initial pool) (CleanStep pool) state) :
    Reaches (fun objects => objects = fun _ => none) ObjectStep
        (state.objects pool) ∧
      (∀ ptr other bytes bytes',
        state.objects pool ptr = some bytes →
        state.objects pool other = some bytes' →
        ptr ≠ other →
        ptr + bytes.length ≤ other ∨ other + bytes'.length ≤ ptr) ∧
      ∀ call after,
        CleanStep pool state call after →
        ObjectStep (state.objects pool) call (after.objects pool) := by
  have inv := Inv.of_reaches reached
  refine ⟨?_, ?_, fun call after step => step.objectStep inv⟩
  · refine reached.simulated ?_ ?_
    · rintro first ⟨-, -, none⟩
      funext ptr
      refine objects_unused ?_
      intro sz
      rw [none]
      exact List.not_mem_nil
    · intro before call after earlier step
      exact step.objectStep (Inv.of_reaches earlier)
  · intro ptr other bytes bytes' used used' distinct
    obtain ⟨⟨sz, requested⟩, rfl⟩ := objects_cases used
    obtain ⟨⟨sz', requested'⟩, rfl⟩ := objects_cases used'
    rw [length_contents, length_contents]
    exact inv.objects_apart requested requested' distinct

/-- The step frees or reallocates the pointer or writes into its object. -/
def Disturbs
    (pool : Pool)
    (ptr : Nat)
    (before : Bxp)
    (call : Call)
    (after : Bxp) : Prop :=
  call.Names ptr ∧
    (call = .store →
      after.contents pool ptr ≠ before.contents pool ptr)

/--
The bytes behind a pointer in use survive every clean run of all threads in
which nobody frees or reallocates the pointer or writes into its object.
-/
theorem contents_survive
    (reached : Reaches (Initial pool) (CleanStep pool) state)
    {ptr : Nat}
    {bytes : List UInt8}
    (used : state.objects pool ptr = some bytes)
    (later :
      Relation.ReflTransGen
        (fun before next =>
          ∃ call,
            CleanStep pool before call next ∧
              ¬ Disturbs pool ptr before call next)
        state after) :
    after.objects pool ptr = some bytes := by
  have both :
      Reaches (Initial pool) (CleanStep pool) after ∧
        after.objects pool ptr = some bytes := by
    induction later with
    | refl => exact ⟨reached, used⟩
    | @tail before next _ stepped inductionHypothesis =>
        obtain ⟨call, step, undisturbed⟩ := stepped
        obtain ⟨reachedBefore, usedBefore⟩ := inductionHypothesis
        refine ⟨reachedBefore.next step, ?_⟩
        have objectStep := step.objectStep (Inv.of_reaches reachedBefore)
        by_cases names : call.Names ptr
        · obtain ⟨rfl, same⟩ : call = .store ∧
              next.contents pool ptr = before.contents pool ptr := by
            unfold Disturbs at undisturbed
            push Not at undisturbed
            exact undisturbed names
          obtain ⟨⟨sz, requested⟩, rfl⟩ := objects_cases usedBefore
          rw [← same]
          obtain ⟨stored, -⟩ := step
          cases stored with
          | store => exact objects_requested requested
        · exact objectStep.kept usedBefore names
  exact both.2

/-- A table with one object of 24 KiB, and a realloc that moves it. -/
theorem objects_simulated_growing :
    ∃ state,
      Reaches (Initial examplePool) (CleanStep examplePool) state ∧
        (∃ bytes,
          state.objects examplePool (examplePool.sb.sbAddr 1) = some bytes) ∧
        Reaches (fun objects => objects = fun _ => none) ObjectStep
          (state.objects examplePool) := by
  obtain ⟨state, -, -, reached, requested, -⟩ := exists_growing
  exact ⟨state, reached, ⟨_, objects_requested requested⟩,
    (objects_simulated reached).1⟩

/-- An object of 24 KiB survives the malloc of a whole superblock. -/
theorem contents_survive_growing :
    ∃ state after bytes,
      Step examplePool state (.malloc 0 sbSize) after ∧
        state.objects examplePool (examplePool.sb.sbAddr 1) = some bytes ∧
        after.objects examplePool (examplePool.sb.sbAddr 1) = some bytes := by
  obtain ⟨state, ptr, allocated, reached, requested, -, -, -, returned⟩ :=
    exists_growing
  have used := @objects_requested examplePool state _ _ requested
  refine ⟨state, allocated, _, .malloc returned, used, ?_⟩
  exact
    contents_survive reached used
      (.single ⟨.malloc 0 sbSize, ⟨.malloc returned, trivial⟩,
        fun disturbs => disturbs.1⟩)

end Bxp

end Bxalloc
