import Bxalloc.HeapRace

namespace Bxalloc

/-!
# The invariant of threads racing on the whole allocator

Between a free list and a chain a block is in the hands of a thread.  The hands
seen as further free lists make the heap of the sequential invariant, whose
places then split the blocks in every state.  A descriptor that is not in use
as a full superblock is on one partial list, on the queue or with one thread.
-/

open Lib

namespace HeapRace

/-- The lists of blocks that a thread has. -/
inductive Hand where
  /-- `tsl_cache`. -/
  | cache
  /-- Between a free list and a chain. -/
  | run
  /-- Given to `do_free`. -/
  | freed
  deriving DecidableEq

/-- The number of a list among the lists of all threads. -/
def slot (thread : Nat) : Hand → Nat
  | .cache => 3 * thread
  | .run => 3 * thread + 1
  | .freed => 3 * thread + 2

/-- The list of a thread with a number. -/
def handOf (number : Nat) : Hand :=
  match number % 3 with
  | 0 => .cache
  | 1 => .run
  | _ => .freed

/-- Linked blocks of one class. -/
structure Chunk where
  sc : Nat
  head : Nat
  count : Nat
  deriving DecidableEq

/-- The blocks of class `sc` among those in a hand. -/
def Chunk.list : Option Chunk → Nat → FreeList
  | none, _ => { list := 0, size := 0, maxsize := 1 }
  | some chunk, sc =>
      { list := chunk.head
        size := if chunk.sc = sc then chunk.count else 0
        maxsize := 1 }

/-- The blocks between a free list and a chain. -/
def Pc.carried : Pc → Option Chunk
  | .refillPush sc _ head num => some ⟨sc, head, num⟩
  | .newsbPush sc superblock num => some ⟨sc, superblock, num⟩
  | .flushCas run _ => some ⟨run.sc, run.head, run.blockCount⟩
  | _ => none

/-- The block that a flush makes room for. -/
def Purpose.freed (sc : Nat) : Purpose → Option Chunk
  | .free block => some ⟨sc, block, 1⟩
  | .exit => none

/-- The block given to `do_free`. -/
def Pc.freed : Pc → Option Chunk
  | .flushLoad sc purpose => purpose.freed sc
  | .flushCas run _ | .flushPush run | .flushRetire run =>
      run.purpose.freed run.sc
  | .pushCache sc block => some ⟨sc, block, 1⟩
  | _ => none

/-- A list of blocks of class `sc` that a thread has. -/
def State.list (state : State) (thread sc : Nat) : Hand → FreeList
  | .cache => state.heap.cache thread sc
  | .run => Chunk.list (state.pc thread).carried sc
  | .freed => Chunk.list (state.pc thread).freed sc

/-- The heap with all lists of all threads as free lists. -/
def State.view (state : State) : Heap :=
  { state.heap with
    cache := fun number sc => state.list (number / 3) sc (handOf number) }

/-- The descriptors that a thread holds. -/
def Pc.held (region : SbRegion) : Pc → List Nat
  | .refillLoad _ k | .takeAllCas _ k _ | .takeSomeCas _ k _
  | .takeSomeRetry _ k _ _ _ _ | .refillPush _ k _ _ | .refillRetire _ k =>
      [k]
  | .organize k more after =>
      List.range' k (more + 1) ++
        (after.map fun next => region.owner next.2).toList
  | .useSb _ superblock | .newsbPush _ superblock _ =>
      [region.owner superblock]
  | .flushPush run | .flushRetire run => [run.k]
  | _ => []

/-- Where a descriptor can be kept. -/
inductive Holder where
  | partialList (sc : Nat)
  | queue
  | thread (thread : Nat)
  deriving DecidableEq

/-- The descriptors kept in one place. -/
def State.holding (region : SbRegion) (state : State) : Holder → List Nat
  | .partialList sc => state.heap.partialList sc
  | .queue => state.heap.queue
  | .thread thread => (state.pc thread).held region

/-- Every descriptor is kept in one place, in the state the place expects. -/
structure Custody (region : SbRegion) (state : State) : Prop where
  once :
    Splits (state.holding region)
      (fun k => ∃ holder, k ∈ state.holding region holder)
  partialListed :
    ∀ sc k,
      k ∈ state.heap.partialList sc →
      Heap.Listed (state.heap.desc k) sc
  queueSpare :
    ∀ k, k ∈ state.heap.queue → Heap.Spare region state.heap k
  /-- No superblock with free blocks is forgotten. -/
  listed :
    ∀ sc k,
      Heap.Listed (state.heap.desc k) sc →
      ∃ holder, k ∈ state.holding region holder

/-- A thread refills its empty list of class `sc` from descriptor `k`. -/
structure Refilling (heap : Heap) (thread sc k : Nat) : Prop where
  small : sc < nlist
  emptyList : (heap.cache thread sc).size = 0
  listed : Heap.Listed (heap.desc k) sc

/-- What the caller of `small_sb_alloc` waits for. -/
def RequestOk (heap : Heap) (thread : Nat) : Request → Prop
  | .newsb sc => sc < nlist ∧ (heap.cache thread sc).size = 0
  | .whole sbs => sbs = sbSize

/-- A spare superblock and its descriptor. -/
structure Granted
    (region : SbRegion)
    (heap : Heap)
    (superblock : Nat) : Prop where
  spare : Heap.Spare region heap (region.owner superblock)
  address : superblock = region.sbAddr (region.owner superblock)

/-- The run of a round of `flush_cache`. -/
structure RunOk
    (region : SbRegion)
    (memory : Memory)
    (run : Run) : Prop where
  small : run.sc < nlist
  positive : 1 ≤ run.blockCount
  superblock : run.superblock = region.sbAddr run.k
  isTail :
    run.tail = (readLink memory)^[run.blockCount - 1] run.head
  isIdx : run.idx = computeIdx run.superblock run.head run.sc
  owned :
    ∀ index,
      index < run.blockCount →
      region.owner ((readLink memory)^[index] run.head) = run.k

/-- `public_flush_cache` has emptied the lists before `sc`. -/
def Emptied
    (heap : Heap)
    (thread sc : Nat)
    (purpose : Purpose) : Prop :=
  purpose = .exit →
    ∀ sc', sc' < sc → (heap.cache thread sc').size = 0

/-- What a thread knows in the middle of a call. -/
def PcOk (region : SbRegion) (state : State) (thread : Nat) : Prop :=
  let heap := state.heap
  match state.pc thread with
  | .idle => True
  | .popCache sc => sc < nlist ∧ 0 < (heap.cache thread sc).size
  | .popPartial sc => sc < nlist ∧ (heap.cache thread sc).size = 0
  | .refillLoad sc k => Refilling heap thread sc k
  | .takeAllCas sc k old =>
      Refilling heap thread sc k ∧
        (old.state = .sbEmpty → (heap.desc k).anchor.state = .sbEmpty)
  | .takeSomeCas sc k old =>
      Refilling heap thread sc k ∧
        old.state ≠ .sbEmpty ∧
        (heap.cache thread sc).maxsize < old.count
  | .takeSomeRetry _ _ _ _ _ _ => False
  | .refillPush sc k _ num => Refilling heap thread sc k ∧ 0 < num
  | .refillRetire sc k =>
      Refilling heap thread sc k ∧
        (heap.desc k).anchor.state = .sbEmpty
  | .popQueue request | .expandLoad request | .expandCas request _ =>
      RequestOk heap thread request
  | .organize k more after =>
      (∀ j, k ≤ j → j ≤ k + more → Heap.Spare region heap j) ∧
        ∀ next,
          after = some next →
          RequestOk heap thread next.1 ∧ Granted region heap next.2
  | .useSb request superblock =>
      RequestOk heap thread request ∧ Granted region heap superblock
  | .newsbPush sc superblock num =>
      Refilling heap thread sc (region.owner superblock) ∧ 0 < num
  | .flushLoad sc purpose => sc < nlist ∧ Emptied heap thread sc purpose
  | .flushCas run _ =>
      RunOk region heap.memory run ∧ Emptied heap thread run.sc run.purpose
  | .flushPush run =>
      run.sc < nlist ∧
        Emptied heap thread run.sc run.purpose ∧
        Heap.Listed (heap.desc run.k) run.sc
  | .flushRetire run =>
      run.sc < nlist ∧
        Emptied heap thread run.sc run.purpose ∧
        Heap.Listed (heap.desc run.k) run.sc ∧
        (heap.desc run.k).anchor.state = .sbEmpty ∧
        run.superblock = region.sbAddr run.k
  | .pushCache sc _ => sc < nlist

/-- What holds between any two steps. -/
structure Inv (region : SbRegion) (state : State) : Prop where
  geometry : Heap.Geometry region state.heap
  wholeFull :
    ∀ k,
      (state.heap.desc k).heap = some nlist →
      (state.heap.desc k).anchor.state = .sbFull
  maxsizePos :
    ∀ thread sc,
      sc < nlist → 1 ≤ (state.heap.cache thread sc).maxsize
  placement : Heap.Placement region state.view
  custody : Custody region state
  threads : ∀ thread, PcOk region state thread

variable {region : SbRegion} {state state' : State}
variable {thread : Nat} {heap' : Heap} {pc pc' : Pc}

@[simp] theorem next_heap :
    (state.next thread heap' pc').heap = heap' :=
  rfl

@[simp] theorem next_pc_self :
    (state.next thread heap' pc').pc thread = pc' :=
  Function.update_self ..

theorem next_pc_ne
    {other : Nat}
    (differs : other ≠ thread) :
    (state.next thread heap' pc').pc other = state.pc other :=
  Function.update_of_ne differs ..

/-- Lists have different numbers. -/
theorem slot_injective
    {other : Nat}
    {hand hand' : Hand}
    (same : slot thread hand = slot other hand') :
    thread = other ∧ hand = hand' := by
  cases hand <;> cases hand' <;> simp only [slot] at same <;>
    first
      | exact ⟨by omega, rfl⟩
      | exact absurd same (by omega)

/-- Every number is the one of a list. -/
theorem exists_slot
    (number : Nat) :
    ∃ thread hand, number = slot thread hand := by
  have small : number % 3 < 3 := Nat.mod_lt _ (by decide)
  have parts := Nat.div_add_mod number 3
  rcases (by omega :
    number % 3 = 0 ∨ number % 3 = 1 ∨ number % 3 = 2) with zero | one | two
  · exact ⟨number / 3, .cache, by simp only [slot]; omega⟩
  · exact ⟨number / 3, .run, by simp only [slot]; omega⟩
  · exact ⟨number / 3, .freed, by simp only [slot]; omega⟩

theorem slot_div
    (thread : Nat)
    (hand : Hand) :
    slot thread hand / 3 = thread := by
  cases hand <;> simp only [slot] <;> omega

theorem handOf_slot
    (thread : Nat)
    (hand : Hand) :
    handOf (slot thread hand) = hand := by
  have zero : 3 * thread % 3 = 0 := by omega
  have one : (3 * thread + 1) % 3 = 1 := by omega
  have two : (3 * thread + 2) % 3 = 2 := by omega
  cases hand <;> simp only [slot, handOf, zero, one, two]

/-- The lists of the view. -/
@[simp] theorem view_cache
    (state : State)
    (thread sc : Nat)
    (hand : Hand) :
    state.view.cache (slot thread hand) sc = state.list thread sc hand := by
  unfold State.view
  simp only [slot_div, handOf_slot]

/-- A view keeps the geometry. -/
theorem Inv.viewGeometry
    (inv : Inv region state) :
    Heap.Geometry region state.view :=
  inv.geometry.congr rfl rfl

/-- Two free lists with the same blocks. -/
structure SameBlocks (first second : FreeList) : Prop where
  size : first.size = second.size
  list : 0 < first.size → first.list = second.list

theorem SameBlocks.refl
    (list : FreeList) :
    SameBlocks list list :=
  ⟨rfl, fun _ => rfl⟩

theorem SameBlocks.ofEmpty
    {first second : FreeList}
    (firstEmpty : first.size = 0)
    (secondEmpty : second.size = 0) :
    SameBlocks first second :=
  ⟨firstEmpty.trans secondEmpty.symm, fun positive => by omega⟩

theorem SameBlocks.iterate
    {first second : FreeList}
    (same : SameBlocks first second)
    (link : Nat → Nat) :
    List.iterate link first.list first.size =
      List.iterate link second.list second.size := by
  rcases Nat.eq_zero_or_pos first.size with empty | positive
  · rw [← same.size, empty]
    rfl
  · rw [same.list positive, same.size]

/-- The heap that a step leaves has the places of `final`. -/
structure Placed
    (state : State)
    (thread : Nat)
    (heap' : Heap)
    (pc' : Pc)
    (final : Heap) : Prop where
  memory : heap'.memory = final.memory
  desc : heap'.desc = final.desc
  live : heap'.live = final.live
  cache :
    ∀ sc,
      SameBlocks (heap'.cache thread sc) (final.cache (slot thread .cache) sc)
  run :
    ∀ sc,
      SameBlocks (Chunk.list pc'.carried sc)
        (final.cache (slot thread .run) sc)
  freed :
    ∀ sc,
      SameBlocks (Chunk.list pc'.freed sc)
        (final.cache (slot thread .freed) sc)
  others :
    ∀ other, other ≠ thread → heap'.cache other = state.heap.cache other
  othersFinal :
    ∀ other hand sc,
      other ≠ thread →
      final.cache (slot other hand) sc = state.list other sc hand

/-- The places after a step. -/
theorem Placed.placement
    {final : Heap}
    (placed : Placed state thread heap' pc' final)
    (placement : Heap.Placement region final) :
    Heap.Placement region (state.next thread heap' pc').view := by
  refine placement.congr_content ?_ placed.desc
  have links : heap'.memory = final.memory := placed.memory
  intro place
  cases place with
  | chain k =>
      change heap'.freeChain k = final.freeChain k
      unfold Heap.freeChain
      rw [links, placed.desc]
  | live => exact placed.live
  | cache number sc =>
      obtain ⟨other, hand, rfl⟩ := exists_slot number
      have same :
          SameBlocks ((state.next thread heap' pc').list other sc hand)
            (final.cache (slot other hand) sc) := by
        rcases eq_or_ne other thread with rfl | differs
        · cases hand with
          | cache => exact placed.cache sc
          | run =>
              simpa only [State.list, next_pc_self] using placed.run sc
          | freed =>
              simpa only [State.list, next_pc_self] using placed.freed sc
        · rw [placed.othersFinal other hand sc differs]
          cases hand with
          | cache =>
              change SameBlocks (heap'.cache other sc) _
              rw [placed.others other differs]
              exact .refl _
          | run | freed =>
              simp only [State.list, next_pc_ne differs]
              exact .refl _
      change
        List.iterate (readLink heap'.memory)
            ((state.next thread heap' pc').view.cache (slot other hand)
              sc).list
            ((state.next thread heap' pc').view.cache (slot other hand)
              sc).size =
          List.iterate (readLink final.memory)
            (final.cache (slot other hand) sc).list
            (final.cache (slot other hand) sc).size
      rw [view_cache, links]
      exact same.iterate _

/-- What the holder of a descriptor sees of a step. -/
structure HeldSame (heap heap' : Heap) (k : Nat) : Prop where
  listed :
    ∀ sc,
      Heap.Listed (heap.desc k) sc → Heap.Listed (heap'.desc k) sc
  blank : (heap.desc k).heap = none → (heap'.desc k).heap = none
  empty :
    (heap.desc k).anchor.state = .sbEmpty →
    (heap'.desc k).anchor.state = .sbEmpty

theorem HeldSame.ofEq
    {heap : Heap}
    {k : Nat}
    (same : heap'.desc k = heap.desc k) :
    HeldSame heap heap' k :=
  ⟨fun _ listed => same ▸ listed, fun blank => same ▸ blank,
    fun isEmpty => same ▸ isEmpty⟩

/-- What the other threads see of a step. -/
structure Frame
    (region : SbRegion)
    (state : State)
    (thread : Nat)
    (heap' : Heap) : Prop where
  cache :
    ∀ other, other ≠ thread → heap'.cache other = state.heap.cache other
  held :
    ∀ other k,
      other ≠ thread →
      k ∈ (state.pc other).held region →
      HeldSame state.heap heap' k
  links :
    ∀ other sc block,
      other ≠ thread →
      block ∈ state.view.cacheList (slot other .run) sc →
      readLink heap'.memory block = readLink state.heap.memory block
  currAddr : state.heap.currAddr ≤ heap'.currAddr

theorem Refilling.frame
    {heap : Heap}
    {other sc k : Nat}
    (refilling : Refilling heap other sc k)
    (sameCache : heap'.cache other = heap.cache other)
    (held : HeldSame heap heap' k) :
    Refilling heap' other sc k :=
  ⟨refilling.small, sameCache ▸ refilling.emptyList,
    held.listed sc refilling.listed⟩

theorem RequestOk.frame
    {heap : Heap}
    {other : Nat}
    {request : Request}
    (ok : RequestOk heap other request)
    (sameCache : heap'.cache other = heap.cache other) :
    RequestOk heap' other request := by
  cases request with
  | newsb sc => exact ⟨ok.1, sameCache ▸ ok.2⟩
  | whole sbs => exact ok

theorem spare_frame
    {heap : Heap}
    {k : Nat}
    (spare : Heap.Spare region heap k)
    (held : HeldSame heap heap' k)
    (grown : heap.currAddr ≤ heap'.currAddr) :
    Heap.Spare region heap' k :=
  ⟨held.blank spare.blank, spare.indexPos, spare.inside.trans grown⟩

theorem Emptied.frame
    {heap : Heap}
    {other sc : Nat}
    {purpose : Purpose}
    (emptied : Emptied heap other sc purpose)
    (sameCache : heap'.cache other = heap.cache other) :
    Emptied heap' other sc purpose :=
  fun isExit sc' before => sameCache ▸ emptied isExit sc' before

theorem RunOk.frame
    {memory memory' : Memory}
    {run : Run}
    (ok : RunOk region memory run)
    (links :
      ∀ index,
        index < run.blockCount →
        readLink memory' ((readLink memory)^[index] run.head) =
          readLink memory ((readLink memory)^[index] run.head)) :
    RunOk region memory' run := by
  have reached :
      ∀ index,
        index < run.blockCount →
        (readLink memory')^[index] run.head =
          (readLink memory)^[index] run.head :=
    fun index early =>
      LinkWalk.reach_congr fun earlier before =>
        links earlier (before.trans early)
  have positive := ok.positive
  refine
    { small := ok.small
      positive := positive
      superblock := ok.superblock
      isTail := ok.isTail.trans (reached _ (by omega)).symm
      isIdx := ok.isIdx
      owned := fun index early => ?_ }
  rw [reached index early]
  exact ok.owned index early

/-- The blocks of a carried run. -/
theorem carried_blocks
    {run : Run}
    {old : Anchor}
    (shape : state.pc thread = .flushCas run old) :
    state.view.cacheList (slot thread .run) run.sc =
      List.iterate (readLink state.heap.memory) run.head run.blockCount := by
  unfold Heap.cacheList
  rw [view_cache]
  simp only [State.list, shape, Pc.carried, Chunk.list, if_true]
  rfl

/-- Steps keep what the other threads know. -/
theorem PcOk.frame
    {other : Nat}
    (ok : PcOk region state other)
    (frame : Frame region state thread heap')
    (differs : other ≠ thread) :
    PcOk region (state.next thread heap' pc') other := by
  have sameCache := frame.cache other differs
  have held := fun k => frame.held other k differs
  unfold PcOk at ok ⊢
  rw [next_pc_ne differs]
  simp only [next_heap]
  cases shape : state.pc other with
  | idle => trivial
  | popCache sc | popPartial sc =>
      rw [shape] at ok
      exact ⟨ok.1, sameCache ▸ ok.2⟩
  | refillLoad sc k =>
      rw [shape] at ok held
      exact Refilling.frame ok sameCache (held k List.mem_cons_self)
  | takeAllCas sc k old =>
      rw [shape] at ok held
      have same := held k List.mem_cons_self
      exact ⟨ok.1.frame sameCache same, fun isEmpty =>
        same.empty (ok.2 isEmpty)⟩
  | takeSomeCas sc k old =>
      rw [shape] at ok held
      exact ⟨ok.1.frame sameCache (held k List.mem_cons_self), ok.2.1,
        sameCache ▸ ok.2.2⟩
  | takeSomeRetry =>
      rw [shape] at ok
      exact ok
  | refillPush sc k head num =>
      rw [shape] at ok held
      exact ⟨ok.1.frame sameCache (held k List.mem_cons_self), ok.2⟩
  | refillRetire sc k =>
      rw [shape] at ok held
      have same := held k List.mem_cons_self
      exact ⟨ok.1.frame sameCache same, same.empty ok.2⟩
  | popQueue request | expandLoad request | expandCas request old =>
      rw [shape] at ok
      exact RequestOk.frame ok sameCache
  | organize k more after =>
      rw [shape] at ok held
      refine ⟨fun j lower upper => ?_, fun next isNext => ?_⟩
      · refine spare_frame (ok.1 j lower upper) (held j ?_) frame.currAddr
        refine List.mem_append_left _ (List.mem_range'_1.mpr ⟨lower, ?_⟩)
        omega
      · obtain ⟨requestOk, granted⟩ := ok.2 next isNext
        refine ⟨requestOk.frame sameCache, ?_, granted.address⟩
        refine spare_frame granted.spare (held _ ?_) frame.currAddr
        rw [isNext]
        exact List.mem_append_right _ List.mem_cons_self
  | useSb request superblock =>
      rw [shape] at ok held
      exact ⟨ok.1.frame sameCache,
        spare_frame ok.2.spare (held _ List.mem_cons_self) frame.currAddr,
        ok.2.address⟩
  | newsbPush sc superblock num =>
      rw [shape] at ok held
      exact ⟨ok.1.frame sameCache (held _ List.mem_cons_self), ok.2⟩
  | flushLoad sc purpose =>
      rw [shape] at ok
      exact ⟨ok.1, ok.2.frame sameCache⟩
  | flushCas run old =>
      rw [shape] at ok
      refine ⟨ok.1.frame fun index early => ?_, ok.2.frame sameCache⟩
      refine frame.links other run.sc _ differs ?_
      rw [carried_blocks shape]
      exact LinkWalk.iterate_mem early
  | flushPush run =>
      rw [shape] at ok held
      exact ⟨ok.1, ok.2.1.frame sameCache,
        (held _ List.mem_cons_self).listed _ ok.2.2⟩
  | flushRetire run =>
      rw [shape] at ok held
      have same := held run.k List.mem_cons_self
      exact ⟨ok.1, ok.2.1.frame sameCache, same.listed _ ok.2.2.1,
        same.empty ok.2.2.2.1, ok.2.2.2.2⟩
  | pushCache sc block =>
      rw [shape] at ok
      exact ok

end HeapRace

end Bxalloc
