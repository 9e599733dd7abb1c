import Bxalloc.HeapRaceView

namespace Bxalloc

/-!
# Descriptors and lists that change hands

What the steps of one thread do to the places of descriptors and to its own
lists, and the steps that change nothing else.
-/

open Lib

namespace HeapRace

variable {region : SbRegion} {state state' : State}
variable {thread : Nat} {heap' : Heap} {pc pc' : Pc}

/-- The thread's own descriptors after a step. -/
@[simp] theorem holding_self :
    (state.next thread heap' pc').holding region (.thread thread) =
      pc'.held region := by
  simp only [State.holding, next_pc_self]

/-- The other places of descriptors after a step. -/
theorem holding_other
    {holder : Holder}
    (notOwn : holder ≠ .thread thread)
    (samePartial :
      ∀ sc,
        holder = .partialList sc →
        heap'.partialList sc = state.heap.partialList sc)
    (sameQueue : holder = .queue → heap'.queue = state.heap.queue) :
    (state.next thread heap' pc').holding region holder =
      state.holding region holder := by
  cases holder with
  | partialList sc => exact samePartial sc rfl
  | queue => exact sameQueue rfl
  | thread other =>
      have differs : other ≠ thread := fun same => notOwn (same ▸ rfl)
      simp only [State.holding, next_pc_ne differs]

/-- A descriptor that some place keeps is listed or spare. -/
theorem PcOk.held
    (ok : PcOk region state thread)
    {k : Nat}
    (member : k ∈ (state.pc thread).held region) :
    (∃ sc, Heap.Listed (state.heap.desc k) sc) ∨
      Heap.Spare region state.heap k := by
  unfold PcOk at ok
  cases shape : state.pc thread with
  | refillLoad sc j =>
      rw [shape] at ok member
      obtain rfl := List.mem_singleton.mp member
      exact .inl ⟨sc, Refilling.listed ok⟩
  | takeAllCas sc j old | takeSomeCas sc j old
  | refillPush sc j head num | refillRetire sc j =>
      rw [shape] at ok member
      obtain rfl := List.mem_singleton.mp member
      exact .inl ⟨sc, ok.1.listed⟩
  | newsbPush sc superblock num =>
      rw [shape] at ok member
      obtain rfl := List.mem_singleton.mp member
      exact .inl ⟨sc, ok.1.listed⟩
  | takeSomeRetry =>
      rw [shape] at ok
      exact ok.elim
  | organize first more after =>
      rw [shape] at ok member
      rcases List.mem_append.mp member with inRange | behind
      · have bounds := List.mem_range'_1.mp inRange
        exact .inr (ok.1 k bounds.1 (by omega))
      · obtain ⟨next, isNext, rfl⟩ :=
          Option.map_eq_some_iff.mp (Option.mem_toList.mp behind)
        exact .inr (ok.2 next isNext).2.spare
  | useSb request superblock =>
      rw [shape] at ok member
      obtain rfl := List.mem_singleton.mp member
      exact .inr ok.2.spare
  | flushPush run =>
      rw [shape] at ok member
      obtain rfl := List.mem_singleton.mp member
      exact .inl ⟨run.sc, ok.2.2⟩
  | flushRetire run =>
      rw [shape] at ok member
      obtain rfl := List.mem_singleton.mp member
      exact .inl ⟨run.sc, ok.2.2.1⟩
  | idle | popCache | popPartial | popQueue | expandLoad | expandCas
  | flushLoad | flushCas | pushCache =>
      rw [shape] at member
      cases member

theorem Inv.kept_state
    (inv : Inv region state)
    {holder : Holder}
    {k : Nat}
    (member : k ∈ state.holding region holder) :
    (∃ sc, Heap.Listed (state.heap.desc k) sc) ∨
      Heap.Spare region state.heap k := by
  cases holder with
  | partialList sc => exact .inl ⟨sc, inv.custody.partialListed sc k member⟩
  | queue => exact .inr (inv.custody.queueSpare k member)
  | thread other => exact (inv.threads other).held member

/-- Nobody keeps the descriptor of a full superblock. -/
theorem Inv.full_unkept
    (inv : Inv region state)
    {k sc : Nat}
    (used : (state.heap.desc k).heap = some sc)
    (isFull : (state.heap.desc k).anchor.state = .sbFull)
    (holder : Holder) :
    k ∉ state.holding region holder := by
  intro member
  rcases inv.kept_state member with ⟨sc', listed⟩ | spare
  · rcases listed.2 with isPartial | isEmpty
    · cases isFull.symm.trans isPartial
    · cases isFull.symm.trans isEmpty
  · cases used.symm.trans spare.blank

/-- A descriptor in use is not on the queue. -/
theorem Custody.not_queued
    (custody : Custody region state)
    {k sc : Nat}
    (used : (state.heap.desc k).heap = some sc) :
    k ∉ state.heap.queue := by
  intro queued
  cases used.symm.trans (custody.queueSpare k queued).blank

/-- What a thread holds is nowhere else. -/
theorem Custody.elsewhere
    (custody : Custody region state)
    {k : Nat}
    (held : k ∈ (state.pc thread).held region)
    {holder : Holder}
    (notOwn : holder ≠ .thread thread) :
    k ∉ state.holding region holder := by
  intro member
  have own : k ∈ state.holding region (.thread thread) := held
  exact notOwn (custody.once.place_eq member own)

/-- Descriptors that move, none of them changed. -/
theorem Custody.moved
    (custody : Custody region state)
    (splits :
      Splits ((state.next thread heap' pc').holding region)
        (fun k => ∃ holder, k ∈ state.holding region holder))
    (partialListed :
      ∀ sc k,
        k ∈ heap'.partialList sc →
        Heap.Listed (heap'.desc k) sc)
    (queueSpare :
      ∀ k, k ∈ heap'.queue → Heap.Spare region heap' k)
    (wasListed :
      ∀ sc k,
        Heap.Listed (heap'.desc k) sc →
        Heap.Listed (state.heap.desc k) sc) :
    Custody region (state.next thread heap' pc') where
  once := splits.occurs
  partialListed := partialListed
  queueSpare := queueSpare
  listed sc k listed :=
    (splits.covers k).mp (custody.listed sc k (wasListed sc k listed))

/-- A step that moves no descriptor. -/
theorem Custody.still
    (custody : Custody region state)
    (sameDesc : heap'.desc = state.heap.desc)
    (samePartial : heap'.partialList = state.heap.partialList)
    (sameQueue : heap'.queue = state.heap.queue)
    (sameCurr : heap'.currAddr = state.heap.currAddr)
    (sameHeld : pc'.held region = (state.pc thread).held region) :
    Custody region (state.next thread heap' pc') := by
  refine custody.moved ?_ ?_ ?_ ?_
  · refine custody.once.congr_content fun holder => ?_
    by_cases own : holder = .thread thread
    · rw [own, holding_self]
      exact sameHeld
    · exact holding_other own (fun _ _ => by rw [samePartial])
        (fun _ => sameQueue)
  · rw [samePartial, sameDesc]
    exact custody.partialListed
  · rw [sameQueue]
    exact fun k queued =>
      (custody.queueSpare k queued).congr sameDesc sameCurr
  · rw [sameDesc]
    exact fun _ _ => id

/-- A thread gives its only descriptor up, in a state no place expects. -/
theorem Custody.released
    (custody : Custody region state)
    {k : Nat}
    (held : (state.pc thread).held region = [k])
    (heldAfter : pc'.held region = [])
    (samePartial : heap'.partialList = state.heap.partialList)
    (sameQueue : heap'.queue = state.heap.queue)
    (sameCurr : heap'.currAddr = state.heap.currAddr)
    (others : ∀ j, j ≠ k → heap'.desc j = state.heap.desc j)
    (unlisted : ∀ sc, ¬ Heap.Listed (heap'.desc k) sc) :
    Custody region (state.next thread heap' pc') := by
  have own : k ∈ (state.pc thread).held region := by
    rw [held]
    exact List.mem_cons_self
  have kept :
      ∀ holder,
        holder ≠ .thread thread →
        (state.next thread heap' pc').holding region holder =
          state.holding region holder :=
    fun holder notOwn =>
      holding_other notOwn (fun _ _ => by rw [samePartial])
        (fun _ => sameQueue)
  have differs :
      ∀ holder j,
        holder ≠ .thread thread →
        j ∈ state.holding region holder →
        j ≠ k :=
    fun holder j notOwn member same =>
      custody.elsewhere own notOwn (same ▸ member)
  refine ⟨custody.once.sublist fun holder => ?_, ?_, ?_, ?_⟩
  · by_cases isOwn : holder = .thread thread
    · rw [isOwn, holding_self, heldAfter]
      exact List.nil_sublist _
    · rw [kept holder isOwn]
  · intro sc j member
    have before : j ∈ state.heap.partialList sc := samePartial ▸ member
    have other := differs (.partialList sc) j (by simp) before
    change Heap.Listed (heap'.desc j) sc
    rw [others j other]
    exact custody.partialListed sc j before
  · intro j queued
    have before : j ∈ state.heap.queue := sameQueue ▸ queued
    have other := differs .queue j (by simp) before
    have spare := custody.queueSpare j before
    refine ⟨?_, spare.indexPos, ?_⟩
    · change (heap'.desc j).heap = none
      rw [others j other]
      exact spare.blank
    · change _ ≤ heap'.currAddr
      rw [sameCurr]
      exact spare.inside
  · intro sc j listed
    have other : j ≠ k := by
      rintro rfl
      exact unlisted sc listed
    change Heap.Listed (heap'.desc j) sc at listed
    rw [others j other] at listed
    obtain ⟨holder, member⟩ := custody.listed sc j listed
    have notOwn : holder ≠ .thread thread := by
      rintro rfl
      change j ∈ (state.pc thread).held region at member
      rw [held] at member
      exact other (List.mem_singleton.mp member)
    exact ⟨holder, (kept holder notOwn).symm ▸ member⟩

/-- A thread that holds nothing gets a descriptor that nobody kept. -/
theorem Custody.taken
    (custody : Custody region state)
    {k : Nat}
    (unkept : ∀ holder, k ∉ state.holding region holder)
    (held : (state.pc thread).held region = [])
    (heldAfter : pc'.held region = [k])
    (samePartial : heap'.partialList = state.heap.partialList)
    (sameQueue : heap'.queue = state.heap.queue)
    (sameCurr : heap'.currAddr = state.heap.currAddr)
    (others : ∀ j, j ≠ k → heap'.desc j = state.heap.desc j) :
    Custody region (state.next thread heap' pc') := by
  have differs :
      ∀ holder j, j ∈ state.holding region holder → j ≠ k :=
    fun holder j member same => unkept holder (same ▸ member)
  have kept :
      ∀ holder,
        holder ≠ .thread thread →
        (state.next thread heap' pc').holding region holder =
          state.holding region holder :=
    fun holder notOwn =>
      holding_other notOwn (fun _ _ => by rw [samePartial])
        (fun _ => sameQueue)
  have splits :
      Splits ((state.next thread heap' pc').holding region)
        (fun j => j ∈ [k] ∨ ∃ holder, j ∈ state.holding region holder) := by
    refine custody.once.add (.thread thread) (List.nodup_singleton k) ?_ ?_
      kept (fun _ => Iff.rfl)
    · intro j isK
      rw [List.mem_singleton.mp isK]
      rintro ⟨holder, member⟩
      exact unkept holder member
    · rw [holding_self, heldAfter]
      change [k].Perm ([k] ++ (state.pc thread).held region)
      rw [held]
      exact List.Perm.refl _
  refine ⟨splits.occurs, ?_, ?_, ?_⟩
  · intro sc j member
    have before : j ∈ state.heap.partialList sc := samePartial ▸ member
    change Heap.Listed (heap'.desc j) sc
    rw [others j (differs (.partialList sc) j before)]
    exact custody.partialListed sc j before
  · intro j queued
    have before : j ∈ state.heap.queue := sameQueue ▸ queued
    have spare := custody.queueSpare j before
    refine ⟨?_, spare.indexPos, ?_⟩
    · change (heap'.desc j).heap = none
      rw [others j (differs .queue j before)]
      exact spare.blank
    · change _ ≤ heap'.currAddr
      rw [sameCurr]
      exact spare.inside
  · intro sc j listed
    refine (splits.covers j).mp ?_
    by_cases same : j = k
    · exact .inl (same ▸ List.mem_cons_self)
    · change Heap.Listed (heap'.desc j) sc at listed
      rw [others j same] at listed
      exact .inr (custody.listed sc j listed)

/-- A descriptor changes and stays where it is. -/
theorem Custody.kept
    (custody : Custody region state)
    {k : Nat}
    (sameHeld : pc'.held region = (state.pc thread).held region)
    (samePartial : heap'.partialList = state.heap.partialList)
    (sameQueue : heap'.queue = state.heap.queue)
    (sameCurr : heap'.currAddr = state.heap.currAddr)
    (others : ∀ j, j ≠ k → heap'.desc j = state.heap.desc j)
    (staysListed :
      ∀ sc,
        k ∈ state.heap.partialList sc →
        Heap.Listed (heap'.desc k) sc)
    (notQueued : k ∉ state.heap.queue)
    (isKept : ∃ holder, k ∈ state.holding region holder) :
    Custody region (state.next thread heap' pc') := by
  have splits :
      Splits ((state.next thread heap' pc').holding region)
        (fun j => ∃ holder, j ∈ state.holding region holder) := by
    refine custody.once.congr_content fun holder => ?_
    by_cases own : holder = .thread thread
    · rw [own, holding_self]
      exact sameHeld
    · exact holding_other own (fun _ _ => by rw [samePartial])
        (fun _ => sameQueue)
  refine ⟨splits.occurs, ?_, ?_, ?_⟩
  · intro sc j member
    have before : j ∈ state.heap.partialList sc := samePartial ▸ member
    change Heap.Listed (heap'.desc j) sc
    by_cases same : j = k
    · exact same ▸ staysListed sc (same ▸ before)
    · rw [others j same]
      exact custody.partialListed sc j before
  · intro j queued
    have before : j ∈ state.heap.queue := sameQueue ▸ queued
    have other : j ≠ k := fun same => notQueued (same ▸ before)
    have spare := custody.queueSpare j before
    refine ⟨?_, spare.indexPos, ?_⟩
    · change (heap'.desc j).heap = none
      rw [others j other]
      exact spare.blank
    · change _ ≤ heap'.currAddr
      rw [sameCurr]
      exact spare.inside
  · intro sc j listed
    refine (splits.covers j).mp ?_
    by_cases same : j = k
    · exact same ▸ isKept
    · change Heap.Listed (heap'.desc j) sc at listed
      rw [others j same] at listed
      exact custody.listed sc j listed

/-- `heap_push_partial` of the only descriptor of a thread. -/
theorem Custody.pushed
    (custody : Custody region state)
    {k sc : Nat}
    (held : (state.pc thread).held region = [k])
    (heldAfter : pc'.held region = [])
    (listed : Heap.Listed (state.heap.desc k) sc)
    (isPartial :
      heap'.partialList =
        Function.update state.heap.partialList sc
          (k :: state.heap.partialList sc))
    (sameDesc : heap'.desc = state.heap.desc)
    (sameQueue : heap'.queue = state.heap.queue)
    (sameCurr : heap'.currAddr = state.heap.currAddr) :
    Custody region (state.next thread heap' pc') := by
  have here :
      heap'.partialList sc = k :: state.heap.partialList sc := by
    rw [isPartial, Function.update_self]
  have there :
      ∀ sc', sc' ≠ sc → heap'.partialList sc' = state.heap.partialList sc' := by
    intro sc' differs
    rw [isPartial, Function.update_of_ne differs]
  refine custody.moved ?_ ?_ ?_ ?_
  · refine custody.once.exchange
      (show Holder.thread thread ≠ .partialList sc by simp) ?_ ?_
    · rw [holding_self, heldAfter]
      change
        ((state.pc thread).held region ++ state.heap.partialList sc).Perm
          ([] ++ heap'.partialList sc)
      rw [held, here]
      exact List.Perm.refl _
    · intro holder notOwn notList
      refine holding_other notOwn (fun sc' isList => there sc' ?_)
        (fun _ => sameQueue)
      rintro rfl
      exact notList isList
  · intro sc' j member
    rw [sameDesc]
    by_cases same : sc' = sc
    · subst same
      rw [here] at member
      rcases List.mem_cons.mp member with isK | before
      · exact isK ▸ listed
      · exact custody.partialListed sc' j before
    · rw [there sc' same] at member
      exact custody.partialListed sc' j member
  · rw [sameQueue]
    exact fun j queued =>
      (custody.queueSpare j queued).congr sameDesc sameCurr
  · rw [sameDesc]
    exact fun _ _ => id

/-- The rest of the invariant after a step. -/
theorem Inv.next
    (inv : Inv region state)
    (geometry : Heap.Geometry region heap')
    (wholeFull :
      ∀ k,
        (heap'.desc k).heap = some nlist →
        (heap'.desc k).anchor.state = .sbFull)
    (maxsizePos : ∀ sc, sc < nlist → 1 ≤ (heap'.cache thread sc).maxsize)
    (placement :
      Heap.Placement region (state.next thread heap' pc').view)
    (custody : Custody region (state.next thread heap' pc'))
    (frame : Frame region state thread heap')
    (own : PcOk region (state.next thread heap' pc') thread) :
    Inv region (state.next thread heap' pc') where
  geometry := geometry
  wholeFull := wholeFull
  maxsizePos other sc small := by
    change 1 ≤ (heap'.cache other sc).maxsize
    rcases eq_or_ne other thread with rfl | differs
    · exact maxsizePos sc small
    · rw [frame.cache other differs]
      exact inv.maxsizePos other sc small
  placement := placement
  custody := custody
  threads other := by
    rcases eq_or_ne other thread with rfl | differs
    · exact own
    · exact (inv.threads other).frame frame differs

/-- A step that leaves descriptors, links and other threads' lists alone. -/
theorem Frame.ofSame
    (sameDesc : heap'.desc = state.heap.desc)
    (sameMemory : heap'.memory = state.heap.memory)
    (sameCurr : heap'.currAddr = state.heap.currAddr)
    (sameCache :
      ∀ other,
        other ≠ thread → heap'.cache other = state.heap.cache other) :
    Frame region state thread heap' where
  cache := sameCache
  held _ _ _ _ := .ofEq (by rw [sameDesc])
  links _ _ _ _ _ := by rw [sameMemory]
  currAddr := sameCurr.ge

/-- The lists after a step that leaves all hands alone. -/
theorem Placed.refl
    (sameCarried : pc'.carried = (state.pc thread).carried)
    (sameFreed : pc'.freed = (state.pc thread).freed) :
    Placed state thread state.heap pc' state.view where
  memory := rfl
  desc := rfl
  live := rfl
  cache sc := by
    rw [view_cache]
    exact .refl _
  run sc := by
    rw [view_cache, sameCarried]
    exact .refl _
  freed sc := by
    rw [view_cache, sameFreed]
    exact .refl _
  others _ _ := rfl
  othersFinal other hand sc _ := view_cache state other sc hand

/-- A thread moves on and leaves the heap as it is. -/
theorem Inv.goto
    (inv : Inv region state)
    (sameHeld : pc'.held region = (state.pc thread).held region)
    (sameCarried : pc'.carried = (state.pc thread).carried)
    (sameFreed : pc'.freed = (state.pc thread).freed)
    (own : PcOk region (state.next thread state.heap pc') thread) :
    Inv region (state.next thread state.heap pc') :=
  inv.next inv.geometry inv.wholeFull
    (fun sc small => inv.maxsizePos thread sc small)
    ((Placed.refl sameCarried sameFreed).placement inv.placement)
    (inv.custody.still rfl rfl rfl rfl sameHeld)
    (.ofSame rfl rfl rfl fun _ _ => rfl) own

end HeapRace

end Bxalloc
