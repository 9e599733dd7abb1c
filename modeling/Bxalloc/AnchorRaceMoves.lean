import Bxalloc.AnchorRace

namespace Bxalloc

/-!
# Single steps of threads racing on one superblock

Every step but a failed exchange of a cut chain moves blocks between two places
or none, and passes the descriptor on as `Custody` says.
-/

open Lib

namespace AnchorRace

variable {sb : Superblock} {state state' : State} {thread : Nat}

/-- What the other threads see of a step. -/
structure Frame (state state' : State) (thread : Nat) : Prop where
  pc :
    ∀ other, other ≠ thread → state'.pc other = state.pc other
  cache :
    ∀ other, other ≠ thread → state'.cache other = state.cache other
  links :
    ∀ other block,
      other ≠ thread →
      block ∈ state.hands other →
      readLink state'.memory block = readLink state.memory block
  /-- An empty superblock stays empty for its holder. -/
  empty :
    ∀ other,
      other ≠ thread →
      (state.pc other).holds →
      state.anchor.state = .sbEmpty →
      state'.anchor.state = .sbEmpty

/-- Steps keep what the other threads know. -/
theorem Inv.threads_of_frame
    (inv : Inv sb state)
    (frame : Frame state state' thread)
    (own : PcOk state' thread) :
    ∀ other, PcOk state' other := by
  intro other
  rcases eq_or_ne other thread with rfl | differs
  · exact own
  · exact (inv.threads other).congr (frame.pc other differs)
      (frame.cache other differs) (frame.empty other differs)
      (fun block => frame.links other block differs)

/-- The threads' lists keep their bounds. -/
theorem Inv.maxsize_of_frame
    (inv : Inv sb state)
    (frame : Frame state state' thread)
    (own : 1 ≤ (state'.cache thread).maxsize) :
    ∀ other, 1 ≤ (state'.cache other).maxsize := by
  intro other
  rcases eq_or_ne other thread with rfl | differs
  · exact own
  · rw [frame.cache other differs]
    exact inv.maxsize other

/-- Only one thread holds the descriptor. -/
theorem Custody.ofHolder
    (only : ∀ other, (state.pc other).holds → other = thread)
    (unlisted : state.listed = false)
    (notFull : state.anchor.state ≠ .sbFull)
    (used : state.retired = false) :
    Custody state where
  unique first second firstHolds secondHolds :=
    (only first firstHolds).trans (only second secondHolds).symm
  held _ _ := ⟨unlisted, notFull, used⟩
  listed isListed := by
    rw [unlisted] at isListed
    cases isListed

/-- No thread holds the descriptor. -/
theorem Custody.ofNone
    (none : ∀ other, ¬ (state.pc other).holds)
    (listed :
      state.listed = true →
      state.anchor.state ≠ .sbFull ∧ state.retired = false) :
    Custody state where
  unique first _ holds := absurd holds (none first)
  held other holds := absurd holds (none other)
  listed := listed

/-- A listed descriptor is held by nobody. -/
theorem Custody.none_of_listed
    (custody : Custody state)
    (isListed : state.listed = true)
    (other : Nat) :
    ¬ (state.pc other).holds := by
  intro holds
  rw [(custody.held other holds).1] at isListed
  cases isListed

/-- The descriptor of a full superblock is held by nobody and not listed. -/
theorem Custody.none_of_full
    (custody : Custody state)
    (isFull : state.anchor.state = .sbFull) :
    state.listed = false ∧ ∀ other, ¬ (state.pc other).holds := by
  constructor
  · by_contra isListed
    exact (custody.listed (by simpa using isListed)).1 isFull
  · intro other holds
    exact (custody.held other holds).2.1 isFull

/-- Only the moved thread may hold the descriptor afterwards. -/
theorem holds_update
    {pc : Pc}
    (others : ∀ other, (state.pc other).holds → other = thread)
    (other : Nat)
    (holds : (Function.update state.pc thread pc other).holds) :
    other = thread := by
  by_contra differs
  rw [Function.update_of_ne differs] at holds
  exact differs (others other holds)

/-- Nobody holds the descriptor after its holder let it go. -/
theorem not_holds_update
    {pc : Pc}
    (others : ∀ other, (state.pc other).holds → other = thread)
    (released : pc.holds = false)
    (other : Nat) :
    ¬ (Function.update state.pc thread pc other).holds := by
  intro holds
  have same := holds_update others other holds
  rw [same, Function.update_self, released] at holds
  cases holds

/-- The free list just set. -/
@[simp] theorem setCache_cache_self
    (state : State)
    (thread : Nat)
    (cache : FreeList) :
    (state.setCache thread cache).cache thread = cache :=
  Function.update_self ..

/-- The blocks of the free list just set. -/
theorem cacheList_setCache_self
    (state : State)
    (thread : Nat)
    (cache : FreeList) :
    (state.setCache thread cache).cacheList thread =
      List.iterate (readLink state.memory) cache.list cache.size := by
  unfold State.cacheList
  rw [setCache_cache_self]
  rfl

/-- Changing one free list leaves the others alone. -/
theorem setCache_cache_ne
    (state : State)
    (cache : FreeList)
    {other : Nat}
    (differs : Place.cache other ≠ Place.cache thread) :
    (state.setCache thread cache).cache other = state.cache other :=
  Function.update_of_ne (fun same => differs (by rw [same])) _ _

/-- Moving one thread leaves the others alone. -/
theorem setPc_pc_ne
    (state : State)
    (pc : Pc)
    {other : Nat}
    (differs : Place.hands other ≠ Place.hands thread) :
    (state.setPc thread pc).pc other = state.pc other :=
  Function.update_of_ne (fun same => differs (by rw [same])) _ _

/-- The thread is between its free list and the chain with blocks. -/
def Pc.carries : Pc → Bool
  | .flushCas _ _ _ _ | .refillPush _ _ => true
  | _ => false

/-- A thread outside the two carrying places carries nothing. -/
theorem hands_eq_nil
    {pc : Pc}
    (shape : state.pc thread = pc)
    (carriesNone : pc.carries = false) :
    state.hands thread = [] := by
  unfold State.hands
  rw [shape]
  cases pc with
  | flushCas | refillPush => cases carriesNone
  | _ => rfl

/-- Moving a thread is no business of the others, listed or not. -/
theorem frame_setPc
    (state : State)
    (thread : Nat)
    (pc : Pc)
    (listed : Bool) :
    Frame state ({ state with listed := listed }.setPc thread pc) thread where
  pc _ differs := Function.update_of_ne differs _ _
  cache _ _ := rfl
  links _ _ _ _ := rfl
  empty _ _ _ isEmpty := isEmpty

/-- Moving a thread that carries nothing leaves all places alone. -/
theorem content_setPc
    {pc : Pc}
    (before : state.hands thread = [])
    (after : (state.setPc thread pc).hands thread = [])
    (place : Place) :
    (state.setPc thread pc).content sb place = state.content sb place := by
  by_cases own : place = .hands thread
  · rw [own]
    exact after.trans before.symm
  · refine content_congr ?_ (fun _ _ => rfl)
    cases place with
    | chain => exact ⟨rfl, rfl⟩
    | cache | live => rfl
    | hands other => exact setPc_pc_ne state pc own

/-- A step that only moves a thread that carries nothing. -/
theorem Inv.setPc
    (inv : Inv sb state)
    {pc : Pc}
    (before : state.hands thread = [])
    (after : (state.setPc thread pc).hands thread = [])
    (custody : Custody (state.setPc thread pc))
    (own : PcOk (state.setPc thread pc) thread) :
    Inv sb (state.setPc thread pc) where
  splits := inv.splits.congr_content (content_setPc before after)
  anchor := inv.anchor
  maxsize := inv.maxsize
  custody := custody
  threads :=
    inv.threads_of_frame (frame_setPc state thread pc state.listed) own

/-- A step of a thread on its own list and on live blocks. -/
theorem Inv.localMove
    (inv : Inv sb state)
    (isIdle : state.pc thread = .idle)
    (samePc : state'.pc = state.pc)
    (sameAnchor : state'.anchor = state.anchor)
    (sameListed : state'.listed = state.listed)
    (sameRetired : state'.retired = state.retired)
    (sameCache :
      ∀ other, other ≠ thread → state'.cache other = state.cache other)
    (sameLinks :
      ∀ other block,
        block ∈ state.hands other →
        readLink state'.memory block = readLink state.memory block)
    (maxsize : 1 ≤ (state'.cache thread).maxsize)
    (splits :
      Splits (state'.content sb)
        (fun block => block ∈ sb.blocks ∧ state.retired = false)) :
    Inv sb state' := by
  have frame : Frame state state' thread :=
    { pc := fun other _ => by rw [samePc]
      cache := sameCache
      links := fun other block _ => sameLinks other block
      empty := fun _ _ _ isEmpty => by rw [sameAnchor]; exact isEmpty }
  refine
    { splits := ?_
      anchor := ?_
      maxsize := inv.maxsize_of_frame frame maxsize
      custody :=
        inv.custody.congr (fun other => by rw [samePc]) sameListed
          (by rw [sameAnchor]) sameRetired
      threads := inv.threads_of_frame frame ?_ }
  · rw [sameRetired]
    exact splits
  · rw [sameRetired, sameAnchor]
    exact inv.anchor
  · unfold PcOk
    rw [samePc, isIdle]
    trivial

/-- `FreeList::Pop` by a thread outside a flush or refill. -/
theorem Inv.malloc
    (inv : Inv sb state)
    (isIdle : state.pc thread = .idle)
    (nonempty : 0 < (state.cache thread).size) :
    Inv sb
      { state.setCache thread ((state.cache thread).pop state.memory).2 with
        live := (state.cache thread).list :: state.live } := by
  obtain ⟨rest, size⟩ : ∃ rest, (state.cache thread).size = rest + 1 :=
    ⟨(state.cache thread).size - 1, by omega⟩
  have head :
      state.cacheList thread =
        (state.cache thread).list ::
          List.iterate (readLink state.memory)
            (readLink state.memory (state.cache thread).list) rest := by
    unfold State.cacheList
    rw [size]
    rfl
  have after :
      (state.setCache thread
          ((state.cache thread).pop state.memory).2).cacheList thread =
        List.iterate (readLink state.memory)
          (readLink state.memory (state.cache thread).list) rest := by
    rw [cacheList_setCache_self]
    change List.iterate _ _ ((state.cache thread).size - 1) = _
    rw [size]
    rfl
  refine inv.localMove isIdle rfl rfl rfl rfl
    (fun other differs => Function.update_of_ne differs _ _)
    (fun _ _ _ => rfl) ?_ ?_
  · change 1 ≤ ((state.setCache thread _).cache thread).maxsize
    rw [setCache_cache_self]
    exact inv.maxsize thread
  · refine inv.splits.exchange
      (show Place.cache thread ≠ Place.live by simp) ?_ ?_
    · change (state.cacheList thread ++ state.live).Perm
        ((state.setCache thread _).cacheList thread ++
          (state.cache thread).list :: state.live)
      rw [after, head]
      exact List.perm_middle.symm
    · intro place notCache notLive
      refine content_congr ?_ (fun _ _ => rfl)
      cases place with
      | chain => exact ⟨rfl, rfl⟩
      | cache other => exact setCache_cache_ne state _ notCache
      | hands => rfl
      | live => exact absurd rfl notLive

/-- The free list behind a block that was just linked to it. -/
theorem Inv.pushed_list
    (inv : Inv sb state)
    {block : Nat}
    {place : Place}
    (inPlace : block ∈ state.content sb place)
    (kept :
      ∀ other,
        other ∈ state.cacheList thread →
        readLink (writeLink state.memory block (state.cache thread).list)
            other =
          readLink state.memory other) :
    List.iterate
        (readLink (writeLink state.memory block (state.cache thread).list))
        block ((state.cache thread).size + 1) =
      block :: state.cacheList thread := by
  rw [List.iterate]
  congr 1
  cases size : (state.cache thread).size with
  | zero =>
      unfold State.cacheList
      rw [size]
      rfl
  | succ rest =>
      have first :
          (state.cache thread).list ∈ state.content sb (.cache thread) := by
        change _ ∈ List.iterate _ _ _
        rw [size]
        exact List.mem_cons_self ..
      have listWindow := sb.window (inv.isBlock first)
      have blockWindow := sb.window (inv.isBlock inPlace)
      have userSpace := sb.userSpace
      rw [readLink_writeLink_same _ (by omega) (by omega), ← size]
      exact LinkWalk.iterate_congr_of_mem kept

/-- `FreeList::Push` of a live block by a thread outside a flush or refill. -/
theorem Inv.free
    (inv : Inv sb state)
    (isIdle : state.pc thread = .idle)
    {block : Nat}
    (isLive : block ∈ state.live) :
    Inv sb
      { state.setCache thread
          ((state.cache thread).push state.memory block).2 with
        memory := ((state.cache thread).push state.memory block).1
        live := state.live.erase block } := by
  have inPlace : block ∈ state.content sb .live := isLive
  have kept :
      ∀ place,
        place ≠ .live →
        ∀ other,
          other ∈ state.content sb place →
          readLink (writeLink state.memory block (state.cache thread).list)
              other =
            readLink state.memory other :=
    fun place notLive other occurs =>
      inv.readLink_write inPlace notLive occurs
  refine inv.localMove isIdle rfl rfl rfl rfl
    (fun other differs => Function.update_of_ne differs _ _) ?_ ?_ ?_
  · exact fun other =>
      kept (.hands other) (by simp)
  · change 1 ≤ ((state.setCache thread _).cache thread).maxsize
    rw [setCache_cache_self]
    exact inv.maxsize thread
  · refine inv.splits.exchange
      (show Place.live ≠ Place.cache thread by simp) ?_ ?_
    · have pushed :
          State.content sb
              { state.setCache thread
                  ((state.cache thread).push state.memory block).2 with
                memory := ((state.cache thread).push state.memory block).1
                live := state.live.erase block } (.cache thread) =
            block :: state.cacheList thread := by
        change List.iterate _ ((state.setCache thread _).cache thread).list
          ((state.setCache thread _).cache thread).size = _
        rw [setCache_cache_self]
        exact inv.pushed_list inPlace (kept (.cache thread) (by simp))
      rw [pushed]
      change (state.live ++ state.cacheList thread).Perm
        (state.live.erase block ++ block :: state.cacheList thread)
      exact ((List.perm_cons_erase isLive).append_right _).trans
        List.perm_middle.symm
    · intro place notLive notCache
      refine content_congr ?_ (kept place notLive)
      cases place with
      | chain => exact ⟨rfl, rfl⟩
      | cache other => exact setCache_cache_ne state _ notCache
      | hands => rfl
      | live => exact absurd rfl notLive

/-- A user's store into a live block. -/
theorem Inv.store
    (inv : Inv sb state)
    {address block : Nat}
    (byte : UInt8)
    (isLive : block ∈ state.live)
    (lower : block ≤ address)
    (upper : address < block + sb.blockSize) :
    Inv sb { state with memory := state.memory.store8 address byte } := by
  have inPlace : block ∈ state.content sb .live := isLive
  have kept :
      ∀ place,
        place ≠ .live →
        ∀ other,
          other ∈ state.content sb place →
          readLink (state.memory.store8 address byte) other =
            readLink state.memory other := by
    intro place notLive other occurs
    have differs := inv.ne_of_places notLive occurs inPlace
    have apart := sb.apart (inv.isBlock occurs) (inv.isBlock inPlace) differs
    have sizes := sb.sizes
    exact readLink_store8_apart _ _ (by omega)
  refine
    { splits := inv.splits.congr_content fun place => ?_
      anchor := inv.anchor
      maxsize := inv.maxsize
      custody := inv.custody.congr (fun _ => rfl) rfl rfl rfl
      threads := fun other => ?_ }
  · by_cases isUser : place = .live
    · rw [isUser]
      rfl
    · refine content_congr ?_ (kept place isUser)
      cases place with
      | chain => exact ⟨rfl, rfl⟩
      | cache | hands | live => rfl
  · exact (inv.threads other).congr rfl rfl (fun _ => id)
      (kept (.hands other) (by simp))

/-- A refill elsewhere changes `_maxsize` only. -/
theorem Inv.grow
    (inv : Inv sb state)
    (isIdle : state.pc thread = .idle) :
    Inv sb
      (state.setCache thread
        ((state.cache thread).growMaxSize (state.cache thread).maxsize
          sb.maxcount)) := by
  obtain ⟨sameList, sameSize⟩ :=
    Heap.growMaxSize_list (state.cache thread) (state.cache thread).maxsize
      sb.maxcount
  refine inv.localMove isIdle rfl rfl rfl rfl
    (fun other differs => Function.update_of_ne differs _ _)
    (fun _ _ _ => rfl) ?_ ?_
  · rw [setCache_cache_self]
    exact Heap.growMaxSize_pos (inv.maxsize thread) sb.sizes.2.1
  · refine inv.splits.congr_content fun place => ?_
    by_cases own : place = .cache thread
    · rw [own]
      change State.cacheList _ thread = state.cacheList thread
      rw [cacheList_setCache_self, sameList, sameSize]
      rfl
    · refine content_congr ?_ (fun _ _ => rfl)
      cases place with
      | chain => exact ⟨rfl, rfl⟩
      | cache other => exact setCache_cache_ne state _ own
      | hands | live => rfl

/-- The place just moved to. -/
@[simp] theorem setPc_pc_self
    (state : State)
    (thread : Nat)
    (pc : Pc) :
    (state.setPc thread pc).pc thread = pc :=
  Function.update_self ..

/-- A step after which the same threads hold the descriptor. -/
theorem Frame.holds
    (frame : Frame state state' thread)
    (own : (state'.pc thread).holds = (state.pc thread).holds)
    (other : Nat) :
    (state'.pc other).holds = (state.pc other).holds := by
  rcases eq_or_ne other thread with rfl | differs
  · exact own
  · rw [frame.pc other differs]

/-- `flush_cache` takes a run off the free list and loads the anchor. -/
theorem Inv.flush
    (inv : Inv sb state)
    (isIdle : state.pc thread = .idle)
    {tail blockCount : Nat}
    (positive : 0 < blockCount)
    (within : blockCount ≤ (state.cache thread).size)
    (isTail :
      tail =
        (readLink state.memory)^[blockCount - 1] (state.cache thread).list) :
    Inv sb
      ((state.setCache thread
        ((state.cache thread).popList (readLink state.memory tail)
          blockCount)).setPc thread
            (.flushCas (state.cache thread).list tail blockCount
              state.anchor)) := by
  generalize moved : (state.setCache thread _).setPc thread _ = state'
  have memory : state'.memory = state.memory := by
    rw [← moved]
    rfl
  have cache :
      state'.cache thread =
        (state.cache thread).popList (readLink state.memory tail)
          blockCount := by
    rw [← moved]
    exact setCache_cache_self ..
  have pc :
      state'.pc thread =
        .flushCas (state.cache thread).list tail blockCount state.anchor := by
    rw [← moved]
    exact setPc_pc_self ..
  have frame : Frame state state' thread := by
    rw [← moved]
    exact
      { pc := fun other differs => Function.update_of_ne differs _ _
        cache := fun other differs => Function.update_of_ne differs _ _
        links := fun _ _ _ _ => rfl
        empty := fun _ _ _ isEmpty => isEmpty }
  have behind :
      readLink state.memory tail =
        (readLink state.memory)^[blockCount] (state.cache thread).list := by
    obtain ⟨more, isCount⟩ : ∃ more, blockCount = more + 1 :=
      ⟨blockCount - 1, by omega⟩
    rw [isTail, isCount, Nat.add_sub_cancel]
    exact (Function.iterate_succ_apply' _ _ _).symm
  refine
    { splits := ?_
      anchor := ?_
      maxsize := inv.maxsize_of_frame frame ?_
      custody := ?_
      threads := inv.threads_of_frame frame ?_ }
  · have retired : state'.retired = state.retired := by
      rw [← moved]
      rfl
    rw [retired]
    refine inv.splits.exchange
      (show Place.cache thread ≠ Place.hands thread by simp) ?_ ?_
    · have nothing : state.hands thread = [] := hands_eq_nil isIdle rfl
      have parts :
          state.cacheList thread =
            state'.hands thread ++ state'.cacheList thread := by
        unfold State.cacheList State.hands
        rw [pc, cache, memory]
        change _ = List.iterate _ _ _ ++ List.iterate _ _ (_ - _)
        rw [FreeList.popList, behind, ← List.iterate_add,
          Nat.add_sub_cancel' within]
      change (state.cacheList thread ++ state.hands thread).Perm
        (state'.cacheList thread ++ state'.hands thread)
      rw [nothing, parts, List.append_nil]
      exact List.perm_append_comm
    · intro place notCache notHands
      refine content_congr ?_ (fun _ _ => by rw [memory])
      rw [← moved]
      cases place with
      | chain => exact ⟨rfl, rfl⟩
      | cache other => exact setCache_cache_ne state _ notCache
      | hands other => exact setPc_pc_ne _ _ notHands
      | live => rfl
  · rw [← moved]
    exact inv.anchor
  · rw [cache]
    exact inv.maxsize thread
  · have holds := frame.holds (by rw [pc, isIdle]; rfl)
    rw [← moved] at holds ⊢
    exact inv.custody.congr holds rfl rfl rfl
  · unfold PcOk
    rw [pc, memory]
    exact ⟨positive, isTail⟩

/-- The run that a thread flushes, and the effect of linking its tail. -/
structure Carried
    (sb : Superblock)
    (state : State)
    (thread head tail blockCount : Nat) : Prop where
  run : state.hands thread =
    List.iterate (readLink state.memory) head blockCount
  isTail : tail = (readLink state.memory)^[blockCount - 1] head
  positive : 1 ≤ blockCount
  inHands : tail ∈ state.content sb (.hands thread)
  used : state.retired = false
  /-- Writing the tail's link changes no other link of the run. -/
  inner :
    ∀ target index,
      index < blockCount - 1 →
      readLink (writeLink state.memory tail target)
          ((readLink state.memory)^[index] head) =
        readLink state.memory ((readLink state.memory)^[index] head)

/-- A thread in the exchange of `flush_cache` carries a run. -/
theorem Inv.carried
    (inv : Inv sb state)
    {head tail blockCount : Nat}
    {old : Anchor}
    (shape : state.pc thread = .flushCas head tail blockCount old) :
    Carried sb state thread head tail blockCount := by
  have ok := inv.threads thread
  unfold PcOk at ok
  rw [shape] at ok
  obtain ⟨positive, isTail⟩ := ok
  have run :
      state.hands thread =
        List.iterate (readLink state.memory) head blockCount := by
    unfold State.hands
    rw [shape]
  have inHands : tail ∈ state.content sb (.hands thread) := by
    change tail ∈ state.hands thread
    rw [run, isTail]
    exact LinkWalk.iterate_mem (by omega)
  have nodup : (List.iterate (readLink state.memory) head blockCount).Nodup :=
    run ▸ inv.splits.nodup (.hands thread)
  refine
    { run := run
      isTail := isTail
      positive := positive
      inHands := inHands
      used := (inv.splits.member_of_mem inHands).2
      inner := ?_ }
  intro target index early
  have differs :
      (readLink state.memory)^[index] head ≠ tail := by
    rw [isTail]
    exact LinkWalk.iterate_ne_of_nodup blockCount nodup (by omega) (by omega)
      (by omega)
  have inRun :
      (readLink state.memory)^[index] head ∈
        state.content sb (.hands thread) := by
    change _ ∈ state.hands thread
    rw [run]
    exact LinkWalk.iterate_mem (by omega)
  have apart :=
    sb.apart (inv.isBlock inRun) (inv.isBlock inHands) differs
  have sizes := sb.sizes
  exact readLink_writeLink_apart _ _ (by omega)

/-- A failed exchange of `flush_cache`: the tail is linked, nothing moved. -/
theorem Inv.flushCas_fail
    (inv : Inv sb state)
    {head tail blockCount target : Nat}
    {old : Anchor}
    (shape : state.pc thread = .flushCas head tail blockCount old) :
    Inv sb
      ({ state with
        memory := writeLink state.memory tail target }.setPc thread
          (.flushCas head tail blockCount state.anchor)) := by
  have carried := inv.carried shape
  generalize moved : State.setPc _ thread _ = state'
  have memory :
      state'.memory = writeLink state.memory tail target := by
    rw [← moved]
    rfl
  have pc :
      state'.pc thread = .flushCas head tail blockCount state.anchor := by
    rw [← moved]
    exact setPc_pc_self ..
  have kept :
      ∀ place,
        place ≠ .hands thread →
        ∀ block,
          block ∈ state.content sb place →
          readLink state'.memory block = readLink state.memory block := by
    intro place differs block occurs
    rw [memory]
    exact inv.readLink_write carried.inHands differs occurs
  have frame : Frame state state' thread :=
    { pc := fun other differs => by
        rw [← moved]
        exact Function.update_of_ne differs _ _
      cache := fun _ _ => by rw [← moved]; rfl
      links := fun other block differs =>
        kept (.hands other) (by simpa using differs) block
      empty := fun _ _ _ isEmpty => by rw [← moved]; exact isEmpty }
  refine
    { splits := ?_
      anchor := ?_
      maxsize := inv.maxsize_of_frame frame ?_
      custody := ?_
      threads := inv.threads_of_frame frame ?_ }
  · have retired : state'.retired = state.retired := by
      rw [← moved]
      rfl
    rw [retired]
    refine inv.splits.congr_content fun place => ?_
    by_cases own : place = .hands thread
    · rw [own]
      change state'.hands thread = state.hands thread
      rw [carried.run]
      unfold State.hands
      rw [pc, memory]
      exact LinkWalk.iterate_congr fun index early =>
        carried.inner target index (by omega)
    · refine content_congr ?_ (kept place own)
      rw [← moved]
      cases place with
      | chain => exact ⟨rfl, rfl⟩
      | hands other => exact setPc_pc_ne _ _ own
      | cache | live => rfl
  · rw [← moved]
    exact inv.anchor
  · rw [← moved]
    exact inv.maxsize thread
  · have holds := frame.holds (by rw [pc, shape]; rfl)
    rw [← moved] at holds ⊢
    exact inv.custody.congr holds rfl rfl rfl
  · unfold PcOk
    rw [pc, memory]
    refine ⟨carried.positive, carried.isTail.trans ?_⟩
    exact (LinkWalk.reach_congr fun index early =>
      carried.inner target index early).symm

/-- The descriptor's count of free blocks is the one of this module. -/
theorem freeCount_smallDesc
    (sb : Superblock)
    (anchor : Anchor) :
    Heap.freeCount (Heap.smallDesc sb.start sb.sc anchor) =
      State.freeCount sb anchor := by
  simp only [Heap.freeCount, Heap.smallDesc, reduceCtorEq, if_false]
  rfl

/-- The chain of a used superblock. -/
theorem chain_of_used
    (used : state.retired = false) :
    state.chain sb =
      List.iterate (readLink state.memory) (sb.block state.anchor.avail)
        (State.freeCount sb state.anchor) := by
  unfold State.chain
  rw [used]
  rfl

/-- What the exchange of `flush_cache` writes into the anchor. -/
structure Returned
    (sb : Superblock)
    (old new : Anchor)
    (head blockCount : Nat) : Prop where
  ok : Heap.AnchorOk new sb.maxcount
  start : sb.block new.avail = head
  wasUsable : old.state = .sbFull ∨ old.state = .sbPartial
  notFull : new.state ≠ .sbFull
  count :
    State.freeCount sb new = blockCount + State.freeCount sb old

/-- The run and the chain fit together into the superblock. -/
theorem Inv.returned
    (inv : Inv sb state)
    {head tail blockCount : Nat}
    (carried : Carried sb state thread head tail blockCount) :
    Returned sb state.anchor
      (BaseMeta.flushAnchor state.anchor (computeIdx sb.start head sb.sc)
        blockCount sb.maxcount) head blockCount := by
  have headIn : head ∈ state.content sb (.hands thread) := by
    change head ∈ state.hands thread
    rw [carried.run]
    exact List.mem_iterate.mpr ⟨0, carried.positive, rfl⟩
  obtain ⟨idx, early, isHead⟩ :=
    Superblock.mem_blocks.mp (inv.isBlock headIn)
  have isIdx : computeIdx sb.start head sb.sc = idx := by
    rw [← isHead]
    exact sb.computeIdx_block early
  have lengths :
      (state.hands thread).length = blockCount ∧
        (state.chain sb).length = State.freeCount sb state.anchor := by
    rw [carried.run, chain_of_used carried.used]
    exact ⟨List.length_iterate .., List.length_iterate ..⟩
  have room :
      blockCount + State.freeCount sb state.anchor ≤ sb.maxcount := by
    have nodup : (state.hands thread ++ state.chain sb).Nodup :=
      List.nodup_append'.mpr
        ⟨inv.splits.nodup (.hands thread), inv.splits.nodup .chain,
          inv.splits.disjoint (.hands thread) .chain (by simp)⟩
    have inside :
        ∀ block,
          block ∈ state.hands thread ++ state.chain sb →
          block ∈ sb.blocks := by
      intro block occurs
      rcases List.mem_append.mp occurs with inHands | inChain
      · exact inv.isBlock
          (show block ∈ state.content sb (.hands thread) from inHands)
      · exact inv.isBlock
          (show block ∈ state.content sb .chain from inChain)
    have bound := sb.length_le nodup inside
    rw [List.length_append, lengths.1, lengths.2] at bound
    exact bound
  have spec :=
    @Heap.flushAnchor_spec (Heap.smallDesc sb.start sb.sc state.anchor) idx
      blockCount (by simp [Heap.smallDesc]) (inv.anchor carried.used) early
      carried.positive (by rw [freeCount_smallDesc]; exact room)
  obtain ⟨ok, avail, wasUsable, states, count⟩ := spec
  rw [isIdx]
  refine ⟨ok, ?_, wasUsable, ?_, ?_⟩
  · rw [← isHead]
    exact congrArg sb.block avail
  · intro isFull
    rcases states with isPartial | ⟨isEmpty, -⟩
    · cases isPartial.symm.trans isFull
    · cases isEmpty.symm.trans isFull
  · rw [freeCount_smallDesc] at count
    exact (freeCount_smallDesc sb _).symm.trans count

/-- The holders after the exchange of `flush_cache`. -/
theorem Custody.flushed
    (custody : Custody state)
    (frame : Frame state state' thread)
    {new : Anchor}
    (outside : (state.pc thread).holds = false)
    (pc : state'.pc thread = afterFlush state.anchor new)
    (anchor : state'.anchor = new)
    (notFull : new.state ≠ .sbFull)
    (listed : state'.listed = state.listed)
    (retired : state'.retired = false) :
    Custody state' := by
  by_cases wasFull : state.anchor.state = .sbFull
  · obtain ⟨unlisted, nobody⟩ := custody.none_of_full wasFull
    have only : ∀ other, (state'.pc other).holds → other = thread := by
      intro other holds
      by_contra differs
      rw [frame.pc other differs] at holds
      exact nobody other holds
    exact .ofHolder only (listed.trans unlisted) (by rw [anchor]; exact notFull)
      retired
  · have same : ∀ other, (state'.pc other).holds = (state.pc other).holds :=
      frame.holds (by rw [pc, afterFlush, if_neg wasFull, outside]; rfl)
    constructor
    · intro first second
      rw [same, same]
      exact custody.unique first second
    · intro other
      rw [same, listed, anchor, retired]
      exact fun holds => ⟨(custody.held other holds).1, notFull, rfl⟩
    · intro _
      rw [anchor]
      exact ⟨notFull, retired⟩

/-- Linking the tail puts the carried run in front of the chain. -/
theorem Inv.joined
    (inv : Inv sb state)
    {head tail blockCount : Nat}
    (carried : Carried sb state thread head tail blockCount) :
    List.iterate
        (readLink
          (writeLink state.memory tail (sb.block state.anchor.avail)))
        head (blockCount + State.freeCount sb state.anchor) =
      state.hands thread ++ state.chain sb := by
  have oldChain :
      List.iterate
          (readLink
            (writeLink state.memory tail (sb.block state.anchor.avail)))
          (sb.block state.anchor.avail)
          (State.freeCount sb state.anchor) =
        state.chain sb := by
    rw [chain_of_used carried.used]
    refine LinkWalk.iterate_congr_of_mem fun block occurs => ?_
    refine inv.readLink_write carried.inHands
      (show Place.chain ≠ Place.hands thread by simp) ?_
    change block ∈ state.chain sb
    rw [chain_of_used carried.used]
    exact occurs
  have linked :
      readLink (writeLink state.memory tail (sb.block state.anchor.avail))
          ((readLink state.memory)^[blockCount - 1] head) =
        sb.block state.anchor.avail := by
    have window := sb.window (inv.isBlock carried.inHands)
    have userSpace := sb.userSpace
    rw [← carried.isTail]
    exact readLink_writeLink_same _ (by omega)
      (sb.block_lt (inv.anchor carried.used).avail_le)
  have positive := carried.positive
  obtain ⟨more, isCount⟩ : ∃ more, blockCount = more + 1 :=
    ⟨blockCount - 1, by omega⟩
  rw [← oldChain, carried.run]
  rw [isCount] at linked ⊢
  refine LinkWalk.iterate_splice _ ?_ linked
  intro index early
  exact carried.inner _ index (by omega)

/-- A successful exchange of `flush_cache` puts the run on the chain. -/
theorem Inv.flushCas_done
    (inv : Inv sb state)
    {head tail blockCount : Nat}
    {new : Anchor}
    (shape : state.pc thread = .flushCas head tail blockCount state.anchor)
    (isNew :
      new =
        BaseMeta.flushAnchor state.anchor (computeIdx sb.start head sb.sc)
          blockCount sb.maxcount) :
    Inv sb
      ({ state with
        memory :=
          writeLink state.memory tail (sb.block state.anchor.avail)
        anchor := new }.setPc thread (afterFlush state.anchor new)) := by
  have carried := inv.carried shape
  have returned := inv.returned carried
  rw [← isNew] at returned
  generalize moved : State.setPc _ thread _ = state'
  have memory :
      state'.memory =
        writeLink state.memory tail (sb.block state.anchor.avail) := by
    rw [← moved]
    rfl
  have anchor : state'.anchor = new := by
    rw [← moved]
    rfl
  have retired : state'.retired = false := by
    rw [← moved]
    exact carried.used
  have pc : state'.pc thread = afterFlush state.anchor new := by
    rw [← moved]
    exact setPc_pc_self ..
  have kept :
      ∀ place,
        place ≠ .hands thread →
        ∀ block,
          block ∈ state.content sb place →
          readLink state'.memory block = readLink state.memory block := by
    intro place differs block occurs
    rw [memory]
    exact inv.readLink_write carried.inHands differs occurs
  have notEmpty : state.anchor.state ≠ .sbEmpty := by
    rcases returned.wasUsable with isFull | isPartial
    · rw [isFull]
      decide
    · rw [isPartial]
      decide
  have frame : Frame state state' thread :=
    { pc := fun other differs => by
        rw [← moved]
        exact Function.update_of_ne differs _ _
      cache := fun _ _ => by rw [← moved]; rfl
      links := fun other block differs =>
        kept (.hands other) (by simpa using differs) block
      empty := fun _ _ _ isEmpty => absurd isEmpty notEmpty }
  have emptied : state'.hands thread = [] := by
    unfold State.hands
    rw [pc]
    unfold afterFlush
    split_ifs <;> rfl
  have joined : state'.chain sb = state.hands thread ++ state.chain sb := by
    rw [chain_of_used retired, anchor, returned.start, returned.count, memory]
    exact inv.joined carried
  refine
    { splits := ?_
      anchor := fun _ => anchor ▸ returned.ok
      maxsize := inv.maxsize_of_frame frame ?_
      custody :=
        inv.custody.flushed frame (by rw [shape]; rfl) pc anchor
          returned.notFull ?_ retired
      threads := inv.threads_of_frame frame ?_ }
  · have splits := inv.splits
    rw [carried.used] at splits
    rw [retired]
    refine splits.exchange
      (show Place.hands thread ≠ Place.chain by simp) ?_ ?_
    · change (state.hands thread ++ state.chain sb).Perm
        (state'.hands thread ++ state'.chain sb)
      rw [emptied, joined]
      exact List.Perm.refl _
    · intro place notHands notChain
      refine content_congr ?_ (kept place notHands)
      rw [← moved]
      cases place with
      | chain => exact absurd rfl notChain
      | hands other => exact setPc_pc_ne _ _ notHands
      | cache | live => rfl
  · rw [← moved]
    exact inv.maxsize thread
  · rw [← moved]
    rfl
  · unfold PcOk
    rw [pc, anchor]
    unfold afterFlush
    split_ifs with wasFull isEmpty
    · exact isEmpty
    · trivial
    · trivial

/-- The other threads do not hold what this thread holds. -/
theorem Inv.only
    (inv : Inv sb state)
    (holds : (state.pc thread).holds)
    (other : Nat)
    (otherHolds : (state.pc other).holds) :
    other = thread :=
  inv.custody.unique other thread otherHolds holds

/-- `heap_push_partial` of `flush_cache`. -/
theorem Inv.flushPush
    (inv : Inv sb state)
    (shape : state.pc thread = .flushPush) :
    Inv sb ({ state with listed := true }.setPc thread .idle) := by
  have holds : (state.pc thread).holds := by
    rw [shape]
    rfl
  have held := inv.custody.held thread holds
  refine
    { splits := inv.splits.congr_content
        (@content_setPc _ { state with listed := true } _ _
          (hands_eq_nil shape rfl) (hands_eq_nil (setPc_pc_self _ _ _) rfl))
      anchor := inv.anchor
      maxsize := inv.maxsize
      custody :=
        .ofNone (not_holds_update (inv.only holds) rfl)
          (fun _ => ⟨held.2.1, held.2.2⟩)
      threads :=
        inv.threads_of_frame (frame_setPc state thread .idle true) ?_ }
  unfold PcOk
  rw [setPc_pc_self]
  trivial

/-- `heap_pop_partial` of `malloc_from_partial`. -/
theorem Inv.refill
    (inv : Inv sb state)
    (isIdle : state.pc thread = .idle)
    (isEmpty : (state.cache thread).size = 0)
    (isListed : state.listed = true) :
    Inv sb ({ state with listed := false }.setPc thread .refillLoad) := by
  have nobody := inv.custody.none_of_listed isListed
  obtain ⟨notFull, used⟩ := inv.custody.listed isListed
  refine
    { splits := inv.splits.congr_content
        (@content_setPc _ { state with listed := false } _ _
          (hands_eq_nil isIdle rfl) (hands_eq_nil (setPc_pc_self _ _ _) rfl))
      anchor := inv.anchor
      maxsize := inv.maxsize
      custody :=
        .ofHolder
          (holds_update fun other holds => absurd holds (nobody other))
          rfl notFull used
      threads :=
        inv.threads_of_frame (frame_setPc state thread .refillLoad false) ?_ }
  unfold PcOk
  rw [setPc_pc_self]
  exact isEmpty

/-- A holder moves on with the descriptor and changes nothing else. -/
theorem Inv.holderMove
    (inv : Inv sb state)
    {before after : Pc}
    (shape : state.pc thread = before)
    (beforeHolds : before.holds = true)
    (beforeNone : before.carries = false)
    (afterNone : after.carries = false)
    (own : PcOk (state.setPc thread after) thread) :
    Inv sb (state.setPc thread after) := by
  have holds : (state.pc thread).holds := by
    rw [shape]
    exact beforeHolds
  have held := inv.custody.held thread holds
  exact inv.setPc (hands_eq_nil shape beforeNone)
    (hands_eq_nil (setPc_pc_self _ _ _) afterNone)
    (.ofHolder (holds_update (inv.only holds)) held.1 held.2.1 held.2.2) own

/-- `small_sb_retire`: every block is on the chain of an empty superblock. -/
theorem Inv.retire
    (inv : Inv sb state)
    (shape : state.pc thread = .retire) :
    Inv sb
      ({ state with
        anchor := Descriptor.blank.anchor
        retired := true }.setPc thread .idle) := by
  have holds : (state.pc thread).holds := by
    rw [shape]
    rfl
  have held := inv.custody.held thread holds
  have isEmpty : state.anchor.state = .sbEmpty := by
    have ok := inv.threads thread
    unfold PcOk at ok
    rw [shape] at ok
    exact ok
  have complete : (state.chain sb).length = sb.maxcount := by
    rw [chain_of_used held.2.2, List.length_iterate, State.freeCount,
      if_pos isEmpty]
  have onChain : ∀ block, block ∈ sb.blocks → block ∈ state.chain sb :=
    fun block isBlock =>
      sb.mem_of_length (inv.splits.nodup .chain)
        (fun other occurs =>
          inv.isBlock (show other ∈ state.content sb .chain from occurs))
        complete isBlock
  have frame :
      Frame state
        ({ state with
          anchor := Descriptor.blank.anchor
          retired := true }.setPc thread .idle) thread :=
    { pc := fun other differs => Function.update_of_ne differs _ _
      cache := fun _ _ => rfl
      links := fun _ _ _ _ => rfl
      empty := fun other differs otherHolds _ =>
        absurd (inv.only holds other otherHolds) differs }
  refine
    { splits := ?_
      anchor := fun used => by cases used
      maxsize := inv.maxsize
      custody :=
        .ofNone (not_holds_update (inv.only holds) rfl) ?_
      threads := inv.threads_of_frame frame ?_ }
  · refine inv.splits.drop .chain rfl ?_ ?_
    · intro place notChain
      by_cases own : place = .hands thread
      · rw [own]
        exact (hands_eq_nil (setPc_pc_self _ _ _) rfl).trans
          (hands_eq_nil shape rfl).symm
      · refine content_congr ?_ (fun _ _ => rfl)
        cases place with
        | chain => exact absurd rfl notChain
        | hands other => exact setPc_pc_ne _ _ own
        | cache | live => rfl
    · intro block
      constructor
      · rintro ⟨-, used⟩
        cases used
      · rintro ⟨⟨isBlock, -⟩, notThere⟩
        exact absurd (onChain block isBlock) notThere
  · intro isListed
    cases held.1.symm.trans isListed
  · unfold PcOk
    rw [setPc_pc_self]
    trivial

/-- What a popper knows about a partial superblock it is about to take from. -/
structure Taking (sb : Superblock) (state : State) (thread : Nat) : Prop where
  used : state.retired = false
  unlisted : state.listed = false
  chain :
    state.chain sb =
      List.iterate (readLink state.memory) (sb.block state.anchor.avail)
        state.anchor.count
  few : state.anchor.count < sb.maxcount
  emptyList : state.cacheList thread = []

/-- The popper of a superblock that is not empty. -/
theorem Inv.taking
    (inv : Inv sb state)
    (holds : (state.pc thread).holds)
    (notEmpty : state.anchor.state ≠ .sbEmpty)
    (size : (state.cache thread).size = 0) :
    Taking sb state thread := by
  obtain ⟨unlisted, notFull, used⟩ := inv.custody.held thread holds
  have ok := inv.anchor used
  have few : state.anchor.count < sb.maxcount := by
    unfold Heap.AnchorOk at ok
    cases shape : state.anchor.state with
    | sbError =>
        rw [shape] at ok
        exact ok.elim
    | sbFull => exact absurd shape notFull
    | sbPartial =>
        rw [shape] at ok
        exact ok.2.1
    | sbEmpty => exact absurd shape notEmpty
  refine ⟨used, unlisted, ?_, few, ?_⟩
  · rw [chain_of_used used, State.freeCount, if_neg notEmpty]
  · unfold State.cacheList
    rw [size]
    rfl

/-- The exchange that takes the whole chain. -/
theorem Inv.takeAll
    (inv : Inv sb state)
    {old : Anchor}
    (shape : state.pc thread = .takeAllCas old)
    (notEmpty : state.anchor.state ≠ .sbEmpty) :
    Inv sb
      (({ state with anchor := fullAnchor sb }.setCache thread
        ((state.cache thread).pushList (sb.block state.anchor.avail)
          state.anchor.count)).setPc thread .idle) := by
  have holds : (state.pc thread).holds := by
    rw [shape]
    rfl
  have size : (state.cache thread).size = 0 := by
    have ok := inv.threads thread
    unfold PcOk at ok
    rw [shape] at ok
    exact ok.1
  have taking := inv.taking holds notEmpty size
  generalize moved : State.setPc _ thread _ = state'
  have memory : state'.memory = state.memory := by
    rw [← moved]
    rfl
  have retired : state'.retired = false := by
    rw [← moved]
    exact taking.used
  have anchor : state'.anchor = fullAnchor sb := by
    rw [← moved]
    rfl
  have cache :
      state'.cache thread =
        (state.cache thread).pushList (sb.block state.anchor.avail)
          state.anchor.count := by
    rw [← moved]
    exact setCache_cache_self ..
  have pc : state'.pc thread = .idle := by
    rw [← moved]
    exact setPc_pc_self ..
  have frame : Frame state state' thread :=
    { pc := fun other differs => by
        rw [← moved]
        exact Function.update_of_ne differs _ _
      cache := fun other differs => by
        rw [← moved]
        exact Function.update_of_ne differs _ _
      links := fun _ _ _ _ => by rw [memory]
      empty := fun other differs otherHolds _ =>
        absurd (inv.only holds other otherHolds) differs }
  refine
    { splits := ?_
      anchor := fun _ => by rw [anchor]; exact ⟨rfl, le_rfl⟩
      maxsize := inv.maxsize_of_frame frame ?_
      custody := ?_
      threads := inv.threads_of_frame frame ?_ }
  · have splits := inv.splits
    rw [taking.used] at splits
    rw [retired]
    refine splits.exchange
      (show Place.chain ≠ Place.cache thread by simp) ?_ ?_
    · have nothing : state'.chain sb = [] := by
        rw [chain_of_used retired, anchor]
        rfl
      have taken : state'.cacheList thread = state.chain sb := by
        unfold State.cacheList
        rw [cache, memory, taking.chain]
        rfl
      change (state.chain sb ++ state.cacheList thread).Perm
        (state'.chain sb ++ state'.cacheList thread)
      rw [nothing, taken, taking.emptyList, List.append_nil]
      exact List.Perm.refl _
    · intro place notChain notCache
      by_cases own : place = .hands thread
      · rw [own]
        exact (hands_eq_nil pc rfl).trans (hands_eq_nil shape rfl).symm
      · refine content_congr ?_ (fun _ _ => by rw [memory])
        rw [← moved]
        cases place with
        | chain => exact absurd rfl notChain
        | cache other => exact setCache_cache_ne _ _ notCache
        | hands other => exact setPc_pc_ne _ _ own
        | live => rfl
  · rw [cache]
    exact inv.maxsize thread
  · refine .ofNone ?_ ?_
    · rw [← moved]
      exact not_holds_update (inv.only holds) rfl
    · intro isListed
      rw [← moved] at isListed
      cases taking.unlisted.symm.trans isListed
  · unfold PcOk
    rw [pc]
    trivial

/-- `heap_push_partial` and `PushList` of `malloc_from_partial`. -/
theorem Inv.refillPush
    (inv : Inv sb state)
    {head num : Nat}
    (shape : state.pc thread = .refillPush head num) :
    Inv sb
      (({ state with listed := true }.setCache thread
        (((state.cache thread).pushList head num).growMaxSize
          (state.cache thread).maxsize sb.maxcount)).setPc thread .idle) := by
  have holds : (state.pc thread).holds := by
    rw [shape]
    rfl
  have held := inv.custody.held thread holds
  have size : (state.cache thread).size = 0 := by
    have ok := inv.threads thread
    unfold PcOk at ok
    rw [shape] at ok
    exact ok
  obtain ⟨sameList, sameSize⟩ :=
    Heap.growMaxSize_list ((state.cache thread).pushList head num)
      (state.cache thread).maxsize sb.maxcount
  generalize moved : State.setPc _ thread _ = state'
  have memory : state'.memory = state.memory := by
    rw [← moved]
    rfl
  have cache :
      state'.cache thread =
        ((state.cache thread).pushList head num).growMaxSize
          (state.cache thread).maxsize sb.maxcount := by
    rw [← moved]
    exact setCache_cache_self ..
  have pc : state'.pc thread = .idle := by
    rw [← moved]
    exact setPc_pc_self ..
  have frame : Frame state state' thread :=
    { pc := fun other differs => by
        rw [← moved]
        exact Function.update_of_ne differs _ _
      cache := fun other differs => by
        rw [← moved]
        exact Function.update_of_ne differs _ _
      links := fun _ _ _ _ => by rw [memory]
      empty := fun _ _ _ isEmpty => by rw [← moved]; exact isEmpty }
  refine
    { splits := ?_
      anchor := ?_
      maxsize := inv.maxsize_of_frame frame ?_
      custody := ?_
      threads := inv.threads_of_frame frame ?_ }
  · have retired : state'.retired = state.retired := by
      rw [← moved]
      rfl
    rw [retired]
    refine inv.splits.exchange
      (show Place.hands thread ≠ Place.cache thread by simp) ?_ ?_
    · have before : state.cacheList thread = [] := by
        unfold State.cacheList
        rw [size]
        rfl
      have carried :
          state.hands thread =
            List.iterate (readLink state.memory) head num := by
        unfold State.hands
        rw [shape]
      have received : state'.cacheList thread = state.hands thread := by
        unfold State.cacheList
        rw [cache, memory, sameList, sameSize, carried]
        rfl
      change (state.hands thread ++ state.cacheList thread).Perm
        (state'.hands thread ++ state'.cacheList thread)
      rw [before, received, hands_eq_nil pc rfl, List.append_nil]
      exact List.Perm.refl _
    · intro place notHands notCache
      refine content_congr ?_ (fun _ _ => by rw [memory])
      rw [← moved]
      cases place with
      | chain => exact ⟨rfl, rfl⟩
      | cache other => exact setCache_cache_ne _ _ notCache
      | hands other => exact setPc_pc_ne _ _ notHands
      | live => rfl
  · rw [← moved]
    exact inv.anchor
  · rw [cache]
    exact Heap.growMaxSize_pos (inv.maxsize thread) sb.sizes.2.1
  · refine .ofNone ?_ (fun _ => ?_)
    · rw [← moved]
      exact not_holds_update (inv.only holds) rfl
    · rw [← moved]
      exact ⟨held.2.1, held.2.2⟩
  · unfold PcOk
    rw [pc]
    trivial

/-- Nodes reached early from `anchor.avail` are on the chain. -/
theorem Taking.onChain
    (taking : Taking sb state thread)
    {index : Nat}
    (early : index < state.anchor.count) :
    (readLink state.memory)^[index] (sb.block state.anchor.avail) ∈
      state.content sb .chain := by
  change _ ∈ state.chain sb
  rw [taking.chain]
  exact LinkWalk.iterate_mem early

/-- The walk of `malloc_from_partial` over part of the chain. -/
theorem Inv.takeLoop_chain
    (inv : Inv sb state)
    (taking : Taking sb state thread)
    {more : Nat}
    (many : more + 1 < state.anchor.count) :
    BaseMeta.takeLoop state.memory (more + 1) (sb.block state.anchor.avail)
        (sb.block state.anchor.avail) 0 =
      ((readLink state.memory)^[more] (sb.block state.anchor.avail),
        (readLink state.memory)^[more + 1] (sb.block state.anchor.avail),
        more + 1) := by
  rw [Heap.takeLoop_spec, Nat.zero_add]
  intro index early
  have window := sb.window (inv.isBlock (taking.onChain (by omega : index < _)))
  omega

/-- The exchange that takes part of the chain. -/
theorem Inv.takeSome
    (inv : Inv sb state)
    {more head tail newhead idx : Nat}
    (shape : state.pc thread = .takeSomeCas state.anchor)
    (many : more + 1 < state.anchor.count)
    (isHead : head = sb.block state.anchor.avail)
    (isTail : tail = (readLink state.memory)^[more] head)
    (isNewhead : newhead = (readLink state.memory)^[more + 1] head)
    (isIdx : idx = computeIdx sb.start newhead sb.sc) :
    Inv sb
      ({ state with
        memory := writeLink state.memory tail 0
        anchor := restAnchor state.anchor idx (more + 1) }.setPc thread
          (.refillPush head (more + 1))) := by
  have holds : (state.pc thread).holds := by
    rw [shape]
    rfl
  have ok := inv.threads thread
  unfold PcOk at ok
  rw [shape] at ok
  obtain ⟨size, notEmpty, -⟩ := ok
  have taking := inv.taking holds notEmpty size
  have tailOn : tail ∈ state.content sb .chain := by
    rw [isTail, isHead]
    exact taking.onChain (by omega)
  have newheadOn : newhead ∈ state.content sb .chain := by
    rw [isNewhead, isHead]
    exact taking.onChain many
  obtain ⟨index, early, atIndex⟩ :=
    Superblock.mem_blocks.mp (inv.isBlock newheadOn)
  have sameIdx : idx = index := by
    rw [isIdx, ← atIndex]
    exact sb.computeIdx_block early
  have chainShape :
      state.chain sb =
        List.iterate (readLink state.memory) head
          (more + 1 + (state.anchor.count - (more + 1))) := by
    rw [taking.chain, ← isHead, Nat.add_sub_cancel' many.le]
  have parts :
      state.chain sb =
        List.iterate (readLink state.memory) head (more + 1) ++
          List.iterate (readLink state.memory) newhead
            (state.anchor.count - (more + 1)) := by
    rw [chainShape, List.iterate_add, isNewhead]
  have nodup : (state.chain sb).Nodup := inv.splits.nodup .chain
  rw [chainShape] at nodup
  obtain ⟨takenSame, restSame⟩ :=
    @LinkWalk.iterate_cut _ _ (readLink (writeLink state.memory tail 0)) _ _ _
      nodup (by
        intro node member notTail
        rw [← chainShape] at member
        change node ∈ state.content sb .chain at member
        rw [← isTail] at notTail
        have apart := sb.apart (inv.isBlock member) (inv.isBlock tailOn) notTail
        have sizes := sb.sizes
        exact readLink_writeLink_apart _ _ (by omega))
  generalize moved : State.setPc _ thread _ = state'
  have memory : state'.memory = writeLink state.memory tail 0 := by
    rw [← moved]
    rfl
  have retired : state'.retired = false := by
    rw [← moved]
    exact taking.used
  have anchor : state'.anchor = restAnchor state.anchor idx (more + 1) := by
    rw [← moved]
    rfl
  have pc : state'.pc thread = .refillPush head (more + 1) := by
    rw [← moved]
    exact setPc_pc_self ..
  have kept :
      ∀ place,
        place ≠ .chain →
        ∀ block,
          block ∈ state.content sb place →
          readLink state'.memory block = readLink state.memory block := by
    intro place differs block occurs
    rw [memory]
    exact inv.readLink_write tailOn differs occurs
  have frame : Frame state state' thread :=
    { pc := fun other differs => by
        rw [← moved]
        exact Function.update_of_ne differs _ _
      cache := fun _ _ => by rw [← moved]; rfl
      links := fun other block _ => kept (.hands other) (by simp) block
      empty := fun other differs otherHolds _ =>
        absurd (inv.only holds other otherHolds) differs }
  have taken :
      state'.hands thread =
        List.iterate (readLink state.memory) head (more + 1) := by
    unfold State.hands
    rw [pc, memory]
    exact takenSame
  have rest :
      state'.chain sb =
        List.iterate (readLink state.memory) newhead
          (state.anchor.count - (more + 1)) := by
    rw [chain_of_used retired, anchor, memory]
    change List.iterate _ (sb.block idx) (state.anchor.count - (more + 1)) = _
    rw [sameIdx, atIndex, isNewhead]
    exact restSame
  refine
    { splits := ?_
      anchor := fun _ => ?_
      maxsize := inv.maxsize_of_frame frame ?_
      custody := ?_
      threads := inv.threads_of_frame frame ?_ }
  · have splits := inv.splits
    rw [taking.used] at splits
    rw [retired]
    refine splits.exchange
      (show Place.chain ≠ Place.hands thread by simp) ?_ ?_
    · change (state.chain sb ++ state.hands thread).Perm
        (state'.chain sb ++ state'.hands thread)
      rw [hands_eq_nil shape rfl, taken, rest, parts, List.append_nil]
      exact List.perm_append_comm
    · intro place notChain notHands
      refine content_congr ?_ (kept place notChain)
      rw [← moved]
      cases place with
      | chain => exact absurd rfl notChain
      | hands other => exact setPc_pc_ne _ _ notHands
      | cache | live => rfl
  · have few := taking.few
    rw [anchor]
    refine ⟨?_, ?_, ?_⟩
    · change 1 ≤ state.anchor.count - (more + 1)
      omega
    · change state.anchor.count - (more + 1) < sb.maxcount
      omega
    · change idx < sb.maxcount
      omega
  · rw [← moved]
    exact inv.maxsize thread
  · refine @Custody.ofHolder _ thread ?_ ?_ ?_ retired
    · rw [← moved]
      exact holds_update (inv.only holds)
    · rw [← moved]
      exact taking.unlisted
    · rw [anchor]
      intro isFull
      cases isFull
  · unfold PcOk
    rw [pc]
    change (state'.cache thread).size = 0
    rw [← moved]
    exact size

end AnchorRace

end Bxalloc
