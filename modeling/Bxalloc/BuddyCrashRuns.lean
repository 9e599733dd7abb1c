import Bxalloc.BuddyCrash

namespace Bxalloc

/-!
# Which crashes the large-object allocator recovers from

The persisted sizes tile the arena after every crash inside a `free` that
merges whole buddies: the lower header is doubled, flushed and fenced before
anything depends on it, and both its old and its new size fit the tiling around
it.  The flag of an allocated block is never flushed, and a split flushes both
headers before one fence, so an `alloc` that splits or returns is not safe.
-/

open Lib

namespace Buddy

variable {layout : BuddyLayout} {state state' : Buddy}
variable {items items' : Nat → List Nat} {hand hand' held : List Nat}
variable {lines : Lines Nat BlockHeader}

/-- Headers from which the scan finds a tiling and no held block free. -/
def Sound
    (layout : BuddyLayout)
    (held : List Nat)
    (header : Nat → BlockHeader) : Prop :=
  ∃ tile,
    Tiles tile (fun b => (header b).blockSize) layout.start layout.finish ∧
      (∀ b,
        tile b →
        ∃ i, i < layout.levels ∧ (header b).blockSize = layout.levelSize i) ∧
      ∀ b, b ∈ held → (header b).free = false

/-- A layout has as many lists as it has levels. -/
theorem recoverArgs_numBlocks
    (layout : BuddyLayout) :
    layout.recoverArgs.numBlocks = layout.levels := by
  have someLevel := layout.someLevel
  have last : Nat.log2 (layout.maxBlockSize / layout.basicBlockSize) =
      layout.levels - 1 :=
    log2_level layout.recoverArgs (layout.levels - 1)
  unfold RecoverArgs.numBlocks
  change Nat.log2 (layout.maxBlockSize / layout.basicBlockSize) + 1 = _
  omega

/-- Recovery from sound headers. -/
theorem Sound.recovers
    {header : Nat → BlockHeader}
    (sound : Sound layout held header) :
    Recovers layout header held := by
  obtain ⟨tile, tiles, level, flags⟩ := sound
  have headers : Headers layout.recoverArgs header tile := by
    refine ⟨tiles, ?_⟩
    rw [recoverArgs_numBlocks]
    exact level
  obtain ⟨visited, final, items, recovered, exactly, -, lists, listed⟩ :=
    recoverArena_spec headers
  refine ⟨visited, final, recovered, ?_, items, lists, ?_, ?_⟩
  · exact tiles.congr exactly (fun _ _ => rfl)
  · intro i above
    rw [List.eq_nil_iff_forall_not_mem]
    intro b member
    obtain ⟨isTile, -, size⟩ := (listed i b).mp member
    obtain ⟨j, below, size'⟩ := level b isTile
    rw [size] at size'
    have sameLevel := levelSize_injective size'
    omega
  · intro b i isHeld member
    have isFree := ((listed i b).mp member).2.1
    rw [flags b isHeld] at isFree
    cases isFree

/-- Every crash of these lines leaves sound headers. -/
def Safe
    (layout : BuddyLayout)
    (held : List Nat)
    (lines : Lines Nat BlockHeader) : Prop :=
  ∀ header, lines.IsImage header → Sound layout held header

/-- All values of the lines have the sizes of the blocks and keep them used. -/
structure Settled
    (state : Buddy)
    (items : Nat → List Nat)
    (hand held : List Nat)
    (lines : Lines Nat BlockHeader) : Prop where
  sizes :
    ∀ b,
      Tile state items hand b →
      ∀ value,
        value ∈ (lines b).values → value.blockSize = sizeAt state b
  flags :
    ∀ b,
      b ∈ held →
      ∀ value, value ∈ (lines b).values → value.free = false

/-- An event that stores no new size and frees no held block. -/
def Harmless (state : Buddy) (held : List Nat) : Event → Prop
  | .store b value =>
      value.blockSize = sizeAt state b ∧ (b ∈ held → value.free = false)
  | .flush _ => True
  | .fence => True

namespace Settled

/-- Settled lines are safe. -/
theorem safe
    (settled : Settled state items hand held lines)
    (partition : Partition layout state items hand) :
    Safe layout held lines := by
  intro header image
  have sizes :
      ∀ b,
        Tile state items hand b →
        (header b).blockSize = sizeAt state b :=
    fun b isTile => settled.sizes b isTile _ (image b)
  refine ⟨Tile state items hand,
    partition.tiles.congr (fun _ => Iff.rfl) sizes, ?_, ?_⟩
  · intro b isTile
    rw [sizes b isTile]
    exact partition.level isTile
  · intro b isHeld
    exact settled.flags b isHeld _ (image b)

/-- A harmless event keeps the lines settled. -/
theorem step
    (settled : Settled state items hand held lines)
    {event : Event}
    (harmless : Harmless state held event) :
    Settled state items hand held (lines.step event) := by
  have values :
      ∀ b value,
        value ∈ (lines.step event b).values →
        value ∈ (lines b).values ∨
          (value.blockSize = sizeAt state b ∧
            (b ∈ held → value.free = false)) := by
    intro b value possible
    cases event with
    | store address stored =>
        rcases eq_or_ne b address with rfl | differs
        · rw [Lines.step_store_same, Line.values_store] at possible
          rcases List.mem_append.mp possible with old | new
          · exact Or.inl old
          · rw [List.mem_singleton.mp new]
            exact Or.inr harmless
        · rw [Lines.step_store_other _ _ differs] at possible
          exact Or.inl possible
    | flush address =>
        rcases eq_or_ne b address with rfl | differs
        · rw [Lines.step_flush_same, Line.values_flush] at possible
          exact Or.inl possible
        · rw [Lines.step_flush_other _ differs] at possible
          exact Or.inl possible
    | fence => exact Or.inl (Line.mem_values_fence possible)
  refine ⟨?_, ?_⟩
  · intro b isTile value possible
    rcases values b value possible with old | ⟨size, -⟩
    · exact settled.sizes b isTile value old
    · exact size
  · intro b isHeld value possible
    rcases values b value possible with old | ⟨-, flag⟩
    · exact settled.flags b isHeld value old
    · exact flag isHeld

/-- Harmless events are safe at every point. -/
theorem throughout
    (settled : Settled state items hand held lines)
    (partition : Partition layout state items hand)
    {events : List Event}
    (harmless : ∀ event, event ∈ events → Harmless state held event) :
    Lines.Throughout (Safe layout held) lines events ∧
      Settled state items hand held (lines.steps events) := by
  refine Lines.Throughout.of_invariant ?_ ?_ settled
  · intro lines settled
    exact settled.safe partition
  · intro lines event member settled
    exact settled.step (harmless event member)

/-- Another partition of the same blocks is settled, too. -/
theorem congr
    (settled : Settled state items hand held lines)
    (partition : Partition layout state items hand)
    (partition' : Partition layout state' items' hand')
    (sameSize : ∀ b, sizeAt state' b = sizeAt state b) :
    Settled state' items' hand' held lines := by
  refine ⟨?_, settled.flags⟩
  intro b isTile value possible
  have sameTile :=
    partition.tiles.unique partition'.tiles (fun b _ => sameSize b) b
  rw [sameSize]
  exact settled.sizes b (sameTile.mp isTile) value possible

end Settled

/-- The loop of `remove` stores links only. -/
theorem removeLoopEvents_harmless
    {b fuel currPtr : Nat}
    {header : Nat → BlockHeader}
    (used : ∀ b, b ∈ held → (state.header b).free = false)
    (same : SameBlocks state.header header)
    {event : Event}
    (member : event ∈ removeLoopEvents b fuel header currPtr) :
    Harmless state held event := by
  induction fuel generalizing header currPtr with
  | zero => cases member
  | succ fuel inductionHypothesis =>
      unfold removeLoopEvents at member
      split at member
      · cases member
      · split at member
        · rcases List.mem_cons.mp member with rfl | member
          · refine ⟨(same currPtr).2, fun isHeld => ?_⟩
            exact (same currPtr).1.trans (used currPtr isHeld)
          · refine inductionHypothesis ?_ member
            intro other
            have changed :=
              sameBlocks_next header currPtr (header b).next other
            exact ⟨changed.1.trans (same other).1,
              changed.2.trans (same other).2⟩
        · exact inductionHypothesis same member

/-- `remove` stores links only. -/
theorem removeEvents_harmless
    (used : ∀ b, b ∈ held → (state.header b).free = false)
    (i b : Nat) :
    ∀ event,
      event ∈ removeEvents layout state i b →
      Harmless state held event := by
  intro event member
  unfold removeEvents at member
  split at member
  · cases member
  · exact removeLoopEvents_harmless used (fun _ => ⟨rfl, rfl⟩) member

/-- `insert` stores a link only. -/
theorem insertEvents_harmless
    (used : ∀ b, b ∈ held → (state.header b).free = false)
    (i b : Nat) :
    ∀ event,
      event ∈ insertEvents state i b →
      Harmless state held event := by
  intro event member
  rw [List.mem_singleton.mp member]
  exact ⟨rfl, used b⟩

/-- Users' blocks are marked used. -/
theorem Partition.used
    (partition : Partition layout state items hand)
    (holds : ∀ b, b ∈ held → b ∈ state.live) :
    ∀ b, b ∈ held → (state.header b).free = false :=
  fun b isHeld => (partition.allocated b (holds b isHeld)).1

namespace MergeSteps

variable {i b u : Nat} {first second : Buddy}
variable {items1 items2 : Nat → List Nat}

/--
While the lower half is doubled, a crash leaves it with its old or its new
size; after the fence it has the new one.
-/
theorem merge_safe
    (steps : MergeSteps layout i b state first second u items1 items2)
    (settled : Settled second items2 [b, u] held lines)
    (holds : ∀ c, c ∈ held → c ∈ second.live) :
    Lines.Throughout (Safe layout held) lines (mergeEvents second b u) ∧
      Settled (second.merge b u).2 items2 [min b u] held
        (lines.steps (mergeEvents second b u)) := by
  obtain ⟨partition, -, isLow, sameLive, there⟩ := steps.merged
  have lowShape : (if b < u then b else u) = min b u := isLow
  unfold mergeEvents
  rw [lowShape]
  generalize newHeader :
    { second.header (min b u) with
      blockSize := (second.header (min b u)).blockSize * 2 } = doubled
  have here : (second.merge b u).2.header (min b u) = doubled := by
    rw [← newHeader, ← isLow]
    exact setHeader_same _ _ _
  generalize (second.merge b u).2 = merged at *
  generalize min b u = c at *
  have oldTile :
      ∀ x, Tile merged items2 [c] x → x ≠ c → Tile second items2 [b, u] x := by
    rintro x ⟨place, occurs⟩ differs
    cases place with
    | level j => exact ⟨.level j, occurs⟩
    | live =>
        refine ⟨.live, ?_⟩
        change x ∈ second.live
        rw [← sameLive]
        exact occurs
    | hand => exact absurd (List.mem_singleton.mp occurs) differs
  have notHeld : c ∉ held := by
    intro isHeld
    have isLive : c ∈ content merged items2 [c] .live := by
      change c ∈ merged.live
      rw [sameLive]
      exact holds c isHeld
    have place := partition.splits.place_eq
      (show c ∈ content merged items2 [c] .hand from
        List.mem_singleton.mpr rfl) isLive
    cases place
  -- All other lines keep their values, and these fit both tilings.
  have after :
      ∀ lines' : Lines Nat BlockHeader,
        (∀ x value,
          value ∈ (lines' x).values →
          x = c ∧ value = doubled ∨ x ≠ c ∧ value ∈ (lines x).values) →
        Settled merged items2 [c] held lines' := by
    intro lines' possible
    refine ⟨?_, ?_⟩
    · intro x isTile value occurs
      rcases possible x value occurs with ⟨rfl, rfl⟩ | ⟨differs, old⟩
      · exact (congrArg BlockHeader.blockSize here).symm
      · rw [settled.sizes x (oldTile x isTile differs) value old]
        exact (congrArg BlockHeader.blockSize (there x differs)).symm
    · intro x isHeld value occurs
      rcases possible x value occurs with ⟨rfl, -⟩ | ⟨-, old⟩
      · exact absurd isHeld notHeld
      · exact settled.flags x isHeld value old
  have final :
      Settled merged items2 [c] held
        (lines.steps (Lines.overwrite c doubled)) :=
    after _ fun x value occurs => Lines.mem_values_overwrite occurs
  subst newHeader
  refine ⟨?_, final⟩
  refine Lines.Throughout.overwrite (settled.safe steps.pair) ?_
  intro header isNew others
  have settled' :
      Settled merged items2 [c] held (fun x => .clean (header x)) := by
    refine after _ ?_
    intro x value occurs
    rw [List.mem_singleton.mp occurs]
    rcases eq_or_ne x c with rfl | differs
    · exact Or.inl ⟨rfl, isNew⟩
    · exact Or.inr ⟨differs, others x differs⟩
  exact settled'.safe partition header fun x => List.mem_singleton.mpr rfl

/-- The events of one round. -/
def events
    (_ : MergeSteps layout i b state first second u items1 items2) :
    List Event :=
  removeEvents layout state i b ++
    (removeEvents layout first i u ++
      (mergeEvents second b u ++
        insertEvents (second.merge b u).2 (i + 1) (min b u)))

/-- The merge loop issues the events of its rounds one after the other. -/
theorem mergeLoopEvents_succ
    (steps : MergeSteps layout i b state first second u items1 items2)
    (buddyFree : (state.header (state.getbuddy layout b)).free = true)
    (more : Nat) :
    mergeLoopEvents layout (more + 1) i b state =
      steps.events ++
        mergeLoopEvents layout more (i + 1) (min b u)
          ((second.merge b u).2.insert (i + 1) (min b u)) := by
  obtain ⟨-, -, isLow, -, -⟩ := steps.merged
  rw [mergeLoopEvents, if_pos buddyFree, steps.removed]
  simp only [steps.isBuddy, steps.removed', steps.isBuddy2, isLow, events,
    List.append_assoc]

/-- A round is safe at every point and leaves the lines settled. -/
theorem round_safe
    (steps : MergeSteps layout i b state first second u items1 items2)
    (partition : Partition layout state items hand)
    (settled : Settled state items hand held lines)
    (holds : ∀ c, c ∈ held → c ∈ state.live) :
    Lines.Throughout (Safe layout held) lines steps.events ∧
      ∃ items',
        Partition layout ((second.merge b u).2.insert (i + 1) (min b u))
            items' [] ∧
          Settled ((second.merge b u).2.insert (i + 1) (min b u)) items' []
            held (lines.steps steps.events) := by
  have holds1 : ∀ c, c ∈ held → c ∈ first.live := by
    rw [steps.live1]
    exact holds
  have holds2 : ∀ c, c ∈ held → c ∈ second.live := by
    rw [steps.live2]
    exact holds1
  obtain ⟨merged, mergedSize, -, live3, -⟩ := steps.merged
  have holds3 : ∀ c, c ∈ held → c ∈ (second.merge b u).2.live := by
    rw [live3]
    exact holds2
  obtain ⟨safe0, settled0⟩ :=
    settled.throughout partition
      (removeEvents_harmless (partition.used holds) i b)
  have settled1 := settled0.congr partition steps.held
    fun c => (steps.same1 c).2
  obtain ⟨safe1, settled1'⟩ :=
    settled1.throughout steps.held
      (removeEvents_harmless (steps.held.used holds1) i u)
  have settled2 := settled1'.congr steps.held steps.pair
    fun c => (steps.same2 c).2
  obtain ⟨safe2, settled3⟩ := steps.merge_safe settled2 holds2
  obtain ⟨safe3, settled3'⟩ :=
    settled3.throughout merged
      (insertEvents_harmless (merged.used holds3) (i + 1) (min b u))
  have inserted := merged.insert_held mergedSize
  have settled4 :=
    settled3'.congr merged inserted fun c =>
      (sameBlocks_next (second.merge b u).2.header (min b u) _ c).2
  refine ⟨safe0.append (safe1.append (safe2.append safe3)), _, inserted, ?_⟩
  simp only [events, Lines.steps_append]
  exact settled4

end MergeSteps

/-- The merge loop is safe at every point and leaves the lines settled. -/
theorem MergeChain.safe
    {more i b : Nat}
    (chain : MergeChain layout more i b state state')
    (partition : Partition layout state items hand)
    (settled : Settled state items hand held lines)
    (holds : ∀ c, c ∈ held → c ∈ state.live) :
    Lines.Throughout (Safe layout held) lines
        (mergeLoopEvents layout more i b state) ∧
      ∃ items' hand',
        Partition layout state' items' hand' ∧
          Settled state' items' hand' held
            (lines.steps (mergeLoopEvents layout more i b state)) := by
  induction chain generalizing items hand lines with
  | stop stopped =>
      rename_i more i b state
      have none : mergeLoopEvents layout more i b state = [] := by
        cases more with
        | zero => rfl
        | succ more =>
            rcases stopped with impossible | notFree
            · cases impossible
            · rw [mergeLoopEvents, if_neg (by rw [notFree]; decide)]
      rw [none]
      exact ⟨settled.safe partition, items, hand, partition, settled⟩
  | round buddyFree steps _ inductionHypothesis =>
      obtain ⟨safe, items1, partition1, settled1⟩ :=
        steps.round_safe partition settled holds
      obtain ⟨later, items', hand', partition', settled'⟩ :=
        inductionHypothesis partition1 settled1 (by
          rw [steps.sameLive]
          exact holds)
      rw [steps.mergeLoopEvents_succ buddyFree]
      refine ⟨safe.append later, items', hand', partition', ?_⟩
      rw [Lines.steps_append]
      exact settled'

/-- Fewer held blocks are easier to keep. -/
theorem Settled.mono
    (settled : Settled state items hand held lines)
    {held' : List Nat}
    (fewer : ∀ b, b ∈ held' → b ∈ held) :
    Settled state items hand held' lines :=
  ⟨settled.sizes, fun b isHeld => settled.flags b (fewer b isHeld)⟩

/-- A clean `free` is safe at every point and leaves the lines settled. -/
theorem Partition.free_safe
    (partition : Partition layout state items [])
    (settled : Settled state items [] state.live lines)
    {b : Nat}
    (isLive : b ∈ state.live)
    (clean : CleanFree layout state b) :
    ∃ state' items',
      Buddy.free layout (b + sizeofBlockHeader) state = some state' ∧
        Lines.Throughout (Safe layout (state.live.erase b)) lines
          (freeEvents layout (b + sizeofBlockHeader) state) ∧
        state'.live = state.live.erase b ∧
        Partition layout state' items' [] ∧
        Settled state' items' [] (state.live.erase b)
          (lines.steps
            (freeEvents layout (b + sizeofBlockHeader) state)) := by
  obtain ⟨i, state', -, size, freed, steps⟩ :=
    partition.free_steps isLive clean
  have taken := partition.take_live isLive
  have sameSize := (Partition.setFree_fields state b true).1
  have stored :
      (state.markFree b).header b = { state.header b with free := true } :=
    setHeader_same _ _ _
  have eventShape :
      freeEvents layout (b + sizeofBlockHeader) state =
        [.store b ((state.markFree b).header b)] ++
          if ((state.markFree b).header
                ((state.markFree b).getbuddy layout b)).free ∧
              ((state.markFree b).header b).blockSize =
                ((state.markFree b).header
                  ((state.markFree b).getbuddy layout b)).blockSize then
            mergeLoopEvents layout (layout.levels - 1 - i) i b
              (state.markFree b)
          else
            [.flush b, .fence] ++ insertEvents (state.markFree b) i b := by
    unfold freeEvents
    simp only [Nat.add_sub_cancel]
    rw [levelOf_eq size, stored]
    rfl
  have settled0 :
      Settled (state.markFree b) items [b] (state.live.erase b) lines :=
    (settled.mono fun c member => List.mem_of_mem_erase member).congr
      partition taken sameSize
  have sameLive : (state.markFree b).live = state.live.erase b := rfl
  generalize state.markFree b = marked at *
  have holds : ∀ c, c ∈ state.live.erase b → c ∈ marked.live := by
    rw [sameLive]
    exact fun _ member => member
  have used := taken.used holds
  have storing :
      ∀ event,
        event ∈ [LineEvent.store b (marked.header b)] →
        Harmless marked (state.live.erase b) event := by
    intro event member
    rw [List.mem_singleton.mp member]
    exact ⟨rfl, used b⟩
  obtain ⟨safe1, settled1⟩ := settled0.throughout taken storing
  rw [eventShape, Lines.steps_append]
  cases steps with
  | merge levels buddyFree sameSize' chain =>
      rw [if_pos ⟨buddyFree, sameSize'⟩, levels]
      obtain ⟨safe2, items1, hand1, partition1, settled2⟩ :=
        chain.safe taken settled1 holds
      obtain ⟨items', partition', live⟩ := chain.partition_of_free buddyFree
      exact ⟨state', items', freed, safe1.append safe2, live.trans sameLive,
        partition', settled2.congr partition1 partition' fun _ => rfl⟩
  | insert unmerged =>
      rw [if_neg unmerged]
      have inserting :
          ∀ event,
            event ∈ [.flush b, .fence] ++ insertEvents marked i b →
            Harmless marked (state.live.erase b) event := by
        intro event member
        rcases List.mem_append.mp member with writingBack | linking
        · rcases List.mem_cons.mp writingBack with rfl | fencing
          · exact trivial
          · rw [List.mem_singleton.mp fencing]
            exact trivial
        · exact insertEvents_harmless used i b event linking
      obtain ⟨safe2, settled2⟩ := settled1.throughout taken inserting
      have inserted := taken.insert_held size
      exact ⟨_, _, freed, safe1.append safe2, sameLive, inserted,
        settled2.congr taken inserted fun c =>
          (sameBlocks_next marked.header b _ c).2⟩

/-- An `alloc` that splits no block stores one flag. -/
theorem allocEvents_unsplit
    {length : Int}
    {i : Nat}
    (found : findLevel layout state length 0 layout.levels = some i)
    (whole : splits layout state length i = false) :
    allocEvents layout length state =
      [.store (state.freeList i)
        { state.header (state.freeList i) with free := false }] := by
  have noEvents : splitLoopEvents layout length i state = [] := by
    unfold splitLoopEvents
    rw [whole]
    rfl
  have noSplit : splitLoop layout length i state = some (i, state) := by
    unfold splitLoop
    rw [whole]
    rfl
  unfold allocEvents
  rw [found]
  simp only [noEvents, noSplit, List.nil_append]
  unfold removeEvents remove
  rw [if_pos rfl, if_pos rfl]
  rfl

/-- An `alloc` that splits no block is safe until it returns. -/
theorem Partition.alloc_safe
    (partition : Partition layout state items [])
    (settled : Settled state items [] held lines)
    {length : Int}
    {i : Nat}
    (found : findLevel layout state length 0 layout.levels = some i)
    (whole : Buddy.splits layout state length i = false) :
    Lines.Throughout (Safe layout held) lines
      (allocEvents layout length state) := by
  rw [allocEvents_unsplit found whole]
  refine (settled.throughout partition ?_).1
  intro event member
  rw [List.mem_singleton.mp member]
  exact ⟨rfl, fun _ => rfl⟩

namespace Arena

/-- What holds between the events of a quiet run. -/
def Inv (layout : BuddyLayout) (arena : Arena) : Prop :=
  match arena.running with
  | none =>
      arena.held = arena.buddy.live ∧
        ∃ items,
          Partition layout arena.buddy items [] ∧
            Settled arena.buddy items [] arena.held arena.lines
  | some running =>
      Lines.Throughout (Safe layout arena.held) arena.lines
          running.events ∧
        ((∃ length, running.call = .alloc length) ∨
          (running.final.live = arena.held ∧
            ∃ items,
              Partition layout running.final items [] ∧
                Settled running.final items [] arena.held
                  (arena.lines.steps running.events)))

/-- A well-formed arena whose headers are written back is settled. -/
theorem Initial.inv
    {arena : Arena}
    (initial : Initial layout arena) :
    Inv layout arena := by
  obtain ⟨⟨items, partition⟩, written, idle, held⟩ := initial
  unfold Inv
  rw [idle]
  refine ⟨held, items, partition, ?_, ?_⟩
  · intro b _ value possible
    rw [written b, Line.values_clean] at possible
    rw [List.mem_singleton.mp possible]
    rfl
  · intro b isHeld value possible
    rw [written b, Line.values_clean] at possible
    rw [List.mem_singleton.mp possible]
    rw [held] at isHeld
    exact (partition.allocated b isHeld).1

/-- A quiet step keeps the invariant. -/
theorem QuietStep.inv
    {before after : Arena}
    {action : Action}
    (step : QuietStep layout before action after)
    (inv : Inv layout before) :
    Inv layout after := by
  obtain ⟨step, quiet⟩ := step
  unfold Inv at inv ⊢
  cases step with
  | alloc idle returns =>
      rw [idle] at inv
      obtain ⟨-, items, partition, settled⟩ := inv
      obtain ⟨i, found⟩ :
          ∃ i,
            findLevel layout before.buddy _ 0 layout.levels = some i := by
        unfold Buddy.alloc at returns
        obtain ⟨i, found, -⟩ := Option.bind_eq_some_iff.mp returns
        exact ⟨i, found⟩
      exact ⟨partition.alloc_safe settled found (quiet i found),
        Or.inl ⟨_, rfl⟩⟩
  | free idle isLive returns =>
      rw [idle] at inv
      obtain ⟨held, items, partition, settled⟩ := inv
      rw [held] at settled
      obtain ⟨state', items', freed, safe, live, partition', settled'⟩ :=
        partition.free_safe settled isLive quiet
      obtain rfl := Option.some.inj (freed.symm.trans returns)
      rw [held]
      exact ⟨safe, Or.inr ⟨live, items', partition', settled'⟩⟩
  | event issues =>
      rw [issues] at inv
      exact ⟨inv.1.2, inv.2⟩
  | finish issued =>
      rw [issued] at inv
      obtain ⟨-, isAlloc | ⟨live, items, partition, settled⟩⟩ := inv
      · obtain ⟨length, isAlloc⟩ := isAlloc
        simp only at isAlloc
        rw [isAlloc] at issued
        exact absurd issued (quiet length [] _)
      · refine ⟨rfl, items, partition, ?_⟩
        rw [live]
        exact settled

/-- Every crash in a quiet run leaves sound headers. -/
theorem Inv.safe
    {arena : Arena}
    (inv : Inv layout arena) :
    Safe layout arena.held arena.lines := by
  unfold Inv at inv
  split at inv
  · obtain ⟨-, items, partition, settled⟩ := inv
    exact settled.safe partition
  · exact inv.1.head

/--
In every quiet run from a well-formed arena, every crash at any point inside or
between calls leaves headers that recovery scans exactly, without putting a
block that is held in a free list.
-/
theorem recovers_of_quiet
    {arena : Arena}
    (reached : Reaches (Initial layout) (QuietStep layout) arena)
    {header : Nat → BlockHeader}
    (crashed : arena.lines.IsImage header) :
    Recovers layout header arena.held := by
  have inv : Inv layout arena :=
    reached.invariant (fun _ initial => initial.inv)
      (fun _ _ _ inv step => step.inv inv)
  exact (inv.safe header crashed).recovers

/-- An arena between calls whose headers have all been written back. -/
def writtenBack (buddy : Buddy) : Arena where
  buddy := buddy
  lines := fun b => .clean (buddy.header b)
  running := none
  held := buddy.live

/-- A partitioned arena that is written back is an initial one. -/
theorem writtenBack_initial
    (partition : Partition layout state items []) :
    Initial layout (writtenBack state) :=
  ⟨⟨items, partition⟩, fun _ => rfl, rfl, rfl⟩

/-- Written-back lines keep their values when another value is stored. -/
theorem writtenBack_stored
    (state : Buddy)
    (b : Nat)
    (value : BlockHeader) :
    ((writtenBack state).lines.step (.store b value)).IsImage
      state.header := by
  intro other
  rcases eq_or_ne other b with rfl | differs
  · rw [Lines.step_store_same, Line.values_store]
    exact List.mem_append_left _ List.mem_cons_self
  · rw [Lines.step_store_other _ _ differs]
    exact List.mem_cons_self

/-- The whole example arena is allocated and a `free` of it is interrupted. -/
theorem recovers_of_quiet_free :
    ∃ arena header,
      Reaches (Initial exampleLayout) (QuietStep exampleLayout) arena ∧
        (∃ events final,
          arena.running = some ⟨.free 4096, events, final⟩) ∧
        arena.lines.IsImage header ∧
        Recovers exampleLayout header arena.held := by
  have executed :
      (alloc exampleLayout (2 ^ 29) exampleArena).map
        (fun result =>
          (result.2.live,
            (result.2.header (buddyAt exampleLayout 4096
              (result.2.levelOf exampleLayout 4096))).free,
            (free exampleLayout 4112 result.2).isSome)) =
        some ([4096], false, true) := by
    decide +kernel
  obtain ⟨⟨a, state⟩, allocated, facts⟩ := Option.map_eq_some_iff.mp executed
  simp only [Prod.mk.injEq] at facts
  obtain ⟨live, notFree, returned⟩ := facts
  obtain ⟨final, returns⟩ := Option.isSome_iff_exists.mp returned
  obtain ⟨-, items, -, partition, -⟩ :=
    (create_partition exampleLayout _).alloc allocated
  have isLive : 4096 ∈ (writtenBack state).buddy.live := by
    change 4096 ∈ state.live
    rw [live]
    exact List.mem_cons_self
  have clean : CleanFree exampleLayout state 4096 := by
    unfold CleanFree
    rw [notFree]
    intro impossible
    cases impossible
  have started :
      Reaches (Initial exampleLayout) (QuietStep exampleLayout) _ :=
    (Reaches.start (writtenBack_initial partition)).next
      ⟨Step.free rfl isLive returns, clean⟩
  have reached :
      Reaches (Initial exampleLayout) (QuietStep exampleLayout) _ :=
    started.next ⟨Step.event rfl, trivial⟩
  refine ⟨_, state.header, reached, ?_, ?_, ?_⟩
  · exact ⟨_, _, rfl⟩
  · exact writtenBack_stored state _ _
  · exact recovers_of_quiet reached (writtenBack_stored state _ _)

/-- After an `alloc` that splits no block a crash can leave the old headers. -/
theorem alloc_returned
    (partition : Partition layout state items [])
    {length : Int}
    {i a : Nat}
    (found : findLevel layout state length 0 layout.levels = some i)
    (whole : splits layout state length i = false)
    (returns : alloc layout length state = some (a, state')) :
    ∃ arena,
      Reaches (Initial layout) (Step layout) arena ∧
        arena.running = none ∧
        arena.held = state'.live ∧
        arena.lines.IsImage state.header := by
  have started :=
    (Reaches.start (writtenBack_initial partition)).next
      (Step.alloc rfl returns)
  have running := allocEvents_unsplit found whole
  change allocEvents layout length (writtenBack state).buddy = _ at running
  rw [running] at started
  have finished := (started.next (Step.event rfl)).next (Step.finish rfl)
  exact ⟨_, finished, rfl, rfl, writtenBack_stored state _ _⟩

/--
The whole arena is allocated and its flag is still in the cache when the
machine crashes: the scan puts the allocated block in a free list.
-/
theorem allocated_block_recovered_free :
    ∃ arena header,
      Reaches (Initial exampleLayout) (Step exampleLayout) arena ∧
        arena.running = none ∧
        arena.held = [4096] ∧
        arena.lines.IsImage header ∧
        ¬ Recovers exampleLayout header arena.held := by
  have executed :
      (alloc exampleLayout (2 ^ 29) exampleArena).map
          (fun result => result.2.live) =
        some [4096] := by
    decide +kernel
  have found :
      findLevel exampleLayout exampleArena (2 ^ 29) 0 14 = some 13 := by
    decide +kernel
  have whole : splits exampleLayout exampleArena (2 ^ 29) 13 = false := by
    decide +kernel
  have scanned :
      (recover exampleLayout exampleArena.header).map
        (fun result => result.2.freeList 13) =
        some 4096 := by
    decide +kernel
  obtain ⟨⟨a, final⟩, returns, live⟩ := Option.map_eq_some_iff.mp executed
  obtain ⟨arena, reached, idle, held, image⟩ :=
    alloc_returned (create_partition exampleLayout _) found whole returns
  rw [live] at held
  refine ⟨arena, _, reached, idle, held, image, ?_⟩
  rintro ⟨visited, recovered, result, -, items, lists, -, apart⟩
  rw [exampleArena] at scanned
  rw [result] at scanned
  have head := Option.some.inj scanned
  have list := lists 13
  simp only at head
  rw [head] at list
  cases shape : items 13 with
  | nil =>
      rw [shape] at list
      cases list
  | cons first rest =>
      rw [shape] at list
      refine apart 4096 13 ?_ ?_
      · rw [held]
        exact List.mem_cons_self
      · rw [shape, ← list.1]
        exact List.mem_cons_self

end Arena

end Buddy

end Bxalloc
