import Bxalloc.FirstRun
import Bxalloc.RegionRace

namespace Bxalloc

/-!
# Superblocks and their descriptors

Where superblocks come from: the warm-up of the first run, the expansions that
`small_sb_alloc` makes under races, and the retirement of whole superblocks all
go through `organize_sb_list`, which pushes descriptor indices one after the
other; `small_sb_alloc` turns a popped index back into a superblock.  The queue
may return any index that was pushed.  Later runs may map both files elsewhere
as long as the heap start stays aligned to `SBSIZE`.

The number of descriptors is computed from the size of the heap; the number of
superblocks is limited by the size of the file only.
-/

open Lib (Reaches)

namespace SbSupply

/-- The index of the descriptor `i` places behind that of `start`. -/
def indexFrom (sbStart descStart start i : Nat) : Nat :=
  descIndex descStart
    ((descLookup sbStart descStart start + i * descSize) % 2 ^ 64)

/-- The indices that `organize_sb_list(start, count)` pushes, in order. -/
def organizeSbList (sbStart descStart start count : Nat) : List Nat :=
  indexFrom sbStart descStart start 0 ::
    (List.range' 1 (count - 1)).map (indexFrom sbStart descStart start)

/-- What a thread does between the exchange of `curr_addr` and its return. -/
inductive Phase where
  | ready
  /-- `organize_sb_list` has indices to push; then the call returns. -/
  | organizing (todo : List Nat) (result : Option Nat)

/-- The two regions of the heap, the threads and the superblocks. -/
structure State where
  /-- The mapping of the superblock file in this run. -/
  region : RegionRace.MappedRegion
  race : RegionRace.State
  /-- `regions_address[SB_IDX]`. -/
  sbStart : Nat
  /-- `regions_address[DESC_IDX]`. -/
  descStart : Nat
  phase : Nat → Phase
  /-- All indices pushed so far. -/
  pushed : List Nat
  /-- The superblocks that `small_sb_alloc` returned in this run. -/
  returned : List Nat

/-- The number of superblocks in an expansion. -/
def perExpansion : Nat :=
  sbRegionExpandSize / sbSize

theorem perExpansion_mul : perExpansion * sbSize = sbRegionExpandSize := by
  decide

theorem perExpansion_large : 2 ≤ perExpansion := by
  decide

/-- The exchange of a thread: a winner goes on to organise its range. -/
def afterExchange
    (state : State)
    (thread : Nat)
    (race : RegionRace.State) : State :=
  if race.granted = state.race.granted then
    { state with race := race }
  else
    let res := race.memptr thread
    { state with
      race := race
      phase :=
        Function.update state.phase thread
          (.organizing
            (organizeSbList state.sbStart state.descStart (res + sbSize)
              (perExpansion - 1))
            (some res)) }

/-- What happens. -/
inductive Action where
  | load (thread : Nat)
  | exchange (thread : Nat)
  | push (thread : Nat)
  | finish (thread : Nat)
  | pop (thread index : Nat)
  | retire (thread sb : Nat)
  | restart

/-- One step of some thread, or a restart of the program. -/
inductive Step (size : Nat) : State → Action → State → Prop where
  /-- `small_sb_alloc` finds the queue empty and computes an expansion. -/
  | load
      {state : State}
      {thread : Nat}
      {race : RegionRace.State}
      (ready : state.phase thread = .ready)
      (stepped :
        RegionRace.step state.region state.race
          (.call thread .smallSbAlloc 12 sbRegionExpandSize) = some race) :
      Step size state (.load thread) { state with race := race }
  | exchange
      {state : State}
      {thread : Nat}
      {race : RegionRace.State}
      (stepped :
        RegionRace.step state.region state.race (.exchange thread) =
          some race) :
      Step size state (.exchange thread) (afterExchange state thread race)
  | push
      {state : State}
      {thread index : Nat}
      {rest : List Nat}
      {result : Option Nat}
      (more : state.phase thread = .organizing (index :: rest) result) :
      Step size state (.push thread)
        { state with
          phase :=
            Function.update state.phase thread (.organizing rest result)
          pushed := index :: state.pushed }
  | finish
      {state : State}
      {thread : Nat}
      {result : Option Nat}
      (done : state.phase thread = .organizing [] result) :
      Step size state (.finish thread)
        { state with
          phase := Function.update state.phase thread .ready
          returned := result.toList ++ state.returned }
  /-- `small_sb_alloc` gets an index from the queue. -/
  | pop
      {state : State}
      {thread index : Nat}
      (ready : state.phase thread = .ready)
      (idle : state.race.pc thread = .idle)
      (queued : index ∈ state.pushed) :
      Step size state (.pop thread index)
        { state with
          returned :=
            sbLookup state.sbStart state.descStart
                ((state.descStart + index * descSize) % 2 ^ 64) ::
              state.returned }
  /-- `large_sb_retire` of a whole superblock. -/
  | retire
      {state : State}
      {thread sb : Nat}
      (ready : state.phase thread = .ready)
      (idle : state.race.pc thread = .idle)
      (inUse : sb ∈ state.returned) :
      Step size state (.retire thread sb)
        { state with
          phase :=
            Function.update state.phase thread
              (.organizing
                (organizeSbList state.sbStart state.descStart sb
                  (sbSize / sbSize))
                none) }
  /-- Both files are mapped again; the heap start is still aligned. -/
  | restart
      {state : State}
      {region : RegionRace.MappedRegion}
      {race : RegionRace.State}
      {descStart : Nat}
      (sameFile : region.fileSize = state.region.fileSize)
      (aligned :
        (region.base + (state.sbStart - state.region.base)) % sbSize = 0)
      (descAligned : descStart % descSize = 0)
      (descMapped : descStart + FirstRun.numSb size * descSize ≤ 2 ^ 47)
      (sameWord : race.currAddrWord = state.race.currAddrWord)
      (idle : ∀ thread, race.pc thread = .idle) :
      Step size state .restart
        { state with
          region := region
          race := race
          sbStart := region.base + (state.sbStart - state.region.base)
          descStart := descStart
          phase := fun _ => .ready
          returned := [] }

/-- The first run, in the warm-up of `BaseMeta`. -/
structure Initial (size : Nat) (state : State) : Prop where
  regions :
    ∃ heap,
      HeapRegions.Created state.region.base heap.desc.base
          (FirstRun.numSb size) heap ∧
        state.region.fileSize = heap.sb.fileSize ∧
        state.sbStart = heap.sbStart ∧
        state.descStart = heap.descStart ∧
        state.race.currAddrWord = heap.sb.currAddrWord
  idle : ∀ thread, state.race.pc thread = .idle
  warmup :
    ∃ thread,
      state.phase thread =
          .organizing
            (organizeSbList state.sbStart state.descStart
              (state.sbStart + sbSize) (perExpansion - 1))
            none ∧
        ∀ other, other ≠ thread → state.phase other = .ready
  nothing : state.pushed = [] ∧ state.returned = []

/-- The index has a descriptor whose offset can be encoded. -/
structure Described (size : Nat) (state : State) (k : Nat) : Prop where
  positive : 1 ≤ k
  counted : k < FirstRun.numSb size
  /-- The descriptor lies in the space allocated in the descriptor region. -/
  inside :
    state.descStart ≤ state.descStart + k * descSize ∧
      state.descStart + k * descSize + descSize ≤
        state.descStart + FirstRun.numSb size * descSize
  /-- The offset is not null and fits in `AtomicCrossPtrCnt`. -/
  encodable : 0 < k * descSize ∧ k * descSize < 2 ^ maxDescOffsetBits

/-- An index of a superblock other than the first that has a descriptor. -/
def ValidIndex (size k : Nat) : Prop :=
  1 ≤ k ∧ k < FirstRun.numSb size

/-- The superblock of a valid index. -/
def ValidSb (size sbStart sb : Nat) : Prop :=
  ∃ k, ValidIndex size k ∧ sb = sbStart + k * sbSize

/-- Where the two regions are and how far the superblocks reach. -/
structure Placed (size : Nat) (state : State) : Prop where
  fileSize :
    state.region.fileSize =
      Region.fileSizeFor (FirstRun.numSb size * sbSize)
  behind : state.region.base + pageSize ≤ state.sbStart
  aligned : state.sbStart % sbSize = 0
  descAligned : state.descStart % descSize = 0
  descMapped : state.descStart + FirstRun.numSb size * descSize ≤ 2 ^ 47
  word :
    ∃ expansions,
      1 ≤ expansions ∧
        state.race.currAddrWord =
          toPptrOff (state.sbStart + expansions * sbRegionExpandSize)
            state.region.base ∧
        state.sbStart + expansions * sbRegionExpandSize ≤
          state.region.base + state.region.fileSize

/-- Threads try to move `curr_addr` behind one more expansion. -/
def Loaded (state : State) : Prop :=
  ∀ thread kind old next range,
    state.race.pc thread = .exchange kind old next range →
    ∃ expansions,
      1 ≤ expansions ∧
        old = state.sbStart + expansions * sbRegionExpandSize ∧
        range.res = old ∧
        next = state.sbStart + (expansions + 1) * sbRegionExpandSize ∧
        next ≤ state.region.base + state.region.fileSize

/-- What holds between steps. -/
structure Inv (size : Nat) (state : State) : Prop where
  placed : Placed size state
  threads : Loaded state
  phases :
    ∀ thread todo result,
      state.phase thread = .organizing todo result →
      (∀ k, k ∈ todo → ValidIndex size k) ∧
        ∀ sb, result = some sb → ValidSb size state.sbStart sb
  pushed : ∀ k, k ∈ state.pushed → ValidIndex size k
  returned : ∀ sb, sb ∈ state.returned → ValidSb size state.sbStart sb

variable {size : Nat} {state state' : State}

/-- Expansions in the file stay below the number of descriptors. -/
theorem expansions_le
    {base sbStart count expansions : Nat}
    (behind : base + pageSize ≤ sbStart)
    (inside :
      sbStart + expansions * sbRegionExpandSize ≤
        base + Region.fileSizeFor (count * sbSize)) :
    expansions * perExpansion ≤ count := by
  have file : Region.fileSizeFor (count * sbSize) = count * sbSize + 8192 := by
    unfold Region.fileSizeFor
    simp only [sbSize, pageSize]
    omega
  rw [file, ← perExpansion_mul, ← Nat.mul_assoc] at inside
  have slack :
      ∀ used bytes,
        sbStart + used ≤ base + (bytes + 8192) → used < bytes + sbSize := by
    intro used bytes within
    simp only [pageSize, sbSize] at *
    omega
  have less : expansions * perExpansion * sbSize < (count + 1) * sbSize := by
    rw [Nat.succ_mul]
    exact slack _ _ inside
  exact Nat.le_of_lt_succ (Nat.lt_of_mul_lt_mul_right less)

/-- The first index comes from `start`, the others follow in a loop. -/
theorem organizeSbList_eq_map
    {sbStart descStart start count : Nat}
    (some : 1 ≤ count) :
    organizeSbList sbStart descStart start count =
      (List.range count).map (indexFrom sbStart descStart start) := by
  obtain ⟨rest, rfl⟩ := Nat.exists_eq_add_of_le' some
  rw [List.range_eq_range', List.range'_succ, List.map_cons]
  rfl

/-- Descriptors and superblocks are in the same order. -/
theorem indexFrom_eq
    {sbStart descStart k i : Nat}
    (aligned : sbStart % sbSize = 0)
    (descAligned : descStart % descSize = 0)
    (sbLow : sbStart + k * sbSize < 2 ^ 64)
    (descLow : descStart + (k + i) * descSize < 2 ^ 64) :
    indexFrom sbStart descStart (sbStart + k * sbSize) i = k + i := by
  have index : sbIndex sbStart (sbStart + k * sbSize) = k :=
    @sbIndex_of_aligned sbStart k 0 aligned (by decide) (by omega)
  have own : k * descSize ≤ (k + i) * descSize :=
    Nat.mul_le_mul_right _ (by omega)
  have first :
      (descStart + k * descSize) % 2 ^ 64 = descStart + k * descSize :=
    Nat.mod_eq_of_lt (by omega)
  unfold indexFrom descLookup
  rw [index, first, Nat.add_assoc, ← Nat.add_mul, Nat.mod_eq_of_lt descLow]
  exact descIndex_of_aligned descAligned descLow

/-- The superblock of an index that was popped. -/
theorem sbLookup_eq
    {sbStart descStart k : Nat}
    (descAligned : descStart % descSize = 0)
    (sbLow : sbStart + k * sbSize < 2 ^ 64)
    (descLow : descStart + k * descSize < 2 ^ 64) :
    sbLookup sbStart descStart ((descStart + k * descSize) % 2 ^ 64) =
      sbStart + k * sbSize := by
  unfold sbLookup
  rw [Nat.mod_eq_of_lt descLow, descIndex_of_aligned descAligned descLow,
    Nat.shiftLeft_eq]
  exact Nat.mod_eq_of_lt sbLow

namespace Placed

/-- The heap start and every superblock with a descriptor are low addresses. -/
theorem low
    (placed : Placed size state)
    {k : Nat}
    (counted : k < FirstRun.numSb size) :
    state.sbStart + k * sbSize < 2 ^ 64 := by
  obtain ⟨expansions, -, -, inside⟩ := placed.word
  have userSpace := state.region.userSpace
  have file :
      FirstRun.numSb size * sbSize ≤ state.region.fileSize := by
    rw [placed.fileSize]
    unfold Region.fileSizeFor
    simp only [sbSize, pageSize]
    omega
  have smaller : k * sbSize ≤ FirstRun.numSb size * sbSize :=
    Nat.mul_le_mul_right _ (Nat.le_of_lt counted)
  omega

/-- What `organize_sb_list` pushes for superblocks that have descriptors. -/
theorem organize
    (placed : Placed size state)
    {k count : Nat}
    (positive : 1 ≤ k)
    (some : 1 ≤ count)
    (counted : k + count ≤ FirstRun.numSb size) :
    ∀ index,
      index ∈
        organizeSbList state.sbStart state.descStart
          (state.sbStart + k * sbSize) count →
      ValidIndex size index := by
  have sbLow := @low size state placed k (by omega)
  have descBytes :
      (k + count) * descSize ≤ FirstRun.numSb size * descSize :=
    Nat.mul_le_mul_right _ counted
  have descLow := placed.descMapped
  rw [organizeSbList_eq_map some]
  intro index member
  obtain ⟨i, inRange, rfl⟩ := List.mem_map.mp member
  have early := List.mem_range.mp inRange
  have smaller : (k + i) * descSize ≤ (k + count) * descSize :=
    Nat.mul_le_mul_right _ (by omega)
  rw [indexFrom_eq placed.aligned placed.descAligned sbLow (by omega)]
  unfold ValidIndex
  omega

/-- What an expansion adds: its superblocks all have descriptors. -/
theorem expansion
    (placed : Placed size state)
    {expansions : Nat}
    (earlier : 1 ≤ expansions)
    (inside :
      state.sbStart + (expansions + 1) * sbRegionExpandSize ≤
        state.region.base + state.region.fileSize) :
    ValidSb size state.sbStart
        (state.sbStart + expansions * sbRegionExpandSize) ∧
      ∀ index,
        index ∈
          organizeSbList state.sbStart state.descStart
            (state.sbStart + expansions * sbRegionExpandSize + sbSize)
            (perExpansion - 1) →
        ValidIndex size index := by
  rw [placed.fileSize] at inside
  have few := expansions_le placed.behind inside
  have large := perExpansion_large
  rw [Nat.succ_mul] at few
  have first :
      state.sbStart + expansions * sbRegionExpandSize =
        state.sbStart + expansions * perExpansion * sbSize := by
    rw [← perExpansion_mul, Nat.mul_assoc]
  have positive : 1 ≤ expansions * perExpansion :=
    Nat.mul_pos earlier (by omega)
  refine ⟨⟨expansions * perExpansion, ?_, first⟩, ?_⟩
  · unfold ValidIndex
    omega
  · have second :
        state.sbStart + expansions * sbRegionExpandSize + sbSize =
          state.sbStart + (expansions * perExpansion + 1) * sbSize := by
      rw [first, Nat.add_mul, Nat.one_mul, Nat.add_assoc]
    rw [second]
    exact placed.organize (by omega) (by omega) (by omega)

end Placed

namespace Placed

/-- `curr_addr` points behind the last expansion. -/
theorem currAddr
    (placed : Placed size state) :
    ∃ expansions,
      1 ≤ expansions ∧
        RegionRace.currAddr state.region state.race =
          state.sbStart + expansions * sbRegionExpandSize ∧
        state.sbStart + expansions * sbRegionExpandSize ≤
          state.region.base + state.region.fileSize := by
  obtain ⟨expansions, earlier, isWord, inside⟩ := placed.word
  have behind := placed.behind
  refine ⟨expansions, earlier, ?_, inside⟩
  rw [RegionRace.currAddr, isWord]
  exact RegionRace.decode_encode (by omega) inside

/-- The end of an expansion needs no alignment to pages. -/
theorem page_aligned
    (placed : Placed size state)
    (expansions : Nat) :
    (state.sbStart + expansions * sbRegionExpandSize) % 2 ^ 12 = 0 := by
  have aligned := placed.aligned
  simp only [sbRegionExpandSize, minSbRegionSize, sbSize, pageSize] at *
  omega

/-- What a thread in `small_sb_alloc` computes from `curr_addr`. -/
theorem load
    (placed : Placed size state)
    {expansions res next : Nat}
    (inside :
      state.sbStart + expansions * sbRegionExpandSize ≤
        state.region.base + state.region.fileSize)
    (isRes :
      res =
        Region.alignUp (state.sbStart + expansions * sbRegionExpandSize)
            (2 ^ 12) %
          2 ^ 64)
    (isNext : next = (res + sbRegionExpandSize) % 2 ^ 64) :
    res = state.sbStart + expansions * sbRegionExpandSize ∧
      next = state.sbStart + (expansions + 1) * sbRegionExpandSize := by
  have userSpace := state.region.userSpace
  have small : sbRegionExpandSize ≤ 2 ^ 47 := by
    decide
  rw [Region.alignUp_of_aligned (placed.page_aligned expansions),
    Nat.mod_eq_of_lt (by omega)] at isRes
  rw [isRes, Nat.mod_eq_of_lt (by omega)] at isNext
  refine ⟨isRes, ?_⟩
  rw [isNext, Nat.succ_mul, Nat.add_assoc]

end Placed

/-- The warm-up leaves one expansion behind the heap start. -/
theorem Initial.placed
    (initial : Initial size state) :
    Placed size state := by
  obtain ⟨heap, created, sameFile, isStart, isDesc, sameWord⟩ :=
    initial.regions
  obtain ⟨success, sbMapped, descMapped⟩ := created
  simp only [HeapRegions.create, bind, Option.bind_eq_some_iff, pure,
    Option.some.injEq, Prod.exists] at success
  obtain ⟨descRoot, desc, descGiven, sbRoot, sb, sbGiven, rfl⟩ := success
  change (Region.map desc.base (FirstRun.numSb size * descSize)
    ).nvmRegionAllocator cachelineSize (FirstRun.numSb size * descSize) =
      some (descRoot, desc) at descGiven
  have sbFile :
      sb.fileSize = Region.fileSizeFor (FirstRun.numSb size * sbSize) := by
    rw [(Region.nvmRegionAllocator_spec 16 sbGiven).2.2.2]
    rfl
  have descFile :
      desc.fileSize = Region.fileSizeFor (FirstRun.numSb size * descSize) := by
    rw [(Region.nvmRegionAllocator_spec 6 descGiven).2.2.2]
    rfl
  simp only [Region.storeHeapStart] at sbMapped descMapped sameFile sameWord
  rw [sbFile] at sbMapped sameFile
  rw [descFile] at descMapped
  obtain ⟨sbAligned, sbAhead, sbInside, sbBase, -, sbWord⟩ :=
    HeapRegions.fresh_expansion 16 sbMapped sbGiven
  obtain ⟨descAligned, descAhead, descInside, -, -, -⟩ :=
    HeapRegions.fresh_expansion 6 descMapped descGiven
  have behind : state.region.base + 4096 ≤ sbRoot := by
    rw [(Region.nvmRegionAllocator_spec 16 sbGiven).1,
      HeapRegions.map_currAddr sbMapped]
    exact (Region.alignUp_pow _ 16).2.1
  have sbStart : state.sbStart = sbRoot := by
    rw [isStart]
    change sbRoot - sb.base + sb.base = sbRoot
    omega
  have descStart : state.descStart = descRoot := by
    rw [isDesc]
    change descRoot - desc.base + desc.base = descRoot
    omega
  refine ⟨sameFile, ?_, ?_, ?_, ?_, 1, Nat.le_refl 1, ?_, ?_⟩
  · rw [sbStart]
    exact behind
  · rw [sbStart]
    exact sbAligned
  · rw [descStart]
    exact descAligned
  · rw [descStart]
    exact Nat.le_trans descInside descMapped.userSpace
  · rw [sameWord, sbWord, sbStart, Nat.one_mul, ← Nat.add_assoc,
      Nat.add_sub_cancel' (Nat.le_of_lt sbAhead)]
  · rw [sbStart, Nat.one_mul, sameFile]
    exact sbInside

/-- The first run starts within the invariant. -/
theorem Initial.inv
    (initial : Initial size state) :
    Inv size state := by
  have placed := initial.placed
  refine ⟨placed, ?_, ?_, ?_, ?_⟩
  · intro thread kind old next range shape
    rw [initial.idle thread] at shape
    cases shape
  · intro thread todo result shape
    obtain ⟨first, working, others⟩ := initial.warmup
    rcases eq_or_ne thread first with rfl | differs
    · obtain ⟨isTodo, isNone⟩ := Phase.organizing.inj (working.symm.trans shape)
      subst isTodo isNone
      obtain ⟨expansions, earlier, -, inside⟩ := placed.word
      rw [placed.fileSize] at inside
      have few := expansions_le placed.behind inside
      have large := perExpansion_large
      have atLeast : perExpansion ≤ expansions * perExpansion :=
        Nat.le_mul_of_pos_left _ earlier
      have second : state.sbStart + sbSize = state.sbStart + 1 * sbSize := by
        rw [Nat.one_mul]
      have counted : 1 + (perExpansion - 1) ≤ FirstRun.numSb size := by
        omega
      have organized :=
        placed.organize (Nat.le_refl 1) (Nat.le_sub_one_of_lt large) counted
      rw [← second] at organized
      refine ⟨organized, ?_⟩
      intro sb isSome
      cases isSome
    · rw [others thread differs] at shape
      cases shape
  · rw [initial.nothing.1]
    intro k member
    cases member
  · rw [initial.nothing.2]
    intro sb member
    cases member

/-- Threads that return or do nothing keep what the others loaded. -/
theorem Loaded.finish
    (loaded : Loaded state)
    (thread : Nat)
    (kind : RegionRace.Kind)
    (outcome : RegionRace.Outcome) :
    Loaded { state with race := state.race.finish thread kind outcome } := by
  intro other kind' old next range shape
  change Function.update state.race.pc thread .idle other = _ at shape
  rcases eq_or_ne other thread with rfl | differs
  · rw [Function.update_self] at shape
    cases shape
  · rw [Function.update_of_ne differs] at shape
    exact loaded other kind' old next range shape

/-- The range of a call that `small_sb_alloc` won. -/
def Won (state : State) (address : Nat) : Prop :=
  ∃ expansions,
    1 ≤ expansions ∧
      address = state.sbStart + expansions * sbRegionExpandSize ∧
      state.sbStart + (expansions + 1) * sbRegionExpandSize ≤
        state.region.base + state.region.fileSize

/-- The steps of a race for the next expansion. -/
theorem Inv.race
    (inv : Inv size state)
    {action : RegionRace.Action}
    {race : RegionRace.State}
    (expands :
      ∀ kind alignmentBits bytes,
        action = .call action.thread kind alignmentBits bytes →
        alignmentBits = 12 ∧ bytes = sbRegionExpandSize)
    (stepped :
      RegionRace.step state.region state.race action = some race) :
    Placed size { state with race := race } ∧
      Loaded { state with race := race } ∧
      (race.granted = state.race.granted ∨
        Won state (race.memptr action.thread)) := by
  have placed := inv.placed
  obtain ⟨expansions, earlier, isCurr, inside⟩ := placed.currAddr
  obtain ⟨kind, outcome, -, rfl⟩ |
    ⟨kind, alignmentBits, bytes, res, next, isCall, isRes, isNext, fits, rfl⟩ |
    ⟨kind, old, next, range, atExchange, isWord, rfl⟩ :=
      RegionRace.step_cases stepped
  · exact ⟨{ placed with }, inv.threads.finish _ kind outcome, .inl rfl⟩
  · obtain ⟨rfl, rfl⟩ := expands kind alignmentBits bytes isCall
    rw [isCurr] at isRes
    obtain ⟨atEnd, isNext⟩ := placed.load inside isRes isNext
    refine ⟨{ placed with }, ?_, .inl rfl⟩
    intro other kind' old' next' range' shape
    change Function.update state.race.pc action.thread _ other = _ at shape
    rcases eq_or_ne other action.thread with rfl | differs
    · rw [Function.update_self] at shape
      cases shape
      exact ⟨expansions, earlier, isCurr, atEnd.trans isCurr.symm, isNext, fits⟩
    · rw [Function.update_of_ne differs] at shape
      exact inv.threads other kind' old' next' range' shape
  · obtain ⟨before, positive, isOld, isRes, isNext, fits⟩ :=
      inv.threads _ _ _ _ _ atExchange
    refine ⟨{ placed with word := ?_ }, ?_, .inr ?_⟩
    · exact ⟨before + 1, by omega, by rw [isNext], isNext ▸ fits⟩
    · exact inv.threads.finish action.thread kind .succeeded
    · refine ⟨before, positive, ?_, isNext ▸ fits⟩
      change Function.update state.race.memptr action.thread range.res _ = _
      rw [Function.update_self, isRes, isOld]

/-- What the phases of all threads promise. -/
theorem phases_update
    {sbStart thread : Nat}
    {phase : Nat → Phase}
    {todo : List Nat}
    {result : Option Nat}
    (phases :
      ∀ other todo result,
        phase other = .organizing todo result →
        (∀ k, k ∈ todo → ValidIndex size k) ∧
          ∀ sb, result = some sb → ValidSb size sbStart sb)
    (todoValid : ∀ k, k ∈ todo → ValidIndex size k)
    (resultValid : ∀ sb, result = some sb → ValidSb size sbStart sb) :
    ∀ other todo' result',
      Function.update phase thread (.organizing todo result) other =
          .organizing todo' result' →
      (∀ k, k ∈ todo' → ValidIndex size k) ∧
        ∀ sb, result' = some sb → ValidSb size sbStart sb := by
  intro other todo' result' shape
  rcases eq_or_ne other thread with rfl | differs
  · rw [Function.update_self] at shape
    obtain ⟨isTodo, isResult⟩ := Phase.organizing.inj shape
    subst isTodo isResult
    exact ⟨todoValid, resultValid⟩
  · rw [Function.update_of_ne differs] at shape
    exact phases other todo' result' shape

/-- A won expansion brings superblocks that all have descriptors. -/
theorem Inv.afterExchange
    (inv : Inv size state)
    {thread : Nat}
    {race : RegionRace.State}
    (stepped :
      RegionRace.step state.region state.race (.exchange thread) =
        some race) :
    Inv size (SbSupply.afterExchange state thread race) := by
  obtain ⟨placed, loaded, result⟩ :=
    inv.race (fun _ _ _ isCall => by cases isCall) stepped
  unfold SbSupply.afterExchange
  split
  · exact ⟨placed, loaded, inv.phases, inv.pushed, inv.returned⟩
  · next changed =>
      obtain ⟨expansions, earlier, isRes, inside⟩ :=
        result.resolve_left changed
      change race.memptr thread = _ at isRes
      obtain ⟨ownSb, othersValid⟩ := inv.placed.expansion earlier inside
      rw [← isRes] at ownSb othersValid
      refine ⟨{ placed with }, loaded, ?_, inv.pushed, inv.returned⟩
      refine phases_update inv.phases othersValid ?_
      intro sb isSome
      cases isSome
      exact ownSb

/-- `organize_sb_list` pushes its next index. -/
theorem Inv.push
    (inv : Inv size state)
    {thread index : Nat}
    {rest : List Nat}
    {result : Option Nat}
    (more : state.phase thread = .organizing (index :: rest) result) :
    Inv size
      { state with
        phase := Function.update state.phase thread (.organizing rest result)
        pushed := index :: state.pushed } := by
  obtain ⟨todoValid, resultValid⟩ := inv.phases _ _ _ more
  refine ⟨{ inv.placed with }, inv.threads, ?_, ?_, inv.returned⟩
  · refine phases_update inv.phases ?_ resultValid
    intro k member
    exact todoValid k (List.mem_cons_of_mem _ member)
  · intro k member
    rcases List.mem_cons.mp member with rfl | member
    · exact todoValid k List.mem_cons_self
    · exact inv.pushed k member

/-- `small_sb_alloc` or `large_sb_retire` returns. -/
theorem Inv.finish
    (inv : Inv size state)
    {thread : Nat}
    {result : Option Nat}
    (done : state.phase thread = .organizing [] result) :
    Inv size
      { state with
        phase := Function.update state.phase thread .ready
        returned := result.toList ++ state.returned } := by
  obtain ⟨-, resultValid⟩ := inv.phases _ _ _ done
  refine ⟨{ inv.placed with }, inv.threads, ?_, inv.pushed, ?_⟩
  · intro other todo result' shape
    rcases eq_or_ne other thread with rfl | differs
    · change Function.update state.phase other .ready other = _ at shape
      rw [Function.update_self] at shape
      cases shape
    · change Function.update state.phase thread .ready other = _ at shape
      rw [Function.update_of_ne differs] at shape
      exact inv.phases other todo result' shape
  · intro sb member
    rcases List.mem_append.mp member with own | member
    · exact resultValid sb (Option.mem_toList.mp own)
    · exact inv.returned sb member

/-- A popped index is turned into the superblock of its descriptor. -/
theorem Placed.lookup
    (placed : Placed size state)
    {k : Nat}
    (valid : ValidIndex size k) :
    sbLookup state.sbStart state.descStart
        ((state.descStart + k * descSize) % 2 ^ 64) =
      state.sbStart + k * sbSize := by
  have descMapped := placed.descMapped
  have smaller : k * descSize ≤ FirstRun.numSb size * descSize :=
    Nat.mul_le_mul_right _ (Nat.le_of_lt valid.2)
  exact sbLookup_eq placed.descAligned (placed.low valid.2) (by omega)

/-- `small_sb_alloc` returns the superblock of a popped index. -/
theorem Inv.pop
    (inv : Inv size state)
    {index : Nat}
    (queued : index ∈ state.pushed) :
    Inv size
      { state with
        returned :=
          sbLookup state.sbStart state.descStart
              ((state.descStart + index * descSize) % 2 ^ 64) ::
            state.returned } := by
  have valid := inv.pushed index queued
  rw [inv.placed.lookup valid]
  refine ⟨{ inv.placed with }, inv.threads, inv.phases, inv.pushed, ?_⟩
  intro sb member
  rcases List.mem_cons.mp member with isSb | member
  · exact ⟨index, valid, isSb⟩
  · exact inv.returned sb member

/-- `large_sb_retire` of a whole superblock. -/
theorem Inv.retire
    (inv : Inv size state)
    {thread sb : Nat}
    (inUse : sb ∈ state.returned) :
    Inv size
      { state with
        phase :=
          Function.update state.phase thread
            (.organizing
              (organizeSbList state.sbStart state.descStart sb
                (sbSize / sbSize))
              none) } := by
  obtain ⟨k, ⟨positive, counted⟩, rfl⟩ := inv.returned sb inUse
  refine ⟨{ inv.placed with }, inv.threads, ?_, inv.pushed, inv.returned⟩
  refine phases_update inv.phases ?_ ?_
  · exact inv.placed.organize positive (Nat.le_refl 1) counted
  · intro sb isSome
    cases isSome

/-- Offsets from the base of the file survive a restart. -/
theorem Placed.restart
    (placed : Placed size state)
    {region : RegionRace.MappedRegion}
    {race : RegionRace.State}
    {descStart : Nat}
    (sameFile : region.fileSize = state.region.fileSize)
    (aligned :
      (region.base + (state.sbStart - state.region.base)) % sbSize = 0)
    (descAligned : descStart % descSize = 0)
    (descMapped : descStart + FirstRun.numSb size * descSize ≤ 2 ^ 47)
    (sameWord : race.currAddrWord = state.race.currAddrWord) :
    Placed size
      { state with
        region := region
        race := race
        sbStart := region.base + (state.sbStart - state.region.base)
        descStart := descStart
        phase := fun _ => .ready
        returned := [] } := by
  have behind := placed.behind
  have page : pageSize = 4096 := rfl
  have userSpace := state.region.userSpace
  obtain ⟨expansions, earlier, isWord, inside⟩ := placed.word
  refine ⟨sameFile.trans placed.fileSize, ?_, aligned, descAligned,
    descMapped, expansions, earlier, ?_, ?_⟩
  · change region.base + pageSize ≤ region.base + _
    omega
  · change race.currAddrWord =
      toPptrOff
        (region.base + (state.sbStart - state.region.base) +
          expansions * sbRegionExpandSize)
        region.base
    rw [sameWord, isWord]
    have offset :
        state.sbStart + expansions * sbRegionExpandSize =
          state.region.base +
            (state.sbStart - state.region.base +
              expansions * sbRegionExpandSize) := by
      omega
    rw [offset, Nat.add_assoc]
    exact HeapRegions.toPptrOff_offset (by omega) (by omega)
  · change region.base + _ + _ ≤ region.base + region.fileSize
    omega

/-- Every step keeps the invariant. -/
theorem Inv.step
    (inv : Inv size state)
    {action : Action}
    (stepped : Step size state action state') :
    Inv size state' := by
  cases stepped with
  | load ready stepped =>
      obtain ⟨placed, loaded, -⟩ :=
        inv.race
          (fun _ _ _ isCall => by cases isCall; exact ⟨rfl, rfl⟩)
          stepped
      exact ⟨placed, loaded, inv.phases, inv.pushed, inv.returned⟩
  | exchange stepped =>
      exact inv.afterExchange stepped
  | push more =>
      exact inv.push more
  | finish done =>
      exact inv.finish done
  | pop ready idle queued =>
      exact inv.pop queued
  | retire ready idle inUse =>
      exact inv.retire inUse
  | restart sameFile aligned descAligned descMapped sameWord idle =>
      refine ⟨inv.placed.restart sameFile aligned descAligned descMapped
        sameWord, ?_, ?_, inv.pushed, ?_⟩
      · intro thread kind old next range shape
        change RegionRace.State.pc _ thread = _ at shape
        rw [idle thread] at shape
        cases shape
      · intro thread todo result shape
        cases shape
      · intro sb member
        cases member

/-- The invariant holds in every reachable state. -/
theorem Inv.reaches
    (reached : Reaches (Initial size) (Step size) state) :
    Inv size state :=
  Reaches.invariant
    (fun _ initial => initial.inv)
    (fun _ _ _ inv stepped => inv.step stepped)
    reached

/-- A valid index names a descriptor whose offset can be encoded. -/
theorem described_of_valid
    (accepted : FirstRun.Accepted size)
    {k : Nat}
    (valid : ValidIndex size k) :
    Described size state k := by
  obtain ⟨positive, counted⟩ := valid
  have smaller : (k + 1) * descSize ≤ FirstRun.numSb size * descSize :=
    Nat.mul_le_mul_right _ counted
  rw [Nat.succ_mul] at smaller
  refine ⟨positive, counted, ⟨by omega, by omega⟩, ?_, ?_⟩
  · exact Nat.mul_pos positive (by decide)
  · have tooLarge := accepted.2
    unfold FirstRun.numSb at counted
    simp only [maxSbRegionSize, maxDescAmountBits, maxDescOffsetBits, descSize,
      cachelineSize, sbSize, pageSize] at *
    omega

/--
Every index that is pushed and every superblock that is returned, in any run
with any number of expansions by any threads and with restarts, has a
descriptor in the descriptor region, at an offset that can be encoded.
-/
theorem superblocks_described
    (accepted : FirstRun.Accepted size)
    (reached : Reaches (Initial size) (Step size) state) :
    (∀ k, k ∈ state.pushed → Described size state k) ∧
      ∀ sb, sb ∈ state.returned →
        ∃ k,
          sb = state.sbStart + k * sbSize ∧
            descLookup state.sbStart state.descStart sb =
              state.descStart + k * descSize ∧
            Described size state k := by
  have inv := Inv.reaches reached
  refine ⟨fun k member => described_of_valid accepted (inv.pushed k member), ?_⟩
  intro sb member
  obtain ⟨k, valid, rfl⟩ := inv.returned sb member
  refine ⟨k, rfl, ?_, described_of_valid accepted valid⟩
  have index : sbIndex state.sbStart (state.sbStart + k * sbSize) = k :=
    @sbIndex_of_aligned state.sbStart k 0 inv.placed.aligned (by decide)
      (inv.placed.low valid.2)
  have descMapped := inv.placed.descMapped
  have smaller : k * descSize ≤ FirstRun.numSb size * descSize :=
    Nat.mul_le_mul_right _ (Nat.le_of_lt valid.2)
  unfold descLookup
  rw [index]
  exact Nat.mod_eq_of_lt (by omega)

theorem exampleRegion_positive : 0 < 0x7f0000001000 := by
  decide

theorem exampleRegion_reserved : pageSize ≤ 0x80002000 := by
  decide

theorem exampleRegion_userSpace :
    0x7f0000001000 + 0x80002000 ≤ 2 ^ 47 := by
  decide

/-- The superblock file of a heap of 2 GiB. -/
def exampleRegion : RegionRace.MappedRegion where
  base := 0x7f0000001000
  fileSize := 0x80002000
  positive := exampleRegion_positive
  reserved := exampleRegion_reserved
  userSpace := exampleRegion_userSpace

/-- The start of the warm-up, by thread 0. -/
def exampleStart : State where
  region := exampleRegion
  race := {
    currAddrWord := HeapRegions.createdHeap.sb.currAddrWord
    memptr := fun _ => 0
    pc := fun _ => .idle
    returned := fun _ => none
    granted := []
  }
  sbStart := HeapRegions.createdHeap.sbStart
  descStart := HeapRegions.createdHeap.descStart
  phase :=
    Function.update (fun _ => .ready) 0
      (.organizing
        (organizeSbList HeapRegions.createdHeap.sbStart
          HeapRegions.createdHeap.descStart
          (HeapRegions.createdHeap.sbStart + sbSize) (perExpansion - 1))
        none)
  pushed := []
  returned := []

theorem exampleStart_working :
    exampleStart.phase 0 =
      .organizing
        (organizeSbList exampleStart.sbStart exampleStart.descStart
          (exampleStart.sbStart + sbSize) (perExpansion - 1))
        none := by
  simp only [exampleStart, Function.update_self]

theorem exampleStart_others
    {other : Nat}
    (differs : other ≠ 0) :
    exampleStart.phase other = .ready := by
  simp only [exampleStart, Function.update_of_ne differs]

theorem exampleStart_initial : Initial (2 ^ 31) exampleStart where
  regions :=
    ⟨HeapRegions.createdHeap, HeapRegions.createdHeap_created, rfl, rfl, rfl,
      rfl⟩
  idle := fun _ => rfl
  warmup := ⟨0, exampleStart_working, fun _ => exampleStart_others⟩
  nothing := ⟨rfl, rfl⟩

/-- The warm-up has pushed its first index. -/
def examplePushed : State :=
  { exampleStart with
    phase :=
      Function.update exampleStart.phase 0
        (.organizing
          ((List.range' 1 (perExpansion - 1 - 1)).map
            (indexFrom exampleStart.sbStart exampleStart.descStart
              (exampleStart.sbStart + sbSize)))
          none)
    pushed :=
      [indexFrom exampleStart.sbStart exampleStart.descStart
        (exampleStart.sbStart + sbSize) 0] }

theorem examplePushed_reached :
    Reaches (Initial (2 ^ 31)) (Step (2 ^ 31)) examplePushed :=
  (Reaches.start exampleStart_initial).next (Step.push exampleStart_working)

theorem examplePushed_ready : examplePushed.phase 1 = .ready := by
  simp only [examplePushed, Function.update_of_ne Nat.one_ne_zero]
  exact exampleStart_others Nat.one_ne_zero

/-- The warm-up has pushed an index and another thread has popped it. -/
theorem superblocks_described_2GiB :
    ∃ state,
      Reaches (Initial (2 ^ 31)) (Step (2 ^ 31)) state ∧
        state.pushed ≠ [] ∧
        state.returned ≠ [] ∧
        (∀ k, k ∈ state.pushed → Described (2 ^ 31) state k) ∧
        ∀ sb, sb ∈ state.returned →
          ∃ k,
            sb = state.sbStart + k * sbSize ∧
              descLookup state.sbStart state.descStart sb =
                state.descStart + k * descSize ∧
              Described (2 ^ 31) state k := by
  have popped :=
    examplePushed_reached.next
      (@Step.pop (2 ^ 31) _ 1 _ examplePushed_ready rfl List.mem_cons_self)
  exact ⟨_, popped, List.cons_ne_nil _ _, List.cons_ne_nil _ _,
    superblocks_described ⟨by decide, by decide⟩ popped⟩

end SbSupply

end Bxalloc
