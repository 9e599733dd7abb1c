import Bxalloc.BuddyRecovery
import Bxalloc.LargeAlloc

namespace Bxalloc

/-!
# The recorded size of the large-object region

The distance from the heap start to `curr_addr` is kept in `int` variables:
`_BXP_init` casts it to `totalmemory` and hands it to the constructor, which
rounds it to basic blocks for the member `total_memory_size`; every expansion
adds a gigabyte to the member.  A restart computes all of it anew from the
persistent `curr_addr`, and the scan of the constructor stops where it says.
-/

open Lib (Reaches)

namespace Large

/-- The region and its allocator with the sizes they have recorded. -/
structure Recorded where
  large : Large
  /-- `totalmemory` of `_BXP_init`, the constructor's argument. -/
  totalmemory : Int
  /-- The member `total_memory_size`. -/
  totalMemorySize : Int
  /-- The successful expansions since the file was created. -/
  expansions : Nat

/-- `int((uint64_t)curr_addr-(uint64_t)startaddress)`. -/
def totalmemoryOf (region : Region) : Int :=
  Buddy.int32 (u64Sub region.currAddr region.fetchHeapStart)

/-- `(_total_memory_length/_basic_block_size)*_basic_block_size`. -/
def roundedSize (totalMemoryLength : Int) : Int :=
  totalMemoryLength.tdiv (128 * 1024) * (128 * 1024)

/-- A later run maps the file again and `_BXP_init` overwrites `FILESIZE`. -/
def reopen (region : Region) (base size : Nat) : Region :=
  { region.remap base with fileSize := overwrittenFileSize size }

/-- The headers of the file as they lie in the new mapping. -/
def movedHeaders
    (oldBase base : Nat)
    (header : Nat → BlockHeader) : Nat → BlockHeader :=
  fun address => header (address - base + oldBase)

/--
What the scan of the constructor reads from its arguments.  A negative length
ends it at once, as no length does.
-/
def recoverArgs (base : Nat) (totalmemory : Int) : RecoverArgs where
  start := base + pageSize
  basicBlockSize := 2 ^ 17
  maxBlockSize := minSbRegionSize
  totalMemoryLength := totalmemory.toNat
  positive := arenaStart_positive base
  holdsHeader := basicBlock_holdsHeader

/-- The arena after some expansions. -/
def grownLayout (base gigabytes : Nat) : BuddyLayout :=
  { layoutAt base with count := gigabytes }

namespace Recorded

/-- The first run. -/
def Initial (base size : Nat) (state : Recorded) : Prop :=
  Large.Initial base size state.large ∧
    state.totalmemory = totalmemoryOf state.large.region ∧
    state.totalMemorySize = roundedSize state.totalmemory ∧
    state.expansions = 0

/-- What happens to the allocator. -/
inductive Event where
  | round (round : Round)
  /-- The program ends and starts again. -/
  | restart (base size : Nat)

/-- One round of a call, or one restart. -/
inductive Step : Recorded → Event → Recorded → Prop where
  | call
      {state : Recorded}
      {call : Buddy.Call}
      {buddy : Buddy}
      (step :
        Buddy.Step
          (grownLayout state.large.region.base (state.expansions + 1))
          state.large.buddy call buddy) :
      Step state (.round (.call call))
        { state with large := { state.large with buddy := buddy } }
  | expand
      {state : Recorded}
      {length : Int}
      {ret : Nat}
      {large : Large}
      (none :
        Buddy.findLevel
          (grownLayout state.large.region.base (state.expansions + 1))
          state.large.buddy length 0
          (grownLayout state.large.region.base (state.expansions + 1)).levels =
            none)
      (expanded :
        Large.expand
          (grownLayout state.large.region.base (state.expansions + 1))
          state.large = some (ret, large)) :
      Step state (.round (.expand length))
        { state with
          large := large
          totalMemorySize :=
            Buddy.int32 (state.totalMemorySize + minSbRegionSize)
          expansions := state.expansions + 1 }
  | restart
      {state : Recorded}
      {base size : Nat}
      {visited : List Nat}
      {buddy : Buddy}
      (member : Nat)
      (mapped : Mappable base mappedLength)
      (accepted : minSbRegionSize ≤ size ∧ size < maxSbRegionSize)
      (recovered :
        Buddy.recoverArena
          (recoverArgs base
            (totalmemoryOf (reopen state.large.region base size)))
          (movedHeaders state.large.region.base base
            state.large.buddy.header) = some (visited, buddy)) :
      Step state (.restart base size)
        { large :=
            { region := reopen state.large.region base size
              buddy := buddy
              maxBlockSize := member }
          totalmemory :=
            totalmemoryOf (reopen state.large.region base size)
          totalMemorySize :=
            roundedSize (totalmemoryOf (reopen state.large.region base size))
          expansions := state.expansions }

/-- The bytes from the heap start to `curr_addr` after some expansions. -/
def bytes (expansions : Nat) : Nat :=
  (expansions + 1) * minSbRegionSize

/-- The words of a region that was expanded so many times. -/
structure Words (region : Region) (expansions : Nat) : Prop where
  mapped : Mappable region.base mappedLength
  heapStart : region.heapStartWord = pageSize
  bounded : pageSize + bytes expansions ≤ 2 ^ 47
  word :
    region.currAddrWord =
      toPptrOff (region.base + (pageSize + bytes expansions)) region.base
  fileSize : region.fileSize ≤ 2 ^ 46

/-- What every run knows about the region and the member. -/
structure Inv (state : Recorded) : Prop where
  words : Words state.large.region state.expansions
  member : state.totalMemorySize = Buddy.int32 (bytes state.expansions)

end Recorded

/-- The sizes that fit in an `int`: the first gigabyte alone. -/
theorem int32_bytes_iff
    (expansions : Nat) :
    Buddy.int32 (Recorded.bytes expansions) = Recorded.bytes expansions ↔
      expansions = 0 := by
  unfold Buddy.int32 Recorded.bytes
  simp only [minSbRegionSize]
  rw [Int.bmod_def]
  push_cast
  constructor
  · intro same
    split at same <;> omega
  · rintro rfl
    decide

/-- Whole gigabytes are whole basic blocks, also behind the wrap. -/
theorem roundedSize_bytes
    (expansions : Nat) :
    roundedSize (Buddy.int32 (Recorded.bytes expansions)) =
      Buddy.int32 (Recorded.bytes expansions) := by
  unfold roundedSize
  refine Int.tdiv_mul_cancel ?_
  unfold Buddy.int32 Recorded.bytes
  simp only [minSbRegionSize]
  rw [Int.bmod_def]
  push_cast
  split <;> omega

/-- A scan of positive length ends at the distance when the length is it. -/
theorem toNat_eq_iff
    {wrapped : Int}
    {distance : Nat}
    (positive : 0 < distance) :
    wrapped.toNat = distance ↔ wrapped = distance := by
  omega

/-- An expansion adds a gigabyte. -/
theorem bytes_succ
    (expansions : Nat) :
    Recorded.bytes (expansions + 1) =
      Recorded.bytes expansions + minSbRegionSize :=
  Nat.succ_mul (expansions + 1) minSbRegionSize

/-- An expansion adds a gigabyte to the wrapped size. -/
theorem int32_bytes_succ
    (expansions : Nat) :
    Buddy.int32 (Buddy.int32 (Recorded.bytes expansions) + minSbRegionSize) =
      Buddy.int32 (Recorded.bytes (expansions + 1)) := by
  rw [bytes_succ, Nat.cast_add]
  unfold Buddy.int32
  exact Int.bmod_add_bmod

namespace Recorded

variable {base size expansions : Nat} {region : Region}
variable {state after : Recorded}

/-- `curr_addr` lies behind the reserved page and the whole gigabytes. -/
theorem Words.currAddr
    (words : Words region expansions) :
    region.currAddr = region.fetchHeapStart + bytes expansions := by
  have userSpace := words.mapped.userSpace
  have bounded := words.bounded
  unfold Region.fetchHeapStart Region.currAddr
  rw [words.word, words.heapStart]
  generalize bytes expansions = distance at *
  simp only [pageSize] at *
  rw [Region.fromPptrOff_relocated (by omega) (by omega) (by omega)]
  omega

/-- What the cast of `_BXP_init` leaves of the distance. -/
theorem Words.totalmemoryOf
    (words : Words region expansions) :
    Large.totalmemoryOf region = Buddy.int32 (bytes expansions) := by
  have userSpace := words.mapped.userSpace
  have bounded := words.bounded
  have start : region.fetchHeapStart = pageSize + region.base := by
    unfold Region.fetchHeapStart
    rw [words.heapStart]
  unfold Large.totalmemoryOf
  rw [words.currAddr, start]
  generalize bytes expansions = distance at *
  simp only [pageSize] at *
  rw [u64Sub_of_le (by omega) (by omega), Nat.add_sub_cancel_left]

/-- `curr_addr` is a page. -/
theorem Words.currAddr_page
    (words : Words region expansions) :
    region.currAddr % 2 ^ 12 = 0 := by
  have pages := words.mapped.pageAligned
  rw [words.currAddr]
  unfold Region.fetchHeapStart bytes
  rw [words.heapStart]
  simp only [pageSize, minSbRegionSize] at *
  omega

/-- The new file holds one gigabyte. -/
theorem Words.create
    (mapped : Mappable base mappedLength)
    (accepted : size < maxSbRegionSize)
    (created : createRegion base size = some region) :
    Words region 0 := by
  have first : bytes 0 = minSbRegionSize := by
    rw [bytes, Nat.zero_add, Nat.one_mul]
  rw [createRegion_words mapped created]
  refine ⟨mapped, rfl, ?_, ?_, overwrittenFileSize_le accepted⟩
  · decide
  · rw [first]

/-- An expansion adds a gigabyte. -/
theorem Words.expand
    {layout : BuddyLayout}
    {ret : Nat}
    {large large' : Large}
    (words : Words large.region expansions)
    (expanded : Large.expand layout large = some (ret, large')) :
    Words large'.region (expansions + 1) := by
  obtain ⟨room, region⟩ := expand_region words.currAddr_page expanded
  have fileSize := words.fileSize
  have next :
      large.region.currAddr + minSbRegionSize =
        large.region.base + (pageSize + bytes (expansions + 1)) := by
    rw [words.currAddr, bytes_succ]
    unfold Region.fetchHeapStart
    rw [words.heapStart]
    omega
  rw [next] at room region
  rw [region]
  exact ⟨words.mapped, words.heapStart, by omega, rfl, fileSize⟩

/-- The file keeps its words at another base and with the size of another call. -/
theorem Words.reopen
    (words : Words region expansions)
    (mapped : Mappable base mappedLength)
    (accepted : size < maxSbRegionSize) :
    Words (reopen region base size) expansions := by
  have bounded := words.bounded
  have moved :=
    @HeapRegions.toPptrOff_offset region.base base
      (pageSize + bytes expansions)
      (Nat.lt_of_lt_of_le (by decide) (Nat.le_add_right pageSize _))
      (by omega)
  exact ⟨mapped, words.heapStart, bounded, words.word.trans moved,
    overwrittenFileSize_le accepted⟩

/-- The invariant holds in every state of every run and its restarts. -/
theorem Inv.of_reaches
    (mapped : Mappable base mappedLength)
    (accepted : size < maxSbRegionSize)
    (reached : Reaches (Initial base size) Step state) :
    Inv state := by
  refine reached.invariant ?_ ?_
  · rintro first ⟨⟨created, -⟩, argument, member, none⟩
    have words := Words.create mapped accepted created
    refine ⟨none ▸ words, ?_⟩
    rw [member, argument, words.totalmemoryOf, roundedSize_bytes, none]
  · intro before event after inv step
    cases step with
    | call _ => exact ⟨inv.words, inv.member⟩
    | expand _ expanded =>
        refine ⟨inv.words.expand expanded, ?_⟩
        simp only
        rw [inv.member, int32_bytes_succ]
    | restart member remapped sized _ =>
        have words := inv.words.reopen remapped sized.2
        refine ⟨words, ?_⟩
        simp only
        rw [words.totalmemoryOf, roundedSize_bytes]

/--
In every state of every run and its restarts, for every accepted size: the
distance from the heap start to `curr_addr` is a gigabyte more than was expanded,
and the member, the argument of a restart, the member after it and the end of
the scan agree with it exactly as long as the region was never expanded.
-/
theorem recorded_sizes_exact_iff
    (mapped : Mappable base mappedLength)
    (accepted : minSbRegionSize ≤ size ∧ size < maxSbRegionSize)
    (reached : Reaches (Initial base size) Step state) :
    state.large.region.currAddr =
        state.large.region.fetchHeapStart +
          (state.expansions + 1) * minSbRegionSize ∧
      (state.totalMemorySize =
          (state.large.region.currAddr : Int) -
            state.large.region.fetchHeapStart ↔
        state.expansions = 0) ∧
      ∀ base' size',
        Mappable base' mappedLength →
        minSbRegionSize ≤ size' ∧ size' < maxSbRegionSize →
        let region := reopen state.large.region base' size'
        let totalmemory := Large.totalmemoryOf region
        let distance := (region.currAddr : Int) - region.fetchHeapStart
        distance = ((state.expansions + 1) * minSbRegionSize : Nat) ∧
          (totalmemory = distance ↔ state.expansions = 0) ∧
          (roundedSize totalmemory = distance ↔ state.expansions = 0) ∧
          (recoverArgs base' totalmemory).start = region.fetchHeapStart ∧
          ((recoverArgs base' totalmemory).finish = region.currAddr ↔
            state.expansions = 0) := by
  have inv := Inv.of_reaches mapped accepted.2 reached
  have exactly := int32_bytes_iff state.expansions
  have distanceOf :
      ∀ {region : Region},
        Words region state.expansions →
        (region.currAddr : Int) - region.fetchHeapStart =
          bytes state.expansions := by
    intro region words
    rw [words.currAddr]
    omega
  refine ⟨inv.words.currAddr, ?_, ?_⟩
  · rw [distanceOf inv.words, inv.member]
    exact exactly
  · intro base' size' mapped' accepted'
    have words := inv.words.reopen mapped' accepted'.2
    have start :
        (reopen state.large.region base' size').fetchHeapStart =
          base' + pageSize := by
      unfold Region.fetchHeapStart
      rw [words.heapStart, Nat.add_comm]
      rfl
    simp only
    rw [distanceOf words, words.totalmemoryOf, roundedSize_bytes]
    refine ⟨rfl, exactly, exactly, start.symm, ?_⟩
    rw [words.currAddr, start]
    have positive : 0 < bytes state.expansions :=
      Nat.mul_pos (Nat.succ_pos _) (by decide)
    unfold RecoverArgs.finish recoverArgs
    simp only
    rw [Nat.add_left_cancel_iff, toNat_eq_iff positive]
    exact exactly

/-- What survives the cast is at most one gigabyte. -/
theorem int32_bytes_le
    (expansions : Nat) :
    (Buddy.int32 (bytes expansions)).toNat ≤ 2 ^ 30 := by
  have shape : bytes expansions = (expansions + 1) * 2 ^ 30 := by
    rw [bytes, show minSbRegionSize = 2 ^ 30 by decide]
  rw [shape]
  unfold Buddy.int32
  generalize expansions + 1 = gigabytes
  rw [Int.bmod_def]
  push_cast
  split <;> omega

end Recorded

end Large

/-- Arguments are equal when the scan reads the same from them. -/
theorem RecoverArgs.eq_of_fields
    {first second : RecoverArgs}
    (start : first.start = second.start)
    (basic : first.basicBlockSize = second.basicBlockSize)
    (largest : first.maxBlockSize = second.maxBlockSize)
    (total : first.totalMemoryLength = second.totalMemoryLength) :
    first = second := by
  cases first
  cases second
  simp only at start basic largest total
  subst start basic largest total
  rfl

namespace Buddy

/-- The scan visits blocks before the end of the arena only. -/
theorem recoverLoop_below
    {args : RecoverArgs}
    {fuel curr : Nat}
    {state final : Buddy}
    {visited : List Nat}
    (looped : recoverLoop args fuel curr state = some (visited, final)) :
    ∀ b, b ∈ visited → b < args.finish := by
  induction fuel generalizing curr state final visited with
  | zero =>
      unfold recoverLoop at looped
      split at looped
      · cases looped
      · obtain ⟨rfl, -⟩ := Prod.mk.inj (Option.some.inj looped)
        intro b member
        cases member
  | succ fuel inductionHypothesis =>
      unfold recoverLoop at looped
      split at looped
      · next inside =>
          obtain ⟨⟨later, last⟩, rest, shape⟩ := Option.bind_eq_some_iff.mp looped
          obtain ⟨rfl, -⟩ := Prod.mk.inj (Option.some.inj shape)
          intro b member
          rcases List.mem_cons.mp member with rfl | isLater
          · exact inside
          · exact inductionHypothesis rest b isLater
      · obtain ⟨rfl, -⟩ := Prod.mk.inj (Option.some.inj looped)
        intro b member
        cases member

end Buddy

namespace Large

namespace Recorded

variable {base size : Nat} {state : Recorded}

/-- After growth, a restart never sees a block behind the first gigabyte. -/
theorem restart_visits_first_gigabyte
    {base' size' : Nat}
    {visited : List Nat}
    {buddy : Buddy}
    {header : Nat → BlockHeader}
    (mapped : Mappable base mappedLength)
    (accepted : size < maxSbRegionSize)
    (reached : Reaches (Initial base size) Step state)
    (mapped' : Mappable base' mappedLength)
    (accepted' : size' < maxSbRegionSize)
    (recovered :
      Buddy.recoverArena
        (recoverArgs base'
          (Large.totalmemoryOf (reopen state.large.region base' size')))
        header = some (visited, buddy)) :
    ∀ b, b ∈ visited → b < base' + pageSize + minSbRegionSize := by
  intro b member
  have words :=
    (Inv.of_reaches mapped accepted reached).words.reopen mapped' accepted'
  have below := Buddy.recoverLoop_below recovered b member
  have short := int32_bytes_le state.expansions
  have gigabyte : minSbRegionSize = 2 ^ 30 := by
    decide
  rw [words.totalmemoryOf] at below
  unfold RecoverArgs.finish recoverArgs at below
  simp only at below
  omega

/-- Before any growth, a restart describes the arena of the first run. -/
theorem recoverArgs_unexpanded
    {base' size' : Nat}
    (mapped : Mappable base mappedLength)
    (accepted : size < maxSbRegionSize)
    (reached : Reaches (Initial base size) Step state)
    (mapped' : Mappable base' mappedLength)
    (accepted' : size' < maxSbRegionSize)
    (never : state.expansions = 0) :
    recoverArgs base'
        (Large.totalmemoryOf (reopen state.large.region base' size')) =
      (layoutAt base').recoverArgs := by
  have words :=
    (Inv.of_reaches mapped accepted reached).words.reopen mapped' accepted'
  rw [words.totalmemoryOf, never]
  have length : (Buddy.int32 (bytes 0)).toNat = 2 ^ 30 := by
    decide
  have total : (layoutAt base').totalMemorySize = 2 ^ 30 := by
    unfold BuddyLayout.totalMemorySize BuddyLayout.maxBlockSize
      BuddyLayout.levelSize BuddyLayout.basicBlockSize
    norm_num [layoutAt]
  have largest : (layoutAt base').maxBlockSize = 2 ^ 30 := by
    unfold BuddyLayout.maxBlockSize BuddyLayout.levelSize
      BuddyLayout.basicBlockSize
    norm_num [layoutAt]
  exact RecoverArgs.eq_of_fields rfl rfl largest.symm
    (length.trans total.symm)

/-- What `_BXP_init` records for a new file. -/
def fresh (large : Large) : Recorded where
  large := large
  totalmemory := Large.totalmemoryOf large.region
  totalMemorySize := roundedSize (Large.totalmemoryOf large.region)
  expansions := 0

theorem fresh_initial
    {large : Large}
    (initial : Large.Initial base size large) :
    Initial base size (fresh large) := by
  refine ⟨initial, ?_, ?_, ?_⟩
  · simp only [fresh]
  · simp only [fresh]
  · simp only [fresh]

/-- The allocator of a new heap of 8 GiB. -/
def exampleRecorded : Recorded :=
  fresh exampleLarge

theorem exampleRecorded_initial :
    Initial (2 ^ 40) (2 ^ 33) exampleRecorded :=
  fresh_initial exampleLarge_initial

/-- The arena of the example is that of its base. -/
theorem exampleRecorded_layout :
    grownLayout exampleRecorded.large.region.base
      (exampleRecorded.expansions + 1) = layoutAt (2 ^ 40) := by
  have base : exampleRecorded.large.region.base = 2 ^ 40 := by
    decide +kernel
  rw [base]
  rfl

/-- Its first object takes the gigabyte and its second one expands. -/
theorem exists_grown :
    ∃ state,
      Reaches (Initial (2 ^ 40) (2 ^ 33)) Step state ∧
        state.expansions = 1 := by
  obtain ⟨buddy, large', allocated, none, expanded⟩ := example_rounds
  rw [← exampleRecorded_layout] at allocated none expanded
  have first :
      Reaches (Initial (2 ^ 40) (2 ^ 33)) Step
        { exampleRecorded with
          large := { exampleRecorded.large with buddy := buddy } } :=
    (Reaches.start exampleRecorded_initial).next (.call allocated)
  exact ⟨_, first.next (.expand none expanded), rfl⟩

/--
After one expansion of an 8 GiB heap the region holds two gigabytes and the
member says minus two; a restart passes the same to the constructor, whose scan
finds nothing and leaves every list empty.
-/
theorem second_gigabyte_unrecorded :
    ∃ state after,
      Reaches (Initial (2 ^ 40) (2 ^ 33)) Step state ∧
        Step state (.restart (2 ^ 41) (2 ^ 33)) after ∧
        state.large.region.currAddr =
          state.large.region.fetchHeapStart + 2 ^ 31 ∧
        state.totalMemorySize = -2 ^ 31 ∧
        after.totalmemory = -2 ^ 31 ∧
        after.totalMemorySize = -2 ^ 31 ∧
        ∀ i, after.large.buddy.freeList i = 0 := by
  obtain ⟨state, reached, once⟩ := exists_grown
  have inv := Inv.of_reaches example_mapped (by decide) reached
  have mapped : Mappable (2 ^ 41) mappedLength :=
    ⟨by decide, by decide, by decide⟩
  have words := inv.words.reopen mapped (by decide : 2 ^ 33 < maxSbRegionSize)
  have wrapped : Buddy.int32 (bytes 1) = -2 ^ 31 := by
    decide
  have passed := words.totalmemoryOf
  rw [once, wrapped] at passed
  have recovered :
      Buddy.recoverArena
          (recoverArgs (2 ^ 41)
            (Large.totalmemoryOf
              (reopen state.large.region (2 ^ 41) (2 ^ 33))))
          (movedHeaders state.large.region.base (2 ^ 41)
            state.large.buddy.header) =
        some ([],
          { header :=
              movedHeaders state.large.region.base (2 ^ 41)
                state.large.buddy.header
            freeList := fun _ => 0
            live := [] }) := by
    rw [passed]
    rfl
  have restarted := Step.restart 0 mapped ⟨by decide, by decide⟩ recovered
  rw [passed] at restarted
  refine ⟨state, _, reached, restarted, ?_, ?_, rfl, ?_, fun _ => rfl⟩
  · rw [inv.words.currAddr, once, show bytes 1 = 2 ^ 31 by decide]
  · rw [inv.member, once, wrapped]
  · change roundedSize (-2 ^ 31) = -2 ^ 31
    decide

/-- The sizes of the example before and after its expansion. -/
theorem recorded_sizes_exact_iff_8GiB :
    ∃ fresh grown,
      Reaches (Initial (2 ^ 40) (2 ^ 33)) Step fresh ∧
        Reaches (Initial (2 ^ 40) (2 ^ 33)) Step grown ∧
        fresh.totalMemorySize =
          (fresh.large.region.currAddr : Int) -
            fresh.large.region.fetchHeapStart ∧
        grown.totalMemorySize ≠
          (grown.large.region.currAddr : Int) -
            grown.large.region.fetchHeapStart ∧
        (recoverArgs (2 ^ 41)
          (Large.totalmemoryOf
            (reopen grown.large.region (2 ^ 41) (2 ^ 33)))).finish ≠
          (reopen grown.large.region (2 ^ 41) (2 ^ 33)).currAddr := by
  obtain ⟨grown, reached, once⟩ := exists_grown
  have start :
      Reaches (Initial (2 ^ 40) (2 ^ 33)) Step exampleRecorded :=
    .start exampleRecorded_initial
  have sizes :
      minSbRegionSize ≤ 2 ^ 33 ∧ 2 ^ 33 < maxSbRegionSize :=
    ⟨by decide, by decide⟩
  have mapped : Mappable (2 ^ 41) mappedLength :=
    ⟨by decide, by decide, by decide⟩
  obtain ⟨-, freshExact, -⟩ :=
    recorded_sizes_exact_iff example_mapped sizes start
  obtain ⟨-, grownExact, restarted⟩ :=
    recorded_sizes_exact_iff example_mapped sizes reached
  refine ⟨exampleRecorded, grown, start, reached, freshExact.mpr rfl, ?_, ?_⟩
  · intro exactly
    have never := grownExact.mp exactly
    omega
  · intro covers
    have never := (restarted _ _ mapped sizes).2.2.2.2.mp covers
    omega

end Recorded

end Large

end Bxalloc
