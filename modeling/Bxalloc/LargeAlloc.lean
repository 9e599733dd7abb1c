import Bxalloc.BuddyAlloc
import Bxalloc.LargeRegion

namespace Bxalloc

/-!
# Large allocation with its expansions

`alloc` searches the lists, and when no list serves the request it expands the
region by a gigabyte, inserts one block into the last list and calls itself.
Nothing checks that the request fits in a maximal block.  When the file has no
room for another gigabyte an assertion stops the program.

Every round of the recursion is one unit of fuel; the number of expansions is
counted on the way.
-/

namespace Buddy

/--
The split loop stops at or above the first list: halved once for every list on
the way down and once more, the head of list `i` is below a basic block or no
larger than the request.
-/
def SplitEnds
    (layout : BuddyLayout)
    (length : Int)
    (state : Buddy)
    (i : Nat) : Prop :=
  let rest := (state.header (state.freeList i)).blockSize / 2 ^ (i + 1)
  rest < layout.basicBlockSize ∨ (rest : Int) ≤ need length

variable {layout : BuddyLayout} {state : Buddy} {length : Int}

/-- No list serves a request that the search gives up on. -/
theorem findLevel_none
    {i more : Nat}
    (nothing : findLevel layout state length i more = none) :
    ∀ j,
      i ≤ j →
      j < i + more →
      state.freeList j = 0 ∨ (layout.levelSize j : Int) < need length := by
  intro j above below
  by_contra serves
  obtain ⟨nonempty, enough⟩ := not_or.mp serves
  obtain ⟨k, found⟩ :=
    findLevel_ok above below nonempty (not_lt.mp enough)
  rw [nothing] at found
  cases found

/-- The loop ends exactly when it stops at or above the first list. -/
theorem splitLoop_isSome_iff
    (i : Nat)
    (state : Buddy) :
    (splitLoop layout length i state).isSome = true ↔
      SplitEnds layout length state i := by
  induction i generalizing state with
  | zero =>
      unfold splitLoop SplitEnds
      cases splitting : splits layout state length 0 with
      | true =>
          simp only [splits, Bool.and_eq_true, decide_eq_true_eq] at splitting
          simp only [↓reduceIte, Option.isSome_none, Bool.false_eq_true,
            false_iff, zero_add, pow_one]
          omega
      | false =>
          simp only [splits, Bool.and_eq_false_iff, decide_eq_false_iff_not]
            at splitting
          simp only [Bool.false_eq_true, ↓reduceIte, Option.isSome_some,
            true_iff, zero_add, pow_one]
          omega
  | succ i inductionHypothesis =>
      unfold splitLoop
      cases splitting : splits layout state length (i + 1) with
      | true =>
          -- The same block, now half as large, heads the list below.
          simp only [↓reduceIte]
          rw [inductionHypothesis]
          unfold SplitEnds
          simp only [setHead, split, setHeader, Function.update_self,
            Function.update_of_ne (Nat.succ_ne_self i).symm,
            Nat.div_div_eq_div_mul, ← Nat.pow_succ']
      | false =>
          simp only [splits, Bool.and_eq_false_iff, decide_eq_false_iff_not]
            at splitting
          have smaller :
              (state.header (state.freeList (i + 1))).blockSize /
                  2 ^ (i + 1 + 1) ≤
                (state.header (state.freeList (i + 1))).blockSize / 2 := by
            rw [Nat.pow_succ', ← Nat.div_div_eq_div_mul]
            exact Nat.div_le_self _ _
          simp only [Bool.false_eq_true, ↓reduceIte, Option.isSome_some,
            true_iff, SplitEnds]
          omega

/-- Once a list is found, `alloc` returns exactly when the split loop ends. -/
theorem alloc_isSome_iff
    {i : Nat}
    (found : findLevel layout state length 0 layout.levels = some i) :
    (alloc layout length state).isSome = true ↔
      SplitEnds layout length state i := by
  rw [← splitLoop_isSome_iff]
  unfold alloc
  rw [found]
  simp only [Option.bind_eq_bind, Option.bind_some]
  cases looped : splitLoop layout length i state with
  | none => simp
  | some result =>
      obtain ⟨j, after⟩ := result
      simp [remove]

/-- `alloc` never returns null. -/
theorem alloc_ne_zero
    {ptr : Nat}
    {after : Buddy}
    (returned : alloc layout length state = some (ptr, after)) :
    ptr ≠ 0 := by
  unfold alloc at returned
  simp only [bind, Option.bind_eq_some_iff, pure, Option.some.injEq,
    Prod.exists, Prod.mk.injEq] at returned
  obtain ⟨i, -, j, middle, -, removed, -, rfl, -⟩ := returned
  simp

end Buddy

namespace Large

/-- How a call of `alloc` ends. -/
inductive AllocEnd where
  | returned (ptr : Nat)
  /-- `assert(res != -1 && "space runs out!")`. -/
  | spaceRunsOut
  /-- The split loop writes `FreeList[-1]`. -/
  | belowFirstList
  deriving Repr, DecidableEq

/-- The end of a call, its expansions and what it leaves. -/
structure AllocResult where
  outcome : AllocEnd
  expansions : Nat
  large : Large

/-- What one round of `alloc` comes to. -/
inductive AllocRound where
  | ends (outcome : AllocEnd) (large : Large)
  /-- It calls itself on the expanded region. -/
  | again (large : Large)

/-- The rest of a round behind the attempt to expand. -/
def AllocRound.afterExpand (large : Large) : Option (Nat × Large) → AllocRound
  | none => .ends .spaceRunsOut large
  | some (_, large') => .again large'

/-- One round of `BuddyAllocator::alloc`. -/
def allocRound
    (layout : BuddyLayout)
    (length : Int)
    (large : Large) : AllocRound :=
  match Buddy.findLevel layout large.buddy length 0 layout.levels with
  | some _ =>
      match Buddy.alloc layout length large.buddy with
      | some (ptr, buddy) => .ends (.returned ptr) { large with buddy := buddy }
      | none => .ends .belowFirstList large
  | none => .afterExpand large (expand layout large)

/-- `BuddyAllocator::alloc`, with fuel for its calls of itself. -/
def allocRounds (layout : BuddyLayout) (length : Int) :
    Nat → Large → Option AllocResult
  | 0, _ => none
  | fuel + 1, large =>
      match allocRound layout length large with
      | .ends outcome after =>
          some { outcome := outcome, expansions := 0, large := after }
      | .again large' => do
          let result ← allocRounds layout length fuel large'
          return { result with expansions := result.expansions + 1 }

/-- What large allocation is meant to do: return a block after at most one
expansion, and return null with nothing changed for a request that no maximal
block holds. -/
def AllocatesOrFails
    (layout : BuddyLayout)
    (length : Int)
    (large : Large) : Prop :=
  if length + sizeofBlockHeader ≤ layout.maxBlockSize then
    ∃ fuel result ptr,
      allocRounds layout length fuel large = some result ∧
        result.outcome = .returned ptr ∧
        ptr ≠ 0 ∧
        result.expansions ≤ 1
  else
    ∃ fuel result,
      allocRounds layout length fuel large = some result ∧
        result.outcome = .returned 0 ∧
        result.large.buddy.freeList = large.buddy.freeList ∧
        result.large.region.currAddr = large.region.currAddr

/-- A list serves the request and its block can be split down to it, or no list
serves it and the file has room for another gigabyte. -/
def Servable
    (layout : BuddyLayout)
    (length : Int)
    (large : Large) : Prop :=
  match Buddy.findLevel layout large.buddy length 0 layout.levels with
  | some i => Buddy.SplitEnds layout length large.buddy i
  | none =>
      large.region.currAddr + minSbRegionSize ≤
        large.region.base + large.region.fileSize

section Rounds

variable {layout : BuddyLayout} {length : Int} {fuel : Nat}
variable {base size : Nat} {large large' : Large}

/-- A round that finds a list returns when the split loop ends. -/
theorem allocRound_found
    {i : Nat}
    (found :
      Buddy.findLevel layout large.buddy length 0 layout.levels = some i) :
    ∃ outcome buddy,
      allocRound layout length large =
          .ends outcome { large with buddy := buddy } ∧
        ((∃ ptr, ptr ≠ 0 ∧ outcome = .returned ptr) ↔
          Buddy.SplitEnds layout length large.buddy i) ∧
        outcome ≠ .returned 0 := by
  rw [← Buddy.alloc_isSome_iff found]
  unfold allocRound
  rw [found]
  cases returned : Buddy.alloc layout length large.buddy with
  | none =>
      exact ⟨.belowFirstList, large.buddy, rfl, by simp, by simp⟩
  | some served =>
      obtain ⟨ptr, buddy⟩ := served
      have notNull := Buddy.alloc_ne_zero returned
      exact ⟨.returned ptr, buddy, rfl, by simp [notNull], by simp [notNull]⟩

/-- A round that finds no list expands. -/
theorem allocRound_none
    (nothing :
      Buddy.findLevel layout large.buddy length 0 layout.levels = none) :
    allocRound layout length large =
      .afterExpand large (expand layout large) := by
  unfold allocRound
  rw [nothing]

/-- The last round. -/
theorem allocRounds_ends
    {outcome : AllocEnd}
    {after : Large}
    (ends : allocRound layout length large = .ends outcome after) :
    allocRounds layout length (fuel + 1) large =
      some { outcome := outcome, expansions := 0, large := after } := by
  rw [allocRounds, ends]

/-- A round before the last. -/
theorem allocRounds_again
    (again : allocRound layout length large = .again large') :
    allocRounds layout length (fuel + 1) large =
      (allocRounds layout length fuel large').map fun result =>
        { result with expansions := result.expansions + 1 } := by
  simp only [allocRounds, again]
  cases allocRounds layout length fuel large' <;> rfl

/-- No call returns null. -/
theorem allocRounds_ne_zero
    {result : AllocResult}
    (ended : allocRounds layout length fuel large = some result) :
    result.outcome ≠ .returned 0 := by
  induction fuel generalizing large result with
  | zero => cases ended
  | succ fuel inductionHypothesis =>
      cases found :
          Buddy.findLevel layout large.buddy length 0 layout.levels with
      | some i =>
          obtain ⟨outcome, buddy, ends, -, notNull⟩ := allocRound_found found
          rw [allocRounds_ends ends] at ended
          obtain rfl := Option.some.inj ended
          exact notNull
      | none =>
          have round := allocRound_none found
          cases expanded : expand layout large with
          | none =>
              rw [expanded] at round
              rw [allocRounds_ends round] at ended
              obtain rfl := Option.some.inj ended
              simp
          | some grown =>
              obtain ⟨ret, large'⟩ := grown
              rw [expanded] at round
              rw [allocRounds_again round] at ended
              obtain ⟨later, laterEnded, rfl⟩ := Option.map_eq_some_iff.mp ended
              have notNull := inductionHypothesis laterEnded
              exact notNull

end Rounds

section Expansions

variable {layout : BuddyLayout} {base size ret : Nat}
variable {large large' : Large}

/-- `curr_addr` is a page of user space. -/
theorem Inv.currAddr_page
    (inv : Inv base size large)
    (mapped : Mappable base mappedLength) :
    large.region.currAddr % 2 ^ 12 = 0 ∧
      0 < large.region.currAddr := by
  have pages := mapped.pageAligned
  have userSpace := mapped.userSpace
  obtain ⟨gigabytes, -, place⟩ := inv.grown.currAddr (by omega)
  rw [place]
  simp only [pageSize, minSbRegionSize] at *
  omega

theorem gigabyte_accepted :
    Region.badRequest pageSize minSbRegionSize = false := by
  decide +kernel

/-- What the region allocator does at a page boundary. -/
theorem nvmRegionAllocator_page
    {region : Region}
    {bytes : Nat}
    (accepted : Region.badRequest pageSize bytes = false)
    (aligned : region.currAddr % 2 ^ 12 = 0) :
    region.nvmRegionAllocator pageSize bytes =
      if region.base + region.fileSize < region.currAddr + bytes then
        none
      else
        some (region.currAddr,
          { region with
            currAddrWord :=
              toPptrOff (region.currAddr + bytes) region.base }) := by
  have page : Region.alignUp region.currAddr pageSize = region.currAddr :=
    Region.alignUp_of_aligned aligned
  unfold Region.nvmRegionAllocator
  rw [accepted]
  simp only [page, Bool.false_eq_true, ↓reduceIte]

/-- A `curr_addr` written at the base reads back. -/
theorem currAddr_written
    {next : Nat}
    (region : Region)
    (ahead : region.base < next)
    (near : next < region.base + 2 ^ 48)
    (fits : next < 2 ^ 64) :
    ({ region with
      currAddrWord := toPptrOff next region.base } : Region).currAddr = next := by
  change fromPptrOff (toPptrOff next region.base) region.base = next
  rw [Region.fromPptrOff_relocated ahead near (by omega)]
  omega

/-- The block an expansion inserts, and the region it leaves. -/
def insertExpansion
    (layout : BuddyLayout)
    (large : Large)
    (ret : Nat)
    (region : Region) : Large :=
  { large with
    region := region
    buddy :=
      (large.buddy.setHeader ret
        { free := true, blockSize := large.maxBlockSize, next := 0 }).insert
          (layout.levels - 1) ret }

theorem insertExpansion_maxBlockSize
    (layout : BuddyLayout)
    (large : Large)
    (ret : Nat)
    (region : Region) :
    (insertExpansion layout large ret region).maxBlockSize =
      large.maxBlockSize :=
  rfl

theorem expand_eq
    (layout : BuddyLayout)
    (large : Large) :
    expand layout large =
      (large.region.nvmRegionAllocator pageSize minSbRegionSize).map
        fun given => (given.1, insertExpansion layout large given.1 given.2) := by
  unfold expand
  generalize large.region.nvmRegionAllocator pageSize minSbRegionSize = given
  cases given <;> rfl

/-- The region that a successful expansion leaves. -/
theorem expand_region
    (aligned : large.region.currAddr % 2 ^ 12 = 0)
    (expanded : expand layout large = some (ret, large')) :
    large.region.currAddr + minSbRegionSize ≤
        large.region.base + large.region.fileSize ∧
      large'.region =
        { large.region with
          currAddrWord :=
            toPptrOff (large.region.currAddr + minSbRegionSize)
              large.region.base } := by
  rw [expand_eq, nvmRegionAllocator_page gigabyte_accepted aligned] at expanded
  split at expanded
  · cases expanded
  · next room =>
      rw [Option.map_some] at expanded
      obtain ⟨-, rfl⟩ := Prod.mk.inj (Option.some.inj expanded)
      exact ⟨Nat.le_of_not_lt room, rfl⟩

/-- Without room for a gigabyte the expansion fails. -/
theorem Inv.expand_full
    (inv : Inv base size large)
    (mapped : Mappable base mappedLength)
    (full :
      large.region.base + large.region.fileSize <
        large.region.currAddr + minSbRegionSize) :
    Large.expand layout large = none := by
  have given :=
    nvmRegionAllocator_page gigabyte_accepted (inv.currAddr_page mapped).1
  rw [if_pos full] at given
  rw [expand_eq, given]
  rfl

/-- What an expansion leaves: the block at the old `curr_addr` heads the last
list and `curr_addr` has moved by a gigabyte. -/
structure Expanded
    (layout : BuddyLayout)
    (base size : Nat)
    (large after : Large) : Prop where
  inv : Inv base size after
  region : ∃ word, after.region = { large.region with currAddrWord := word }
  currAddr :
    after.region.currAddr = large.region.currAddr + minSbRegionSize
  sameMember : after.maxBlockSize = large.maxBlockSize
  buddy :
    after.buddy =
      (large.buddy.setHeader large.region.currAddr
        { free := true, blockSize := large.maxBlockSize, next := 0 }).insert
          (layout.levels - 1) large.region.currAddr

/-- With room for a gigabyte the expansion succeeds. -/
theorem Inv.expand_room
    (inv : Inv base size large)
    (mapped : Mappable base mappedLength)
    (accepted : size < maxSbRegionSize)
    (room :
      large.region.currAddr + minSbRegionSize ≤
        large.region.base + large.region.fileSize) :
    ∃ after,
      Large.expand layout large = some (large.region.currAddr, after) ∧
        Expanded layout base size large after := by
  have given :=
    nvmRegionAllocator_page gigabyte_accepted (inv.currAddr_page mapped).1
  rw [if_neg (by omega)] at given
  have userSpace := mapped.userSpace
  have isBase := inv.grown.1
  have small := overwrittenFileSize_le accepted
  rw [← inv.fileSize] at small
  obtain ⟨gigabytes, -, place⟩ := inv.grown.currAddr (by omega)
  have positive : 0 < minSbRegionSize := by
    decide
  have expanded :
      Large.expand layout large =
        some (large.region.currAddr,
          insertExpansion layout large large.region.currAddr
            { large.region with
              currAddrWord :=
                toPptrOff (large.region.currAddr + minSbRegionSize)
                  large.region.base }) := by
    rw [expand_eq, given, Option.map_some]
  have invAfter := (inv.expand mapped accepted expanded).1
  have moved :=
    currAddr_written large.region
      (by omega :
        large.region.base < large.region.currAddr + minSbRegionSize)
      (by omega) (by omega)
  exact ⟨_, expanded, invAfter, ⟨_, rfl⟩, moved,
    insertExpansion_maxBlockSize .., rfl⟩

end Expansions

section Calls

variable {layout : BuddyLayout} {length : Int} {base size : Nat}
variable {large after : Large}

/-- The search that gave up finds the block that an expansion inserts. -/
theorem Expanded.found
    (expanded : Expanded layout base size large after)
    (mapped : Mappable base mappedLength)
    (before : Inv base size large)
    (nothing :
      Buddy.findLevel layout large.buddy length 0 layout.levels = none)
    (fits : Buddy.need length ≤ layout.maxBlockSize) :
    Buddy.findLevel layout after.buddy length 0 layout.levels =
      some (layout.levels - 1) := by
  have someLevel := layout.someLevel
  have notNull := (before.currAddr_page mapped).2
  have heads :
      after.buddy.freeList =
        Function.update large.buddy.freeList (layout.levels - 1)
          large.region.currAddr := by
    rw [expanded.buddy]
    rfl
  have head :
      after.buddy.freeList (layout.levels - 1) = large.region.currAddr := by
    rw [heads, Function.update_self]
  obtain ⟨k, found⟩ :=
    @Buddy.findLevel_ok layout after.buddy length 0 layout.levels
      (layout.levels - 1) (Nat.zero_le _) (by omega) (by omega) fits
  obtain ⟨-, inside, nonempty, enough, -⟩ := Buddy.findLevel_spec found
  rcases eq_or_ne k (layout.levels - 1) with rfl | differs
  · exact found
  · rw [heads, Function.update_of_ne differs] at nonempty
    rcases Buddy.findLevel_none nothing k (Nat.zero_le k) inside with
      empty | small
    · exact absurd empty nonempty
    · omega

/-- A block with an `int` for its size is split within the fourteen lists. -/
theorem Expanded.splitEnds
    (expanded : Expanded (layoutAt base) base size large after)
    (isInt : large.maxBlockSize < 2 ^ 31) :
    Buddy.SplitEnds (layoutAt base) length after.buddy
      ((layoutAt base).levels - 1) := by
  have bytes :
      (after.buddy.header
        (after.buddy.freeList ((layoutAt base).levels - 1))).blockSize =
        large.maxBlockSize := by
    rw [expanded.buddy]
    simp [Buddy.insert, Buddy.setHead, Buddy.setHeader]
  left
  rw [bytes]
  change large.maxBlockSize / 2 ^ 14 < 2 ^ 17
  omega

/-- Where the request fits, an expansion is followed by the last round. -/
theorem Expanded.returns
    (expanded : Expanded (layoutAt base) base size large after)
    (mapped : Mappable base mappedLength)
    (before : Inv base size large)
    (isInt : large.maxBlockSize < 2 ^ 31)
    (nothing :
      Buddy.findLevel (layoutAt base) large.buddy length 0
        (layoutAt base).levels = none)
    (fits : Buddy.need length ≤ (layoutAt base).maxBlockSize)
    (again : allocRound (layoutAt base) length large = .again after) :
    ∃ result ptr,
      allocRounds (layoutAt base) length 2 large = some result ∧
        result.outcome = .returned ptr ∧
        ptr ≠ 0 ∧
        result.expansions = 1 := by
  have found := expanded.found mapped before nothing fits
  obtain ⟨outcome, buddy, ends, returns, -⟩ := allocRound_found found
  obtain ⟨ptr, notNull, rfl⟩ := returns.mpr (expanded.splitEnds isInt)
  refine
    ⟨{ outcome := .returned ptr
       expansions := 1
       large := { after with buddy := buddy } },
      ptr, ?_, rfl, notNull, rfl⟩
  rw [allocRounds_again again, allocRounds_ends ends]
  rfl

/-- A request that fits and is servable gets a block within two rounds. -/
theorem Servable.returns
    (servable : Servable (layoutAt base) length large)
    (mapped : Mappable base mappedLength)
    (accepted : size < maxSbRegionSize)
    (inv : Inv base size large)
    (isInt : large.maxBlockSize < 2 ^ 31)
    (fits : Buddy.need length ≤ (layoutAt base).maxBlockSize) :
    ∃ fuel result ptr,
      allocRounds (layoutAt base) length fuel large = some result ∧
        result.outcome = .returned ptr ∧
        ptr ≠ 0 ∧
        result.expansions ≤ 1 := by
  unfold Servable at servable
  cases found :
      Buddy.findLevel (layoutAt base) large.buddy length 0
        (layoutAt base).levels with
  | some i =>
      rw [found] at servable
      obtain ⟨outcome, buddy, ends, returns, -⟩ := allocRound_found found
      obtain ⟨ptr, notNull, rfl⟩ := returns.mpr servable
      exact ⟨1, _, ptr, allocRounds_ends ends, rfl, notNull, Nat.zero_le 1⟩
  | none =>
      rw [found] at servable
      obtain ⟨after, grown, expanded⟩ :=
        inv.expand_room mapped accepted servable
      have again := allocRound_none found
      rw [grown] at again
      obtain ⟨result, ptr, ended, returned, notNull, once⟩ :=
        expanded.returns mapped inv isInt found fits again
      exact ⟨2, result, ptr, ended, returned, notNull, once.le⟩

/-- The intended behaviour is out of reach where no maximal block holds the
request. -/
theorem AllocatesOrFails.fits
    (meets : AllocatesOrFails layout length large) :
    length + sizeofBlockHeader ≤ layout.maxBlockSize := by
  by_contra tooLong
  unfold AllocatesOrFails at meets
  rw [if_neg tooLong] at meets
  obtain ⟨fuel, result, ended, isNull, -⟩ := meets
  exact allocRounds_ne_zero ended isNull

/-- Lists in order serve every request that the search stops at. -/
theorem servable_of_wellFormed
    {items : Nat → List Nat}
    (wellFormed : Buddy.WellFormed layout large.buddy items)
    (served :
      (Buddy.findLevel layout large.buddy length 0 layout.levels).isSome = true ∨
        large.region.currAddr + minSbRegionSize ≤
          large.region.base + large.region.fileSize) :
    Servable layout length large := by
  unfold Servable
  cases found :
      Buddy.findLevel layout large.buddy length 0 layout.levels with
  | none =>
      rw [found] at served
      simpa using served
  | some i =>
      obtain ⟨-, inside, nonempty, -, -⟩ := Buddy.findLevel_spec found
      rw [Nat.zero_add] at inside
      have list := wellFormed.lists i inside
      cases shape : items i with
      | nil =>
          rw [shape] at list
          exact absurd list nonempty
      | cons b rest =>
          obtain ⟨isHead, size⟩ := wellFormed.head_size inside shape
          left
          change Buddy.sizeAt large.buddy (large.buddy.freeList i) /
            2 ^ (i + 1) < layout.basicBlockSize
          rw [isHead, size]
          unfold BuddyLayout.levelSize
          have positive : 0 < layout.basicBlockSize :=
            Nat.two_pow_pos layout.basicBits
          have power : 0 < 2 ^ i := Nat.two_pow_pos i
          refine Nat.div_lt_of_lt_mul ?_
          exact Nat.mul_lt_mul_of_pos_right
            (Nat.pow_lt_pow_right (by decide) (Nat.lt_succ_self i)) positive

/-- No list serves a request that no maximal block holds. -/
theorem findLevel_tooLong
    (tooLong : (layout.maxBlockSize : Int) < Buddy.need length) :
    Buddy.findLevel layout large.buddy length 0 layout.levels = none := by
  cases found :
      Buddy.findLevel layout large.buddy length 0 layout.levels with
  | none => rfl
  | some i =>
      obtain ⟨-, inside, -, enough, -⟩ := Buddy.findLevel_spec found
      have atMost : layout.levelSize i ≤ layout.maxBlockSize := by
        unfold BuddyLayout.maxBlockSize BuddyLayout.levelSize
        exact Nat.mul_le_mul_right _
          (Nat.pow_le_pow_right (by decide) (by omega))
      omega

/--
A request that no maximal block holds takes every gigabyte the file has left,
one a round, and then stops at the assertion.
-/
theorem alloc_consumes
    (mapped : Mappable base mappedLength)
    (accepted : size < maxSbRegionSize)
    (tooLong : (layout.maxBlockSize : Int) < Buddy.need length)
    {gigabytes : Nat}
    (inv : Inv base size large)
    (room :
      (large.region.base + large.region.fileSize - large.region.currAddr) /
        minSbRegionSize = gigabytes) :
    ∃ result,
      allocRounds layout length (gigabytes + 1) large = some result ∧
        result.outcome = .spaceRunsOut ∧
        result.expansions = gigabytes ∧
        result.large.region.currAddr =
          large.region.currAddr + gigabytes * minSbRegionSize := by
  have chunk : 0 < minSbRegionSize := by
    decide
  induction gigabytes generalizing large with
  | zero =>
      have ends := @allocRound_none layout length large
        (findLevel_tooLong tooLong)
      have small :=
        (Nat.div_eq_zero_iff_lt chunk).mp room
      rw [inv.expand_full mapped (by omega)] at ends
      refine ⟨_, allocRounds_ends ends, rfl, rfl, ?_⟩
      rw [Nat.zero_mul, Nat.add_zero]
  | succ gigabytes inductionHypothesis =>
      have enough :
          minSbRegionSize ≤
            large.region.base + large.region.fileSize -
              large.region.currAddr := by
        by_contra small
        rw [Nat.div_eq_of_lt (Nat.lt_of_not_le small)] at room
        omega
      obtain ⟨after, grown, expanded⟩ :=
        @Inv.expand_room layout base size large inv mapped accepted (by omega)
      have again := @allocRound_none layout length large
        (findLevel_tooLong tooLong)
      rw [grown] at again
      obtain ⟨word, region⟩ := expanded.region
      have rest :
          (after.region.base + after.region.fileSize -
              after.region.currAddr) / minSbRegionSize = gigabytes := by
        rw [expanded.currAddr, region]
        change
          (large.region.base + large.region.fileSize -
            (large.region.currAddr + minSbRegionSize)) / minSbRegionSize = _
        rw [Nat.div_eq_sub_div chunk enough, Nat.sub_sub] at room
        exact Nat.succ.inj room
      obtain ⟨result, ended, outcome, count, moved⟩ :=
        inductionHypothesis expanded.inv rest
      refine ⟨{ result with expansions := result.expansions + 1 }, ?_,
        outcome, ?_, ?_⟩
      · rw [allocRounds_again again, ended]
        rfl
      · rw [count]
      · rw [moved, expanded.currAddr, Nat.succ_mul]
        omega

/-- Every call ends, whatever the length. -/
theorem alloc_ends
    (mapped : Mappable base mappedLength)
    (accepted : size < maxSbRegionSize)
    (inv : Inv base size large)
    (length : Int) :
    ∃ fuel result,
      allocRounds (layoutAt base) length fuel large = some result := by
  by_cases fits : Buddy.need length ≤ (layoutAt base).maxBlockSize
  · cases found :
        Buddy.findLevel (layoutAt base) large.buddy length 0
          (layoutAt base).levels with
    | some i =>
        obtain ⟨outcome, buddy, ends, -, -⟩ := allocRound_found found
        exact ⟨1, _, allocRounds_ends ends⟩
    | none =>
        have round := allocRound_none found
        by_cases room :
            large.region.currAddr + minSbRegionSize ≤
              large.region.base + large.region.fileSize
        · obtain ⟨after, grown, expanded⟩ :=
            @Inv.expand_room (layoutAt base) base size large inv mapped
              accepted room
          rw [grown] at round
          obtain ⟨outcome, buddy, ends, -, -⟩ :=
            allocRound_found (expanded.found mapped inv found fits)
          refine
            ⟨2,
              { outcome := outcome
                expansions := 1
                large := { after with buddy := buddy } },
              ?_⟩
          rw [allocRounds_again round, allocRounds_ends ends]
          rfl
        · rw [inv.expand_full mapped (by omega)] at round
          exact ⟨1, _, allocRounds_ends round⟩
  · obtain ⟨result, ended, -⟩ :=
      alloc_consumes mapped accepted (not_le.mp fits) inv rfl
    exact ⟨_, result, ended⟩

end Calls

end Large

end Bxalloc
