import Bxalloc.BuddyRuns
import Bxalloc.Lookup

namespace Bxalloc

/-!
# Growing the large-object region

`_BXP_init` creates the large-object file for one gigabyte, which is handed to
the buddy allocator at once, and then overwrites `FILESIZE` with half of the
heap size.  An `alloc` that finds no block expands the region by another
gigabyte against the new `FILESIZE`, while the mapping keeps the length it was
created with.  The header of the new block takes its size from the member
`max_block_size`, which the constructor never sets.
-/

open Lib (Reaches)

/-- The large-object region and the allocator over it. -/
structure Large where
  region : Region
  buddy : Buddy
  /-- The member `max_block_size`; the constructor's parameter hides it. -/
  maxBlockSize : Nat

namespace Large

/-- `FILESIZE` as `_BXP_init` overwrites it; `sbsize` is half of `size`. -/
def overwrittenFileSize (size : Nat) : Nat :=
  (size - size / 2) / sbSize * sbSize

/-- The length that `mmap` was given for the file. -/
def mappedLength : Nat :=
  Region.fileSizeFor minSbRegionSize

/-- `_rgs->create(filepath+"_large_sb",MIN_SB_REGION_SIZE,true,true)`. -/
def createRegion (base size : Nat) : Option Region := do
  let (root, region) ←
    (Region.map base minSbRegionSize).nvmRegionAllocator
      cachelineSize minSbRegionSize
  return { region.storeHeapStart root with
    fileSize := overwrittenFileSize size }

theorem arenaStart_positive
    (base : Nat) :
    0 < base + pageSize :=
  Nat.lt_of_lt_of_le (by decide) (Nat.le_add_left _ _)

theorem someLargeLevel : 1 ≤ 14 := by
  decide

theorem basicBlock_holdsHeader : sizeofBlockHeader ≤ 2 ^ 17 := by
  decide

theorem largeLevels_fitInt : 17 + 14 ≤ 31 := by
  decide

/-- The layout of the allocator over a region: 128 KiB to 1 GiB. -/
def layoutAt (base : Nat) : BuddyLayout where
  start := base + pageSize
  basicBits := 17
  levels := 14
  count := 1
  positive := arenaStart_positive base
  someLevel := someLargeLevel
  holdsHeader := basicBlock_holdsHeader
  fitsInt := largeLevels_fitInt

/-- The round of `alloc` that expands the region and inserts a block. -/
def expand (layout : BuddyLayout) (large : Large) : Option (Nat × Large) := do
  let (ret, region) ←
    large.region.nvmRegionAllocator pageSize minSbRegionSize
  let buddy :=
    (large.buddy.setHeader ret
      { free := true, blockSize := large.maxBlockSize, next := 0 }).insert
        (layout.levels - 1) ret
  return (ret, { large with region := region, buddy := buddy })

/-- What a round of a call does. -/
inductive Round where
  | call (call : Buddy.Call)
  /-- `alloc(length)` finds no block and expands. -/
  | expand (length : Int)

/-- One round of a call under the lock of `BuddyManager`. -/
inductive Step (layout : BuddyLayout) : Large → Round → Large → Prop where
  | call
      {large : Large}
      {call : Buddy.Call}
      {buddy : Buddy}
      (step : Buddy.Step layout large.buddy call buddy) :
      Step layout large (.call call) { large with buddy := buddy }
  | expand
      {large large' : Large}
      {length : Int}
      {ret : Nat}
      (none :
        Buddy.findLevel layout large.buddy length 0 layout.levels = none)
      (expanded : expand layout large = some (ret, large')) :
      Step layout large (.expand length) large'

/-- The first run: the file is new and holds one maximal block. -/
def Initial (base size : Nat) (large : Large) : Prop :=
  createRegion base size = some large.region ∧
    Buddy.Initial (layoutAt base) large.buddy

/-- The new block is mapped, has the size of its list and is aligned to it. -/
structure SoundExpansion
    (layout : BuddyLayout)
    (base ret : Nat)
    (after : Large) : Prop where
  mapped : ret + minSbRegionSize ≤ base + mappedLength
  size : (after.buddy.header ret).blockSize = layout.maxBlockSize
  aligned : (ret - layout.start) % layout.maxBlockSize = 0

/-- `curr_addr` lies whole gigabytes behind the reserved page. -/
def Grown (base : Nat) (region : Region) : Prop :=
  region.base = base ∧
    ∃ gigabytes,
      1 ≤ gigabytes ∧
        pageSize + gigabytes * minSbRegionSize ≤ 2 ^ 47 ∧
        region.currAddrWord =
          toPptrOff (base + (pageSize + gigabytes * minSbRegionSize)) base

/-- The address where `curr_addr` points. -/
theorem Grown.currAddr
    {base : Nat}
    {region : Region}
    (grown : Grown base region)
    (userSpace : base ≤ 2 ^ 47) :
    ∃ gigabytes,
      1 ≤ gigabytes ∧
        region.currAddr =
          base + (pageSize + gigabytes * minSbRegionSize) := by
  obtain ⟨isBase, gigabytes, some, bounded, word⟩ := grown
  refine ⟨gigabytes, some, ?_⟩
  unfold Region.currAddr
  rw [word, isBase]
  simp only [pageSize, minSbRegionSize] at *
  rw [Region.fromPptrOff_relocated (by omega) (by omega) (by omega)]
  omega

/-- An expansion starts at `curr_addr` and moves it by a gigabyte. -/
theorem Grown.expand
    {base ret : Nat}
    {region after : Region}
    (grown : Grown base region)
    (mapped : Mappable base mappedLength)
    (small : region.fileSize ≤ 2 ^ 46)
    (allocated :
      region.nvmRegionAllocator pageSize minSbRegionSize =
        some (ret, after)) :
    Grown base after ∧
      after.fileSize = region.fileSize ∧
      ∃ gigabytes,
        1 ≤ gigabytes ∧
          ret = base + (pageSize + gigabytes * minSbRegionSize) := by
  have pages := mapped.pageAligned
  have userSpace := mapped.userSpace
  have isBase := grown.1
  obtain ⟨gigabytes, some, currShape⟩ := grown.currAddr (by omega)
  obtain ⟨resShape, inside, -, afterShape⟩ :=
    Region.nvmRegionAllocator_spec 12 allocated
  have bounds := Region.alignUp_pow region.currAddr 12
  rw [← resShape, currShape] at bounds
  have retShape : ret = base + (pageSize + gigabytes * minSbRegionSize) := by
    simp only [pageSize, minSbRegionSize] at *
    omega
  rw [afterShape]
  refine ⟨⟨isBase, gigabytes + 1, by omega, ?_, ?_⟩, rfl, gigabytes, some,
    retShape⟩
  · rw [isBase] at inside
    simp only [pageSize, minSbRegionSize] at *
    omega
  · have next :
        ret + minSbRegionSize =
          base + (pageSize + (gigabytes + 1) * minSbRegionSize) := by
      rw [retShape, Nat.add_mul, Nat.one_mul, Nat.add_assoc, Nat.add_assoc]
    rw [← next, ← isBase]

/-- The words of the new region: one gigabyte behind its reserved page. -/
theorem createRegion_words
    {base size : Nat}
    {region : Region}
    (mapped : Mappable base mappedLength)
    (created : createRegion base size = some region) :
    region =
      { base := base
        fileSize := overwrittenFileSize size
        currAddrWord := toPptrOff (base + (pageSize + minSbRegionSize)) base
        heapStartWord := pageSize } := by
  unfold createRegion at created
  simp only [bind, Option.bind_eq_some_iff, pure, Option.some.injEq,
    Prod.exists] at created
  obtain ⟨root, first, allocated, rfl⟩ := created
  obtain ⟨-, -, -, isBase, -, word⟩ :=
    HeapRegions.fresh_expansion 6 mapped allocated
  obtain ⟨rootShape, -⟩ := Region.nvmRegionAllocator_spec 6 allocated
  have bounds :=
    Region.alignUp_pow (Region.map base minSbRegionSize).currAddr 6
  have pages := mapped.pageAligned
  rw [← rootShape, HeapRegions.map_currAddr mapped] at bounds
  have isRoot : root - base = pageSize := by
    simp only [pageSize] at *
    omega
  rw [isRoot] at word
  simp only [Region.storeHeapStart, isBase, isRoot, word]

/-- The new region has grown by its first gigabyte. -/
theorem createRegion_grown
    {base size : Nat}
    {region : Region}
    (mapped : Mappable base mappedLength)
    (created : createRegion base size = some region) :
    Grown base region ∧ region.fileSize = overwrittenFileSize size := by
  rw [createRegion_words mapped created]
  refine ⟨⟨rfl, 1, Nat.le_refl _, by decide, ?_⟩, rfl⟩
  rw [Nat.one_mul]

/-- What a run knows about the region. -/
structure Inv (base size : Nat) (large : Large) : Prop where
  grown : Grown base large.region
  fileSize : large.region.fileSize = overwrittenFileSize size

/-- Half of an accepted size lies far below the limit of user space. -/
theorem overwrittenFileSize_le
    {size : Nat}
    (accepted : size < maxSbRegionSize) :
    overwrittenFileSize size ≤ 2 ^ 46 := by
  unfold overwrittenFileSize
  simp only [maxSbRegionSize, sbSize, pageSize, maxDescAmountBits] at *
  omega

variable {layout : BuddyLayout} {base size ret : Nat}
variable {large large' : Large}

/-- An expansion of the region, and where its block lies. -/
theorem Inv.expand
    (inv : Inv base size large)
    (mapped : Mappable base mappedLength)
    (accepted : size < maxSbRegionSize)
    (expanded : Large.expand layout large = some (ret, large')) :
    Inv base size large' ∧
      ∃ gigabytes,
        1 ≤ gigabytes ∧
          ret = base + (pageSize + gigabytes * minSbRegionSize) := by
  unfold Large.expand at expanded
  simp only [bind, Option.bind_eq_some_iff, pure, Option.some.injEq,
    Prod.exists] at expanded
  obtain ⟨root, region, allocated, same⟩ := expanded
  obtain ⟨rfl, rfl⟩ := Prod.mk.inj same
  obtain ⟨grown, sameSize, place⟩ :=
    inv.grown.expand mapped
      (inv.fileSize ▸ overwrittenFileSize_le accepted) allocated
  exact ⟨⟨grown, sameSize.trans inv.fileSize⟩, place⟩

/-- The region in every state of every run. -/
theorem Inv.of_reaches
    (mapped : Mappable base mappedLength)
    (accepted : size < maxSbRegionSize)
    (reached : Reaches (Initial base size) (Step layout) large) :
    Inv base size large := by
  refine reached.invariant ?_ ?_
  · intro first fresh
    obtain ⟨grown, fileSize⟩ := createRegion_grown mapped fresh.1
    exact ⟨grown, fileSize⟩
  · intro before round after inv step
    cases step with
    | call _ => exact ⟨inv.grown, inv.fileSize⟩
    | expand _ expanded => exact (inv.expand mapped accepted expanded).1

/--
No expansion is sound: whatever the run did before, the gigabyte that `alloc`
adds ends behind the mapping of the file.
-/
theorem expansion_unsound
    (mapped : Mappable base mappedLength)
    (accepted : minSbRegionSize ≤ size ∧ size < maxSbRegionSize)
    (reached :
      Reaches (Initial base size) (Step (layoutAt base)) large)
    (expanded : Large.expand (layoutAt base) large = some (ret, large')) :
    ¬ SoundExpansion (layoutAt base) base ret large' := by
  rintro ⟨inside, -, -⟩
  obtain ⟨-, gigabytes, some, place⟩ :=
    (Inv.of_reaches mapped accepted.2 reached).expand mapped accepted.2
      expanded
  have length : mappedLength = minSbRegionSize + 2 * pageSize := by
    decide
  rw [place, length] at inside
  simp only [pageSize, minSbRegionSize] at inside
  omega

/-- The large-object region of a new heap of 8 GiB. -/
def exampleRegion : Region :=
  (createRegion (2 ^ 40) (2 ^ 33)).getD (Region.map 0 0)

/-- Its allocator, with a zero left in the member `max_block_size`. -/
def exampleLarge : Large where
  region := exampleRegion
  buddy :=
    Buddy.create (layoutAt (2 ^ 40)) fun _ =>
      { free := false, blockSize := 0, next := 0 }
  maxBlockSize := 0

/-- The example starts a first run. -/
theorem exampleLarge_initial : Initial (2 ^ 40) (2 ^ 33) exampleLarge := by
  have created :
      createRegion (2 ^ 40) (2 ^ 33) = some exampleLarge.region := by
    decide +kernel
  have fresh : Buddy.Initial (layoutAt (2 ^ 40)) exampleLarge.buddy :=
    ⟨_, rfl⟩
  exact ⟨created, fresh⟩

/-- A first object takes the whole gigabyte; a second one finds no list, and
the region has room for another gigabyte. -/
theorem example_rounds :
    ∃ buddy large',
      Buddy.Step (layoutAt (2 ^ 40)) exampleLarge.buddy (.alloc (2 ^ 30 - 16))
          buddy ∧
        Buddy.findLevel (layoutAt (2 ^ 40)) buddy (2 ^ 30 - 16) 0
          (layoutAt (2 ^ 40)).levels = none ∧
        Large.expand (layoutAt (2 ^ 40)) { exampleLarge with buddy := buddy } =
          some (2 ^ 40 + pageSize + 2 ^ 30, large') := by
  have executed :
      (Buddy.execute (layoutAt (2 ^ 40)) exampleLarge.buddy
          (.alloc (2 ^ 30 - 16))).map
        (fun buddy =>
          (Buddy.findLevel (layoutAt (2 ^ 40)) buddy (2 ^ 30 - 16) 0
              (layoutAt (2 ^ 40)).levels,
            (Large.expand (layoutAt (2 ^ 40))
              { exampleLarge with buddy := buddy }).map Prod.fst)) =
        some (none, some (2 ^ 40 + pageSize + 2 ^ 30)) := by
    decide +kernel
  obtain ⟨buddy, allocated, facts⟩ := Option.map_eq_some_iff.mp executed
  simp only [Prod.mk.injEq] at facts
  obtain ⟨none, place⟩ := facts
  obtain ⟨⟨ret, large'⟩, expanded, isPlace⟩ := Option.map_eq_some_iff.mp place
  change ret = _ at isPlace
  rw [isPlace] at expanded
  exact ⟨buddy, large', Buddy.execute_step allocated, none, expanded⟩

/-- The first object and the expansion as steps of a run. -/
theorem example_expands :
    ∃ large large',
      Reaches (Initial (2 ^ 40) (2 ^ 33)) (Step (layoutAt (2 ^ 40))) large ∧
        Step (layoutAt (2 ^ 40)) large (.expand (2 ^ 30 - 16)) large' ∧
        Large.expand (layoutAt (2 ^ 40)) large =
          some (2 ^ 40 + pageSize + 2 ^ 30, large') := by
  obtain ⟨buddy, large', allocated, none, expanded⟩ := example_rounds
  have reached :
      Reaches (Initial (2 ^ 40) (2 ^ 33)) (Step (layoutAt (2 ^ 40)))
        { exampleLarge with buddy := buddy } :=
    (Reaches.start exampleLarge_initial).next (.call allocated)
  exact ⟨_, large', reached, .expand none expanded, expanded⟩

/-- The mapping of the example. -/
theorem example_mapped : Mappable (2 ^ 40) mappedLength :=
  ⟨by decide, by decide, by decide⟩

/-- The expansion of the example is not sound. -/
theorem expansion_unsound_8GiB :
    ∃ large large',
      Reaches (Initial (2 ^ 40) (2 ^ 33)) (Step (layoutAt (2 ^ 40))) large ∧
        Large.expand (layoutAt (2 ^ 40)) large =
          some (2 ^ 40 + pageSize + 2 ^ 30, large') ∧
        ¬ SoundExpansion (layoutAt (2 ^ 40)) (2 ^ 40)
          (2 ^ 40 + pageSize + 2 ^ 30) large' := by
  obtain ⟨large, large', reached, -, expanded⟩ := example_expands
  exact ⟨large, large', reached, expanded,
    expansion_unsound example_mapped ⟨by decide, by decide⟩ reached expanded⟩

/-- The second gigabyte of an 8 GiB heap ends behind the mapped bytes. -/
theorem second_gigabyte_unmapped :
    ∃ large large',
      Reaches (Initial (2 ^ 40) (2 ^ 33)) (Step (layoutAt (2 ^ 40))) large ∧
        Step (layoutAt (2 ^ 40)) large (.expand (2 ^ 30 - 16)) large' ∧
        Large.expand (layoutAt (2 ^ 40)) large =
          some (2 ^ 40 + pageSize + 2 ^ 30, large') ∧
        ¬ SoundExpansion (layoutAt (2 ^ 40)) (2 ^ 40)
          (2 ^ 40 + pageSize + 2 ^ 30) large' := by
  obtain ⟨large, large', reached, step, expanded⟩ := example_expands
  refine ⟨large, large', reached, step, expanded, ?_⟩
  rintro ⟨inside, -, -⟩
  revert inside
  decide

end Large

end Bxalloc
