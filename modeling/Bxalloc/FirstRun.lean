import Bxalloc.LargeRegion

namespace Bxalloc

/-!
# The first run of a heap

`_BXP_init` creates five files.  The size of a file is the size of its region
rounded down to pages plus two pages, one of which is reserved.  The regions
for descriptors, large objects, the queue and the metadata are expanded at once
by their whole size; the superblock region is expanded by the constructor of
`BaseMeta`, with the heap start aligned to `SBSIZE` as an absolute address.
-/

/-- Where `mmap` puts the five files. -/
structure Bases where
  desc : Nat
  sb : Nat
  large : Nat
  queue : Nat
  basemd : Nat

/-- The sizes of the two objects that are placed in files of their own. -/
structure ObjectSizes where
  /-- `sizeof(_ArrayQueue<T,80000>)`. -/
  queue : Nat
  /-- `sizeof(BaseMeta)`. -/
  baseMeta : Nat
  queuePositive : 0 < queue
  baseMetaPositive : 0 < baseMeta

/-- The regions of a new heap. -/
structure FirstRun where
  heap : HeapRegions
  large : Region
  queue : Region
  basemd : Region

namespace FirstRun

/-- `num_sb`. -/
def numSb (size : Nat) : Nat :=
  size / sbSize

/-- `assert(size < MAX_SB_REGION_SIZE && size >= MIN_SB_REGION_SIZE)`. -/
def Accepted (size : Nat) : Prop :=
  minSbRegionSize ≤ size ∧ size < maxSbRegionSize

/-- The file of the queue and its first allocation. -/
def createQueue (base bytes : Nat) : Option Region := do
  let (root, region) ←
    (Region.map base bytes).nvmRegionAllocator pageSize bytes
  return region.storeHeapStart root

/-- `create_for<BaseMeta>`: the file of the metadata, expanded at once. -/
def createFor (base bytes : Nat) : Option Region := do
  let (root, region) ←
    (Region.map base bytes).nvmRegionAllocator cachelineSize bytes
  return region.storeHeapStart root

/-- `_BXP_init` for files that do not exist; `none` when an allocation fails. -/
def init (size : Nat) (objects : ObjectSizes) (bases : Bases) :
    Option FirstRun := do
  let heap ← HeapRegions.create bases.sb bases.desc (numSb size)
  let large ← Large.createRegion bases.large size
  let queue ← createQueue bases.queue objects.queue
  let basemd ← createFor bases.basemd objects.baseMeta
  return { heap := heap, large := large, queue := queue, basemd := basemd }

/-- Every file is mapped at an address that `mmap` may return. -/
structure Mapped
    (size : Nat)
    (objects : ObjectSizes)
    (bases : Bases) : Prop where
  desc : Mappable bases.desc (Region.fileSizeFor (numSb size * descSize))
  sb : Mappable bases.sb (Region.fileSizeFor (numSb size * sbSize))
  large : Mappable bases.large (Region.fileSizeFor minSbRegionSize)
  queue : Mappable bases.queue (Region.fileSizeFor objects.queue)
  basemd : Mappable bases.basemd (Region.fileSizeFor objects.baseMeta)

/-- A request with a usual alignment passes the parameter check. -/
theorem badRequest_eq
    {alignment size : Nat}
    (usual :
      alignment = cachelineSize ∨ alignment = pageSize ∨ alignment = sbSize)
    (positive : 0 < size) :
    Region.badRequest alignment size = false := by
  have nonzero : (size == 0) = false := by
    simp only [beq_eq_false_iff_ne]
    omega
  unfold Region.badRequest
  rw [nonzero]
  rcases usual with rfl | rfl | rfl <;> decide

/-- When the first allocation in a new file succeeds. -/
theorem fresh_expansion_iff
    {base size want alignment : Nat}
    (mapped : Mappable base (Region.fileSizeFor size))
    (usual :
      alignment = cachelineSize ∨ alignment = pageSize ∨ alignment = sbSize)
    (positive : 0 < want) :
    (∃ result,
      (Region.map base size).nvmRegionAllocator alignment want =
        some result) ↔
      Region.alignUp (base + 4096) alignment + want ≤
        base + Region.fileSizeFor size := by
  have isCurr := HeapRegions.map_currAddr mapped
  unfold Region.nvmRegionAllocator
  rw [badRequest_eq usual positive, isCurr]
  have limits :
      (Region.map base size).base + (Region.map base size).fileSize =
        base + Region.fileSizeFor size :=
    rfl
  simp only [limits, Bool.false_eq_true, if_false]
  split
  · next beyond =>
      simp only [reduceCtorEq, exists_false, false_iff]
      omega
  · next inside =>
      exact ⟨fun _ => Nat.le_of_not_lt inside, fun _ => ⟨_, rfl⟩⟩

/-- Page-aligned bases need no adjustment up to the size of a page. -/
theorem alignUp_page
    {base : Nat}
    (pages : base % pageSize = 0)
    {bits : Nat}
    (small : bits ≤ 12) :
    Region.alignUp (base + 4096) (2 ^ bits) = base + 4096 := by
  have divides : 2 ^ bits ∣ 2 ^ 12 := Nat.pow_dvd_pow 2 small
  have page : 2 ^ 12 ∣ base + 4096 := by
    simp only [pageSize] at pages
    omega
  exact Region.alignUp_of_aligned
    (Nat.mod_eq_zero_of_dvd (Nat.dvd_trans divides page))

/-- A region that is expanded by its whole size always fits in its file. -/
theorem whole_expansion
    {base size bits : Nat}
    (mapped : Mappable base (Region.fileSizeFor size))
    (usual : 2 ^ bits = cachelineSize ∨ 2 ^ bits = pageSize ∨ 2 ^ bits = sbSize)
    (small : bits ≤ 12)
    (positive : 0 < size) :
    ∃ result,
      (Region.map base size).nvmRegionAllocator (2 ^ bits) size =
        some result := by
  refine (fresh_expansion_iff mapped usual positive).mpr ?_
  rw [alignUp_page mapped.pageAligned small]
  unfold Region.fileSizeFor
  simp only [pageSize]
  omega

/-- The warm-up of `BaseMeta` in a file for `count` superblocks. -/
theorem warmup_iff
    {base count : Nat}
    (mapped : Mappable base (Region.fileSizeFor (count * sbSize))) :
    (∃ result,
      (Region.map base (count * sbSize)).nvmRegionAllocator sbSize
          sbRegionExpandSize = some result) ↔
      sbRegionExpandSize / sbSize + 1 ≤ count ∨
        sbRegionExpandSize / sbSize ≤ count ∧
          14 * pageSize ≤ base % sbSize := by
  have pages := mapped.pageAligned
  have bounds := Region.alignUp_pow (base + 4096) 16
  rw [fresh_expansion_iff mapped (.inr (.inr rfl)) (by decide)]
  rw [show sbRegionExpandSize / sbSize = 16384 from rfl]
  change Region.alignUp (base + 4096) (2 ^ 16) + 1073741824 ≤ _ ↔ _
  have sizes : Region.fileSizeFor (count * sbSize) = (count * 16 + 2) * 4096 := by
    unfold Region.fileSizeFor
    simp only [sbSize, pageSize]
    omega
  rw [sizes]
  simp only [sbSize, pageSize] at pages ⊢
  generalize Region.alignUp (base + 4096) (2 ^ 16) = res at bounds ⊢
  omega

/-- Both regions of the heap are created when the warm-up succeeds. -/
theorem create_iff
    {sbBase descBase count : Nat}
    (descMapped : Mappable descBase (Region.fileSizeFor (count * descSize)))
    (some : 0 < count) :
    (∃ regions, HeapRegions.create sbBase descBase count = .some regions) ↔
      ∃ result,
        (Region.map sbBase (count * sbSize)).nvmRegionAllocator sbSize
            sbRegionExpandSize = .some result := by
  have descBytes : 0 < count * descSize :=
    Nat.mul_pos some (by decide)
  obtain ⟨⟨descRoot, desc⟩, expanded⟩ :=
    @whole_expansion _ _ 6 descMapped (.inl rfl) (by decide) descBytes
  have isExpanded :
      (Region.map descBase (count * descSize)).nvmRegionAllocator
          cachelineSize (count * descSize) = .some (descRoot, desc) :=
    expanded
  unfold HeapRegions.create
  simp only [isExpanded]
  generalize
    (Region.map sbBase (count * sbSize)).nvmRegionAllocator sbSize
      sbRegionExpandSize = warmup
  constructor
  · rintro ⟨regions, created⟩
    cases warmup with
    | none => cases created
    | some result => exact ⟨result, rfl⟩
  · rintro ⟨result, rfl⟩
    exact ⟨_, rfl⟩

/-- The other three regions are always created. -/
theorem others_created
    {size : Nat}
    {objects : ObjectSizes}
    {bases : Bases}
    (mapped : Mapped size objects bases) :
    (∃ region, Large.createRegion bases.large size = some region) ∧
      (∃ region, createQueue bases.queue objects.queue = some region) ∧
      ∃ region, createFor bases.basemd objects.baseMeta = some region := by
  obtain ⟨large, largeExpanded⟩ :=
    @whole_expansion _ _ 6 mapped.large (.inl rfl) (by decide) (by decide)
  obtain ⟨queue, queueExpanded⟩ :=
    @whole_expansion _ _ 12 mapped.queue (.inr (.inl rfl)) (by decide)
      objects.queuePositive
  obtain ⟨basemd, basemdExpanded⟩ :=
    @whole_expansion _ _ 6 mapped.basemd (.inl rfl) (by decide)
      objects.baseMetaPositive
  refine ⟨?_, ?_, ?_⟩
  · unfold Large.createRegion
    rw [show cachelineSize = 2 ^ 6 from rfl, largeExpanded]
    exact ⟨_, rfl⟩
  · unfold createQueue
    rw [show pageSize = 2 ^ 12 from rfl, queueExpanded]
    exact ⟨_, rfl⟩
  · unfold createFor
    rw [show cachelineSize = 2 ^ 6 from rfl, basemdExpanded]
    exact ⟨_, rfl⟩

/--
The first run succeeds exactly when the heap is a superblock larger than the
smallest accepted size, or `mmap` puts the superblock file in one of the last
two pages before a multiple of `SBSIZE`.
-/
theorem initialised_iff
    {size : Nat}
    {objects : ObjectSizes}
    {bases : Bases}
    (accepted : Accepted size)
    (mapped : Mapped size objects bases) :
    (∃ run, init size objects bases = some run) ↔
      minSbRegionSize + sbSize ≤ size ∨
        14 * pageSize ≤ bases.sb % sbSize := by
  obtain ⟨⟨large, isLarge⟩, ⟨queue, isQueue⟩, basemd, isBasemd⟩ :=
    others_created mapped
  have whole :
      (∃ run, init size objects bases = some run) ↔
        ∃ regions,
          HeapRegions.create bases.sb bases.desc (numSb size) =
            some regions := by
    unfold init
    simp only [isLarge, isQueue, isBasemd, bind, Option.bind_some]
    constructor
    · rintro ⟨run, created⟩
      obtain ⟨regions, isHeap, -⟩ := Option.bind_eq_some_iff.mp created
      exact ⟨regions, isHeap⟩
    · rintro ⟨regions, isHeap⟩
      rw [isHeap]
      exact ⟨_, rfl⟩
  have atLeast := accepted.1
  have superblocks : sbRegionExpandSize / sbSize = 16384 := by
    decide
  have positive : 0 < numSb size := by
    unfold numSb
    simp only [minSbRegionSize, sbSize, pageSize] at *
    omega
  rw [whole, create_iff mapped.desc positive, warmup_iff mapped.sb,
    superblocks]
  unfold numSb
  simp only [minSbRegionSize, sbSize, pageSize] at *
  omega

theorem exampleObjects_queue : 0 < 1280192 := by
  decide

theorem exampleObjects_baseMeta : 0 < 18496 := by
  decide

/-- Object sizes for examples. -/
def exampleObjects : ObjectSizes where
  queue := 1280192
  baseMeta := 18496
  queuePositive := exampleObjects_queue
  baseMetaPositive := exampleObjects_baseMeta

/-- Five mappings far apart from each other. -/
def exampleBases : Bases where
  desc := 2 ^ 41
  sb := 2 ^ 42
  large := 2 ^ 43
  queue := 2 ^ 44
  basemd := 2 ^ 45

theorem exampleBases_mapped
    {size : Nat}
    (small : size ≤ 2 ^ 34) :
    Mapped size exampleObjects exampleBases := by
  have few : numSb size ≤ 2 ^ 18 := by
    unfold numSb
    simp only [sbSize, pageSize]
    omega
  refine ⟨⟨by decide, by decide, ?_⟩, ⟨by decide, by decide, ?_⟩,
    ⟨by decide, by decide, by decide⟩, ⟨by decide, by decide, by decide⟩,
    ⟨by decide, by decide, by decide⟩⟩
  · unfold Region.fileSizeFor exampleBases
    simp only [descSize, cachelineSize, pageSize]
    omega
  · unfold Region.fileSizeFor exampleBases
    simp only [sbSize, pageSize]
    omega

/-- A heap of 16 GiB is initialised. -/
theorem initialised_iff_16GiB :
    ∃ run, init (2 ^ 34) exampleObjects exampleBases = some run :=
  (initialised_iff ⟨by decide, by decide⟩
    (exampleBases_mapped (Nat.le_refl _))).mpr (.inl (by decide))

/-- A heap of exactly 1 GiB cannot warm up at a base aligned to `SBSIZE`. -/
theorem smallest_heap_not_initialised :
    Accepted (2 ^ 30) ∧
      Mapped (2 ^ 30) exampleObjects exampleBases ∧
      init (2 ^ 30) exampleObjects exampleBases = none := by
  refine ⟨⟨by decide, by decide⟩, exampleBases_mapped (by decide), ?_⟩
  have failed :
      HeapRegions.create exampleBases.sb exampleBases.desc
          (numSb (2 ^ 30)) = none := by
    decide +kernel
  unfold init
  rw [failed]
  rfl

end FirstRun

end Bxalloc
