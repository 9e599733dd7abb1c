import Bxalloc.RegionManager
import Bxalloc.Lib.Reach

namespace Bxalloc

/-!
# Descriptors and superblocks across remappings

`desc_lookup` turns any address of the superblock region into the descriptor of
its superblock, and `sb_lookup` turns a descriptor back into a superblock.
Both subtract shifted absolute addresses.  The heap start of the superblock
region is aligned to `SBSIZE` as an absolute address of the first run, but it
is stored as an offset, so later runs see it at whatever residue their mapping
base has.
-/

/-- Subtraction of `uint64_t` values. -/
def u64Sub (left right : Nat) : Nat :=
  (left + (2 ^ 64 - right)) % 2 ^ 64

/-- Without borrow, 64-bit subtraction is subtraction. -/
theorem u64Sub_of_le
    {left right : Nat}
    (ordered : right ≤ left)
    (fits : left < 2 ^ 64) :
    u64Sub left right = left - right := by
  unfold u64Sub
  omega

/-- `sb_index` of `desc_lookup`. -/
def sbIndex (sbStart ptr : Nat) : Nat :=
  u64Sub (ptr >>> sbShift) (sbStart >>> sbShift)

/-- `desc_index` of `sb_lookup` and `organize_sb_list`. -/
def descIndex (descStart desc : Nat) : Nat :=
  u64Sub (desc >>> descShift) (descStart >>> descShift)

/-- `desc_lookup`: the address of the descriptor of the superblock at `ptr`. -/
def descLookup (sbStart descStart ptr : Nat) : Nat :=
  (descStart + sbIndex sbStart ptr * descSize) % 2 ^ 64

/-- `sb_lookup`: the superblock of a descriptor. -/
def sbLookup (sbStart descStart desc : Nat) : Nat :=
  (sbStart + descIndex descStart desc <<< sbShift) % 2 ^ 64

/-- With an aligned heap start, every byte of superblock `k` has index `k`. -/
theorem sbIndex_of_aligned
    {sbStart k d : Nat}
    (aligned : sbStart % sbSize = 0)
    (inside : d < sbSize)
    (fits : sbStart + k * sbSize + d < 2 ^ 64) :
    sbIndex sbStart (sbStart + k * sbSize + d) = k := by
  simp only [sbSize, pageSize] at aligned inside fits ⊢
  unfold sbIndex
  simp only [sbShift, Nat.shiftRight_eq_div_pow]
  rw [u64Sub_of_le (by omega) (by omega)]
  omega

/-- Descriptors sit at multiples of their size from an aligned start. -/
theorem descIndex_of_aligned
    {descStart k : Nat}
    (aligned : descStart % descSize = 0)
    (fits : descStart + k * descSize < 2 ^ 64) :
    descIndex descStart (descStart + k * descSize) = k := by
  simp only [descSize, cachelineSize] at aligned fits ⊢
  unfold descIndex
  simp only [descShift, Nat.shiftRight_eq_div_pow]
  rw [u64Sub_of_le (by omega) (by omega)]
  omega

/-- Addresses `mmap` may return: page aligned, with the file below `2 ^ 47`. -/
structure Mappable (base fileSize : Nat) : Prop where
  pageAligned : base % pageSize = 0
  positive : 0 < base
  userSpace : base + fileSize ≤ 2 ^ 47

/-- The superblock region and the descriptor region of one run. -/
structure HeapRegions where
  sb : Region
  desc : Region
  deriving Repr, DecidableEq

namespace HeapRegions

/-- `lookup(SB_IDX)`. -/
def sbStart (regions : HeapRegions) : Nat :=
  regions.sb.fetchHeapStart

/-- `lookup(DESC_IDX)`. -/
def descStart (regions : HeapRegions) : Nat :=
  regions.desc.fetchHeapStart

/--
The first run: both files are created, the descriptor region is expanded
immediately with cache-line alignment, and the warm-up of `BaseMeta` expands
the superblock region with alignment `SBSIZE`.
-/
def create
    (sbBase descBase numSb : Nat) :
    Option HeapRegions := do
  let descSpace := numSb * descSize
  let (descRoot, desc) ←
    (Region.map descBase descSpace).nvmRegionAllocator
      cachelineSize descSpace
  let (sbRoot, sb) ←
    (Region.map sbBase (numSb * sbSize)).nvmRegionAllocator
      sbSize sbRegionExpandSize
  return {
    sb := sb.storeHeapStart sbRoot
    desc := desc.storeHeapStart descRoot
  }

/-- What happens to the two regions after the first run started. -/
inductive Event where
  /-- `small_sb_alloc` expands the superblock region. -/
  | expand
  /-- A later run maps the two files again. -/
  | restart (sbBase descBase : Nat)

/-- One expansion of the running heap, or one restart of the program. -/
inductive Step : HeapRegions → Event → HeapRegions → Prop where
  | expand
      {regions : HeapRegions}
      {res : Nat}
      {sb : Region}
      (expanded :
        regions.sb.nvmRegionAllocator pageSize sbRegionExpandSize =
          some (res, sb)) :
      Step regions .expand { regions with sb := sb }
  | restart
      {regions : HeapRegions}
      {sbBase descBase : Nat}
      (sbMapped : Mappable sbBase regions.sb.fileSize)
      (descMapped : Mappable descBase regions.desc.fileSize) :
      Step regions (.restart sbBase descBase)
        { sb := regions.sb.remap sbBase
          desc := regions.desc.remap descBase }

/-- A heap created at the given bases, in addresses `mmap` may return. -/
def Created
    (sbBase descBase numSb : Nat)
    (regions : HeapRegions) : Prop :=
  create sbBase descBase numSb = some regions ∧
    Mappable sbBase regions.sb.fileSize ∧
    Mappable descBase regions.desc.fileSize

/-- Superblock `k` lies between the heap start and `curr_addr`. -/
def Contains (regions : HeapRegions) (k : Nat) : Prop :=
  regions.sbStart + (k + 1) * sbSize ≤ regions.sb.currAddr

/--
Both lookups are right for every byte of every superblock of the region: the
descriptor of any address in superblock `k` is descriptor `k`, and the
superblock of descriptor `k` is superblock `k`.
-/
def LookupsAgree (regions : HeapRegions) : Prop :=
  ∀ k d,
    regions.Contains k →
    d < sbSize →
    descLookup regions.sbStart regions.descStart
        (regions.sbStart + k * sbSize + d) =
      regions.descStart + k * descSize ∧
    sbLookup regions.sbStart regions.descStart
        (regions.descStart + k * descSize) =
      regions.sbStart + k * sbSize

/--
What the two first pages say in every run: the heap start of the superblock
region is aligned relative to the base of the *first* run, the descriptors
start on a cache line, and at least one superblock has been handed out.
-/
structure Placed (firstBase : Nat) (regions : HeapRegions) : Prop where
  sbMapped : Mappable regions.sb.base regions.sb.fileSize
  descMapped : Mappable regions.desc.base regions.desc.fileSize
  sbHeapStart : (firstBase + regions.sb.heapStartWord) % sbSize = 0
  descHeapStart : regions.desc.heapStartWord % descSize = 0
  descHeapStartInside :
    regions.desc.heapStartWord ≤ regions.desc.fileSize
  used :
    ∃ currOff,
      regions.sb.currAddrWord =
        toPptrOff (regions.sb.base + currOff) regions.sb.base ∧
      regions.sb.heapStartWord + sbSize ≤ currOff ∧
      currOff ≤ regions.sb.fileSize

/-- The word of `curr_addr` decodes to the same offset at every base. -/
theorem currAddr_of_word
    {region : Region}
    {writtenAt currOff : Nat}
    (written :
      region.currAddrWord = toPptrOff (writtenAt + currOff) writtenAt)
    (positive : 0 < currOff)
    (inFile : currOff ≤ region.fileSize)
    (mapped : Mappable region.base region.fileSize) :
    region.currAddr = region.base + currOff := by
  have userSpace := mapped.userSpace
  unfold Region.currAddr
  rw [written, Region.fromPptrOff_relocated (by omega) (by omega) (by omega)]
  omega

/-- Encoding at the base depends only on the offset. -/
theorem toPptrOff_offset
    {base other currOff : Nat}
    (positive : 0 < currOff)
    (near : currOff < 2 ^ 48) :
    toPptrOff (base + currOff) base =
      toPptrOff (other + currOff) other := by
  unfold toPptrOff
  rw [if_neg (by omega), if_pos (by omega), if_neg (by omega),
    if_pos (by omega), Nat.add_sub_cancel_left, Nat.add_sub_cancel_left]

/-- `curr_addr` of a fresh file points behind its reserved page. -/
theorem map_currAddr
    {base size : Nat}
    (mapped : Mappable base (Region.fileSizeFor size)) :
    (Region.map base size).currAddr = base + 4096 := by
  have userSpace := mapped.userSpace
  have twoPages : 2 * pageSize ≤ Region.fileSizeFor size :=
    Nat.mul_le_mul_right pageSize (Nat.le_add_left 2 (size / pageSize))
  simp only [pageSize] at twoPages
  simp only [Region.currAddr, Region.map, pageSize]
  rw [Region.fromPptrOff_relocated (by omega) (by omega) (by omega)]
  omega

/-- The first expansion of a fresh file starts after its reserved page. -/
theorem fresh_expansion
    {base size want res : Nat}
    {after : Region}
    (bits : Nat)
    (mapped : Mappable base (Region.fileSizeFor size))
    (given :
      (Region.map base size).nvmRegionAllocator (2 ^ bits) want =
        some (res, after)) :
    res % 2 ^ bits = 0 ∧
      base < res ∧
      res + want ≤ base + Region.fileSizeFor size ∧
      after.base = base ∧
      after.fileSize = Region.fileSizeFor size ∧
      after.currAddrWord =
        toPptrOff (base + (res - base + want)) base := by
  obtain ⟨resShape, inside, -, afterShape⟩ :=
    Region.nvmRegionAllocator_spec bits given
  have userSpace := mapped.userSpace
  have aligned := Region.alignUp_pow (Region.map base size).currAddr bits
  rw [← resShape, map_currAddr mapped] at aligned
  have sameEnd : res + want = base + (res - base + want) := by
    omega
  rw [afterShape]
  refine ⟨aligned.1, by omega, inside, rfl, rfl, ?_⟩
  simp only [Region.map]
  rw [sameEnd]

/-- The first run leaves both regions well placed. -/
theorem Created.placed
    {sbBase descBase numSb : Nat}
    {regions : HeapRegions}
    (created : Created sbBase descBase numSb regions) :
    Placed sbBase regions := by
  obtain ⟨success, sbMapped, descMapped⟩ := created
  simp only [create, bind, Option.bind_eq_some_iff, pure,
    Option.some.injEq, Prod.exists] at success
  obtain ⟨descRoot, desc, descGiven, sbRoot, sb, sbGiven, shape⟩ := success
  subst shape
  simp only [Region.storeHeapStart] at sbMapped descMapped
  have sbFile : sb.fileSize = Region.fileSizeFor (numSb * sbSize) := by
    rw [(Region.nvmRegionAllocator_spec 16 sbGiven).2.2.2]
    rfl
  have descFile : desc.fileSize = Region.fileSizeFor (numSb * descSize) := by
    rw [(Region.nvmRegionAllocator_spec 6 descGiven).2.2.2]
    rfl
  rw [sbFile] at sbMapped
  rw [descFile] at descMapped
  obtain ⟨sbAligned, sbAhead, sbInside, sbBaseShape, -, sbWord⟩ :=
    fresh_expansion 16 sbMapped sbGiven
  obtain ⟨descAligned, descAhead, descInside, descBaseShape, -, -⟩ :=
    fresh_expansion 6 descMapped descGiven
  have descPage := descMapped.pageAligned
  simp only [pageSize] at descPage
  have expansion : sbSize ≤ sbRegionExpandSize := by decide
  refine ⟨?_, ?_, ?_, ?_, ?_, ?_⟩
  · simpa only [Region.storeHeapStart, sbBaseShape, sbFile] using sbMapped
  · simpa only [Region.storeHeapStart, descBaseShape, descFile]
      using descMapped
  · simp only [Region.storeHeapStart, sbBaseShape, sbSize, pageSize]
    omega
  · simp only [Region.storeHeapStart, descBaseShape, descSize,
      cachelineSize]
    omega
  · simp only [Region.storeHeapStart, descBaseShape, descFile]
    omega
  · refine ⟨sbRoot - sbBase + sbRegionExpandSize, ?_, ?_, ?_⟩
    · simp only [Region.storeHeapStart, sbBaseShape, sbWord]
    · simp only [Region.storeHeapStart, sbBaseShape]
      omega
    · simp only [Region.storeHeapStart, sbFile]
      omega

/-- Expansions and restarts keep the regions well placed. -/
theorem Placed.step
    {firstBase : Nat}
    {before after : HeapRegions}
    {event : Event}
    (placed : Placed firstBase before)
    (stepped : Step before event after) :
    Placed firstBase after := by
  obtain ⟨currOff, written, lower, upper⟩ := placed.used
  have positive : 0 < currOff := by
    simp only [sbSize, pageSize] at lower
    omega
  cases stepped with
  | @expand res sb expanded =>
      obtain ⟨resShape, inside, -, afterShape⟩ :=
        Region.nvmRegionAllocator_spec 12 expanded
      have ahead : before.sb.base + currOff ≤ res := by
        rw [resShape,
          ← currAddr_of_word written positive upper placed.sbMapped]
        exact (Region.alignUp_pow before.sb.currAddr 12).2.1
      have sbBase : sb.base = before.sb.base := by
        rw [afterShape]
      have sbFile : sb.fileSize = before.sb.fileSize := by
        rw [afterShape]
      have sbStart : sb.heapStartWord = before.sb.heapStartWord := by
        rw [afterShape]
      have sbWord :
          sb.currAddrWord =
            toPptrOff (res + sbRegionExpandSize) before.sb.base := by
        rw [afterShape]
      have sameEnd :
          res + sbRegionExpandSize =
            before.sb.base +
              (res + sbRegionExpandSize - before.sb.base) := by
        omega
      refine ⟨?_, placed.descMapped, ?_, placed.descHeapStart,
        placed.descHeapStartInside, ?_⟩
      · simpa only [sbBase, sbFile] using placed.sbMapped
      · simpa only [sbStart] using placed.sbHeapStart
      · refine
          ⟨res + sbRegionExpandSize - before.sb.base, ?_, ?_, ?_⟩
        · simp only [sbBase, sbWord]
          rw [← sameEnd]
        · simp only [sbStart]
          omega
        · simp only [sbFile]
          omega
  | @restart sbBase descBase sbMapped descMapped =>
      refine ⟨sbMapped, descMapped, placed.sbHeapStart,
        placed.descHeapStart, placed.descHeapStartInside, ?_⟩
      refine ⟨currOff, ?_, lower, upper⟩
      have userSpace := placed.sbMapped.userSpace
      simp only [Region.remap, written]
      exact toPptrOff_offset positive (by omega)

/-- Lookups agree in a well placed heap exactly when its heap start is aligned. -/
theorem Placed.lookupsAgree_iff
    {firstBase : Nat}
    {regions : HeapRegions}
    (placed : Placed firstBase regions) :
    regions.LookupsAgree ↔ regions.sbStart % sbSize = 0 := by
  obtain ⟨currOff, written, lower, upper⟩ := placed.used
  have positive : 0 < currOff := by
    simp only [sbSize, pageSize] at lower
    omega
  have currAddr :=
    currAddr_of_word written positive upper placed.sbMapped
  have sbUser := placed.sbMapped.userSpace
  have descUser := placed.descMapped.userSpace
  have descPage := placed.descMapped.pageAligned
  have descStartAligned := placed.descHeapStart
  have descInside := placed.descHeapStartInside
  have descShape :
      regions.descStart =
        regions.desc.heapStartWord + regions.desc.base := rfl
  have sbShape :
      regions.sbStart =
        regions.sb.heapStartWord + regions.sb.base := rfl
  simp only [pageSize] at descPage
  simp only [descSize, cachelineSize] at descStartAligned
  constructor
  · intro agree
    by_contra misaligned
    have firstInside : regions.Contains 0 := by
      unfold Contains
      rw [currAddr, sbShape]
      omega
    -- The first address of the next 64 KiB window still belongs to superblock 0.
    let residue := regions.sbStart % sbSize
    have residueShape : residue = regions.sbStart % sbSize := rfl
    have residueLt : residue < sbSize := Nat.mod_lt _ (by decide)
    have wrong :=
      (agree 0 (sbSize - residue) firstInside (by omega)).1
    have index :
        sbIndex regions.sbStart
            (regions.sbStart + 0 * sbSize + (sbSize - residue)) = 1 := by
      simp only [sbSize, pageSize] at residueShape residueLt ⊢
      unfold sbIndex
      simp only [sbShift, Nat.shiftRight_eq_div_pow]
      rw [u64Sub_of_le (by omega) (by omega)]
      omega
    unfold descLookup at wrong
    rw [index] at wrong
    simp only [descSize, cachelineSize] at wrong
    omega
  · intro aligned k d contained inside
    unfold Contains at contained
    rw [currAddr] at contained
    have bound : (k + 1) * sbSize ≤ 2 ^ 47 := by
      omega
    simp only [sbSize, pageSize] at bound
    have sbFits :
        regions.sbStart + k * sbSize + d < 2 ^ 64 := by
      simp only [sbSize, pageSize] at inside contained ⊢
      omega
    have descFits :
        regions.descStart + k * descSize < 2 ^ 64 := by
      simp only [descSize, cachelineSize]
      omega
    have descAligned : regions.descStart % descSize = 0 := by
      simp only [descSize, cachelineSize]
      omega
    constructor
    · unfold descLookup
      rw [sbIndex_of_aligned aligned inside sbFits]
      exact Nat.mod_eq_of_lt descFits
    · unfold sbLookup
      rw [descIndex_of_aligned descAligned descFits, Nat.shiftLeft_eq]
      have same : k * 2 ^ sbShift = k * sbSize := rfl
      rw [same]
      exact Nat.mod_eq_of_lt (by omega)

/--
In every run of the heap, the lookups are right exactly when the superblock
file is mapped at the residue modulo `SBSIZE` it had in the first run.
-/
theorem lookupsAgree_iff_base_congruent
    {sbBase descBase numSb : Nat}
    {regions : HeapRegions}
    (reached :
      Lib.Reaches (Created sbBase descBase numSb) Step regions) :
    regions.LookupsAgree ↔
      regions.sb.base % sbSize = sbBase % sbSize := by
  have placed : Placed sbBase regions :=
    reached.invariant
      (fun _ created => created.placed)
      (fun _ _ _ placed stepped => placed.step stepped)
  rw [placed.lookupsAgree_iff]
  have sbHeapStart := placed.sbHeapStart
  have sbShape :
      regions.sbStart =
        regions.sb.heapStartWord + regions.sb.base := rfl
  simp only [sbSize, pageSize] at sbHeapStart ⊢
  omega

/-- The heap of 32768 superblocks created at page `0x7f0000001000`. -/
def createdHeap : HeapRegions where
  sb := {
    base := 0x7f0000001000
    fileSize := 0x80002000
    currAddrWord := 0x4000f00052b0
    heapStartWord := 0xf000
  }
  desc := {
    base := 0x7e0000000000
    fileSize := 0x202000
    currAddrWord := 0x20100052b0
    heapStartWord := 0x1000
  }

/-- `createdHeap` is what the first run leaves behind. -/
theorem createdHeap_created :
    Created 0x7f0000001000 0x7e0000000000 32768 createdHeap := by
  refine ⟨by decide +kernel, ⟨?_, ?_, ?_⟩, ⟨?_, ?_, ?_⟩⟩ <;>
    decide +kernel

/-- The same heap remapped one page below a multiple of `SBSIZE` later. -/
def remappedHeap : HeapRegions where
  sb := createdHeap.sb.remap 0x7f0000000000
  desc := createdHeap.desc

/-- A later run may map the superblock file at that address. -/
theorem remappedHeap_reached :
    Lib.Reaches
      (Created 0x7f0000001000 0x7e0000000000 32768)
      Step remappedHeap := by
  have stepped :
      Step createdHeap
        (.restart 0x7f0000000000 0x7e0000000000) remappedHeap :=
    .restart
      ⟨by decide, by decide, by decide⟩
      ⟨by decide, by decide, by decide⟩
  exact (Lib.Reaches.start createdHeap_created).next stepped

/-- In the first run of that heap the lookups agree. -/
theorem createdHeap_lookupsAgree :
    createdHeap.LookupsAgree ↔
      createdHeap.sb.base % sbSize = 0x7f0000001000 % sbSize :=
  lookupsAgree_iff_base_congruent (Lib.Reaches.start createdHeap_created)

/-- After the restart some address is attributed to the wrong descriptor. -/
theorem remappedHeap_lookups_disagree :
    ¬ ∀ sbBase descBase numSb regions,
      Lib.Reaches (Created sbBase descBase numSb) Step regions →
      regions.LookupsAgree := by
  intro always
  have agree :=
    (always _ _ _ remappedHeap remappedHeap_reached) 0 0x1000
      (by unfold Contains; decide +kernel) (by decide)
  exact absurd agree.1 (by decide +kernel)

end HeapRegions

end Bxalloc
