import Bxalloc.BxpContents
import Bxalloc.Lib.LineRanges

namespace Bxalloc

/-!
# Bulk write-backs

`writeback`, the end of the garbage collection, `flush_region`, `BXP_realloc`
and `BXP_calloc` each write a range of bytes and flush afterwards.  A write-back
is given by the addresses of its `FLUSH` calls, in order; each flushes the cache
line its address lies in.

The two loops over `BaseMeta` advance the address before the flush, so they
start one line late and end one line behind the object.  `flush_region` flushes
before it advances.  The two calls that write a block flush its first line only.
-/

open Lib (ByteRange Covers Within strided lineCount)

/--
The loop of `BaseMeta::writeback` and of the collection's end: `i` counts the
bytes, and `addr` moves on before each flush.
-/
def advancingFlushes (sizeofBaseMeta i addr : Nat) : List Nat :=
  if i < sizeofBaseMeta then
    let addr := addr + cachelineSize
    addr :: advancingFlushes sizeofBaseMeta (i + cachelineSize) addr
  else
    []
termination_by sizeofBaseMeta - i
decreasing_by
  simp only [cachelineSize]
  omega

/-- `BaseMeta::writeback` on the object at `this`. -/
def writeback (this sizeofBaseMeta : Nat) : List Nat :=
  advancingFlushes sizeofBaseMeta 0 this

/-- The last loop of `GarbageCollection::operator()`. -/
def collectWriteback (baseMd sizeofBaseMeta : Nat) : List Nat :=
  advancingFlushes sizeofBaseMeta 0 baseMd

/-- The loop of `Regions::flush_region`. -/
def regionFlushes (addr ending : Nat) : List Nat :=
  if addr < ending then
    addr :: regionFlushes (addr + cachelineSize) ending
  else
    []
termination_by ending - addr
decreasing_by
  simp only [cachelineSize]
  omega

/-- `Regions::flush_region`: the region's start and its manager. -/
def flushRegion (regionsAddress : Nat) (target : Region) : List Nat :=
  let ending := target.currAddr
  regionFlushes regionsAddress ending

/-- Every `FLUSH` at the end of `GarbageCollection::operator()`. -/
def collectFlushes
    (regions : HeapRegions)
    (baseMd sizeofBaseMeta : Nat) : List Nat :=
  flushRegion regions.descStart regions.desc ++
    flushRegion regions.sbStart regions.sb ++
    collectWriteback baseMd sizeofBaseMeta

/-- The bytes a call wrote and the flushes that follow. -/
structure BulkWrite where
  range : ByteRange
  flushes : List Nat
  deriving Repr, DecidableEq

namespace Bxp

variable (pool : Pool)

/-- What `BXP_realloc` copies and flushes, when it gets as far as the copy. -/
def reallocWrite (thread ptr newSize : Nat) (state : Bxp) :
    Option BulkWrite :=
  if ptr = 0 then
    none
  else if ¬ state.inSb pool ptr then
    none
  else
    let oldSize := state.mallocSize pool ptr
    if oldSize = newSize then
      none
    else do
      let (newPtr, _) ← malloc pool thread newSize state
      if newPtr = 0 then
        none
      else
        return {
          range := ⟨newPtr, newPtr + oldSize⟩
          flushes := [newPtr]
        }

/-- What `BXP_calloc` clears and flushes, when its allocation succeeds. -/
def callocWrite (thread num size : Nat) (state : Bxp) : Option BulkWrite := do
  let (ptr, state) ← malloc pool thread (num * size % 2 ^ 64) state
  if ptr = 0 then
    none
  else
    let realSize := state.mallocSize pool ptr
    return {
      range := ⟨ptr, ptr + realSize⟩
      flushes := [ptr]
    }

end Bxp

/-- The flushes start one line behind the object and there is one for each of
its lines. -/
theorem advancingFlushes_eq
    (sizeofBaseMeta i addr : Nat) :
    advancingFlushes sizeofBaseMeta i addr =
      strided cachelineSize (addr + cachelineSize)
        (lineCount cachelineSize (sizeofBaseMeta - i)) := by
  fun_induction advancingFlushes sizeofBaseMeta i addr with
  | case1 i addr more next inductionHypothesis =>
      rw [Lib.lineCount_step (by decide) (by omega), Nat.sub_sub,
        Lib.strided_succ, inductionHypothesis]
  | case2 i addr done =>
      rw [Nat.sub_eq_zero_of_le (by omega), Lib.lineCount_zero (by decide)]
      rfl

/-- The flushes start at the region's start. -/
theorem regionFlushes_eq
    (addr ending : Nat) :
    regionFlushes addr ending =
      strided cachelineSize addr
        (lineCount cachelineSize (ending - addr)) := by
  fun_induction regionFlushes addr ending with
  | case1 addr more inductionHypothesis =>
      rw [Lib.lineCount_step (by decide) (by omega), Nat.sub_sub,
        Lib.strided_succ, inductionHypothesis]
  | case2 addr done =>
      rw [Nat.sub_eq_zero_of_le (by omega), Lib.lineCount_zero (by decide)]
      rfl

/-- A loop over `BaseMeta` covers the object, and only it, when there is none. -/
theorem advancingFlushes_exact_iff
    {addr : Nat}
    (sizeofBaseMeta : Nat)
    (aligned : addr % cachelineSize = 0) :
    Covers cachelineSize (advancingFlushes sizeofBaseMeta 0 addr)
          ⟨addr, addr + sizeofBaseMeta⟩ ∧
        Within cachelineSize (advancingFlushes sizeofBaseMeta 0 addr)
          ⟨addr, addr + sizeofBaseMeta⟩ ↔
      sizeofBaseMeta = 0 := by
  rw [advancingFlushes_eq, Nat.sub_zero,
    Lib.strided_late_covers (by decide) aligned,
    Lib.strided_late_within (by decide) aligned, and_self]

/-- `flush_region` covers the region up to `curr_addr`, and only it. -/
theorem flushRegion_exact
    {regionsAddress : Nat}
    (target : Region)
    (aligned : regionsAddress % cachelineSize = 0) :
    Covers cachelineSize (flushRegion regionsAddress target)
        ⟨regionsAddress, target.currAddr⟩ ∧
      Within cachelineSize (flushRegion regionsAddress target)
        ⟨regionsAddress, target.currAddr⟩ := by
  unfold flushRegion
  simp only [regionFlushes_eq]
  have exactly :=
    Lib.strided_exact (target.currAddr - regionsAddress)
      (by decide : 0 < cachelineSize) aligned
  by_cases ahead : regionsAddress ≤ target.currAddr
  · rwa [Nat.add_sub_cancel' ahead] at exactly
  · -- A `curr_addr` below the start leaves no byte to flush and the loop no
    -- round.
    have noBytes : target.currAddr - regionsAddress = 0 := by
      omega
    rw [noBytes, Lib.lineCount_zero (by decide)]
    constructor
    · rintro line ⟨byte, lower, upper, _⟩
      simp only at lower upper
      omega
    · rintro line ⟨address, member, _⟩
      simp [strided] at member

/-- The regions of every run start on a cache line. -/
theorem HeapRegions.Placed.starts_aligned
    {firstBase : Nat}
    {regions : HeapRegions}
    (placed : regions.Placed firstBase)
    (firstAligned : firstBase % pageSize = 0) :
    regions.sbStart % cachelineSize = 0 ∧
      regions.descStart % cachelineSize = 0 := by
  have sbAligned := placed.sbMapped.pageAligned
  have descAligned := placed.descMapped.pageAligned
  have sbHeapStart := placed.sbHeapStart
  have descHeapStart := placed.descHeapStart
  simp only [HeapRegions.sbStart, HeapRegions.descStart, Region.fetchHeapStart,
    sbSize, descSize, pageSize, cachelineSize] at *
  omega

/-- After `flush_region` and a fence no store to the region is lost. -/
theorem flushRegion_durable
    {Value : Type}
    [Inhabited Value]
    {regionsAddress line : Nat}
    (target : Region)
    (aligned : regionsAddress % cachelineSize = 0)
    (lines : Lib.Lines Nat Value)
    (overlaps :
      ByteRange.Overlaps cachelineSize
        ⟨regionsAddress, target.currAddr⟩ line) :
    (lines.steps
        (Lib.writeBackEvents cachelineSize
          (flushRegion regionsAddress target)) line).later = [] :=
  Lib.covers_iff_durable.mp (flushRegion_exact target aligned).1 lines line
    overlaps

/-- The collection writes both regions of a placed heap back. -/
theorem collectFlushes_covers_regions
    {firstBase : Nat}
    {regions : HeapRegions}
    (baseMd sizeofBaseMeta : Nat)
    (placed : regions.Placed firstBase)
    (firstAligned : firstBase % pageSize = 0) :
    Covers cachelineSize (collectFlushes regions baseMd sizeofBaseMeta)
        ⟨regions.descStart, regions.desc.currAddr⟩ ∧
      Covers cachelineSize (collectFlushes regions baseMd sizeofBaseMeta)
        ⟨regions.sbStart, regions.sb.currAddr⟩ := by
  obtain ⟨sbAligned, descAligned⟩ := placed.starts_aligned firstAligned
  constructor
  · refine (flushRegion_exact regions.desc descAligned).1.mono ?_
    intro address member
    simp [collectFlushes, member]
  · refine (flushRegion_exact regions.sb sbAligned).1.mono ?_
    intro address member
    simp [collectFlushes, member]

namespace Bxp

variable {pool : Pool} {state : Bxp} {write : BulkWrite}

/-- The copy of `BXP_realloc` goes to what `BXP_malloc` returned. -/
theorem reallocWrite_spec
    {thread ptr newSize : Nat}
    (written : reallocWrite pool thread ptr newSize state = some write) :
    ptr ≠ 0 ∧
    state.inSb pool ptr = true ∧
    state.mallocSize pool ptr ≠ newSize ∧
    ∃ newPtr allocated,
      malloc pool thread newSize state = some (newPtr, allocated) ∧
      newPtr ≠ 0 ∧
      write =
        { range := ⟨newPtr, newPtr + state.mallocSize pool ptr⟩
          flushes := [newPtr] } := by
  unfold reallocWrite at written
  split at written
  · simp at written
  next given =>
    split at written
    · simp at written
    next inside =>
      simp only at written
      split at written
      · simp at written
      next differs =>
        refine ⟨given, by simpa using inside, differs, ?_⟩
        cases returned : malloc pool thread newSize state with
        | none =>
            rw [returned] at written
            simp at written
        | some result =>
            obtain ⟨newPtr, allocated⟩ := result
            simp only [returned, Option.bind_eq_bind, Option.bind_some]
              at written
            split at written
            · simp at written
            next notNull =>
              simp only [Option.pure_def, Option.some.injEq] at written
              exact ⟨newPtr, allocated, rfl, notNull, written.symm⟩

/-- `BXP_realloc` returns the block it copied to. -/
theorem reallocWrite_start
    {thread ptr newSize newPtr : Nat}
    {after : Bxp}
    (written : reallocWrite pool thread ptr newSize state = some write)
    (returned :
      realloc pool thread ptr newSize state = some (newPtr, after)) :
    write.range.start = newPtr := by
  obtain ⟨given, inside, differs, block, allocated, allocation, notNull, rfl⟩ :=
    reallocWrite_spec written
  unfold realloc at returned
  rw [if_neg given, if_neg (by simp [inside])] at returned
  simp only [if_neg differs, allocation, Option.bind_eq_bind,
    Option.bind_some, if_neg notNull] at returned
  obtain ⟨freed, -, result⟩ := Option.bind_eq_some_iff.mp returned
  simp only [Option.pure_def, Option.some.injEq, Prod.mk.injEq] at result
  exact result.1

/-- `BXP_calloc` clears what `BXP_malloc` returned. -/
theorem callocWrite_spec
    {thread num size : Nat}
    (written : callocWrite pool thread num size state = some write) :
    ∃ ptr allocated,
      malloc pool thread (num * size % 2 ^ 64) state =
        some (ptr, allocated) ∧
      ptr ≠ 0 ∧
      write =
        { range := ⟨ptr, ptr + allocated.mallocSize pool ptr⟩
          flushes := [ptr] } := by
  unfold callocWrite at written
  cases returned : malloc pool thread (num * size % 2 ^ 64) state with
  | none =>
      rw [returned] at written
      simp at written
  | some result =>
      obtain ⟨ptr, allocated⟩ := result
      simp only [returned, Option.bind_eq_bind, Option.bind_some] at written
      split at written
      · simp at written
      next notNull =>
        simp only [Option.pure_def, Option.some.injEq] at written
        exact ⟨ptr, allocated, rfl, notNull, written.symm⟩

/-- `BXP_calloc` returns the block it cleared. -/
theorem callocWrite_start
    {thread num size ptr : Nat}
    {after : Bxp}
    (written : callocWrite pool thread num size state = some write)
    (returned : calloc pool thread num size state = some (ptr, after)) :
    write.range.start = ptr := by
  obtain ⟨block, allocated, allocation, notNull, rfl⟩ := callocWrite_spec written
  rw [calloc_of_malloc allocation notNull] at returned
  simp only [Option.some.injEq, Prod.mk.injEq] at returned
  exact returned.1

/-- The flush of the first line covers a block that stays in this line. -/
theorem reallocWrite_covers_iff
    {thread ptr newSize : Nat}
    (written : reallocWrite pool thread ptr newSize state = some write) :
    Covers cachelineSize write.flushes write.range ↔
      write.range.start % cachelineSize +
        (write.range.finish - write.range.start) ≤ cachelineSize := by
  obtain ⟨-, -, -, newPtr, allocated, -, -, rfl⟩ := reallocWrite_spec written
  simp only [Nat.add_sub_cancel_left]
  exact Lib.single_covers (by decide)

/-- The flush of the first line covers a block that stays in this line. -/
theorem callocWrite_covers_iff
    {thread num size : Nat}
    (written : callocWrite pool thread num size state = some write) :
    Covers cachelineSize write.flushes write.range ↔
      write.range.start % cachelineSize +
        (write.range.finish - write.range.start) ≤ cachelineSize := by
  obtain ⟨ptr, allocated, -, -, rfl⟩ := callocWrite_spec written
  simp only [Nat.add_sub_cancel_left]
  exact Lib.single_covers (by decide)

end Bxp

/-- One flush covers every block of a superblock exactly when the block size
divides the line. -/
theorem every_block_covered_iff
    {superblock size : Nat}
    (aligned : superblock % cachelineSize = 0)
    (positive : 0 < size)
    (small : size ≤ sbSize) :
    (∀ index, (index + 1) * size ≤ sbSize →
      Covers cachelineSize [superblock + index * size]
        ⟨superblock + index * size, superblock + index * size + size⟩) ↔
      size ∣ cachelineSize := by
  have bound := sbSize_eq
  have inLine :
      ∀ index,
        (superblock + index * size) % cachelineSize =
          index * size % cachelineSize := by
    intro index
    rw [Nat.add_mod, aligned, Nat.zero_add, Nat.mod_mod]
  constructor
  · intro covered
    by_contra notDivides
    -- The block that starts in the first line and ends behind it.
    have reaches := Nat.lt_mul_div_succ cachelineSize positive
    have starts := Nat.mul_div_le cachelineSize size
    have inside : size * (cachelineSize / size) ≠ cachelineSize :=
      fun same => notDivides ⟨_, same.symm⟩
    rw [Nat.mul_add, Nat.mul_one] at reaches
    rw [Nat.mul_comm] at reaches starts inside
    generalize cachelineSize / size = index at reaches starts inside
    have first := covered 0 (by omega)
    rw [Lib.single_covers (by decide), inLine, Nat.zero_mul, Nat.zero_mod]
      at first
    have straddles := covered index (by
      rw [Nat.succ_mul]
      simp only [cachelineSize] at first starts
      omega)
    rw [Lib.single_covers (by decide), inLine,
      Nat.mod_eq_of_lt (by omega)] at straddles
    omega
  · rintro ⟨parts, whole⟩ index -
    rw [Lib.single_covers (by decide), inLine, whole, Nat.mul_comm index,
      Nat.mul_mod_mul_left]
    have partsPositive : 0 < parts := by
      rcases Nat.eq_zero_or_pos parts with rfl | isPositive
      · simp at whole
      · exact isPositive
    have within := Nat.mod_lt index partsPositive
    calc size * (index % parts) + size
        = size * (index % parts + 1) := by rw [Nat.mul_succ]
      _ ≤ size * parts := Nat.mul_le_mul_left size within

/-- `writeback` leaves the first line of `BaseMeta` with every store that no
earlier flush had covered, for a crash to lose. -/
theorem writeback_leaves_first_line
    {Value : Type}
    {this sizeofBaseMeta : Nat}
    {lines : Lib.Lines Nat Value}
    (aligned : this % cachelineSize = 0)
    (unrequested : (lines (this / cachelineSize)).requested = 0) :
    (lines.steps
        (Lib.writeBackEvents cachelineSize (writeback this sizeofBaseMeta))
        (this / cachelineSize)).later =
      (lines (this / cachelineSize)).later := by
  refine Lib.writeBack_misses ?_ unrequested
  rw [writeback, advancingFlushes_eq, Lib.flushed_strided _ _ (by decide)]
  simp only [cachelineSize] at aligned ⊢
  omega

/--
Which bulk write-backs cover the range they are for: `flush_region` always; the
loops over `BaseMeta` for no object of positive size; `BXP_realloc` and
`BXP_calloc` exactly for bytes that lie in one cache line.
-/
theorem bulk_writebacks_cover_iff
    {baseMd regionsAddress : Nat}
    (sizeofBaseMeta : Nat)
    (target : Region)
    (pool : Pool)
    (state : Bxp)
    (baseMdAligned : baseMd % cachelineSize = 0)
    (regionAligned : regionsAddress % cachelineSize = 0) :
    (Covers cachelineSize (writeback baseMd sizeofBaseMeta)
            ⟨baseMd, baseMd + sizeofBaseMeta⟩ ∧
        Within cachelineSize (writeback baseMd sizeofBaseMeta)
          ⟨baseMd, baseMd + sizeofBaseMeta⟩ ↔
      sizeofBaseMeta = 0) ∧
    (Covers cachelineSize (collectWriteback baseMd sizeofBaseMeta)
            ⟨baseMd, baseMd + sizeofBaseMeta⟩ ∧
        Within cachelineSize (collectWriteback baseMd sizeofBaseMeta)
          ⟨baseMd, baseMd + sizeofBaseMeta⟩ ↔
      sizeofBaseMeta = 0) ∧
    (Covers cachelineSize (flushRegion regionsAddress target)
          ⟨regionsAddress, target.currAddr⟩ ∧
        Within cachelineSize (flushRegion regionsAddress target)
          ⟨regionsAddress, target.currAddr⟩) ∧
    (∀ thread ptr newSize write,
      Bxp.reallocWrite pool thread ptr newSize state = some write →
      (Covers cachelineSize write.flushes write.range ↔
        write.range.start % cachelineSize +
          (write.range.finish - write.range.start) ≤ cachelineSize)) ∧
    (∀ thread num size write,
      Bxp.callocWrite pool thread num size state = some write →
      (Covers cachelineSize write.flushes write.range ↔
        write.range.start % cachelineSize +
          (write.range.finish - write.range.start) ≤ cachelineSize)) := by
  refine ⟨?_, ?_, ?_, ?_, ?_⟩
  · exact advancingFlushes_exact_iff sizeofBaseMeta baseMdAligned
  · exact advancingFlushes_exact_iff sizeofBaseMeta baseMdAligned
  · exact flushRegion_exact target regionAligned
  · intro thread ptr newSize write written
    exact Bxp.reallocWrite_covers_iff written
  · intro thread num size write written
    exact Bxp.callocWrite_covers_iff written

namespace Bxp

/-- The first `BXP_calloc` of 24 KiB in a new heap. -/
theorem Initial.callocWrite_largest
    {pool : Pool}
    {state : Bxp}
    (initial : Initial pool state) :
    callocWrite pool 0 3 8192 state =
      some
        { range :=
            ⟨pool.sb.sbAddr 1, pool.sb.sbAddr 1 + 24576⟩
          flushes := [pool.sb.sbAddr 1] } := by
  obtain ⟨allocated, returned, -⟩ := initial.malloc_largest
  have served :=
    (Inv.of_reaches (.start initial)).malloc_small (by decide) returned
  have isLive : pool.sb.sbAddr 1 ∈ allocated.heap.live := by
    rw [served.live]
    exact List.mem_cons_self
  have notNull : pool.sb.sbAddr 1 ≠ 0 := by
    have start := pool.sb.positive
    unfold SbRegion.sbAddr
    omega
  obtain ⟨realSize, -⟩ := served.inv.mallocSize_small isLive
  rw [served.size, show capacity 24576 = 24576 by decide +kernel] at realSize
  have product : 3 * 8192 % 2 ^ 64 = 24576 := by
    decide
  unfold callocWrite
  rw [product, returned]
  simp only [Option.bind_eq_bind, Option.bind_some, if_neg notNull, realSize]
  rfl

/-- A `BXP_realloc` of a 24 KiB object to a whole superblock. -/
theorem exists_reallocWrite :
    ∃ state newPtr,
      reallocWrite examplePool 0 (examplePool.sb.sbAddr 1) sbSize state =
        some
          { range := ⟨newPtr, newPtr + 24576⟩
            flushes := [newPtr] } := by
  obtain ⟨state, newPtr, allocated, reached, -, oldShape, inside, -,
    allocation⟩ := exists_growing
  have served :=
    (Inv.of_reaches reached).malloc_small (Nat.le_refl _) allocation
  have requested : (newPtr, sbSize) ∈ allocated.requests := by
    rw [served.requests]
    exact List.mem_cons_self
  have newNotNull : newPtr ≠ 0 :=
    served.inv.backed_ne_zero (served.inv.backed newPtr sbSize requested)
  refine ⟨state, newPtr, ?_⟩
  unfold reallocWrite
  rw [if_neg (by decide), if_neg (by simp [inside])]
  simp only [oldShape]
  rw [if_neg (by decide), allocation]
  simp only [Option.bind_eq_bind, Option.bind_some, if_neg newNotNull]
  rfl

end Bxp

/-- The write-back of an object of two lines at `0x1000` skips the first line
and flushes the one behind the object, as the collection does; of 24 KiB that
`BXP_calloc` cleared, one line is flushed. -/
theorem writebacks_miss_lines :
    ¬ Covers cachelineSize (writeback 0x1000 128) ⟨0x1000, 0x1000 + 128⟩ ∧
    ¬ Within cachelineSize (writeback 0x1000 128) ⟨0x1000, 0x1000 + 128⟩ ∧
    ¬ Covers cachelineSize (collectWriteback 0x1000 128)
        ⟨0x1000, 0x1000 + 128⟩ ∧
    ∃ state write,
      Bxp.Initial Bxp.examplePool state ∧
      Bxp.callocWrite Bxp.examplePool 0 3 8192 state = some write ∧
      ¬ Covers cachelineSize write.flushes write.range := by
  have late :
      writeback 0x1000 128 =
        strided cachelineSize (0x1000 + cachelineSize)
          (lineCount cachelineSize 128) :=
    advancingFlushes_eq 128 0 0x1000
  have missed :
      ¬ Covers cachelineSize (writeback 0x1000 128)
        ⟨0x1000, 0x1000 + 128⟩ := by
    rw [late, Lib.strided_late_covers (by decide) (by decide)]
    decide
  refine ⟨missed, ?_, missed, ?_⟩
  · rw [late, Lib.strided_late_within (by decide) (by decide)]
    decide
  · obtain ⟨heap, initial⟩ := Bxp.examplePool_initial
    refine ⟨_, _, initial, initial.callocWrite_largest, ?_⟩
    rw [Bxp.callocWrite_covers_iff initial.callocWrite_largest]
    simp only [Nat.add_sub_cancel_left, cachelineSize]
    omega

/-- The equivalences at an empty and at a two-line object, at a region that has
just been created, at a `BXP_realloc` that copies 24 KiB and at the first
`BXP_calloc` of 24 KiB. -/
theorem bulk_writebacks_cover_iff_examples :
    Covers cachelineSize (writeback 0x1000 0) ⟨0x1000, 0x1000⟩ ∧
    ¬ (Covers cachelineSize (collectWriteback 0x1000 128)
          ⟨0x1000, 0x1000 + 128⟩ ∧
        Within cachelineSize (collectWriteback 0x1000 128)
          ⟨0x1000, 0x1000 + 128⟩) ∧
    Covers cachelineSize (flushRegion 0x2000 (Region.map 0x1000 4096))
      ⟨0x2000, (Region.map 0x1000 4096).currAddr⟩ ∧
    (∃ state write,
      Bxp.reallocWrite Bxp.examplePool 0 (Bxp.examplePool.sb.sbAddr 1) sbSize
        state = some write ∧
      ¬ Covers cachelineSize write.flushes write.range) ∧
    ∃ state write,
      Bxp.callocWrite Bxp.examplePool 0 3 8192 state = some write ∧
      ¬ Covers cachelineSize write.flushes write.range := by
  have objectAligned : 0x1000 % cachelineSize = 0 := by
    decide
  have regionAligned : 0x2000 % cachelineSize = 0 := by
    decide
  obtain ⟨copying, newPtr, written⟩ := Bxp.exists_reallocWrite
  obtain ⟨-, collected, region, copied, -⟩ :=
    bulk_writebacks_cover_iff 128 (Region.map 0x1000 4096) Bxp.examplePool
      copying objectAligned regionAligned
  refine ⟨?_, ?_, region.1, ?_, ?_⟩
  · exact
      ((bulk_writebacks_cover_iff 0 (Region.map 0x1000 4096) Bxp.examplePool
        copying objectAligned regionAligned).1.mpr rfl).1
  · intro exactly
    exact absurd (collected.mp exactly) (by decide)
  · refine ⟨copying, _, written, ?_⟩
    rw [copied _ _ _ _ written]
    simp only [Nat.add_sub_cancel_left, cachelineSize]
    omega
  · obtain ⟨heap, initial⟩ := Bxp.examplePool_initial
    obtain ⟨-, -, -, -, cleared⟩ :=
      bulk_writebacks_cover_iff 0 (Region.map 0x1000 4096) Bxp.examplePool
        _ objectAligned regionAligned
    refine ⟨_, _, initial.callocWrite_largest, ?_⟩
    rw [cleared _ _ _ _ initial.callocWrite_largest]
    simp only [Nat.add_sub_cancel_left, cachelineSize]
    omega

end Bxalloc
