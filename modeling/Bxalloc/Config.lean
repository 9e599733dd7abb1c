import Mathlib.Algebra.Group.Nat.Defs

namespace Bxalloc

/-!
# Configuration constants

The constants of `pm_config.hpp` that the modelled functions read, under the
names the source gives them.
-/

/-- `PAGESIZE`. -/
abbrev pageSize : Nat := 4096

/-- `CACHELINE_SIZE`. -/
abbrev cachelineSize : Nat := 64

/-- `SBSIZE`: the size of a superblock. -/
abbrev sbSize : Nat := 16 * pageSize

/-- `SB_SHIFT`. -/
abbrev sbShift : Nat := 16

/-- `DESCSIZE`: the size of a descriptor. -/
abbrev descSize : Nat := cachelineSize

/-- `DESC_SHIFT`. -/
abbrev descShift : Nat := 6

/-- `NLIST`: the number of size classes; `heaps[NLIST]` serves whole superblocks. -/
abbrev nlist : Nat := 160

/-- `MAX_SZ`: the largest size served by a size class. -/
abbrev maxSz : Nat := 24 * 1024

/-- `MIN_SB_REGION_SIZE`. -/
abbrev minSbRegionSize : Nat := 1 * 1024 * 1024 * 1024

/-- `SB_REGION_EXPAND_SIZE`. -/
abbrev sbRegionExpandSize : Nat := minSbRegionSize

/-- `MAX_DESC_AMOUNT_BITS`. -/
abbrev maxDescAmountBits : Nat := 24

/-- `MAX_SB_REGION_SIZE`. -/
abbrev maxSbRegionSize : Nat := sbSize * 2 ^ maxDescAmountBits

/-- `MAX_DESC_OFFSET_BITS`. -/
abbrev maxDescOffsetBits : Nat := maxDescAmountBits + 6

/-- `PPTR_PATTERN_POS`: the tag of a forward offset; alone it encodes null. -/
abbrev pptrPatternPos : Nat := 0x52b0

/-- `PPTR_PATTERN_NEG`: the tag of a backward offset. -/
abbrev pptrPatternNeg : Nat := 0x52b1

/-- `PPTR_PATTERN_SHIFT`. -/
abbrev pptrPatternShift : Nat := 16

/-- `PPTR_PATTERN_MASK`. -/
abbrev pptrPatternMask : Nat := 2 ^ pptrPatternShift - 2

/-- The ring size of the free-superblock queue, `_ArrayQueue<T,80000>`. -/
abbrev queueSize : Nat := 80000

theorem sbSize_eq : sbSize = 65536 := rfl

theorem superblocksPerExpansion : sbRegionExpandSize / sbSize = 16384 := rfl

end Bxalloc
