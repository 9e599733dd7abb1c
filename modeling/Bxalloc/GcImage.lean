import Bxalloc.GcSuperblock

namespace Bxalloc

/-!
# Crash images

What a crash leaves for the collection: descriptors whose persistent fields are
right, and roots and reachable pointers that name starts of blocks.
-/

namespace Gc

variable {region : SbRegion} {image : Heap}

/-- The descriptor of superblock `k`, in use by heap `sc`, in a crash image. -/
structure PersistentOk
    (region : SbRegion)
    (image : Heap)
    (k sc : Nat) : Prop where
  classLe : sc ≤ nlist
  indexPos : 1 ≤ k
  inside : region.sbAddr k + sbSize ≤ image.currAddr
  heap : (image.desc k).heap = some sc
  superblock : (image.desc k).superblock = region.sbAddr k
  blockSize : (image.desc k).blockSize = blockBytes sc
  maxcount : (image.desc k).maxcount = sbSize / blockBytes sc

/-- The start of an allocated block. -/
def AllocatedStart (region : SbRegion) (image : Heap) (addr : Nat) : Prop :=
  ∃ k sc, PersistentOk region image k sc ∧ IsBlock (image.desc k) addr

/-- Crash images whose roots and reachable pointers name block starts. -/
structure Recoverable
    (region : SbRegion)
    (image : Heap)
    (roots : List Nat) : Prop where
  currAbove : region.start + sbSize ≤ image.currAddr
  currBelow : image.currAddr ≤ region.limit
  rooted :
    ∀ root,
      IsRoot region.start image roots root →
      AllocatedStart region image root
  pointed :
    ∀ addr target,
      Reachable region.start image roots addr →
      target ∈ targets region.start image addr →
      AllocatedStart region image target

/-- The fields that a crash leaves in a descriptor. -/
structure SameFields (desc desc' : Descriptor) : Prop where
  heap : desc.heap = desc'.heap
  superblock : desc.superblock = desc'.superblock
  blockSize : desc.blockSize = desc'.blockSize
  maxcount : desc.maxcount = desc'.maxcount

theorem sbAddr_succ
    (region : SbRegion)
    (k : Nat) :
    region.sbAddr (k + 1) = region.sbAddr k + sbSize := by
  unfold SbRegion.sbAddr
  rw [Nat.succ_mul, Nat.add_assoc]

/-- Superblocks are in order. -/
theorem sbAddr_le
    (region : SbRegion)
    {k k' : Nat}
    (less : k < k') :
    region.sbAddr k + sbSize ≤ region.sbAddr k' := by
  have next : (k + 1) * sbSize ≤ k' * sbSize := Nat.mul_le_mul_right _ less
  rw [Nat.succ_mul] at next
  unfold SbRegion.sbAddr
  omega

theorem sbAddr_aligned
    (region : SbRegion)
    (k : Nat) :
    region.sbAddr k % sbSize = 0 := by
  unfold SbRegion.sbAddr
  rw [Nat.add_mul_mod_self_right]
  exact region.aligned

theorem SameFields.isBlock
    {desc desc' : Descriptor}
    (same : SameFields desc desc')
    {block : Nat} :
    IsBlock desc block ↔ IsBlock desc' block := by
  unfold IsBlock
  rw [same.superblock, same.blockSize, same.maxcount]

/-- Reachable addresses are starts of allocated blocks. -/
theorem Recoverable.allocated
    {roots : List Nat}
    (recoverable : Recoverable region image roots)
    {addr : Nat}
    (reachable : Reachable region.start image roots addr) :
    AllocatedStart region image addr := by
  cases reachable with
  | root isRoot => exact recoverable.rooted _ isRoot
  | step reached edge => exact recoverable.pointed _ _ reached edge

namespace PersistentOk

variable {k sc addr : Nat}

/-- Sizes of the blocks of a superblock in use. -/
theorem sizes
    (ok : PersistentOk region image k sc) :
    8 ≤ (image.desc k).blockSize ∧
      (image.desc k).blockSize ≤ sbSize ∧
      (image.desc k).maxcount * (image.desc k).blockSize ≤ sbSize := by
  have bytes := blockBytes_bounds ok.classLe
  have count := blockCount_bounds ok.classLe
  rw [ok.maxcount, ok.blockSize]
  exact ⟨bytes.1, bytes.2, count.2.2⟩

/-- A block lies in its superblock. -/
theorem block_inside
    (ok : PersistentOk region image k sc)
    (isBlock : IsBlock (image.desc k) addr) :
    region.sbAddr k ≤ addr ∧
      addr + (image.desc k).blockSize ≤ region.sbAddr k + sbSize := by
  obtain ⟨i, counted, rfl⟩ := isBlock
  obtain ⟨-, -, fits⟩ := ok.sizes
  have next :
      (i + 1) * (image.desc k).blockSize ≤
        (image.desc k).maxcount * (image.desc k).blockSize :=
    Nat.mul_le_mul_right _ counted
  rw [Nat.succ_mul] at next
  rw [ok.superblock]
  omega

/-- The descriptor of a block is that of its superblock. -/
theorem owner_eq
    (ok : PersistentOk region image k sc)
    (currBelow : image.currAddr ≤ region.limit)
    (isBlock : IsBlock (image.desc k) addr) :
    region.owner addr = k := by
  obtain ⟨lower, upper⟩ := ok.block_inside isBlock
  have holdsLink := ok.sizes.1
  have inside := ok.inside
  have userSpace := region.userSpace
  exact Heap.owner_of_inside (by omega) lower (by omega)

/-- A superblock of the classes 1 to `NLIST - 1`, as the sweep finds it. -/
theorem small
    {desc : Descriptor}
    (ok : PersistentOk region image k sc)
    (same : SameFields desc (image.desc k))
    (currBelow : image.currAddr ≤ region.limit)
    (notFirst : 0 < sc)
    (notLast : sc < nlist) :
    SmallInUse desc (region.sbAddr k) sc := by
  have inside := ok.inside
  have userSpace := region.userSpace
  have startPositive := region.positive
  refine ⟨sbAddr_aligned region k, ?_, by omega, same.heap.trans ok.heap,
    notFirst, notLast, same.superblock.trans ok.superblock, ?_, ?_⟩
  · unfold SbRegion.sbAddr
    omega
  · rw [same.blockSize]
    exact ok.sizes.1
  · rw [same.maxcount, same.blockSize, ok.maxcount, ok.blockSize]

end PersistentOk

/-- Two different blocks of a superblock do not overlap. -/
theorem IsBlock.apart
    {desc : Descriptor}
    {block other : Nat}
    (positive : 0 < desc.blockSize)
    (isBlock : IsBlock desc block)
    (isOther : IsBlock desc other)
    (differs : block ≠ other) :
    block + desc.blockSize ≤ other ∨ other + desc.blockSize ≤ block := by
  have blockStart := ((isBlock_iff positive).mp isBlock).1
  have otherStart := ((isBlock_iff positive).mp isOther).1
  rcases Nat.lt_or_gt_of_ne differs with less | greater
  · exact .inl (blockStart.apart otherStart less)
  · exact .inr (otherStart.apart blockStart greater)

/-- Where an allocated block lies. -/
theorem AllocatedStart.position
    {addr : Nat}
    (allocated : AllocatedStart region image addr)
    (currBelow : image.currAddr ≤ region.limit) :
    ∃ sc,
      PersistentOk region image (region.owner addr) sc ∧
        IsBlock (image.desc (region.owner addr)) addr ∧
        region.sbAddr (region.owner addr) ≤ addr ∧
        addr + (image.desc (region.owner addr)).blockSize ≤
          region.sbAddr (region.owner addr) + sbSize := by
  obtain ⟨k, sc, ok, isBlock⟩ := allocated
  obtain rfl := ok.owner_eq currBelow isBlock
  exact ⟨sc, ok, isBlock, ok.block_inside isBlock⟩

/-- Blocks before a superblock belong to earlier superblocks. -/
theorem AllocatedStart.behind
    {addr j : Nat}
    (allocated : AllocatedStart region image addr)
    (currBelow : image.currAddr ≤ region.limit) :
    addr < region.sbAddr j ↔ region.owner addr < j := by
  obtain ⟨sc, ok, -, lower, upper⟩ := allocated.position currBelow
  have holdsLink := ok.sizes.1
  constructor
  · intro before
    by_contra notBehind
    rcases Nat.eq_or_lt_of_le (Nat.le_of_not_lt notBehind) with same | less
    · rw [← same] at lower
      omega
    · have := sbAddr_le region less
      omega
  · intro less
    have := sbAddr_le region less
    omega

/-- Descriptors by division, for all addresses from the heap start on. -/
theorem owner_eq_div
    {address : Nat}
    (lower : region.start ≤ address)
    (upper : address < 2 ^ 64) :
    region.owner address = address / sbSize - region.start / sbSize := by
  unfold SbRegion.owner sbIndex
  simp only [sbShift, Nat.shiftRight_eq_div_pow, sbSize, pageSize]
  rw [u64Sub_of_le (by omega) (by omega)]

end Gc

end Bxalloc
