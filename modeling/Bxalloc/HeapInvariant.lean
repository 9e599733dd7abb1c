import Bxalloc.BaseMeta
import Bxalloc.Lib.LinkWalk
import Bxalloc.Lib.Splits

namespace Bxalloc

/-!
# The invariant of the small allocator

Every block of every superblock in use is in exactly one place: on the free
chain of its superblock, in one thread's free list of its class, or with a
user.  `Heap.Inv` says this together with the facts about descriptors, partial
lists and the queue that keep it true.
-/

open Lib

namespace Heap

/-- The block addresses of superblock `k`. -/
def blocks (region : SbRegion) (heap : Heap) (k : Nat) : List Nat :=
  (List.range (heap.desc k).maxcount).map fun index =>
    region.sbAddr k + index * (heap.desc k).blockSize

/-- A block of a superblock in use. -/
def IsBlock (region : SbRegion) (heap : Heap) (block : Nat) : Prop :=
  ∃ k, (heap.desc k).heap ≠ none ∧ block ∈ heap.blocks region k

/-- The number of blocks on the free chain of a superblock. -/
def freeCount (desc : Descriptor) : Nat :=
  if desc.heap = none then
    0
  else if desc.anchor.state = .sbEmpty then
    desc.maxcount
  else
    desc.anchor.count

/-- The blocks reached from `anchor.avail` through the in-block links. -/
def freeChain (heap : Heap) (k : Nat) : List Nat :=
  List.iterate (readLink heap.memory)
    ((heap.desc k).superblock +
      (heap.desc k).anchor.avail * (heap.desc k).blockSize)
    (freeCount (heap.desc k))

/-- The blocks in the first `_size` links of a thread's free list. -/
def cacheList (heap : Heap) (thread sc : Nat) : List Nat :=
  List.iterate (readLink heap.memory)
    (heap.cache thread sc).list (heap.cache thread sc).size

/-- Where a block can be. -/
inductive Place where
  | chain (k : Nat)
  | cache (thread sc : Nat)
  | live
  deriving DecidableEq

/-- The blocks in a place. -/
def content (heap : Heap) : Place → List Nat
  | .chain k => heap.freeChain k
  | .cache thread sc => heap.cacheList thread sc
  | .live => heap.live

/-- What the state of an anchor says about its two numbers. -/
def AnchorOk (anchor : Anchor) (maxcount : Nat) : Prop :=
  match anchor.state with
  | .sbError => False
  | .sbFull => anchor.count = 0 ∧ anchor.avail ≤ maxcount
  | .sbPartial =>
      1 ≤ anchor.count ∧ anchor.count < maxcount ∧ anchor.avail < maxcount
  | .sbEmpty => anchor.count = maxcount - 1 ∧ anchor.avail < maxcount

/-- The descriptor of a superblock used by heap `sc`. -/
structure DescOk
    (region : SbRegion)
    (currAddr k : Nat)
    (desc : Descriptor)
    (sc : Nat) : Prop where
  classLe : sc ≤ nlist
  indexPos : 1 ≤ k
  inside : region.sbAddr k + sbSize ≤ currAddr
  superblock : desc.superblock = region.sbAddr k
  blockSize : desc.blockSize = blockBytes sc
  maxcount : desc.maxcount = sbSize / blockBytes sc
  anchor : AnchorOk desc.anchor desc.maxcount

/-- A blank superblock below `curr_addr`, as the queue hands them out. -/
structure Spare (region : SbRegion) (heap : Heap) (k : Nat) : Prop where
  blank : (heap.desc k).heap = none
  indexPos : 1 ≤ k
  inside : region.sbAddr k + sbSize ≤ heap.currAddr

/-- The state has free blocks, so its descriptor belongs on a partial list. -/
def Listed (desc : Descriptor) (sc : Nat) : Prop :=
  desc.heap = some sc ∧
    (desc.anchor.state = .sbPartial ∨ desc.anchor.state = .sbEmpty)

/-- Superblocks in use lie in the region and have proper descriptors. -/
structure Geometry (region : SbRegion) (heap : Heap) : Prop where
  descOk :
    ∀ k sc,
      (heap.desc k).heap = some sc →
      DescOk region heap.currAddr k (heap.desc k) sc
  currAligned :
    heap.currAddr % sbSize = 0
  currAbove :
    region.start + sbSize ≤ heap.currAddr
  currBelow :
    heap.currAddr ≤ region.limit

/-- The metadata invariant: descriptors, partial lists and queue. -/
structure Control (region : SbRegion) (heap : Heap) : Prop where
  geometry : Geometry region heap
  wholeFull :
    ∀ k,
      (heap.desc k).heap = some nlist →
      (heap.desc k).anchor.state = .sbFull
  partialNodup :
    ∀ sc, (heap.partialList sc).Nodup
  partialMem :
    ∀ sc k, k ∈ heap.partialList sc ↔ Listed (heap.desc k) sc
  queueNodup :
    heap.queue.Nodup
  queueSpare :
    ∀ k, k ∈ heap.queue → Spare region heap k
  maxsizePos :
    ∀ thread sc, sc < nlist → 1 ≤ (heap.cache thread sc).maxsize

/-- A block may be in a place: chains and caches only hold their own blocks. -/
def Fits (region : SbRegion) (heap : Heap) (block : Nat) : Place → Prop
  | .chain k => region.owner block = k
  | .cache _ sc => (heap.desc (region.owner block)).heap = some sc
  | .live => True

/-- The block invariant: the places split the blocks of superblocks in use. -/
structure Placement (region : SbRegion) (heap : Heap) : Prop where
  splits :
    Splits heap.content (heap.IsBlock region)
  fits :
    ∀ place block,
      block ∈ heap.content place →
      Fits region heap block place

/-- The invariant of the allocator between calls. -/
structure Inv (region : SbRegion) (heap : Heap) : Prop where
  control : Control region heap
  placement : Placement region heap

variable {region : SbRegion} {heap : Heap}

theorem mem_blocks
    {k block : Nat} :
    block ∈ heap.blocks region k ↔
      ∃ index,
        index < (heap.desc k).maxcount ∧
          region.sbAddr k + index * (heap.desc k).blockSize = block := by
  simp [blocks]

namespace DescOk

variable {currAddr k sc : Nat} {desc : Descriptor}

/-- Blocks hold a link and fit in their superblock. -/
theorem sizes
    (ok : DescOk region currAddr k desc sc) :
    8 ≤ desc.blockSize ∧
      desc.blockSize ≤ sbSize ∧
      1 ≤ desc.maxcount ∧
      desc.maxcount ≤ 8192 ∧
      desc.maxcount * desc.blockSize ≤ sbSize := by
  have bytes := blockBytes_bounds ok.classLe
  have count := blockCount_bounds ok.classLe
  rw [ok.maxcount, ok.blockSize]
  exact ⟨bytes.1, bytes.2, count⟩

/-- The bytes of a block lie inside its superblock. -/
theorem block_inside
    (ok : DescOk region currAddr k desc sc)
    {index : Nat}
    (early : index < desc.maxcount) :
    index * desc.blockSize + desc.blockSize ≤ sbSize := by
  have step : (index + 1) * desc.blockSize ≤ desc.maxcount * desc.blockSize :=
    Nat.mul_le_mul_right _ early
  rw [Nat.add_mul, Nat.one_mul] at step
  exact Nat.le_trans step ok.sizes.2.2.2.2

end DescOk

/-- Any address inside superblock `k` belongs to descriptor `k`. -/
theorem owner_of_inside
    {k address : Nat}
    (below : region.sbAddr k + sbSize ≤ 2 ^ 47)
    (lower : region.sbAddr k ≤ address)
    (upper : address < region.sbAddr k + sbSize) :
    region.owner address = k := by
  unfold SbRegion.sbAddr at below lower upper
  have shape :
      address =
        region.start + k * sbSize + (address - (region.start + k * sbSize)) := by
    omega
  unfold SbRegion.owner
  rw [shape]
  exact sbIndex_of_aligned region.aligned (by omega) (by omega)

/-- A superblock start belongs to its own descriptor. -/
theorem owner_sbAddr
    {k : Nat}
    (below : region.sbAddr k + sbSize ≤ 2 ^ 47) :
    region.owner (region.sbAddr k) = k :=
  owner_of_inside below (Nat.le_refl _)
    (Nat.lt_add_of_pos_right (by decide))

/-- Different superblocks do not overlap. -/
theorem sbAddr_apart
    (region : SbRegion)
    {first second : Nat}
    (distinct : first ≠ second) :
    region.sbAddr first + sbSize ≤ region.sbAddr second ∨
      region.sbAddr second + sbSize ≤ region.sbAddr first := by
  unfold SbRegion.sbAddr
  simp only [sbSize, pageSize]
  omega

namespace Geometry

/-- Superblocks in use lie below `2 ^ 47`. -/
theorem below
    (geometry : Geometry region heap)
    {k sc : Nat}
    (used : (heap.desc k).heap = some sc) :
    region.sbAddr k + sbSize ≤ 2 ^ 47 :=
  Nat.le_trans (geometry.descOk k sc used).inside
    (Nat.le_trans geometry.currBelow region.userSpace)

/-- Spare superblocks lie below `2 ^ 47`. -/
theorem spare_below
    (geometry : Geometry region heap)
    {k : Nat}
    (spare : Spare region heap k) :
    region.sbAddr k + sbSize ≤ 2 ^ 47 :=
  Nat.le_trans spare.inside
    (Nat.le_trans geometry.currBelow region.userSpace)

/-- The place of a block in its superblock. -/
theorem isBlock_cases
    (geometry : Geometry region heap)
    {block : Nat}
    (isBlock : heap.IsBlock region block) :
    ∃ sc index,
      (heap.desc (region.owner block)).heap = some sc ∧
        index < (heap.desc (region.owner block)).maxcount ∧
        block =
          region.sbAddr (region.owner block) +
            index * (heap.desc (region.owner block)).blockSize := by
  obtain ⟨k, used, member⟩ := isBlock
  obtain ⟨sc, usedBy⟩ := Option.ne_none_iff_exists'.mp used
  obtain ⟨index, early, shape⟩ := mem_blocks.mp member
  have ok := geometry.descOk k sc usedBy
  have fits := ok.block_inside early
  have large := ok.sizes.1
  have owned : region.owner block = k := by
    apply owner_of_inside (geometry.below usedBy)
    · omega
    · omega
  rw [owned]
  exact ⟨sc, index, usedBy, early, shape.symm⟩

/-- A block of superblock `k` is owned by descriptor `k`. -/
theorem owner_of_mem_blocks
    (geometry : Geometry region heap)
    {k sc block : Nat}
    (used : (heap.desc k).heap = some sc)
    (member : block ∈ heap.blocks region k) :
    region.owner block = k := by
  obtain ⟨index, early, shape⟩ := mem_blocks.mp member
  have ok := geometry.descOk k sc used
  have fits := ok.block_inside early
  have large := ok.sizes.1
  apply owner_of_inside (geometry.below used)
  · omega
  · omega

/-- A block lies in the list of its owner's blocks. -/
theorem mem_blocks_owner
    (geometry : Geometry region heap)
    {block : Nat}
    (isBlock : heap.IsBlock region block) :
    block ∈ heap.blocks region (region.owner block) := by
  obtain ⟨sc, index, -, early, shape⟩ := geometry.isBlock_cases isBlock
  exact mem_blocks.mpr ⟨index, early, shape.symm⟩

/-- The bytes of a block lie inside its owner's superblock. -/
theorem block_window
    (geometry : Geometry region heap)
    {block : Nat}
    (isBlock : heap.IsBlock region block) :
    region.sbAddr (region.owner block) ≤ block ∧
      block + (heap.desc (region.owner block)).blockSize ≤
        region.sbAddr (region.owner block) + sbSize ∧
      8 ≤ (heap.desc (region.owner block)).blockSize ∧
      region.sbAddr (region.owner block) + sbSize ≤ 2 ^ 47 := by
  obtain ⟨sc, index, used, early, shape⟩ := geometry.isBlock_cases isBlock
  have ok := geometry.descOk _ sc used
  have fits := ok.block_inside early
  have large := ok.sizes.1
  have low := geometry.below used
  refine ⟨?_, ?_, large, low⟩
  · omega
  · omega

/-- Distinct blocks do not overlap. -/
theorem blocks_apart
    (geometry : Geometry region heap)
    {first second : Nat}
    (firstBlock : heap.IsBlock region first)
    (secondBlock : heap.IsBlock region second)
    (distinct : first ≠ second) :
    first + (heap.desc (region.owner first)).blockSize ≤ second ∨
      second + (heap.desc (region.owner second)).blockSize ≤ first := by
  by_cases sameOwner : region.owner first = region.owner second
  · obtain ⟨sc, index, used, early, shape⟩ := geometry.isBlock_cases firstBlock
    obtain ⟨sc', index', used', early', shape'⟩ :=
      geometry.isBlock_cases secondBlock
    rw [← sameOwner] at early' shape' ⊢
    generalize (heap.desc (region.owner first)).blockSize = size at *
    rcases Nat.lt_trichotomy index index' with before | same | after
    · have step : (index + 1) * size ≤ index' * size :=
        Nat.mul_le_mul_right _ before
      rw [Nat.add_mul, Nat.one_mul] at step
      omega
    · exact absurd (by rw [shape, shape', same]) distinct
    · have step : (index' + 1) * size ≤ index * size :=
        Nat.mul_le_mul_right _ after
      rw [Nat.add_mul, Nat.one_mul] at step
      omega
  · have firstWindow := geometry.block_window firstBlock
    have secondWindow := geometry.block_window secondBlock
    have apart := sbAddr_apart region sameOwner
    omega

/-- The links of distinct blocks do not overlap. -/
theorem links_apart
    (geometry : Geometry region heap)
    {first second : Nat}
    (firstBlock : heap.IsBlock region first)
    (secondBlock : heap.IsBlock region second)
    (distinct : first ≠ second) :
    first + 8 ≤ second ∨ second + 8 ≤ first := by
  have apart := geometry.blocks_apart firstBlock secondBlock distinct
  have firstWindow := geometry.block_window firstBlock
  have secondWindow := geometry.block_window secondBlock
  omega

/-- Nodup lists of blocks of one superblock are no longer than the superblock. -/
theorem length_le_maxcount
    {k : Nat}
    {items : List Nat}
    (noDuplicates : items.Nodup)
    (inside : ∀ block, block ∈ items → block ∈ heap.blocks region k) :
    items.length ≤ (heap.desc k).maxcount := by
  have sub := List.subperm_of_subset noDuplicates inside
  simpa [blocks] using sub.length_le

/-- Nodup lists of all blocks of one superblock contain each of them. -/
theorem mem_of_length_maxcount
    {k : Nat}
    {items : List Nat}
    (noDuplicates : items.Nodup)
    (inside : ∀ block, block ∈ items → block ∈ heap.blocks region k)
    (complete : items.length = (heap.desc k).maxcount)
    {block : Nat}
    (member : block ∈ heap.blocks region k) :
    block ∈ items := by
  have sub := List.subperm_of_subset noDuplicates inside
  have perm := sub.perm_of_length_le (by simp [blocks, complete])
  exact perm.mem_iff.mpr member

/-- Writing the link of one block leaves the links of other blocks alone. -/
theorem readLink_write_other
    (geometry : Geometry region heap)
    {written other : Nat}
    (target : Nat)
    (writtenBlock : heap.IsBlock region written)
    (otherBlock : heap.IsBlock region other)
    (distinct : other ≠ written) :
    readLink (writeLink heap.memory written target) other =
      readLink heap.memory other := by
  apply readLink_writeLink_apart
  exact geometry.links_apart otherBlock writtenBlock distinct

/-- The link just written to a block reads back. -/
theorem readLink_write_self
    (geometry : Geometry region heap)
    {written target : Nat}
    (writtenBlock : heap.IsBlock region written)
    (targetFits : target < 2 ^ 48) :
    readLink (writeLink heap.memory written target) written = target := by
  have window := geometry.block_window writtenBlock
  exact readLink_writeLink_same heap.memory (by omega) targetFits

end Geometry

namespace Placement

variable {heap' : Heap}

/-- Whatever occurs in a place is a block. -/
theorem isBlock
    (placement : Placement region heap)
    (place : Place)
    {block : Nat}
    (occurs : block ∈ heap.content place) :
    heap.IsBlock region block :=
  placement.splits.member_of_mem occurs

/-- Blocks are the same when descriptors keep their geometry. -/
theorem isBlock_congr
    (same :
      ∀ k,
        (heap'.desc k).heap = (heap.desc k).heap ∧
          (heap'.desc k).maxcount = (heap.desc k).maxcount ∧
          (heap'.desc k).blockSize = (heap.desc k).blockSize)
    (block : Nat) :
    heap'.IsBlock region block ↔ heap.IsBlock region block := by
  unfold IsBlock blocks
  constructor
  · rintro ⟨k, used, member⟩
    rw [(same k).1] at used
    rw [(same k).2.1, (same k).2.2] at member
    exact ⟨k, used, member⟩
  · rintro ⟨k, used, member⟩
    refine ⟨k, ?_, ?_⟩
    · rwa [(same k).1]
    · rwa [(same k).2.1, (same k).2.2]

/-- Moving blocks between two places they fit in keeps the invariant. -/
theorem exchange
    (placement : Placement region heap)
    (same :
      ∀ k,
        (heap'.desc k).heap = (heap.desc k).heap ∧
          (heap'.desc k).maxcount = (heap.desc k).maxcount ∧
          (heap'.desc k).blockSize = (heap.desc k).blockSize)
    (first second : Place)
    (distinct : first ≠ second)
    (sameItems :
      (heap.content first ++ heap.content second).Perm
        (heap'.content first ++ heap'.content second))
    (others :
      ∀ place,
        place ≠ first →
        place ≠ second →
        heap'.content place = heap.content place)
    (firstFits :
      ∀ block,
        block ∈ heap'.content first →
        Fits region heap block first)
    (secondFits :
      ∀ block,
        block ∈ heap'.content second →
        Fits region heap block second) :
    Placement region heap' where
  splits :=
    (placement.splits.exchange distinct sameItems others).congr_member
      (isBlock_congr same)
  fits place block occurs := by
    have old : Fits region heap block place := by
      by_cases isFirst : place = first
      · subst isFirst
        exact firstFits block occurs
      · by_cases isSecond : place = second
        · subst isSecond
          exact secondFits block occurs
        · rw [others place isFirst isSecond] at occurs
          exact placement.fits place block occurs
    cases place with
    | chain k => exact old
    | cache thread sc => exact ((same _).1).trans old
    | live => trivial

end Placement

end Heap

end Bxalloc
