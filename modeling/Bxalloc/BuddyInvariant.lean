import Bxalloc.BuddyAllocator

namespace Bxalloc

/-!
# The partition of the arena

Every block of the arena is in exactly one place: in the free list of its
level, with a user, or in the hands of the running call.  `Buddy.Partition`
says this together with what the headers say about the blocks.
-/

open Lib

namespace Buddy

variable {layout : BuddyLayout} {state : Buddy}
variable {items : Nat → List Nat} {hand : List Nat}

/-- Where a block can be. -/
inductive Place where
  | level (i : Nat)
  | live
  /-- The running call has taken the block out of its place. -/
  | hand
  deriving DecidableEq

/-- The blocks in a place. -/
def content
    (state : Buddy)
    (items : Nat → List Nat)
    (hand : List Nat) : Place → List Nat
  | .level i => items i
  | .live => state.live
  | .hand => hand

/-- The block occurs in some place. -/
def Tile
    (state : Buddy)
    (items : Nat → List Nat)
    (hand : List Nat)
    (b : Nat) : Prop :=
  ∃ place, b ∈ content state items hand place

/-- The size in a header. -/
def sizeAt (state : Buddy) (b : Nat) : Nat :=
  (state.header b).blockSize

/-- The link in a header. -/
def nextAt (state : Buddy) (b : Nat) : Nat :=
  (state.header b).next

/--
The free lists hold `items`, the running call holds `hand`, and together with
the live blocks these are disjoint and cover the arena.
-/
structure Partition
    (layout : BuddyLayout)
    (state : Buddy)
    (items : Nat → List Nat)
    (hand : List Nat) : Prop where
  lists :
    ∀ i, NullList (nextAt state) 0 (state.freeList i) (items i)
  bounded :
    ∀ i, layout.levels ≤ i → items i = []
  listed :
    ∀ i b,
      b ∈ items i →
      (state.header b).free = true ∧ sizeAt state b = layout.levelSize i
  held :
    ∀ b,
      b ∈ hand →
      (state.header b).free = true ∧
        ∃ i, i < layout.levels ∧ sizeAt state b = layout.levelSize i
  allocated :
    ∀ b,
      b ∈ state.live →
      (state.header b).free = false ∧
        ∃ i, i < layout.levels ∧ sizeAt state b = layout.levelSize i
  splits :
    Splits (content state items hand) (Tile state items hand)
  tiles :
    Tiles (Tile state items hand) (sizeAt state) layout.start layout.finish
  aligned :
    ∀ b, Tile state items hand b → sizeAt state b ∣ b - layout.start

/-- Levels have different sizes. -/
theorem levelSize_injective
    {i j : Nat}
    (same : layout.levelSize i = layout.levelSize j) :
    i = j := by
  unfold BuddyLayout.levelSize BuddyLayout.basicBlockSize at same
  rw [← Nat.pow_add, ← Nat.pow_add] at same
  have exponents := Nat.pow_right_injective (Nat.le_refl 2) same
  omega

theorem levelSize_pos
    (layout : BuddyLayout)
    (i : Nat) :
    0 < layout.levelSize i :=
  Nat.mul_pos (Nat.two_pow_pos i) (Nat.two_pow_pos layout.basicBits)

/-- A level holds blocks of twice the size of the level below. -/
theorem levelSize_succ
    (layout : BuddyLayout)
    (i : Nat) :
    layout.levelSize (i + 1) = 2 * layout.levelSize i := by
  unfold BuddyLayout.levelSize
  rw [Nat.pow_succ', Nat.mul_assoc]

/-- Level sizes are powers of two. -/
theorem levelSize_eq_pow
    (layout : BuddyLayout)
    (i : Nat) :
    layout.levelSize i = 2 ^ (i + layout.basicBits) := by
  unfold BuddyLayout.levelSize BuddyLayout.basicBlockSize
  rw [Nat.pow_add]

/-- The level of a size. -/
theorem levelOf_eq
    {b i : Nat}
    (size : sizeAt state b = layout.levelSize i) :
    state.levelOf layout b = i := by
  unfold levelOf
  change Nat.log2 (sizeAt state b / layout.basicBlockSize) = i
  rw [size]
  unfold BuddyLayout.levelSize BuddyLayout.basicBlockSize
  rw [Nat.mul_div_cancel _ (Nat.two_pow_pos layout.basicBits)]
  exact Nat.log2_two_pow

namespace Partition

/-- Every block has the size of a level. -/
theorem level
    (partition : Partition layout state items hand)
    {b : Nat}
    (isTile : Tile state items hand b) :
    ∃ i, i < layout.levels ∧ sizeAt state b = layout.levelSize i := by
  obtain ⟨place, occurs⟩ := isTile
  cases place with
  | level i =>
      refine ⟨i, ?_, (partition.listed i b occurs).2⟩
      by_contra above
      have none := partition.bounded i (Nat.le_of_not_lt above)
      change b ∈ items i at occurs
      rw [none] at occurs
      cases occurs
  | live => exact (partition.allocated b occurs).2
  | hand => exact (partition.held b occurs).2

/-- The tiling of the arena is dyadic. -/
theorem dyadic
    (partition : Partition layout state items hand) :
    Dyadic (Tile state items hand) (sizeAt state) layout.start
      layout.basicBlockSize := by
  intro b isTile
  obtain ⟨i, -, size⟩ := partition.level isTile
  exact ⟨⟨i, size⟩, partition.aligned b isTile⟩

/-- Blocks of the arena are not null. -/
theorem ne_zero
    (partition : Partition layout state items hand)
    {b : Nat}
    (isTile : Tile state items hand b) :
    b ≠ 0 := by
  have lower := partition.tiles.lower b isTile
  have positive := layout.positive
  omega

/-- A block that is marked free and not held is in the list of its level. -/
theorem listed_of_free
    (partition : Partition layout state items hand)
    {b i : Nat}
    (isTile : Tile state items hand b)
    (notHeld : b ∉ hand)
    (isFree : (state.header b).free = true)
    (size : sizeAt state b = layout.levelSize i) :
    b ∈ items i := by
  obtain ⟨place, occurs⟩ := isTile
  cases place with
  | level j =>
      have sameSize := (partition.listed j b occurs).2
      rw [size] at sameSize
      rw [levelSize_injective sameSize]
      exact occurs
  | live =>
      rw [(partition.allocated b occurs).1] at isFree
      cases isFree
  | hand => exact absurd occurs notHeld

/-- A free list is no longer than the arena has basic blocks. -/
theorem length_lt_walkFuel
    (partition : Partition layout state items hand)
    (i : Nat) :
    (items i).length < layout.walkFuel := by
  have basicPositive : 0 < layout.basicBlockSize :=
    Nat.two_pow_pos layout.basicBits
  have multiple :
      ∀ b,
        b ∈ items i →
        layout.start ≤ b ∧
          layout.basicBlockSize ∣ b - layout.start ∧
          b - layout.start + layout.basicBlockSize ≤
            layout.totalMemorySize := by
    intro b occurs
    have isTile : Tile state items hand b := ⟨.level i, occurs⟩
    have lower := partition.tiles.lower b isTile
    have upper := partition.tiles.upper b isTile
    obtain ⟨j, -, size⟩ := partition.level isTile
    have divides : layout.basicBlockSize ∣ sizeAt state b := by
      rw [size]
      exact Nat.dvd_mul_left _ _
    have atLeast :=
      Nat.le_of_dvd (partition.tiles.positive b isTile) divides
    unfold BuddyLayout.finish at upper
    exact ⟨lower, Nat.dvd_trans divides (partition.aligned b isTile),
      by omega⟩
  have distinct :
      ((items i).map fun b =>
        (b - layout.start) / layout.basicBlockSize).Nodup := by
    refine (List.nodup_map_iff_inj_on (partition.splits.nodup (.level i))).mpr
      ?_
    intro b occurs b' occurs' same
    obtain ⟨lower, ⟨k, shape⟩, -⟩ := multiple b occurs
    obtain ⟨lower', ⟨k', shape'⟩, -⟩ := multiple b' occurs'
    rw [shape, shape', Nat.mul_div_cancel_left _ basicPositive,
      Nat.mul_div_cancel_left _ basicPositive] at same
    rw [same] at shape
    omega
  have bounded :
      ((items i).map fun b =>
        (b - layout.start) / layout.basicBlockSize) ⊆
        List.range (layout.totalMemorySize / layout.basicBlockSize) := by
    intro index member
    obtain ⟨b, occurs, rfl⟩ := List.mem_map.mp member
    obtain ⟨-, ⟨k, shape⟩, upper⟩ := multiple b occurs
    rw [shape] at upper ⊢
    rw [Nat.mul_div_cancel_left _ basicPositive, List.mem_range,
      ← Nat.succ_le_iff, Nat.le_div_iff_mul_le basicPositive, Nat.succ_mul,
      Nat.mul_comm k]
    exact upper
  have shorter := (List.subperm_of_subset distinct bounded).length_le
  rw [List.length_map, List.length_range] at shorter
  unfold BuddyLayout.walkFuel
  omega

/-- Blocks that move between two places keep the tiling. -/
theorem exchange
    (partition : Partition layout state items hand)
    (state' : Buddy)
    (items' : Nat → List Nat)
    (hand' : List Nat)
    {first second : Place}
    (distinct : first ≠ second)
    (sameItems :
      (content state items hand first ++
          content state items hand second).Perm
        (content state' items' hand' first ++
          content state' items' hand' second))
    (others :
      ∀ place,
        place ≠ first →
        place ≠ second →
        content state' items' hand' place = content state items hand place)
    (sameSize :
      ∀ b, Tile state items hand b → sizeAt state' b = sizeAt state b) :
    Splits (content state' items' hand') (Tile state' items' hand') ∧
      Tiles (Tile state' items' hand') (sizeAt state') layout.start
        layout.finish ∧
      (∀ b,
        Tile state' items' hand' b → sizeAt state' b ∣ b - layout.start) := by
  have splits := partition.splits.exchange distinct sameItems others
  have sameTile :
      ∀ b, Tile state' items' hand' b ↔ Tile state items hand b :=
    fun b => (splits.covers b).symm
  refine ⟨splits.congr_member sameTile,
    partition.tiles.congr sameTile sameSize, ?_⟩
  intro b isTile
  rw [sameTile] at isTile
  rw [sameSize b isTile]
  exact partition.aligned b isTile

end Partition

end Buddy

end Bxalloc
