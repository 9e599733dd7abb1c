import Mathlib.Algebra.BigOperators.Group.Finset.Sigma
import Mathlib.Algebra.Order.Group.Nat
import Mathlib.Data.Nat.Bitwise
import Mathlib.Order.Interval.Finset.Nat

namespace Bxalloc.Lib

/-!
# Tilings of an interval

A tiling cuts an interval of addresses into tiles, each given by its first
address and its size.  A tile can be split in two and two neighbours can be
merged.  In a dyadic tiling every size is a unit times a power of two and every
tile is aligned to its size; there the other half of a tile's parent starts a
tile that is no larger.
-/

/-- The tiles are disjoint and cover the interval from `first` to `last`. -/
structure Tiles
    (tile : Nat → Prop)
    (size : Nat → Nat)
    (first last : Nat) : Prop where
  positive : ∀ t, tile t → 0 < size t
  lower : ∀ t, tile t → first ≤ t
  upper : ∀ t, tile t → t + size t ≤ last
  apart :
    ∀ t u, tile t → tile u → t ≠ u → t + size t ≤ u ∨ u + size u ≤ t
  covers :
    ∀ x, first ≤ x → x < last → ∃ t, tile t ∧ t ≤ x ∧ x < t + size t

/-- Sizes are powers of two times a unit, and tiles are aligned to them. -/
def Dyadic
    (tile : Nat → Prop)
    (size : Nat → Nat)
    (first unit : Nat) : Prop :=
  ∀ t, tile t → (∃ i, size t = 2 ^ i * unit) ∧ size t ∣ t - first

namespace Tiles

variable {tile tile' : Nat → Prop} {size size' : Nat → Nat}
variable {first last : Nat}

/-- Tiles of one size, side by side. -/
theorem uniform
    {step count : Nat}
    (positive : 0 < step)
    (isTile : ∀ t, tile t ↔ ∃ k, k < count ∧ t = first + k * step)
    (isSize : ∀ t, tile t → size t = step) :
    Tiles tile size first (first + count * step) where
  positive t holds := by
    rw [isSize t holds]
    exact positive
  lower t holds := by
    obtain ⟨k, -, rfl⟩ := (isTile t).mp holds
    omega
  upper t holds := by
    rw [isSize t holds]
    obtain ⟨k, less, rfl⟩ := (isTile t).mp holds
    have next := Nat.mul_le_mul_right step less
    rw [Nat.succ_mul] at next
    omega
  apart t u holds holds' distinct := by
    rw [isSize t holds, isSize u holds']
    obtain ⟨k, -, rfl⟩ := (isTile t).mp holds
    obtain ⟨m, -, rfl⟩ := (isTile u).mp holds'
    rcases Nat.lt_trichotomy k m with less | same | less
    · have next := Nat.mul_le_mul_right step less
      rw [Nat.succ_mul] at next
      omega
    · exact absurd (by rw [same]) distinct
    · have next := Nat.mul_le_mul_right step less
      rw [Nat.succ_mul] at next
      omega
  covers x above below := by
    have whole := Nat.div_add_mod (x - first) step
    have rest := Nat.mod_lt (x - first) positive
    rw [Nat.mul_comm] at whole
    have less : (x - first) / step < count := by
      rw [Nat.div_lt_iff_lt_mul positive]
      omega
    have holds := (isTile _).mpr ⟨_, less, rfl⟩
    refine ⟨_, holds, by omega, ?_⟩
    rw [isSize _ holds]
    omega

/-- A tiling depends on its tiles and their sizes only. -/
theorem congr
    (tiles : Tiles tile size first last)
    (sameTile : ∀ t, tile' t ↔ tile t)
    (sameSize : ∀ t, tile t → size' t = size t) :
    Tiles tile' size' first last where
  positive t isTile := by
    rw [sameTile] at isTile
    rw [sameSize t isTile]
    exact tiles.positive t isTile
  lower t isTile := tiles.lower t ((sameTile t).mp isTile)
  upper t isTile := by
    rw [sameTile] at isTile
    rw [sameSize t isTile]
    exact tiles.upper t isTile
  apart t u isTile isOther distinct := by
    rw [sameTile] at isTile isOther
    rw [sameSize t isTile, sameSize u isOther]
    exact tiles.apart t u isTile isOther distinct
  covers x above below := by
    obtain ⟨t, isTile, lower, upper⟩ := tiles.covers x above below
    refine ⟨t, (sameTile t).mpr isTile, lower, ?_⟩
    rwa [sameSize t isTile]

/-- Tiles with a common point are the same. -/
theorem eq_of_common
    (tiles : Tiles tile size first last)
    {t u x : Nat}
    (isTile : tile t)
    (isOther : tile u)
    (lower : t ≤ x)
    (upper : x < t + size t)
    (lower' : u ≤ x)
    (upper' : x < u + size u) :
    t = u := by
  by_contra distinct
  have apart := tiles.apart t u isTile isOther distinct
  omega

/-- Behind a tile comes the next tile or the end. -/
theorem next
    (tiles : Tiles tile size first last)
    {t : Nat}
    (isTile : tile t)
    (more : t + size t < last) :
    tile (t + size t) := by
  have above := tiles.lower t isTile
  have positive := tiles.positive t isTile
  obtain ⟨u, isOther, lower, upper⟩ :=
    tiles.covers (t + size t) (by omega) more
  have distinct : t ≠ u := by
    rintro rfl
    omega
  have apart := tiles.apart t u isTile isOther distinct
  have same : u = t + size t := by
    omega
  rwa [same] at isOther

/-- A nonempty tiling starts with a tile. -/
theorem head
    (tiles : Tiles tile size first last)
    (nonempty : first < last) :
    tile first := by
  obtain ⟨t, isTile, lower, upper⟩ :=
    tiles.covers first (Nat.le_refl _) nonempty
  have above := tiles.lower t isTile
  have same : t = first := by
    omega
  rwa [same] at isTile

/-- No tile starts inside another tile. -/
theorem not_tile_inside
    (tiles : Tiles tile size first last)
    {t x : Nat}
    (isTile : tile t)
    (lower : t < x)
    (upper : x < t + size t) :
    ¬ tile x := by
  intro isOther
  have positive := tiles.positive x isOther
  have same :=
    tiles.eq_of_common isTile isOther (by omega) upper (Nat.le_refl _)
      (by omega)
  omega

/-- Tiles that another tiling gives the same size are its tiles, too. -/
theorem subset
    (tiles : Tiles tile size first last)
    (tiles' : Tiles tile' size' first last)
    (sameSize : ∀ t, tile t → size' t = size t)
    {t : Nat}
    (isTile : tile t) :
    tile' t := by
  -- Along the tiling: a tile starts the interval or ends its predecessor.
  induction t using Nat.strong_induction_on with
  | _ t inductionHypothesis =>
      have lower := tiles.lower t isTile
      have upper := tiles.upper t isTile
      have positive := tiles.positive t isTile
      rcases Nat.eq_or_lt_of_le lower with same | later
      · rw [← same]
        exact tiles'.head (by omega)
      · obtain ⟨u, isOther, below, above⟩ :=
          tiles.covers (t - 1) (by omega) (by omega)
        have distinct : u ≠ t := by
          omega
        have apart := tiles.apart u t isOther isTile distinct
        have ends : u + size u = t := by
          omega
        have known := inductionHypothesis u (by omega) isOther
        have following := tiles'.next known
        rw [sameSize u isOther, ends] at following
        exact following (by omega)

/-- The sizes determine a tiling. -/
theorem unique
    (tiles : Tiles tile size first last)
    (tiles' : Tiles tile' size' first last)
    (sameSize : ∀ t, tile t → size' t = size t)
    (t : Nat) :
    tile' t ↔ tile t := by
  refine ⟨fun isTile => ?_, tiles.subset tiles' sameSize⟩
  have lower := tiles'.lower t isTile
  have upper := tiles'.upper t isTile
  have positive := tiles'.positive t isTile
  obtain ⟨u, isOther, below, above⟩ := tiles.covers t lower (by omega)
  have known := tiles.subset tiles' sameSize isOther
  rw [← sameSize u isOther] at above
  have same :=
    tiles'.eq_of_common isTile known (Nat.le_refl t) (by omega) below above
  rw [same]
  exact isOther

/-- Split a tile in two. -/
theorem split
    (tiles : Tiles tile size first last)
    {t left right : Nat}
    (isTile : tile t)
    (whole : size t = left + right)
    (leftPositive : 0 < left)
    (rightPositive : 0 < right)
    (newTile : ∀ x, tile' x ↔ tile x ∨ x = t + left)
    (leftSize : size' t = left)
    (rightSize : size' (t + left) = right)
    (others : ∀ x, tile x → x ≠ t → size' x = size x) :
    Tiles tile' size' first last := by
  have above := tiles.lower t isTile
  have below := tiles.upper t isTile
  have inside : ¬ tile (t + left) :=
    tiles.not_tile_inside isTile (by omega) (by omega)
  -- Every new tile is a half of the old one or an old tile beside it.
  have shape :
      ∀ x,
        tile' x →
        (x = t ∧ size' x = left) ∨
          (x = t + left ∧ size' x = right) ∨
          (tile x ∧ size' x = size x ∧
            (x + size x ≤ t ∨ t + left + right ≤ x)) := by
    intro x isNew
    rcases (newTile x).mp isNew with isOld | isHalf
    · by_cases same : x = t
      · subst same
        exact Or.inl ⟨rfl, leftSize⟩
      · have apart := tiles.apart x t isOld isTile same
        refine Or.inr (Or.inr ⟨isOld, others x isOld same, ?_⟩)
        omega
    · subst isHalf
      exact Or.inr (Or.inl ⟨rfl, rightSize⟩)
  refine ⟨?_, ?_, ?_, ?_, ?_⟩
  · intro x isNew
    rcases shape x isNew with ⟨-, same⟩ | ⟨-, same⟩ | ⟨isOld, same, -⟩
    · omega
    · omega
    · rw [same]
      exact tiles.positive x isOld
  · intro x isNew
    rcases shape x isNew with ⟨rfl, -⟩ | ⟨rfl, -⟩ | ⟨isOld, -, -⟩
    · exact above
    · omega
    · exact tiles.lower x isOld
  · intro x isNew
    rcases shape x isNew with ⟨rfl, same⟩ | ⟨rfl, same⟩ | ⟨isOld, same, -⟩
    · omega
    · omega
    · rw [same]
      exact tiles.upper x isOld
  · intro x y isNew isNew' distinct
    rcases shape x isNew with ⟨rfl, same⟩ | ⟨rfl, same⟩ | ⟨isOld, same, aside⟩
    · rcases shape y isNew' with ⟨rfl, same'⟩ | ⟨rfl, same'⟩ |
        ⟨isOld', same', aside'⟩ <;> omega
    · rcases shape y isNew' with ⟨rfl, same'⟩ | ⟨rfl, same'⟩ |
        ⟨isOld', same', aside'⟩ <;> omega
    · rcases shape y isNew' with ⟨rfl, same'⟩ | ⟨rfl, same'⟩ |
        ⟨isOld', same', aside'⟩
      · omega
      · omega
      · rw [same, same']
        exact tiles.apart x y isOld isOld' distinct
  · intro x lower upper
    obtain ⟨u, isOld, belowX, aboveX⟩ := tiles.covers x lower upper
    by_cases same : u = t
    · subst same
      by_cases inLeft : x < u + left
      · exact ⟨u, (newTile u).mpr (Or.inl isOld), belowX, by omega⟩
      · exact ⟨u + left, (newTile _).mpr (Or.inr rfl), by omega, by omega⟩
    · refine ⟨u, (newTile u).mpr (Or.inl isOld), belowX, ?_⟩
      rw [others u isOld same]
      exact aboveX

/-- Merge two neighbours. -/
theorem merge
    (tiles : Tiles tile size first last)
    {t u : Nat}
    (isTile : tile t)
    (isOther : tile u)
    (neighbours : u = t + size t)
    (newTile : ∀ x, tile' x ↔ tile x ∧ x ≠ u)
    (sum : size' t = size t + size u)
    (others : ∀ x, tile x → x ≠ t → x ≠ u → size' x = size x) :
    Tiles tile' size' first last := by
  have positive := tiles.positive t isTile
  have above := tiles.lower t isTile
  have below := tiles.upper u isOther
  have shape :
      ∀ x,
        tile' x →
        (x = t ∧ size' x = size t + size u) ∨
          (tile x ∧ size' x = size x ∧
            (x + size x ≤ t ∨ u + size u ≤ x)) := by
    intro x isNew
    obtain ⟨isOld, notOther⟩ := (newTile x).mp isNew
    by_cases same : x = t
    · subst same
      exact Or.inl ⟨rfl, sum⟩
    · have fromLeft := tiles.apart x t isOld isTile same
      have fromRight := tiles.apart x u isOld isOther notOther
      have xPositive := tiles.positive x isOld
      exact Or.inr ⟨isOld, others x isOld same notOther, by omega⟩
  refine ⟨?_, ?_, ?_, ?_, ?_⟩
  · intro x isNew
    rcases shape x isNew with ⟨-, same⟩ | ⟨isOld, same, -⟩
    · omega
    · rw [same]
      exact tiles.positive x isOld
  · intro x isNew
    exact tiles.lower x ((newTile x).mp isNew).1
  · intro x isNew
    rcases shape x isNew with ⟨rfl, same⟩ | ⟨isOld, same, -⟩
    · omega
    · rw [same]
      exact tiles.upper x isOld
  · intro x y isNew isNew' distinct
    rcases shape x isNew with ⟨rfl, same⟩ | ⟨isOld, same, aside⟩
    · rcases shape y isNew' with ⟨rfl, same'⟩ | ⟨isOld', same', aside'⟩ <;>
        omega
    · rcases shape y isNew' with ⟨rfl, same'⟩ | ⟨isOld', same', aside'⟩
      · omega
      · rw [same, same']
        exact tiles.apart x y isOld isOld' distinct
  · intro x lower upper
    obtain ⟨v, isOld, belowX, aboveX⟩ := tiles.covers x lower upper
    by_cases isFirst : v = t
    · subst isFirst
      refine ⟨v, (newTile v).mpr ⟨isOld, by omega⟩, belowX, by omega⟩
    · by_cases isSecond : v = u
      · subst isSecond
        exact ⟨t, (newTile t).mpr ⟨isTile, by omega⟩, by omega, by omega⟩
      · refine ⟨v, (newTile v).mpr ⟨isOld, isSecond⟩, belowX, ?_⟩
        rw [others v isOld isFirst isSecond]
        exact aboveX

/-- The sizes of all tiles add up to the interval. -/
theorem sum_size
    (tiles : Tiles tile size first last)
    {items : List Nat}
    (once : items.Nodup)
    (all : ∀ t, t ∈ items ↔ tile t) :
    (items.map size).sum = last - first := by
  have union :
      items.toFinset.biUnion (fun t => Finset.Ico t (t + size t)) =
        Finset.Ico first last := by
    ext x
    simp only [Finset.mem_biUnion, List.mem_toFinset, Finset.mem_Ico, all]
    constructor
    · rintro ⟨t, isTile, below, above⟩
      have lower := tiles.lower t isTile
      have upper := tiles.upper t isTile
      omega
    · rintro ⟨lower, upper⟩
      exact tiles.covers x lower upper
  have apart :
      ∀ t, t ∈ items.toFinset →
        ∀ u, u ∈ items.toFinset →
          t ≠ u →
          Disjoint (Finset.Ico t (t + size t)) (Finset.Ico u (u + size u)) := by
    intro t isTile u isOther distinct
    rw [List.mem_toFinset, all] at isTile isOther
    have beside := tiles.apart t u isTile isOther distinct
    rw [Finset.disjoint_left]
    intro x inside inside'
    rw [Finset.mem_Ico] at inside inside'
    omega
  calc
    (items.map size).sum = ∑ t ∈ items.toFinset, size t :=
      (List.sum_toFinset size once).symm
    _ = ∑ t ∈ items.toFinset, (Finset.Ico t (t + size t)).card := by
      refine Finset.sum_congr rfl ?_
      intro t _
      rw [Nat.card_Ico, Nat.add_sub_cancel_left]
    _ = last - first := by
      rw [← Finset.card_biUnion apart, union, Nat.card_Ico]

end Tiles

/-- The other half of the aligned pair that an offset belongs to. -/
def otherHalf (size offset : Nat) : Nat :=
  if offset / size % 2 = 0 then offset + size else offset - size

/-- At aligned offsets the other half is computed by an exclusive or. -/
theorem xor_eq_otherHalf
    {bits offset : Nat}
    (aligned : 2 ^ bits ∣ offset) :
    offset ^^^ 2 ^ bits = otherHalf (2 ^ bits) offset := by
  obtain ⟨index, rfl⟩ := aligned
  have positive : 0 < 2 ^ bits := Nat.two_pow_pos bits
  have shifted :
      2 ^ bits * index ^^^ 2 ^ bits = 2 ^ bits * (index ^^^ 1) := by
    have distributes := @Nat.shiftLeft_xor_distrib bits index 1
    simp only [Nat.shiftLeft_eq, Nat.one_mul] at distributes
    rw [Nat.mul_comm _ index, Nat.mul_comm _ (index ^^^ 1)]
    exact distributes.symm
  unfold otherHalf
  rw [shifted, Nat.mul_div_cancel_left index positive]
  split
  · next even =>
      rw [Nat.xor_one_of_even (Nat.even_iff.mpr even), Nat.mul_add,
        Nat.mul_one]
  · next odd =>
      rw [Nat.xor_one_of_odd (Nat.odd_iff.mpr (by omega)), Nat.mul_sub,
        Nat.mul_one]

/-- The two halves lie in the same pair, at different places. -/
theorem otherHalf_pair
    {size offset : Nat}
    (positive : 0 < size)
    (aligned : size ∣ offset) :
    size ∣ otherHalf size offset ∧
      otherHalf size offset ≠ offset ∧
      otherHalf size offset / (2 * size) = offset / (2 * size) ∧
      (otherHalf size offset = offset + size ∨
        offset = otherHalf size offset + size) ∧
      2 * size ∣ min offset (otherHalf size offset) := by
  obtain ⟨index, rfl⟩ := aligned
  have pair : ∀ k, size * k / (2 * size) = k / 2 := by
    intro k
    rw [Nat.mul_comm 2 size, Nat.mul_div_mul_left _ _ positive]
  unfold otherHalf
  rw [Nat.mul_div_cancel_left index positive]
  split
  · next even =>
      have shape : size * index + size = size * (index + 1) := by
        rw [Nat.mul_add, Nat.mul_one]
      rw [shape, pair, pair]
      refine ⟨Nat.dvd_mul_right _ _, by omega, by omega, by omega, ?_⟩
      rw [Nat.min_eq_left (by omega)]
      obtain ⟨half, rfl⟩ : 2 ∣ index := Nat.dvd_of_mod_eq_zero even
      exact ⟨half, by rw [Nat.mul_comm 2 size, Nat.mul_assoc]⟩
  · next odd =>
      have shape : size * index - size = size * (index - 1) := by
        rw [Nat.mul_sub, Nat.mul_one]
      have restore : size * index = size * (index - 1) + size := by
        rw [← Nat.mul_succ, Nat.succ_eq_add_one, Nat.sub_add_cancel (by omega)]
      rw [shape, pair, pair]
      refine ⟨Nat.dvd_mul_right _ _, by omega, by omega, by omega, ?_⟩
      rw [Nat.min_eq_right (by omega)]
      obtain ⟨half, isHalf⟩ : 2 ∣ index - 1 :=
        Nat.dvd_of_mod_eq_zero (by omega)
      exact ⟨half, by rw [isHalf, Nat.mul_comm 2 size, Nat.mul_assoc]⟩

/-- The other half of a tile's parent starts a tile that is no larger. -/
theorem Tiles.otherHalf_tile
    {tile : Nat → Prop}
    {size : Nat → Nat}
    {first last unit t : Nat}
    (tiles : Tiles tile size first last)
    (dyadic : Dyadic tile size first unit)
    (isTile : tile t)
    (inside : first + otherHalf (size t) (t - first) < last) :
    tile (first + otherHalf (size t) (t - first)) ∧
      size (first + otherHalf (size t) (t - first)) ≤ size t := by
  have positive := tiles.positive t isTile
  have above := tiles.lower t isTile
  obtain ⟨⟨i, sizeShape⟩, aligned⟩ := dyadic t isTile
  obtain ⟨otherAligned, distinct, samePair, -, -⟩ :=
    otherHalf_pair positive aligned
  generalize otherHalf (size t) (t - first) = offset at *
  obtain ⟨v, isOther, lower, upper⟩ :=
    tiles.covers (first + offset) (by omega) inside
  have otherPositive := tiles.positive v isOther
  have otherAbove := tiles.lower v isOther
  obtain ⟨⟨j, otherShape⟩, vAligned⟩ := dyadic v isOther
  by_cases small : j ≤ i
  · -- A tile that is no larger is aligned at the offset itself.
    have divides : size v ∣ size t := by
      rw [sizeShape, otherShape]
      exact Nat.mul_dvd_mul_right (Nat.pow_dvd_pow 2 small) unit
    obtain ⟨a, offsetShape⟩ := Nat.dvd_trans divides otherAligned
    obtain ⟨b, vShape⟩ := vAligned
    have same : b = a := by
      have notBelow : ¬ b < a := by
        intro less
        have step := Nat.mul_le_mul_left (size v) less
        rw [Nat.mul_succ] at step
        omega
      have notAbove : ¬ a < b := by
        intro less
        have step := Nat.mul_le_mul_left (size v) less
        rw [Nat.mul_succ] at step
        omega
      omega
    have isOffset : v = first + offset := by
      rw [same] at vShape
      omega
    subst isOffset
    exact ⟨isOther, Nat.le_of_dvd positive divides⟩
  · -- A larger tile would contain the whole pair, so the tile itself.
    have divides : 2 * size t ∣ size v := by
      rw [sizeShape, otherShape, ← Nat.mul_assoc, ← Nat.pow_succ']
      exact Nat.mul_dvd_mul_right (Nat.pow_dvd_pow 2 (by omega)) unit
    obtain ⟨m, mShape⟩ := divides
    obtain ⟨k, kShape⟩ := vAligned
    have pairPositive : 0 < 2 * size t := by
      omega
    have window :
        ∀ x,
          size v * k ≤ x ∧ x < size v * k + size v ↔
            m * k ≤ x / (2 * size t) ∧ x / (2 * size t) < m * k + m := by
      intro x
      rw [Nat.le_div_iff_mul_le pairPositive, Nat.div_lt_iff_lt_mul pairPositive,
        mShape]
      have shape : 2 * size t * m * k = m * k * (2 * size t) := by
        rw [Nat.mul_assoc, Nat.mul_comm]
      have shape' :
          2 * size t * m * k + 2 * size t * m =
            (m * k + m) * (2 * size t) := by
        rw [shape, Nat.add_mul, Nat.mul_comm (2 * size t) m]
      rw [shape', shape]
    have offsetInside := (window offset).mp (by omega)
    rw [samePair] at offsetInside
    have tInside := (window (t - first)).mpr offsetInside
    have same : t = v :=
      tiles.eq_of_common isTile isOther (Nat.le_refl _) (by omega) (by omega)
        (by omega)
    subst same
    exact absurd mShape (by
      intro isMultiple
      rcases Nat.eq_zero_or_pos m with rfl | some
      · omega
      · have step := Nat.mul_le_mul_left (2 * size t) some
        omega)

/-- The other half of a left half follows it. -/
theorem otherHalf_left
    {size offset : Nat}
    (positive : 0 < size)
    (aligned : 2 * size ∣ offset) :
    otherHalf size offset = offset + size := by
  obtain ⟨index, rfl⟩ := aligned
  have shape : 2 * size * index = size * (2 * index) := by
    rw [Nat.mul_comm 2 size, Nat.mul_assoc]
  unfold otherHalf
  rw [shape, Nat.mul_div_cancel_left _ positive, Nat.mul_mod_right,
    if_pos rfl]

/-- The other half of a right half precedes it. -/
theorem otherHalf_right
    {size offset : Nat}
    (positive : 0 < size)
    (aligned : 2 * size ∣ offset) :
    otherHalf size (offset + size) = offset := by
  obtain ⟨index, rfl⟩ := aligned
  have shape : 2 * size * index + size = size * (2 * index + 1) := by
    rw [Nat.mul_comm 2 size, Nat.mul_assoc, Nat.mul_succ]
  unfold otherHalf
  rw [Nat.add_sub_cancel, shape, Nat.mul_div_cancel_left _ positive,
    if_neg (by omega)]

/-- An aligned block that starts before an aligned place ends there or before. -/
theorem add_le_of_dvd
    {size first last : Nat}
    (aligned : size ∣ first)
    (aligned' : size ∣ last)
    (before : first < last) :
    first + size ≤ last := by
  obtain ⟨k, rfl⟩ := aligned
  obtain ⟨m, rfl⟩ := aligned'
  have less : k < m := Nat.lt_of_mul_lt_mul_left before
  calc
    size * k + size = size * (k + 1) := (Nat.mul_succ size k).symm
    _ ≤ size * m := Nat.mul_le_mul_left size less

end Bxalloc.Lib
