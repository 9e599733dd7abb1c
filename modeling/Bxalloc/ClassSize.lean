import Bxalloc.Config
import Mathlib.Data.List.Basic
import Mathlib.Tactic.NormNum

namespace Bxalloc

/-!
# Size classes

`ClassSize.hpp`: requests are rounded up with one of four alignments, and the
rounded size is looked up in a table filled from the class sizes.  Sizes are
`size_t` values; a function that returns `-1` returns `2 ^ 64 - 1`.
-/

namespace ClassSize

/-- `_RoundUp`: `(size + align - 1) & ~(align - 1)` on 64-bit words. -/
def roundUpTo (size align : Nat) : Nat :=
  (size + align - 1) % 2 ^ 64 &&& (2 ^ 64 - align)

/-- `RoundUp`. -/
def roundUp (size : Nat) : Nat :=
  if size ≤ 128 then
    roundUpTo size 8
  else if size ≤ 1024 then
    roundUpTo size 16
  else if size ≤ 8192 then
    roundUpTo size 128
  else if size ≤ 65536 then
    roundUpTo size 512
  else
    2 ^ 64 - 1

/-- `getsizefromindex`. -/
def getSizeFromIndex (index : Nat) : Nat :=
  if index < 16 then
    (index + 1) * 8
  else if index < 72 then
    128 + (index + 1 - 16) * 16
  else if index < 128 then
    1024 + (index + 1 - 72) * 128
  else if index < 160 then
    8 * 1024 + (index + 1 - 128) * 512
  else
    2 ^ 64 - 1

/-- The table `indextosize`, filled by the constructor. -/
def indexToSize (index : Nat) : Nat :=
  getSizeFromIndex index

/--
`sizetoindex.find`: the constructor inserts `indextosize[i] ↦ i` for every
class in turn and `insert` keeps the first entry of a key.  `none` is `end()`.
-/
def sizeToIndex (size : Nat) : Option Nat :=
  (List.range nlist).find? fun index => indexToSize index == size

/-- Clearing the low bits of a 64-bit word rounds it down. -/
theorem and_alignMask
    {word bits : Nat}
    (fits : word < 2 ^ 64)
    (small : bits ≤ 64) :
    word &&& (2 ^ 64 - 2 ^ bits) = word / 2 ^ bits * 2 ^ bits := by
  have maskShape :
      2 ^ 64 - 2 ^ bits = (2 ^ (64 - bits) - 1) <<< bits := by
    rw [Nat.shiftLeft_eq, Nat.sub_mul, ← Nat.pow_add, Nat.one_mul,
      Nat.sub_add_cancel small]
  rw [maskShape, ← Nat.shiftRight_eq_div_pow, ← Nat.shiftLeft_eq]
  apply Nat.eq_of_testBit_eq
  intro bit
  simp only [Nat.testBit_and, Nat.testBit_shiftLeft,
    Nat.testBit_shiftRight, Nat.testBit_two_pow_sub_one]
  by_cases low : bits ≤ bit
  · rw [Nat.add_sub_cancel' low]
    by_cases inside : bit < 64
    · have early : bit - bits < 64 - bits := by
        omega
      simp [low, early]
    · have zeroBit : word.testBit bit = false :=
        Nat.testBit_lt_two_pow
          (Nat.lt_of_lt_of_le fits
            (Nat.pow_le_pow_right (by decide) (by omega)))
      simp [zeroBit]
  · simp [low]

/-- Rounding up to a power of two, as a quotient. -/
theorem roundUpTo_pow
    {size : Nat}
    (bits : Nat)
    (small : size ≤ 65536)
    (fewBits : bits ≤ 16) :
    roundUpTo size (2 ^ bits) =
      (size + 2 ^ bits - 1) / 2 ^ bits * 2 ^ bits := by
  have power : 2 ^ bits ≤ 2 ^ 16 :=
    Nat.pow_le_pow_right (by decide) fewBits
  have fits : size + 2 ^ bits - 1 < 2 ^ 64 := by
    omega
  unfold roundUpTo
  rw [Nat.mod_eq_of_lt fits, and_alignMask fits (by omega)]

/-- Rounding as the four alignment bands give it. -/
theorem roundUp_eq
    {size : Nat}
    (small : size ≤ 65536) :
    roundUp size =
      if size ≤ 128 then
        (size + 7) / 8 * 8
      else if size ≤ 1024 then
        (size + 15) / 16 * 16
      else if size ≤ 8192 then
        (size + 127) / 128 * 128
      else
        (size + 511) / 512 * 512 := by
  have band3 := roundUpTo_pow 3 small (by decide)
  have band4 := roundUpTo_pow 4 small (by decide)
  have band7 := roundUpTo_pow 7 small (by decide)
  have band9 := roundUpTo_pow 9 small (by decide)
  norm_num at band3 band4 band7 band9
  simp only [roundUp, band3, band4, band7, band9, small, if_true]

/-- The class index that serves a size, computed from the bands. -/
def classIndex (size : Nat) : Nat :=
  if size ≤ 128 then
    (size + 7) / 8 - 1
  else if size ≤ 1024 then
    (size + 15) / 16 + 7
  else if size ≤ 8192 then
    (size + 127) / 128 + 63
  else
    (size + 511) / 512 + 111

/-- The serving class exists and its blocks have the rounded size. -/
theorem indexToSize_classIndex
    {size : Nat}
    (positive : 1 ≤ size)
    (served : size ≤ maxSz) :
    classIndex size < nlist ∧
      indexToSize (classIndex size) = roundUp size := by
  simp only [maxSz] at served
  rw [roundUp_eq (by omega)]
  unfold classIndex indexToSize getSizeFromIndex
  simp only [nlist]
  constructor
  · split_ifs <;> omega
  · split_ifs <;> omega

/-- Rounding never shrinks a request. -/
theorem le_roundUp
    {size : Nat}
    (small : size ≤ 65536) :
    size ≤ roundUp size := by
  rw [roundUp_eq small]
  split_ifs <;> omega

/-- Whatever the table returns is a class of exactly the requested size. -/
theorem sizeToIndex_sound
    {size index : Nat}
    (found : sizeToIndex size = some index) :
    index < nlist ∧ indexToSize index = size := by
  unfold sizeToIndex at found
  have inRange := List.mem_of_find?_eq_some found
  have matching := List.find?_some found
  exact ⟨List.mem_range.mp inRange, by simpa using matching⟩

/-- The lookup of a rounded request never misses. -/
theorem sizeToIndex_roundUp
    {size : Nat}
    (positive : 1 ≤ size)
    (served : size ≤ maxSz) :
    ∃ index, sizeToIndex (roundUp size) = some index := by
  obtain ⟨inTable, sameSize⟩ :=
    indexToSize_classIndex positive served
  apply Option.isSome_iff_exists.mp
  unfold sizeToIndex
  rw [List.find?_isSome]
  exact ⟨classIndex size, List.mem_range.mpr inTable, by simpa using sameSize⟩

/-- Class sizes are multiples of eight between 8 bytes and 24 KiB. -/
theorem indexToSize_bounds
    {index : Nat}
    (inTable : index < nlist) :
    8 ≤ indexToSize index ∧
      indexToSize index ≤ maxSz ∧
      indexToSize index % 8 = 0 := by
  simp only [nlist] at inTable
  unfold indexToSize getSizeFromIndex
  simp only [maxSz]
  split_ifs <;> omega

end ClassSize

/--
The number of bytes of a block of heap `sc`: a class size, or the whole
superblock for `heaps[NLIST]`.
-/
def blockBytes (sc : Nat) : Nat :=
  if sc = nlist then sbSize else ClassSize.indexToSize sc

/-- The blocks of a size class have the size of the class. -/
theorem blockBytes_small
    {sc : Nat}
    (valid : sc < nlist) :
    blockBytes sc = ClassSize.indexToSize sc :=
  if_neg (Nat.ne_of_lt valid)

/-- Every heap's blocks hold a link and fit in a superblock. -/
theorem blockBytes_bounds
    {sc : Nat}
    (valid : sc ≤ nlist) :
    8 ≤ blockBytes sc ∧ blockBytes sc ≤ sbSize := by
  unfold blockBytes
  split
  · simp only [sbSize, pageSize]
    omega
  · have inTable : sc < nlist := by
      omega
    have bounds := ClassSize.indexToSize_bounds inTable
    simp only [maxSz] at bounds
    simp only [sbSize, pageSize]
    omega

/-- A superblock holds at least one block, and its blocks do not overrun it. -/
theorem blockCount_bounds
    {sc : Nat}
    (valid : sc ≤ nlist) :
    1 ≤ sbSize / blockBytes sc ∧
      sbSize / blockBytes sc ≤ 8192 ∧
      sbSize / blockBytes sc * blockBytes sc ≤ sbSize := by
  obtain ⟨lower, upper⟩ := blockBytes_bounds valid
  refine ⟨?_, ?_, Nat.div_mul_le_self _ _⟩
  · exact (Nat.one_le_div_iff (by omega)).mpr upper
  · exact Nat.div_le_of_le_mul (by simp only [sbSize, pageSize] at *; omega)

/-- A superblock holds at least one block of every size class. -/
theorem classCount_pos
    {sc : Nat}
    (valid : sc < nlist) :
    1 ≤ sbSize / ClassSize.indexToSize sc := by
  rw [← blockBytes_small valid]
  exact (blockCount_bounds valid.le).1

end Bxalloc
