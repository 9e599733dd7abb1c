import Bxalloc.Config
import Bxalloc.Lib.ByteMemory

namespace Bxalloc

/-!
# Position independent pointers

`pptr<T>` stores the distance from its own address to its target, shifted left
by sixteen bits, with a tag in the low bits: one tag for forward distances, one
for backward distances, and the bare forward tag for null.  Addresses and words
are natural numbers below `2 ^ 64`; the arithmetic of the source is `uint64_t`
arithmetic and wraps.

Free blocks are linked by a `pptr` in their first eight bytes; `readLink` and
`writeLink` are the two accesses the allocator makes to it.
-/

/-- `is_null_pptr`. -/
def isNullPptr (off : Nat) : Bool :=
  off == pptrPatternPos

/-- `is_valid_pptr`. -/
def isValidPptr (off : Nat) : Bool :=
  (off &&& pptrPatternMask) == pptrPatternPos

/-- `to_pptr_off`: encode target `v` for a pointer stored at `p`. -/
def toPptrOff (v p : Nat) : Nat :=
  if v = 0 then
    pptrPatternPos
  else if p < v then
    ((v - p) <<< pptrPatternShift) % 2 ^ 64 ||| pptrPatternPos
  else
    ((p - v) <<< pptrPatternShift) % 2 ^ 64 ||| pptrPatternNeg

/-- `from_pptr_off`: decode a word stored at `p`; zero is the null pointer. -/
def fromPptrOff (off p : Nat) : Nat :=
  if !isValidPptr off || isNullPptr off then
    0
  else if off &&& 1 = 1 then
    (p + (2 ^ 64 - off >>> pptrPatternShift)) % 2 ^ 64
  else
    (p + off >>> pptrPatternShift) % 2 ^ 64

/-- The validity mask keeps bits one to fifteen. -/
theorem and_pptrPatternMask
    (off : Nat) :
    off &&& pptrPatternMask = 2 * (off / 2 % 2 ^ 15) := by
  apply Nat.eq_of_testBit_eq
  intro bit
  have maskShape : pptrPatternMask = 2 * (2 ^ 15 - 1) := rfl
  rw [maskShape, Nat.testBit_and]
  cases bit with
  | zero =>
      simp
  | succ bit =>
      rw [Nat.testBit_succ, Nat.testBit_succ, Nat.testBit_succ,
        Nat.mul_div_cancel_left _ (by omega : 0 < 2),
        Nat.mul_div_cancel_left _ (by omega : 0 < 2),
        Nat.testBit_two_pow_sub_one, Nat.testBit_mod_two_pow,
        Bool.and_comm]

/-- The tag of an encoded word decides its validity. -/
theorem isValidPptr_iff
    (off : Nat) :
    isValidPptr off = true ↔
      off % 65536 = pptrPatternPos ∨ off % 65536 = pptrPatternNeg := by
  unfold isValidPptr
  rw [beq_iff_eq, and_pptrPatternMask]
  simp only [pptrPatternPos, pptrPatternNeg]
  omega

/-- A distance below `2 ^ 48` and a tag share no bit of the encoded word. -/
theorem shifted_or_tag
    {distance tag : Nat}
    (near : distance < 2 ^ 48)
    (small : tag < 65536) :
    (distance <<< pptrPatternShift) % 2 ^ 64 ||| tag =
      distance * 65536 + tag := by
  simp only [pptrPatternShift]
  have fits : distance <<< 16 < 2 ^ 64 := by
    rw [Nat.shiftLeft_eq]
    omega
  have tagBits : tag < 2 ^ 16 := by
    omega
  rw [Nat.mod_eq_of_lt fits,
    ← Nat.shiftLeft_add_eq_or_of_lt tagBits, Nat.shiftLeft_eq]

/-- Decoding a forward word adds the stored distance. -/
theorem fromPptrOff_forward
    {distance : Nat}
    (p : Nat)
    (nonzero : 0 < distance) :
    fromPptrOff (distance * 65536 + pptrPatternPos) p =
      (p + distance) % 2 ^ 64 := by
  simp only [pptrPatternPos]
  have valid :
      isValidPptr (distance * 65536 + 21168) = true :=
    (isValidPptr_iff _).mpr (Or.inl (by simp only [pptrPatternPos]; omega))
  have notNull :
      isNullPptr (distance * 65536 + 21168) = false := by
    simp only [isNullPptr, pptrPatternPos, beq_eq_false_iff_ne]
    omega
  have even :
      (distance * 65536 + 21168) &&& 1 = 0 := by
    rw [Nat.and_one_is_mod]
    omega
  have shifted :
      (distance * 65536 + 21168) >>> 16 =
        distance := by
    rw [Nat.shiftRight_eq_div_pow]
    omega
  simp [fromPptrOff, valid, notNull, even, shifted]

/-- Decoding a backward word subtracts the stored distance. -/
theorem fromPptrOff_backward
    (distance p : Nat) :
    fromPptrOff (distance * 65536 + pptrPatternNeg) p =
      (p + (2 ^ 64 - distance)) % 2 ^ 64 := by
  simp only [pptrPatternNeg]
  have valid :
      isValidPptr (distance * 65536 + 21169) = true :=
    (isValidPptr_iff _).mpr (Or.inr (by simp only [pptrPatternNeg]; omega))
  have notNull :
      isNullPptr (distance * 65536 + 21169) = false := by
    simp only [isNullPptr, pptrPatternPos, beq_eq_false_iff_ne]
    omega
  have odd :
      (distance * 65536 + 21169) &&& 1 = 1 := by
    rw [Nat.and_one_is_mod]
    omega
  have shifted :
      (distance * 65536 + 21169) >>> 16 =
        distance := by
    rw [Nat.shiftRight_eq_div_pow]
    omega
  simp [fromPptrOff, valid, notNull, odd, shifted]

/-- The null encoding decodes to null at every address. -/
theorem fromPptrOff_null
    (p : Nat) :
    fromPptrOff pptrPatternPos p = 0 := by
  simp [fromPptrOff, isNullPptr]

/-- Encoded words fit in 64 bits. -/
theorem toPptrOff_lt
    (v p : Nat) :
    toPptrOff v p < 2 ^ 64 := by
  unfold toPptrOff
  split
  · decide
  · split
    · exact Nat.or_lt_two_pow (Nat.mod_lt _ (by decide)) (by decide)
    · exact Nat.or_lt_two_pow (Nat.mod_lt _ (by decide)) (by decide)

/-- Targets less than `2 ^ 48` bytes away survive encoding. -/
theorem fromPptrOff_toPptrOff
    {v p : Nat}
    (holder : p < 2 ^ 64)
    (target : v < 2 ^ 64)
    (forwardNear : v < p + 2 ^ 48)
    (backwardNear : p < v + 2 ^ 48) :
    fromPptrOff (toPptrOff v p) p = v := by
  unfold toPptrOff
  by_cases isNull : v = 0
  · rw [if_pos isNull, fromPptrOff_null, isNull]
  · rw [if_neg isNull]
    by_cases forward : p < v
    · rw [if_pos forward, shifted_or_tag (by omega) (by decide),
        fromPptrOff_forward p (by omega)]
      omega
    · rw [if_neg forward, shifted_or_tag (by omega) (by decide),
        fromPptrOff_backward]
      omega

open Lib (Memory)

/-- `*(pptr<char>*)block`: the target of the link in a block's first bytes. -/
def readLink (memory : Memory) (block : Nat) : Nat :=
  fromPptrOff (memory.load64 block) block

/-- `*(pptr<char>*)block = target`. -/
def writeLink (memory : Memory) (block target : Nat) : Memory :=
  memory.store64 block (toPptrOff target block)

/-- A link that was never written is null. -/
theorem readLink_zeros
    (block : Nat) :
    readLink (fun _ => 0) block = 0 := by
  simp [readLink, Memory.load64, fromPptrOff, isNullPptr, isValidPptr]

/-- A link to a near target reads back. -/
theorem readLink_writeLink_same
    (memory : Memory)
    {block target : Nat}
    (blockFits : block < 2 ^ 48)
    (targetFits : target < 2 ^ 48) :
    readLink (writeLink memory block target) block = target := by
  unfold readLink writeLink
  rw [Memory.load64_store64_same,
    Nat.mod_eq_of_lt (toPptrOff_lt target block)]
  exact fromPptrOff_toPptrOff (by omega) (by omega) (by omega) (by omega)

/-- Writing one link leaves the links of blocks elsewhere alone. -/
theorem readLink_writeLink_apart
    (memory : Memory)
    {block other : Nat}
    (target : Nat)
    (apart : other + 8 ≤ block ∨ block + 8 ≤ other) :
    readLink (writeLink memory block target) other =
      readLink memory other := by
  unfold readLink writeLink
  rw [Memory.load64_store64_apart memory _ apart]

/-- A byte store outside a block's link leaves the link alone. -/
theorem readLink_store8_apart
    (memory : Memory)
    {address other : Nat}
    (byte : UInt8)
    (apart : address < other ∨ other + 8 ≤ address) :
    readLink (memory.store8 address byte) other =
      readLink memory other := by
  unfold readLink
  rw [Memory.load64_store8_apart memory byte apart]

end Bxalloc
