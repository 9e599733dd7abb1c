import Mathlib.Tactic.Ring
import Mathlib.Tactic.NormNum

namespace Bxalloc.Lib

/-!
# Byte-addressed memory with 64-bit words

A memory image maps every address to one byte.  A word occupies eight
consecutive bytes in little-endian order.  The lemmas below are the whole
interface later modules use: a word reads back as it was stored, and a store
leaves every byte and every word away from its eight bytes unchanged.
-/

/-- A memory image: one byte at every address. -/
abbrev Memory := Nat → UInt8

namespace Memory

/-- The little-endian word in the eight bytes starting at `address`. -/
def load64 (memory : Memory) (address : Nat) : Nat :=
  (memory address).toNat +
    256 * ((memory (address + 1)).toNat +
    256 * ((memory (address + 2)).toNat +
    256 * ((memory (address + 3)).toNat +
    256 * ((memory (address + 4)).toNat +
    256 * ((memory (address + 5)).toNat +
    256 * ((memory (address + 6)).toNat +
    256 * (memory (address + 7)).toNat))))))

/-- Overwrite the eight bytes starting at `address` with a word. -/
def store64 (memory : Memory) (address word : Nat) : Memory :=
  fun location =>
    if address ≤ location ∧ location < address + 8 then
      UInt8.ofNat (word / 256 ^ (location - address))
    else
      memory location

/-- Overwrite one byte. -/
def store8 (memory : Memory) (address : Nat) (byte : UInt8) : Memory :=
  fun location =>
    if location = address then byte else memory location

/-- `memset`: overwrite a range with one byte. -/
def fill
    (memory : Memory)
    (address length : Nat)
    (byte : UInt8) : Memory :=
  fun location =>
    if address ≤ location ∧ location < address + length then
      byte
    else
      memory location

/-- `memcpy`: overwrite a range with the bytes of another one. -/
def copy (memory : Memory) (target source length : Nat) : Memory :=
  fun location =>
    if target ≤ location ∧ location < target + length then
      memory (source + (location - target))
    else
      memory location

/-- A fill changes no byte outside its range. -/
theorem fill_outside
    (memory : Memory)
    {address length location : Nat}
    (byte : UInt8)
    (outside : location < address ∨ address + length ≤ location) :
    memory.fill address length byte location = memory location := by
  have away : ¬ (address ≤ location ∧ location < address + length) := by
    omega
  simp [fill, away]

/-- A fill leaves its byte everywhere in its range. -/
theorem fill_inside
    (memory : Memory)
    {address length offset : Nat}
    (byte : UInt8)
    (inside : offset < length) :
    memory.fill address length byte (address + offset) = byte := by
  simp [fill, inside]

/-- A copy changes no byte outside its target. -/
theorem copy_outside
    (memory : Memory)
    {target source length location : Nat}
    (outside : location < target ∨ target + length ≤ location) :
    memory.copy target source length location = memory location := by
  have away : ¬ (target ≤ location ∧ location < target + length) := by
    omega
  simp [copy, away]

/-- A copy leaves the bytes of its source in its target. -/
theorem copy_inside
    (memory : Memory)
    {target source length offset : Nat}
    (inside : offset < length) :
    memory.copy target source length (target + offset) =
      memory (source + offset) := by
  simp [copy, inside]

/-- Loads depend only on the eight bytes they cover. -/
theorem load64_congr
    {memory other : Memory}
    {address : Nat}
    (same :
      ∀ location,
        address ≤ location →
        location < address + 8 →
        memory location = other location) :
    memory.load64 address = other.load64 address := by
  unfold load64
  rw [same address (by omega) (by omega),
    same (address + 1) (by omega) (by omega),
    same (address + 2) (by omega) (by omega),
    same (address + 3) (by omega) (by omega),
    same (address + 4) (by omega) (by omega),
    same (address + 5) (by omega) (by omega),
    same (address + 6) (by omega) (by omega),
    same (address + 7) (by omega) (by omega)]

/-- A word store changes no byte outside its eight bytes. -/
theorem store64_apart
    (memory : Memory)
    {address location : Nat}
    (word : Nat)
    (apart : location < address ∨ address + 8 ≤ location) :
    memory.store64 address word location = memory location := by
  have outside :
      ¬ (address ≤ location ∧ location < address + 8) := by
    omega
  simp [store64, outside]

/-- The byte a word store leaves at one of its eight addresses. -/
theorem store64_byte
    (memory : Memory)
    (address word : Nat)
    {offset : Nat}
    (inside : offset < 8) :
    (memory.store64 address word (address + offset)).toNat =
      word / 256 ^ offset % 256 := by
  have covered :
      address ≤ address + offset ∧
        address + offset < address + 8 := by
    omega
  simp [store64, covered]

/-- A stored word reads back modulo the word width. -/
theorem load64_store64_same
    (memory : Memory)
    (address word : Nat) :
    (memory.store64 address word).load64 address =
      word % 2 ^ 64 := by
  have byte :
      ∀ offset, offset < 8 →
        (memory.store64 address word (address + offset)).toNat =
          word / 256 ^ offset % 256 :=
    fun offset inside => store64_byte memory address word inside
  have first := byte 0 (by omega)
  simp only [Nat.add_zero, pow_zero, Nat.div_one] at first
  unfold load64
  rw [first, byte 1 (by omega), byte 2 (by omega),
    byte 3 (by omega), byte 4 (by omega), byte 5 (by omega),
    byte 6 (by omega), byte 7 (by omega)]
  norm_num
  omega

/-- A store leaves every word away from it unchanged. -/
theorem load64_store64_apart
    (memory : Memory)
    {address other : Nat}
    (word : Nat)
    (apart : other + 8 ≤ address ∨ address + 8 ≤ other) :
    (memory.store64 address word).load64 other =
      memory.load64 other := by
  apply load64_congr
  intro location lower upper
  exact store64_apart memory word (by omega)

/-- A byte store leaves every word that does not cover it unchanged. -/
theorem load64_store8_apart
    (memory : Memory)
    {address other : Nat}
    (byte : UInt8)
    (apart : address < other ∨ other + 8 ≤ address) :
    (memory.store8 address byte).load64 other =
      memory.load64 other := by
  apply load64_congr
  intro location lower upper
  have distinct : location ≠ address := by
    omega
  simp [store8, distinct]

end Memory

end Bxalloc.Lib
