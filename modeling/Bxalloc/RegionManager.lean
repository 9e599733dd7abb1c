import Bxalloc.Pptr

namespace Bxalloc

/-!
# Mapped regions

`RegionManager` maps one heap file.  The first page of the file is reserved: it
holds `curr_addr` as a self-relative pointer at the mapping base and the heap
start as an offset from the base.  Both survive a remapping at another base as
the same words.  A successful expansion moves `curr_addr` past the bytes it
hands out.
-/

/-- A mapped region: where it is mapped and the words of its first page. -/
structure Region where
  /-- `base_addr`. -/
  base : Nat
  /-- `FILESIZE`. -/
  fileSize : Nat
  /-- The word of `*curr_addr_ptr`, an `atomic_pptr` stored at the base. -/
  currAddrWord : Nat
  /-- The offset written by `__store_heap_start`. -/
  heapStartWord : Nat
  deriving Repr, DecidableEq

namespace Region

/-- The constructor's file size: two pages more than the size rounds down to. -/
def fileSizeFor (size : Nat) : Nat :=
  (size / pageSize + 2) * pageSize

/-- `__map_persistent_region`: a new file mapped at `base`. -/
def map (base size : Nat) : Region where
  base := base
  fileSize := fileSizeFor size
  currAddrWord := toPptrOff (base + pageSize) base
  heapStartWord := 0

/-- `__remap_persistent_region`: the same file mapped at another base. -/
def remap (region : Region) (base : Nat) : Region :=
  { region with base := base }

/-- `curr_addr_ptr->load()`. -/
def currAddr (region : Region) : Nat :=
  fromPptrOff region.currAddrWord region.base

/-- `__store_heap_start`. -/
def storeHeapStart (region : Region) (root : Nat) : Region :=
  { region with heapStartWord := root - region.base }

/-- `__fetch_heap_start`. -/
def fetchHeapStart (region : Region) : Nat :=
  region.heapStartWord + region.base

/-- `new_curr_addr` after the alignment adjustment. -/
def alignUp (address alignment : Nat) : Nat :=
  let alnAdj := address &&& (alignment - 1)
  if alnAdj ≠ 0 then
    address + (alignment - alnAdj)
  else
    address

/-- The parameter check shared by both region allocators. -/
def badRequest (alignment size : Nat) : Bool :=
  size == 0 ||
    (alignment &&& (2 ^ 64 - alignment)) != alignment ||
    alignment < 8

/--
`__nvm_region_allocator` without interference: the result address and the
region after the exchange of `curr_addr`, or `none` for the result `-1`.
-/
def nvmRegionAllocator
    (region : Region)
    (alignment size : Nat) :
    Option (Nat × Region) :=
  if badRequest alignment size then
    none
  else
    let res := alignUp region.currAddr alignment
    let next := res + size
    if region.base + region.fileSize < next then
      none
    else
      some (res, { region with currAddrWord := toPptrOff next region.base })

/-- Masking with a power of two minus one is a remainder. -/
theorem alignUp_pow
    (address bits : Nat) :
    alignUp address (2 ^ bits) % 2 ^ bits = 0 ∧
      address ≤ alignUp address (2 ^ bits) ∧
      alignUp address (2 ^ bits) < address + 2 ^ bits := by
  have positive : 0 < 2 ^ bits := Nat.two_pow_pos bits
  have remainder : address % 2 ^ bits < 2 ^ bits :=
    Nat.mod_lt _ positive
  simp only [alignUp, Nat.and_two_pow_sub_one_eq_mod]
  split
  · next notAligned =>
      refine ⟨?_, by omega, by omega⟩
      have shape :
          address + (2 ^ bits - address % 2 ^ bits) =
            2 ^ bits * (address / 2 ^ bits + 1) := by
        have division := Nat.div_add_mod address (2 ^ bits)
        rw [Nat.mul_add]
        omega
      rw [shape, Nat.mul_mod_right]
  · next aligned =>
      refine ⟨?_, by omega, by omega⟩
      simpa using aligned

/-- Aligned addresses are not adjusted. -/
theorem alignUp_of_aligned
    {address bits : Nat}
    (aligned : address % 2 ^ bits = 0) :
    alignUp address (2 ^ bits) = address := by
  simp [alignUp, Nat.and_two_pow_sub_one_eq_mod, aligned]

/-- What a successful expansion hands out and what it leaves behind. -/
theorem nvmRegionAllocator_spec
    {region after : Region}
    {size res : Nat}
    (bits : Nat)
    (allocated :
      region.nvmRegionAllocator (2 ^ bits) size = some (res, after)) :
    res = alignUp region.currAddr (2 ^ bits) ∧
      res + size ≤ region.base + region.fileSize ∧
      0 < size ∧
      after =
        { region with
          currAddrWord := toPptrOff (res + size) region.base } := by
  unfold nvmRegionAllocator at allocated
  split at allocated
  · simp at allocated
  · next accepted =>
      simp only at allocated
      split at allocated
      · simp at allocated
      · next fits =>
          simp only [Option.some.injEq, Prod.mk.injEq] at allocated
          obtain ⟨resShape, afterShape⟩ := allocated
          have nonzero : size ≠ 0 := by
            intro isZero
            simp [badRequest, isZero] at accepted
          refine ⟨resShape.symm, by omega, by omega, ?_⟩
          rw [← afterShape, resShape]

/--
`curr_addr` moves with the mapping: a pointer encoded at one base decodes at
another base to the same offset.
-/
theorem fromPptrOff_relocated
    {v p q : Nat}
    (ahead : p < v)
    (near : v < p + 2 ^ 48)
    (fits : q + (v - p) < 2 ^ 64) :
    fromPptrOff (toPptrOff v p) q = q + (v - p) := by
  unfold toPptrOff
  rw [if_neg (by omega), if_pos ahead, shifted_or_tag (by omega) (by decide),
    fromPptrOff_forward q (by omega), Nat.mod_eq_of_lt fits]

end Region

end Bxalloc
