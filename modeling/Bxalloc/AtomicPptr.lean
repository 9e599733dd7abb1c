import Bxalloc.Pptr
import Bxalloc.Lib.EncodedCell

namespace Bxalloc

/-!
# Relocation and atomic accesses of position independent pointers

`atomic_pptr<T>` keeps an encoded pointer in an atomic word and exchanges it by
encoding what the caller expects and desires.  The encoding is exact for null
and for targets less than `2 ^ 48` bytes from the holder, in both directions
and at the holder itself, and the word does not depend on where holder and
target lie, only on the way from one to the other.
-/

open Lib (CellOperation CellResponse Codec Exchange)

namespace AtomicPptr

/-- `atomic_pptr(T* v)` at address `p`: the word left in `off`. -/
def construct (p v : Nat) : Nat :=
  let tmpOff := toPptrOff v p
  tmpOff

/-- `atomic_pptr::load`. -/
def load (p off : Nat) : Nat :=
  let curOff := off
  fromPptrOff curOff p

/-- `atomic_pptr::store`: the word left in `off`. -/
def store (p desired : Nat) : Nat :=
  let newOff := toPptrOff desired p
  newOff

/-- `atomic_pptr::compare_exchange_weak`. -/
def compareExchangeWeak
    (spurious : Bool)
    (p off expected desired : Nat) : Exchange Nat Nat :=
  let oldOff := toPptrOff expected p
  let newOff := toPptrOff desired p
  let ret := Lib.AtomicWord.compareExchangeWeak spurious off oldOff newOff
  { succeeded := ret.succeeded
    cell := ret.cell
    expected :=
      if !ret.succeeded then
        if isNullPptr ret.expected then
          0
        else
          fromPptrOff ret.expected p
      else
        expected }

/-- `atomic_pptr::compare_exchange_strong`. -/
def compareExchangeStrong
    (p off expected desired : Nat) : Exchange Nat Nat :=
  let oldOff := toPptrOff expected p
  let newOff := toPptrOff desired p
  let ret := Lib.AtomicWord.compareExchangeStrong off oldOff newOff
  { succeeded := ret.succeeded
    cell := ret.cell
    expected :=
      if !ret.succeeded then
        if isNullPptr ret.expected then
          0
        else
          fromPptrOff ret.expected p
      else
        expected }

end AtomicPptr

/-- A 64-bit address other than null. -/
def IsAddress (address : Nat) : Prop :=
  0 < address ∧ address < 2 ^ 64

instance (address : Nat) : Decidable (IsAddress address) :=
  inferInstanceAs (Decidable (_ ∧ _))

/-- The two addresses lie less than `2 ^ 48` bytes apart. -/
def Near (p v : Nat) : Prop :=
  v < p + 2 ^ 48 ∧ p < v + 2 ^ 48

instance (p v : Nat) : Decidable (Near p v) :=
  inferInstanceAs (Decidable (_ ∧ _))

/-- What a pointer held at `p` can point to. -/
def Targetable (p v : Nat) : Prop :=
  v = 0 ∨ IsAddress v ∧ Near p v

instance (p v : Nat) : Decidable (Targetable p v) :=
  inferInstanceAs (Decidable (_ ∨ _))

/-- The word of a near target is the distance and the tag of its direction. -/
theorem toPptrOff_near
    {p v : Nat}
    (nonnull : 0 < v)
    (near : Near p v) :
    toPptrOff v p =
      if p < v then
        (v - p) * 65536 + pptrPatternPos
      else
        (p - v) * 65536 + pptrPatternNeg := by
  obtain ⟨forwardNear, backwardNear⟩ := near
  unfold toPptrOff
  rw [if_neg (by omega)]
  by_cases forward : p < v
  · rw [if_pos forward, if_pos forward, shifted_or_tag (by omega) (by decide)]
  · rw [if_neg forward, if_neg forward, shifted_or_tag (by omega) (by decide)]

/-- A pointer and its target moved together stay a pointer and its target. -/
theorem fromPptrOff_moved
    {p v p' v' : Nat}
    (target : IsAddress v)
    (near : Near p v)
    (movedTarget : v' < 2 ^ 64)
    (together : (v' : Int) - v = (p' : Int) - p) :
    fromPptrOff (toPptrOff v p) p' = v' := by
  obtain ⟨forwardNear, backwardNear⟩ := near
  rw [toPptrOff_near target.1 ⟨forwardNear, backwardNear⟩]
  by_cases forward : p < v
  · rw [if_pos forward, fromPptrOff_forward p' (by omega)]
    omega
  · rw [if_neg forward, fromPptrOff_backward]
    omega

/-- Only null has the null encoding. -/
theorem isNullPptr_near
    {p v : Nat}
    (target : IsAddress v)
    (near : Near p v) :
    isNullPptr (toPptrOff v p) = false := by
  rw [toPptrOff_near target.1 near]
  simp only [isNullPptr, pptrPatternPos, pptrPatternNeg, beq_eq_false_iff_ne]
  split
  · omega
  · omega

/-- What a pointer can point to, it decodes to. -/
theorem load_targetable
    {p v : Nat}
    (targetable : Targetable p v) :
    fromPptrOff (toPptrOff v p) p = v := by
  rcases targetable with rfl | ⟨target, near⟩
  · exact fromPptrOff_null p
  · exact fromPptrOff_moved target near target.2 (by omega)

namespace AtomicPptr

/-- The encoding of the pointers held at one address. -/
def codec (p : Nat) : Codec Nat Nat where
  encode v := toPptrOff v p
  decode off := fromPptrOff off p
  normal v := v
  Storable := Targetable p
  decode_encode := load_targetable
  encode_normal _ := rfl

/-- The null test in front of the decoding changes nothing. -/
theorem decode_guarded
    (p word : Nat) :
    (if isNullPptr word then 0 else fromPptrOff word p) =
      fromPptrOff word p := by
  cases isNull : isNullPptr word with
  | true =>
      simp [fromPptrOff, isNull]
  | false =>
      rfl

/-- The exchange of the source is the exchange behind the encoding. -/
theorem compareExchangeStrong_eq
    (p off expected desired : Nat) :
    compareExchangeStrong p off expected desired =
      (codec p).compareExchangeStrong off expected desired := by
  simp only [compareExchangeStrong, decode_guarded, Lib.ite_not_succeeded]
  rfl

/-- The weak exchange of the source is the one behind the encoding. -/
theorem compareExchangeWeak_eq
    (spurious : Bool)
    (p off expected desired : Nat) :
    compareExchangeWeak spurious p off expected desired =
      (codec p).compareExchangeWeak spurious off expected desired := by
  simp only [compareExchangeWeak, decode_guarded, Lib.ite_not_succeeded]
  rfl

/-- What an exchange of pointers in reach does. -/
theorem compareExchangeStrong_spec
    {p u expected : Nat}
    (desired : Nat)
    (uTargetable : Targetable p u)
    (expectedTargetable : Targetable p expected) :
    let result := compareExchangeStrong p (toPptrOff u p) expected desired
    (result.succeeded = true ↔ u = expected) ∧
    (result.succeeded = true → result.cell = toPptrOff desired p) ∧
    (result.succeeded = false →
      result.cell = toPptrOff u p ∧ result.expected = u) := by
  obtain ⟨succeeds, success, failure⟩ :=
    @Codec.compareExchangeStrong_spec _ _ (codec p) _ u expected desired
      uTargetable expectedTargetable
  rw [compareExchangeStrong_eq]
  exact ⟨succeeds, fun succeeded => (success succeeded).1, failure⟩

/-- One operation on the cell at `p`. -/
def step (p off : Nat) : CellOperation Nat → CellResponse Nat × Nat
  | .load => (.loaded (load p off), off)
  | .store desired => (.stored, store p desired)
  | .compareExchangeStrong expected desired =>
      let result := compareExchangeStrong p off expected desired
      (.exchanged result.succeeded result.expected, result.cell)
  | .compareExchangeWeak spurious expected desired =>
      let result := compareExchangeWeak spurious p off expected desired
      (.exchanged result.succeeded result.expected, result.cell)

/-- The operations of the source are those behind the encoding. -/
theorem step_eq
    (p : Nat) :
    step p = (codec p).step := by
  funext off operation
  cases operation with
  | load => rfl
  | store desired => rfl
  | compareExchangeStrong expected desired =>
      simp only [step, Codec.step, compareExchangeStrong_eq]
  | compareExchangeWeak spurious expected desired =>
      simp only [step, Codec.step, compareExchangeWeak_eq]

/-- Every run of operations on an `atomic_pptr` constructed with `v` answers as
the run on an atomic cell that holds plain pointers. -/
theorem run_answers_as_pointers
    {p v : Nat}
    {operations : List (CellOperation Nat)}
    (targetable : Targetable p v)
    (arguments :
      ∀ operation ∈ operations,
        ∀ argument ∈ operation.arguments, Targetable p argument) :
    (Lib.runCell (step p) (construct p v) operations).1 =
      (Lib.runCell (Lib.atomicStep id) v operations).1 := by
  have represents : (codec p).Represents (construct p v) v :=
    ⟨v, targetable, rfl, rfl⟩
  rw [step_eq]
  exact (Codec.run_refines represents arguments).1

end AtomicPptr

/-- The encoding of `pptr` is a bijection onto its words that survives moving
holder and target together, and exchanges of words are exchanges of pointers. -/
theorem pptr_relocatable_bijection
    {p : Nat}
    (holder : IsAddress p) :
    (∀ v, IsAddress v → Near p v →
      fromPptrOff (toPptrOff v p) p = v ∧
      ∀ (d : Int) (p' v' : Nat),
        (p' : Int) = p + d → (v' : Int) = v + d →
        IsAddress p' → IsAddress v' →
        fromPptrOff (toPptrOff v p) p' = v') ∧
    (∀ word, isNullPptr word = true ↔ word = toPptrOff 0 p) ∧
    (∀ v, IsAddress v → Near p v → isNullPptr (toPptrOff v p) = false) ∧
    (∀ q, fromPptrOff (toPptrOff 0 p) q = 0) ∧
    (∀ v v', Targetable p v → Targetable p v' →
      toPptrOff v p = toPptrOff v' p → v = v') ∧
    Targetable p p ∧
    (∀ word q, isValidPptr word = false → fromPptrOff word q = 0) ∧
    (∀ u expected desired,
      Targetable p u → Targetable p expected → Targetable p desired →
      let result :=
        AtomicPptr.compareExchangeStrong p (toPptrOff u p) expected desired
      (result.succeeded = true ↔ u = expected) ∧
      (result.succeeded = true →
        AtomicPptr.load p result.cell = desired) ∧
      (result.succeeded = false →
        result.cell = toPptrOff u p ∧ result.expected = u)) := by
  refine ⟨?_, ?_, ?_, ?_, ?_, ?_, ?_, ?_⟩
  · intro v target near
    refine ⟨load_targetable (Or.inr ⟨target, near⟩), ?_⟩
    intro d p' v' movedHolder movedTarget _ target'
    exact fromPptrOff_moved target near target'.2 (by omega)
  · intro word
    simp [isNullPptr, toPptrOff]
  · intro v target near
    exact isNullPptr_near target near
  · intro q
    exact fromPptrOff_null q
  · intro v v' targetable targetable' sameWord
    exact ((AtomicPptr.codec p).encode_eq_iff targetable targetable').mp sameWord
  · exact Or.inr ⟨holder, by unfold Near; omega⟩
  · intro word q invalid
    simp [fromPptrOff, invalid]
  · intro u expected desired uTargetable expectedTargetable desiredTargetable
    obtain ⟨succeeds, success, failure⟩ :=
      AtomicPptr.compareExchangeStrong_spec desired
        uTargetable expectedTargetable
    refine ⟨succeeds, ?_, failure⟩
    intro succeeded
    rw [AtomicPptr.load, success succeeded]
    exact load_targetable desiredTargetable

/-- A holder at `0x7000` exchanged from a target behind it to itself, and then
asked for null; the region moves up by a page. -/
theorem pptr_relocatable_bijection_backward :
    fromPptrOff (toPptrOff 0x6000 0x7000) (0x7000 + 0x1000) = 0x7000 ∧
    (AtomicPptr.compareExchangeStrong 0x7000
      (toPptrOff 0x6000 0x7000) 0x6000 0x7000).succeeded = true ∧
    (AtomicPptr.compareExchangeStrong 0x7000
      (toPptrOff 0x7000 0x7000) 0 0x6000).expected = 0x7000 := by
  obtain ⟨encoded, _, _, _, _, itself, _, exchange⟩ :=
    @pptr_relocatable_bijection 0x7000 (by decide)
  have behind : IsAddress 0x6000 ∧ Near 0x7000 0x6000 := by decide
  refine ⟨?_, ?_, ?_⟩
  · exact (encoded 0x6000 behind.1 behind.2).2 0x1000 _ _
      (by decide) (by decide) (by decide) (by decide)
  · exact (exchange 0x6000 0x6000 0x7000
      (Or.inr behind) (Or.inr behind) itself).1.mpr rfl
  · exact ((exchange 0x7000 0 0x6000
      itself (Or.inl rfl) (Or.inr behind)).2.2 (by decide)).2

end Bxalloc
