import Bxalloc.PartialList
import Bxalloc.Lib.EncodedCell

namespace Bxalloc

/-!
# The packed pointer and counter

`AtomicCrossPtrCnt<T, idx>` keeps the offset of a pointer from the base of its
region and a counter in one atomic word.  The constructor, `load`, `store` and
the two exchanges each spell the packing out; here they are shown to agree, and
the word to behave as an atomic cell of pointers and counters modulo `2 ^ 34`,
whatever the base.
-/

open Lib (CellOperation CellResponse Codec Exchange)
open PartialList (PtrCnt)

namespace AtomicCrossPtrCnt

/-- `Regions::translate` for a region at `base`. -/
def translate (base relativeAddress : Nat) : Nat :=
  (base + relativeAddress) % 2 ^ 64

/-- `Regions::untranslate` for a region at `base`. -/
def untranslate (base absoluteAddress : Nat) : Nat :=
  u64Sub absoluteAddress base

/-- `MAX_DESC_OFFSET_MASK`. -/
abbrev maxDescOffsetMask : Nat := 2 ^ maxDescOffsetBits - 1

/-- `counter << MAX_DESC_OFFSET_BITS` on 64 bits. -/
def shiftCounter (counter : Nat) : Nat :=
  (counter <<< maxDescOffsetBits) % 2 ^ 64

/-- `AtomicCrossPtrCnt(real_ptr, counter)`: the word left in `off`. -/
def construct (base realPtr counter : Nat) : Nat :=
  let cntBits := shiftCounter counter
  if realPtr = 0 then
    cntBits
  else
    let res := untranslate base realPtr
    res ||| cntBits

/-- `AtomicCrossPtrCnt::load`. -/
def load (base off : Nat) : PtrCnt :=
  let curOff := off &&& maxDescOffsetMask
  { cnt := off >>> maxDescOffsetBits
    ptr := if curOff = 0 then 0 else translate base curOff }

/-- `AtomicCrossPtrCnt::store`: the word left in `off`. -/
def store (base : Nat) (desired : PtrCnt) : Nat :=
  let cntBits := shiftCounter desired.cnt
  if desired.ptr = 0 then
    cntBits
  else
    let newOff := untranslate base desired.ptr
    newOff ||| cntBits

/-- `AtomicCrossPtrCnt::compare_exchange_weak`. -/
def compareExchangeWeak
    (spurious : Bool)
    (base off : Nat)
    (expected desired : PtrCnt) : Exchange Nat PtrCnt :=
  let oldCntBits := shiftCounter expected.cnt
  let newCntBits := shiftCounter desired.cnt
  let oldOff :=
    if expected.ptr = 0 then
      oldCntBits
    else
      untranslate base expected.ptr ||| oldCntBits
  let newOff :=
    if desired.ptr = 0 then
      newCntBits
    else
      untranslate base desired.ptr ||| newCntBits
  let ret := Lib.AtomicWord.compareExchangeWeak spurious off oldOff newOff
  { succeeded := ret.succeeded
    cell := ret.cell
    expected :=
      if !ret.succeeded then
        let seen := ret.expected &&& maxDescOffsetMask
        { cnt := ret.expected >>> maxDescOffsetBits
          ptr := if seen = 0 then 0 else translate base seen }
      else
        expected }

/-- `AtomicCrossPtrCnt::compare_exchange_strong`. -/
def compareExchangeStrong
    (base off : Nat)
    (expected desired : PtrCnt) : Exchange Nat PtrCnt :=
  let oldCntBits := shiftCounter expected.cnt
  let newCntBits := shiftCounter desired.cnt
  let oldOff :=
    if expected.ptr = 0 then
      oldCntBits
    else
      untranslate base expected.ptr ||| oldCntBits
  let newOff :=
    if desired.ptr = 0 then
      newCntBits
    else
      untranslate base desired.ptr ||| newCntBits
  let ret := Lib.AtomicWord.compareExchangeStrong off oldOff newOff
  { succeeded := ret.succeeded
    cell := ret.cell
    expected :=
      if !ret.succeeded then
        let seen := ret.expected &&& maxDescOffsetMask
        { cnt := ret.expected >>> maxDescOffsetBits
          ptr := if seen = 0 then 0 else translate base seen }
      else
        expected }

/-- Null, or a 64-bit address at an offset in `(0, 2 ^ 30)` from the base. -/
def InReach (base ptr : Nat) : Prop :=
  ptr = 0 ∨
    ptr < 2 ^ 64 ∧
    0 < untranslate base ptr ∧ untranslate base ptr < 2 ^ maxDescOffsetBits

instance (base ptr : Nat) : Decidable (InReach base ptr) :=
  inferInstanceAs (Decidable (_ ∨ _))

/-- The offset part of the word. -/
def offsetOf (base ptr : Nat) : Nat :=
  if ptr = 0 then 0 else untranslate base ptr

/-- What of a value survives in the word. -/
def wrapCounter (value : PtrCnt) : PtrCnt :=
  { value with cnt := value.cnt % 2 ^ 34 }

theorem shiftCounter_eq
    (counter : Nat) :
    shiftCounter counter = counter % 2 ^ 34 * 2 ^ 30 := by
  simp only [shiftCounter, maxDescOffsetBits, maxDescAmountBits,
    Nat.shiftLeft_eq]
  omega

theorem offsetOf_lt
    {base ptr : Nat}
    (inReach : InReach base ptr) :
    offsetOf base ptr < 2 ^ 30 := by
  unfold offsetOf
  by_cases isNull : ptr = 0
  · rw [if_pos isNull]
    decide
  · rw [if_neg isNull]
    exact (inReach.resolve_left isNull).2.2

/-- The word is the counter modulo `2 ^ 34` followed by the offset. -/
theorem store_eq
    {base : Nat}
    {value : PtrCnt}
    (inReach : InReach base value.ptr) :
    store base value =
      value.cnt % 2 ^ 34 * 2 ^ 30 + offsetOf base value.ptr := by
  have small := offsetOf_lt inReach
  unfold store
  unfold offsetOf at small ⊢
  simp only [shiftCounter_eq]
  by_cases isNull : value.ptr = 0
  · simp [isNull]
  · simp only [if_neg isNull] at small ⊢
    rw [Nat.or_comm, ← Nat.shiftLeft_eq,
      Nat.shiftLeft_add_eq_or_of_lt small]

/-- Translating back and forth. -/
theorem translate_untranslate
    {base ptr : Nat}
    (baseFits : base < 2 ^ 64)
    (ptrFits : ptr < 2 ^ 64) :
    translate base (untranslate base ptr) = ptr := by
  unfold translate untranslate u64Sub
  omega

/-- A word of counter and offset, loaded. -/
theorem load_word
    {offset : Nat}
    (base counter : Nat)
    (small : offset < 2 ^ 30) :
    load base (counter * 2 ^ 30 + offset) =
      { ptr := if offset = 0 then 0 else translate base offset
        cnt := counter } := by
  have low : (counter * 2 ^ 30 + offset) % 2 ^ 30 = offset := by
    omega
  have high : (counter * 2 ^ 30 + offset) / 2 ^ 30 = counter := by
    omega
  simp only [load, maxDescOffsetMask, maxDescOffsetBits, maxDescAmountBits,
    Nat.and_two_pow_sub_one_eq_mod, Nat.shiftRight_eq_div_pow, low, high]

/-- Where a pointer stored at one base points when loaded at another. -/
def relocate (base base' ptr : Nat) : Nat :=
  if ptr = 0 then 0 else translate base' (untranslate base ptr)

/-- Loading at another base gives the pointer relocated there. -/
theorem load_store_relocated
    {base : Nat}
    {value : PtrCnt}
    (base' : Nat)
    (inReach : InReach base value.ptr) :
    load base' (store base value) =
      { ptr := relocate base base' value.ptr
        cnt := value.cnt % 2 ^ 34 } := by
  rw [store_eq inReach, load_word base' _ (offsetOf_lt inReach)]
  congr 1
  unfold offsetOf relocate
  by_cases isNull : value.ptr = 0
  · simp [isNull]
  · have positive := (inReach.resolve_left isNull).2.1
    rw [if_neg isNull, if_neg isNull, if_neg (by omega)]

theorem relocate_same
    {base ptr : Nat}
    (baseFits : base < 2 ^ 64)
    (inReach : InReach base ptr) :
    relocate base base ptr = ptr := by
  unfold relocate
  by_cases isNull : ptr = 0
  · simp [isNull]
  · rw [if_neg isNull]
    exact translate_untranslate baseFits (inReach.resolve_left isNull).1

/-- A stored value loads back with its counter modulo `2 ^ 34`. -/
theorem load_store
    {base : Nat}
    {value : PtrCnt}
    (baseFits : base < 2 ^ 64)
    (inReach : InReach base value.ptr) :
    load base (store base value) = wrapCounter value := by
  rw [load_store_relocated base inReach, relocate_same baseFits inReach]
  rfl

/-- Storing the relocated pointer at the other base gives the same word. -/
theorem store_relocated
    {base base' : Nat}
    {value : PtrCnt}
    (inReach : InReach base value.ptr)
    (nonnull : relocate base base' value.ptr = 0 → value.ptr = 0)
    (baseFits' : base' < 2 ^ 64) :
    store base' { value with ptr := relocate base base' value.ptr } =
      store base value := by
  have back :
      value.ptr ≠ 0 →
        untranslate base' (translate base' (untranslate base value.ptr)) =
          untranslate base value.ptr := by
    intro notNull
    have small := (inReach.resolve_left notNull).2.2
    revert small
    generalize untranslate base value.ptr = offset
    intro small
    simp only [maxDescOffsetBits, maxDescAmountBits] at small
    unfold translate untranslate u64Sub
    omega
  unfold store
  by_cases isNull : value.ptr = 0
  · simp [relocate, isNull]
  · have movedNonnull : relocate base base' value.ptr ≠ 0 :=
      fun isZero => isNull (nonnull isZero)
    simp only [if_neg isNull, if_neg movedNonnull]
    rw [relocate, if_neg isNull, back isNull]

/-- The packing as an encoding of pointers and counters. -/
def codec (base : Nat) (baseFits : base < 2 ^ 64) : Codec PtrCnt Nat where
  encode := store base
  decode := load base
  normal := wrapCounter
  Storable value := InReach base value.ptr
  decode_encode := load_store baseFits
  encode_normal := by
    intro value inReach
    have wrapped : InReach base (wrapCounter value).ptr := inReach
    rw [store_eq wrapped, store_eq inReach]
    simp [wrapCounter]

/-- The packing and unpacking spelled out in the exchange are those of `store`
and `load`. -/
theorem compareExchangeStrong_eq
    {base : Nat}
    (baseFits : base < 2 ^ 64)
    (off : Nat)
    (expected desired : PtrCnt) :
    compareExchangeStrong base off expected desired =
      (codec base baseFits).compareExchangeStrong off expected desired := by
  simp only [compareExchangeStrong, Lib.ite_not_succeeded]
  rfl

/-- The packing and unpacking spelled out in the weak exchange are those of
`store` and `load`. -/
theorem compareExchangeWeak_eq
    {base : Nat}
    (baseFits : base < 2 ^ 64)
    (spurious : Bool)
    (off : Nat)
    (expected desired : PtrCnt) :
    compareExchangeWeak spurious base off expected desired =
      (codec base baseFits).compareExchangeWeak spurious off expected desired := by
  simp only [compareExchangeWeak, Lib.ite_not_succeeded]
  rfl

/-- One operation on the word of a region at `base`. -/
def step (base off : Nat) : CellOperation PtrCnt → CellResponse PtrCnt × Nat
  | .load => (.loaded (load base off), off)
  | .store desired => (.stored, store base desired)
  | .compareExchangeStrong expected desired =>
      let result := compareExchangeStrong base off expected desired
      (.exchanged result.succeeded result.expected, result.cell)
  | .compareExchangeWeak spurious expected desired =>
      let result := compareExchangeWeak spurious base off expected desired
      (.exchanged result.succeeded result.expected, result.cell)

theorem step_eq
    {base : Nat}
    (baseFits : base < 2 ^ 64) :
    step base = (codec base baseFits).step := by
  funext off operation
  cases operation with
  | load => rfl
  | store desired => rfl
  | compareExchangeStrong expected desired =>
      simp only [step, Codec.step, compareExchangeStrong_eq baseFits]
  | compareExchangeWeak spurious expected desired =>
      simp only [step, Codec.step, compareExchangeWeak_eq baseFits]

/-- The partial list packs and unpacks its head this way. -/
theorem store_partialList
    (region : DescRegion) :
    PartialList.encode region = store region.start ∧
      PartialList.decode region = load region.start :=
  ⟨rfl, rfl⟩

theorem wrapCounter_eq_iff
    {first second : PtrCnt} :
    wrapCounter first = wrapCounter second ↔
      first.ptr = second.ptr ∧ first.cnt % 2 ^ 34 = second.cnt % 2 ^ 34 := by
  simp [wrapCounter]

section Exchanges

variable {base : Nat} {held expected desired : PtrCnt}

/-- What a strong exchange does to a word that holds a value in reach. -/
theorem compareExchangeStrong_spec
    (baseFits : base < 2 ^ 64)
    (heldInReach : InReach base held.ptr)
    (expectedInReach : InReach base expected.ptr)
    (desiredInReach : InReach base desired.ptr) :
    let result :=
      compareExchangeStrong base (store base held) expected desired
    (result.succeeded = true ↔
      expected.ptr = held.ptr ∧ expected.cnt % 2 ^ 34 = held.cnt % 2 ^ 34) ∧
    (result.succeeded = true →
      load base result.cell = wrapCounter desired) ∧
    (result.succeeded = false →
      result.cell = store base held ∧ result.expected = wrapCounter held) := by
  obtain ⟨succeeds, success, failure⟩ :=
    @Codec.compareExchangeStrong_spec _ _ (codec base baseFits) _
      held expected desired heldInReach expectedInReach
  rw [compareExchangeStrong_eq baseFits]
  refine ⟨?_, ?_, failure⟩
  · rw [← wrapCounter_eq_iff, @eq_comm _ (wrapCounter expected)]
    exact succeeds
  · intro succeeded
    have cell := (success succeeded).1
    simp only [codec] at cell ⊢
    rw [cell]
    exact load_store baseFits desiredInReach

/-- A weak exchange fails for no reason or acts as the strong one. -/
theorem compareExchangeWeak_cases
    (baseFits : base < 2 ^ 64)
    (spurious : Bool)
    (heldInReach : InReach base held.ptr) :
    compareExchangeWeak spurious base (store base held) expected desired =
      if spurious then
        { succeeded := false
          cell := store base held
          expected := wrapCounter held }
      else
        compareExchangeStrong base (store base held) expected desired := by
  cases spurious with
  | true =>
      rw [compareExchangeWeak_eq baseFits]
      exact @Codec.compareExchangeWeak_spurious _ _ (codec base baseFits) _
        held expected desired heldInReach
  | false =>
      rfl

end Exchanges

/-- Every run of operations on a word constructed from a value in reach answers
as the run on an atomic cell of pointers and counters modulo `2 ^ 34`. -/
theorem run_answers_as_pairs
    {base ptr counter : Nat}
    {operations : List (CellOperation PtrCnt)}
    (baseFits : base < 2 ^ 64)
    (inReach : InReach base ptr)
    (arguments :
      ∀ operation ∈ operations,
        ∀ argument ∈ operation.arguments, InReach base argument.ptr) :
    (Lib.runCell (step base) (construct base ptr counter) operations).1 =
      (Lib.runCell (Lib.atomicStep wrapCounter)
        { ptr := ptr, cnt := counter % 2 ^ 34 } operations).1 := by
  have represents :
      (codec base baseFits).Represents (construct base ptr counter)
        { ptr := ptr, cnt := counter % 2 ^ 34 } :=
    ⟨{ ptr := ptr, cnt := counter }, inReach, rfl, rfl⟩
  rw [step_eq baseFits]
  exact (Codec.run_refines represents arguments).1

end AtomicCrossPtrCnt

open AtomicCrossPtrCnt in
/-- `AtomicCrossPtrCnt` refines an atomic cell of pointers and counters, and its
words do not depend on the base of the region. -/
theorem atomicCrossPtrCnt_refines_cell
    {base : Nat}
    (baseFits : base < 2 ^ 64) :
    (∀ ptr counter, InReach base ptr →
      load base (store base { ptr := ptr, cnt := counter }) =
        { ptr := ptr, cnt := counter % 2 ^ 34 } ∧
      load base (construct base ptr counter) =
        { ptr := ptr, cnt := counter % 2 ^ 34 }) ∧
    (∀ held expected desired : PtrCnt,
      InReach base held.ptr → InReach base expected.ptr →
      InReach base desired.ptr →
      let result :=
        compareExchangeStrong base (store base held) expected desired
      (result.succeeded = true ↔
        expected.ptr = held.ptr ∧
          expected.cnt % 2 ^ 34 = held.cnt % 2 ^ 34) ∧
      (result.succeeded = true →
        load base result.cell = wrapCounter desired) ∧
      (result.succeeded = false →
        result.cell = store base held ∧
          result.expected = wrapCounter held)) ∧
    (∀ (spurious : Bool) (held expected desired : PtrCnt),
      InReach base held.ptr → InReach base expected.ptr →
      InReach base desired.ptr →
      let result :=
        compareExchangeWeak spurious base (store base held) expected desired
      (result.succeeded = true ↔
        spurious = false ∧
          expected.ptr = held.ptr ∧
          expected.cnt % 2 ^ 34 = held.cnt % 2 ^ 34) ∧
      (result.succeeded = true →
        load base result.cell = wrapCounter desired) ∧
      (result.succeeded = false →
        result.cell = store base held ∧
          result.expected = wrapCounter held)) ∧
    (∀ base' ptr counter, base' < 2 ^ 64 → InReach base ptr →
      load base' (store base { ptr := ptr, cnt := counter }) =
        { ptr := relocate base base' ptr, cnt := counter % 2 ^ 34 } ∧
      ((relocate base base' ptr = 0 → ptr = 0) →
        store base' { ptr := relocate base base' ptr, cnt := counter } =
          store base { ptr := ptr, cnt := counter })) ∧
    (∀ ptr counter (operations : List (CellOperation PtrCnt)),
      InReach base ptr →
      (∀ operation ∈ operations,
        ∀ argument ∈ operation.arguments, InReach base argument.ptr) →
      (Lib.runCell (step base) (construct base ptr counter) operations).1 =
        (Lib.runCell (Lib.atomicStep wrapCounter)
          { ptr := ptr, cnt := counter % 2 ^ 34 } operations).1) := by
  refine ⟨?_, ?_, ?_, ?_, ?_⟩
  · intro ptr counter inReach
    have loaded :=
      @load_store base { ptr := ptr, cnt := counter } baseFits inReach
    exact ⟨loaded, loaded⟩
  · intro held expected desired heldInReach expectedInReach desiredInReach
    exact compareExchangeStrong_spec baseFits
      heldInReach expectedInReach desiredInReach
  · intro spurious held expected desired heldInReach expectedInReach
      desiredInReach
    rw [compareExchangeWeak_cases baseFits spurious heldInReach]
    cases spurious with
    | true =>
        simp
    | false =>
        have steady :=
          compareExchangeStrong_spec baseFits
            heldInReach expectedInReach desiredInReach
        simpa using steady
  · intro base' ptr counter baseFits' inReach
    refine ⟨load_store_relocated base' inReach, ?_⟩
    intro nonnull
    exact @store_relocated base base' { ptr := ptr, cnt := counter }
      inReach nonnull baseFits'
  · intro ptr counter operations inReach arguments
    exact run_answers_as_pairs baseFits inReach arguments

open AtomicCrossPtrCnt in
/-- A pointer in a region at `0x10000` with a counter that has just wrapped: the
exchange that expects the counter before the wrap succeeds, and the word read
in a run that maps the region a page further on holds the moved pointer. -/
theorem atomicCrossPtrCnt_refines_cell_wrapped :
    (compareExchangeStrong 0x10000
      (store 0x10000 { ptr := 0x10040, cnt := 2 ^ 34 + 1 })
      { ptr := 0x10040, cnt := 1 } { ptr := 0, cnt := 2 }).succeeded = true ∧
    load 0x11000 (store 0x10000 { ptr := 0x10040, cnt := 2 ^ 34 + 1 }) =
      { ptr := 0x11040, cnt := 1 } := by
  obtain ⟨_, exchange, _, moved, _⟩ :=
    @atomicCrossPtrCnt_refines_cell 0x10000 (by decide)
  have inReach : InReach 0x10000 0x10040 := by decide
  refine ⟨?_, ?_⟩
  · exact (exchange _ _ _ inReach inReach (Or.inl rfl)).1.mpr (by decide)
  · exact (moved 0x11000 0x10040 (2 ^ 34 + 1) (by decide) inReach).1

end Bxalloc
