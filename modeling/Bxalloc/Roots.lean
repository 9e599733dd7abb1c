import Bxalloc.Lookup

namespace Bxalloc

/-!
# Persistent roots across remappings

`set_root` stores a root as a `CrossPtr<char, SB_IDX>`: the offset of the
pointer from the heap start of the superblock region, as a `uint64_t`.  The
assignment from a `void*` takes the offset without a test for null, and
pointers into the large-object region are taken relative to the superblock
region too.  A restart maps both files at new bases; the stored offsets stay.
-/

open Lib (Reaches)

/-- `MAX_ROOTS`. -/
abbrev maxRoots : Nat := 1024

/-- The regions that user pointers point into; `lar` has its mapped length. -/
structure UserRegions where
  sb : Region
  lar : Region
  deriving Repr, DecidableEq

/-- What a user holds: null or a byte of one of the two files. -/
inductive Pointer where
  | null
  | sb (offset : Nat)
  | lar (offset : Nat)
  deriving Repr, DecidableEq

/-- Both files are mapped, apart, with their heap starts inside. -/
structure UserRegions.Mapped (regions : UserRegions) : Prop where
  sb : Mappable regions.sb.base regions.sb.fileSize
  lar : Mappable regions.lar.base regions.lar.fileSize
  sbHeapStart : regions.sb.heapStartWord < regions.sb.fileSize
  apart :
    regions.sb.base + regions.sb.fileSize ≤ regions.lar.base ∨
      regions.lar.base + regions.lar.fileSize ≤ regions.sb.base

/-- `regions_address[SB_IDX]`. -/
def UserRegions.sbStart (regions : UserRegions) : Nat :=
  regions.sb.fetchHeapStart

/-- The address of a pointer under a mapping. -/
def Pointer.address (regions : UserRegions) : Pointer → Nat
  | .null => 0
  | .sb offset => regions.sb.base + offset
  | .lar offset => regions.lar.base + offset

/--
Null, or inside a region; `BXP_malloc` never returns the first superblock, so
no block lies at the heap start of the superblock region.
-/
def Pointer.Valid (regions : UserRegions) : Pointer → Prop
  | .null => True
  | .sb offset =>
      regions.sb.heapStartWord < offset ∧ offset < regions.sb.fileSize
  | .lar offset => offset < regions.lar.fileSize

namespace Roots

/-- The mapping of this run and the persistent `roots`. -/
structure State where
  regions : UserRegions
  /-- `roots[i].off`. -/
  roots : Nat → Nat
  /-- The pointer last set at an index and the mapping it was set under. -/
  lastSet : Nat → Option (Pointer × UserRegions)

/-- `untranslate(SB_IDX, ptr)`. -/
def untranslate (regions : UserRegions) (ptr : Nat) : Nat :=
  u64Sub ptr regions.sbStart

/-- `translate(SB_IDX, off)`. -/
def translate (regions : UserRegions) (off : Nat) : Nat :=
  (regions.sbStart + off) % 2 ^ 64

/-- The conversion of a `CrossPtr` to an absolute pointer. -/
def absolute (regions : UserRegions) (off : Nat) : Nat :=
  if off = 0 then 0 else translate regions off

/-- `get_root`; `none` is the failed assertion `i<MAX_ROOTS`. -/
def getRoot (state : State) (i : Nat) : Option Nat :=
  if i < maxRoots then
    some (absolute state.regions (state.roots i))
  else
    none

/-- `set_root`: the previous root and the new offsets. -/
def setRoot (state : State) (ptr i : Nat) : Option (Nat × (Nat → Nat)) :=
  if i < maxRoots then
    let res :=
      if state.roots i ≠ 0 then
        absolute state.regions (state.roots i)
      else
        0
    some (res, Function.update state.roots i (untranslate state.regions ptr))
  else
    none

/-- What happens to the roots. -/
inductive Event where
  | setRoot (pointer : Pointer) (i : Nat)
  | restart (sbBase larBase : Nat)
  deriving Repr, DecidableEq

/-- The files at other bases. -/
def remapped (regions : UserRegions) (sbBase larBase : Nat) : UserRegions where
  sb := regions.sb.remap sbBase
  lar := regions.lar.remap larBase

/-- One `set_root`, or one restart of the program. -/
inductive Step : State → Event → State → Prop where
  | setRoot
      {state : State}
      {pointer : Pointer}
      {i previous : Nat}
      {roots : Nat → Nat}
      (valid : pointer.Valid state.regions)
      (stored :
        setRoot state (pointer.address state.regions) i =
          some (previous, roots)) :
      Step state (.setRoot pointer i)
        { state with
          roots := roots
          lastSet :=
            Function.update state.lastSet i (some (pointer, state.regions)) }
  | restart
      {state : State}
      {sbBase larBase : Nat}
      (mapped : (remapped state.regions sbBase larBase).Mapped) :
      Step state (.restart sbBase larBase)
        { state with regions := remapped state.regions sbBase larBase }

/-- A new heap: `BaseMeta` assigns `nullptr` to every root. -/
def Initial (state : State) : Prop :=
  state.regions.Mapped ∧
    (∀ i, state.roots i = 0) ∧
    ∀ i, state.lastSet i = none

/--
When the stored offset means the same byte under a later mapping: null needs
the superblock file at its old base, and a large object needs both files moved
by the same distance.
-/
def Portable (written now : UserRegions) : Pointer → Prop
  | .null => now.sb.base = written.sb.base
  | .sb _ => True
  | .lar _ =>
      now.lar.base + written.sb.base = written.lar.base + now.sb.base

instance (written now : UserRegions) :
    (pointer : Pointer) → Decidable (Portable written now pointer)
  | .null => inferInstanceAs (Decidable (_ = _))
  | .sb _ => inferInstanceAs (Decidable True)
  | .lar _ => inferInstanceAs (Decidable (_ = _))

/-- Root `i` reads as `address`, and setting it again returns `address`. -/
def ReadsAs (state : State) (i address : Nat) : Prop :=
  getRoot state i = some address ∧
    ∀ ptr, (setRoot state ptr i).map Prod.fst = some address

/-- Two mappings of the same two files. -/
structure SameFiles (written now : UserRegions) : Prop where
  sbHeapStart : now.sb.heapStartWord = written.sb.heapStartWord
  sbLength : now.sb.fileSize = written.sb.fileSize
  larLength : now.lar.fileSize = written.lar.fileSize

/-- What the roots hold between events. -/
structure Inv (state : State) : Prop where
  mapped : state.regions.Mapped
  unset : ∀ i, state.lastSet i = none → state.roots i = 0
  set :
    ∀ i pointer written,
      state.lastSet i = some (pointer, written) →
      written.Mapped ∧
        pointer.Valid written ∧
        SameFiles written state.regions ∧
        state.roots i = untranslate written (pointer.address written)

variable {state : State} {written now : UserRegions} {pointer : Pointer}

/-- Both functions convert the stored offset. -/
theorem readsAs_iff
    {i address : Nat}
    (small : i < maxRoots) :
    ReadsAs state i address ↔
      absolute state.regions (state.roots i) = address := by
  unfold ReadsAs getRoot setRoot
  simp only [if_pos small, Option.map_some, Option.some.injEq]
  by_cases isNull : state.roots i = 0
  · simp [isNull, absolute]
  · simp [isNull]

/-- Heap starts are user-space addresses. -/
theorem sbStart_bounds
    (mapped : now.Mapped) :
    0 < now.sbStart ∧ now.sbStart < 2 ^ 47 := by
  have positive := mapped.sb.positive
  have userSpace := mapped.sb.userSpace
  have heapStart := mapped.sbHeapStart
  unfold UserRegions.sbStart Region.fetchHeapStart
  omega

/-- No valid pointer is the heap start of the superblock region. -/
theorem address_ne_sbStart
    (mapped : written.Mapped)
    (valid : pointer.Valid written) :
    pointer.address written ≠ written.sbStart := by
  have positive := mapped.sb.positive
  have heapStart := mapped.sbHeapStart
  have apart := mapped.apart
  unfold UserRegions.sbStart Region.fetchHeapStart
  cases pointer with
  | null =>
      simp only [Pointer.address]
      omega
  | sb offset =>
      simp only [Pointer.Valid] at valid
      simp only [Pointer.address]
      omega
  | lar offset =>
      simp only [Pointer.Valid] at valid
      simp only [Pointer.address]
      omega

/-- Valid pointers are user-space addresses. -/
theorem address_lt
    (mapped : written.Mapped)
    (valid : pointer.Valid written) :
    pointer.address written < 2 ^ 47 := by
  have sb := mapped.sb.userSpace
  have lar := mapped.lar.userSpace
  cases pointer with
  | null =>
      simp only [Pointer.address]
      omega
  | sb offset =>
      simp only [Pointer.Valid] at valid
      simp only [Pointer.address]
      omega
  | lar offset =>
      simp only [Pointer.Valid] at valid
      simp only [Pointer.address]
      omega

/-- An offset stored under one mapping, converted under another. -/
theorem absolute_untranslate
    (mapped : written.Mapped)
    (valid : pointer.Valid written) :
    absolute now (untranslate written (pointer.address written)) =
      (now.sbStart + (pointer.address written + (2 ^ 64 - written.sbStart))) %
        2 ^ 64 := by
  have bounds := sbStart_bounds mapped
  have differs := address_ne_sbStart mapped valid
  have small := address_lt mapped valid
  have nonzero : untranslate written (pointer.address written) ≠ 0 := by
    unfold untranslate u64Sub
    omega
  unfold absolute translate
  rw [if_neg nonzero]
  unfold untranslate u64Sub
  rw [Nat.add_mod_mod]

/-- The byte comes back exactly when the pointer is portable. -/
theorem absolute_eq_iff
    (writtenMapped : written.Mapped)
    (nowMapped : now.Mapped)
    (same : SameFiles written now)
    (valid : pointer.Valid written) :
    absolute now (untranslate written (pointer.address written)) =
        pointer.address now ↔
      Portable written now pointer := by
  rw [absolute_untranslate writtenMapped valid]
  obtain ⟨sameStart, sameSb, sameLar⟩ := same
  have writtenStart := sbStart_bounds writtenMapped
  have writtenUser := writtenMapped.lar.userSpace
  have sbUser := nowMapped.sb.userSpace
  have larUser := nowMapped.lar.userSpace
  unfold UserRegions.sbStart Region.fetchHeapStart at *
  cases pointer with
  | null =>
      simp only [Pointer.address, Portable]
      omega
  | sb offset =>
      simp only [Pointer.Valid] at valid
      simp only [Pointer.address, Portable, iff_true]
      omega
  | lar offset =>
      simp only [Pointer.Valid] at valid
      simp only [Pointer.address, Portable]
      omega

/-- A new heap has no roots. -/
theorem Inv.initial
    (fresh : Initial state) :
    Inv state := by
  obtain ⟨mapped, zero, none⟩ := fresh
  refine ⟨mapped, fun i _ => zero i, ?_⟩
  intro i pointer written isSet
  rw [none i] at isSet
  cases isSet

/-- Every event keeps what the roots hold. -/
theorem Inv.step
    {state' : State}
    {event : Event}
    (inv : Inv state)
    (stepped : Step state event state') :
    Inv state' := by
  cases stepped with
  | @setRoot pointer i previous roots valid stored =>
      unfold setRoot at stored
      split at stored
      · simp only [Option.some.injEq, Prod.mk.injEq] at stored
        obtain ⟨-, rfl⟩ := stored
        refine ⟨inv.mapped, ?_, ?_⟩
        · intro j isUnset
          rcases eq_or_ne j i with rfl | differs
          · simp at isUnset
          · simp only [Function.update_of_ne differs] at isUnset ⊢
            exact inv.unset j isUnset
        · intro j pointer' written isSet
          rcases eq_or_ne j i with rfl | differs
          · simp only [Function.update_self, Option.some.injEq,
              Prod.mk.injEq] at isSet ⊢
            obtain ⟨rfl, rfl⟩ := isSet
            exact ⟨inv.mapped, valid, ⟨rfl, rfl, rfl⟩, rfl⟩
          · simp only [Function.update_of_ne differs] at isSet ⊢
            exact inv.set j pointer' written isSet
      · cases stored
  | restart mapped =>
      refine ⟨mapped, inv.unset, ?_⟩
      intro i pointer written isSet
      obtain ⟨writtenMapped, valid, same, stored⟩ :=
        inv.set i pointer written isSet
      exact ⟨writtenMapped, valid,
        ⟨same.sbHeapStart, same.sbLength, same.larLength⟩, stored⟩

/--
In every state that `set_root` calls and restarts lead to, a root that was
never set reads as null, and a root that was set reads as the same byte of the
same file, for `get_root` and as the previous root of `set_root`, exactly when
its pointer is portable to the current mapping.
-/
theorem root_kept_iff_portable
    (reached : Reaches Initial Step state)
    {i : Nat}
    (small : i < maxRoots) :
    (state.lastSet i = none → ReadsAs state i 0) ∧
      ∀ pointer written,
        state.lastSet i = some (pointer, written) →
        (ReadsAs state i (pointer.address state.regions) ↔
          Portable written state.regions pointer) := by
  have inv : Inv state :=
    reached.invariant
      (fun _ fresh => Inv.initial fresh)
      (fun _ _ _ inv stepped => inv.step stepped)
  constructor
  · intro isUnset
    rw [readsAs_iff small, inv.unset i isUnset]
    rfl
  · intro pointer written isSet
    obtain ⟨writtenMapped, valid, same, stored⟩ :=
      inv.set i pointer written isSet
    rw [readsAs_iff small, stored]
    exact absolute_eq_iff writtenMapped inv.mapped same valid

/-- Two files of 1 GiB. -/
def exampleRegions (sbBase larBase : Nat) : UserRegions where
  sb :=
    { Region.map sbBase minSbRegionSize with
      heapStartWord := sbSize }
  lar :=
    { Region.map larBase minSbRegionSize with
      heapStartWord := pageSize }

/-- The roots of a new heap. -/
def exampleStart : State where
  regions := exampleRegions (2 ^ 40) (2 ^ 41)
  roots := fun _ => 0
  lastSet := fun _ => none

/-- One `set_root`, then a restart that moves the superblock file by a page. -/
def exampleMoved (pointer : Pointer) : State where
  regions := remapped exampleStart.regions (2 ^ 40 + pageSize) (2 ^ 41)
  roots :=
    Function.update (fun _ => 0) 0
      (untranslate exampleStart.regions
        (pointer.address exampleStart.regions))
  lastSet :=
    Function.update (fun _ => none) 0 (some (pointer, exampleStart.regions))

/-- Mappings of the example files. -/
theorem exampleRegions_mapped
    {sbBase larBase : Nat}
    (sb : Mappable sbBase (Region.fileSizeFor minSbRegionSize))
    (lar : Mappable larBase (Region.fileSizeFor minSbRegionSize))
    (apart : sbBase + Region.fileSizeFor minSbRegionSize ≤ larBase) :
    (remapped exampleStart.regions sbBase larBase).Mapped where
  sb := sb
  lar := lar
  sbHeapStart := by
    change sbSize < Region.fileSizeFor minSbRegionSize
    decide
  apart := Or.inl apart

/-- The example is reachable for every valid pointer. -/
theorem exampleMoved_reached
    {pointer : Pointer}
    (valid : pointer.Valid exampleStart.regions) :
    Reaches Initial Step (exampleMoved pointer) := by
  have lar : Mappable (2 ^ 41) (Region.fileSizeFor minSbRegionSize) :=
    ⟨by decide, by decide, by decide⟩
  have mapped : exampleStart.regions.Mapped :=
    exampleRegions_mapped ⟨by decide, by decide, by decide⟩ lar (by decide)
  have moved :
      (remapped exampleStart.regions (2 ^ 40 + pageSize) (2 ^ 41)).Mapped :=
    exampleRegions_mapped ⟨by decide, by decide, by decide⟩ lar (by decide)
  have fresh : Initial exampleStart :=
    ⟨mapped, fun _ => rfl, fun _ => rfl⟩
  have stored :
      setRoot exampleStart (pointer.address exampleStart.regions) 0 =
        some (0, (exampleMoved pointer).roots) :=
    rfl
  have rooted :
      Reaches Initial Step
        { exampleMoved pointer with regions := exampleStart.regions } :=
    (Reaches.start fresh).next (.setRoot valid stored)
  exact rooted.next (.restart moved)

/-- A root in the superblock file comes back after the restart. -/
theorem root_kept_iff_portable_sb :
    ReadsAs (exampleMoved (.sb (2 * sbSize))) 0
      (2 ^ 40 + pageSize + 2 * sbSize) := by
  have reached : Reaches Initial Step (exampleMoved (.sb (2 * sbSize))) :=
    exampleMoved_reached ⟨by decide, by decide⟩
  exact ((root_kept_iff_portable reached (by decide)).2
    (.sb (2 * sbSize)) exampleStart.regions rfl).mpr trivial

/--
After the restart a null root reads as a page and a root in the large-object
file as the byte one page behind its own.
-/
theorem moved_roots_differ :
    Reaches Initial Step (exampleMoved .null) ∧
      getRoot (exampleMoved .null) 0 = some pageSize ∧
      Reaches Initial Step (exampleMoved (.lar pageSize)) ∧
      getRoot (exampleMoved (.lar pageSize)) 0 =
        some (2 ^ 41 + pageSize + pageSize) ∧
      ¬ ReadsAs (exampleMoved .null) 0
          (Pointer.address (exampleMoved .null).regions .null) ∧
      ¬ ReadsAs (exampleMoved (.lar pageSize)) 0
          (Pointer.address (exampleMoved (.lar pageSize)).regions
            (.lar pageSize)) := by
  have nullRead : getRoot (exampleMoved .null) 0 = some pageSize := by
    decide +kernel
  have larRead :
      getRoot (exampleMoved (.lar pageSize)) 0 =
        some (2 ^ 41 + pageSize + pageSize) := by
    decide +kernel
  refine ⟨exampleMoved_reached trivial, nullRead,
    exampleMoved_reached (show pageSize < _ by decide), larRead, ?_, ?_⟩
  · rintro ⟨isNull, -⟩
    rw [nullRead] at isNull
    revert isNull
    decide
  · rintro ⟨isByte, -⟩
    rw [larRead] at isByte
    revert isByte
    decide +kernel

end Roots

end Bxalloc
