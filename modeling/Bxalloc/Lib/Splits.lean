import Mathlib.Data.List.Nodup
import Mathlib.Data.List.Perm.Basic

namespace Bxalloc.Lib

/-!
# Families of lists that split a collection

`Splits content member` says that the lists `content place` hand out the items
satisfying `member` among the places: every such item occurs in exactly one
list, exactly once, and nothing else occurs anywhere.

Operations that move items around are covered by three rules.  Two places may
exchange items, a place may receive items that were not members before, and a
place may give up all of its items at once.
-/

universe u v

variable {Place : Type u} {Item : Type v}

/-- The lists `content place` split the members without repetition. -/
structure Splits
    (content : Place → List Item)
    (member : Item → Prop) : Prop where
  nodup :
    ∀ place, (content place).Nodup
  disjoint :
    ∀ first second,
      first ≠ second →
      (content first).Disjoint (content second)
  covers :
    ∀ item, member item ↔ ∃ place, item ∈ content place

namespace Splits

variable {content content' : Place → List Item}
variable {member member' : Item → Prop}

/-- An item occurs in at most one place. -/
theorem place_eq
    (splits : Splits content member)
    {first second : Place}
    {item : Item}
    (inFirst : item ∈ content first)
    (inSecond : item ∈ content second) :
    first = second := by
  by_contra distinct
  exact splits.disjoint first second distinct inFirst inSecond

/-- Whatever occurs in some place is a member. -/
theorem member_of_mem
    (splits : Splits content member)
    {place : Place}
    {item : Item}
    (occurs : item ∈ content place) :
    member item :=
  (splits.covers item).mpr ⟨place, occurs⟩

/-- A single list without repetition, all other places empty. -/
theorem single
    {place : Place}
    (once : (content place).Nodup)
    (empty : ∀ other, other ≠ place → content other = []) :
    Splits content fun item => ∃ other, item ∈ content other where
  nodup other := by
    rcases eq_or_ne other place with rfl | differs
    · exact once
    · rw [empty other differs]
      exact List.nodup_nil
  disjoint first second distinct := by
    rcases eq_or_ne first place with rfl | differs
    · rw [empty second distinct.symm]
      exact List.disjoint_nil_right _
    · rw [empty first differs]
      exact List.disjoint_nil_left _
  covers _ := Iff.rfl

/-- Splitting depends on the members only up to equivalence. -/
theorem congr_member
    (splits : Splits content member)
    (same : ∀ item, member' item ↔ member item) :
    Splits content member' where
  nodup := splits.nodup
  disjoint := splits.disjoint
  covers item := (same item).trans (splits.covers item)

/-- The members are the items that occur. -/
theorem occurs
    (splits : Splits content member) :
    Splits content (fun item => ∃ place, item ∈ content place) :=
  splits.congr_member fun item => (splits.covers item).symm

/-- Splitting depends on the lists only pointwise. -/
theorem congr_content
    (splits : Splits content member)
    (same : ∀ place, content' place = content place) :
    Splits content' member := by
  have equal : content' = content := funext same
  rw [equal]
  exact splits

/--
Two places may exchange items freely as long as together they keep the same
items.
-/
theorem exchange
    (splits : Splits content member)
    {first second : Place}
    (distinct : first ≠ second)
    (sameItems :
      (content first ++ content second).Perm
        (content' first ++ content' second))
    (others :
      ∀ place,
        place ≠ first →
        place ≠ second →
        content' place = content place) :
    Splits content' member := by
  have together : (content' first ++ content' second).Nodup := by
    refine sameItems.nodup ?_
    exact List.nodup_append'.mpr
      ⟨splits.nodup first, splits.nodup second,
        splits.disjoint first second distinct⟩
  have parts := List.nodup_append'.mp together
  have moved :
      ∀ item,
        item ∈ content' first ∨ item ∈ content' second ↔
          item ∈ content first ∨ item ∈ content second := by
    intro item
    simpa only [List.mem_append] using sameItems.mem_iff.symm
  -- A third place keeps its list, so it stays apart from both lists.
  have apart :
      ∀ place,
        place ≠ first →
        place ≠ second →
        ∀ item,
          item ∈ content' place →
          item ∉ content' first ∧ item ∉ content' second := by
    intro place notFirst notSecond item occurs
    rw [others place notFirst notSecond] at occurs
    have outside :
        ¬ (item ∈ content' first ∨ item ∈ content' second) := by
      rw [moved item]
      rintro (inFirst | inSecond)
      · exact notFirst (splits.place_eq occurs inFirst)
      · exact notSecond (splits.place_eq occurs inSecond)
    exact not_or.mp outside
  refine ⟨?_, ?_, ?_⟩
  · intro place
    by_cases isFirst : place = first
    · rw [isFirst]
      exact parts.1
    · by_cases isSecond : place = second
      · rw [isSecond]
        exact parts.2.1
      · rw [others place isFirst isSecond]
        exact splits.nodup place
  · intro left right leftNeRight item inLeft inRight
    by_cases leftFirst : left = first
    · subst leftFirst
      by_cases rightSecond : right = second
      · subst rightSecond
        exact parts.2.2 inLeft inRight
      · exact (apart right (Ne.symm leftNeRight) rightSecond
          item inRight).1 inLeft
    · by_cases leftSecond : left = second
      · subst leftSecond
        by_cases rightFirst : right = first
        · subst rightFirst
          exact parts.2.2 inRight inLeft
        · exact (apart right rightFirst (Ne.symm leftNeRight)
            item inRight).2 inLeft
      · have away := apart left leftFirst leftSecond item inLeft
        by_cases rightFirst : right = first
        · subst rightFirst
          exact away.1 inRight
        · by_cases rightSecond : right = second
          · subst rightSecond
            exact away.2 inRight
          · rw [others left leftFirst leftSecond] at inLeft
            rw [others right rightFirst rightSecond] at inRight
            exact leftNeRight (splits.place_eq inLeft inRight)
  · intro item
    rw [splits.covers item]
    constructor
    · rintro ⟨place, occurs⟩
      by_cases isFirst : place = first
      · subst isFirst
        rcases (moved item).mpr (Or.inl occurs) with inFirst | inSecond
        · exact ⟨place, inFirst⟩
        · exact ⟨second, inSecond⟩
      · by_cases isSecond : place = second
        · subst isSecond
          rcases (moved item).mpr (Or.inr occurs) with inFirst | inSecond
          · exact ⟨first, inFirst⟩
          · exact ⟨place, inSecond⟩
        · exact ⟨place, by rwa [others place isFirst isSecond]⟩
    · rintro ⟨place, occurs⟩
      by_cases isFirst : place = first
      · subst isFirst
        rcases (moved item).mp (Or.inl occurs) with inFirst | inSecond
        · exact ⟨place, inFirst⟩
        · exact ⟨second, inSecond⟩
      · by_cases isSecond : place = second
        · subst isSecond
          rcases (moved item).mp (Or.inr occurs) with inFirst | inSecond
          · exact ⟨first, inFirst⟩
          · exact ⟨place, inSecond⟩
        · exact ⟨place, by rwa [← others place isFirst isSecond]⟩

/-- A place may receive items that were not members before. -/
theorem add
    (splits : Splits content member)
    (place : Place)
    {items : List Item}
    (noDuplicates : items.Nodup)
    (fresh : ∀ item, item ∈ items → ¬ member item)
    (received : (content' place).Perm (items ++ content place))
    (others : ∀ other, other ≠ place → content' other = content other)
    (members : ∀ item, member' item ↔ item ∈ items ∨ member item) :
    Splits content' member' := by
  have old :
      ∀ {other item}, item ∈ content other → item ∉ items :=
    fun occurs isFresh => fresh _ isFresh (splits.member_of_mem occurs)
  refine ⟨?_, ?_, ?_⟩
  · intro other
    by_cases isPlace : other = place
    · subst isPlace
      refine received.symm.nodup (List.nodup_append'.mpr ?_)
      exact ⟨noDuplicates, splits.nodup other,
        fun item isFresh occurs => old occurs isFresh⟩
    · rw [others other isPlace]
      exact splits.nodup other
  · have away :
        ∀ other,
          other ≠ place →
          ∀ item, item ∈ content' place → item ∉ content' other := by
      intro other notPlace item inPlace inOther
      rw [others other notPlace] at inOther
      rcases List.mem_append.mp (received.mem_iff.mp inPlace) with
        isFresh | wasThere
      · exact old inOther isFresh
      · exact notPlace (splits.place_eq inOther wasThere)
    intro left right distinct item inLeft inRight
    by_cases leftPlace : left = place
    · subst leftPlace
      exact away right (Ne.symm distinct) item inLeft inRight
    · by_cases rightPlace : right = place
      · subst rightPlace
        exact away left leftPlace item inRight inLeft
      · rw [others left leftPlace] at inLeft
        rw [others right rightPlace] at inRight
        exact distinct (splits.place_eq inLeft inRight)
  · intro item
    rw [members item, splits.covers item]
    constructor
    · rintro (isFresh | ⟨other, occurs⟩)
      · exact ⟨place,
          received.mem_iff.mpr (List.mem_append_left _ isFresh)⟩
      · by_cases isPlace : other = place
        · subst isPlace
          exact ⟨other,
            received.mem_iff.mpr (List.mem_append_right _ occurs)⟩
        · exact ⟨other, by rwa [others other isPlace]⟩
    · rintro ⟨other, occurs⟩
      by_cases isPlace : other = place
      · subst isPlace
        rcases List.mem_append.mp (received.mem_iff.mp occurs) with
          isFresh | wasThere
        · exact Or.inl isFresh
        · exact Or.inr ⟨other, wasThere⟩
      · exact Or.inr ⟨other, by rwa [← others other isPlace]⟩

/-- A place may give up all of its items, which then stop being members. -/
theorem drop
    (splits : Splits content member)
    (place : Place)
    (emptied : content' place = [])
    (others : ∀ other, other ≠ place → content' other = content other)
    (members :
      ∀ item, member' item ↔ member item ∧ item ∉ content place) :
    Splits content' member' := by
  refine ⟨?_, ?_, ?_⟩
  · intro other
    by_cases isPlace : other = place
    · subst isPlace
      simp [emptied]
    · rw [others other isPlace]
      exact splits.nodup other
  · intro left right distinct item inLeft inRight
    by_cases leftPlace : left = place
    · subst leftPlace
      simp [emptied] at inLeft
    · by_cases rightPlace : right = place
      · subst rightPlace
        simp [emptied] at inRight
      · rw [others left leftPlace] at inLeft
        rw [others right rightPlace] at inRight
        exact distinct (splits.place_eq inLeft inRight)
  · intro item
    rw [members item, splits.covers item]
    constructor
    · rintro ⟨⟨other, occurs⟩, notHere⟩
      have notPlace : other ≠ place := by
        intro isPlace
        subst isPlace
        exact notHere occurs
      exact ⟨other, by rwa [others other notPlace]⟩
    · rintro ⟨other, occurs⟩
      by_cases isPlace : other = place
      · subst isPlace
        simp [emptied] at occurs
      · rw [others other isPlace] at occurs
        exact ⟨⟨other, occurs⟩,
          fun inPlace => isPlace (splits.place_eq occurs inPlace)⟩

/-- Items may be left out anywhere. -/
theorem sublist
    (splits : Splits content member)
    (fewer : ∀ place, (content' place).Sublist (content place)) :
    Splits content' (fun item => ∃ place, item ∈ content' place) where
  nodup place := (splits.nodup place).sublist (fewer place)
  disjoint first second distinct _ inFirst inSecond :=
    splits.disjoint first second distinct
      ((fewer first).subset inFirst) ((fewer second).subset inSecond)
  covers _ := Iff.rfl

/-- Two places that hold all items between them. -/
theorem ofPair
    {items : List Item}
    {first second : Place}
    (distinct : first ≠ second)
    (together : (content first ++ content second).Perm items)
    (noDuplicates : items.Nodup)
    (others :
      ∀ place, place ≠ first → place ≠ second → content place = []) :
    Splits content (· ∈ items) := by
  classical
  have nothing : Splits (fun _ : Place => ([] : List Item)) (fun _ => False) :=
    { nodup := fun _ => List.nodup_nil
      disjoint := fun _ _ _ => List.disjoint_nil_left _
      covers := fun _ => by simp }
  -- First all items go to one place, then the two places share them out.
  have gathered :
      Splits (Function.update (fun _ : Place => ([] : List Item)) first items)
        (· ∈ items) := by
    refine nothing.add first noDuplicates (fun _ _ => id) ?_ ?_ ?_
    · rw [Function.update_self, List.append_nil]
    · intro other differs
      rw [Function.update_of_ne differs]
    · intro item
      simp
  refine gathered.exchange distinct ?_ ?_
  · rw [Function.update_self, Function.update_of_ne distinct.symm,
      List.append_nil]
    exact together.symm
  · intro place notFirst notSecond
    rw [others place notFirst notSecond, Function.update_of_ne notFirst]

end Splits

end Bxalloc.Lib
