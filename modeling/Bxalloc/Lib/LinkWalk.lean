import Mathlib.Data.List.Iterate
import Mathlib.Data.List.Nodup

namespace Bxalloc.Lib

/-!
# Walking counted chains of links

A counted chain starts at some node and follows a link function for a given
number of nodes, whatever the last link says.  Mathlib's `List.iterate link
start count` is the list of its nodes.  The lemmas here say when changing the
link function leaves a chain alone, and how redirecting the link of the last
node joins two chains.
-/

universe u

namespace LinkWalk

variable {Node : Type u}
variable {link link' : Node → Node}

/-- Nodes reached early in a chain belong to it. -/
theorem iterate_mem
    {start : Node}
    {count index : Nat}
    (early : index < count) :
    link^[index] start ∈ List.iterate link start count :=
  List.mem_iterate.mpr ⟨index, early, rfl⟩

/-- Link functions agreeing on the first nodes reach the same next node. -/
theorem reach_congr
    {start : Node}
    {count : Nat}
    (same :
      ∀ index,
        index < count →
        link' (link^[index] start) = link (link^[index] start)) :
    link'^[count] start = link^[count] start := by
  induction count with
  | zero =>
      rfl
  | succ count inductionHypothesis =>
      rw [Function.iterate_succ_apply', Function.iterate_succ_apply',
        inductionHypothesis
          (fun index early => same index (Nat.lt_succ_of_lt early))]
      exact same count (Nat.lt_succ_self count)

/--
A chain does not depend on the link of its last node, so agreement on the
earlier nodes is enough.
-/
theorem iterate_congr
    {start : Node}
    {count : Nat}
    (same :
      ∀ index,
        index + 1 < count →
        link' (link^[index] start) = link (link^[index] start)) :
    List.iterate link' start count =
      List.iterate link start count := by
  rw [← List.range_map_iterate, ← List.range_map_iterate]
  apply List.map_congr_left
  intro index inRange
  apply reach_congr
  intro earlier before
  exact same earlier
    (by
      have := List.mem_range.mp inRange
      omega)

/-- Agreement on every member of a chain keeps the chain. -/
theorem iterate_congr_of_mem
    {start : Node}
    {count : Nat}
    (same :
      ∀ node,
        node ∈ List.iterate link start count →
        link' node = link node) :
    List.iterate link' start count =
      List.iterate link start count :=
  iterate_congr fun _ early =>
    same _ (iterate_mem (Nat.lt_of_succ_lt early))

/--
Redirecting the last link of a chain to another node appends the chain that
starts there.
-/
theorem iterate_splice
    {start target : Node}
    {count : Nat}
    (more : Nat)
    (same :
      ∀ index,
        index < count →
        link' (link^[index] start) = link (link^[index] start))
    (redirected : link' (link^[count] start) = target) :
    List.iterate link' start (count + 1 + more) =
      List.iterate link start (count + 1) ++
        List.iterate link' target more := by
  rw [List.iterate_add]
  congr 1
  · exact iterate_congr fun index early =>
      same index (Nat.lt_of_succ_lt_succ early)
  · rw [Function.iterate_succ_apply', reach_congr same, redirected]

/-- Duplicate-free chains reach different nodes at different positions. -/
theorem iterate_ne_of_nodup
    {start : Node}
    {first second : Nat}
    (count : Nat)
    (noDuplicates : (List.iterate link start count).Nodup)
    (firstEarly : first < count)
    (secondEarly : second < count)
    (distinct : first ≠ second) :
    link^[first] start ≠ link^[second] start := by
  intro same
  have firstIn : first < (List.iterate link start count).length := by
    simpa using firstEarly
  have secondIn : second < (List.iterate link start count).length := by
    simpa using secondEarly
  have equal :
      (List.iterate link start count)[first] =
        (List.iterate link start count)[second] := by
    simpa using same
  exact distinct ((List.Nodup.getElem_inj_iff noDuplicates).mp equal)

/--
A duplicate-free chain can be cut behind any node: redirecting the link of that
node leaves the nodes up to it and the rest of the chain linked as they were.
-/
theorem iterate_cut
    {start : Node}
    {more left : Nat}
    (noDuplicates : (List.iterate link start (more + 1 + left)).Nodup)
    (same :
      ∀ node,
        node ∈ List.iterate link start (more + 1 + left) →
        node ≠ link^[more] start →
        link' node = link node) :
    List.iterate link' start (more + 1) =
        List.iterate link start (more + 1) ∧
      List.iterate link' (link^[more + 1] start) left =
        List.iterate link (link^[more + 1] start) left := by
  have parts := noDuplicates
  rw [List.iterate_add] at parts
  obtain ⟨-, -, apart⟩ := List.nodup_append'.mp parts
  constructor
  · apply iterate_congr
    intro index early
    apply same
    · exact iterate_mem (by omega)
    · exact iterate_ne_of_nodup _ noDuplicates (by omega) (by omega)
        (by omega)
  · apply iterate_congr_of_mem
    intro node member
    apply same
    · rw [List.iterate_add]
      exact List.mem_append_right _ member
    · rintro rfl
      exact apart (iterate_mem (Nat.lt_succ_self more)) member

end LinkWalk

end Bxalloc.Lib
