import Mathlib.Data.List.Nodup

namespace Bxalloc.Lib

/-!
# Null-terminated lists

A null-terminated list starts at some node, follows a link function and ends at
a given null node.  The lemmas say that the nodes are determined by the links,
and how changing links elsewhere, adding a node in front or taking the first
node away changes the list.
-/

universe u

variable {Node : Type u}

/-- The nodes reached from `start` before `null` are exactly `nodes`. -/
def NullList (link : Node → Node) (null : Node) : Node → List Node → Prop
  | start, [] => start = null
  | start, node :: rest =>
      start = node ∧ start ≠ null ∧ NullList link null (link node) rest

namespace NullList

variable {link link' : Node → Node} {null start : Node}

/-- The first node of a list, or null. -/
def top (null : Node) (nodes : List Node) : Node :=
  nodes.head?.getD null

/-- A list starts at its first node. -/
theorem start_eq
    {nodes : List Node}
    (list : NullList link null start nodes) :
    start = top null nodes := by
  cases nodes with
  | nil => exact list
  | cons node rest => exact list.1

/-- Links that agree on the nodes give the same list. -/
theorem congr
    {nodes : List Node}
    (list : NullList link null start nodes)
    (same : ∀ node, node ∈ nodes → link' node = link node) :
    NullList link' null start nodes := by
  induction nodes generalizing start with
  | nil => exact list
  | cons node rest inductionHypothesis =>
      obtain ⟨first, notNull, later⟩ := list
      refine ⟨first, notNull, ?_⟩
      rw [same node List.mem_cons_self]
      exact inductionHypothesis later
        fun other member => same other (List.mem_cons_of_mem _ member)

/-- A node linked to the start of a list extends it. -/
theorem cons
    {node : Node}
    {nodes : List Node}
    (list : NullList link null start nodes)
    (linked : link node = start)
    (notNull : node ≠ null) :
    NullList link null node (node :: nodes) :=
  ⟨rfl, notNull, by rw [linked]; exact list⟩

/-- The nodes of a list are determined by its links. -/
theorem unique
    {nodes nodes' : List Node}
    (list : NullList link null start nodes)
    (list' : NullList link null start nodes') :
    nodes = nodes' := by
  induction nodes generalizing start nodes' with
  | nil =>
      cases nodes' with
      | nil => rfl
      | cons node rest => exact absurd list list'.2.1
  | cons node rest inductionHypothesis =>
      cases nodes' with
      | nil => exact absurd list' list.2.1
      | cons node' rest' =>
          obtain ⟨first, -, later⟩ := list
          obtain ⟨first', -, later'⟩ := list'
          have same : node = node' := first.symm.trans first'
          subst same
          rw [inductionHypothesis later later']

/-- The list from a later node on. -/
theorem suffix
    {before after : List Node}
    {node : Node}
    (list : NullList link null start (before ++ node :: after)) :
    NullList link null node (node :: after) := by
  induction before generalizing start with
  | nil =>
      obtain ⟨first, notNull, later⟩ := list
      rw [first] at notNull
      exact ⟨rfl, notNull, later⟩
  | cons _ _ inductionHypothesis => exact inductionHypothesis list.2.2

/-- A list that ends meets no node twice. -/
theorem nodup
    {nodes : List Node}
    (list : NullList link null start nodes) :
    nodes.Nodup := by
  induction nodes generalizing start with
  | nil => exact List.nodup_nil
  | cons node rest inductionHypothesis =>
      refine List.nodup_cons.mpr ⟨?_, inductionHypothesis list.2.2⟩
      intro again
      -- The list from the second occurrence on would be the whole list.
      obtain ⟨before, after, rfl⟩ := List.append_of_mem again
      have whole : NullList link null node (node :: (before ++ node :: after)) :=
        list.1 ▸ list
      have same := whole.unique (suffix list.2.2)
      have lengths := congrArg List.length same
      simp only [List.length_cons, List.length_append] at lengths
      omega

end NullList

end Bxalloc.Lib
