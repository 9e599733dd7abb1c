import Mathlib.Data.Finset.Card

namespace Bxalloc.Lib

/-!
# Marking with a worklist

A marking has a set of marked nodes and a stack of nodes whose successors are
still to be visited.  Visiting a node marks it and pushes it, once.  The loop
pops a node and visits its successors until the stack is empty.  When all nodes
come from a finite set the loop ends, and the marked nodes are then the closure
of the roots under successors.
-/

universe u

variable {Node : Type u} [DecidableEq Node]

/-- The nodes reachable from the roots. -/
inductive Closure
    (roots : Node → Prop)
    (next : Node → List Node) : Node → Prop where
  | root
      {node : Node}
      (isRoot : roots node) :
      Closure roots next node
  | step
      {node successor : Node}
      (reached : Closure roots next node)
      (edge : successor ∈ next node) :
      Closure roots next successor

omit [DecidableEq Node] in
/-- Edges matter at reachable nodes only. -/
theorem Closure.congr
    {roots roots' : Node → Prop}
    {next next' : Node → List Node}
    (sameRoots : ∀ node, roots' node ↔ roots node)
    (sameNext :
      ∀ node,
        Closure roots next node →
        ∀ successor, successor ∈ next' node ↔ successor ∈ next node)
    {node : Node} :
    Closure roots' next' node ↔ Closure roots next node := by
  constructor
  · intro reached
    induction reached with
    | root isRoot => exact .root ((sameRoots _).mp isRoot)
    | step _ edge inductionHypothesis =>
        exact .step inductionHypothesis
          ((sameNext _ inductionHypothesis _).mp edge)
  · intro reached
    induction reached with
    | root isRoot => exact .root ((sameRoots _).mpr isRoot)
    | step reached edge inductionHypothesis =>
        exact .step inductionHypothesis ((sameNext _ reached _).mpr edge)

/-- The marked nodes, and those whose successors are not visited yet. -/
structure Marking (Node : Type u) where
  marked : Finset Node
  stack : List Node

namespace Marking

variable {roots : Node → Prop} {next : Node → List Node}

/-- Mark a node and push it, unless it is marked already. -/
def visit (marking : Marking Node) (node : Node) : Marking Node :=
  if node ∈ marking.marked then
    marking
  else
    { marked := insert node marking.marked
      stack := node :: marking.stack }

/-- Visit the nodes of a list in order. -/
def visitAll (marking : Marking Node) (nodes : List Node) : Marking Node :=
  nodes.foldl visit marking

/-- Pop nodes and visit their successors, at most `fuel` times. -/
def run (next : Node → List Node) : Nat → Marking Node → Option (Marking Node)
  | fuel, marking =>
      match marking.stack, fuel with
      | [], _ => some marking
      | _ :: _, 0 => none
      | node :: rest, fuel + 1 =>
          run next fuel ({ marking with stack := rest }.visitAll (next node))

/-- The nodes that the loop pops, in order. -/
def popped (next : Node → List Node) : Nat → Marking Node → List Node
  | 0, _ => []
  | fuel + 1, marking =>
      match marking.stack with
      | [] => []
      | node :: rest =>
          node ::
            popped next fuel
              ({ marking with stack := rest }.visitAll (next node))

/-- Visiting marks exactly the visited nodes. -/
theorem mem_visitAll_marked
    (marking : Marking Node)
    (nodes : List Node)
    (node : Node) :
    node ∈ (marking.visitAll nodes).marked ↔
      node ∈ marking.marked ∨ node ∈ nodes := by
  induction nodes generalizing marking with
  | nil =>
      simp [visitAll]
  | cons first rest inductionHypothesis =>
      have later := inductionHypothesis (marking.visit first)
      change node ∈ ((marking.visit first).visitAll rest).marked ↔ _
      rw [later, List.mem_cons]
      unfold visit
      split
      · next known =>
          constructor
          · rintro (old | new)
            · exact Or.inl old
            · exact Or.inr (Or.inr new)
          · rintro (old | same | new)
            · exact Or.inl old
            · exact Or.inl (same ▸ known)
            · exact Or.inr new
      · rw [Finset.mem_insert]
        tauto

/-- Visiting pushes exactly the visited nodes that were not marked. -/
theorem mem_visitAll_stack
    (marking : Marking Node)
    (nodes : List Node)
    (node : Node) :
    node ∈ (marking.visitAll nodes).stack ↔
      node ∈ marking.stack ∨ (node ∈ nodes ∧ node ∉ marking.marked) := by
  induction nodes generalizing marking with
  | nil =>
      simp [visitAll]
  | cons first rest inductionHypothesis =>
      have later := inductionHypothesis (marking.visit first)
      change node ∈ ((marking.visit first).visitAll rest).stack ↔ _
      rw [later, List.mem_cons]
      unfold visit
      split
      · next known =>
          constructor
          · rintro (old | ⟨new, fresh⟩)
            · exact Or.inl old
            · exact Or.inr ⟨Or.inr new, fresh⟩
          · rintro (old | ⟨same | new, fresh⟩)
            · exact Or.inl old
            · exact absurd (same ▸ known) fresh
            · exact Or.inr ⟨new, fresh⟩
      · next unknown =>
          rw [List.mem_cons, Finset.mem_insert]
          constructor
          · rintro ((same | old) | ⟨new, fresh⟩)
            · exact Or.inr ⟨Or.inl same, same ▸ unknown⟩
            · exact Or.inl old
            · exact Or.inr ⟨Or.inr new, fun known => fresh (Or.inr known)⟩
          · rintro (old | ⟨same | new, fresh⟩)
            · exact Or.inl (Or.inr old)
            · exact Or.inl (Or.inl same)
            · by_cases same : node = first
              · exact Or.inl (Or.inl same)
              · exact Or.inr ⟨new, fun known => fresh (known.resolve_left same)⟩

/-- Every mark is paid for by a push. -/
theorem visitAll_balance
    (marking : Marking Node)
    (nodes : List Node) :
    (marking.visitAll nodes).stack.length + marking.marked.card =
      marking.stack.length + (marking.visitAll nodes).marked.card := by
  induction nodes generalizing marking with
  | nil =>
      rfl
  | cons first rest inductionHypothesis =>
      have later := inductionHypothesis (marking.visit first)
      have once :
          (marking.visit first).stack.length + marking.marked.card =
            marking.stack.length + (marking.visit first).marked.card := by
        unfold visit
        split
        · rfl
        · next unknown =>
            rw [Finset.card_insert_of_notMem unknown, List.length_cons]
            omega
      change
        ((marking.visit first).visitAll rest).stack.length + _ =
          _ + ((marking.visit first).visitAll rest).marked.card
      omega

/-- What the loop keeps: marks are sound, and popped nodes are finished. -/
structure Sound
    (roots : Node → Prop)
    (next : Node → List Node)
    (marking : Marking Node) : Prop where
  reached : ∀ node, node ∈ marking.marked → Closure roots next node
  pushed : ∀ node, node ∈ marking.stack → node ∈ marking.marked
  rooted : ∀ node, roots node → node ∈ marking.marked
  finished :
    ∀ node successor,
      node ∈ marking.marked →
      node ∉ marking.stack →
      successor ∈ next node →
      successor ∈ marking.marked

/-- Visiting the roots first starts the loop soundly. -/
theorem sound_start
    {rootList : List Node}
    (listed : ∀ node, roots node ↔ node ∈ rootList) :
    Sound roots next (visitAll ⟨∅, []⟩ rootList) := by
  refine ⟨?_, ?_, ?_, ?_⟩
  · intro node isMarked
    rw [mem_visitAll_marked] at isMarked
    rcases isMarked with absent | member
    · exact absurd absent (Finset.notMem_empty node)
    · exact .root ((listed node).mpr member)
  · intro node isPushed
    rw [mem_visitAll_stack] at isPushed
    rw [mem_visitAll_marked]
    rcases isPushed with absent | ⟨member, -⟩
    · exact absurd absent List.not_mem_nil
    · exact Or.inr member
  · intro node isRoot
    rw [mem_visitAll_marked]
    exact Or.inr ((listed node).mp isRoot)
  · intro node successor isMarked notPushed
    rw [mem_visitAll_marked] at isMarked
    rw [mem_visitAll_stack] at notPushed
    rcases isMarked with absent | member
    · exact absurd absent (Finset.notMem_empty node)
    · exact absurd (Or.inr ⟨member, Finset.notMem_empty node⟩) notPushed

/-- Popping a node and visiting its successors stays sound. -/
theorem Sound.pop
    {marked : Finset Node}
    {node : Node}
    {rest : List Node}
    (sound : Sound roots next ⟨marked, node :: rest⟩) :
    Sound roots next (visitAll ⟨marked, rest⟩ (next node)) := by
  have here : node ∈ marked := sound.pushed node List.mem_cons_self
  refine ⟨?_, ?_, ?_, ?_⟩
  · intro other isMarked
    rw [mem_visitAll_marked] at isMarked
    rcases isMarked with old | edge
    · exact sound.reached other old
    · exact .step (sound.reached node here) edge
  · intro other isPushed
    rw [mem_visitAll_stack] at isPushed
    rw [mem_visitAll_marked]
    rcases isPushed with old | ⟨edge, -⟩
    · exact Or.inl (sound.pushed other (List.mem_cons_of_mem _ old))
    · exact Or.inr edge
  · intro other isRoot
    rw [mem_visitAll_marked]
    exact Or.inl (sound.rooted other isRoot)
  · intro other successor isMarked notPushed edge
    rw [mem_visitAll_marked] at isMarked ⊢
    rw [mem_visitAll_stack] at notPushed
    have old : other ∈ marked := by
      rcases isMarked with old | new
      · exact old
      · by_contra unknown
        exact notPushed (Or.inr ⟨new, unknown⟩)
    by_cases popped : other = node
    · exact Or.inr (popped ▸ edge)
    · left
      refine sound.finished other successor old ?_ edge
      rw [List.mem_cons]
      rintro (same | later)
      · exact popped same
      · exact notPushed (Or.inl later)

omit [DecidableEq Node] in
/-- A sound marking with an empty stack is the closure. -/
theorem Sound.closure_of_emptied
    {marked : Finset Node}
    (sound : Sound roots next ⟨marked, []⟩)
    (node : Node) :
    node ∈ marked ↔ Closure roots next node := by
  refine ⟨sound.reached node, fun reached => ?_⟩
  induction reached with
  | root isRoot => exact sound.rooted _ isRoot
  | step _ edge inductionHypothesis =>
      exact sound.finished _ _ inductionHypothesis List.not_mem_nil edge

/-- Every node is on the stack at most once, and only when it is marked. -/
structure Tidy (marking : Marking Node) : Prop where
  distinct : marking.stack.Nodup
  pushed : ∀ node, node ∈ marking.stack → node ∈ marking.marked

/-- A visit keeps the stack tidy. -/
theorem Tidy.visit
    {marking : Marking Node}
    (tidy : Tidy marking)
    (node : Node) :
    Tidy (marking.visit node) := by
  unfold Marking.visit
  split
  · exact tidy
  · next unknown =>
      refine ⟨List.nodup_cons.mpr ⟨?_, tidy.distinct⟩, ?_⟩
      · intro onStack
        exact unknown (tidy.pushed node onStack)
      · intro other onStack
        rcases List.mem_cons.mp onStack with rfl | older
        · exact Finset.mem_insert_self _ _
        · exact Finset.mem_insert_of_mem (tidy.pushed other older)

/-- Visits keep the stack tidy. -/
theorem Tidy.visitAll
    {marking : Marking Node}
    (tidy : Tidy marking)
    (nodes : List Node) :
    Tidy (marking.visitAll nodes) := by
  induction nodes generalizing marking with
  | nil => exact tidy
  | cons first rest inductionHypothesis =>
      exact inductionHypothesis (tidy.visit first)

/-- The loop pops each node at most once. -/
theorem Tidy.popped_nodup
    {marking : Marking Node}
    (tidy : Tidy marking)
    (fuel : Nat) :
    (popped next fuel marking).Nodup ∧
      ∀ node,
        node ∈ popped next fuel marking →
        node ∈ marking.stack ∨ node ∉ marking.marked := by
  induction fuel generalizing marking with
  | zero =>
      exact ⟨List.nodup_nil, fun node absent => absurd absent List.not_mem_nil⟩
  | succ fuel inductionHypothesis =>
      obtain ⟨marked, stack⟩ := marking
      cases stack with
      | nil =>
          exact ⟨List.nodup_nil,
            fun node absent => absurd absent List.not_mem_nil⟩
      | cons node rest =>
          obtain ⟨fresh, restDistinct⟩ := List.nodup_cons.mp tidy.distinct
          have isMarked := tidy.pushed node List.mem_cons_self
          have restTidy : Tidy ⟨marked, rest⟩ :=
            ⟨restDistinct, fun other onStack =>
              tidy.pushed other (List.mem_cons_of_mem _ onStack)⟩
          obtain ⟨laterDistinct, laterNew⟩ :=
            inductionHypothesis (restTidy.visitAll (next node))
          have notAgain : ¬ (node ∈ rest ∨ node ∈ next node ∧ node ∉ marked) := by
            rintro (older | ⟨-, unknown⟩)
            · exact fresh older
            · exact unknown isMarked
          refine ⟨List.nodup_cons.mpr ⟨?_, laterDistinct⟩, ?_⟩
          · intro again
            rcases laterNew node again with onStack | unknown
            · exact notAgain ((mem_visitAll_stack _ _ _).mp onStack)
            · exact unknown ((mem_visitAll_marked _ _ _).mpr (.inl isMarked))
          · intro other member
            rcases List.mem_cons.mp member with rfl | later
            · exact .inl List.mem_cons_self
            · rcases laterNew other later with onStack | unknown
              · rcases (mem_visitAll_stack _ _ _).mp onStack with older | new
                · exact .inl (List.mem_cons_of_mem _ older)
                · exact .inr new.2
              · right
                intro known
                exact unknown ((mem_visitAll_marked _ _ _).mpr (.inl known))

/-- The loop stops at an empty stack. -/
theorem run_emptied
    (next : Node → List Node)
    (fuel : Nat)
    (marked : Finset Node) :
    run next fuel ⟨marked, []⟩ = some ⟨marked, []⟩ := by
  cases fuel with
  | zero => rfl
  | succ fuel => rfl

/-- A loop that ends has popped all marked nodes that were not done before. -/
theorem Tidy.mem_popped
    {fuel : Nat}
    {marking final : Marking Node}
    (tidy : Tidy marking)
    (ran : run next fuel marking = some final)
    (node : Node) :
    node ∈ final.marked ↔
      node ∈ popped next fuel marking ∨
        (node ∈ marking.marked ∧ node ∉ marking.stack) := by
  induction fuel generalizing marking with
  | zero =>
      obtain ⟨marked, stack⟩ := marking
      cases stack with
      | nil =>
          rw [run_emptied] at ran
          cases ran
          simp [popped]
      | cons first rest => cases ran
  | succ fuel inductionHypothesis =>
      obtain ⟨marked, stack⟩ := marking
      cases stack with
      | nil =>
          rw [run_emptied] at ran
          cases ran
          simp [popped]
      | cons first rest =>
          obtain ⟨fresh, restDistinct⟩ := List.nodup_cons.mp tidy.distinct
          have isMarked := tidy.pushed first List.mem_cons_self
          have restTidy : Tidy ⟨marked, rest⟩ :=
            ⟨restDistinct, fun other onStack =>
              tidy.pushed other (List.mem_cons_of_mem _ onStack)⟩
          rw [inductionHypothesis (restTidy.visitAll (next first)) ran,
            mem_visitAll_marked, mem_visitAll_stack]
          simp only [popped, List.mem_cons]
          rcases eq_or_ne node first with rfl | differs
          · simp [isMarked, fresh]
          · simp only [differs, false_or]
            tauto

/--
With fuel for every node of a finite set that holds all marks, the loop ends
with the closure of the roots.
-/
theorem Sound.run_eq_closure
    {marking : Marking Node}
    {nodes : Finset Node}
    {fuel : Nat}
    (sound : Sound roots next marking)
    (bounded : ∀ node, Closure roots next node → node ∈ nodes)
    (enough :
      nodes.card + marking.stack.length ≤ fuel + marking.marked.card) :
    ∃ final,
      run next fuel marking = some final ∧
        ∀ node, node ∈ final.marked ↔ Closure roots next node := by
  induction fuel generalizing marking with
  | zero =>
      obtain ⟨marked, stack⟩ := marking
      have few : marked.card ≤ nodes.card :=
        Finset.card_le_card fun node isMarked =>
          bounded node (sound.reached node isMarked)
      have emptied : stack = [] := by
        apply List.eq_nil_of_length_eq_zero
        simp only at enough
        omega
      subst emptied
      exact ⟨_, run_emptied next 0 marked, sound.closure_of_emptied⟩
  | succ fuel inductionHypothesis =>
      obtain ⟨marked, stack⟩ := marking
      cases stack with
      | nil =>
          exact ⟨_, run_emptied next _ marked, sound.closure_of_emptied⟩
      | cons node rest =>
          have balance := visitAll_balance ⟨marked, rest⟩ (next node)
          simp only [List.length_cons] at enough balance
          have fewer :
              nodes.card +
                  (visitAll ⟨marked, rest⟩ (next node)).stack.length ≤
                fuel + (visitAll ⟨marked, rest⟩ (next node)).marked.card := by
            omega
          exact inductionHypothesis sound.pop fewer

end Marking

end Bxalloc.Lib
