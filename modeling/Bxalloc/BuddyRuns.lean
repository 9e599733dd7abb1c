import Bxalloc.BuddyMoves

namespace Bxalloc

/-!
# Runs of the large-object allocator

A run starts with the arena the constructor builds and takes atomic steps: an
`alloc` that needs no expansion, a `free` of a live block, or stores by users
into their blocks.  The merge loop of `free` compares the sizes of a block and
its buddy before the first merge only; while every buddy it meets has the size
of its level, the arena stays partitioned.
-/

open Lib

namespace Buddy

variable {layout : BuddyLayout} {state state' : Buddy}
variable {items : Nat → List Nat} {hand : List Nat}

/-- The list that the search loop of `alloc` stops at. -/
theorem findLevel_spec
    {length : Int}
    {i more j : Nat}
    (found : findLevel layout state length i more = some j) :
    i ≤ j ∧
      j < i + more ∧
      state.freeList j ≠ 0 ∧
      need length ≤ layout.levelSize j ∧
      ∀ k,
        i ≤ k →
        k < j →
        state.freeList k = 0 ∨ (layout.levelSize k : Int) < need length := by
  induction more generalizing i with
  | zero => cases found
  | succ more inductionHypothesis =>
      unfold findLevel at found
      split at found
      · next skipped =>
          obtain ⟨lower, upper, nonempty, enough, before⟩ :=
            inductionHypothesis found
          refine ⟨by omega, by omega, nonempty, enough, ?_⟩
          intro k above below
          rcases Nat.eq_or_lt_of_le above with rfl | above
          · exact skipped
          · exact before k above below
      · next accepted =>
          obtain rfl := Option.some.inj found
          obtain ⟨nonempty, large⟩ := not_or.mp accepted
          refine ⟨Nat.le_refl _, by omega, nonempty, not_lt.mp large, ?_⟩
          intro k above below
          omega

/-- The search of `alloc` stops at a list that has a large enough block. -/
theorem findLevel_ok
    {length : Int}
    {i more j : Nat}
    (after : i ≤ j)
    (before : j < i + more)
    (nonempty : state.freeList j ≠ 0)
    (enough : need length ≤ layout.levelSize j) :
    ∃ k, findLevel layout state length i more = some k := by
  induction more generalizing i with
  | zero => omega
  | succ more inductionHypothesis =>
      unfold findLevel
      split
      · next skipped =>
          have differs : i ≠ j := by
            rintro rfl
            rcases skipped with empty | small
            · exact nonempty empty
            · omega
          exact inductionHypothesis (by omega) (by omega)
      · exact ⟨i, rfl⟩

/-- A basic block is not split. -/
theorem splits_zero
    (length : Int)
    (size : sizeAt state (state.freeList 0) = layout.levelSize 0) :
    splits layout state length 0 = false := by
  unfold splits
  change
    (decide (need length < ((sizeAt state (state.freeList 0) / 2 : Nat))) &&
      decide (layout.basicBlockSize ≤ sizeAt state (state.freeList 0) / 2)) =
      false
  rw [size]
  have positive := levelSize_pos layout 0
  unfold BuddyLayout.levelSize at positive ⊢
  rw [Bool.and_eq_false_iff]
  right
  rw [decide_eq_false_iff_not]
  omega

/-- A larger block is split when the request is smaller than its half. -/
theorem splits_succ
    (length : Int)
    {i : Nat}
    (size : sizeAt state (state.freeList (i + 1)) = layout.levelSize (i + 1)) :
    splits layout state length (i + 1) = true ↔
      need length < layout.levelSize i := by
  have half :
      sizeAt state (state.freeList (i + 1)) / 2 = layout.levelSize i := by
    rw [size, levelSize_succ]
    omega
  have atLeast : layout.basicBlockSize ≤ layout.levelSize i :=
    Nat.le_mul_of_pos_left _ (Nat.two_pow_pos i)
  unfold splits
  simp only [Bool.and_eq_true, decide_eq_true_eq]
  change
    need length < ((sizeAt state (state.freeList (i + 1)) / 2 : Nat)) ∧
      layout.basicBlockSize ≤ sizeAt state (state.freeList (i + 1)) / 2 ↔ _
  rw [half]
  exact and_iff_left atLeast

/-- Heads of different lists can be written in either order. -/
theorem setHead_comm
    (state : Buddy)
    (b c : Nat)
    {i j : Nat}
    (differs : i ≠ j) :
    (state.setHead i b).setHead j c = (state.setHead j c).setHead i b := by
  unfold setHead
  simp only
  rw [Function.update_comm differs]

namespace Partition

/-- A nonempty list starts with its first block. -/
theorem head_listed
    (partition : Partition layout state items hand)
    {i : Nat}
    (nonempty : state.freeList i ≠ 0) :
    ∃ rest, items i = state.freeList i :: rest := by
  have list := partition.lists i
  cases shape : items i with
  | nil =>
      rw [shape] at list
      exact absurd list nonempty
  | cons node rest =>
      rw [shape] at list
      exact ⟨rest, by rw [← list.1]⟩

/-- An empty list has no blocks. -/
theorem empty_of_null
    (partition : Partition layout state items hand)
    {i : Nat}
    (empty : state.freeList i = 0) :
    items i = [] := by
  have list := partition.lists i
  cases shape : items i with
  | nil => rfl
  | cons node rest =>
      rw [shape] at list
      exact absurd empty list.2.1

/-- Removing the first block of a list. -/
theorem take_head
    (partition : Partition layout state items [])
    {i : Nat}
    (nonempty : state.freeList i ≠ 0) :
    ∃ items',
      Partition layout
          (state.setHead i (nextAt state (state.freeList i))) items'
          [state.freeList i] ∧
        ∀ k, k ≠ i → items' k = items k := by
  obtain ⟨rest, shape⟩ := partition.head_listed nonempty
  have member : state.freeList i ∈ items i := by
    rw [shape]
    exact List.mem_cons_self
  obtain ⟨state', removed, -, -, taken⟩ := partition.remove_listed member
  unfold remove at removed
  rw [if_pos rfl] at removed
  obtain rfl := Option.some.inj removed
  exact ⟨_, taken, fun k differs => Function.update_of_ne differs ..⟩

/-- One round of the split loop. -/
theorem split_head
    (partition : Partition layout state items [])
    {i : Nat}
    (nonempty : state.freeList (i + 1) ≠ 0)
    (empty : state.freeList i = 0) :
    ∃ items',
      Partition layout
        (((state.split (state.freeList (i + 1))).setHead i
          (state.freeList (i + 1))).setHead (i + 1)
            (nextAt state (state.freeList (i + 1)))) items' [] := by
  obtain ⟨rest, shape⟩ := partition.head_listed nonempty
  have size :=
    (partition.listed (i + 1) (state.freeList (i + 1))
      (by rw [shape]; exact List.mem_cons_self)).2
  obtain ⟨items', taken, others⟩ := partition.take_head nonempty
  obtain ⟨halves, firstSize, secondSize, linked, ends⟩ :=
    taken.split_held size
  have stillEmpty : items' i = [] := by
    rw [others i (by omega)]
    exact partition.empty_of_null empty
  have installed :=
    halves.install_halves stillEmpty firstSize secondSize linked ends
  -- The loop writes the two heads in the other order.
  rw [setHead_comm _ _ _ (by omega)]
  exact ⟨_, installed⟩

end Partition

/-- The split loop ends with a block that is large enough. -/
theorem splitLoop_spec
    {length : Int}
    {i : Nat}
    (partition : Partition layout state items [])
    (nonempty : state.freeList i ≠ 0)
    (enough : need length ≤ layout.levelSize i)
    (below :
      ∀ k,
        k < i →
        state.freeList k = 0 ∨ (layout.levelSize k : Int) < need length) :
    ∃ j state' items',
      splitLoop layout length i state = some (j, state') ∧
        Partition layout state' items' [] ∧
        state'.freeList j ≠ 0 ∧
        need length ≤ layout.levelSize j ∧
        state'.live = state.live := by
  induction i generalizing state items with
  | zero =>
      obtain ⟨rest, shape⟩ := partition.head_listed nonempty
      have size :=
        (partition.listed 0 (state.freeList 0)
          (by rw [shape]; exact List.mem_cons_self)).2
      have stops := splits_zero length size
      refine ⟨0, state, items, ?_, partition, nonempty, enough, rfl⟩
      unfold splitLoop
      rw [stops]
      rfl
  | succ i inductionHypothesis =>
      obtain ⟨rest, shape⟩ := partition.head_listed nonempty
      have size :=
        (partition.listed (i + 1) (state.freeList (i + 1))
          (by rw [shape]; exact List.mem_cons_self)).2
      by_cases continues : splits layout state length (i + 1) = true
      · have smaller := (splits_succ length size).mp continues
        have empty : state.freeList i = 0 := by
          rcases below i (by omega) with empty | large
          · exact empty
          · omega
        obtain ⟨items', installed⟩ := partition.split_head nonempty empty
        obtain ⟨j, state', items'', looped, partition', found, large, live⟩ :=
          inductionHypothesis installed
            (by
              change
                Function.update (Function.update state.freeList i _) (i + 1)
                  _ i ≠ 0
              rw [Function.update_of_ne (by omega), Function.update_self]
              exact nonempty)
            (by omega)
            (by
              intro k less
              have same :
                  Function.update
                      (Function.update state.freeList i
                        (state.freeList (i + 1))) (i + 1)
                      (nextAt state (state.freeList (i + 1))) k =
                    state.freeList k := by
                rw [Function.update_of_ne (by omega),
                  Function.update_of_ne (by omega)]
              change Function.update (Function.update state.freeList i _)
                (i + 1) _ k = 0 ∨ _
              rw [same]
              exact below k (by omega))
        refine ⟨j, state', items'', ?_, partition', found, large, live⟩
        unfold splitLoop
        rw [continues]
        exact looped
      · refine ⟨i + 1, state, items, ?_, partition, nonempty, enough, rfl⟩
        unfold splitLoop
        rw [if_neg continues]

/-- `alloc` makes one block live that holds the header and the request. -/
theorem Partition.alloc
    {length : Int}
    {a : Nat}
    (partition : Partition layout state items [])
    (allocated : Buddy.alloc layout length state = some (a, state')) :
    ∃ b items',
      a = b + sizeofBlockHeader ∧
        Partition layout state' items' [] ∧
        state'.live = b :: state.live ∧
        need length ≤ sizeAt state' b := by
  unfold Buddy.alloc at allocated
  simp only [bind, Option.bind_eq_some_iff] at allocated
  obtain ⟨i, found, ⟨j, middle⟩, looped, removed, taken, returned⟩ := allocated
  obtain ⟨-, -, nonempty, enough, before⟩ := findLevel_spec found
  obtain ⟨j', middle', items', looped', partition', nonempty', enough', live⟩ :=
    splitLoop_spec partition nonempty enough
      (fun k less => before k (Nat.zero_le _) less)
  rw [looped'] at looped
  obtain ⟨rfl, rfl⟩ := Prod.mk.inj (Option.some.inj looped)
  obtain ⟨rest, shape⟩ := partition'.head_listed nonempty'
  have size :=
    (partition'.listed j' (middle'.freeList j')
      (by rw [shape]; exact List.mem_cons_self)).2
  obtain ⟨items'', held, -⟩ := partition'.take_head nonempty'
  unfold remove at taken
  rw [if_pos rfl] at taken
  obtain rfl := Option.some.inj taken
  obtain ⟨rfl, rfl⟩ := Prod.mk.inj (Option.some.inj returned)
  refine ⟨middle'.freeList j', items'', rfl, held.give_live,
    congrArg _ live, ?_⟩
  have sameSize :=
    (Partition.setFree_fields middle' (middle'.freeList j') false).1
      (middle'.freeList j')
  rw [size] at sameSize
  rw [← sameSize] at enough'
  exact enough'

/-- The buddy of the block of level `i` that contains `b`. -/
def buddyAt (layout : BuddyLayout) (b i : Nat) : Nat :=
  layout.start +
    otherHalf (layout.levelSize i)
      ((b - layout.start) / layout.levelSize i * layout.levelSize i)

/-- For a block of the level itself this is its own buddy. -/
theorem buddyAt_level
    {b i : Nat}
    (aligned : layout.levelSize i ∣ b - layout.start) :
    buddyAt layout b i =
      layout.start + otherHalf (layout.levelSize i) (b - layout.start) := by
  unfold buddyAt
  rw [Nat.div_mul_cancel aligned]

/-- Blocks of one parent have the same buddies above it. -/
theorem buddyAt_congr
    {b c i k : Nat}
    (sameParent :
      (c - layout.start) / layout.levelSize i =
        (b - layout.start) / layout.levelSize i)
    (above : i ≤ k) :
    (c - layout.start) / layout.levelSize k =
        (b - layout.start) / layout.levelSize k ∧
      buddyAt layout c k = buddyAt layout b k := by
  have shape :
      layout.levelSize k = layout.levelSize i * 2 ^ (k - i) := by
    rw [levelSize_eq_pow, levelSize_eq_pow, ← Nat.pow_add]
    congr 1
    omega
  have same :
      (c - layout.start) / layout.levelSize k =
        (b - layout.start) / layout.levelSize k := by
    rw [shape, ← Nat.div_div_eq_div_mul, sameParent, Nat.div_div_eq_div_mul]
  refine ⟨same, ?_⟩
  unfold buddyAt
  rw [same]

/-- A buddy lies outside the block it belongs to. -/
theorem buddyAt_ne
    {b c k : Nat}
    (same :
      (c - layout.start) / layout.levelSize k =
        (b - layout.start) / layout.levelSize k) :
    buddyAt layout b k ≠ c := by
  rintro rfl
  have positive := levelSize_pos layout k
  obtain ⟨divides, distinct, -⟩ :=
    otherHalf_pair positive
      (Nat.dvd_mul_left (layout.levelSize k)
        ((b - layout.start) / layout.levelSize k))
  unfold buddyAt at same
  rw [Nat.add_sub_cancel_left] at same
  refine distinct ?_
  calc
    otherHalf (layout.levelSize k)
        ((b - layout.start) / layout.levelSize k * layout.levelSize k) =
      otherHalf (layout.levelSize k)
          ((b - layout.start) / layout.levelSize k * layout.levelSize k) /
        layout.levelSize k * layout.levelSize k :=
        (Nat.div_mul_cancel divides).symm
    _ = (b - layout.start) / layout.levelSize k * layout.levelSize k := by
        rw [same]

/--
The branch of `free` that goes wrong is not taken: the block is not a maximal
one with a maximal free buddy, and above the first merge every buddy that is
marked free is a whole block of its level.
-/
def CleanFree (layout : BuddyLayout) (state : Buddy) (b : Nat) : Prop :=
  (state.header (buddyAt layout b (state.levelOf layout b))).free = true →
  sizeAt state (buddyAt layout b (state.levelOf layout b)) =
    sizeAt state b →
  state.levelOf layout b < layout.levels - 1 ∧
    ∀ j,
      state.levelOf layout b < j →
      j < layout.levels - 1 →
      (∀ k,
        state.levelOf layout b < k →
        k ≤ j →
        (state.header (buddyAt layout b k)).free = true) →
      sizeAt state (buddyAt layout b j) = layout.levelSize j

namespace Partition

/-- The order of the held blocks does not matter. -/
theorem hand_perm
    (partition : Partition layout state items hand)
    {hand' : List Nat}
    (sameItems : hand.Perm hand') :
    Partition layout state items hand' := by
  obtain ⟨splits, tiles, aligned⟩ :=
    partition.exchange state items hand' (show Place.live ≠ .hand by simp)
      (sameItems.append_left _)
      (by
        intro place notLive notHand
        cases place with
        | level j => rfl
        | live => rfl
        | hand => exact absurd rfl notHand)
      (fun _ _ => rfl)
  exact ⟨partition.lists, partition.bounded, partition.listed,
    fun b occurs => partition.held b (sameItems.mem_iff.mpr occurs),
    partition.allocated, splits, tiles, aligned⟩

/-- Below the top level the buddy of a block lies in the arena. -/
theorem buddy_inside
    (partition : Partition layout state items hand)
    {b i : Nat}
    (isTile : Tile state items hand b)
    (size : sizeAt state b = layout.levelSize i)
    (above : i + 1 < layout.levels) :
    layout.start + otherHalf (layout.levelSize i) (b - layout.start) <
      layout.finish := by
  have positive := levelSize_pos layout i
  have lower := partition.tiles.lower b isTile
  have upper := partition.tiles.upper b isTile
  have aligned := partition.aligned b isTile
  rw [size] at aligned upper
  obtain ⟨-, -, -, neighbours, parent⟩ := otherHalf_pair positive aligned
  generalize otherHalf (layout.levelSize i) (b - layout.start) = offset at *
  have whole : 2 * layout.levelSize i ∣ layout.totalMemorySize := by
    unfold BuddyLayout.totalMemorySize BuddyLayout.maxBlockSize
    refine Nat.dvd_trans ?_ (Nat.dvd_mul_left _ _)
    rw [← levelSize_succ, levelSize_eq_pow, levelSize_eq_pow]
    exact Nat.pow_dvd_pow 2 (by omega)
  obtain ⟨k, parentShape⟩ := parent
  obtain ⟨m, wholeShape⟩ := whole
  unfold BuddyLayout.finish at upper ⊢
  have fewer : k < m := by
    by_contra more
    have step := Nat.mul_le_mul_left (2 * layout.levelSize i)
      (Nat.le_of_not_lt more)
    omega
  have step := Nat.mul_le_mul_left (2 * layout.levelSize i) fewer
  rw [Nat.mul_succ] at step
  omega

/-- The merge loop takes the block it starts a round with. -/
theorem pick_up
    {b i : Nat}
    (ready :
      Partition layout state items [b] ∨
        (Partition layout state items [] ∧ b ∈ items i)) :
    ∃ state' items',
      state.remove layout i b = some state' ∧
        state'.live = state.live ∧
        SameBlocks state.header state'.header ∧
        Partition layout state' items' [b] := by
  rcases ready with partition | ⟨partition, member⟩
  · have isHeld : b ∈ [b] := List.mem_singleton.mpr rfl
    obtain ⟨state', removed, sameLive, same, partition'⟩ :=
      partition.remove_absent (partition.ne_zero ⟨.hand, isHeld⟩)
        (partition.not_listed_of_held isHeld i)
    exact ⟨state', items, removed, sameLive, same, partition'⟩
  · obtain ⟨state', removed, sameLive, same, partition'⟩ :=
      partition.remove_listed member
    exact ⟨state', _, removed, sameLive, same, partition'⟩

end Partition

/-- The body of the merge loop: the merged block and the state. -/
def mergeRound
    (layout : BuddyLayout)
    (i b : Nat)
    (state : Buddy) : Option (Nat × Buddy) := do
  let state ← state.remove layout i b
  let state ← state.remove layout i (state.getbuddy layout b)
  let (b, state) := state.merge b (state.getbuddy layout b)
  return (b, state.insert (i + 1) b)

/-- The merge loop repeats its body. -/
theorem mergeLoop_succ
    (layout : BuddyLayout)
    (more i b : Nat)
    (state : Buddy) :
    mergeLoop layout (more + 1) i b state =
      if (state.header (state.getbuddy layout b)).free then do
        let (b, state) ← mergeRound layout i b state
        mergeLoop layout more (i + 1) b state
      else
        some state := by
  unfold mergeRound
  simp only [bind_assoc, pure_bind]
  rfl

/-- The states one round of the merge loop goes through. -/
structure MergeSteps
    (layout : BuddyLayout)
    (i b : Nat)
    (state first second : Buddy)
    (u : Nat)
    (items1 items2 : Nat → List Nat) : Prop where
  above : i + 1 < layout.levels
  removed : state.remove layout i b = some first
  live1 : first.live = state.live
  same1 : SameBlocks state.header first.header
  held : Partition layout first items1 [b]
  isBuddy : first.getbuddy layout b = u
  removed' : first.remove layout i u = some second
  live2 : second.live = first.live
  same2 : SameBlocks first.header second.header
  pair : Partition layout second items2 [b, u]
  isBuddy2 : second.getbuddy layout b = u
  size2 : sizeAt second b = layout.levelSize i
  otherSize2 : sizeAt second u = layout.levelSize i
  uShape :
    u = layout.start + otherHalf (layout.levelSize i) (b - layout.start)

/-- One round takes a block and its free buddy of the same size. -/
theorem mergeSteps_of_ready
    {b i : Nat}
    (ready :
      Partition layout state items [b] ∨
        (Partition layout state items [] ∧ b ∈ items i))
    (size : sizeAt state b = layout.levelSize i)
    (above : i + 1 < layout.levels)
    (buddyFree : (state.header (buddyAt layout b i)).free = true)
    (buddySize : sizeAt state (buddyAt layout b i) = layout.levelSize i) :
    ∃ first second u items1 items2,
      MergeSteps layout i b state first second u items1 items2 := by
  obtain ⟨first, items1, removed, live1, same1, held⟩ :=
    Partition.pick_up ready
  have isHeld : b ∈ [b] := List.mem_singleton.mpr rfl
  have isTile : Tile first items1 [b] b := ⟨.hand, isHeld⟩
  have size1 : sizeAt first b = layout.levelSize i :=
    (same1 b).2.trans size
  have aligned := held.aligned b isTile
  have positive := levelSize_pos layout i
  have inside := held.buddy_inside isTile size1 above
  have isBuddy := held.getbuddy_eq isTile
  have otherTile := held.tiles.otherHalf_tile held.dyadic isTile
  rw [size1] at aligned isBuddy otherTile
  rw [buddyAt_level aligned] at buddyFree buddySize
  obtain ⟨otherTile, -⟩ := otherTile inside
  obtain ⟨-, distinct, -, -, -⟩ := otherHalf_pair positive aligned
  have lower := held.tiles.lower b isTile
  generalize uShape :
    layout.start + otherHalf (layout.levelSize i) (b - layout.start) = u at *
  have notSelf : u ≠ b := by
    omega
  have listed : u ∈ items1 i := by
    refine held.listed_of_free otherTile ?_ ?_ ?_
    · simpa using notSelf
    · exact (same1 u).1.trans buddyFree
    · exact (same1 u).2.trans buddySize
  obtain ⟨second, removed', live2, same2, held'⟩ := held.remove_listed listed
  have isBuddy2 : second.getbuddy layout b = u := by
    have unchanged : (second.header b).blockSize = (first.header b).blockSize :=
      (same2 b).2
    unfold getbuddy at isBuddy ⊢
    rw [unchanged]
    exact isBuddy
  exact ⟨first, second, u, items1, _, above, removed, live1, same1, held,
    isBuddy, removed', live2, same2,
    held'.hand_perm (List.Perm.swap b u []), isBuddy2,
    (same2 b).2.trans size1,
    (same2 u).2.trans ((same1 u).2.trans buddySize), uShape.symm⟩

namespace MergeSteps

variable {i b u : Nat} {first second : Buddy}
variable {items1 items2 : Nat → List Nat}

/-- The two halves merge into the lower one. -/
theorem merged
    (steps : MergeSteps layout i b state first second u items1 items2) :
    Partition layout (second.merge b u).2 items2 [min b u] ∧
      sizeAt (second.merge b u).2 (min b u) = layout.levelSize (i + 1) ∧
      (second.merge b u).1 = min b u ∧
      (second.merge b u).2.live = second.live ∧
      ∀ other,
        other ≠ min b u →
        (second.merge b u).2.header other = second.header other := by
  obtain ⟨partition, size, isLow, live, there⟩ :=
    steps.pair.merge_held steps.above steps.size2 steps.otherSize2
      steps.uShape
  rw [isLow] at partition size
  exact ⟨partition, size, isLow, live, there⟩

/-- The merged block is put in the list of the next level. -/
theorem done
    (steps : MergeSteps layout i b state first second u items1 items2) :
    ∃ items',
      Partition layout ((second.merge b u).2.insert (i + 1) (min b u)) items'
          [] ∧
        min b u ∈ items' (i + 1) := by
  obtain ⟨partition, size, -⟩ := steps.merged
  refine ⟨_, partition.insert_held size, ?_⟩
  rw [setItems, Function.update_self]
  exact List.mem_cons_self

/-- The round computes these states. -/
theorem mergeRound_eq
    (steps : MergeSteps layout i b state first second u items1 items2) :
    mergeRound layout i b state =
      some (min b u,
        (second.merge b u).2.insert (i + 1) (min b u)) := by
  obtain ⟨-, -, isLow, -⟩ := steps.merged
  unfold mergeRound
  rw [steps.removed]
  change (first.remove layout i (first.getbuddy layout b)).bind _ = _
  rw [steps.isBuddy, steps.removed']
  change
    some ((second.merge b (second.getbuddy layout b)).1,
      (second.merge b (second.getbuddy layout b)).2.insert (i + 1)
        (second.merge b (second.getbuddy layout b)).1) = _
  rw [steps.isBuddy2, isLow]

/-- The merged block has the same ancestors as the block. -/
theorem parent
    (steps : MergeSteps layout i b state first second u items1 items2) :
    (min b u - layout.start) / layout.levelSize (i + 1) =
      (b - layout.start) / layout.levelSize (i + 1) := by
  have isTile : Tile first items1 [b] b :=
    ⟨.hand, List.mem_singleton.mpr rfl⟩
  have aligned := steps.held.aligned b isTile
  have size1 : sizeAt first b = layout.levelSize i :=
    (steps.same2 b).2.symm.trans steps.size2
  rw [size1] at aligned
  obtain ⟨-, -, samePair, -, -⟩ :=
    otherHalf_pair (levelSize_pos layout i) aligned
  rw [levelSize_succ]
  rcases Nat.le_total b u with less | less
  · rw [Nat.min_eq_left less]
  · rw [Nat.min_eq_right less, steps.uShape, Nat.add_sub_cancel_left]
    exact samePair

/-- The round leaves the users' blocks alone. -/
theorem sameLive
    (steps : MergeSteps layout i b state first second u items1 items2) :
    ((second.merge b u).2.insert (i + 1) (min b u)).live = state.live :=
  steps.merged.2.2.2.1.trans (steps.live2.trans steps.live1)

/-- The round changes flag and size of the merged block only. -/
theorem frame
    (steps : MergeSteps layout i b state first second u items1 items2)
    {other : Nat}
    (differs : other ≠ min b u) :
    (((second.merge b u).2.insert (i + 1) (min b u)).header other).free =
        (state.header other).free ∧
      sizeAt ((second.merge b u).2.insert (i + 1) (min b u)) other =
        sizeAt state other := by
  have inserting :=
    sameBlocks_next (second.merge b u).2.header (min b u)
      ((second.merge b u).2.freeList (i + 1)) other
  have merging := steps.merged.2.2.2.2 other differs
  refine ⟨inserting.1.trans ?_, inserting.2.trans ?_⟩
  · rw [merging]
    exact (steps.same2 other).1.trans (steps.same1 other).1
  · rw [merging]
    exact (steps.same2 other).2.trans (steps.same1 other).2

end MergeSteps

/-- A run of the merge loop in which every round merges whole buddies. -/
inductive MergeChain (layout : BuddyLayout) :
    Nat → Nat → Nat → Buddy → Buddy → Prop where
  | stop
      {more i b : Nat}
      {state : Buddy}
      (stopped :
        more = 0 ∨
          (state.header (state.getbuddy layout b)).free = false) :
      MergeChain layout more i b state state
  | round
      {more i b u : Nat}
      {state first second final : Buddy}
      {items1 items2 : Nat → List Nat}
      (buddyFree : (state.header (state.getbuddy layout b)).free = true)
      (steps : MergeSteps layout i b state first second u items1 items2)
      (rest :
        MergeChain layout more (i + 1) (min b u)
          ((second.merge b u).2.insert (i + 1) (min b u)) final) :
      MergeChain layout (more + 1) i b state final

/-- On clean buddies the merge loop merges whole buddies. -/
theorem mergeLoop_chain
    {more i b : Nat}
    (ready :
      Partition layout state items [b] ∨
        (Partition layout state items [] ∧ b ∈ items i))
    (size : sizeAt state b = layout.levelSize i)
    (top : i + more = layout.levels - 1)
    (clean :
      ∀ j,
        i ≤ j →
        j < layout.levels - 1 →
        (∀ k,
          i ≤ k →
          k ≤ j →
          (state.header (buddyAt layout b k)).free = true) →
        sizeAt state (buddyAt layout b j) = layout.levelSize j) :
    ∃ state',
      mergeLoop layout more i b state = some state' ∧
        MergeChain layout more i b state state' := by
  induction more generalizing i b state items with
  | zero => exact ⟨state, rfl, .stop (Or.inl rfl)⟩
  | succ more inductionHypothesis =>
      have isBuddy :
          state.getbuddy layout b = buddyAt layout b i := by
        rcases ready with partition | ⟨partition, member⟩
        · have isTile : Tile state items [b] b :=
            ⟨.hand, List.mem_singleton.mpr rfl⟩
          have aligned := partition.aligned b isTile
          rw [partition.getbuddy_eq isTile, size]
          rw [size] at aligned
          exact (buddyAt_level aligned).symm
        · have isTile : Tile state items [] b := ⟨.level i, member⟩
          have aligned := partition.aligned b isTile
          rw [partition.getbuddy_eq isTile, size]
          rw [size] at aligned
          exact (buddyAt_level aligned).symm
      rw [mergeLoop_succ, isBuddy]
      by_cases buddyFree :
          (state.header (buddyAt layout b i)).free = true
      · rw [if_pos buddyFree]
        have buddySize :=
          clean i (Nat.le_refl _) (by omega) (by
            intro k above below
            rw [Nat.le_antisymm below above]
            exact buddyFree)
        obtain ⟨first, second, u, items1, items2, steps⟩ :=
          mergeSteps_of_ready ready size (by omega) buddyFree buddySize
        obtain ⟨items', partition', member'⟩ := steps.done
        rw [steps.mergeRound_eq]
        -- The buddies above are untouched, so the loop stays clean.
        have buddies :
            ∀ k,
              i + 1 ≤ k →
              buddyAt layout (min b u) k = buddyAt layout b k ∧
                buddyAt layout b k ≠ min b u := by
          intro k above
          obtain ⟨sameIndex, same⟩ := buddyAt_congr steps.parent above
          exact ⟨same, buddyAt_ne sameIndex⟩
        obtain ⟨state', looped, chain⟩ :=
          inductionHypothesis (Or.inr ⟨partition', member'⟩)
            (partition'.listed _ _ member').2 (by omega) (by
            intro j above below allFree
            obtain ⟨same, outside⟩ := buddies j above
            rw [same, (steps.frame outside).2]
            refine clean j (by omega) below ?_
            intro k lower upper
            rcases Nat.eq_or_lt_of_le lower with rfl | lower
            · exact buddyFree
            · obtain ⟨sameBuddy, apart⟩ := buddies k lower
              have isFree := allFree k lower upper
              rw [sameBuddy, (steps.frame apart).1] at isFree
              exact isFree)
        exact ⟨state', looped,
          .round (by rw [isBuddy]; exact buddyFree) steps chain⟩
      · rw [if_neg buddyFree]
        refine ⟨state, rfl, .stop (Or.inr ?_)⟩
        rw [isBuddy]
        exact Bool.eq_false_of_not_eq_true buddyFree

/-- Merging whole buddies keeps the arena partitioned. -/
theorem MergeChain.partition
    {more i b : Nat}
    (chain : MergeChain layout more i b state state')
    (partition : Partition layout state items []) :
    ∃ items',
      Partition layout state' items' [] ∧ state'.live = state.live := by
  induction chain generalizing items with
  | stop => exact ⟨items, partition, rfl⟩
  | round _ steps _ inductionHypothesis =>
      obtain ⟨items1, partition', -⟩ := steps.done
      obtain ⟨items', final, live⟩ := inductionHypothesis partition'
      exact ⟨items', final, live.trans steps.sameLive⟩

/-- A chain with at least one round lists the block it starts with. -/
theorem MergeChain.partition_of_free
    {more i b : Nat}
    (chain : MergeChain layout (more + 1) i b state state')
    (buddyFree : (state.header (state.getbuddy layout b)).free = true) :
    ∃ items',
      Partition layout state' items' [] ∧ state'.live = state.live := by
  cases chain with
  | stop stopped =>
      rcases stopped with none | notFree
      · cases none
      · rw [buddyFree] at notFree
        cases notFree
  | round _ steps rest =>
      obtain ⟨items1, partition', -⟩ := steps.done
      obtain ⟨items', final, live⟩ := rest.partition partition'
      exact ⟨items', final, live.trans steps.sameLive⟩

/-- How a clean `free` of a live block goes on after marking the block. -/
inductive FreeSteps (layout : BuddyLayout) (i b : Nat) :
    Buddy → Buddy → Prop where
  | merge
      {marked final : Buddy}
      {more : Nat}
      (levels : layout.levels - 1 - i = more + 1)
      (buddyFree : (marked.header (marked.getbuddy layout b)).free = true)
      (sameSize :
        (marked.header b).blockSize =
          (marked.header (marked.getbuddy layout b)).blockSize)
      (chain : MergeChain layout (more + 1) i b marked final) :
      FreeSteps layout i b marked final
  | insert
      {marked : Buddy}
      (unmerged :
        ¬ ((marked.header (marked.getbuddy layout b)).free = true ∧
          (marked.header b).blockSize =
            (marked.header (marked.getbuddy layout b)).blockSize)) :
      FreeSteps layout i b marked (marked.insert i b)

/-- A clean `free` of a live block merges whole buddies or lists the block. -/
theorem Partition.free_steps
    (partition : Partition layout state items [])
    {b : Nat}
    (isLive : b ∈ state.live)
    (clean : CleanFree layout state b) :
    ∃ i state',
      i < layout.levels ∧
        sizeAt (state.markFree b) b = layout.levelSize i ∧
        Buddy.free layout (b + sizeofBlockHeader) state = some state' ∧
        FreeSteps layout i b (state.markFree b) state' := by
  have taken := partition.take_live isLive
  obtain ⟨sameSize, -, there, -⟩ := Partition.setFree_fields state b true
  obtain ⟨-, i, atLevel, size⟩ := partition.allocated b isLive
  unfold CleanFree at clean
  rw [levelOf_eq size, size] at clean
  generalize shape : state.markFree b = marked at taken ⊢
  have isTile : Tile marked items [b] b :=
    ⟨.hand, List.mem_singleton.mpr rfl⟩
  have markedSize : ∀ other, sizeAt marked other = sizeAt state other := by
    rw [← shape]
    exact sameSize
  have markedFree :
      ∀ other,
        other ≠ b →
        (marked.header other).free = (state.header other).free := by
    intro other differs
    rw [← shape]
    exact congrArg BlockHeader.free (there other differs)
  have size' : sizeAt marked b = layout.levelSize i :=
    (markedSize b).trans size
  have aligned := taken.aligned b isTile
  have isBuddy := taken.getbuddy_eq isTile
  rw [size'] at aligned isBuddy
  rw [← buddyAt_level aligned] at isBuddy
  have notSelf : ∀ k, buddyAt layout b k ≠ b := fun k => buddyAt_ne rfl
  have freeShape :
      Buddy.free layout (b + sizeofBlockHeader) state =
        if (marked.header (marked.getbuddy layout b)).free ∧
            (marked.header b).blockSize =
              (marked.header (marked.getbuddy layout b)).blockSize then
          mergeLoop layout (layout.levels - 1 - i) i b marked
        else
          some (marked.insert i b) := by
    unfold Buddy.free
    simp only [Nat.add_sub_cancel, shape]
    rw [levelOf_eq size']
  rw [freeShape]
  by_cases mergeable :
      (marked.header (marked.getbuddy layout b)).free = true ∧
        (marked.header b).blockSize =
          (marked.header (marked.getbuddy layout b)).blockSize
  · obtain ⟨buddyFree, buddySize⟩ := mergeable
    have stateFree : (state.header (buddyAt layout b i)).free = true := by
      rw [← markedFree _ (notSelf i), ← isBuddy]
      exact buddyFree
    have stateSize :
        sizeAt state (buddyAt layout b i) = layout.levelSize i := by
      rw [← markedSize, ← size', ← isBuddy]
      exact buddySize.symm
    obtain ⟨below, above⟩ := clean stateFree stateSize
    obtain ⟨more, moreShape⟩ :
        ∃ more, layout.levels - 1 - i = more + 1 :=
      ⟨layout.levels - 1 - i - 1, by omega⟩
    rw [if_pos ⟨buddyFree, buddySize⟩, moreShape]
    obtain ⟨state', looped, chain⟩ :=
      mergeLoop_chain (Or.inl taken) size'
        (show i + (more + 1) = layout.levels - 1 by omega) (by
        intro j lower upper allFree
        rw [markedSize]
        rcases Nat.eq_or_lt_of_le lower with rfl | lower
        · exact stateSize
        · refine above j lower upper ?_
          intro k lower' upper'
          rw [← markedFree _ (notSelf k)]
          exact allFree k (by omega) upper')
    exact ⟨i, state', atLevel, size', looped,
      .merge moreShape buddyFree buddySize chain⟩
  · rw [if_neg mergeable]
    exact ⟨i, _, atLevel, size', rfl, .insert mergeable⟩

/-- `free` of a live block keeps the arena partitioned. -/
theorem Partition.free
    (partition : Partition layout state items [])
    {b : Nat}
    (isLive : b ∈ state.live)
    (clean : CleanFree layout state b) :
    ∃ state' items',
      Buddy.free layout (b + sizeofBlockHeader) state = some state' ∧
        Partition layout state' items' [] ∧
        state'.live = state.live.erase b := by
  have taken := partition.take_live isLive
  obtain ⟨i, state', -, size, freed, steps⟩ :=
    partition.free_steps isLive clean
  cases steps with
  | merge levels buddyFree sameSize chain =>
      obtain ⟨items', final, live⟩ := chain.partition_of_free buddyFree
      exact ⟨state', items', freed, final, live⟩
  | insert unmerged =>
      exact ⟨_, _, freed, taken.insert_held size, rfl⟩

/-- The maximal blocks before block `n`, newest first. -/
def maximalBlocks (layout : BuddyLayout) : Nat → List Nat
  | 0 => []
  | n + 1 => (layout.start + n * layout.maxBlockSize) :: maximalBlocks layout n

theorem mem_maximalBlocks
    {n b : Nat} :
    b ∈ maximalBlocks layout n ↔
      ∃ k, k < n ∧ b = layout.start + k * layout.maxBlockSize := by
  induction n with
  | zero => simp [maximalBlocks]
  | succ n inductionHypothesis =>
      unfold maximalBlocks
      rw [List.mem_cons, inductionHypothesis]
      constructor
      · rintro (isLast | ⟨k, less, shape⟩)
        · exact ⟨n, by omega, isLast⟩
        · exact ⟨k, by omega, shape⟩
      · rintro ⟨k, less, shape⟩
        rcases Nat.eq_or_lt_of_le (Nat.le_of_lt_succ less) with rfl | less
        · exact Or.inl shape
        · exact Or.inr ⟨k, less, shape⟩

theorem maximalBlocks_nodup
    (layout : BuddyLayout)
    (n : Nat) :
    (maximalBlocks layout n).Nodup := by
  have positive := levelSize_pos layout (layout.levels - 1)
  induction n with
  | zero => exact List.nodup_nil
  | succ n inductionHypothesis =>
      refine List.nodup_cons.mpr ⟨?_, inductionHypothesis⟩
      intro member
      obtain ⟨k, less, shape⟩ := mem_maximalBlocks.mp member
      have same := Nat.eq_of_mul_eq_mul_right positive
        (Nat.add_left_cancel shape)
      omega

/-- What the constructor's loop builds. -/
theorem createLoop_spec
    (header : Nat → BlockHeader)
    (n : Nat) :
    ∃ state,
      createLoop layout n
          { header := header, freeList := fun _ => 0, live := [] } =
        state ∧
        state.live = [] ∧
        (∀ i, i ≠ layout.levels - 1 → state.freeList i = 0) ∧
        NullList (nextAt state) 0 (state.freeList (layout.levels - 1))
          (maximalBlocks layout n) ∧
        ∀ b,
          b ∈ maximalBlocks layout n →
          (state.header b).free = true ∧
            sizeAt state b = layout.maxBlockSize := by
  induction n with
  | zero =>
      exact ⟨_, rfl, rfl, fun _ _ => rfl, rfl, fun _ member => by cases member⟩
  | succ n inductionHypothesis =>
      obtain ⟨before, shape, live, others, list, blocks⟩ :=
        inductionHypothesis
      have noDuplicates := maximalBlocks_nodup layout (n + 1)
      have positive := layout.positive
      unfold maximalBlocks at noDuplicates ⊢
      obtain ⟨fresh, -⟩ := List.nodup_cons.mp noDuplicates
      unfold createLoop
      simp only [shape]
      generalize bShape : layout.start + n * layout.maxBlockSize = b at *
      generalize stateShape :
        (before.setHeader b
          { free := true
            blockSize := layout.maxBlockSize
            next := 0 }).insert (layout.levels - 1) b = state
      have here :
          state.header b =
            { free := true
              blockSize := layout.maxBlockSize
              next := before.freeList (layout.levels - 1) } := by
        rw [← stateShape]
        unfold insert
        change (setHeader _ _ _).header b = _
        rw [setHeader_same, setHeader_same]
        rfl
      have there :
          ∀ other, other ≠ b → state.header other = before.header other := by
        intro other differs
        rw [← stateShape]
        unfold insert
        change (setHeader _ _ _).header other = _
        rw [setHeader_other _ _ differs, setHeader_other _ _ differs]
      have heads :
          state.freeList =
            Function.update before.freeList (layout.levels - 1) b := by
        rw [← stateShape]
        rfl
      have old : ∀ other, other ∈ maximalBlocks layout n → other ≠ b := by
        rintro other member rfl
        exact fresh member
      refine ⟨state, rfl, ?_, ?_, ?_, ?_⟩
      · rw [← stateShape]
        exact live
      · intro i differs
        rw [heads, Function.update_of_ne differs]
        exact others i differs
      · rw [heads, Function.update_self]
        refine (list.congr ?_).cons ?_ (by omega)
        · intro node member
          unfold nextAt
          rw [there node (old node member)]
        · unfold nextAt
          rw [here]
      · intro other member
        rcases List.mem_cons.mp member with rfl | member
        · unfold sizeAt
          rw [here]
          exact ⟨rfl, rfl⟩
        · unfold sizeAt
          rw [there other (old other member)]
          exact blocks other member

/-- The constructor's arena is partitioned into maximal blocks. -/
theorem create_partition
    (layout : BuddyLayout)
    (header : Nat → BlockHeader) :
    Partition layout (create layout header)
      (setItems (fun _ => []) (layout.levels - 1)
        (maximalBlocks layout layout.count)) [] := by
  obtain ⟨state, shape, live, others, list, blocks⟩ :=
    createLoop_spec header layout.count
  have isState : create layout header = state := shape
  rw [isState]
  generalize itemsShape :
    setItems (fun _ => []) (layout.levels - 1)
      (maximalBlocks layout layout.count) = items
  have someLevel := layout.someLevel
  have topItems :
      items (layout.levels - 1) = maximalBlocks layout layout.count := by
    rw [← itemsShape, setItems, Function.update_self]
  have otherItems : ∀ i, i ≠ layout.levels - 1 → items i = [] := by
    intro i differs
    rw [← itemsShape, setItems, Function.update_of_ne differs]
  have topOnly :
      ∀ place,
        place ≠ .level (layout.levels - 1) →
        content state items [] place = [] := by
    intro place differs
    cases place with
    | level i => exact otherItems i fun same => differs (by rw [same])
    | live => exact live
    | hand => rfl
  have tileShape :
      ∀ b,
        Tile state items [] b ↔
          ∃ k,
            k < layout.count ∧
              b = layout.start + k * layout.maxBlockSize := by
    intro b
    rw [← mem_maximalBlocks, ← topItems]
    constructor
    · rintro ⟨place, occurs⟩
      by_cases isTop : place = .level (layout.levels - 1)
      · rw [isTop] at occurs
        exact occurs
      · rw [topOnly place isTop] at occurs
        cases occurs
    · intro member
      exact ⟨.level _, member⟩
  have tileSize :
      ∀ b, Tile state items [] b → sizeAt state b = layout.maxBlockSize := by
    intro b isTile
    exact (blocks b (mem_maximalBlocks.mpr ((tileShape b).mp isTile))).2
  refine ⟨?_, ?_, ?_, ?_, ?_, ?_, ?_, ?_⟩
  · intro i
    rcases eq_or_ne i (layout.levels - 1) with rfl | differs
    · rw [topItems]
      exact list
    · rw [otherItems i differs]
      exact others i differs
  · intro i above
    exact otherItems i (by omega)
  · intro i b member
    rcases eq_or_ne i (layout.levels - 1) with rfl | differs
    · rw [topItems] at member
      exact blocks b member
    · rw [otherItems i differs] at member
      cases member
  · intro b member
    cases member
  · intro b member
    rw [live] at member
    cases member
  · refine @Splits.single _ _ _ (.level (layout.levels - 1)) ?_ topOnly
    change (items (layout.levels - 1)).Nodup
    rw [topItems]
    exact maximalBlocks_nodup layout layout.count
  · exact Tiles.uniform (levelSize_pos layout (layout.levels - 1)) tileShape
      tileSize
  · intro b isTile
    rw [tileSize b isTile]
    obtain ⟨k, -, rfl⟩ := (tileShape b).mp isTile
    rw [Nat.add_sub_cancel_left]
    exact Nat.dvd_mul_left _ _

/-- What happens to the arena in one atomic step. -/
inductive Call where
  | alloc (length : Int)
  | free (b : Nat)
  | store
  deriving Repr, DecidableEq

/-- One atomic step. -/
inductive Step (layout : BuddyLayout) : Buddy → Call → Buddy → Prop where
  | alloc
      {state state' : Buddy}
      {length : Int}
      {a : Nat}
      (returned : Buddy.alloc layout length state = some (a, state')) :
      Step layout state (.alloc length) state'
  | free
      {state state' : Buddy}
      {b : Nat}
      (isLive : b ∈ state.live)
      (returned :
        Buddy.free layout (b + sizeofBlockHeader) state = some state') :
      Step layout state (.free b) state'
  | store
      {state : Buddy}
      {header : Nat → BlockHeader}
      (inBlocks :
        ∀ address,
          (∀ b,
            b ∈ state.live →
            address ≤ b ∨ b + sizeAt state b ≤ address) →
          header address = state.header address) :
      Step layout state .store { state with header := header }

/-- The arenas the constructor can leave. -/
def Initial (layout : BuddyLayout) (state : Buddy) : Prop :=
  ∃ header, create layout header = state

/-- Steps in which `free` does not take the branch that goes wrong. -/
def CleanStep
    (layout : BuddyLayout)
    (before : Buddy)
    (call : Call)
    (after : Buddy) : Prop :=
  Step layout before call after ∧
    ∀ b, call = .free b → CleanFree layout before b

/-- Users write behind the headers of their own blocks only. -/
theorem Partition.store
    (partition : Partition layout state items [])
    {header : Nat → BlockHeader}
    (inBlocks :
      ∀ address,
        (∀ b,
          b ∈ state.live →
          address ≤ b ∨ b + sizeAt state b ≤ address) →
        header address = state.header address) :
    Partition layout { state with header := header } items [] := by
  have same :
      ∀ b, Tile state items [] b → header b = state.header b := by
    intro b isTile
    refine inBlocks b ?_
    intro c isLive
    have otherTile : Tile state items [] c := ⟨.live, isLive⟩
    rcases eq_or_ne b c with rfl | differs
    · exact Or.inl (Nat.le_refl _)
    · have apart := partition.tiles.apart b c isTile otherTile differs
      omega
  obtain ⟨splits, tiles, aligned⟩ :=
    partition.exchange { state with header := header } items []
      (show Place.live ≠ .hand by simp) (.refl _) (fun _ _ _ => rfl)
      (fun b isTile => congrArg BlockHeader.blockSize (same b isTile))
  refine ⟨?_, partition.bounded, ?_, ?_, ?_, splits, tiles, aligned⟩
  · intro i
    refine (partition.lists i).congr ?_
    intro node member
    exact congrArg BlockHeader.next (same node ⟨.level i, member⟩)
  · intro i b member
    have unchanged := same b ⟨.level i, member⟩
    exact partition.listed_congr
      ⟨congrArg BlockHeader.free unchanged,
        congrArg BlockHeader.blockSize unchanged⟩ member
  · intro b member
    cases member
  · intro b member
    have unchanged := same b ⟨.live, member⟩
    exact partition.allocated_congr
      ⟨congrArg BlockHeader.free unchanged,
        congrArg BlockHeader.blockSize unchanged⟩ member

/-- A clean step keeps the arena partitioned. -/
theorem CleanStep.partition
    {call : Call}
    (step : CleanStep layout state call state')
    (partition : Partition layout state items []) :
    ∃ items', Partition layout state' items' [] := by
  obtain ⟨step, clean⟩ := step
  cases step with
  | alloc returned =>
      obtain ⟨b, items', -, partition', -⟩ := partition.alloc returned
      exact ⟨items', partition'⟩
  | free isLive returned =>
      obtain ⟨after, items', freed, partition', -⟩ :=
        partition.free isLive (clean _ rfl)
      rw [freed] at returned
      obtain rfl := Option.some.inj returned
      exact ⟨items', partition'⟩
  | store inBlocks => exact ⟨items, partition.store inBlocks⟩

/--
In every run whose frees are clean, the blocks in the free lists and the live
blocks partition the arena in every state, and a clean free returns.
-/
theorem partitioned_of_clean
    (reached : Reaches (Initial layout) (CleanStep layout) state) :
    (∃ items, Partition layout state items []) ∧
      ∀ b,
        b ∈ state.live →
        CleanFree layout state b →
        ∃ state',
          Buddy.free layout (b + sizeofBlockHeader) state = some state' := by
  have partitioned : ∃ items, Partition layout state items [] := by
    refine @Reaches.invariant _ _ _ _
      (fun state => ∃ items, Partition layout state items []) ?_ ?_ _ reached
    · rintro first ⟨header, rfl⟩
      exact ⟨_, create_partition layout header⟩
    · rintro before call after ⟨items, partition⟩ step
      exact step.partition partition
  refine ⟨partitioned, ?_⟩
  intro b isLive clean
  obtain ⟨items, partition⟩ := partitioned
  obtain ⟨after, -, freed, -⟩ := partition.free isLive clean
  exact ⟨after, freed⟩

/-- The layout that `_BXP_init` builds: 128 KiB to 1 GiB. -/
def exampleLayout : BuddyLayout where
  start := 4096
  basicBits := 17
  levels := 14
  count := 1
  positive := by decide
  someLevel := by decide
  holdsHeader := by decide
  fitsInt := by decide

/-- An arena in zeroed memory. -/
def exampleArena : Buddy :=
  create exampleLayout fun _ => { free := false, blockSize := 0, next := 0 }

/-- Run calls of `alloc` and `free`. -/
def execute
    (layout : BuddyLayout)
    (state : Buddy) : Call → Option Buddy
  | .alloc length => (alloc layout length state).map Prod.snd
  | .free b =>
      if b ∈ state.live then
        free layout (b + sizeofBlockHeader) state
      else
        none
  | .store => none

/-- Executed calls are steps. -/
theorem execute_step
    {call : Call}
    (executed : execute layout state call = some state') :
    Step layout state call state' := by
  cases call with
  | alloc length =>
      obtain ⟨⟨a, after⟩, returned, rfl⟩ := Option.map_eq_some_iff.mp executed
      exact .alloc returned
  | free b =>
      unfold execute at executed
      simp only at executed
      split at executed
      · next isLive => exact .free isLive executed
      · cases executed
  | store => cases executed

/-- Two blocks are allocated and the first one is freed again. -/
theorem partitioned_of_clean_free :
    ∃ state,
      Reaches (Initial exampleLayout) (CleanStep exampleLayout) state ∧
        state.live = [135168] ∧
        ∃ items, Partition exampleLayout state items [] := by
  have allocated :
      (Reaches.runAll (execute exampleLayout)
          [.alloc 100000, .alloc 100000] exampleArena).map
        (fun state =>
          (state.levelOf exampleLayout 4096,
            (state.header (buddyAt exampleLayout 4096 0)).free,
            (execute exampleLayout state (.free 4096)).map Buddy.live)) =
        some (0, false, some [135168]) := by
    decide +kernel
  obtain ⟨middle, executed, facts⟩ := Option.map_eq_some_iff.mp allocated
  simp only [Prod.mk.injEq] at facts
  obtain ⟨level, notFree, freed⟩ := facts
  obtain ⟨final, last, live⟩ := Option.map_eq_some_iff.mp freed
  simp only [Reaches.runAll, Option.bind_eq_some_iff, Option.some.injEq,
    exists_eq_right] at executed
  obtain ⟨first, firstAlloc, secondAlloc⟩ := executed
  have allocClean :
      ∀ {before after : Buddy},
        execute exampleLayout before (.alloc 100000) = some after →
        CleanStep exampleLayout before (.alloc 100000) after :=
    fun executed => ⟨execute_step executed, fun _ isFree => by cases isFree⟩
  have freeClean : CleanStep exampleLayout middle (.free 4096) final := by
    refine ⟨execute_step last, ?_⟩
    intro b isFree
    obtain rfl := Call.free.inj isFree
    unfold CleanFree
    rw [level, notFree]
    intro impossible
    cases impossible
  have reached :
      Reaches (Initial exampleLayout) (CleanStep exampleLayout) final :=
    (((Reaches.start ⟨_, rfl⟩).next (allocClean firstAlloc)).next
      (allocClean secondAlloc)).next freeClean
  exact ⟨final, reached, live, (partitioned_of_clean reached).1⟩

/--
Four blocks are allocated and three freed; the last free merges a block with
the free half of its buddy and goes on to the whole arena, over the block that
is still live.
-/
theorem merge_swallows_live_block :
    ∃ state,
      Reaches (Initial exampleLayout) (Step exampleLayout) state ∧
        state.live = [397312] ∧
        state.freeList 13 = 4096 ∧
        sizeAt state 4096 = 2 ^ 30 ∧
        ¬ ∃ items, Partition exampleLayout state items [] := by
  have executed :
      (Reaches.runAll (execute exampleLayout)
          [.alloc 100000, .alloc 100000, .alloc 100000, .alloc 100000,
            .free 266240, .free 135168, .free 4096] exampleArena).map
        (fun state =>
          (state.live, state.freeList 13, sizeAt state 4096)) =
        some ([397312], 4096, 2 ^ 30) := by
    decide +kernel
  obtain ⟨state, final, facts⟩ := Option.map_eq_some_iff.mp executed
  simp only [Prod.mk.injEq] at facts
  obtain ⟨live, head, size⟩ := facts
  have fresh : Initial exampleLayout exampleArena := ⟨_, rfl⟩
  have sound :
      ∀ before call after,
        execute exampleLayout before call = some after →
        Step exampleLayout before call after :=
    fun _ _ _ executed => execute_step executed
  have reached : Reaches (Initial exampleLayout) (Step exampleLayout) state :=
    Reaches.of_runAll sound (.start fresh) final
  refine ⟨state, reached, live, head, size, ?_⟩
  rintro ⟨items, partition⟩
  obtain ⟨rest, shape⟩ :=
    partition.head_listed (i := 13) (by rw [head]; decide)
  have freeTile : Tile state items [] 4096 := by
    refine ⟨.level 13, ?_⟩
    simp only [content, shape, head, List.mem_cons, true_or]
  have liveTile : Tile state items [] 397312 := by
    refine ⟨.live, ?_⟩
    simp only [content, live, List.mem_cons, true_or]
  have apart :=
    partition.tiles.apart 4096 397312 freeTile liveTile (by decide)
  rw [size] at apart
  omega

end Buddy

end Bxalloc
