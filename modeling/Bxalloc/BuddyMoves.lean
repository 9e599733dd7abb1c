import Bxalloc.BuddyInvariant

namespace Bxalloc

/-!
# Moves of the large-object allocator

What the parts of `alloc` and `free` do to the partition of the arena: list
insertion and removal, splitting a block and merging two.
-/

open Lib

namespace Buddy

variable {layout : BuddyLayout} {state : Buddy}
variable {items : Nat → List Nat} {hand : List Nat}

/-- Two header memories that differ in links at most. -/
def SameBlocks (header header' : Nat → BlockHeader) : Prop :=
  ∀ b,
    (header' b).free = (header b).free ∧
      (header' b).blockSize = (header b).blockSize

/-- Changing a link changes no block. -/
theorem sameBlocks_next
    (header : Nat → BlockHeader)
    (b next : Nat) :
    SameBlocks header
      (Function.update header b { header b with next := next }) := by
  intro other
  rcases eq_or_ne other b with rfl | differs
  · rw [Function.update_self]
    exact ⟨rfl, rfl⟩
  · rw [Function.update_of_ne differs]
    exact ⟨rfl, rfl⟩

/-- The loop of `remove` changes nothing when the block is not there. -/
theorem removeLoop_absent
    {b fuel currPtr : Nat}
    {header : Nat → BlockHeader}
    {nodes : List Nat}
    (list : NullList (fun node => (header node).next) 0 currPtr nodes)
    (notNull : b ≠ 0)
    (absent : b ∉ nodes)
    (enough : nodes.length < fuel) :
    removeLoop b fuel header currPtr = some header := by
  induction nodes generalizing fuel currPtr with
  | nil =>
      obtain ⟨more, rfl⟩ : ∃ more, fuel = more + 1 :=
        ⟨fuel - 1, by simp only [List.length_nil] at enough; omega⟩
      unfold removeLoop
      rw [if_pos (show currPtr = 0 from list)]
  | cons node rest inductionHypothesis =>
      obtain ⟨more, rfl⟩ : ∃ more, fuel = more + 1 :=
        ⟨fuel - 1, by simp only [List.length_cons] at enough; omega⟩
      obtain ⟨rfl, isNode, later⟩ := list
      have notNext : (header currPtr).next ≠ b := by
        intro found
        cases rest with
        | nil => exact notNull (found.symm.trans later)
        | cons second others =>
            rw [found.symm.trans later.1] at absent
            exact absent (List.mem_cons_of_mem _ List.mem_cons_self)
      unfold removeLoop
      rw [if_neg isNode, if_neg notNext]
      refine inductionHypothesis later ?_ ?_
      · exact fun member => absent (List.mem_cons_of_mem _ member)
      · simp only [List.length_cons] at enough
        omega

/-- The loop of `remove` unlinks a node behind the first one. -/
theorem removeLoop_spec
    {b fuel currPtr : Nat}
    {header : Nat → BlockHeader}
    {nodes : List Nat}
    (list : NullList (fun node => (header node).next) 0 currPtr nodes)
    (noDuplicates : nodes.Nodup)
    (notNull : b ≠ 0)
    (notFirst : currPtr ≠ b)
    (enough : nodes.length < fuel) :
    ∃ header',
      removeLoop b fuel header currPtr = some header' ∧
        NullList (fun node => (header' node).next) 0 currPtr
          (nodes.erase b) ∧
        (∀ node, node ∉ nodes → header' node = header node) ∧
        SameBlocks header header' := by
  induction nodes generalizing fuel currPtr with
  | nil =>
      refine ⟨header, ?_, list, fun _ _ => rfl, fun _ => ⟨rfl, rfl⟩⟩
      exact removeLoop_absent list notNull (List.not_mem_nil) enough
  | cons node rest inductionHypothesis =>
      obtain ⟨more, rfl⟩ : ∃ more, fuel = more + 1 :=
        ⟨fuel - 1, by simp only [List.length_cons] at enough; omega⟩
      obtain ⟨rfl, isNode, later⟩ := list
      obtain ⟨notLater, restNodup⟩ := List.nodup_cons.mp noDuplicates
      have fewer : rest.length < more := by
        simp only [List.length_cons] at enough
        omega
      unfold removeLoop
      rw [if_neg isNode, List.erase_cons_tail (by simpa using notFirst)]
      by_cases found : (header currPtr).next = b
      · cases rest with
        | nil => exact absurd (found.symm.trans later) notNull
        | cons second others =>
            obtain ⟨isSecond, -, behind⟩ := later
            obtain rfl : b = second := found.symm.trans isSecond
            obtain ⟨absent, -⟩ := List.nodup_cons.mp restNodup
            have notOther : currPtr ∉ others :=
              fun member => notLater (List.mem_cons_of_mem _ member)
            rw [if_pos found, List.erase_cons_head]
            simp only [Function.update_self]
            generalize shape :
              Function.update header currPtr
                { header currPtr with next := (header b).next } = header'
            have here : header' currPtr =
                { header currPtr with next := (header b).next } := by
              rw [← shape, Function.update_self]
            have there :
                ∀ other, other ≠ currPtr → header' other = header other := by
              intro other differs
              rw [← shape, Function.update_of_ne differs]
            have list' :
                NullList (fun node => (header' node).next) 0 (header b).next
                  others := by
              refine behind.congr ?_
              intro other member
              have differs : other ≠ currPtr := by
                rintro rfl
                exact notOther member
              simp only [there other differs]
            refine ⟨header', ?_, ⟨rfl, isNode, ?_⟩, ?_, ?_⟩
            · refine removeLoop_absent list' notNull absent ?_
              simp only [List.length_cons] at fewer
              omega
            · simp only [here]
              exact list'
            · intro other outside
              refine there other ?_
              rintro rfl
              exact outside List.mem_cons_self
            · rw [← shape]
              exact sameBlocks_next header currPtr _
      · obtain ⟨header', removed, list', frame, same⟩ :=
          inductionHypothesis later restNodup found fewer
        rw [if_neg found]
        refine ⟨header', removed, ⟨rfl, isNode, ?_⟩, ?_, same⟩
        · simp only [frame currPtr notLater]
          exact list'
        · intro other outside
          exact frame other fun member =>
            outside (List.mem_cons_of_mem _ member)

/-- The lists with another list at one level. -/
abbrev setItems
    (items : Nat → List Nat)
    (i : Nat)
    (nodes : List Nat) : Nat → List Nat :=
  Function.update items i nodes

/-- Places other than one level and the hand keep their blocks. -/
theorem content_setItems
    {state' : Buddy}
    {i : Nat}
    {nodes hand' : List Nat}
    {place : Place}
    (sameLive : state'.live = state.live)
    (notLevel : place ≠ .level i)
    (notHand : place ≠ .hand) :
    content state' (setItems items i nodes) hand' place =
      content state items hand place := by
  cases place with
  | level j =>
      have differs : j ≠ i := by
        rintro rfl
        exact notLevel rfl
      simp only [content, setItems, Function.update_of_ne differs]
  | live => exact sameLive
  | hand => exact absurd rfl notHand

/-- The headers that `split` leaves alone. -/
theorem split_other
    {b c : Nat}
    (notFirst : c ≠ b)
    (notSecond : c ≠ b + sizeAt state b / 2) :
    (state.split b).header c = state.header c := by
  unfold split
  simp only
  rw [setHeader_other _ _ notFirst]
  exact setHeader_other _ _ notSecond

/-- The header of the first half. -/
theorem split_first
    (state : Buddy)
    (b : Nat) :
    sizeAt (state.split b) b = sizeAt state b / 2 ∧
      nextAt (state.split b) b = b + sizeAt state b / 2 := by
  unfold split sizeAt nextAt at *
  simp only [setHeader_same]
  exact ⟨trivial, trivial⟩

/-- The header of the second half. -/
theorem split_second
    {b : Nat}
    (splits : 0 < sizeAt state b / 2) :
    sizeAt (state.split b) (b + sizeAt state b / 2) = sizeAt state b / 2 ∧
      nextAt (state.split b) (b + sizeAt state b / 2) = 0 := by
  unfold split sizeAt nextAt at *
  rw [setHeader_other _ _ (by omega)]
  simp only [setHeader_same]
  exact ⟨trivial, trivial⟩

/-- Both halves are marked as the block was, the second one free. -/
theorem split_free
    {b : Nat}
    (splits : 0 < sizeAt state b / 2) :
    ((state.split b).header b).free = (state.header b).free ∧
      ((state.split b).header (b + sizeAt state b / 2)).free = true := by
  unfold split sizeAt at *
  rw [setHeader_same, state.setHeader_other _ (by omega),
    setHeader_other _ _ (by omega), setHeader_same]
  exact ⟨rfl, rfl⟩

/-- `merge` doubles the lower of two blocks. -/
theorem merge_eq
    (state : Buddy)
    (b u : Nat) :
    state.merge b u =
      (min b u,
        state.setHeader (min b u)
          { state.header (min b u) with
            blockSize := (state.header (min b u)).blockSize * 2 }) := by
  have low : (if b < u then b else u) = min b u := by
    split <;> omega
  unfold merge
  rw [low]

/-- Which blocks are tiles depends on the lists and the live blocks. -/
theorem tile_congr
    {state' : Buddy}
    {b : Nat}
    (sameLive : state'.live = state.live) :
    Tile state' items hand b ↔ Tile state items hand b := by
  have sameContent :
      content state' items hand = content state items hand := by
    funext place
    cases place with
    | level i => rfl
    | live => exact sameLive
    | hand => rfl
  unfold Tile
  rw [sameContent]

/-- Tiles are held or not. -/
theorem tile_iff_held
    {b : Nat} :
    Tile state items hand b ↔ b ∈ hand ∨ Tile state items [] b := by
  constructor
  · rintro ⟨place, occurs⟩
    cases place with
    | level i => exact Or.inr ⟨.level i, occurs⟩
    | live => exact Or.inr ⟨.live, occurs⟩
    | hand => exact Or.inl occurs
  · rintro (isHeld | ⟨place, occurs⟩)
    · exact ⟨.hand, isHeld⟩
    · cases place with
      | level i => exact ⟨.level i, occurs⟩
      | live => exact ⟨.live, occurs⟩
      | hand => cases occurs

namespace Partition

/-- Only levels of the allocator have listed blocks. -/
theorem level_lt
    (partition : Partition layout state items hand)
    {i b : Nat}
    (member : b ∈ items i) :
    i < layout.levels := by
  by_contra above
  rw [partition.bounded i (Nat.le_of_not_lt above)] at member
  cases member

variable {state' : Buddy}

/-- What a header says survives when flag and size do. -/
theorem listed_congr
    (partition : Partition layout state items hand)
    {i b : Nat}
    (same :
      (state'.header b).free = (state.header b).free ∧
        (state'.header b).blockSize = (state.header b).blockSize)
    (member : b ∈ items i) :
    (state'.header b).free = true ∧
      sizeAt state' b = layout.levelSize i := by
  obtain ⟨isFree, size⟩ := partition.listed i b member
  exact ⟨same.1.trans isFree, same.2.trans size⟩

theorem held_congr
    (partition : Partition layout state items hand)
    {b : Nat}
    (same :
      (state'.header b).free = (state.header b).free ∧
        (state'.header b).blockSize = (state.header b).blockSize)
    (member : b ∈ hand) :
    (state'.header b).free = true ∧
      ∃ i, i < layout.levels ∧ sizeAt state' b = layout.levelSize i := by
  obtain ⟨isFree, i, atLevel, size⟩ := partition.held b member
  exact ⟨same.1.trans isFree, i, atLevel, same.2.trans size⟩

theorem allocated_congr
    (partition : Partition layout state items hand)
    {b : Nat}
    (same :
      (state'.header b).free = (state.header b).free ∧
        (state'.header b).blockSize = (state.header b).blockSize)
    (member : b ∈ state.live) :
    (state'.header b).free = false ∧
      ∃ i, i < layout.levels ∧ sizeAt state' b = layout.levelSize i := by
  obtain ⟨isUsed, i, atLevel, size⟩ := partition.allocated b member
  exact ⟨same.1.trans isUsed, i, atLevel, same.2.trans size⟩

/-- `remove` always ends and takes the block out of the list. -/
theorem remove_lists
    (partition : Partition layout state items hand)
    (i : Nat)
    {b : Nat}
    (notNull : b ≠ 0) :
    ∃ state',
      state.remove layout i b = some state' ∧
        state'.live = state.live ∧
        SameBlocks state.header state'.header ∧
        ∀ j,
          NullList (nextAt state') 0 (state'.freeList j)
            (setItems items i ((items i).erase b) j) := by
  unfold remove
  by_cases isHead : state.freeList i = b
  · rw [if_pos isHead]
    refine ⟨_, rfl, rfl, fun _ => ⟨rfl, rfl⟩, ?_⟩
    intro j
    change
      NullList (nextAt state) 0
        (Function.update state.freeList i (state.header b).next j) _
    rcases eq_or_ne j i with rfl | differs
    · have list := partition.lists j
      rw [Function.update_self, setItems, Function.update_self]
      rw [isHead] at list
      cases shape : items j with
      | nil =>
          rw [shape] at list
          exact absurd list notNull
      | cons node rest =>
          rw [shape] at list
          obtain ⟨rfl, -, later⟩ := list
          rw [List.erase_cons_head]
          exact later
    · rw [Function.update_of_ne differs, setItems,
        Function.update_of_ne differs]
      exact partition.lists j
  · rw [if_neg isHead]
    obtain ⟨header', removed, list', frame, same⟩ :=
      removeLoop_spec (partition.lists i) (partition.splits.nodup (.level i))
        notNull isHead (partition.length_lt_walkFuel i)
    refine ⟨{ state with header := header' }, ?_, rfl, same, ?_⟩
    · change
        (removeLoop b layout.walkFuel state.header (state.freeList i)).bind
            _ = _
      rw [removed]
      rfl
    · intro j
      rcases eq_or_ne j i with rfl | differs
      · rw [setItems, Function.update_self]
        exact list'
      · rw [setItems, Function.update_of_ne differs]
        refine (partition.lists j).congr ?_
        intro node member
        have outside : node ∉ items i := by
          intro member'
          have same := partition.splits.place_eq
            (show node ∈ content state items hand (.level j) from member)
            (show node ∈ content state items hand (.level i) from member')
          injection same with same
          exact differs same
        change (header' node).next = (state.header node).next
        rw [frame node outside]

/-- Taking a listed block. -/
theorem remove_listed
    (partition : Partition layout state items hand)
    {i b : Nat}
    (member : b ∈ items i) :
    ∃ state',
      state.remove layout i b = some state' ∧
        state'.live = state.live ∧
        SameBlocks state.header state'.header ∧
        Partition layout state' (setItems items i ((items i).erase b))
          (b :: hand) := by
  have isTile : Tile state items hand b := ⟨.level i, member⟩
  obtain ⟨state', removed, sameLive, same, lists⟩ :=
    partition.remove_lists i (partition.ne_zero isTile)
  have atLevel := partition.level_lt member
  obtain ⟨splits, tiles, aligned⟩ :=
    partition.exchange state' (setItems items i ((items i).erase b))
      (b :: hand) (show Place.level i ≠ .hand by simp)
      (by
        simp only [content, setItems, Function.update_self]
        exact (List.perm_cons_erase member).append_right hand |>.trans
          List.perm_middle.symm)
      (by
        intro place notLevel notHand
        exact content_setItems sameLive notLevel notHand)
      (fun other _ => (same other).2)
  refine ⟨state', removed, sameLive, same,
    ⟨lists, ?_, ?_, ?_, ?_, splits, tiles, aligned⟩⟩
  · intro j above
    rw [setItems, Function.update_of_ne (by omega)]
    exact partition.bounded j above
  · intro j other occurs
    have before : other ∈ items j := by
      rcases eq_or_ne j i with rfl | differs
      · rw [setItems, Function.update_self] at occurs
        exact List.mem_of_mem_erase occurs
      · rwa [setItems, Function.update_of_ne differs] at occurs
    exact partition.listed_congr (same other) before
  · intro other occurs
    rcases List.mem_cons.mp occurs with rfl | occurs
    · obtain ⟨isFree, size⟩ := partition.listed_congr (same other) member
      exact ⟨isFree, i, atLevel, size⟩
    · exact partition.held_congr (same other) occurs
  · intro other occurs
    rw [sameLive] at occurs
    exact partition.allocated_congr (same other) occurs

/-- Removing a block that is not in the list. -/
theorem remove_absent
    (partition : Partition layout state items hand)
    {i b : Nat}
    (notNull : b ≠ 0)
    (absent : b ∉ items i) :
    ∃ state',
      state.remove layout i b = some state' ∧
        state'.live = state.live ∧
        SameBlocks state.header state'.header ∧
        Partition layout state' items hand := by
  obtain ⟨state', removed, sameLive, same, lists⟩ :=
    partition.remove_lists i notNull
  rw [List.erase_of_not_mem absent, setItems, Function.update_eq_self] at lists
  obtain ⟨splits, tiles, aligned⟩ :=
    partition.exchange state' items hand (show Place.live ≠ .hand by simp)
      (by simp only [content, sameLive]; exact .refl _)
      (by
        intro place notLive notHand
        cases place with
        | level j => rfl
        | live => exact absurd rfl notLive
        | hand => exact absurd rfl notHand)
      (fun other _ => (same other).2)
  refine ⟨state', removed, sameLive, same,
    ⟨lists, partition.bounded, ?_, ?_, ?_, splits, tiles, aligned⟩⟩
  · intro j other occurs
    exact partition.listed_congr (same other) occurs
  · intro other occurs
    exact partition.held_congr (same other) occurs
  · intro other occurs
    rw [sameLive] at occurs
    exact partition.allocated_congr (same other) occurs

/-- A held block is in no list. -/
theorem not_listed_of_held
    (partition : Partition layout state items hand)
    {b : Nat}
    (isHeld : b ∈ hand)
    (i : Nat) :
    b ∉ items i := by
  intro member
  have same := partition.splits.place_eq
    (show b ∈ content state items hand .hand from isHeld)
    (show b ∈ content state items hand (.level i) from member)
  cases same

/-- `insert` links a held block into the list of its level. -/
theorem insert_held
    {b i : Nat}
    (partition : Partition layout state items (b :: hand))
    (size : sizeAt state b = layout.levelSize i) :
    Partition layout (state.insert i b) (setItems items i (b :: items i))
      hand := by
  have isHeld : b ∈ b :: hand := List.mem_cons_self
  obtain ⟨isFree, j, atLevel, sizeShape⟩ := partition.held b isHeld
  obtain rfl : i = j := levelSize_injective (size.symm.trans sizeShape)
  have isTile : Tile state items (b :: hand) b := ⟨.hand, isHeld⟩
  have same : SameBlocks state.header (state.insert i b).header :=
    sameBlocks_next state.header b (state.freeList i)
  have here : nextAt (state.insert i b) b = state.freeList i := by
    change
      (Function.update state.header b
        { state.header b with next := state.freeList i } b).next = _
    rw [Function.update_self]
  have there :
      ∀ other,
        other ≠ b → nextAt (state.insert i b) other = nextAt state other := by
    intro other differs
    change
      (Function.update state.header b
        { state.header b with next := state.freeList i } other).next = _
    rw [Function.update_of_ne differs]
    rfl
  have kept :
      ∀ j,
        NullList (nextAt (state.insert i b)) 0 (state.freeList j)
          (items j) := by
    intro j
    refine (partition.lists j).congr ?_
    intro node member
    refine there node ?_
    rintro rfl
    exact partition.not_listed_of_held isHeld j member
  obtain ⟨splits, tiles, aligned⟩ :=
    partition.exchange (state.insert i b) (setItems items i (b :: items i))
      hand (show Place.level i ≠ .hand by simp)
      (by
        simp only [content, setItems, Function.update_self, List.cons_append]
        exact List.perm_middle)
      (by
        intro place notLevel notHand
        exact content_setItems rfl notLevel notHand)
      (fun other _ => (same other).2)
  refine ⟨?_, ?_, ?_, ?_, ?_, splits, tiles, aligned⟩
  · intro j
    change
      NullList _ 0 (Function.update state.freeList i b j) _
    rcases eq_or_ne j i with rfl | differs
    · rw [Function.update_self, setItems, Function.update_self]
      exact (kept j).cons here (partition.ne_zero isTile)
    · rw [Function.update_of_ne differs, setItems,
        Function.update_of_ne differs]
      exact kept j
  · intro j above
    rw [setItems, Function.update_of_ne (by omega)]
    exact partition.bounded j above
  · intro j other occurs
    rcases eq_or_ne j i with rfl | differs
    · rw [setItems, Function.update_self] at occurs
      rcases List.mem_cons.mp occurs with rfl | occurs
      · exact ⟨(same other).1.trans isFree, (same other).2.trans size⟩
      · exact partition.listed_congr (same other) occurs
    · rw [setItems, Function.update_of_ne differs] at occurs
      exact partition.listed_congr (same other) occurs
  · intro other occurs
    exact partition.held_congr (same other) (List.mem_cons_of_mem _ occurs)
  · intro other occurs
    exact partition.allocated_congr (same other) occurs

/-- Changing the flag of one block keeps all sizes and links. -/
theorem setFree_fields
    (state : Buddy)
    (b : Nat)
    (flag : Bool) :
    (∀ other,
      sizeAt (state.setHeader b { state.header b with free := flag }) other =
        sizeAt state other) ∧
      (∀ other,
        nextAt (state.setHeader b { state.header b with free := flag })
            other =
          nextAt state other) ∧
      (∀ other,
        other ≠ b →
        (state.setHeader b { state.header b with free := flag }).header
            other =
          state.header other) ∧
      ((state.setHeader b { state.header b with free := flag }).header
          b).free = flag := by
  have here :
      (state.setHeader b { state.header b with free := flag }).header b =
        { state.header b with free := flag } :=
    state.setHeader_same b _
  have there :
      ∀ other,
        other ≠ b →
        (state.setHeader b { state.header b with free := flag }).header
            other =
          state.header other := by
    intro other differs
    exact state.setHeader_other _ differs
  refine ⟨?_, ?_, there, by rw [here]⟩
  · intro other
    unfold sizeAt
    rcases eq_or_ne other b with rfl | differs
    · rw [here]
    · rw [there other differs]
  · intro other
    unfold nextAt
    rcases eq_or_ne other b with rfl | differs
    · rw [here]
    · rw [there other differs]

/-- `free` marks a live block free and takes it. -/
theorem take_live
    (partition : Partition layout state items hand)
    {b : Nat}
    (isLive : b ∈ state.live) :
    Partition layout (state.markFree b) items (b :: hand) := by
  obtain ⟨sameSize, sameNext, there, here⟩ := setFree_fields state b true
  obtain ⟨-, i, atLevel, size⟩ := partition.allocated b isLive
  generalize shape : state.markFree b = state'
  have sameSize' : ∀ other, sizeAt state' other = sizeAt state other := by
    rw [← shape]
    exact sameSize
  have there' :
      ∀ other, other ≠ b → state'.header other = state.header other := by
    rw [← shape]
    exact there
  have here' : (state'.header b).free = true := by
    rw [← shape]
    exact here
  have liveShape : state'.live = state.live.erase b := by
    rw [← shape]
    rfl
  obtain ⟨splits, tiles, aligned⟩ :=
    partition.exchange state' items (b :: hand)
      (show Place.live ≠ .hand by simp)
      (by
        simp only [content, liveShape]
        exact (List.perm_cons_erase isLive).append_right hand |>.trans
          List.perm_middle.symm)
      (by
        intro place notLive notHand
        cases place with
        | level j => rfl
        | live => exact absurd rfl notLive
        | hand => exact absurd rfl notHand)
      (fun other _ => sameSize' other)
  have apart :
      ∀ place other,
        place ≠ .live →
        other ∈ content state items hand place → other ≠ b := by
    rintro place other notLive occurs rfl
    exact notLive (partition.splits.place_eq occurs
      (show other ∈ content state items hand .live from isLive))
  refine ⟨?_, partition.bounded, ?_, ?_, ?_, splits, tiles, aligned⟩
  · rw [← shape]
    intro j
    exact (partition.lists j).congr fun node _ => sameNext node
  · intro j other occurs
    have differs := apart (.level j) other (by simp) occurs
    refine partition.listed_congr ?_ occurs
    rw [there' other differs]
    exact ⟨rfl, rfl⟩
  · intro other occurs
    rcases List.mem_cons.mp occurs with rfl | occurs
    · exact ⟨here', i, atLevel, (sameSize' other).trans size⟩
    · have differs := apart .hand other (by simp) occurs
      refine partition.held_congr ?_ occurs
      rw [there' other differs]
      exact ⟨rfl, rfl⟩
  · intro other occurs
    rw [liveShape] at occurs
    have differs : other ≠ b := by
      rintro rfl
      exact (partition.splits.nodup .live).not_mem_erase occurs
    refine partition.allocated_congr ?_ (List.mem_of_mem_erase occurs)
    rw [there' other differs]
    exact ⟨rfl, rfl⟩

/-- `alloc` marks a held block used and hands it out. -/
theorem give_live
    {b : Nat}
    (partition : Partition layout state items (b :: hand)) :
    Partition layout
      { state.setHeader b { state.header b with free := false } with
        live := b :: state.live }
      items hand := by
  have isHeld : b ∈ b :: hand := List.mem_cons_self
  obtain ⟨sameSize, sameNext, there, here⟩ := setFree_fields state b false
  obtain ⟨-, i, atLevel, size⟩ := partition.held b isHeld
  generalize shape :
    ({ state.setHeader b { state.header b with free := false } with
      live := b :: state.live } : Buddy) = state'
  have sameSize' : ∀ other, sizeAt state' other = sizeAt state other := by
    rw [← shape]
    exact sameSize
  have there' :
      ∀ other, other ≠ b → state'.header other = state.header other := by
    rw [← shape]
    exact there
  have here' : (state'.header b).free = false := by
    rw [← shape]
    exact here
  have liveShape : state'.live = b :: state.live := by
    rw [← shape]
  obtain ⟨splits, tiles, aligned⟩ :=
    partition.exchange state' items hand
      (show Place.live ≠ .hand by simp)
      (by
        simp only [content, liveShape, List.cons_append]
        exact List.perm_middle)
      (by
        intro place notLive notHand
        cases place with
        | level j => rfl
        | live => exact absurd rfl notLive
        | hand => exact absurd rfl notHand)
      (fun other _ => sameSize' other)
  have apart :
      ∀ place other,
        place ≠ .hand →
        other ∈ content state items (b :: hand) place → other ≠ b := by
    rintro place other notHand occurs rfl
    exact notHand (partition.splits.place_eq occurs
      (show other ∈ content state items (other :: hand) .hand from isHeld))
  refine ⟨?_, partition.bounded, ?_, ?_, ?_, splits, tiles, aligned⟩
  · rw [← shape]
    intro j
    exact (partition.lists j).congr fun node _ => sameNext node
  · intro j other occurs
    have differs := apart (.level j) other (by simp) occurs
    refine partition.listed_congr ?_ occurs
    rw [there' other differs]
    exact ⟨rfl, rfl⟩
  · intro other occurs
    have differs : other ≠ b := by
      rintro rfl
      exact (List.nodup_cons.mp (partition.splits.nodup .hand)).1 occurs
    refine partition.held_congr ?_ (List.mem_cons_of_mem _ occurs)
    rw [there' other differs]
    exact ⟨rfl, rfl⟩
  · intro other occurs
    rw [liveShape] at occurs
    rcases List.mem_cons.mp occurs with rfl | occurs
    · exact ⟨here', i, atLevel, (sameSize' other).trans size⟩
    · have differs := apart .live other (by simp) occurs
      refine partition.allocated_congr ?_ occurs
      rw [there' other differs]
      exact ⟨rfl, rfl⟩

/-- The buddy of a block is the other half of its parent. -/
theorem getbuddy_eq
    (partition : Partition layout state items hand)
    {b : Nat}
    (isTile : Tile state items hand b) :
    state.getbuddy layout b =
      layout.start + otherHalf (sizeAt state b) (b - layout.start) := by
  obtain ⟨i, -, size⟩ := partition.level isTile
  have aligned := partition.aligned b isTile
  rw [size, levelSize_eq_pow] at aligned
  unfold getbuddy
  change ((b - layout.start) ^^^ sizeAt state b) + layout.start = _
  rw [size, levelSize_eq_pow, xor_eq_otherHalf aligned, Nat.add_comm]

/-- A held block is in no other place. -/
theorem not_tile_of_held
    (partition : Partition layout state items hand)
    {b : Nat}
    (isHeld : b ∈ hand) :
    ¬ Tile state items [] b := by
  rintro ⟨place, occurs⟩
  cases place with
  | level i => exact partition.not_listed_of_held isHeld i occurs
  | live =>
      have clash := partition.splits.place_eq
        (show b ∈ content state items hand .hand from isHeld)
        (show b ∈ content state items hand .live from occurs)
      cases clash
  | hand => cases occurs

/-- A change of held blocks only, whatever is held afterwards. -/
theorem change_held
    {hand' : List Nat}
    (partition : Partition layout state items hand)
    (sameLists : state'.freeList = state.freeList)
    (sameLive : state'.live = state.live)
    (others :
      ∀ b, Tile state items [] b → state'.header b = state.header b)
    (held :
      ∀ b,
        b ∈ hand' →
        (state'.header b).free = true ∧
          ∃ i, i < layout.levels ∧ sizeAt state' b = layout.levelSize i)
    (splits : Splits (content state' items hand') (Tile state' items hand'))
    (tiles :
      Tiles (Tile state' items hand') (sizeAt state') layout.start
        layout.finish)
    (aligned :
      ∀ b, b ∈ hand' → sizeAt state' b ∣ b - layout.start) :
    Partition layout state' items hand' := by
  refine ⟨?_, partition.bounded, ?_, held, ?_, splits, tiles, ?_⟩
  · intro j
    rw [sameLists]
    refine (partition.lists j).congr ?_
    intro node member
    unfold nextAt
    rw [others node ⟨.level j, member⟩]
  · intro j b member
    refine partition.listed_congr ?_ member
    rw [others b ⟨.level j, member⟩]
    exact ⟨rfl, rfl⟩
  · intro b member
    rw [sameLive] at member
    refine partition.allocated_congr ?_ member
    rw [others b ⟨.live, member⟩]
    exact ⟨rfl, rfl⟩
  · intro b isTile
    rcases tile_iff_held.mp isTile with isHeld | notHeld
    · exact aligned b isHeld
    · have isOld : Tile state items [] b := (tile_congr sameLive).mp notHeld
      unfold sizeAt
      rw [others b isOld]
      exact partition.aligned b (tile_iff_held.mpr (Or.inr isOld))

/-- Two held halves of one parent merge into it. -/
theorem merge_held
    {b u i : Nat}
    (partition : Partition layout state items [b, u])
    (above : i + 1 < layout.levels)
    (size : sizeAt state b = layout.levelSize i)
    (otherSize : sizeAt state u = layout.levelSize i)
    (isBuddy :
      u = layout.start + otherHalf (layout.levelSize i) (b - layout.start)) :
    Partition layout (state.merge b u).2 items [(state.merge b u).1] ∧
      sizeAt (state.merge b u).2 (state.merge b u).1 =
        layout.levelSize (i + 1) ∧
      (state.merge b u).1 = min b u ∧
      (state.merge b u).2.live = state.live ∧
      ∀ other,
        other ≠ min b u →
        (state.merge b u).2.header other = state.header other := by
  have bHeld : b ∈ [b, u] := List.mem_cons_self
  have uHeld : u ∈ [b, u] := List.mem_cons_of_mem _ List.mem_cons_self
  have bAbove := partition.tiles.lower b ⟨.hand, bHeld⟩
  have positive := levelSize_pos layout i
  have aligned := partition.aligned b ⟨.hand, bHeld⟩
  rw [size] at aligned
  obtain ⟨-, distinct, -, neighbours, parent⟩ :=
    otherHalf_pair positive aligned
  generalize otherHalf (layout.levelSize i) (b - layout.start) = offset at *
  -- The lower block is kept, the upper one disappears in it.
  have low :
      min b u ∈ [b, u] ∧ sizeAt state (min b u) = layout.levelSize i := by
    rcases Nat.le_total b u with less | less
    · rw [Nat.min_eq_left less]
      exact ⟨bHeld, size⟩
    · rw [Nat.min_eq_right less]
      exact ⟨uHeld, otherSize⟩
  have high :
      max b u ∈ [b, u] ∧ sizeAt state (max b u) = layout.levelSize i := by
    rcases Nat.le_total b u with less | less
    · rw [Nat.max_eq_right less]
      exact ⟨uHeld, otherSize⟩
    · rw [Nat.max_eq_left less]
      exact ⟨bHeld, size⟩
  rw [merge_eq]
  generalize stateShape :
    state.setHeader (min b u)
      { state.header (min b u) with
        blockSize := (state.header (min b u)).blockSize * 2 } = state'
  have there :
      ∀ other,
        other ≠ min b u → state'.header other = state.header other := by
    intro other differs
    rw [← stateShape]
    exact state.setHeader_other _ differs
  have sameLive : state'.live = state.live := by
    rw [← stateShape]
    rfl
  have hereSize :
      sizeAt state' (min b u) = layout.levelSize (i + 1) := by
    rw [levelSize_succ, ← low.2, ← stateShape, Nat.mul_comm]
    unfold sizeAt
    rw [setHeader_same]
  have fewer :
      ∀ place,
        (content state' items [min b u] place).Sublist
          (content state items [b, u] place) := by
    intro place
    cases place with
    | level j => exact List.Sublist.refl _
    | live =>
        simp only [content, sameLive]
        exact List.Sublist.refl _
    | hand => exact List.singleton_sublist.mpr low.1
  have newTile :
      ∀ x,
        Tile state' items [min b u] x ↔
          Tile state items [b, u] x ∧ x ≠ max b u := by
    intro x
    have notHeld := partition.not_tile_of_held high.1
    have sameTile : Tile state' items [] x ↔ Tile state items [] x :=
      tile_congr sameLive
    rw [@tile_iff_held state', @tile_iff_held state, sameTile]
    simp only [List.mem_cons, List.not_mem_nil, or_false]
    constructor
    · rintro (rfl | isOld)
      · exact ⟨Or.inl (by omega), by omega⟩
      · exact ⟨Or.inr isOld, by rintro rfl; exact notHeld isOld⟩
    · rintro ⟨isBoth | isOld, notHigh⟩
      · exact Or.inl (by omega)
      · exact Or.inr isOld
  have tiles :
      Tiles (Tile state' items [min b u]) (sizeAt state') layout.start
        layout.finish :=
    partition.tiles.merge
      (show Tile state items [b, u] (min b u) from ⟨.hand, low.1⟩)
      (show Tile state items [b, u] (max b u) from ⟨.hand, high.1⟩)
      (by rw [low.2]; omega) newTile
      (by rw [hereSize, low.2, high.2, levelSize_succ]; omega)
      (fun x _ notLow _ => by
        unfold sizeAt
        rw [there x notLow])
  refine ⟨?_, hereSize, rfl, sameLive, there⟩
  refine partition.change_held ?_ sameLive ?_ ?_
    (partition.splits.sublist fewer) tiles ?_
  · rw [← stateShape]
    rfl
  · intro other isOld
    refine there other ?_
    rintro rfl
    exact partition.not_tile_of_held low.1 isOld
  · intro other member
    rw [List.mem_singleton.mp member]
    refine ⟨?_, i + 1, above, hereSize⟩
    rw [← stateShape, setHeader_same]
    exact (partition.held _ low.1).1
  · intro other member
    rw [List.mem_singleton.mp member, hereSize, levelSize_succ,
      show min b u - layout.start = min (b - layout.start) offset by omega]
    exact parent

/-- A held block splits into its two halves. -/
theorem split_held
    {b i : Nat}
    (partition : Partition layout state items [b])
    (size : sizeAt state b = layout.levelSize (i + 1)) :
    Partition layout (state.split b) items [b, b + layout.levelSize i] ∧
      sizeAt (state.split b) b = layout.levelSize i ∧
      sizeAt (state.split b) (b + layout.levelSize i) =
        layout.levelSize i ∧
      nextAt (state.split b) b = b + layout.levelSize i ∧
      nextAt (state.split b) (b + layout.levelSize i) = 0 := by
  have isHeld : b ∈ [b] := List.mem_singleton.mpr rfl
  have isTile : Tile state items [b] b := ⟨.hand, isHeld⟩
  obtain ⟨isFree, j, atLevel, sizeShape⟩ := partition.held b isHeld
  obtain rfl : i + 1 = j := levelSize_injective (size.symm.trans sizeShape)
  have positive := levelSize_pos layout i
  have half : sizeAt state b / 2 = layout.levelSize i := by
    rw [size, levelSize_succ]
    omega
  have first := split_first state b
  have second := @split_second state b (by omega)
  have marks := @split_free state b (by omega)
  rw [half] at first second marks
  have fresh : ¬ Tile state items [b] (b + layout.levelSize i) := by
    refine partition.tiles.not_tile_inside isTile (by omega) ?_
    rw [size, levelSize_succ]
    omega
  have oldSame :
      ∀ other,
        Tile state items [b] other →
        other ≠ b →
        (state.split b).header other = state.header other := by
    intro other isOld notFirst
    refine split_other notFirst ?_
    rw [half]
    rintro rfl
    exact fresh isOld
  have newTile :
      ∀ x,
        Tile (state.split b) items [b, b + layout.levelSize i] x ↔
          x ∈ [b + layout.levelSize i] ∨ Tile state items [b] x := by
    intro x
    have sameTile :
        Tile (state.split b) items [] x ↔ Tile state items [] x :=
      tile_congr rfl
    rw [@tile_iff_held (state.split b), @tile_iff_held state, sameTile]
    simp only [List.mem_cons, List.not_mem_nil, or_false]
    exact or_assoc.trans or_left_comm
  have splits :
      Splits (content (state.split b) items [b, b + layout.levelSize i])
        (Tile (state.split b) items [b, b + layout.levelSize i]) := by
    refine partition.splits.add .hand (List.nodup_singleton _) ?_ ?_ ?_
      newTile
    · intro item member
      rw [List.mem_singleton.mp member]
      exact fresh
    · exact List.Perm.swap _ _ _
    · intro other notHand
      cases other with
      | level j => rfl
      | live => rfl
      | hand => exact absurd rfl notHand
  have tiles :
      Tiles (Tile (state.split b) items [b, b + layout.levelSize i])
        (sizeAt (state.split b)) layout.start layout.finish :=
    partition.tiles.split isTile
      (show sizeAt state b = layout.levelSize i + layout.levelSize i by
        rw [size, levelSize_succ]
        omega)
      positive positive
      (fun x => (newTile x).trans
        (by rw [List.mem_singleton]; exact or_comm))
      first.1 second.1
      (fun other isOld notFirst => by
        unfold sizeAt
        rw [oldSame other isOld notFirst])
  have aligned := partition.aligned b isTile
  have above := partition.tiles.lower b isTile
  rw [size, levelSize_succ] at aligned
  have halfAligned : layout.levelSize i ∣ b - layout.start :=
    Nat.dvd_trans (Nat.dvd_mul_left _ _) aligned
  refine ⟨partition.change_held rfl rfl ?_ ?_ splits tiles ?_, first.1,
    second.1, first.2, second.2⟩
  · intro other isOld
    refine oldSame other (tile_iff_held.mpr (Or.inr isOld)) ?_
    rintro rfl
    exact partition.not_tile_of_held isHeld isOld
  · intro other occurs
    simp only [List.mem_cons, List.not_mem_nil, or_false] at occurs
    rcases occurs with rfl | rfl
    · exact ⟨marks.1.trans isFree, i, by omega, first.1⟩
    · exact ⟨marks.2, i, by omega, second.1⟩
  · intro other occurs
    simp only [List.mem_cons, List.not_mem_nil, or_false] at occurs
    rcases occurs with rfl | rfl
    · rw [first.1]
      exact halfAligned
    · rw [second.1, show b + layout.levelSize i - layout.start =
        b - layout.start + layout.levelSize i by omega]
      exact (Nat.dvd_add_right halfAligned).mpr (Nat.dvd_refl _)

/-- Two linked halves become the list of an empty level. -/
theorem install_halves
    {b u i : Nat}
    (partition : Partition layout state items [b, u])
    (empty : items i = [])
    (size : sizeAt state b = layout.levelSize i)
    (otherSize : sizeAt state u = layout.levelSize i)
    (linked : nextAt state b = u)
    (ends : nextAt state u = 0) :
    Partition layout (state.setHead i b) (setItems items i [b, u]) [] := by
  have bHeld : b ∈ [b, u] := List.mem_cons_self
  have uHeld : u ∈ [b, u] := List.mem_cons_of_mem _ List.mem_cons_self
  obtain ⟨bFree, j, atLevel, sizeShape⟩ := partition.held b bHeld
  obtain rfl : i = j := levelSize_injective (size.symm.trans sizeShape)
  have same : SameBlocks state.header (state.setHead i b).header :=
    fun _ => ⟨rfl, rfl⟩
  obtain ⟨splits, tiles, aligned⟩ :=
    partition.exchange (state.setHead i b) (setItems items i [b, u]) []
      (show Place.level i ≠ .hand by simp)
      (by
        simp only [content, setItems, Function.update_self, empty,
          List.nil_append, List.append_nil]
        exact .refl _)
      (by
        intro place notLevel notHand
        exact content_setItems rfl notLevel notHand)
      (fun other _ => (same other).2)
  refine ⟨?_, ?_, ?_, ?_, partition.allocated, splits, tiles, aligned⟩
  · intro j
    change
      NullList (nextAt state) 0 (Function.update state.freeList i b j) _
    rcases eq_or_ne j i with rfl | differs
    · rw [Function.update_self, setItems, Function.update_self]
      exact ⟨rfl, partition.ne_zero ⟨.hand, bHeld⟩, linked,
        by rw [linked]; exact partition.ne_zero ⟨.hand, uHeld⟩, ends⟩
    · rw [Function.update_of_ne differs, setItems,
        Function.update_of_ne differs]
      exact partition.lists j
  · intro j above
    rw [setItems, Function.update_of_ne (by omega)]
    exact partition.bounded j above
  · intro j other occurs
    rcases eq_or_ne j i with rfl | differs
    · rw [setItems, Function.update_self] at occurs
      simp only [List.mem_cons, List.not_mem_nil, or_false] at occurs
      rcases occurs with rfl | rfl
      · exact ⟨bFree, size⟩
      · exact ⟨(partition.held other uHeld).1, otherSize⟩
    · rw [setItems, Function.update_of_ne differs] at occurs
      exact partition.listed j other occurs
  · intro other occurs
    cases occurs

end Partition

end Buddy

end Bxalloc
