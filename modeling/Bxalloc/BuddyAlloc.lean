import Bxalloc.LargeRegion

namespace Bxalloc

/-!
# What `alloc` takes and what it leaves

`alloc` takes the first block of some free list, halves it until it fits and
puts the upper halves into the lists below.  The split loop overwrites the
heads of these lists, which the search loop has found empty.  The search loop
accepts a block that fits exactly; the split loop stops one level above it.
-/

open Lib

namespace Buddy

variable {layout : BuddyLayout} {state state' : Buddy}
variable {items : Nat → List Nat}

/-- Two blocks do not overlap. -/
def Apart (b size c size' : Nat) : Prop :=
  b + size ≤ c ∨ c + size' ≤ b

/--
The free lists hold `items`: blocks of the size of their level at aligned
offsets, pairwise disjoint and disjoint from the live blocks.
-/
structure WellFormed
    (layout : BuddyLayout)
    (state : Buddy)
    (items : Nat → List Nat) : Prop where
  lists :
    ∀ i,
      i < layout.levels →
      NullList (nextAt state) 0 (state.freeList i) (items i)
  listed :
    ∀ i b,
      i < layout.levels →
      b ∈ items i →
      sizeAt state b = layout.levelSize i ∧
        layout.start ≤ b ∧
        layout.levelSize i ∣ b - layout.start
  apart :
    ∀ i j b c,
      i < layout.levels →
      j < layout.levels →
      b ∈ items i →
      c ∈ items j →
      b ≠ c →
      Apart b (layout.levelSize i) c (layout.levelSize j)
  live :
    ∀ c,
      c ∈ state.live →
      0 < sizeAt state c ∧
        ∀ i b,
          i < layout.levels →
          b ∈ items i →
          Apart b (layout.levelSize i) c (sizeAt state c)

/-- The lists after one round of the split loop. -/
def splitItems
    (layout : BuddyLayout)
    (items : Nat → List Nat)
    (i b : Nat)
    (rest : List Nat) : Nat → List Nat :=
  Function.update (Function.update items (i + 1) rest) i
    [b, b + layout.levelSize i]

/-- The state after one round of the split loop. -/
def splitHead (state : Buddy) (i b : Nat) : Buddy :=
  ((state.split b).setHead i b).setHead (i + 1) (state.header b).next

/-- What the lists hold after one round of the split loop. -/
theorem mem_splitItems
    {i b c k : Nat}
    {rest : List Nat}
    (shape : items (i + 1) = b :: rest)
    (once : b ∉ rest)
    (others : b ∈ items k → k = i + 1) :
    c ∈ splitItems layout items i b rest k ↔
      k = i ∧ (c = b ∨ c = b + layout.levelSize i) ∨
        k ≠ i ∧ c ∈ items k ∧ c ≠ b := by
  unfold splitItems
  rcases eq_or_ne k i with rfl | notBelow
  · simp
  · rw [Function.update_of_ne notBelow]
    rcases eq_or_ne k (i + 1) with rfl | elsewhere
    · rw [Function.update_self, shape, List.mem_cons]
      have differs : c ∈ rest → c ≠ b := by
        rintro member rfl
        exact once member
      tauto
    · rw [Function.update_of_ne elsewhere]
      have differs : c ∈ items k → c ≠ b := by
        rintro member rfl
        exact elsewhere (others member)
      tauto

namespace WellFormed

/-- A block is in the list of its size only. -/
theorem level_unique
    (wellFormed : WellFormed layout state items)
    {i j b : Nat}
    (atLevel : i < layout.levels)
    (atLevel' : j < layout.levels)
    (member : b ∈ items i)
    (member' : b ∈ items j) :
    i = j := by
  have size := (wellFormed.listed i b atLevel member).1
  rw [(wellFormed.listed j b atLevel' member').1] at size
  exact (levelSize_injective size).symm

/-- The first block of a list. -/
theorem head_size
    (wellFormed : WellFormed layout state items)
    {i b : Nat}
    {rest : List Nat}
    (atLevel : i < layout.levels)
    (shape : items i = b :: rest) :
    state.freeList i = b ∧ sizeAt state b = layout.levelSize i := by
  have list := wellFormed.lists i atLevel
  rw [shape] at list
  refine ⟨list.1, (wellFormed.listed i b atLevel ?_).1⟩
  rw [shape]
  exact List.mem_cons_self

/-- Blocks other than the split one keep their headers. -/
theorem outside_split
    (wellFormed : WellFormed layout state items)
    {i b c size : Nat}
    (atLevel : i + 1 < layout.levels)
    (member : b ∈ items (i + 1))
    (apart : Apart b (layout.levelSize (i + 1)) c size)
    (positive : 0 < size) :
    (state.split b).header c = state.header c := by
  have half : sizeAt state b / 2 = layout.levelSize i := by
    rw [(wellFormed.listed (i + 1) b atLevel member).1, levelSize_succ]
    omega
  have someSize := levelSize_pos layout i
  rw [levelSize_succ] at apart
  unfold Apart at apart
  apply split_other
  · omega
  · rw [half]
    omega

section SplitRound

variable {i b : Nat} {rest : List Nat}

/-- Both halves have the size of the level below. -/
theorem split_halves
    (wellFormed : WellFormed layout state items)
    (atLevel : i + 1 < layout.levels)
    (member : b ∈ items (i + 1)) :
    (sizeAt (state.split b) b = layout.levelSize i ∧
        nextAt (state.split b) b = b + layout.levelSize i) ∧
      sizeAt (state.split b) (b + layout.levelSize i) =
          layout.levelSize i ∧
        nextAt (state.split b) (b + layout.levelSize i) = 0 := by
  have size := (wellFormed.listed (i + 1) b atLevel member).1
  have someSize := levelSize_pos layout i
  have double := levelSize_succ layout i
  have half : sizeAt state b / 2 = layout.levelSize i := by
    omega
  have first := split_first state b
  have second := split_second (by omega : 0 < sizeAt state b / 2)
  rw [half] at first second
  exact ⟨first, second⟩

/-- The other listed blocks keep their headers. -/
theorem split_listed_kept
    (wellFormed : WellFormed layout state items)
    (atLevel : i + 1 < layout.levels)
    (member : b ∈ items (i + 1))
    {k c : Nat}
    (early : k < layout.levels)
    (occurs : c ∈ items k)
    (differs : c ≠ b) :
    (state.split b).header c = state.header c :=
  wellFormed.outside_split atLevel member
    (wellFormed.apart (i + 1) k b c atLevel early member occurs differs.symm)
    (levelSize_pos layout k)

/-- What the lists of a well-formed state hold after the round. -/
theorem mem_split
    (wellFormed : WellFormed layout state items)
    (atLevel : i + 1 < layout.levels)
    (shape : items (i + 1) = b :: rest)
    {k c : Nat}
    (early : k < layout.levels)
    (occurs : c ∈ splitItems layout items i b rest k) :
    k = i ∧ (c = b ∨ c = b + layout.levelSize i) ∨
      k ≠ i ∧ c ∈ items k ∧ c ≠ b := by
  have member : b ∈ items (i + 1) := by
    rw [shape]
    exact List.mem_cons_self
  have list := wellFormed.lists (i + 1) atLevel
  rw [shape] at list
  refine (mem_splitItems shape (List.nodup_cons.mp list.nodup).1 ?_).mp occurs
  intro again
  exact wellFormed.level_unique early atLevel again member

/-- The heads and links of the round make the new lists. -/
theorem split_lists
    (wellFormed : WellFormed layout state items)
    (atLevel : i + 1 < layout.levels)
    (shape : items (i + 1) = b :: rest)
    {k : Nat}
    (early : k < layout.levels) :
    NullList (nextAt (splitHead state i b)) 0
      ((splitHead state i b).freeList k)
      (splitItems layout items i b rest k) := by
  have member : b ∈ items (i + 1) := by
    rw [shape]
    exact List.mem_cons_self
  have list := wellFormed.lists (i + 1) atLevel
  rw [shape] at list
  have once : b ∉ rest := (List.nodup_cons.mp list.nodup).1
  obtain ⟨first, second⟩ := wellFormed.split_halves atLevel member
  have someSize := levelSize_pos layout i
  unfold splitItems splitHead
  rcases eq_or_ne k i with rfl | notBelow
  · simp only [setHead, Function.update_self,
      Function.update_of_ne (Nat.ne_of_lt (Nat.lt_succ_self k))]
    have positive := layout.positive
    have lower := (wellFormed.listed (k + 1) b atLevel member).2.1
    refine ⟨rfl, by omega, first.2, ?_, second.2⟩
    change nextAt (state.split b) b ≠ 0
    rw [first.2]
    omega
  · rw [Function.update_of_ne notBelow]
    rcases eq_or_ne k (i + 1) with rfl | elsewhere
    · simp only [setHead, Function.update_self]
      refine list.2.2.congr ?_
      intro c occurs
      refine congrArg BlockHeader.next
        (wellFormed.split_listed_kept atLevel member early ?_ ?_)
      · rw [shape]
        exact List.mem_cons_of_mem _ occurs
      · rintro rfl
        exact once occurs
    · simp only [setHead, Function.update_of_ne elsewhere,
        Function.update_of_ne notBelow]
      refine (wellFormed.lists k early).congr ?_
      intro c occurs
      refine congrArg BlockHeader.next
        (wellFormed.split_listed_kept atLevel member early occurs ?_)
      rintro rfl
      exact elsewhere (wellFormed.level_unique early atLevel occurs member)

/-- The listed blocks have the sizes and the alignment of their levels. -/
theorem split_listed
    (wellFormed : WellFormed layout state items)
    (atLevel : i + 1 < layout.levels)
    (shape : items (i + 1) = b :: rest)
    {k c : Nat}
    (early : k < layout.levels)
    (occurs : c ∈ splitItems layout items i b rest k) :
    sizeAt (splitHead state i b) c = layout.levelSize k ∧
      layout.start ≤ c ∧
      layout.levelSize k ∣ c - layout.start := by
  have member : b ∈ items (i + 1) := by
    rw [shape]
    exact List.mem_cons_self
  obtain ⟨-, lower, aligned⟩ := wellFormed.listed (i + 1) b atLevel member
  obtain ⟨first, second⟩ := wellFormed.split_halves atLevel member
  have double := levelSize_succ layout i
  change sizeAt (state.split b) c = _ ∧ _
  rcases wellFormed.mem_split atLevel shape early occurs with
    ⟨rfl, rfl | rfl⟩ | ⟨-, old, differs⟩
  · exact ⟨first.1, lower, Nat.dvd_trans (Dvd.intro_left 2 double.symm) aligned⟩
  · refine ⟨second.1, by omega, ?_⟩
    rw [Nat.sub_add_comm lower]
    exact Nat.dvd_add
      (Nat.dvd_trans (Dvd.intro_left 2 double.symm) aligned)
      (Nat.dvd_refl _)
  · have facts := wellFormed.listed k c early old
    have kept :=
      wellFormed.split_listed_kept atLevel member early old differs
    rw [← facts.1]
    exact ⟨congrArg BlockHeader.blockSize kept, facts.2.1,
      facts.1 ▸ facts.2.2⟩

/-- The listed blocks stay disjoint. -/
theorem split_apart
    (wellFormed : WellFormed layout state items)
    (atLevel : i + 1 < layout.levels)
    (shape : items (i + 1) = b :: rest)
    {k l c d : Nat}
    (early : k < layout.levels)
    (early' : l < layout.levels)
    (occurs : c ∈ splitItems layout items i b rest k)
    (occurs' : d ∈ splitItems layout items i b rest l)
    (differs : c ≠ d) :
    Apart c (layout.levelSize k) d (layout.levelSize l) := by
  have member : b ∈ items (i + 1) := by
    rw [shape]
    exact List.mem_cons_self
  have double := levelSize_succ layout i
  rcases wellFormed.mem_split atLevel shape early occurs with
    ⟨rfl, half₁⟩ | ⟨-, old, notSplit⟩
  · rcases wellFormed.mem_split atLevel shape early' occurs' with
      ⟨rfl, half₂⟩ | ⟨-, old', notSplit'⟩
    · unfold Apart
      rcases half₁ with rfl | rfl <;> rcases half₂ with rfl | rfl <;> omega
    · have away :=
        wellFormed.apart (k + 1) l b d atLevel early' member old'
          notSplit'.symm
      unfold Apart at away ⊢
      rcases half₁ with rfl | rfl <;> omega
  · rcases wellFormed.mem_split atLevel shape early' occurs' with
      ⟨rfl, half₂⟩ | ⟨-, old', -⟩
    · have away :=
        wellFormed.apart k (l + 1) c b early atLevel old member notSplit
      unfold Apart at away ⊢
      rcases half₂ with rfl | rfl <;> omega
    · exact wellFormed.apart k l c d early early' old old' differs

/-- The live blocks keep their sizes and stay disjoint from the listed ones. -/
theorem split_live
    (wellFormed : WellFormed layout state items)
    (atLevel : i + 1 < layout.levels)
    (shape : items (i + 1) = b :: rest)
    {c : Nat}
    (isLive : c ∈ state.live) :
    0 < sizeAt (splitHead state i b) c ∧
      ∀ k d,
        k < layout.levels →
        d ∈ splitItems layout items i b rest k →
        Apart d (layout.levelSize k) c (sizeAt (splitHead state i b) c) := by
  have member : b ∈ items (i + 1) := by
    rw [shape]
    exact List.mem_cons_self
  have double := levelSize_succ layout i
  obtain ⟨positive, away⟩ := wellFormed.live c isLive
  have whole := away (i + 1) b atLevel member
  have sameSize : sizeAt (splitHead state i b) c = sizeAt state c :=
    congrArg BlockHeader.blockSize
      (wellFormed.outside_split atLevel member whole positive)
  rw [sameSize]
  refine ⟨positive, ?_⟩
  intro k d early occurs
  rcases wellFormed.mem_split atLevel shape early occurs with
    ⟨rfl, half₁⟩ | ⟨-, old, -⟩
  · unfold Apart at whole ⊢
    rcases half₁ with rfl | rfl <;> omega
  · exact away k d early old

end SplitRound

/-- One round of the split loop. -/
theorem split_head
    (wellFormed : WellFormed layout state items)
    {i b : Nat}
    {rest : List Nat}
    (atLevel : i + 1 < layout.levels)
    (shape : items (i + 1) = b :: rest) :
    WellFormed layout (splitHead state i b)
      (splitItems layout items i b rest) where
  lists _ early := wellFormed.split_lists atLevel shape early
  listed _ _ early occurs :=
    wellFormed.split_listed atLevel shape early occurs
  apart _ _ _ _ early early' occurs occurs' differs :=
    wellFormed.split_apart atLevel shape early early' occurs occurs' differs
  live _ isLive := wellFormed.split_live atLevel shape isLive

end WellFormed

/-- Every state of a clean run between calls is well formed. -/
theorem Partition.wellFormed
    (partition : Partition layout state items []) :
    WellFormed layout state items := by
  refine ⟨fun i _ => partition.lists i, ?_, ?_, ?_⟩
  · intro i b _ occurs
    have isTile : Tile state items [] b := ⟨.level i, occurs⟩
    have size := (partition.listed i b occurs).2
    have aligned := partition.aligned b isTile
    rw [size] at aligned
    exact ⟨size, partition.tiles.lower b isTile, aligned⟩
  · intro i j b c _ _ occurs occurs' differs
    have away :=
      partition.tiles.apart b c ⟨.level i, occurs⟩ ⟨.level j, occurs'⟩ differs
    rwa [(partition.listed i b occurs).2, (partition.listed j c occurs').2]
      at away
  · intro c isLive
    refine ⟨partition.tiles.positive c ⟨.live, isLive⟩, ?_⟩
    intro i b _ occurs
    obtain ⟨isFree, size⟩ := partition.listed i b occurs
    have differs : b ≠ c := by
      rintro rfl
      rw [(partition.allocated b isLive).1] at isFree
      cases isFree
    have away :=
      partition.tiles.apart b c ⟨.level i, occurs⟩ ⟨.live, isLive⟩ differs
    rwa [size] at away

/-- The upper halves of `b` when it is split from level `i` to level `j`. -/
def Piece (layout : BuddyLayout) (b i j m c : Nat) : Prop :=
  j ≤ m ∧ m < i ∧ c = b + layout.levelSize m

/-- Splitting from one level higher adds one half. -/
theorem piece_succ
    {b i j m c : Nat}
    (down : j ≤ i) :
    Piece layout b (i + 1) j m c ↔
      m = i ∧ c = b + layout.levelSize i ∨ Piece layout b i j m c := by
  unfold Piece
  rcases eq_or_ne m i with rfl | differs
  · simp only [true_and, Nat.lt_succ_self, Nat.lt_irrefl, false_and,
      and_false, or_false, down]
  · simp only [differs, false_and, false_or]
    omega

/-- What the split loop does with the first block `b` of list `i`. -/
structure Halved
    (layout : BuddyLayout)
    (length : Int)
    (state : Buddy)
    (items : Nat → List Nat)
    (i b j : Nat)
    (state' : Buddy)
    (items' : Nat → List Nat) : Prop where
  wellFormed : WellFormed layout state' items'
  down : j ≤ i
  head : ∃ rest, items' j = b :: rest
  enough : need length ≤ layout.levelSize j
  strict : j < i → need length < layout.levelSize j
  stops : ∀ k, k + 1 = j → (layout.levelSize k : Int) ≤ need length
  overwritten : ∀ k, j ≤ k → k < i → items k = []
  sameLive : state'.live = state.live
  content :
    ∀ m c,
      m < layout.levels →
      (c ∈ items' m ↔
        c ∈ items m ∧ ¬ (m = i ∧ c = b) ∨
          m = j ∧ c = b ∨
          Piece layout b i j m c)

/-- A split loop that stops at once. -/
theorem WellFormed.unsplit
    (wellFormed : WellFormed layout state items)
    {length : Int}
    {i b : Nat}
    {rest : List Nat}
    (shape : items i = b :: rest)
    (enough : need length ≤ layout.levelSize i)
    (stays : splits layout state length i = false)
    (stops : ∀ k, k + 1 = i → (layout.levelSize k : Int) ≤ need length) :
    ∃ j state' items',
      Buddy.splitLoop layout length i state = some (j, state') ∧
        Halved layout length state items i b j state' items' := by
  refine ⟨i, state, items, ?_, wellFormed, Nat.le_refl i, ⟨rest, shape⟩,
    enough, by omega, stops, by omega, rfl, ?_⟩
  · unfold Buddy.splitLoop
    rw [stays]
    rfl
  · intro m c _
    have noPiece : ¬ Piece layout b i i m c := by
      unfold Piece
      omega
    by_cases isBlock : m = i ∧ c = b
    · obtain ⟨rfl, rfl⟩ := isBlock
      simp [shape]
    · simp [isBlock, noPiece]

/-- A round of the split loop before a halving from the level below. -/
theorem WellFormed.halved_succ
    (wellFormed : WellFormed layout state items)
    {length : Int}
    {i b j : Nat}
    {rest : List Nat}
    {items' : Nat → List Nat}
    (atLevel : i + 1 < layout.levels)
    (shape : items (i + 1) = b :: rest)
    (empty : items i = [])
    (smaller : need length < layout.levelSize i)
    (halved :
      Halved layout length (splitHead state i b)
        (splitItems layout items i b rest) i b j state' items') :
    Halved layout length state items (i + 1) b j state' items' := by
  have member : b ∈ items (i + 1) := by
    rw [shape]
    exact List.mem_cons_self
  have once : b ∉ rest := by
    have list := wellFormed.lists (i + 1) atLevel
    rw [shape] at list
    exact (List.nodup_cons.mp list.nodup).1
  refine ⟨halved.wellFormed, Nat.le_succ_of_le halved.down, halved.head,
    halved.enough, ?_, halved.stops, ?_, halved.sameLive, ?_⟩
  · intro _
    rcases Nat.eq_or_lt_of_le halved.down with rfl | less
    · exact smaller
    · exact halved.strict less
  · intro k above less
    rcases Nat.eq_or_lt_of_le (Nat.le_of_lt_succ less) with rfl | less
    · exact empty
    · have none := halved.overwritten k above less
      unfold splitItems at none
      rwa [Function.update_of_ne (by omega),
        Function.update_of_ne (by omega)] at none
  · intro m c early
    have others : b ∈ items m → m = i + 1 :=
      fun again => wellFormed.level_unique early atLevel again member
    have round := @mem_splitItems layout items i b c m rest shape once others
    rw [halved.content m c early, round, piece_succ halved.down]
    rcases eq_or_ne m i with rfl | differs
    · have positive := levelSize_pos layout m
      have upper :
          (c = b ∨ c = b + layout.levelSize m) ∧ ¬ c = b ↔
            c = b + layout.levelSize m := by
        omega
      simp only [empty, List.not_mem_nil, true_and, ne_eq,
        not_true_eq_false, false_and, or_false, false_or, upper]
      exact or_left_comm
    · have others :
          c ∈ items m ∧ c ≠ b ↔
            c ∈ items m ∧ ¬ (m = i + 1 ∧ c = b) := by
        refine and_congr_right fun occurs => not_congr ?_
        refine ⟨?_, And.right⟩
        rintro rfl
        exact ⟨others occurs, rfl⟩
      simp only [differs, false_and, false_or, ne_eq, not_false_eq_true,
        true_and, and_true]
      exact or_congr_left others

/-- The split loop ends, and it overwrites only empty lists. -/
theorem WellFormed.splitLoop
    (wellFormed : WellFormed layout state items)
    {length : Int}
    {i b : Nat}
    {rest : List Nat}
    (atLevel : i < layout.levels)
    (shape : items i = b :: rest)
    (enough : need length ≤ layout.levelSize i)
    (below :
      ∀ k,
        k < i →
        items k = [] ∨ (layout.levelSize k : Int) < need length) :
    ∃ j state' items',
      Buddy.splitLoop layout length i state = some (j, state') ∧
        Halved layout length state items i b j state' items' := by
  induction i generalizing state items rest with
  | zero =>
      obtain ⟨isHead, size⟩ := wellFormed.head_size atLevel shape
      rw [← isHead] at size
      exact wellFormed.unsplit shape enough (splits_zero length size)
        (by omega)
  | succ i inductionHypothesis =>
      obtain ⟨isHead, size⟩ := wellFormed.head_size atLevel shape
      rw [← isHead] at size
      by_cases continues : splits layout state length (i + 1) = true
      · have smaller := (splits_succ length size).mp continues
        have empty : items i = [] := by
          rcases below i (by omega) with empty | large
          · exact empty
          · omega
        have shape' :
            splitItems layout items i b rest i =
              [b, b + layout.levelSize i] :=
          Function.update_self ..
        have below' :
            ∀ k,
              k < i →
              splitItems layout items i b rest k = [] ∨
                (layout.levelSize k : Int) < need length := by
          intro k less
          unfold splitItems
          rw [Function.update_of_ne (by omega),
            Function.update_of_ne (by omega)]
          exact below k (by omega)
        obtain ⟨j, state', items', looped, halved⟩ :=
          inductionHypothesis (wellFormed.split_head atLevel shape)
            (by omega) shape' (by omega) below'
        refine ⟨j, state', items', ?_,
          wellFormed.halved_succ atLevel shape empty smaller halved⟩
        unfold Buddy.splitLoop
        rw [continues]
        rw [← isHead] at looped
        exact looped
      · refine wellFormed.unsplit shape enough (by simpa using continues) ?_
        intro k isBelow
        have sameLevel : k = i := by omega
        subst sameLevel
        rw [splits_succ length size] at continues
        omega

/-- The last lines of `alloc`: the head of list `j` goes to the user. -/
def handOut (state : Buddy) (j b : Nat) : Buddy :=
  let taken := state.setHead j (state.header b).next
  { taken.setHeader b { taken.header b with free := false } with
    live := b :: state.live }

/-- Handing out the first block of a list. -/
theorem WellFormed.handOut
    (wellFormed : WellFormed layout state items)
    {j b : Nat}
    {rest : List Nat}
    (atLevel : j < layout.levels)
    (shape : items j = b :: rest) :
    WellFormed layout (state.handOut j b) (Function.update items j rest) := by
  obtain ⟨sameSize, sameNext, -, -⟩ :=
    Partition.setFree_fields (state.setHead j (state.header b).next) b false
  have list := wellFormed.lists j atLevel
  rw [shape] at list
  have once : b ∉ rest := (List.nodup_cons.mp list.nodup).1
  have member : b ∈ items j := by
    rw [shape]
    exact List.mem_cons_self
  have old :
      ∀ k c,
        k < layout.levels →
        c ∈ Function.update items j rest k →
        c ∈ items k ∧ c ≠ b := by
    intro k c early occurs
    rcases eq_or_ne k j with rfl | differs
    · rw [Function.update_self] at occurs
      refine ⟨?_, ?_⟩
      · rw [shape]
        exact List.mem_cons_of_mem _ occurs
      · rintro rfl
        exact once occurs
    · rw [Function.update_of_ne differs] at occurs
      refine ⟨occurs, ?_⟩
      rintro rfl
      exact differs (wellFormed.level_unique early atLevel occurs member)
  refine ⟨?_, ?_, ?_, ?_⟩
  · intro k early
    have links :
        ∀ c, nextAt (state.handOut j b) c = nextAt state c := sameNext
    rcases eq_or_ne k j with rfl | differs
    · rw [Function.update_self]
      have isHead : (state.handOut k b).freeList k = nextAt state b :=
        Function.update_self ..
      rw [isHead]
      exact list.2.2.congr fun c _ => links c
    · rw [Function.update_of_ne differs]
      have isHead : (state.handOut j b).freeList k = state.freeList k :=
        Function.update_of_ne differs ..
      rw [isHead]
      exact (wellFormed.lists k early).congr fun c _ => links c
  · intro k c early occurs
    have facts := wellFormed.listed k c early (old k c early occurs).1
    exact ⟨(sameSize c).trans facts.1, facts.2⟩
  · intro k l c d early early' occurs occurs' differs
    exact wellFormed.apart k l c d early early' (old k c early occurs).1
      (old l d early' occurs').1 differs
  · intro c isLive
    have size : sizeAt (state.handOut j b) c = sizeAt state c := sameSize c
    rw [size]
    rcases List.mem_cons.mp isLive with rfl | before
    · have ownSize := (wellFormed.listed j c atLevel member).1
      rw [ownSize]
      refine ⟨levelSize_pos layout j, ?_⟩
      intro k d early occurs
      obtain ⟨listed, differs⟩ := old k d early occurs
      exact wellFormed.apart k j d c early atLevel listed member differs
    · obtain ⟨positive, away⟩ := wellFormed.live c before
      refine ⟨positive, ?_⟩
      intro k d early occurs
      exact away k d early (old k d early occurs).1

/-- The blocks that splitting frees, together with the rest, cover the block. -/
theorem pieces_cover
    {b i j : Nat}
    (down : j ≤ i)
    (x : Nat) :
    b ≤ x ∧ x < b + layout.levelSize i ↔
      b ≤ x ∧ x < b + layout.levelSize j ∨
        ∃ m c,
          Piece layout b i j m c ∧ c ≤ x ∧ x < c + layout.levelSize m := by
  induction i, down using Nat.le_induction with
  | base =>
      have noPiece : ∀ m c, ¬ Piece layout b j j m c := by
        intro m c
        unfold Piece
        omega
      simp [noPiece]
  | succ i down inductionHypothesis =>
      have double := levelSize_succ layout i
      have halves :
          b ≤ x ∧ x < b + layout.levelSize (i + 1) ↔
            b ≤ x ∧ x < b + layout.levelSize i ∨
              b + layout.levelSize i ≤ x ∧
                x < b + layout.levelSize i + layout.levelSize i := by
        omega
      have more :
          (∃ m c,
              Piece layout b (i + 1) j m c ∧
                c ≤ x ∧ x < c + layout.levelSize m) ↔
            b + layout.levelSize i ≤ x ∧
                x < b + layout.levelSize i + layout.levelSize i ∨
              ∃ m c,
                Piece layout b i j m c ∧
                  c ≤ x ∧ x < c + layout.levelSize m := by
        simp only [piece_succ down, or_and_right, exists_or]
        refine or_congr_left ⟨?_, ?_⟩
        · rintro ⟨m, c, ⟨rfl, rfl⟩, within⟩
          exact within
        · intro within
          exact ⟨i, _, ⟨rfl, rfl⟩, within⟩
      rw [halves, inductionHypothesis, more, or_assoc]
      exact or_congr_right or_comm

/-- A request that fits in a level does not overflow an `int`. -/
theorem need_eq
    {length : Int}
    {i : Nat}
    (nonneg : 0 ≤ length)
    (atLevel : i < layout.levels)
    (fits : length + sizeofBlockHeader ≤ layout.levelSize i) :
    need length = length + sizeofBlockHeader := by
  have bits := layout.fitsInt
  have small : layout.levelSize i ≤ 2 ^ 30 := by
    rw [levelSize_eq_pow]
    exact Nat.pow_le_pow_right (by decide) (by omega)
  unfold need int32
  simp only [sizeofBlockHeader] at *
  rw [Int.bmod_def]
  norm_num
  split_ifs <;> omega

/-- Some list holds a block that is large enough for the request. -/
def Available
    (layout : BuddyLayout)
    (items : Nat → List Nat)
    (length : Int) : Prop :=
  ∃ i b,
    i < layout.levels ∧
      b ∈ items i ∧
      length + sizeofBlockHeader ≤ layout.levelSize i

/-- What `alloc` does when some list holds a large enough block. -/
theorem WellFormed.alloc_halves
    (wellFormed : WellFormed layout state items)
    {length : Int}
    (nonneg : 0 ≤ length)
    (available : Available layout items length) :
    need length = length + sizeofBlockHeader ∧
      ∃ i b j middle lists,
        i < layout.levels ∧
          b ∈ items i ∧
          (∀ k,
            k < i →
            items k = [] ∨ (layout.levelSize k : Int) < need length) ∧
          Halved layout length state items i b j middle lists ∧
          Buddy.alloc layout length state =
            some (b + sizeofBlockHeader, middle.handOut j b) := by
  obtain ⟨first, c, early, occurs, fits⟩ := available
  have isNeed := need_eq nonneg early fits
  refine ⟨isNeed, ?_⟩
  rw [← isNeed] at fits
  have nonempty : state.freeList first ≠ 0 := by
    have list := wellFormed.lists first early
    cases shape : items first with
    | nil =>
        rw [shape] at occurs
        cases occurs
    | cons node rest =>
        rw [shape] at list
        exact list.2.1
  obtain ⟨i, found⟩ :=
    findLevel_ok (Nat.zero_le first) (by omega : first < 0 + layout.levels)
      nonempty fits
  obtain ⟨-, atLevel, someHead, enough, skipped⟩ := findLevel_spec found
  rw [Nat.zero_add] at atLevel
  have below :
      ∀ k,
        k < i →
        items k = [] ∨ (layout.levelSize k : Int) < need length := by
    intro k less
    rcases skipped k (Nat.zero_le k) less with empty | small
    · left
      have list := wellFormed.lists k (by omega)
      cases shape : items k with
      | nil => rfl
      | cons node rest =>
          rw [shape] at list
          exact absurd empty list.2.1
    · exact .inr small
  have list := wellFormed.lists i atLevel
  cases shape : items i with
  | nil =>
      rw [shape] at list
      exact absurd list someHead
  | cons b rest =>
      obtain ⟨j, middle, lists, looped, halved⟩ :=
        wellFormed.splitLoop atLevel shape enough below
      refine ⟨i, b, j, middle, lists, atLevel, ?_, below, halved, ?_⟩
      · rw [shape]
        exact List.mem_cons_self
      · have lower : j < layout.levels :=
          Nat.lt_of_le_of_lt halved.down atLevel
        obtain ⟨rest', shape'⟩ := halved.head
        have isHead := (halved.wellFormed.head_size lower shape').1
        have removed :
            remove layout middle j b =
              some (middle.setHead j (middle.header b).next) := by
          unfold remove
          rw [if_pos isHead]
        unfold Buddy.alloc
        simp only [bind, Option.bind_some, found, looped, isHead, removed]
        rfl

/--
`alloc` takes the block `b` of level `i`, hands out its first bytes as a block
of level `j` and puts the other pieces of `b` into the free lists.
-/
structure Serves
    (layout : BuddyLayout)
    (length : Int)
    (state : Buddy)
    (items : Nat → List Nat)
    (i b j : Nat)
    (state' : Buddy)
    (items' : Nat → List Nat) : Prop where
  atLevel : i < layout.levels
  member : b ∈ items i
  size : sizeAt state' b = layout.levelSize j
  enough : length + sizeofBlockHeader ≤ layout.levelSize j
  live : state'.live = b :: state.live
  /-- Only empty lists are overwritten. -/
  overwritten : ∀ k, j ≤ k → k < i → items k = []
  /-- The returned block and the pieces are the bytes of `b`. -/
  cover :
    ∀ x,
      b ≤ x ∧ x < b + layout.levelSize i ↔
        b ≤ x ∧ x < b + layout.levelSize j ∨
          ∃ m c,
            Piece layout b i j m c ∧ c ≤ x ∧ x < c + layout.levelSize m
  content :
    ∀ m c,
      m < layout.levels →
      (c ∈ items' m ↔
        c ∈ items m ∧ ¬ (m = i ∧ c = b) ∨ Piece layout b i j m c)
  wellFormed : WellFormed layout state' items'

/--
From every well-formed state, a request that some list can serve is served
without expansion, and the free blocks are the old ones with one block replaced
by its pieces other than the returned one.
-/
theorem alloc_conserves
    (wellFormed : WellFormed layout state items)
    {length : Int}
    (nonneg : 0 ≤ length)
    (available : Available layout items length) :
    ∃ i b j state' items',
      Buddy.alloc layout length state =
          some (b + sizeofBlockHeader, state') ∧
        Serves layout length state items i b j state' items' := by
  obtain ⟨isNeed, i, b, j, middle, lists, atLevel, member, -, halved,
    allocated⟩ := wellFormed.alloc_halves nonneg available
  have lower : j < layout.levels := Nat.lt_of_le_of_lt halved.down atLevel
  obtain ⟨rest, shape⟩ := halved.head
  have list := halved.wellFormed.lists j lower
  rw [shape] at list
  have once : b ∉ rest := (List.nodup_cons.mp list.nodup).1
  have own := halved.wellFormed.head_size lower shape
  have sameSize :=
    (Partition.setFree_fields (middle.setHead j (middle.header b).next) b
      false).1 b
  refine ⟨i, b, j, middle.handOut j b, Function.update lists j rest,
    allocated, atLevel, member, sameSize.trans own.2, ?_, ?_,
    halved.overwritten, pieces_cover halved.down, ?_,
    halved.wellFormed.handOut lower shape⟩
  · rw [← isNeed]
    exact halved.enough
  · exact congrArg _ halved.sameLive
  · intro m c early
    have inside := halved.content m c early
    rcases eq_or_ne m j with rfl | differs
    · have others :
          c ∈ items m ∧ ¬ (m = i ∧ c = b) ∨ Piece layout b i m m c →
            c ≠ b := by
        rintro (⟨occurs, notTaken⟩ | ⟨-, -, isPiece⟩) rfl
        · exact notTaken
            ⟨wellFormed.level_unique early atLevel occurs member, rfl⟩
        · have positive := levelSize_pos layout m
          omega
      rw [shape, List.mem_cons] at inside
      rw [Function.update_self]
      constructor
      · intro occurs
        rcases inside.mp (.inr occurs) with old | ⟨-, rfl⟩ | isPiece
        · exact .inl old
        · exact absurd occurs once
        · exact .inr isPiece
      · intro source
        have listed := inside.mpr (source.imp_right .inr)
        exact listed.resolve_left (others source)
    · rw [Function.update_of_ne differs, inside]
      simp only [differs, false_and, false_or]

/-- A new arena of one gigabyte. -/
def gigabyteArena : Buddy :=
  create (Large.layoutAt (2 ^ 40)) fun _ =>
    { free := false, blockSize := 0, next := 0 }

/-- Its free lists: one maximal block. -/
def gigabyteItems : Nat → List Nat :=
  setItems (fun _ => []) 13 (maximalBlocks (Large.layoutAt (2 ^ 40)) 1)

theorem gigabyteArena_wellFormed :
    WellFormed (Large.layoutAt (2 ^ 40)) gigabyteArena gigabyteItems :=
  (create_partition (Large.layoutAt (2 ^ 40)) _).wellFormed

theorem gigabyteArena_available
    {length : Int}
    (fits : length + sizeofBlockHeader ≤ 2 ^ 30) :
    Available (Large.layoutAt (2 ^ 40)) gigabyteItems length :=
  ⟨13, 2 ^ 40 + pageSize, by decide, by decide, fits⟩

/-- A request for 100000 bytes in a new arena. -/
theorem alloc_conserves_100000 :
    ∃ i b j state' items',
      Buddy.alloc (Large.layoutAt (2 ^ 40)) 100000 gigabyteArena =
          some (b + sizeofBlockHeader, state') ∧
        Serves (Large.layoutAt (2 ^ 40)) 100000 gigabyteArena gigabyteItems
          i b j state' items' :=
  alloc_conserves gigabyteArena_wellFormed (by decide)
    (gigabyteArena_available (by decide))

/-- Higher levels have larger blocks. -/
theorem levelSize_mono
    {i j : Nat}
    (higher : i ≤ j) :
    layout.levelSize i ≤ layout.levelSize j :=
  Nat.mul_le_mul_right _ (Nat.pow_le_pow_right (by decide) higher)

/-- The returned block has the least size of a level that fits. -/
def BestFit
    (layout : BuddyLayout)
    (length : Int)
    (a : Nat)
    (state' : Buddy) : Prop :=
  ∃ k,
    sizeAt state' (a - sizeofBlockHeader) = layout.levelSize k ∧
      length + sizeofBlockHeader ≤ layout.levelSize k ∧
      ∀ m,
        length + sizeofBlockHeader ≤ layout.levelSize m →
        layout.levelSize k ≤ layout.levelSize m

/--
`alloc` is best fit exactly when the request with its header is not the size of
a level whose list is empty.
-/
theorem bestFit_iff_no_exact_gap
    (wellFormed : WellFormed layout state items)
    {length : Int}
    (nonneg : 0 ≤ length)
    (available : Available layout items length) :
    ∃ a state',
      Buddy.alloc layout length state = some (a, state') ∧
        (BestFit layout length a state' ↔
          ∀ k,
            length + sizeofBlockHeader = layout.levelSize k →
            items k ≠ []) := by
  obtain ⟨isNeed, i, b, j, middle, lists, atLevel, member, skipped, halved,
    allocated⟩ := wellFormed.alloc_halves nonneg available
  refine ⟨_, _, allocated, ?_⟩
  have lower : j < layout.levels := Nat.lt_of_le_of_lt halved.down atLevel
  obtain ⟨rest, shape⟩ := halved.head
  have size :
      sizeAt (middle.handOut j b)
          (b + sizeofBlockHeader - sizeofBlockHeader) =
        layout.levelSize j := by
    rw [Nat.add_sub_cancel]
    have own := halved.wellFormed.head_size lower shape
    have sameSize :=
      (Partition.setFree_fields (middle.setHead j (middle.header b).next) b
        false).1 b
    exact sameSize.trans own.2
  have enough := halved.enough
  unfold BestFit
  rw [size, ← isNeed]
  constructor
  · rintro ⟨_, same, -, least⟩ k exactly
    have smallest := least k (by omega)
    have isLevel : j = k := by
      refine @levelSize_injective layout j k ?_
      omega
    rcases Nat.eq_or_lt_of_le halved.down with rfl | less
    · rw [← isLevel]
      exact List.ne_nil_of_mem member
    · have strict := halved.strict less
      rw [isLevel] at strict
      omega
  · intro noGap
    refine ⟨j, rfl, enough, ?_⟩
    intro m fits
    by_contra smaller
    have below : m < j := by
      by_contra above
      exact smaller (levelSize_mono (Nat.le_of_not_lt above))
    obtain ⟨k, rfl⟩ : ∃ k, j = k + 1 := ⟨j - 1, by omega⟩
    have stops := halved.stops k rfl
    have between := @levelSize_mono layout m k (by omega)
    have exactly : need length = layout.levelSize m := by
      omega
    have down := halved.down
    rcases skipped m (by omega) with empty | small
    · exact noGap m exactly empty
    · omega

/-- A request for 100000 bytes gets the least block that fits. -/
theorem bestFit_iff_no_exact_gap_100000 :
    ∃ a state',
      Buddy.alloc (Large.layoutAt (2 ^ 40)) 100000 gigabyteArena =
          some (a, state') ∧
        BestFit (Large.layoutAt (2 ^ 40)) 100000 a state' := by
  obtain ⟨a, state', allocated, fits⟩ :=
    bestFit_iff_no_exact_gap gigabyteArena_wellFormed
      (by decide : (0 : Int) ≤ 100000) (gigabyteArena_available (by decide))
  refine ⟨a, state', allocated, fits.mpr ?_⟩
  intro k exactly
  have basic : (Large.layoutAt (2 ^ 40)).levelSize 0 = 131072 := by
    decide
  have atLeast := @levelSize_mono (Large.layoutAt (2 ^ 40)) 0 k (Nat.zero_le k)
  simp only [sizeofBlockHeader] at exactly
  omega

/-- Half a gigabyte with its header gets the whole gigabyte. -/
theorem half_gigabyte_wastes_half :
    WellFormed (Large.layoutAt (2 ^ 40)) gigabyteArena gigabyteItems ∧
      Available (Large.layoutAt (2 ^ 40)) gigabyteItems (2 ^ 29 - 16) ∧
      ∃ a state',
        Buddy.alloc (Large.layoutAt (2 ^ 40)) (2 ^ 29 - 16) gigabyteArena =
            some (a, state') ∧
          ¬ BestFit (Large.layoutAt (2 ^ 40)) (2 ^ 29 - 16) a state' := by
  refine ⟨gigabyteArena_wellFormed, gigabyteArena_available (by decide), ?_⟩
  have executed :
      (Buddy.alloc (Large.layoutAt (2 ^ 40)) (2 ^ 29 - 16) gigabyteArena).map
          (fun result =>
            sizeAt result.2 (result.1 - sizeofBlockHeader)) =
        some (2 ^ 30) := by
    decide +kernel
  obtain ⟨⟨a, state'⟩, allocated, size⟩ := Option.map_eq_some_iff.mp executed
  refine ⟨a, state', allocated, ?_⟩
  rintro ⟨k, same, -, least⟩
  have smaller := least 12 (by decide)
  rw [← same, size] at smaller
  revert smaller
  decide

end Buddy

end Bxalloc
