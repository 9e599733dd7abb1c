import Bxalloc.BuddyAlloc

namespace Bxalloc

/-!
# Free space is coalesced

`free` merges a block with its buddy as long as the buddy is free, and `alloc`
puts only halves into the lists whose other half it hands out or splits.  So in
a clean run no list below the last one ever holds both halves of a block between
two calls.  From this it follows that the free lists are as coarse as the live
blocks allow: every aligned block without a live byte lies inside one free
block, and a request is refused only if no such block is large enough.
-/

open Lib

namespace Buddy

variable {layout : BuddyLayout} {state state' : Buddy}
variable {items items' : Nat → List Nat}

/-- Both halves of an aligned block of level `i + 1` are in list `i`. -/
structure Halves
    (layout : BuddyLayout)
    (items : Nat → List Nat)
    (i c : Nat) : Prop where
  above : i + 1 < layout.levels
  lower : layout.start ≤ c
  aligned : layout.levelSize (i + 1) ∣ c - layout.start
  left : c ∈ items i
  right : c + layout.levelSize i ∈ items i

/-- No list below the last one holds both halves of a block. -/
def Coalesced (layout : BuddyLayout) (items : Nat → List Nat) : Prop :=
  ∀ i c, ¬ Halves layout items i c

/-- The same but for `b`, whose buddy in list `i` the merge loop looks at. -/
def CoalescedBut
    (layout : BuddyLayout)
    (items : Nat → List Nat)
    (i b : Nat) : Prop :=
  ∀ k c,
    Halves layout items k c →
    k = i ∧ (c = b ∨ c + layout.levelSize k = b)

/-- What `alloc` leaves in the lists: old blocks and pieces of one block. -/
theorem Coalesced.alloc
    {i j b : Nat}
    (coalesced : Coalesced layout items)
    (inside : layout.start ≤ b)
    (aligned : layout.levelSize i ∣ b - layout.start)
    (sources :
      ∀ m c,
        c ∈ items' m →
        (c ∈ items m ∧ c ≠ b) ∨ Piece layout b i j m c) :
    Coalesced layout items' := by
  rintro m c ⟨above, lower, parent, left, right⟩
  rcases sources m c left with ⟨oldLeft, notTaken⟩ | ⟨-, below, rfl⟩
  · rcases sources m _ right with ⟨oldRight, -⟩ | ⟨-, -, shape⟩
    · exact coalesced m c ⟨above, lower, parent, oldLeft, oldRight⟩
    · exact notTaken (by omega)
  -- A piece is no left half, since the block is aligned to twice its size.
  · have positive := levelSize_pos layout m
    have wide : layout.levelSize (m + 1) ∣ b - layout.start := by
      refine Nat.dvd_trans ?_ aligned
      rw [levelSize_eq_pow, levelSize_eq_pow]
      exact Nat.pow_dvd_pow 2 (by omega)
    rw [Nat.sub_add_comm inside] at parent
    have divides := (Nat.dvd_add_right wide).mp parent
    have small := Nat.le_of_dvd positive divides
    rw [levelSize_succ] at small
    omega

/-- The lists behind `alloc` hold old blocks and pieces of one old block. -/
theorem Partition.alloc_sources
    {length : Int}
    {a : Nat}
    (partition : Partition layout state items [])
    (returned : Buddy.alloc layout length state = some (a, state'))
    (partition' : Partition layout state' items' []) :
    ∃ i b j,
      b ∈ items i ∧
        ∀ m c,
          c ∈ items' m →
          (c ∈ items m ∧ c ≠ b) ∨ Piece layout b i j m c := by
  have wellFormed := partition.wellFormed
  unfold Buddy.alloc at returned
  simp only [bind, Option.bind_eq_some_iff] at returned
  obtain ⟨i, found, ⟨j, middle⟩, looped, removed, taken, finished⟩ := returned
  obtain ⟨-, atLevel, nonempty, enough, skipped⟩ := findLevel_spec found
  rw [Nat.zero_add] at atLevel
  obtain ⟨rest, shape⟩ := partition.head_listed nonempty
  obtain ⟨j', middle', lists, looped', halved⟩ :=
    wellFormed.splitLoop atLevel shape enough
      (fun k less =>
        (skipped k (Nat.zero_le k) less).imp_left partition.empty_of_null)
  obtain ⟨rfl, rfl⟩ := Prod.mk.inj (Option.some.inj (looped'.symm.trans looped))
  have lower : j' < layout.levels := Nat.lt_of_le_of_lt halved.down atLevel
  obtain ⟨rest', shape'⟩ := halved.head
  have isHead := (halved.wellFormed.head_size lower shape').1
  unfold remove at taken
  rw [if_pos rfl] at taken
  obtain rfl := Option.some.inj taken
  obtain ⟨-, rfl⟩ := Prod.mk.inj (Option.some.inj finished)
  have handed := halved.wellFormed.handOut lower shape'
  have handedOut :
      Partition layout (middle'.handOut j' (state.freeList i)) items' [] := by
    rw [isHead] at partition'
    exact partition'
  have list := halved.wellFormed.lists j' lower
  rw [shape'] at list
  have once : state.freeList i ∉ rest' := (List.nodup_cons.mp list.nodup).1
  have member : state.freeList i ∈ items i := by
    rw [shape]
    exact List.mem_cons_self
  refine ⟨i, state.freeList i, j', member, ?_⟩
  intro m c occurs
  have early := handedOut.level_lt occurs
  rw [(handedOut.lists m).unique (handed.lists m early)] at occurs
  have inside : c ∈ lists m ∧ (m = j' → c ≠ state.freeList i) := by
    rcases eq_or_ne m j' with rfl | differs
    · rw [Function.update_self] at occurs
      refine ⟨?_, ?_⟩
      · rw [shape']
        exact List.mem_cons_of_mem _ occurs
      · rintro - rfl
        exact once occurs
    · rw [Function.update_of_ne differs] at occurs
      exact ⟨occurs, fun same => absurd same differs⟩
  rcases (halved.content m c early).mp inside.1 with
    ⟨old, notTaken⟩ | ⟨same, isBlock⟩ | isPiece
  · refine Or.inl ⟨old, ?_⟩
    rintro rfl
    exact notTaken ⟨wellFormed.level_unique early atLevel old member, rfl⟩
  · exact absurd isBlock (inside.2 same)
  · exact Or.inr isPiece

/-- Between two blocks listed at one level, one right of the other. -/
theorem Halves.right_eq
    {i c : Nat}
    (halves : Halves layout items i c) :
    layout.start + otherHalf (layout.levelSize i) (c - layout.start) =
        c + layout.levelSize i ∧
      layout.start +
          otherHalf (layout.levelSize i)
            (c + layout.levelSize i - layout.start) =
        c := by
  have positive := levelSize_pos layout i
  have lower := halves.lower
  have aligned := halves.aligned
  rw [levelSize_succ] at aligned
  rw [Nat.sub_add_comm lower, otherHalf_left positive aligned,
    otherHalf_right positive aligned]
  omega

/-- A listed block whose buddy is not listed beside it ends the merging. -/
theorem CoalescedBut.coalesced
    {hand : List Nat}
    {i b : Nat}
    (but : CoalescedBut layout items i b)
    (partition : Partition layout state items hand)
    (member : b ∈ items i)
    (buddyNot : state.getbuddy layout b ∉ items i) :
    Coalesced layout items := by
  intro k c halves
  have isBuddy := partition.getbuddy_eq ⟨.level i, member⟩
  rw [(partition.listed i b member).2] at isBuddy
  obtain ⟨rfl, isLeft | isRight⟩ := but k c halves
  · rw [isBuddy, ← isLeft, halves.right_eq.1] at buddyNot
    exact buddyNot halves.right
  · rw [isBuddy, ← isRight, halves.right_eq.2] at buddyNot
    exact buddyNot halves.left

/-- Taking a pair out of the lists leaves no other block in them. -/
theorem MergeSteps.listed_before
    {i b u k c : Nat}
    {first second : Buddy}
    {items1 items2 : Nat → List Nat}
    (steps : MergeSteps layout i b state first second u items1 items2)
    (ready :
      Partition layout state items [b] ∨
        (Partition layout state items [] ∧ b ∈ items i))
    (occurs : c ∈ items2 k) :
    c ∈ items k := by
  obtain ⟨isFree, size⟩ := steps.pair.listed k c occurs
  have same :
      (second.header c).free = (state.header c).free ∧
        sizeAt second c = sizeAt state c :=
    ⟨(steps.same2 c).1.trans (steps.same1 c).1,
      (steps.same2 c).2.trans (steps.same1 c).2⟩
  rw [same.1] at isFree
  rw [same.2] at size
  have isTile : Tile second items2 [b, u] c := ⟨.level k, occurs⟩
  have notHeld : c ≠ b := by
    rintro rfl
    exact steps.pair.not_listed_of_held List.mem_cons_self k occurs
  rcases ready with partition | ⟨partition, -⟩
  · refine partition.listed_of_free ?_ ?_ isFree size
    · refine (partition.tiles.unique steps.pair.tiles ?_ c).mp isTile
      intro t _
      exact (steps.same2 t).2.trans (steps.same1 t).2
    · simpa using notHeld
  · refine partition.listed_of_free ?_ List.not_mem_nil isFree size
    refine (partition.tiles.unique steps.pair.tiles ?_ c).mp isTile
    intro t _
    exact (steps.same2 t).2.trans (steps.same1 t).2

/-- A merge passes the exception on to the merged block. -/
theorem MergeSteps.coalescedBut
    {i b u : Nat}
    {first second : Buddy}
    {items1 items2 : Nat → List Nat}
    (steps : MergeSteps layout i b state first second u items1 items2)
    (ready :
      Partition layout state items [b] ∨
        (Partition layout state items [] ∧ b ∈ items i))
    (but : CoalescedBut layout items i b) :
    ∃ items',
      Partition layout ((second.merge b u).2.insert (i + 1) (min b u)) items'
          [] ∧
        min b u ∈ items' (i + 1) ∧
        CoalescedBut layout items' (i + 1) (min b u) := by
  obtain ⟨merged, size, -⟩ := steps.merged
  have inserted := merged.insert_held size
  have before : ∀ k c, c ∈ items2 k → c ∈ items k :=
    fun _ _ => steps.listed_before ready
  have notHeld : ∀ k, b ∉ items2 k :=
    steps.pair.not_listed_of_held List.mem_cons_self
  refine ⟨_, inserted, ?_, ?_⟩
  · rw [setItems, Function.update_self]
    exact List.mem_cons_self
  · rintro k c ⟨above, lower, aligned, left, right⟩
    rcases eq_or_ne k (i + 1) with rfl | differs
    · rw [setItems, Function.update_self, List.mem_cons] at left right
      refine ⟨rfl, ?_⟩
      rcases left with isLeft | oldLeft
      · exact Or.inl isLeft
      · rcases right with isRight | oldRight
        · exact Or.inr isRight
        · have old :=
            but (i + 1) c
              ⟨above, lower, aligned, before _ _ oldLeft, before _ _ oldRight⟩
          omega
    · rw [setItems, Function.update_of_ne differs] at left right
      obtain ⟨rfl, isLeft | isRight⟩ :=
        but k c ⟨above, lower, aligned, before _ _ left, before _ _ right⟩
      · rw [isLeft] at left
        exact absurd left (notHeld k)
      · rw [isRight] at right
        exact absurd right (notHeld k)

/-- The merge loop ends with coalesced lists. -/
theorem MergeChain.coalesced
    {more i b : Nat}
    (chain : MergeChain layout more i b state state')
    (top : i + more = layout.levels - 1)
    (partition : Partition layout state items [])
    (member : b ∈ items i)
    (but : CoalescedBut layout items i b) :
    ∃ items',
      Partition layout state' items' [] ∧ Coalesced layout items' := by
  induction chain generalizing items with
  | stop stopped =>
      refine ⟨items, partition, ?_⟩
      rcases stopped with rfl | notFree
      · intro k c halves
        obtain ⟨rfl, -⟩ := but k c halves
        have above := halves.above
        omega
      · refine but.coalesced partition member ?_
        intro listed
        rw [(partition.listed _ _ listed).1] at notFree
        cases notFree
  | round _ steps _ inductionHypothesis =>
      obtain ⟨items', partition', member', but'⟩ :=
        steps.coalescedBut (Or.inr ⟨partition, member⟩) but
      exact inductionHypothesis (by omega) partition' member' but'

/-- No block is its own buddy. -/
theorem Partition.getbuddy_ne
    {hand : List Nat}
    (partition : Partition layout state items hand)
    {b : Nat}
    (isTile : Tile state items hand b) :
    state.getbuddy layout b ≠ b := by
  have lower := partition.tiles.lower b isTile
  have positive := partition.tiles.positive b isTile
  obtain ⟨-, distinct, -⟩ :=
    otherHalf_pair positive (partition.aligned b isTile)
  rw [partition.getbuddy_eq isTile]
  omega

/-- Only a pair with the new block can appear. -/
theorem Coalesced.insert
    (coalesced : Coalesced layout items)
    (i b : Nat) :
    CoalescedBut layout (setItems items i (b :: items i)) i b := by
  rintro k c ⟨above, lower, aligned, left, right⟩
  rcases eq_or_ne k i with rfl | differs
  · rw [setItems, Function.update_self, List.mem_cons] at left right
    refine ⟨rfl, ?_⟩
    rcases left with isLeft | oldLeft
    · exact Or.inl isLeft
    · rcases right with isRight | oldRight
      · exact Or.inr isRight
      · exact absurd ⟨above, lower, aligned, oldLeft, oldRight⟩
          (coalesced k c)
  · rw [setItems, Function.update_of_ne differs] at left right
    exact absurd ⟨above, lower, aligned, left, right⟩ (coalesced k c)

/-- A clean `free` leaves coalesced lists. -/
theorem Partition.free_coalesced
    (partition : Partition layout state items [])
    {b : Nat}
    (isLive : b ∈ state.live)
    (clean : CleanFree layout state b)
    (returned :
      Buddy.free layout (b + sizeofBlockHeader) state = some state')
    (coalesced : Coalesced layout items) :
    ∃ items',
      Partition layout state' items' [] ∧ Coalesced layout items' := by
  have taken := partition.take_live isLive
  obtain ⟨i, final, atLevel, size, freed, steps⟩ :=
    partition.free_steps isLive clean
  obtain rfl := Option.some.inj (freed.symm.trans returned)
  have but : CoalescedBut layout items i b :=
    fun k c halves => absurd halves (coalesced k c)
  cases steps with
  | @merge _ more levels buddyFree sameSize chain =>
      cases chain with
      | stop stopped =>
          rcases stopped with none | notFree
          · cases none
          · rw [buddyFree] at notFree
            cases notFree
      | round _ steps rest =>
          obtain ⟨items', partition', member, but'⟩ :=
            steps.coalescedBut (Or.inl taken) but
          exact rest.coalesced (by omega) partition' member but'
  | insert unmerged =>
      have inserted := taken.insert_held size
      have member : b ∈ setItems items i (b :: items i) i := by
        rw [setItems, Function.update_self]
        exact List.mem_cons_self
      have sameBuddy :
          ((state.markFree b).insert i b).getbuddy layout b =
            (state.markFree b).getbuddy layout b := by
        have sameSize :
            (((state.markFree b).insert i b).header b).blockSize =
              ((state.markFree b).header b).blockSize :=
          (sameBlocks_next (state.markFree b).header b
            ((state.markFree b).freeList i) b).2
        unfold getbuddy
        rw [sameSize]
      refine ⟨_, inserted, (coalesced.insert i b).coalesced inserted member ?_⟩
      rw [sameBuddy, setItems, Function.update_self, List.mem_cons]
      rintro (itself | listed)
      · exact taken.getbuddy_ne ⟨.hand, List.mem_cons_self⟩ itself
      · obtain ⟨isFree, buddySize⟩ := taken.listed i _ listed
        exact unmerged ⟨isFree, size.trans buddySize.symm⟩

/-- A clean step keeps the lists coalesced. -/
theorem CleanStep.coalesced
    {call : Call}
    (step : CleanStep layout state call state')
    (partition : Partition layout state items [])
    (coalesced : Coalesced layout items) :
    ∃ items',
      Partition layout state' items' [] ∧ Coalesced layout items' := by
  obtain ⟨step, clean⟩ := step
  cases step with
  | alloc returned =>
      obtain ⟨-, items', -, partition', -⟩ := partition.alloc returned
      obtain ⟨i, b, j, member, sources⟩ :=
        partition.alloc_sources returned partition'
      have isTile : Tile state items [] b := ⟨.level i, member⟩
      have aligned := partition.aligned b isTile
      rw [(partition.listed i b member).2] at aligned
      exact ⟨items', partition',
        coalesced.alloc (partition.tiles.lower b isTile) aligned sources⟩
  | free isLive returned =>
      exact
        partition.free_coalesced isLive (clean _ rfl) returned coalesced
  | store inBlocks => exact ⟨items, partition.store inBlocks, coalesced⟩

/-- In every clean run the lists are coalesced between two calls. -/
theorem coalesced_of_reaches
    (reached : Reaches (Initial layout) (CleanStep layout) state) :
    ∃ items, Partition layout state items [] ∧ Coalesced layout items := by
  refine @Reaches.invariant _ _ _ _
    (fun state =>
      ∃ items, Partition layout state items [] ∧ Coalesced layout items)
    ?_ ?_ _ reached
  · rintro first ⟨header, rfl⟩
    refine ⟨_, create_partition layout header, ?_⟩
    rintro i c ⟨above, -, -, left, -⟩
    rw [setItems, Function.update_of_ne (by omega)] at left
    cases left
  · rintro before call after ⟨items, partition, coalesced⟩ step
    exact step.coalesced partition coalesced

/-- An aligned block of level `i` that holds no byte of a live block. -/
structure Unused
    (layout : BuddyLayout)
    (state : Buddy)
    (i c : Nat) : Prop where
  lower : layout.start ≤ c
  upper : c + layout.levelSize i ≤ layout.finish
  aligned : layout.levelSize i ∣ c - layout.start
  apart :
    ∀ b,
      b ∈ state.live →
      Apart b (sizeAt state b) c (layout.levelSize i)

/-- The block lies inside a listed one. -/
def InListed
    (layout : BuddyLayout)
    (items : Nat → List Nat)
    (i c : Nat) : Prop :=
  ∃ k d,
    i ≤ k ∧
      d ∈ items k ∧
      d ≤ c ∧
      c + layout.levelSize i ≤ d + layout.levelSize k

/-- Two aligned places: one starts before the end of the other's block. -/
theorem end_le_of_aligned
    {i k c d : Nat}
    (down : i ≤ k)
    (lower : layout.start ≤ d)
    (aligned : layout.levelSize i ∣ c - layout.start)
    (aligned' : layout.levelSize k ∣ d - layout.start)
    (starts : d ≤ c)
    (inside : c < d + layout.levelSize k) :
    c + layout.levelSize i ≤ d + layout.levelSize k := by
  have divides : layout.levelSize i ∣ layout.levelSize k := by
    rw [levelSize_eq_pow, levelSize_eq_pow]
    exact Nat.pow_dvd_pow 2 (by omega)
  have last :
      layout.levelSize i ∣ d - layout.start + layout.levelSize k :=
    Nat.dvd_add (Nat.dvd_trans divides aligned') divides
  have ends := add_le_of_dvd aligned last (by omega)
  omega

/-- Where lists are coalesced, unused space lies inside listed blocks. -/
theorem Coalesced.inListed
    (coalesced : Coalesced layout items)
    (partition : Partition layout state items [])
    {i c : Nat}
    (atLevel : i < layout.levels)
    (unused : Unused layout state i c) :
    InListed layout items i c := by
  induction i generalizing c with
  | zero =>
      have positive := levelSize_pos layout 0
      obtain ⟨lower, upper, aligned, apart⟩ := unused
      obtain ⟨t, isTile, below, above⟩ :=
        partition.tiles.covers c lower (by omega)
      obtain ⟨place, occurs⟩ := isTile
      cases place with
      | level k =>
          have size := (partition.listed k t occurs).2
          have isAligned := partition.aligned t ⟨.level k, occurs⟩
          rw [size] at above isAligned
          exact ⟨k, t, Nat.zero_le k, occurs, below,
            end_le_of_aligned (Nat.zero_le k)
              (partition.tiles.lower t ⟨.level k, occurs⟩) aligned isAligned
              below above⟩
      | live =>
          have away := apart t occurs
          unfold Apart at away
          omega
      | hand => cases occurs
  | succ i inductionHypothesis =>
      have positive := levelSize_pos layout i
      obtain ⟨lower, upper, aligned, apart⟩ := unused
      have double := levelSize_succ layout i
      have halfAligned : layout.levelSize i ∣ c - layout.start := by
        refine Nat.dvd_trans ?_ aligned
        rw [double]
        exact Nat.dvd_mul_left _ _
      have leftUnused : Unused layout state i c := by
        refine ⟨lower, by omega, halfAligned, ?_⟩
        intro b isLive
        have away := apart b isLive
        unfold Apart at away ⊢
        omega
      have rightUnused :
          Unused layout state i (c + layout.levelSize i) := by
        refine ⟨by omega, by omega, ?_, ?_⟩
        · rw [Nat.sub_add_comm lower]
          exact Nat.dvd_add halfAligned (Nat.dvd_refl _)
        · intro b isLive
          have away := apart b isLive
          unfold Apart at away ⊢
          omega
      obtain ⟨k, d, down, occurs, starts, ends⟩ :=
        inductionHypothesis (by omega) leftUnused
      obtain ⟨k', d', down', occurs', starts', ends'⟩ :=
        inductionHypothesis (by omega) rightUnused
      have isTile : Tile state items [] d := ⟨.level k, occurs⟩
      have isTile' : Tile state items [] d' := ⟨.level k', occurs'⟩
      have isAligned := partition.aligned d isTile
      have isAligned' := partition.aligned d' isTile'
      have lower' := partition.tiles.lower d' isTile'
      rw [(partition.listed k d occurs).2] at isAligned
      rw [(partition.listed k' d' occurs').2] at isAligned'
      rcases Nat.eq_or_lt_of_le down with rfl | larger
      · obtain rfl : d = c := by omega
        rcases Nat.eq_or_lt_of_le down' with rfl | larger'
        -- Both halves are listed: the lists would not be coalesced.
        · obtain rfl : d' = d + layout.levelSize i := by omega
          exact absurd ⟨atLevel, lower, aligned, occurs, occurs'⟩
            (coalesced i d)
        -- The right half's block reaches back over the left half.
        · have reaches : d' ≤ d := by
            by_contra behind
            have divides :
                layout.levelSize (i + 1) ∣ d' - layout.start := by
              refine Nat.dvd_trans ?_ isAligned'
              rw [levelSize_eq_pow, levelSize_eq_pow]
              exact Nat.pow_dvd_pow 2 (by omega)
            have later := add_le_of_dvd aligned divides (by omega)
            omega
          have same : d = d' := by
            by_contra distinct
            have beside := partition.tiles.apart d d' isTile isTile' distinct
            rw [(partition.listed i d occurs).2,
              (partition.listed k' d' occurs').2] at beside
            omega
          rw [← same] at occurs'
          have clash := (partition.listed i d occurs).2.symm.trans
            (partition.listed k' d occurs').2
          have level := levelSize_injective clash
          omega
      · exact ⟨k, d, larger, occurs, starts,
          end_le_of_aligned larger (partition.tiles.lower d isTile) aligned
            isAligned starts (by omega)⟩

/--
In every state of every clean run: every aligned block without a live byte lies
inside one block of a free list; so a request is served without an expansion
exactly when some aligned block without a live byte is large enough for it.
-/
theorem free_space_coalesced
    (reached : Reaches (Initial layout) (CleanStep layout) state) :
    (∃ items,
      Partition layout state items [] ∧
        ∀ i c,
          i < layout.levels →
          Unused layout state i c →
          InListed layout items i c) ∧
      ∀ length : Int,
        0 ≤ length →
        length + sizeofBlockHeader < 2 ^ 31 →
        ((∃ a state', Buddy.alloc layout length state = some (a, state')) ↔
          ∃ i c,
            i < layout.levels ∧
              length + sizeofBlockHeader ≤ layout.levelSize i ∧
              Unused layout state i c) := by
  obtain ⟨items, partition, coalesced⟩ := coalesced_of_reaches reached
  refine ⟨⟨items, partition, fun i c atLevel unused =>
    coalesced.inListed partition atLevel unused⟩, ?_⟩
  intro length nonneg narrow
  constructor
  · rintro ⟨a, state', returned⟩
    unfold Buddy.alloc at returned
    simp only [bind, Option.bind_eq_some_iff] at returned
    obtain ⟨i, found, -⟩ := returned
    obtain ⟨-, atLevel, nonempty, enough, -⟩ := findLevel_spec found
    rw [Nat.zero_add] at atLevel
    obtain ⟨rest, shape⟩ := partition.head_listed nonempty
    have member : state.freeList i ∈ items i := by
      rw [shape]
      exact List.mem_cons_self
    have isTile : Tile state items [] (state.freeList i) :=
      ⟨.level i, member⟩
    have size := (partition.listed i _ member).2
    have upper := partition.tiles.upper _ isTile
    have aligned := partition.aligned _ isTile
    rw [size] at upper aligned
    have exactNeed : need length = length + sizeofBlockHeader := by
      unfold need int32
      simp only [sizeofBlockHeader] at narrow ⊢
      rw [Int.bmod_def]
      norm_num
      split_ifs <;> omega
    rw [exactNeed] at enough
    refine ⟨i, state.freeList i, atLevel, enough,
      partition.tiles.lower _ isTile, upper, aligned, ?_⟩
    intro b isLive
    have away := (partition.wellFormed.live b isLive).2 i _ atLevel member
    unfold Apart at away ⊢
    omega
  · rintro ⟨i, c, atLevel, fits, unused⟩
    obtain ⟨k, d, down, occurs, -, -⟩ :=
      coalesced.inListed partition atLevel unused
    have larger : layout.levelSize i ≤ layout.levelSize k := by
      rw [levelSize_eq_pow, levelSize_eq_pow]
      exact Nat.pow_le_pow_right (by decide) (by omega)
    obtain ⟨-, i', b, j, middle, lists, -, -, -, -, allocated⟩ :=
      partition.wellFormed.alloc_halves nonneg
        ⟨k, d, partition.level_lt occurs, occurs, by omega⟩
    exact ⟨_, _, allocated⟩

/-- A free of the only block gives the whole gigabyte back. -/
theorem free_space_coalesced_gigabyte :
    ∃ state,
      Reaches (Initial exampleLayout) (CleanStep exampleLayout) state ∧
        state.live = [] ∧
        ∃ a state',
          Buddy.alloc exampleLayout (2 ^ 30 - 16) state = some (a, state') := by
  have executed :
      (execute exampleLayout exampleArena (.alloc 100000)).map
        (fun state =>
          (state.levelOf exampleLayout 4096,
            (List.range 13).all fun j =>
              sizeAt state (buddyAt exampleLayout 4096 j) ==
                exampleLayout.levelSize j,
            (execute exampleLayout state (.free 4096)).map Buddy.live)) =
        some (0, true, some []) := by
    decide +kernel
  obtain ⟨middle, allocated, facts⟩ := Option.map_eq_some_iff.mp executed
  simp only [Prod.mk.injEq, List.all_eq_true, List.mem_range, beq_iff_eq]
    at facts
  obtain ⟨level, sizes, freed⟩ := facts
  obtain ⟨final, last, live⟩ := Option.map_eq_some_iff.mp freed
  have clean : CleanStep exampleLayout middle (.free 4096) final := by
    refine ⟨execute_step last, ?_⟩
    intro b isFree
    obtain rfl := Call.free.inj isFree
    unfold CleanFree
    rw [level]
    intro _ _
    exact ⟨by decide, fun j _ below _ => sizes j below⟩
  have reached :
      Reaches (Initial exampleLayout) (CleanStep exampleLayout) final :=
    ((Reaches.start ⟨_, rfl⟩).next
      ⟨execute_step allocated, fun _ isFree => by cases isFree⟩).next clean
  have fits :
      ((2 ^ 30 - 16 : Int) + sizeofBlockHeader) ≤
        exampleLayout.levelSize 13 := by
    decide
  refine ⟨final, reached, live, ?_⟩
  refine ((free_space_coalesced reached).2 _ (by decide) (by decide)).mpr
    ⟨13, 4096, by decide, fits, by decide, by decide, by decide, ?_⟩
  intro b isLive
  rw [live] at isLive
  cases isLive

end Buddy

end Bxalloc
