import Bxalloc.BuddyRuns

namespace Bxalloc

/-!
# What the large-object calls leave alone

`alloc` writes headers inside the free block it splits, and a clean `free`
merges blocks that nobody uses.  So the sizes of the other users' blocks are the
same after every call.
-/

open Lib

namespace Buddy

variable {layout : BuddyLayout} {state state' : Buddy}
variable {items : Nat → List Nat}

/-- The split block becomes the head of the list below. -/
theorem freeList_split_head
    (state : Buddy)
    (i b next : Nat) :
    (((state.split b).setHead i b).setHead (i + 1) next).freeList i = b := by
  change
    Function.update (Function.update (state.split b).freeList i b) (i + 1) next
        i =
      b
  rw [Function.update_of_ne (by omega), Function.update_self]

/-- The split loop keeps its block and the headers outside that block. -/
theorem splitLoop_outside
    {length : Int}
    {i j other : Nat}
    (looped : splitLoop layout length i state = some (j, state'))
    (differs : other ≠ state.freeList i)
    (outside :
      other < state.freeList i ∨
        state.freeList i + sizeAt state (state.freeList i) ≤ other) :
    state'.header other = state.header other ∧
      state'.freeList j = state.freeList i := by
  induction i generalizing state with
  | zero =>
      unfold splitLoop at looped
      split at looped
      · cases looped
      · obtain ⟨rfl, rfl⟩ := Prod.mk.inj (Option.some.inj looped)
        exact ⟨rfl, rfl⟩
  | succ i inductionHypothesis =>
      unfold splitLoop at looped
      split at looped
      · next continues =>
          unfold splits at continues
          simp only [Bool.and_eq_true, decide_eq_true_eq] at continues
          dsimp only at looped
          have positive : 0 < layout.basicBlockSize := Nat.two_pow_pos _
          generalize state.freeList (i + 1) = b at *
          have half : layout.basicBlockSize ≤ sizeAt state b / 2 :=
            continues.2
          have head :=
            freeList_split_head state i b (state.header b).next
          have size := (split_first state b).1
          obtain ⟨sameHeader, sameHead⟩ :=
            inductionHypothesis looped
              (by
                rw [head]
                exact differs)
              (by
                rw [head]
                change
                  other < b ∨ b + sizeAt (state.split b) b ≤ other
                rw [size]
                omega)
          exact ⟨sameHeader.trans (split_other differs (by omega)),
            sameHead.trans head⟩
      · obtain ⟨rfl, rfl⟩ := Prod.mk.inj (Option.some.inj looped)
        exact ⟨rfl, rfl⟩

/-- `alloc` keeps the sizes of the users' blocks. -/
theorem Partition.alloc_sameSize
    {length : Int}
    {a other : Nat}
    (partition : Partition layout state items [])
    (allocated : Buddy.alloc layout length state = some (a, state'))
    (isLive : other ∈ state.live) :
    sizeAt state' other = sizeAt state other := by
  unfold Buddy.alloc at allocated
  simp only [bind, Option.bind_eq_some_iff] at allocated
  obtain ⟨i, found, ⟨j, middle⟩, looped, removed, taken, returned⟩ := allocated
  obtain ⟨-, -, nonempty, -⟩ := findLevel_spec found
  obtain ⟨rest, shape⟩ := partition.head_listed nonempty
  have member : state.freeList i ∈ items i := by
    rw [shape]
    exact List.mem_cons_self
  have headTile : Tile state items [] (state.freeList i) := ⟨.level i, member⟩
  have liveTile : Tile state items [] other := ⟨.live, isLive⟩
  have differs : other ≠ state.freeList i := by
    intro same
    rw [← same] at member
    have place :=
      @Splits.place_eq _ _ _ _ partition.splits Place.live (.level i) other
        isLive member
    cases place
  have outside :=
    partition.tiles.apart other (state.freeList i) liveTile headTile differs
  have positive := partition.tiles.positive other liveTile
  obtain ⟨sameHeader, -⟩ := splitLoop_outside looped differs (by omega)
  unfold remove at taken
  rw [if_pos rfl] at taken
  obtain rfl := Option.some.inj taken
  obtain ⟨rfl, rfl⟩ := Prod.mk.inj (Option.some.inj returned)
  calc
    _ = sizeAt middle other :=
        (Partition.setFree_fields middle (middle.freeList j) false).1 other
    _ = sizeAt state other := congrArg BlockHeader.blockSize sameHeader

/-- The block that a merge makes is nobody's. -/
theorem MergeSteps.not_live
    {i b u : Nat}
    {first second : Buddy}
    {items1 items2 : Nat → List Nat}
    (steps : MergeSteps layout i b state first second u items1 items2)
    {other : Nat}
    (isLive : other ∈ state.live) :
    other ≠ min b u := by
  rintro rfl
  have held : min b u ∈ [b, u] := by
    rcases Nat.le_total b u with less | less
    · rw [Nat.min_eq_left less]
      exact List.mem_cons_self
    · rw [Nat.min_eq_right less]
      exact List.mem_cons_of_mem _ List.mem_cons_self
  have stillLive : min b u ∈ second.live := by
    rw [steps.live2, steps.live1]
    exact isLive
  have place :=
    @Splits.place_eq _ _ _ _ steps.pair.splits Place.live .hand (min b u)
      stillLive held
  cases place

/-- Merging whole buddies keeps the sizes of the users' blocks. -/
theorem MergeChain.sameSize
    {more i b other : Nat}
    (chain : MergeChain layout more i b state state')
    (isLive : other ∈ state.live) :
    sizeAt state' other = sizeAt state other := by
  induction chain with
  | stop => rfl
  | round _ steps _ inductionHypothesis =>
      have stillLive := isLive
      rw [← steps.sameLive] at stillLive
      exact (inductionHypothesis stillLive).trans
        (steps.frame (steps.not_live isLive)).2

/-- A clean `free` keeps the sizes of the other users' blocks. -/
theorem Partition.free_sameSize
    (partition : Partition layout state items [])
    {b other : Nat}
    (isLive : b ∈ state.live)
    (clean : CleanFree layout state b)
    (returned :
      Buddy.free layout (b + sizeofBlockHeader) state = some state')
    (otherLive : other ∈ state.live)
    (differs : other ≠ b) :
    sizeAt state' other = sizeAt state other := by
  obtain ⟨i, final, -, -, freed, steps⟩ := partition.free_steps isLive clean
  obtain rfl := Option.some.inj (freed.symm.trans returned)
  have marked : sizeAt (state.markFree b) other = sizeAt state other :=
    (Partition.setFree_fields state b true).1 other
  cases steps with
  | merge levels buddyFree sameSize chain =>
      have stillLive : other ∈ (state.markFree b).live :=
        (List.mem_erase_of_ne differs).mpr otherLive
      exact (chain.sameSize stillLive).trans marked
  | insert unmerged =>
      exact
        ((sameBlocks_next (state.markFree b).header b
          ((state.markFree b).freeList i) other).2).trans marked

end Buddy

end Bxalloc
