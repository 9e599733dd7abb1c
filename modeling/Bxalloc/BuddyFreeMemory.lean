import Bxalloc.BuddyRuns

namespace Bxalloc

/-!
# Counting the free memory

`get_free_memory` walks all free lists, adds up the sizes of their levels and
stops as soon as the sum reaches the size asked for.  A block whose header names
another size ends the process.  In a clean run no block does, and the sum is the
arena less the live blocks.
-/

open Lib

namespace Buddy

variable (layout : BuddyLayout)

/-- How the walk of the lists ends. -/
inductive Count where
  /-- `return true`. -/
  | enough
  | total (bytes : Nat)
  /-- `exit(-1)`. -/
  | wrongList
  deriving Repr, DecidableEq

/-- The loop over one list; `none` when the list does not end. -/
def countList (size blocksize : Nat) (state : Buddy) :
    Nat → Nat → Nat → Option Count
  | 0, _, _ => none
  | fuel + 1, b, total =>
      if b = 0 then
        some (.total total)
      else
        let total := (total + blocksize) % 2 ^ 64
        if size ≤ total then
          some .enough
        else if (state.header b).blockSize ≠ blocksize then
          some .wrongList
        else
          countList size blocksize state fuel (state.header b).next total

/-- The loop over the levels from `i` on. -/
def countLevels (size : Nat) (state : Buddy) :
    Nat → Nat → Nat → Option Count
  | 0, _, total => some (.total total)
  | more + 1, i, total =>
      match
        countList size (layout.levelSize i) state layout.walkFuel
          (state.freeList i) total with
      | some (.total total) => countLevels size state more (i + 1) total
      | ended => ended

/-- `get_free_memory`; `none` when it does not return. -/
def getFreeMemory (size : Nat) (state : Buddy) : Option Bool :=
  match countLevels layout size state layout.levels 0 0 with
  | some .enough => some true
  | some (.total _) => some false
  | some .wrongList => none
  | none => none

variable {layout} {state : Buddy} {items : Nat → List Nat}

/-- The blocks listed in `more` levels from `i` on. -/
def listedBlocks (items : Nat → List Nat) : Nat → Nat → List Nat
  | 0, _ => []
  | more + 1, i => items i ++ listedBlocks items more (i + 1)

/-- The bytes of these blocks. -/
def listedBytes
    (layout : BuddyLayout)
    (items : Nat → List Nat) : Nat → Nat → Nat
  | 0, _ => 0
  | more + 1, i =>
      (items i).length * layout.levelSize i +
        listedBytes layout items more (i + 1)

/-- Counting one list of blocks of one size. -/
theorem countList_spec
    {size blocksize fuel b total : Nat}
    {blocks : List Nat}
    (list : NullList (nextAt state) 0 b blocks)
    (sizes : ∀ c, c ∈ blocks → sizeAt state c = blocksize)
    (ends : blocks.length < fuel)
    (narrow : total + blocks.length * blocksize < 2 ^ 64)
    (early : total = 0 ∨ total < size)
    (positive : 0 < blocksize) :
    countList size blocksize state fuel b total =
      if total < total + blocks.length * blocksize ∧
          size ≤ total + blocks.length * blocksize then
        some .enough
      else
        some (.total (total + blocks.length * blocksize)) := by
  induction blocks generalizing b total fuel with
  | nil =>
      obtain ⟨fuel, rfl⟩ := Nat.exists_eq_succ_of_ne_zero (by omega : fuel ≠ 0)
      have isNull : b = 0 := list
      simp [countList, isNull]
  | cons node rest inductionHypothesis =>
      obtain ⟨fuel, rfl⟩ := Nat.exists_eq_succ_of_ne_zero (by omega : fuel ≠ 0)
      obtain ⟨rfl, notNull, later⟩ := list
      have sizeHere : (state.header b).blockSize = blocksize :=
        sizes b List.mem_cons_self
      rw [List.length_cons, Nat.succ_mul] at narrow ⊢
      rw [List.length_cons] at ends
      have exactSum : (total + blocksize) % 2 ^ 64 = total + blocksize :=
        Nat.mod_eq_of_lt (by omega)
      unfold countList
      simp only [if_neg notNull, exactSum, sizeHere, ne_eq, not_true_eq_false,
        if_false]
      by_cases enough : size ≤ total + blocksize
      · rw [if_pos enough, if_pos (by omega)]
      · have next :=
          inductionHypothesis later
            (fun c member => sizes c (List.mem_cons_of_mem _ member))
            (by omega : rest.length < fuel) (by omega)
            (Or.inr (Nat.lt_of_not_le enough))
        have sum :
            total + blocksize + rest.length * blocksize =
              total + (rest.length * blocksize + blocksize) := by
          omega
        rw [sum] at next
        rw [if_neg enough]
        refine next.trans ?_
        by_cases reached :
            size ≤ total + (rest.length * blocksize + blocksize)
        · rw [if_pos (by omega), if_pos (by omega)]
        · rw [if_neg (by omega), if_neg (by omega)]

/-- Counting the levels of a partition. -/
theorem Partition.countLevels_spec
    (partition : Partition layout state items [])
    {size more i total : Nat}
    (narrow : total + listedBytes layout items more i < 2 ^ 64)
    (early : total = 0 ∨ total < size) :
    countLevels layout size state more i total =
      if total < total + listedBytes layout items more i ∧
          size ≤ total + listedBytes layout items more i then
        some .enough
      else
        some (.total (total + listedBytes layout items more i)) := by
  induction more generalizing i total with
  | zero => simp [countLevels, listedBytes]
  | succ more inductionHypothesis =>
      unfold listedBytes at narrow ⊢
      have counted :=
        countList_spec (partition.lists i)
          (fun c member => (partition.listed i c member).2)
          (partition.length_lt_walkFuel i)
          (by omega : total + (items i).length * layout.levelSize i < 2 ^ 64)
          early (levelSize_pos layout i)
      generalize (items i).length * layout.levelSize i = here at *
      unfold countLevels
      rw [counted]
      by_cases enough : total < total + here ∧ size ≤ total + here
      · rw [if_pos enough, if_pos (by omega)]
      · rw [if_neg enough]
        refine (inductionHypothesis (by omega) (by omega)).trans ?_
        rw [← Nat.add_assoc]
        by_cases reached :
            size ≤ total + here + listedBytes layout items more (i + 1)
        · by_cases nothing : listedBytes layout items more (i + 1) = 0
          · rw [if_neg (by omega), if_neg (by omega)]
          · rw [if_pos (by omega), if_pos (by omega)]
        · rw [if_neg (by omega), if_neg (by omega)]

/-- A block is listed in these levels or not. -/
theorem mem_listedBlocks
    {more i b : Nat} :
    b ∈ listedBlocks items more i ↔
      ∃ k, i ≤ k ∧ k < i + more ∧ b ∈ items k := by
  induction more generalizing i with
  | zero =>
      simp only [listedBlocks, List.not_mem_nil, false_iff]
      rintro ⟨k, lower, upper, -⟩
      omega
  | succ more inductionHypothesis =>
      rw [listedBlocks, List.mem_append, inductionHypothesis]
      constructor
      · rintro (here | ⟨k, lower, upper, later⟩)
        · exact ⟨i, Nat.le_refl i, by omega, here⟩
        · exact ⟨k, by omega, by omega, later⟩
      · rintro ⟨k, lower, upper, member⟩
        rcases Nat.eq_or_lt_of_le lower with rfl | above
        · exact Or.inl member
        · exact Or.inr ⟨k, above, by omega, member⟩

namespace Partition

/-- No block is listed twice. -/
theorem listedBlocks_nodup
    (partition : Partition layout state items [])
    (more i : Nat) :
    (listedBlocks items more i).Nodup := by
  induction more generalizing i with
  | zero => exact List.nodup_nil
  | succ more inductionHypothesis =>
      refine List.nodup_append'.mpr
        ⟨partition.splits.nodup (.level i), inductionHypothesis (i + 1), ?_⟩
      intro b here later
      obtain ⟨k, above, -, member⟩ := mem_listedBlocks.mp later
      have same :=
        partition.splits.place_eq
          (show b ∈ content state items [] (.level i) from here)
          (show b ∈ content state items [] (.level k) from member)
      have level := Place.level.inj same
      omega

/-- The headers of the listed blocks add up to the bytes of their levels. -/
theorem sum_listedBlocks
    (partition : Partition layout state items [])
    (more i : Nat) :
    ((listedBlocks items more i).map (sizeAt state)).sum =
      listedBytes layout items more i := by
  induction more generalizing i with
  | zero => rfl
  | succ more inductionHypothesis =>
      have sizes :
          (items i).map (sizeAt state) =
            (items i).map fun _ => layout.levelSize i :=
        List.map_congr_left fun b member => (partition.listed i b member).2
      rw [listedBlocks, listedBytes, List.map_append, List.sum_append,
        inductionHypothesis, sizes, List.map_const', List.sum_replicate]
      rfl

/-- Listed blocks and live blocks add up to the arena. -/
theorem bytes_add_live
    (partition : Partition layout state items []) :
    listedBytes layout items layout.levels 0 +
        (state.live.map (sizeAt state)).sum =
      layout.totalMemorySize := by
  have once :
      (listedBlocks items layout.levels 0 ++ state.live).Nodup := by
    refine List.nodup_append'.mpr
      ⟨partition.listedBlocks_nodup _ _, partition.splits.nodup .live, ?_⟩
    intro b listed isLive
    obtain ⟨k, -, -, member⟩ := mem_listedBlocks.mp listed
    have same :=
      partition.splits.place_eq
        (show b ∈ content state items [] (.level k) from member)
        (show b ∈ content state items [] .live from isLive)
    cases same
  have all :
      ∀ b,
        b ∈ listedBlocks items layout.levels 0 ++ state.live ↔
          Tile state items [] b := by
    intro b
    rw [List.mem_append, mem_listedBlocks]
    constructor
    · rintro (⟨k, -, -, member⟩ | isLive)
      · exact ⟨.level k, member⟩
      · exact ⟨.live, isLive⟩
    · rintro ⟨place, occurs⟩
      cases place with
      | level k =>
          have early := partition.level_lt occurs
          exact Or.inl ⟨k, Nat.zero_le k, by omega, occurs⟩
      | live => exact Or.inr occurs
      | hand => cases occurs
  have total := partition.tiles.sum_size once all
  rw [List.map_append, List.sum_append, partition.sum_listedBlocks] at total
  rw [total]
  exact Nat.add_sub_cancel_left ..

end Partition

/--
In every state of every clean run `get_free_memory` returns, and its answer is
exact: the free bytes are the arena less the live blocks, with their headers,
and there are some and as many as asked for.
-/
theorem free_memory_exact
    (reached : Reaches (Initial layout) (CleanStep layout) state)
    (mapped : layout.totalMemorySize < 2 ^ 64)
    (size : Nat) :
    ∃ free,
      free + (state.live.map (sizeAt state)).sum = layout.totalMemorySize ∧
        getFreeMemory layout size state =
          some (decide (0 < free ∧ size ≤ free)) := by
  obtain ⟨⟨items, partition⟩, -⟩ := partitioned_of_clean reached
  have sum := partition.bytes_add_live
  refine ⟨_, sum, ?_⟩
  unfold getFreeMemory
  rw [partition.countLevels_spec (by omega) (Or.inl rfl), Nat.zero_add]
  by_cases enough :
      0 < listedBytes layout items layout.levels 0 ∧
        size ≤ listedBytes layout items layout.levels 0
  · rw [if_pos enough, decide_eq_true enough]
  · rw [if_neg enough, decide_eq_false enough]

/-- A new gigabyte is free, and no byte more. -/
theorem free_memory_exact_new :
    getFreeMemory exampleLayout (2 ^ 30) exampleArena = some true ∧
      getFreeMemory exampleLayout (2 ^ 30 + 1) exampleArena = some false := by
  have reached :
      Reaches (Initial exampleLayout) (CleanStep exampleLayout)
        exampleArena :=
    .start ⟨_, rfl⟩
  have nobody : exampleArena.live = [] := by
    decide +kernel
  have total : exampleLayout.totalMemorySize = 2 ^ 30 := by
    decide
  refine ⟨?_, ?_⟩
  · obtain ⟨free, sum, answer⟩ :=
      free_memory_exact reached (by decide) (2 ^ 30)
    rw [nobody, total] at sum
    obtain rfl : free = 2 ^ 30 := sum
    exact answer
  · obtain ⟨free, sum, answer⟩ :=
      free_memory_exact reached (by decide) (2 ^ 30 + 1)
    rw [nobody, total] at sum
    obtain rfl : free = 2 ^ 30 := sum
    exact answer

end Buddy

end Bxalloc
