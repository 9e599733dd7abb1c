import Bxalloc.BuddyRuns

namespace Bxalloc

/-!
# The scan of the constructor with `recover=true`

The constructor has nothing but the headers.  It follows the sizes from the
start of the arena and puts every block that is marked free in front of the
list of its size, which overwrites links that the scan does not read.
-/

open Lib

/-- The constructor's arguments, for headers that fit in a basic block. -/
structure RecoverArgs where
  start : Nat
  /-- `_basic_block_size`. -/
  basicBlockSize : Nat
  /-- `max_block_size`. -/
  maxBlockSize : Nat
  /-- `_total_memory_length`. -/
  totalMemoryLength : Nat
  positive : 0 < start
  holdsHeader : sizeofBlockHeader ≤ basicBlockSize

namespace RecoverArgs

/-- `numBlocks`: the number of free lists. -/
def numBlocks (args : RecoverArgs) : Nat :=
  Nat.log2 (args.maxBlockSize / args.basicBlockSize) + 1

/-- The end of the arena. -/
def finish (args : RecoverArgs) : Nat :=
  args.start + args.totalMemoryLength

end RecoverArgs

/-- The arguments that describe a layout. -/
def BuddyLayout.recoverArgs (layout : BuddyLayout) : RecoverArgs where
  start := layout.start
  basicBlockSize := layout.basicBlockSize
  maxBlockSize := layout.maxBlockSize
  totalMemoryLength := layout.totalMemorySize
  positive := layout.positive
  holdsHeader := layout.holdsHeader

namespace Buddy

section Scan

variable (args : RecoverArgs)

/-- The scan puts a free block in the list of its size. -/
def scanBlock (state : Buddy) (curr : Nat) : Buddy :=
  if (state.header curr).free then
    let idx := Nat.log2 ((state.header curr).blockSize / args.basicBlockSize)
    state.insert idx curr
  else
    state

/--
The scan of the constructor with `recover=true`, with the blocks it visits;
`none` when it does not end.
-/
def recoverLoop : Nat → Nat → Buddy → Option (List Nat × Buddy)
  | 0, curr, state =>
      if curr < args.finish then none else some ([], state)
  | fuel + 1, curr, state =>
      if curr < args.finish then do
        let scanned := scanBlock args state curr
        let (visited, final) ←
          recoverLoop fuel (curr + (scanned.header curr).blockSize) scanned
        return (curr :: visited, final)
      else
        some ([], state)

/-- The five-argument constructor with `recover=true`. -/
def recoverArena (header : Nat → BlockHeader) : Option (List Nat × Buddy) :=
  recoverLoop args args.totalMemoryLength args.start
    { header := header
      freeList := fun _ => 0
      live := [] }

end Scan

variable {args : RecoverArgs} {state : Buddy} {items : Nat → List Nat}
variable {header : Nat → BlockHeader} {tile : Nat → Prop}

/-- The headers tile the arena with blocks that have a free list. -/
structure Headers
    (args : RecoverArgs)
    (header : Nat → BlockHeader)
    (tile : Nat → Prop) : Prop where
  tiles :
    Tiles tile (fun b => (header b).blockSize) args.start args.finish
  level :
    ∀ b,
      tile b →
      ∃ j,
        j < args.numBlocks ∧
          (header b).blockSize = 2 ^ j * args.basicBlockSize

/-- Putting a new block in front of a list of earlier blocks. -/
theorem insert_lists
    {curr i : Nat}
    (lists : ∀ j, NullList (nextAt state) 0 (state.freeList j) (items j))
    (absent : ∀ j, curr ∉ items j)
    (notNull : curr ≠ 0) :
    ∀ j,
      NullList (nextAt (state.insert i curr)) 0
        ((state.insert i curr).freeList j)
        (Function.update items i (curr :: items i) j) := by
  have kept :
      ∀ j,
        NullList (nextAt (state.insert i curr)) 0 (state.freeList j)
          (items j) := by
    intro j
    refine (lists j).congr ?_
    intro node member
    have differs : node ≠ curr := by
      rintro rfl
      exact absent j member
    simp only [nextAt, insert, setHead, setHeader,
      Function.update_of_ne differs]
  intro j
  rcases eq_or_ne j i with rfl | differs
  · simp only [insert, setHead, Function.update_self]
    refine (kept j).cons ?_ notNull
    simp only [nextAt, insert, setHead, setHeader, Function.update_self]
  · rw [Function.update_of_ne differs]
    simp only [insert, setHead, Function.update_of_ne differs]
    exact kept j

/-- The lists hold the free ones among the blocks before `curr`. -/
structure Scanned
    (args : RecoverArgs)
    (header : Nat → BlockHeader)
    (tile : Nat → Prop)
    (curr : Nat)
    (state : Buddy)
    (items : Nat → List Nat) : Prop where
  same : SameBlocks header state.header
  lists : ∀ i, NullList (nextAt state) 0 (state.freeList i) (items i)
  listed :
    ∀ i b,
      b ∈ items i ↔
        tile b ∧
          b < curr ∧
          (header b).free = true ∧
          (header b).blockSize = 2 ^ i * args.basicBlockSize

/-- The list of a size. -/
theorem log2_level
    (args : RecoverArgs)
    (j : Nat) :
    Nat.log2 (2 ^ j * args.basicBlockSize / args.basicBlockSize) = j := by
  have positive : 0 < args.basicBlockSize :=
    Nat.lt_of_lt_of_le (by decide) args.holdsHeader
  rw [Nat.mul_div_cancel _ positive]
  exact Nat.log2_two_pow

/-- Different lists have different sizes. -/
theorem level_injective
    {i j : Nat}
    (same : 2 ^ i * args.basicBlockSize = 2 ^ j * args.basicBlockSize) :
    i = j := by
  rw [← log2_level args i, same, log2_level]

/-- One round of the scan. -/
theorem Scanned.block
    {curr : Nat}
    (headers : Headers args header tile)
    (scanned : Scanned args header tile curr state items)
    (isTile : tile curr) :
    ∃ items',
      Scanned args header tile (curr + (header curr).blockSize)
        (scanBlock args state curr) items' := by
  have positive := headers.tiles.positive curr isTile
  have lower := headers.tiles.lower curr isTile
  have start := args.positive
  obtain ⟨i, -, size⟩ := headers.level curr isTile
  -- No other block starts inside the current one.
  have next :
      ∀ b,
        tile b →
        (b < curr + (header curr).blockSize ↔ b < curr ∨ b = curr) := by
    intro b isOther
    rcases eq_or_ne b curr with rfl | differs
    · omega
    · have apart := headers.tiles.apart curr b isTile isOther differs.symm
      have positive' := headers.tiles.positive b isOther
      omega
  unfold scanBlock
  split
  · next isFree =>
      rw [(scanned.same curr).1] at isFree
      rw [(scanned.same curr).2, size, log2_level]
      refine ⟨Function.update items i (curr :: items i), ?_, ?_, ?_⟩
      · intro b
        have inserting :=
          sameBlocks_next state.header curr (state.freeList i) b
        exact ⟨inserting.1.trans (scanned.same b).1,
          inserting.2.trans (scanned.same b).2⟩
      · refine insert_lists scanned.lists ?_ (by omega)
        intro j member
        have early := ((scanned.listed j curr).mp member).2.1
        omega
      · intro j b
        have own :
            b ∈ Function.update items i (curr :: items i) j ↔
              j = i ∧ b = curr ∨ b ∈ items j := by
          rcases eq_or_ne j i with rfl | differs
          · rw [Function.update_self, List.mem_cons]
            simp only [true_and]
          · rw [Function.update_of_ne differs]
            simp only [differs, false_and, false_or]
        rw [own, scanned.listed j b]
        constructor
        · rintro (⟨rfl, rfl⟩ | ⟨isOther, early, rest⟩)
          · exact ⟨isTile, by omega, isFree, size⟩
          · exact ⟨isOther, by omega, rest⟩
        · rintro ⟨isOther, early, rest⟩
          rw [← size] at early
          rcases (next b isOther).mp early with before | rfl
          · exact .inr ⟨isOther, before, rest⟩
          · rw [size] at rest
            exact .inl ⟨(level_injective rest.2).symm, rfl⟩
  · next notFree =>
      rw [(scanned.same curr).1] at notFree
      refine ⟨items, scanned.same, scanned.lists, ?_⟩
      intro j b
      rw [scanned.listed j b]
      constructor
      · rintro ⟨isOther, early, rest⟩
        exact ⟨isOther, by omega, rest⟩
      · rintro ⟨isOther, early, isFree, rest⟩
        refine ⟨isOther, ?_, isFree, rest⟩
        rcases (next b isOther).mp early with before | rfl
        · exact before
        · exact absurd isFree notFree

/-- From any tile on, the scan visits the remaining tiles in order. -/
theorem recoverLoop_spec
    (headers : Headers args header tile)
    {fuel curr : Nat}
    (scanned : Scanned args header tile curr state items)
    (here : curr < args.finish → tile curr)
    (enough : args.finish ≤ curr + fuel) :
    ∃ visited final,
      recoverLoop args fuel curr state = some (visited, final) ∧
        (∀ b, b ∈ visited ↔ tile b ∧ curr ≤ b) ∧
        ∃ items' last,
          args.finish ≤ last ∧
            Scanned args header tile last final items' := by
  have tiles := headers.tiles
  have beyond :
      ∀ {curr : Nat},
        args.finish ≤ curr → ∀ b, b ∈ [] ↔ tile b ∧ curr ≤ b := by
    intro curr past b
    refine ⟨fun member => absurd member List.not_mem_nil, ?_⟩
    rintro ⟨isTile, behind⟩
    have upper := tiles.upper b isTile
    have positive := tiles.positive b isTile
    omega
  induction fuel generalizing curr state items with
  | zero =>
      refine ⟨[], state, ?_, beyond (by omega), items, curr, by omega,
        scanned⟩
      unfold recoverLoop
      rw [if_neg (by omega)]
  | succ fuel inductionHypothesis =>
      unfold recoverLoop
      split
      · next inside =>
          have isTile := here inside
          have positive := tiles.positive curr isTile
          obtain ⟨items1, scanned1⟩ := scanned.block headers isTile
          obtain ⟨visited, final, looped, exactly, last⟩ :=
            inductionHypothesis scanned1
              (fun more => tiles.next isTile more) (by omega)
          refine ⟨curr :: visited, final, ?_, ?_, last⟩
          · change
              (recoverLoop args fuel
                (curr + ((scanBlock args state curr).header
                  curr).blockSize)
                (scanBlock args state curr)).bind _ = _
            rw [(scanned1.same curr).2, looped]
            rfl
          · intro b
            rw [List.mem_cons, exactly]
            constructor
            · rintro (rfl | ⟨isOther, behind⟩)
              · exact ⟨isTile, Nat.le_refl _⟩
              · exact ⟨isOther, by omega⟩
            · rintro ⟨isOther, behind⟩
              rcases Nat.eq_or_lt_of_le behind with rfl | later
              · exact Or.inl rfl
              · have apart :=
                  tiles.apart curr b isTile isOther (Nat.ne_of_lt later)
                have positive' := tiles.positive b isOther
                exact Or.inr ⟨isOther, by omega⟩
      · next outside =>
          exact ⟨[], state, rfl, beyond (by omega), items, curr, by omega,
            scanned⟩

/-- What the constructor leaves: the visited blocks, the lists and headers. -/
theorem recoverArena_spec
    (headers : Headers args header tile) :
    ∃ (visited : List Nat) (final : Buddy) (items : Nat → List Nat),
      recoverArena args header = some (visited, final) ∧
        (∀ b, b ∈ visited ↔ tile b) ∧
        SameBlocks header final.header ∧
        (∀ j, NullList (nextAt final) 0 (final.freeList j) (items j)) ∧
        ∀ j b,
          b ∈ items j ↔
            tile b ∧
              (header b).free = true ∧
              (header b).blockSize = 2 ^ j * args.basicBlockSize := by
  have tiles := headers.tiles
  have started :
      Scanned args header tile args.start
        { header := header, freeList := fun _ => 0, live := [] }
        (fun _ => []) := by
    refine ⟨fun _ => ⟨rfl, rfl⟩, fun _ => rfl, ?_⟩
    intro j b
    refine ⟨fun member => absurd member List.not_mem_nil, ?_⟩
    rintro ⟨isTile, early, -⟩
    have lower := tiles.lower b isTile
    omega
  obtain ⟨visited, final, looped, exactly, items, last, past, scanned⟩ :=
    recoverLoop_spec headers started tiles.head
      (Nat.le_refl (args.start + args.totalMemoryLength))
  refine ⟨visited, final, items, looped, ?_, scanned.same, scanned.lists, ?_⟩
  · intro b
    rw [exactly]
    exact ⟨And.left, fun isTile => ⟨isTile, tiles.lower b isTile⟩⟩
  · intro j b
    rw [scanned.listed j b]
    refine ⟨fun facts => ⟨facts.1, facts.2.2⟩, ?_⟩
    rintro ⟨isTile, rest⟩
    have upper := tiles.upper b isTile
    have positive := tiles.positive b isTile
    exact ⟨isTile, by omega, rest⟩

/--
For every arena that its headers tile with blocks of the sizes of the lists:
the constructor ends, each list is null-terminated and holds exactly the free
blocks of its size, each once, and no size or flag changes.
-/
theorem recovery_exact
    (args : RecoverArgs)
    (header : Nat → BlockHeader)
    (tile : Nat → Prop)
    (headers : Headers args header tile) :
    ∃ (visited : List Nat) (final : Buddy) (items : Nat → List Nat),
      recoverArena args header = some (visited, final) ∧
        (∀ b,
          (final.header b).free = (header b).free ∧
            (final.header b).blockSize = (header b).blockSize) ∧
        ∀ j,
          NullList (nextAt final) 0 (final.freeList j) (items j) ∧
            (items j).Nodup ∧
            (∀ b,
              b ∈ items j ↔
                tile b ∧
                  (header b).free = true ∧
                  (header b).blockSize = 2 ^ j * args.basicBlockSize) ∧
            (args.numBlocks ≤ j → items j = []) := by
  obtain ⟨visited, final, items, recovered, -, same, lists, listed⟩ :=
    recoverArena_spec headers
  refine ⟨visited, final, items, recovered, same, ?_⟩
  intro j
  refine ⟨lists j, (lists j).nodup, listed j, ?_⟩
  intro above
  rw [List.eq_nil_iff_forall_not_mem]
  intro b member
  obtain ⟨isTile, -, size⟩ := (listed j b).mp member
  obtain ⟨i, below, size'⟩ := headers.level b isTile
  rw [size] at size'
  have sameLevel := level_injective size'
  omega

theorem exampleArgs_positive : 0 < 4096 := by
  decide

theorem exampleArgs_holdsHeader : sizeofBlockHeader ≤ 16 := by
  decide

/-- An arena of 48 bytes with blocks of 16 and 32 bytes. -/
def exampleArgs : RecoverArgs where
  start := 4096
  basicBlockSize := 16
  maxBlockSize := 32
  totalMemoryLength := 48
  positive := exampleArgs_positive
  holdsHeader := exampleArgs_holdsHeader

/-- A free block of 32 bytes with a stale link before one in use. -/
def exampleHeader (b : Nat) : BlockHeader :=
  if b = 4096 then
    { free := true, blockSize := 32, next := 4104 }
  else
    { free := false, blockSize := 16, next := 0 }

theorem exampleHeaders :
    Headers exampleArgs exampleHeader fun b => b = 4096 ∨ b = 4128 := by
  refine ⟨⟨?_, ?_, ?_, ?_, ?_⟩, ?_⟩
  · rintro t (rfl | rfl) <;> decide
  · rintro t (rfl | rfl) <;> decide
  · rintro t (rfl | rfl) <;> decide
  · rintro t u (rfl | rfl) (rfl | rfl) differs <;> first
      | exact absurd rfl differs
      | decide
  · intro x above below
    have lower : 4096 ≤ x := above
    have upper : x < 4144 := below
    rcases Nat.lt_or_ge x 4128 with inFirst | inSecond
    · exact ⟨4096, .inl rfl, lower, inFirst⟩
    · exact ⟨4128, .inr rfl, inSecond, upper⟩
  · rintro t (rfl | rfl)
    · exact ⟨1, by decide, by decide⟩
    · exact ⟨0, by decide, by decide⟩

/-- Recovery of that arena. -/
theorem recovery_exact_twoBlocks :
    ∃ (visited : List Nat) (final : Buddy) (items : Nat → List Nat),
      recoverArena exampleArgs exampleHeader = some (visited, final) ∧
        (∀ b,
          (final.header b).free = (exampleHeader b).free ∧
            (final.header b).blockSize = (exampleHeader b).blockSize) ∧
        ∀ j,
          NullList (nextAt final) 0 (final.freeList j) (items j) ∧
            (items j).Nodup ∧
            (∀ b,
              b ∈ items j ↔
                (b = 4096 ∨ b = 4128) ∧
                  (exampleHeader b).free = true ∧
                  (exampleHeader b).blockSize =
                    2 ^ j * exampleArgs.basicBlockSize) ∧
            (exampleArgs.numBlocks ≤ j → items j = []) :=
  recovery_exact exampleArgs exampleHeader _ exampleHeaders

end Buddy

end Bxalloc
