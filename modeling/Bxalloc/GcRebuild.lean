import Bxalloc.GcSweep
import Bxalloc.Lib.Gaps
import Bxalloc.Lib.LinkWalk

namespace Bxalloc

/-!
# Rebuilding a small superblock

One round of the sweep over a small superblock in use.  Two loops link free
blocks: one in the gap before each mark, one behind the last mark.  Together
they link the positions `Lib.gaps` walks over, in increasing order, so the
chain is that list backwards, whatever the marks are.
-/

open Lib (Memory strides gaps SlotStart)

namespace Gc

variable {region : SbRegion}

/-- The chain of free blocks linked so far. -/
structure Built where
  count : Nat
  head : Nat
  memory : Memory

/-- Put a block in front of the chain. -/
def Built.link (built : Built) (block : Nat) : Built where
  count := built.count + 1
  head := block
  memory := writeLink built.memory block built.head

/-- The chain in the variables of a round. -/
def Rebuild.built (rebuild : Rebuild) : Built where
  count := rebuild.anchor.count
  head := rebuild.head
  memory := rebuild.memory

/-- The chain of the given blocks, the last one in front. -/
def Built.ofBlocks (memory : Memory) (blocks : List Nat) : Built :=
  blocks.foldl Built.link { count := 0, head := 0, memory := memory }

namespace Built

variable {memory : Memory} {blocks : List Nat} {block address : Nat}

theorem ofBlocks_append :
    ofBlocks memory (blocks ++ [block]) = (ofBlocks memory blocks).link block := by
  unfold ofBlocks
  rw [List.foldl_append]
  rfl

theorem ofBlocks_count : (ofBlocks memory blocks).count = blocks.length := by
  induction blocks using List.reverseRecOn with
  | nil => rfl
  | append_singleton front last inductionHypothesis =>
      rw [ofBlocks_append, List.length_append]
      exact congrArg (· + 1) inductionHypothesis

theorem ofBlocks_head :
    (ofBlocks memory blocks).head = blocks.getLast?.getD 0 := by
  induction blocks using List.reverseRecOn with
  | nil => rfl
  | append_singleton front last _ =>
      rw [ofBlocks_append, List.getLast?_append]
      rfl

/-- Links are written only at the start of the linked blocks. -/
theorem ofBlocks_memory
    (outside :
      ∀ linked,
        linked ∈ blocks →
        address < linked ∨ linked + 8 ≤ address) :
    (ofBlocks memory blocks).memory address = memory address := by
  induction blocks using List.reverseRecOn with
  | nil => rfl
  | append_singleton front last inductionHypothesis =>
      rw [ofBlocks_append]
      have away := outside last (List.mem_append_right _ List.mem_cons_self)
      have earlier :=
        inductionHypothesis fun linked member =>
          outside linked (List.mem_append_left _ member)
      change Memory.store64 _ _ _ _ = _
      rw [Memory.store64_apart _ _ away]
      exact earlier

/-- Following the links visits the blocks backwards and ends in null. -/
theorem ofBlocks_chain
    (spaced : blocks.Pairwise fun a b => a + 8 ≤ b)
    (low : ∀ linked, linked ∈ blocks → linked < 2 ^ 48) :
    List.iterate (readLink (ofBlocks memory blocks).memory)
        (ofBlocks memory blocks).head blocks.length = blocks.reverse ∧
      (readLink (ofBlocks memory blocks).memory)^[blocks.length]
        (ofBlocks memory blocks).head = 0 ∧
      (ofBlocks memory blocks).head < 2 ^ 48 := by
  induction blocks using List.reverseRecOn with
  | nil => exact ⟨rfl, rfl, Nat.two_pow_pos 48⟩
  | append_singleton front last inductionHypothesis =>
      obtain ⟨frontSpaced, -, apart⟩ := List.pairwise_append.mp spaced
      obtain ⟨visited, ended, headLow⟩ :=
        inductionHypothesis frontSpaced fun linked member =>
          low linked (List.mem_append_left _ member)
      have lastLow := low last (List.mem_append_right _ List.mem_cons_self)
      rw [ofBlocks_append, List.length_append, List.length_singleton]
      generalize ofBlocks memory front = earlier at visited ended headLow ⊢
      have first :
          readLink (earlier.link last).memory last = earlier.head :=
        readLink_writeLink_same _ lastLow headLow
      have others :
          ∀ node,
            node ∈ List.iterate (readLink earlier.memory) earlier.head
              front.length →
            readLink (earlier.link last).memory node =
              readLink earlier.memory node := by
        intro node member
        rw [visited, List.mem_reverse] at member
        have := apart node member last List.mem_cons_self
        exact readLink_writeLink_apart _ _ (.inl this)
      refine ⟨?_, ?_, lastLow⟩
      · change last :: List.iterate _ (readLink _ last) _ = _
        rw [first, Lib.LinkWalk.iterate_congr_of_mem others, visited,
          List.reverse_append]
        rfl
      · change (readLink _)^[front.length] (readLink _ last) = 0
        rw [first, ← ended]
        exact Lib.LinkWalk.reach_congr fun index early =>
          others _ (Lib.LinkWalk.iterate_mem early)

end Built

section Loops

variable {desc : Descriptor} {currSb sc : Nat} {rebuild : Rebuild}

/-- The loop links the positions in steps of a block below its bound. -/
theorem linkFree_eq
    {blockSize bound fuel freeBlock : Nat}
    (positive : 0 < blockSize)
    (enough : bound ≤ freeBlock + fuel) :
    linkFree blockSize bound fuel freeBlock rebuild =
      .ok ((strides blockSize freeBlock bound).foldl Rebuild.link rebuild) := by
  induction fuel generalizing freeBlock rebuild with
  | zero =>
      unfold linkFree
      rw [if_neg (by omega), Lib.strides_empty (by omega)]
      rfl
  | succ fuel inductionHypothesis =>
      unfold linkFree
      split
      · next ahead =>
          rw [Lib.strides_first positive ahead]
          exact inductionHypothesis (by omega)
      · next behind =>
          rw [Lib.strides_empty (Nat.le_of_not_lt behind)]
          rfl

/-- Linking changes the chain and nothing else. -/
theorem foldl_link
    (blocks : List Nat) :
    (blocks.foldl Rebuild.link rebuild).built =
        blocks.foldl Built.link rebuild.built ∧
      (blocks.foldl Rebuild.link rebuild).last = rebuild.last ∧
      (blocks.foldl Rebuild.link rebuild).anchor.state =
        rebuild.anchor.state := by
  induction blocks generalizing rebuild with
  | nil => exact ⟨rfl, rfl, rfl⟩
  | cons block rest inductionHypothesis =>
      exact @inductionHypothesis (rebuild.link block)

/-- One mark in a superblock of a class: the gap before it is linked. -/
theorem sweepMark_small
    (inUse : desc.heap = some sc)
    (ownSb : desc.superblock = currSb)
    (notLarge : sc ≠ nlist)
    (positive : 0 < desc.blockSize)
    (mark : Nat) :
    ∃ marked,
      sweepMark desc currSb mark rebuild = .ok marked ∧
        marked.built =
          (strides desc.blockSize rebuild.last mark).foldl Built.link
            rebuild.built ∧
        marked.last = mark + desc.blockSize ∧
        marked.anchor.state = .sbPartial := by
  unfold sweepMark
  simp only [inUse, ownSb, ne_eq, not_true_eq_false, if_false, if_neg notLarge,
    linkFreeUpTo]
  rw [linkFree_eq positive (by omega)]
  obtain ⟨sameBuilt, -, sameState⟩ :=
    @foldl_link
      { rebuild with anchor := { rebuild.anchor with state := .sbPartial } }
      (strides desc.blockSize rebuild.last mark)
  exact ⟨_, rfl, sameBuilt, rfl, sameState⟩

/-- All marks of a superblock: the gaps before them are linked. -/
theorem sweepMarks_small
    (inUse : desc.heap = some sc)
    (ownSb : desc.superblock = currSb)
    (notLarge : sc ≠ nlist)
    (positive : 0 < desc.blockSize)
    {here later : List Nat}
    (inside : ∀ mark, mark ∈ here → currSb >>> sbShift = mark >>> sbShift)
    (outside :
      ∀ mark, mark ∈ later → currSb >>> sbShift ≠ mark >>> sbShift) :
    ∃ marked,
      sweepMarks desc currSb (here ++ later) rebuild = .ok (later, marked) ∧
        (∀ bound,
          (strides desc.blockSize marked.last bound).foldl Built.link
              marked.built =
            (gaps desc.blockSize bound rebuild.last here).foldl Built.link
              rebuild.built) ∧
        (here ≠ [] ∨ rebuild.anchor.state = .sbPartial →
          marked.anchor.state = .sbPartial) := by
  induction here generalizing rebuild with
  | nil =>
      refine ⟨rebuild, ?_, fun _ => rfl, fun either => ?_⟩
      · cases later with
        | nil => rfl
        | cons mark rest =>
            simp only [List.nil_append, sweepMarks,
              if_neg (outside mark List.mem_cons_self)]
      · exact either.resolve_left (not_not.mpr rfl)
  | cons mark rest inductionHypothesis =>
      obtain ⟨first, swept, sameBuilt, sameLast, sameState⟩ :=
        @sweepMark_small desc currSb sc rebuild inUse ownSb notLarge positive
          mark
      obtain ⟨marked, sweptRest, builtRest, stateRest⟩ :=
        @inductionHypothesis first fun other member =>
          inside other (List.mem_cons_of_mem _ member)
      refine ⟨marked, ?_, ?_, ?_⟩
      · simp only [List.cons_append, sweepMarks,
          if_pos (inside mark List.mem_cons_self)]
        rw [swept, ok_bind]
        exact sweptRest
      · intro bound
        rw [builtRest bound, sameLast, sameBuilt, ← List.foldl_append]
        rfl
      · intro _
        exact stateRest (.inr sameState)

end Loops

/-- The descriptor of a small superblock in use at `currSb`. -/
structure SmallInUse (desc : Descriptor) (currSb sc : Nat) : Prop where
  aligned : currSb % sbSize = 0
  nonzero : 0 < currSb
  userSpace : currSb + sbSize ≤ 2 ^ 47
  heap : desc.heap = some sc
  notFirst : 0 < sc
  notLast : sc < nlist
  ownSb : desc.superblock = currSb
  /-- A free block holds a link. -/
  holdsLink : 8 ≤ desc.blockSize
  maxcount : desc.maxcount = sbSize / desc.blockSize

/-- The end of the last block of a superblock. -/
def blocksEnd (desc : Descriptor) (currSb : Nat) : Nat :=
  currSb + desc.maxcount * desc.blockSize

/-- The blocks that a round links, in order. -/
def freeBlocks (desc : Descriptor) (currSb : Nat) (here : List Nat) :
    List Nat :=
  gaps desc.blockSize (blocksEnd desc currSb) currSb here

/-- The sweep before the superblock, with the marks in it and behind it. -/
structure AtSuperblock
    (state : Sweep)
    (sc : Nat)
    (here later : List Nat) : Prop where
  small :
    SmallInUse (state.heap.desc state.currDesc) state.currSb sc
  marks : state.marks = here ++ later
  anyMark : here ≠ []
  sorted : here.Pairwise (· < ·)
  inside :
    ∀ mark, mark ∈ here → state.currSb ≤ mark ∧ mark < state.currSb + sbSize
  behind : ∀ mark, mark ∈ later → state.currSb + sbSize ≤ mark

/-- The anchor and the partial list after all free blocks are linked. -/
def finishBuilt
    (sc : Nat)
    (state : Sweep)
    (built : Built) : Except Fault Heap :=
  let desc := state.heap.desc state.currDesc
  let heap := { state.heap with memory := built.memory }
  if built.count = 0 then
    .ok (heap.setAnchor state.currDesc
      { avail := desc.maxcount, count := 0, state := .sbFull })
  else if built.head = 0 then
    .error .badHead
  else if (built.head - state.currSb) % desc.blockSize ≠ 0 then
    .error .badHead
  else
    .ok ((heap.setPartial sc
        (state.currDesc :: state.heap.partialList sc)).setAnchor state.currDesc
      { avail := (built.head - state.currSb) / desc.blockSize
        count := built.count
        state := .sbPartial })

/-- The sweep behind the superblock. -/
def Sweep.advance (state : Sweep) (later : List Nat) (heap : Heap) : Sweep where
  currSb := state.currSb + sbSize
  currDesc := state.currDesc + 1
  marks := later
  heap := heap
  availSb := state.availSb

/-- The end of a round with the loops in closed form. -/
theorem finishSmall_eq
    {desc : Descriptor}
    {rebuild : Rebuild}
    {state : Sweep}
    {sc : Nat}
    (inUse : desc.heap = some sc)
    (positive : 0 < desc.blockSize)
    (fits : desc.maxcount * desc.blockSize ≤ sbSize)
    (isDesc : state.heap.desc state.currDesc = desc) :
    finishSmall desc rebuild state =
      finishBuilt sc state
        ((strides desc.blockSize rebuild.last
          (blocksEnd desc state.currSb)).foldl Built.link rebuild.built) := by
  have noWrap :
      desc.maxcount * desc.blockSize % 2 ^ 32 =
        desc.maxcount * desc.blockSize := by
    refine Nat.mod_eq_of_lt (Nat.lt_of_le_of_lt fits ?_)
    decide
  unfold finishSmall linkFreeUpTo
  simp only [noWrap]
  rw [linkFree_eq positive (by omega), ok_bind]
  change _ =
    finishBuilt sc state
      ((strides desc.blockSize rebuild.last
        (state.currSb + desc.maxcount * desc.blockSize)).foldl Built.link
          rebuild.built)
  rw [← (foldl_link _).1]
  generalize List.foldl Rebuild.link rebuild _ = linked
  unfold finishBuilt Heap.heapPushPartial
  simp only [isDesc, inUse]
  rfl

/-- A round over a small superblock with marks. -/
theorem sweepStep_small
    {state : Sweep}
    {sc : Nat}
    {here later : List Nat}
    (before : AtSuperblock state sc here later) :
    sweepStep region state =
      (finishBuilt sc state
        (Built.ofBlocks state.heap.memory
          (freeBlocks (state.heap.desc state.currDesc) state.currSb here)) >>=
        fun heap => .ok (state.advance later heap)) := by
  have small := before.small
  have positive := small.holdsLink
  obtain ⟨marked, swept, built, isPartial⟩ :=
    @sweepMarks_small _ _ sc
      { anchor := { avail := 0, count := 0, state := .sbEmpty }
        head := 0
        last := state.currSb
        memory := state.heap.memory }
      small.heap small.ownSb (Nat.ne_of_lt small.notLast) (by omega) here later
      (fun mark member => (sameSb_iff small.aligned).mpr
        (before.inside mark member))
      (fun mark member same => by
        have := (sameSb_iff small.aligned).mp same
        have := before.behind mark member
        omega)
  rw [← before.marks] at swept
  have isPartial := isPartial (.inl before.anyMark)
  have fits :
      (state.heap.desc state.currDesc).maxcount *
          (state.heap.desc state.currDesc).blockSize ≤ sbSize := by
    rw [small.maxcount]
    exact Nat.div_mul_le_self _ _
  have finished :=
    @finishSmall_eq _ marked
      { state with heap := { state.heap with memory := marked.memory } }
      sc small.heap (by omega) fits rfl
  rw [built] at finished
  unfold sweepStep
  dsimp only
  rw [swept, ok_bind]
  simp only [isPartial, small.heap, reduceCtorEq, if_false,
    if_neg (Nat.ne_of_gt small.notFirst)]
  exact congrArg
    (fun result => result >>= fun heap => .ok (state.advance later heap))
    finished

/-- The anchor of a superblock whose free blocks are linked. -/
def rebuiltAnchor
    (desc : Descriptor)
    (currSb : Nat)
    (free : List Nat) : Anchor :=
  match free.getLast? with
  | none => { avail := desc.maxcount, count := 0, state := .sbFull }
  | some top =>
      { avail := (top - currSb) / desc.blockSize
        count := free.length
        state := .sbPartial }

/-- The heap with the rebuilt superblock of class `sc`. -/
def rebuiltHeap (sc : Nat) (state : Sweep) (free : List Nat) : Heap :=
  let linked :=
    { state.heap with memory := (Built.ofBlocks state.heap.memory free).memory }
  let listed :=
    if free = [] then
      linked
    else
      linked.setPartial sc (state.currDesc :: state.heap.partialList sc)
  listed.setAnchor state.currDesc
    (rebuiltAnchor (state.heap.desc state.currDesc) state.currSb free)

/-- The block in front of the chain has an index. -/
def TopAligned (desc : Descriptor) (currSb : Nat) (free : List Nat) : Prop :=
  ∀ top, top ∈ free.getLast? → (top - currSb) % desc.blockSize = 0

/-- The end of a round depends on the last block that was linked. -/
theorem finishBuilt_ofBlocks
    {sc : Nat}
    {state : Sweep}
    {free : List Nat}
    (nonzero : ∀ block, block ∈ free → 0 < block) :
    (TopAligned (state.heap.desc state.currDesc) state.currSb free →
        finishBuilt sc state (Built.ofBlocks state.heap.memory free) =
          .ok (rebuiltHeap sc state free)) ∧
      (¬ TopAligned (state.heap.desc state.currDesc) state.currSb free →
        finishBuilt sc state (Built.ofBlocks state.heap.memory free) =
          .error .badHead) := by
  unfold finishBuilt rebuiltHeap rebuiltAnchor TopAligned
  rw [Built.ofBlocks_count, Built.ofBlocks_head]
  rcases List.eq_nil_or_concat' free with rfl | ⟨front, top, rfl⟩
  · refine ⟨fun _ => rfl, fun notAligned => ?_⟩
    refine absurd ?_ notAligned
    intro top absent
    cases absent
  · have topPositive :=
      nonzero top (List.mem_append_right _ List.mem_cons_self)
    have notNil : front ++ [top] ≠ [] := by
      simp
    have notZero : (front ++ [top]).length ≠ 0 := by
      simp
    simp only [List.getLast?_append, List.getLast?_singleton, Option.some_or,
      Option.getD_some, Option.mem_def, Option.some.injEq, forall_eq',
      if_neg notNil, if_neg notZero, if_neg (Nat.ne_of_gt topPositive)]
    constructor
    · intro aligned
      rw [if_neg (not_not.mpr aligned)]
    · intro notAligned
      rw [if_pos notAligned]

end Gc

end Bxalloc
