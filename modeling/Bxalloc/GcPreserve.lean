import Bxalloc.GcComplete

namespace Bxalloc

/-!
# What recovery keeps

Which reachable blocks survive a collection.  The inner loop of the sweep
treats `heaps[NLIST]` as the heap of whole superblocks, the end of a round
treats `heaps[0]` so: a reachable whole superblock is put on a free chain, and
behind a reachable block of class 0 the cursor leaves the superblock
boundaries.  All other classes are rebuilt superblock by superblock.
-/

open Lib (Memory)

namespace Gc

variable {region : SbRegion} {image heap heap' : Heap}

/-- A block as the image has it, and not free. -/
structure BlockKept
    (region : SbRegion)
    (image heap : Heap)
    (availSb : List Nat)
    (addr : Nat) : Prop where
  fields :
    SameFields (heap.desc (region.owner addr))
      (image.desc (region.owner addr))
  bytes :
    ∀ offset,
      offset < (image.desc (region.owner addr)).blockSize →
      heap.memory (addr + offset) = image.memory (addr + offset)
  notChained : addr ∉ freeChain heap (region.owner addr)
  notFree : region.owner addr ∉ availSb

/-- The collection keeps every block in its mark set. -/
def Preserved
    (region : SbRegion)
    (image : Heap)
    (result : Collected) : Prop :=
  ∀ addr,
    addr ∈ result.marked →
    BlockKept region image result.heap result.availSb addr

/-- Chains below a limit survive changes of the memory behind it. -/
theorem freeChain_congr
    {k limit : Nat}
    (sameDesc : heap'.desc k = heap.desc k)
    (sameMemory :
      ∀ address, address < limit → heap'.memory address = heap.memory address)
    (below : ∀ block, block ∈ freeChain heap k → block + 8 ≤ limit) :
    freeChain heap' k = freeChain heap k := by
  unfold freeChain at below ⊢
  rw [sameDesc]
  refine Lib.LinkWalk.iterate_congr_of_mem ?_
  intro block member
  have := below block member
  unfold readLink
  rw [Memory.load64_congr]
  intro location _ upper
  exact sameMemory location (by omega)

/-- The sweep before superblock `j`: everything behind the cursor is kept. -/
structure Swept
    (region : SbRegion)
    (image : Heap)
    (marked : Finset Nat)
    (j : Nat)
    (state : Sweep) : Prop where
  indexPos : 1 ≤ j
  currSb : state.currSb = region.sbAddr j
  currDesc : state.currDesc = j
  marks :
    state.marks = marked.sort.filter fun mark => region.sbAddr j ≤ mark
  descAhead : ∀ k, j ≤ k → state.heap.desc k = image.desc k
  memoryAhead :
    ∀ address,
      region.sbAddr j ≤ address →
      state.heap.memory address = image.memory address
  kept :
    ∀ addr,
      addr ∈ marked →
      addr < region.sbAddr j →
      BlockKept region image state.heap state.availSb addr
  chains :
    ∀ addr block,
      addr ∈ marked →
      addr < region.sbAddr j →
      block ∈ freeChain state.heap (region.owner addr) →
      block + 8 ≤ region.sbAddr j
  avail : ∀ k, k ∈ state.availSb → k < j

/-- The sweep before a marked superblock of a small class. -/
structure AtSmall
    (region : SbRegion)
    (image : Heap)
    (marked : Finset Nat)
    (j sc : Nat)
    (state : Sweep) : Prop where
  swept : Swept region image marked j state
  ok : PersistentOk region image j sc
  before : AtSuperblock state sc state.here state.later
  starts : ∀ mark, mark ∈ state.here → IsBlock (image.desc j) mark

/-- The marks in superblock `k` belong to a class from 1 to `NLIST - 1`. -/
def SmallMarks
    (region : SbRegion)
    (image : Heap)
    (marked : Finset Nat)
    (k : Nat) : Prop :=
  ∀ addr,
    addr ∈ marked →
    region.owner addr = k →
    ∃ sc, (image.desc k).heap = some sc ∧ 0 < sc ∧ sc < nlist

section Rounds

variable
  {marked : Finset Nat}
  {state next : Sweep}
  {j : Nat}

namespace Swept

/-- The remaining marks are sorted and ahead. -/
theorem mem_marks
    (swept : Swept region image marked j state)
    {mark : Nat} :
    mark ∈ state.marks ↔ mark ∈ marked ∧ region.sbAddr j ≤ mark := by
  rw [swept.marks, List.mem_filter, Finset.mem_sort, decide_eq_true_eq]

theorem sbEnd
    (swept : Swept region image marked j state) :
    state.currSb + sbSize = region.sbAddr (j + 1) := by
  rw [swept.currSb, sbAddr_succ]

/-- The marks behind the current superblock. -/
theorem later_eq
    (swept : Swept region image marked j state) :
    state.later =
      marked.sort.filter fun mark => region.sbAddr (j + 1) ≤ mark := by
  unfold Sweep.later
  rw [swept.marks, List.filter_filter, swept.sbEnd]
  apply List.filter_congr
  intro mark _
  rw [sbAddr_succ, ← Bool.decide_and, decide_eq_decide]
  omega

theorem isDesc
    (swept : Swept region image marked j state) :
    state.heap.desc state.currDesc = image.desc j := by
  rw [swept.currDesc]
  exact swept.descAhead j (Nat.le_refl j)

/-- What a round keeps of the superblocks behind the cursor. -/
theorem kept_step
    (swept : Swept region image marked j state)
    (sameDesc : ∀ k, k < j → heap'.desc k = state.heap.desc k)
    (sameMemory :
      ∀ address,
        address < region.sbAddr j →
        heap'.memory address = state.heap.memory address)
    {availSb : List Nat}
    (avail : ∀ k, k ∈ availSb → k < j → k ∈ state.availSb)
    {addr : Nat}
    (isMarked : addr ∈ marked)
    (behind : addr < region.sbAddr j)
    (ownerBehind : region.owner addr < j)
    (inside :
      addr + (image.desc (region.owner addr)).blockSize ≤ region.sbAddr j) :
    BlockKept region image heap' availSb addr ∧
      freeChain heap' (region.owner addr) =
        freeChain state.heap (region.owner addr) := by
  have kept := swept.kept addr isMarked behind
  have sameChain :=
    freeChain_congr (sameDesc _ ownerBehind) sameMemory
      fun block member => swept.chains addr block isMarked behind member
  refine ⟨⟨?_, ?_, ?_, ?_⟩, sameChain⟩
  · rw [sameDesc _ ownerBehind]
    exact kept.fields
  · intro offset early
    rw [sameMemory _ (by omega)]
    exact kept.bytes offset early
  · rw [sameChain]
    exact kept.notChained
  · intro isFree
    exact kept.notFree (avail _ isFree ownerBehind)

end Swept

variable
  (currBelow : image.currAddr ≤ region.limit)
  (allocated :
    ∀ addr, addr ∈ marked → AllocatedStart region image addr)

include currBelow allocated

namespace Swept

omit allocated in
/-- Before `curr_addr` the facts of all classes hold. -/
theorem running
    (swept : Swept region image marked j state)
    (more : region.sbAddr j < image.currAddr) :
    Running region image marked state := by
  have userSpace := region.userSpace
  refine ⟨?_, ?_, ?_, ?_, ?_⟩
  · rw [swept.currDesc, swept.currSb]
    have size := sbSize_eq
    have aligned := region.aligned
    have above : region.start ≤ region.sbAddr j := Nat.le_add_right _ _
    rw [owner_eq_div above (by omega)]
    unfold SbRegion.sbAddr
    rw [Nat.add_mul_div_right _ _ (by decide), Nat.add_sub_cancel_left]
  · rw [swept.currSb]
    exact Nat.le_add_right _ _
  · intro k ahead
    rw [swept.currDesc] at ahead
    rw [swept.descAhead k ahead]
    exact ⟨rfl, rfl, rfl, rfl⟩
  · rw [swept.marks]
    exact (Finset.sortedLT_sort marked).pairwise.filter _
  · intro mark member
    obtain ⟨isMarked, ahead⟩ := swept.mem_marks.mp member
    refine ⟨isMarked, ?_⟩
    rw [swept.currSb, Nat.shiftRight_eq_div_pow, Nat.shiftRight_eq_div_pow]
    exact Nat.div_le_div_right ahead

/--
A round that moves to the next superblock keeps what is behind; what it does to
the marks of its own superblock is left to the caller.
-/
theorem advance
    (swept : Swept region image marked j state)
    (currSb : next.currSb = state.currSb + sbSize)
    (currDesc : next.currDesc = state.currDesc + 1)
    (marks : next.marks = state.later)
    (others : ∀ k, k ≠ j → next.heap.desc k = state.heap.desc k)
    (outside :
      ∀ address,
        address < region.sbAddr j ∨ region.sbAddr (j + 1) ≤ address →
        next.heap.memory address = state.heap.memory address)
    (avail : ∀ k, k ∈ next.availSb → k = j ∨ k ∈ state.availSb)
    (here :
      ∀ addr,
        addr ∈ marked →
        region.owner addr = j →
        BlockKept region image next.heap next.availSb addr ∧
          ∀ block,
            block ∈ freeChain next.heap (region.owner addr) →
            block + 8 ≤ region.sbAddr (j + 1)) :
    Swept region image marked (j + 1) next := by
  have isNext := sbAddr_succ region j
  have behind :
      ∀ addr,
        addr ∈ marked →
        region.owner addr < j →
        BlockKept region image next.heap next.availSb addr ∧
          ∀ block,
            block ∈ freeChain next.heap (region.owner addr) →
            block + 8 ≤ region.sbAddr (j + 1) := by
    intro addr isMarked ownerBehind
    have before :=
      ((allocated addr isMarked).behind currBelow).mpr ownerBehind
    obtain ⟨-, -, -, -, upper⟩ :=
      (allocated addr isMarked).position currBelow
    have ordered := sbAddr_le region ownerBehind
    obtain ⟨kept, sameChain⟩ :=
      @kept_step region image next.heap marked state j swept
        (fun k less => others k (Nat.ne_of_lt less))
        (fun address less => outside address (.inl less)) next.availSb
        (fun k member less => (avail k member).resolve_left (by omega)) addr
        isMarked before ownerBehind (by omega)
    refine ⟨kept, ?_⟩
    intro block member
    rw [sameChain] at member
    have := swept.chains addr block isMarked before member
    omega
  have both :
      ∀ addr,
        addr ∈ marked →
        addr < region.sbAddr (j + 1) →
        BlockKept region image next.heap next.availSb addr ∧
          ∀ block,
            block ∈ freeChain next.heap (region.owner addr) →
            block + 8 ≤ region.sbAddr (j + 1) := by
    intro addr isMarked before
    rw [(allocated addr isMarked).behind currBelow] at before
    rcases Nat.lt_succ_iff_lt_or_eq.mp before with less | same
    · exact behind addr isMarked less
    · exact here addr isMarked same
  refine ⟨by omega, ?_, ?_, marks.trans swept.later_eq, ?_, ?_, ?_, ?_, ?_⟩
  · rw [currSb, swept.sbEnd]
  · rw [currDesc, swept.currDesc]
  · intro k ahead
    rw [others k (by omega)]
    exact swept.descAhead k (by omega)
  · intro address ahead
    rw [outside address (.inr ahead)]
    exact swept.memoryAhead address (by omega)
  · intro addr isMarked before
    exact (both addr isMarked before).1
  · intro addr block isMarked before
    exact (both addr isMarked before).2 block
  · intro k member
    rcases avail k member with rfl | older
    · omega
    · have := swept.avail k older
      omega

/-- A mark of the current superblock comes before its end. -/
theorem mem_here
    (swept : Swept region image marked j state)
    {addr : Nat}
    (isMarked : addr ∈ marked) :
    addr ∈ state.here ↔ region.owner addr = j := by
  have before := @AllocatedStart.behind _ _ _ j (allocated addr isMarked) currBelow
  have inside :=
    @AllocatedStart.behind _ _ _ (j + 1) (allocated addr isMarked) currBelow
  unfold Sweep.here
  rw [List.mem_filter, decide_eq_true_eq, swept.mem_marks, swept.sbEnd,
    inside, ← Nat.not_lt, before]
  constructor
  · rintro ⟨⟨-, notBehind⟩, within⟩
    omega
  · rintro rfl
    exact ⟨⟨isMarked, Nat.lt_irrefl _⟩, Nat.lt_succ_self _⟩

/-- A round over a superblock without marks. -/
theorem erase
    (swept : Swept region image marked j state)
    (none : ∀ addr, addr ∈ marked → region.owner addr ≠ j) :
    sweepStep region state = .ok state.erase ∧
      Swept region image marked (j + 1) state.erase := by
  have away :
      ∀ mark, mark ∈ state.marks → state.currSb + sbSize ≤ mark := by
    intro mark member
    have isMarked := (swept.mem_marks.mp member).1
    by_contra before
    refine none mark isMarked
      ((swept.mem_here currBelow allocated isMarked).mp ?_)
    refine List.mem_filter.mpr ⟨member, ?_⟩
    rw [decide_eq_true_eq]
    omega
  refine ⟨sweepStep_unmarked ?_, ?_⟩
  · intro mark isFirst
    have := away mark (List.mem_of_head? isFirst)
    rw [sameSb_iff (by rw [swept.currSb]; exact sbAddr_aligned region j)]
    omega
  · refine swept.advance currBelow allocated rfl rfl ?_ ?_ ?_ ?_ ?_
    · change state.marks = state.later
      unfold Sweep.later
      rw [eq_comm, List.filter_eq_self]
      intro mark member
      rw [decide_eq_true_eq]
      exact away mark member
    · intro k differs
      simp only [Sweep.erase, Heap.setDesc, swept.currDesc]
      exact Function.update_of_ne differs _ _
    · intro address _
      rfl
    · intro k member
      rw [← swept.currDesc]
      exact List.mem_cons.mp member
    · intro addr isMarked here
      exact absurd here (none addr isMarked)

/-- The descriptor of a superblock with a mark. -/
theorem persistentOk
    {addr sc : Nat}
    (isMarked : addr ∈ marked)
    (here : region.owner addr = j)
    (inUse : (image.desc j).heap = some sc) :
    PersistentOk region image j sc := by
  obtain ⟨sc', ok, -⟩ := (allocated addr isMarked).position currBelow
  rw [here] at ok
  obtain rfl : sc = sc' := Option.some.inj (inUse.symm.trans ok.heap)
  exact ok

end Swept

/-- A superblock with a mark of a small class is such a place. -/
theorem Swept.atSmall
    (swept : Swept region image marked j state)
    {sc addr : Nat}
    (isMarked : addr ∈ marked)
    (here : region.owner addr = j)
    (inUse : (image.desc j).heap = some sc)
    (notFirst : 0 < sc)
    (notLast : sc < nlist) :
    AtSmall region image marked j sc state := by
  have ok := Swept.persistentOk currBelow allocated isMarked here inUse
  have inside := ok.inside
  have size := sbSize_eq
  have running := swept.running currBelow (by omega)
  have isCurrent := swept.currDesc
  have atStart : state.currSb = region.sbAddr state.currDesc := by
    rw [swept.currSb, isCurrent]
  have anyMark : state.here ≠ [] :=
    List.ne_nil_of_mem
      ((swept.mem_here currBelow allocated isMarked).mpr here)
  have split :=
    running.split currBelow allocated
      (by rw [swept.currSb]; exact sbAddr_aligned region j)
  refine ⟨swept, ok, ?_, ?_⟩
  · exact running.atSuperblock currBelow allocated atStart
      (by rw [isCurrent]; exact ok) notFirst notLast anyMark
  · rw [← swept.isDesc]
    exact split.starts

namespace AtSmall

variable {sc : Nat}

section Free

omit currBelow allocated

/-- The blocks that the round links are the unmarked blocks. -/
theorem mem_free
    (small : AtSmall region image marked j sc state)
    {block : Nat} :
    block ∈ state.free state.here ↔
      IsBlock (image.desc j) block ∧ block ∉ state.here := by
  rw [← small.swept.isDesc]
  refine small.before.mem_free_iff ?_
  rw [small.swept.isDesc]
  exact small.starts

theorem topAligned
    (small : AtSmall region image marked j sc state) :
    TopAligned (state.heap.desc state.currDesc) state.currSb
      (state.free state.here) := by
  refine small.before.topAligned ?_
  rw [small.swept.isDesc]
  exact small.starts

/-- Linked blocks hold their link inside the superblock. -/
theorem free_inside
    (small : AtSmall region image marked j sc state)
    {block : Nat}
    (member : block ∈ state.free state.here) :
    region.sbAddr j ≤ block ∧ block + 8 ≤ region.sbAddr (j + 1) := by
  have := small.ok.block_inside (small.mem_free.mp member).1
  have := small.ok.sizes.1
  have := sbAddr_succ region j
  omega

/-- The heap after the round. -/
theorem rebuilt_desc
    (small : AtSmall region image marked j sc state)
    (free : List Nat) :
    (rebuiltHeap sc state free).desc =
      Function.update state.heap.desc j
        { image.desc j with
          anchor := rebuiltAnchor (image.desc j) state.currSb free } := by
  rw [rebuiltHeap_desc, small.swept.isDesc, small.swept.currDesc]

/-- The round writes into its superblock only. -/
theorem rebuilt_outside
    (small : AtSmall region image marked j sc state)
    {address : Nat}
    (away :
      address < region.sbAddr j ∨ region.sbAddr (j + 1) ≤ address) :
    (rebuiltHeap sc state (state.free state.here)).memory address =
      state.heap.memory address := by
  rw [rebuiltHeap_memory]
  refine Built.ofBlocks_memory ?_
  intro block member
  have := small.free_inside member
  omega

end Free

/-- The marked blocks of the superblock are kept. -/
theorem rebuilt_kept
    (small : AtSmall region image marked j sc state)
    {addr : Nat}
    (isMarked : addr ∈ marked)
    (here : region.owner addr = j) :
    BlockKept region image (rebuiltHeap sc state (state.free state.here))
        state.availSb addr ∧
      ∀ block,
        block ∈
          freeChain (rebuiltHeap sc state (state.free state.here))
            (region.owner addr) →
        block + 8 ≤ region.sbAddr (j + 1) := by
  have swept := small.swept
  have holdsLink := small.ok.sizes.1
  have chain := (small.before.rebuilt_chain small.topAligned).1
  rw [swept.currDesc] at chain
  obtain ⟨-, -, isBlock, lower, upper⟩ :=
    (allocated addr isMarked).position currBelow
  rw [here] at isBlock lower upper ⊢
  have notFree : addr ∉ state.free state.here := by
    intro member
    exact (small.mem_free.mp member).2
      ((swept.mem_here currBelow allocated isMarked).mpr here)
  refine ⟨⟨?_, ?_, ?_, ?_⟩, ?_⟩
  · rw [here, small.rebuilt_desc, Function.update_self]
    exact ⟨rfl, rfl, rfl, rfl⟩
  · intro offset early
    rw [here] at early
    rw [rebuiltHeap_memory, ← swept.memoryAhead _ (by omega)]
    refine Built.ofBlocks_memory ?_
    intro block member
    have differs : block ≠ addr := by
      rintro rfl
      exact notFree member
    have := (small.mem_free.mp member).1.apart (by omega) isBlock differs
    omega
  · rw [here, chain, List.mem_reverse]
    exact notFree
  · intro isFree
    have := swept.avail _ isFree
    omega
  · intro block member
    rw [chain, List.mem_reverse] at member
    exact (small.free_inside member).2

/-- A round over a superblock with marks of a small class. -/
theorem rebuild
    (small : AtSmall region image marked j sc state) :
    ∃ next,
      sweepStep region state = .ok next ∧
        Swept region image marked (j + 1) next := by
  refine ⟨_, small.before.sweepStep_ok small.topAligned, ?_⟩
  refine small.swept.advance currBelow allocated rfl rfl rfl ?_ ?_ ?_ ?_
  · intro k differs
    change (rebuiltHeap sc state _).desc k = _
    rw [small.rebuilt_desc, Function.update_of_ne differs]
  · exact fun address away => small.rebuilt_outside away
  · exact fun k member => .inr member
  · intro addr isMarked here
    exact small.rebuilt_kept currBelow allocated isMarked here

end AtSmall

/-- A round over a superblock without marks of other classes. -/
theorem Swept.step
    (swept : Swept region image marked j state)
    (small : SmallMarks region image marked j) :
    ∃ next,
      sweepStep region state = .ok next ∧
        Swept region image marked (j + 1) next := by
  by_cases some : ∃ addr, addr ∈ marked ∧ region.owner addr = j
  · obtain ⟨addr, isMarked, here⟩ := some
    obtain ⟨sc, inUse, notFirst, notLast⟩ := small addr isMarked here
    exact
      (swept.atSmall currBelow allocated isMarked here inUse notFirst
        notLast).rebuild currBelow allocated
  · obtain ⟨stepped, sweptNext⟩ :=
      swept.erase currBelow allocated fun addr isMarked here =>
        some ⟨addr, isMarked, here⟩
    exact ⟨_, stepped, sweptNext⟩

/-- The sweep starts at the second superblock, with all marks ahead. -/
theorem Swept.start
    (currAbove : region.start + sbSize ≤ image.currAddr) :
    Swept region image marked 1 (sweepStart region image marked) := by
  have second : region.sbAddr 1 = region.start + sbSize := by
    unfold SbRegion.sbAddr
    rw [Nat.one_mul]
  have userSpace := region.userSpace
  have ahead :
      ∀ addr, addr ∈ marked → region.sbAddr 1 ≤ addr := by
    intro addr isMarked
    by_contra before
    have first :=
      ((allocated addr isMarked).behind currBelow).mp (Nat.lt_of_not_le before)
    obtain ⟨sc, ok, -⟩ := (allocated addr isMarked).position currBelow
    have := ok.indexPos
    omega
  refine ⟨Nat.le_refl 1, second.symm, ?_, ?_, fun _ _ => rfl, fun _ _ => rfl,
    ?_, ?_, ?_⟩
  · change region.owner (region.start + sbSize) = 1
    have index :=
      @sbIndex_of_aligned region.start 1 0 region.aligned (by decide)
        (by rw [Nat.one_mul]; omega)
    rw [Nat.one_mul] at index
    exact index
  · change marked.sort = _
    rw [eq_comm, List.filter_eq_self]
    intro mark member
    rw [decide_eq_true_eq]
    exact ahead mark ((marked.mem_sort _).mp member)
  · intro addr isMarked before
    have := ahead addr isMarked
    omega
  · intro addr block isMarked before
    have := ahead addr isMarked
    omega
  · intro k member
    cases member

/-- If only small classes are marked the sweep keeps all blocks. -/
theorem sweep_keeps
    (currAbove : region.start + sbSize ≤ image.currAddr)
    {final : Sweep}
    (loop :
      sweepLoop region image.currAddr (sweepFuel region image)
        (sweepStart region image marked) = .ok final)
    (small : ∀ k, SmallMarks region image marked k) :
    ∀ addr,
      addr ∈ marked →
      BlockKept region image final.heap final.availSb addr := by
  obtain ⟨⟨j, sweptFinal⟩, ended⟩ :=
    @sweepLoop_invariant region _ _ _ _
      (fun reached => ∃ j, Swept region image marked j reached) loop
      ⟨1, Swept.start currBelow allocated currAbove⟩
      (by
        rintro before after ⟨j, sweptBefore⟩ _ stepped
        obtain ⟨next, isNext, sweptNext⟩ :=
          sweptBefore.step currBelow allocated (small j)
        obtain rfl := Except.ok.inj (stepped.symm.trans isNext)
        exact ⟨j + 1, sweptNext⟩)
  intro addr isMarked
  refine sweptFinal.kept addr isMarked ?_
  obtain ⟨sc, ok, -, -, upper⟩ :=
    (allocated addr isMarked).position currBelow
  have holdsLink := ok.sizes.1
  have inside := ok.inside
  rw [sweptFinal.currSb] at ended
  omega

end Rounds

end Gc

end Bxalloc
