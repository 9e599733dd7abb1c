import Bxalloc.HeapFile

namespace Bxalloc

/-!
# Crashes during recovery

The sweep writes anchors, erases descriptors of superblocks without marks and
writes links into blocks that are not marked.  None of that is read by the next
collection, with one exception: the default filter reads eight bytes at each of
the last seven bytes of a block, so it can see links behind the block.  If no
pointer tag starts there, a recovery that is interrupted any number of times
ends as it would have without the interruptions.
-/

open Lib (Closure Memory Reaches)

namespace Gc

/-- A link word may start at `address`; bytes from `limit` on are not known. -/
def TagAt (memory : Memory) (limit address : Nat) : Prop :=
  ((memory address).toNat = pptrPatternPos % 256 ∨
      (memory address).toNat = pptrPatternNeg % 256) ∧
    (address + 1 < limit →
      (memory (address + 1)).toNat = pptrPatternPos / 256)

/-- No pointer tag starts in the last seven bytes of the block at `addr`. -/
def TailClear (region : SbRegion) (image : Heap) (addr : Nat) : Prop :=
  ∀ i,
    i < (image.desc (region.owner addr)).blockSize →
    (image.desc (region.owner addr)).blockSize < i + 8 →
    ¬ TagAt image.memory
        (addr + (image.desc (region.owner addr)).blockSize) (addr + i)

/-- A word that decodes to a target starts with a tag. -/
theorem tagAt_of_readLink
    {memory : Memory}
    {address : Nat}
    (limit : Nat)
    (nonzero : readLink memory address ≠ 0) :
    TagAt memory limit address := by
  have valid := (valid_of_fromPptrOff nonzero).1
  have tag := (isValidPptr_iff _).mp valid
  have low :
      memory.load64 address % 65536 =
        (memory address).toNat + 256 * (memory (address + 1)).toNat := by
    have first := (memory address).toNat_lt
    have second := (memory (address + 1)).toNat_lt
    unfold Memory.load64
    omega
  rw [low] at tag
  have first := (memory address).toNat_lt
  have second := (memory (address + 1)).toNat_lt
  unfold TagAt
  simp only [pptrPatternPos, pptrPatternNeg] at tag ⊢
  omega

section Writes

variable
  {region : SbRegion}
  {image image' : Heap}
  {marked : Finset Nat}
  {n address : Nat}

/-- A later collection writes the same links over what an earlier one wrote. -/
theorem Built.ofBlocks_congr
    {memory memory' : Memory}
    {blocks : List Nat}
    (same :
      memory' address = memory address ∨
        ∃ block,
          block ∈ blocks ∧ block ≤ address ∧ address < block + 8) :
    (Built.ofBlocks memory' blocks).memory address =
      (Built.ofBlocks memory blocks).memory address := by
  induction blocks using List.reverseRecOn with
  | nil =>
      rcases same with same | ⟨block, member, -⟩
      · exact same
      · exact absurd member List.not_mem_nil
  | append_singleton front last inductionHypothesis =>
      rw [Built.ofBlocks_append, Built.ofBlocks_append]
      change
        Memory.store64 (Built.ofBlocks memory' front).memory last
            (toPptrOff (Built.ofBlocks memory' front).head last) address =
          Memory.store64 (Built.ofBlocks memory front).memory last
            (toPptrOff (Built.ofBlocks memory front).head last) address
      rw [Built.ofBlocks_head, Built.ofBlocks_head]
      unfold Memory.store64
      by_cases here : last ≤ address ∧ address < last + 8
      · rw [if_pos here, if_pos here]
      · rw [if_neg here, if_neg here]
        apply inductionHypothesis
        rcases same with same | ⟨block, member, inside⟩
        · exact Or.inl same
        · rcases List.mem_append.mp member with earlier | isLast
          · exact Or.inr ⟨block, earlier, inside⟩
          · rw [List.mem_singleton.mp isLast] at inside
            exact absurd inside here

/-- The first `n` rounds write a link over the byte at `address`. -/
def LinkSlot
    (region : SbRegion)
    (image : Heap)
    (marked : Finset Nat)
    (n address : Nat) : Prop :=
  ∃ k block,
    (1 ≤ k ∧ k ≤ n) ∧
      block ∈ linkedIn region image marked k ∧
      block ≤ address ∧ address < block + 8

theorem linkSlot_succ :
    LinkSlot region image marked (n + 1) address ↔
      LinkSlot region image marked n address ∨
        ∃ block,
          block ∈ linkedIn region image marked (n + 1) ∧
            block ≤ address ∧ address < block + 8 := by
  constructor
  · rintro ⟨k, block, ⟨positive, behind⟩, member, inside⟩
    rcases Nat.lt_or_eq_of_le behind with earlier | rfl
    · exact Or.inl ⟨k, block, ⟨positive, by omega⟩, member, inside⟩
    · exact Or.inr ⟨block, member, inside⟩
  · rintro (⟨k, block, ⟨positive, behind⟩, rest⟩ | ⟨block, rest⟩)
    · exact ⟨k, block, ⟨positive, by omega⟩, rest⟩
    · exact ⟨n + 1, block, ⟨by omega, Nat.le_refl _⟩, rest⟩

/-- All other bytes are left alone. -/
theorem sweptMemory_unlinked
    (noSlot : ¬ LinkSlot region image marked n address) :
    sweptMemory region image marked n address = image.memory address := by
  induction n with
  | zero => rfl
  | succ n inductionHypothesis =>
      rw [linkSlot_succ, not_or] at noSlot
      obtain ⟨earlier, now⟩ := noSlot
      rw [← inductionHypothesis earlier]
      refine Built.ofBlocks_memory ?_
      intro block member
      by_contra inside
      exact now ⟨block, member, by omega, by omega⟩

/-- The sweep of an image that differs only under the links. -/
theorem sweptMemory_congr
    (sameLinked :
      ∀ k,
        linkedIn region image' marked k = linkedIn region image marked k)
    (same :
      image'.memory address = image.memory address ∨
        LinkSlot region image marked n address) :
    sweptMemory region image' marked n address =
      sweptMemory region image marked n address := by
  induction n with
  | zero =>
      rcases same with same | ⟨k, block, ⟨positive, behind⟩, -⟩
      · exact same
      · omega
  | succ n inductionHypothesis =>
      change
        (Built.ofBlocks (sweptMemory region image' marked n)
            (linkedIn region image' marked (n + 1))).memory address =
          (Built.ofBlocks (sweptMemory region image marked n)
            (linkedIn region image marked (n + 1))).memory address
      rw [sameLinked]
      apply Built.ofBlocks_congr
      rw [linkSlot_succ] at same
      rcases same with same | earlier | now
      · exact Or.inl (inductionHypothesis (Or.inl same))
      · exact Or.inl (inductionHypothesis (Or.inr earlier))
      · exact Or.inr now

end Writes

/--
What a crash leaves of an image whose collection was running: bytes as they
were or as the sweep writes them, persistent fields of superblocks with marks,
and any line of a superblock that the sweep erases.
-/
structure Interrupted
    (region : SbRegion)
    (image : Heap)
    (marked : Finset Nat)
    (image' : Heap) : Prop where
  byte :
    ∀ address,
      image'.memory address = image.memory address ∨
        image'.memory address =
          sweptMemory region image marked (sweepRounds region image) address
  kept :
    ∀ k,
      marksIn region marked k ≠ [] →
      SameFields (image'.desc k) (image.desc k)
  beyond :
    ∀ k,
      ¬ (1 ≤ k ∧ k ≤ sweepRounds region image) →
      image'.desc k = image.desc k
  queue : image'.queue = image.queue
  currAddr : image'.currAddr = image.currAddr
  wholeLists :
    ∀ sc, nlist ≤ sc → image'.partialList sc = image.partialList sc

/-- What the collection needs of its image and its marks. -/
structure Sweepable
    (region : SbRegion)
    (image : Heap)
    (marked : Finset Nat) : Prop where
  currAbove : region.start + sbSize ≤ image.currAddr
  currBelow : image.currAddr ≤ region.limit
  allocated : ∀ addr, addr ∈ marked → AllocatedStart region image addr
  small : ∀ k, SmallMarks region image marked k
  tails : ∀ addr, addr ∈ marked → TailClear region image addr

namespace Interrupted

variable
  {region : SbRegion}
  {image image' : Heap}
  {marked : Finset Nat}

/-- Both sweeps take the same number of rounds. -/
theorem sweepRounds_eq
    (interrupted : Interrupted region image marked image') :
    sweepRounds region image' = sweepRounds region image := by
  unfold sweepRounds
  rw [interrupted.currAddr]

/-- Both sweeps link the same blocks. -/
theorem linkedIn_eq
    (interrupted : Interrupted region image marked image')
    (k : Nat) :
    linkedIn region image' marked k = linkedIn region image marked k := by
  unfold linkedIn
  split
  · rfl
  · next anyMark =>
      have same := interrupted.kept k anyMark
      unfold freeBlocks blocksEnd
      rw [same.blockSize, same.maxcount]

/-- A byte that the crash changed is under a link. -/
theorem changed
    (interrupted : Interrupted region image marked image')
    (address : Nat) :
    image'.memory address = image.memory address ∨
      LinkSlot region image marked (sweepRounds region image) address := by
  by_cases slot :
      LinkSlot region image marked (sweepRounds region image) address
  · exact Or.inr slot
  · rcases interrupted.byte address with same | swept
    · exact Or.inl same
    · exact Or.inl (swept.trans (sweptMemory_unlinked slot))

/-- Both sweeps leave the same memory. -/
theorem sweptMemory_eq
    (interrupted : Interrupted region image marked image') :
    sweptMemory region image' marked (sweepRounds region image) =
      sweptMemory region image marked (sweepRounds region image) := by
  funext address
  exact sweptMemory_congr interrupted.linkedIn_eq
    (interrupted.changed address)

/-- Superblocks of marks keep their persistent fields. -/
theorem sameFields
    (interrupted : Interrupted region image marked image')
    {addr : Nat}
    (isMarked : addr ∈ marked) :
    SameFields (image'.desc (region.owner addr))
      (image.desc (region.owner addr)) :=
  interrupted.kept _
    (List.ne_nil_of_mem (mem_marksIn.mpr ⟨isMarked, rfl⟩))

/-- The bytes of marked blocks survive. -/
theorem markedBytes
    (interrupted : Interrupted region image marked image')
    (sweepable : Sweepable region image marked)
    {addr offset : Nat}
    (isMarked : addr ∈ marked)
    (early : offset < (image.desc (region.owner addr)).blockSize) :
    image'.memory (addr + offset) = image.memory (addr + offset) := by
  obtain ⟨currAbove, currBelow, allocated, small, -⟩ := sweepable
  have swept := sweep_eq currBelow allocated currAbove small
  have kept :=
    sweep_keeps currBelow allocated currAbove swept small addr isMarked
  rcases interrupted.byte (addr + offset) with same | changed
  · exact same
  · rw [changed]
    exact kept.bytes offset early

/-- Tags of the last bytes are the same. -/
theorem tagAt_iff
    (interrupted : Interrupted region image marked image')
    (sweepable : Sweepable region image marked)
    {addr i : Nat}
    (isMarked : addr ∈ marked)
    (early : i < (image.desc (region.owner addr)).blockSize) :
    TagAt image'.memory
        (addr + (image.desc (region.owner addr)).blockSize) (addr + i) ↔
      TagAt image.memory
        (addr + (image.desc (region.owner addr)).blockSize) (addr + i) := by
  have first := interrupted.markedBytes sweepable isMarked early
  unfold TagAt
  rw [first]
  refine and_congr_right fun _ => ?_
  constructor
  all_goals
    intro second below
    have next :=
      interrupted.markedBytes sweepable isMarked
        (by omega : i + 1 < (image.desc (region.owner addr)).blockSize)
    rw [← Nat.add_assoc] at next
  · rw [← next]
    exact second below
  · rw [next]
    exact second below

/-- A marked block has the same pointers as before. -/
theorem readLink_eq
    (interrupted : Interrupted region image marked image')
    (sweepable : Sweepable region image marked)
    {addr i : Nat}
    (isMarked : addr ∈ marked)
    (early : i < (image.desc (region.owner addr)).blockSize) :
    readLink image'.memory (addr + i) = readLink image.memory (addr + i) := by
  by_cases inside : i + 8 ≤ (image.desc (region.owner addr)).blockSize
  · unfold readLink
    rw [Memory.load64_congr]
    intro location lower upper
    have bytes :=
      interrupted.markedBytes sweepable isMarked
        (by omega :
          location - addr < (image.desc (region.owner addr)).blockSize)
    rwa [Nat.add_sub_cancel' (by omega)] at bytes
  · -- The word runs over the end of the block, where the sweep may write.
    have clear :=
      sweepable.tails addr isMarked i early (Nat.lt_of_not_le inside)
    have noPointer : readLink image.memory (addr + i) = 0 := by
      by_contra nonzero
      exact clear (tagAt_of_readLink _ nonzero)
    have nonePointer : readLink image'.memory (addr + i) = 0 := by
      by_contra nonzero
      exact clear
        ((interrupted.tagAt_iff sweepable isMarked early).mp
          (tagAt_of_readLink _ nonzero))
    rw [noPointer, nonePointer]

/-- The next mark phase finds the same addresses. -/
theorem reachable_iff
    (interrupted : Interrupted region image marked image')
    (sweepable : Sweepable region image marked)
    {roots : List Nat}
    (isMarked :
      ∀ addr,
        addr ∈ marked ↔ Reachable region.start image roots addr)
    (addr : Nat) :
    Reachable region.start image' roots addr ↔
      Reachable region.start image roots addr := by
  have sameRange :
      ∀ addr,
        InRange region.start image' addr ↔ InRange region.start image addr := by
    intro addr
    unfold InRange
    rw [interrupted.currAddr]
  apply Closure.congr
  · intro root
    unfold IsRoot
    rw [sameRange]
  · intro reached isReached target
    have member := (isMarked reached).mpr isReached
    have sameSize :
        (image'.desc (sbIndex region.start reached)).blockSize =
          (image.desc (sbIndex region.start reached)).blockSize :=
      (interrupted.sameFields member).blockSize
    rw [mem_targets, mem_targets, sameRange, sameSize]
    refine and_congr_left fun _ => exists_congr fun i => ?_
    refine and_congr_right fun early => ?_
    rw [interrupted.readLink_eq sweepable member early]

/-- The next collection finds what it needs. -/
theorem sweepable
    (interrupted : Interrupted region image marked image')
    (before : Sweepable region image marked) :
    Sweepable region image' marked := by
  have sameCurr := interrupted.currAddr
  refine ⟨?_, ?_, ?_, ?_, ?_⟩
  · rw [sameCurr]
    exact before.currAbove
  · rw [sameCurr]
    exact before.currBelow
  · intro addr isMarked
    obtain ⟨sc, ok, isBlock, -⟩ :=
      (before.allocated addr isMarked).position before.currBelow
    have same := interrupted.sameFields isMarked
    refine ⟨region.owner addr, sc,
      ⟨ok.classLe, ok.indexPos, ?_, same.heap.trans ok.heap,
        same.superblock.trans ok.superblock,
        same.blockSize.trans ok.blockSize,
        same.maxcount.trans ok.maxcount⟩, same.isBlock.mpr isBlock⟩
    rw [sameCurr]
    exact ok.inside
  · rintro k addr isMarked rfl
    obtain ⟨sc, inUse, notOdd⟩ := before.small _ addr isMarked rfl
    exact ⟨sc, (interrupted.sameFields isMarked).heap.trans inUse, notOdd⟩
  · intro addr isMarked i
    rw [(interrupted.sameFields isMarked).blockSize]
    intro early late tag
    exact before.tails addr isMarked i early late
      ((interrupted.tagAt_iff before isMarked early).mp tag)

/-- Both sweeps leave the same descriptors of superblocks they pass. -/
theorem sweptDesc_eq
    (interrupted : Interrupted region image marked image')
    (k : Nat) :
    sweptDesc region image' marked k = sweptDesc region image marked k := by
  unfold sweptDesc
  split
  · rfl
  · next anyMark =>
      obtain ⟨heap, superblock, blockSize, maxcount⟩ :=
        interrupted.kept k anyMark
      have sameAnchor :
          rebuiltAnchor (image'.desc k) (region.sbAddr k)
              (linkedIn region image' marked k) =
            rebuiltAnchor (image.desc k) (region.sbAddr k)
              (linkedIn region image marked k) := by
        unfold rebuiltAnchor
        rw [interrupted.linkedIn_eq, blockSize, maxcount]
      rw [Descriptor.mk.injEq]
      exact ⟨sameAnchor, superblock, heap, blockSize, maxcount⟩

/-- Both sweeps list the same descriptors. -/
theorem sweptPartial_eq
    (interrupted : Interrupted region image marked image')
    (sc n : Nat) :
    sweptPartial region image' marked sc n =
      sweptPartial region image marked sc n := by
  induction n with
  | zero => rfl
  | succ n inductionHypothesis =>
      have sameCase :
          (linkedIn region image' marked (n + 1) ≠ [] ∧
              (image'.desc (n + 1)).heap = some sc) ↔
            linkedIn region image marked (n + 1) ≠ [] ∧
              (image.desc (n + 1)).heap = some sc := by
        rw [interrupted.linkedIn_eq]
        refine and_congr_right fun linked => ?_
        have anyMark : marksIn region marked (n + 1) ≠ [] :=
          fun noMark => linked (linkedIn_of_unmarked noMark)
        rw [(interrupted.kept (n + 1) anyMark).heap]
      rw [sweptPartial_succ, sweptPartial_succ, inductionHypothesis]
      by_cases listed :
          linkedIn region image marked (n + 1) ≠ [] ∧
            (image.desc (n + 1)).heap = some sc
      · rw [if_pos listed, if_pos (sameCase.mpr listed)]
      · rw [if_neg listed, if_neg (sameCase.not.mpr listed)]

/-- The heaps after `n` rounds, given the same memory. -/
theorem recoveredHeap_congr
    (interrupted : Interrupted region image marked image')
    {n : Nat}
    (sameMemory :
      sweptMemory region image' marked n = sweptMemory region image marked n)
    (beyond :
      ∀ k, ¬ (1 ≤ k ∧ k ≤ n) → image'.desc k = image.desc k) :
    recoveredHeap region image' marked n =
      recoveredHeap region image marked n := by
  refine heap_eq_of_fields ?_ ?_ ?_ ?_ ?_ rfl rfl
  · rw [recoveredHeap_memory, recoveredHeap_memory]
    exact sameMemory
  · funext k
    change
      (if 1 ≤ k ∧ k ≤ n then sweptDesc region image' marked k
        else image'.desc k) =
        if 1 ≤ k ∧ k ≤ n then sweptDesc region image marked k
        else image.desc k
    by_cases behind : 1 ≤ k ∧ k ≤ n
    · rw [if_pos behind, if_pos behind, interrupted.sweptDesc_eq]
    · rw [if_neg behind, if_neg behind, beyond k behind]
  · funext sc
    change
      (if sc < nlist then sweptPartial region image' marked sc n
        else image'.partialList sc) =
        if sc < nlist then sweptPartial region image marked sc n
        else image.partialList sc
    by_cases small : sc < nlist
    · rw [if_pos small, if_pos small, interrupted.sweptPartial_eq]
    · rw [if_neg small, if_neg small,
        interrupted.wholeLists sc (Nat.le_of_not_lt small)]
  · rw [recoveredHeap_queue, recoveredHeap_queue]
    exact interrupted.queue
  · rw [recoveredHeap_currAddr, recoveredHeap_currAddr]
    exact interrupted.currAddr

/-- The next process gets the same heap. -/
theorem recoveredHeap_eq
    (interrupted : Interrupted region image marked image') :
    recoveredHeap region image' marked (sweepRounds region image') =
      recoveredHeap region image marked (sweepRounds region image) := by
  rw [interrupted.sweepRounds_eq]
  exact interrupted.recoveredHeap_congr interrupted.sweptMemory_eq
    interrupted.beyond

end Interrupted

section Attempts

variable
  {region : SbRegion}
  {image image' : Heap}
  {marked : Finset Nat}
  {roots : List Nat}

/-- The images that interrupted collections leave, starting with `image`. -/
inductive Attempts
    (region : SbRegion)
    (roots : List Nat)
    (image : Heap) : Heap → Prop where
  | start : Attempts region roots image image
  | crash
      {earlier later : Heap}
      {marked : Finset Nat}
      (attempts : Attempts region roots image earlier)
      (isMarked :
        ∀ addr,
          addr ∈ marked ↔ Reachable region.start earlier roots addr)
      (interrupted : Interrupted region earlier marked later) :
      Attempts region roots image later

/-- A collection over marks it can sweep, in closed form. -/
theorem Sweepable.collected
    (sweepable : Sweepable region image marked)
    (isMarked :
      ∀ addr,
        addr ∈ marked ↔ Reachable region.start image roots addr) :
    ∃ result,
      collect region roots image = .ok result ∧
        result.marked = marked ∧
        result.availSb = sweptAvail region marked (sweepRounds region image) ∧
        result.restart =
          recoveredHeap region image marked (sweepRounds region image) := by
  obtain ⟨currAbove, currBelow, allocated, small, -⟩ := sweepable
  obtain ⟨marking, marks, exactly⟩ := mark_spec region.start image roots
  obtain rfl : marking.marked = marked := by
    ext addr
    rw [exactly, isMarked]
  have swept := sweep_eq currBelow allocated currAbove small
  obtain ⟨final, loop, consumed⟩ := sweep_completes currBelow allocated
  obtain rfl := Except.ok.inj (swept.symm.trans loop)
  exact ⟨_, collect_eq marks swept consumed, rfl, rfl, rfl⟩

/-- What interrupted collections leave is as good as the first image. -/
theorem Attempts.kept
    (attempts : Attempts region roots image image')
    (sweepable : Sweepable region image marked)
    (isMarked :
      ∀ addr,
        addr ∈ marked ↔ Reachable region.start image roots addr) :
    Sweepable region image' marked ∧
      (∀ addr,
        addr ∈ marked ↔ Reachable region.start image' roots addr) ∧
      sweepRounds region image' = sweepRounds region image ∧
      recoveredHeap region image' marked (sweepRounds region image') =
        recoveredHeap region image marked (sweepRounds region image) := by
  induction attempts with
  | start => exact ⟨sweepable, isMarked, rfl, rfl⟩
  | @crash earlier later marked' _ isMarked' interrupted inductionHypothesis =>
      obtain ⟨before, marksBefore, roundsBefore, heapBefore⟩ :=
        inductionHypothesis
      obtain rfl : marked' = marked := by
        ext addr
        rw [isMarked', marksBefore]
      refine ⟨interrupted.sweepable before, ?_, ?_, ?_⟩
      · intro addr
        rw [interrupted.reachable_iff before marksBefore, marksBefore]
      · exact interrupted.sweepRounds_eq.trans roundsBefore
      · exact interrupted.recoveredHeap_eq.trans heapBefore

end Attempts

end Gc

namespace HeapFile

variable {file : HeapFile} {region : SbRegion} {image image' : Heap}

end HeapFile

end Bxalloc
