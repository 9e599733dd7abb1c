import Bxalloc.HeapInvariant

namespace Bxalloc

/-!
# Moves of blocks between places

The allocator changes the state of blocks in a few ways only: a block moves
between a thread's list and its user, a run of blocks moves from a thread's
list to the free chain of its superblock, blocks move from a free chain to a
thread's empty list, and a superblock with only free blocks is retired.  Each
lemma says what one of these moves does to the places, whatever the rest of
the call does to partial lists and the queue.
-/

open Lib

namespace Heap

variable {region : SbRegion} {heap heap' : Heap}

/-- Placement only looks at the places and the descriptors. -/
theorem Placement.congr_content
    (placement : Placement region heap)
    (sameContent : ∀ place, heap'.content place = heap.content place)
    (sameDesc : heap'.desc = heap.desc) :
    Placement region heap' := by
  refine ⟨?_, ?_⟩
  · refine (placement.splits.congr_content sameContent).congr_member ?_
    intro block
    simp only [IsBlock, blocks, sameDesc]
  · intro place block occurs
    rw [sameContent place] at occurs
    have old := placement.fits place block occurs
    cases place <;> simp_all only [Fits]

/-- Placement only looks at memory, descriptors, caches and live blocks. -/
theorem Placement.congr
    (placement : Placement region heap)
    (sameMemory : heap'.memory = heap.memory)
    (sameDesc : heap'.desc = heap.desc)
    (sameCache : heap'.cache = heap.cache)
    (sameLive : heap'.live = heap.live) :
    Placement region heap' := by
  refine placement.congr_content ?_ sameDesc
  intro place
  cases place <;>
    simp only [content, freeChain, cacheList, sameMemory, sameDesc,
      sameCache, sameLive]

/-- Geometry only looks at descriptors and `curr_addr`. -/
theorem Geometry.congr
    (geometry : Geometry region heap)
    (sameDesc : heap'.desc = heap.desc)
    (sameCurr : heap'.currAddr = heap.currAddr) :
    Geometry region heap' where
  descOk := by
    rw [sameDesc, sameCurr]
    exact geometry.descOk
  currAligned := by
    rw [sameCurr]
    exact geometry.currAligned
  currAbove := by
    rw [sameCurr]
    exact geometry.currAbove
  currBelow := by
    rw [sameCurr]
    exact geometry.currBelow

/-- Control does not look at memory, live blocks, or list heads and sizes. -/
theorem Control.congr
    (control : Control region heap)
    (sameDesc : heap'.desc = heap.desc)
    (samePartial : heap'.partialList = heap.partialList)
    (sameQueue : heap'.queue = heap.queue)
    (sameCurr : heap'.currAddr = heap.currAddr)
    (maxsizePos :
      ∀ thread sc, sc < nlist → 1 ≤ (heap'.cache thread sc).maxsize) :
    Control region heap' where
  geometry := control.geometry.congr sameDesc sameCurr
  wholeFull := by
    rw [sameDesc]
    exact control.wholeFull
  partialNodup := by
    rw [samePartial]
    exact control.partialNodup
  partialMem := by
    rw [samePartial, sameDesc]
    exact control.partialMem
  queueNodup := by
    rw [sameQueue]
    exact control.queueNodup
  queueSpare k member := by
    rw [sameQueue] at member
    have spare := control.queueSpare k member
    refine ⟨?_, spare.indexPos, ?_⟩
    · rw [sameDesc]
      exact spare.blank
    · rw [sameCurr]
      exact spare.inside
  maxsizePos := maxsizePos

/-- A chain of blocks other than the written one keeps its nodes. -/
theorem Geometry.iterate_write
    (geometry : Geometry region heap)
    {written start count : Nat}
    (target : Nat)
    (writtenBlock : heap.IsBlock region written)
    (nodes :
      ∀ node,
        node ∈ List.iterate (readLink heap.memory) start count →
        heap.IsBlock region node ∧ node ≠ written) :
    List.iterate (readLink (writeLink heap.memory written target))
        start count =
      List.iterate (readLink heap.memory) start count := by
  apply LinkWalk.iterate_congr_of_mem
  intro node member
  exact geometry.readLink_write_other target writtenBlock
    (nodes node member).1 (nodes node member).2

/-- A place without the written block keeps its blocks. -/
theorem Geometry.content_write
    (geometry : Geometry region heap)
    (placement : Placement region heap)
    {written : Nat}
    (target : Nat)
    (writtenBlock : heap.IsBlock region written)
    {place : Place}
    (absent : written ∉ heap.content place) :
    { heap with
      memory := writeLink heap.memory written target }.content place =
      heap.content place := by
  have nodes :
      ∀ node,
        node ∈ heap.content place →
        heap.IsBlock region node ∧ node ≠ written := by
    intro node member
    refine ⟨placement.isBlock place member, ?_⟩
    intro same
    exact absent (same ▸ member)
  cases place with
  | chain k =>
      exact geometry.iterate_write target writtenBlock nodes
  | cache thread sc =>
      exact geometry.iterate_write target writtenBlock nodes
  | live => rfl

/-- A nonempty free list starts with its first block. -/
theorem cacheList_cons
    {thread sc : Nat}
    (nonempty : 0 < (heap.cache thread sc).size) :
    heap.cacheList thread sc =
      (heap.cache thread sc).list ::
        List.iterate (readLink heap.memory)
          (readLink heap.memory (heap.cache thread sc).list)
          ((heap.cache thread sc).size - 1) := by
  obtain ⟨rest, shape⟩ := Nat.exists_eq_succ_of_ne_zero (by omega :
    (heap.cache thread sc).size ≠ 0)
  simp [cacheList, shape, List.iterate]

/-- The free list of another thread or class is not affected by `setCache`. -/
theorem setCache_other
    {thread sc thread' sc' : Nat}
    (cache : FreeList)
    (other : ¬ (thread' = thread ∧ sc' = sc)) :
    (heap.setCache thread sc cache).cache thread' sc' =
      heap.cache thread' sc' := by
  simp only [setCache, Function.update_apply]
  by_cases sameThread : thread' = thread
  · have otherClass : sc' ≠ sc := fun same => other ⟨sameThread, same⟩
    subst sameThread
    simp [otherClass]
  · simp [sameThread]

@[simp] theorem setCache_self
    (thread sc : Nat)
    (cache : FreeList) :
    (heap.setCache thread sc cache).cache thread sc = cache := by
  simp [setCache]

/-- A new list with a positive bound keeps all bounds positive. -/
theorem maxsizePos_setCache
    (control : Control region heap)
    {thread sc : Nat}
    {cache : FreeList}
    (positive : sc < nlist → 1 ≤ cache.maxsize)
    (thread' sc' : Nat)
    (valid : sc' < nlist) :
    1 ≤ ((heap.setCache thread sc cache).cache thread' sc').maxsize := by
  by_cases same : thread' = thread ∧ sc' = sc
  · obtain ⟨rfl, rfl⟩ := same
    rw [setCache_self]
    exact positive valid
  · rw [setCache_other cache same]
    exact control.maxsizePos thread' sc' valid

/-- Replacing one free list leaves all other places alone. -/
theorem content_setCache_other
    (heap : Heap)
    {thread sc : Nat}
    (cache : FreeList)
    {place : Place}
    (other : place ≠ .cache thread sc) :
    (heap.setCache thread sc cache).content place = heap.content place := by
  cases place with
  | chain k => rfl
  | cache thread' sc' =>
      have distinct : ¬ (thread' = thread ∧ sc' = sc) := by
        rintro ⟨rfl, rfl⟩
        exact other rfl
      simp only [content, cacheList, setCache_other cache distinct]
      rfl
  | live => rfl

/-- `Pop`: the first cached block becomes live. -/
theorem Placement.popBlock
    (placement : Placement region heap)
    {thread sc : Nat}
    (nonempty : 0 < (heap.cache thread sc).size) :
    Placement region
      { heap.setCache thread sc
          ((heap.cache thread sc).pop heap.memory).2 with
        live := (heap.cache thread sc).list :: heap.live } := by
  let popped := ((heap.cache thread sc).pop heap.memory).2
  have remaining :
      heap.cacheList thread sc =
        (heap.cache thread sc).list ::
          (heap.setCache thread sc popped).cacheList thread sc := by
    rw [cacheList_cons nonempty]
    simp only [cacheList, setCache_self]
    rfl
  refine placement.exchange (fun _ => ⟨rfl, rfl, rfl⟩)
    (.cache thread sc) .live (by simp) ?_ ?_ ?_ ?_
  · change
      (heap.cacheList thread sc ++ heap.live).Perm
        ((heap.setCache thread sc popped).cacheList thread sc ++
          (heap.cache thread sc).list :: heap.live)
    rw [remaining]
    exact List.perm_middle.symm
  · intro place notCache notLive
    cases place with
    | chain k => rfl
    | cache thread' sc' =>
        exact content_setCache_other heap popped notCache
    | live => exact absurd rfl notLive
  · intro block occurs
    apply placement.fits (.cache thread sc) block
    change block ∈ heap.cacheList thread sc
    rw [remaining]
    exact List.mem_cons_of_mem _ occurs
  · intro block occurs
    trivial

theorem Inv.popBlock
    (inv : Inv region heap)
    {thread sc : Nat}
    (nonempty : 0 < (heap.cache thread sc).size) :
    Inv region
      { heap.setCache thread sc
          ((heap.cache thread sc).pop heap.memory).2 with
        live := (heap.cache thread sc).list :: heap.live } := by
  refine ⟨inv.control.congr rfl rfl rfl rfl ?_,
    inv.placement.popBlock nonempty⟩
  exact maxsizePos_setCache inv.control
    (fun valid => inv.control.maxsizePos thread sc valid)

/-- `Push`: a live block becomes the first cached block. -/
theorem Placement.pushBlock
    (geometry : Geometry region heap)
    (placement : Placement region heap)
    {thread sc ptr : Nat}
    (isLive : ptr ∈ heap.live)
    (ofClass : (heap.desc (region.owner ptr)).heap = some sc) :
    Placement region
      { heap.setCache thread sc
          ((heap.cache thread sc).push heap.memory ptr).2 with
        memory := ((heap.cache thread sc).push heap.memory ptr).1
        live := heap.live.erase ptr } := by
  let cache := heap.cache thread sc
  let written : Heap :=
    { heap with memory := writeLink heap.memory ptr cache.list }
  have isBlock : heap.IsBlock region ptr :=
    placement.isBlock .live isLive
  have absent :
      ∀ place, place ≠ .live → ptr ∉ heap.content place := by
    intro place notLive occurs
    exact notLive (placement.splits.place_eq occurs isLive)
  have unchanged :
      ∀ place, place ≠ .live → written.content place = heap.content place :=
    fun place notLive =>
      geometry.content_write placement cache.list isBlock
        (absent place notLive)
  have longer :
      (written.setCache thread sc
          { cache with list := ptr, size := cache.size + 1 }).cacheList
            thread sc =
        ptr :: heap.cacheList thread sc := by
    simp only [cacheList, setCache_self, List.iterate]
    congr 1
    change
      List.iterate (readLink written.memory)
          (readLink written.memory ptr) cache.size = _
    by_cases isEmpty : cache.size = 0
    · simp only [isEmpty, List.iterate]
      change _ = List.iterate _ cache.list cache.size
      rw [isEmpty]
      rfl
    · -- A nonempty list starts at a block, so its address survives encoding.
      have first : cache.list ∈ heap.cacheList thread sc := by
        rw [cacheList_cons (Nat.pos_of_ne_zero isEmpty)]
        exact List.mem_cons_self
      have window :=
        geometry.block_window (placement.isBlock (.cache thread sc) first)
      have readBack : readLink written.memory ptr = cache.list :=
        geometry.readLink_write_self isBlock (by omega)
      rw [readBack]
      exact unchanged (.cache thread sc) (by simp)
  refine placement.exchange (fun _ => ⟨rfl, rfl, rfl⟩)
    (.cache thread sc) .live (by simp) ?_ ?_ ?_ ?_
  · change
      (heap.cacheList thread sc ++ heap.live).Perm
        ((written.setCache thread sc
          { cache with list := ptr, size := cache.size + 1 }).cacheList
            thread sc ++ heap.live.erase ptr)
    rw [longer, List.cons_append]
    refine List.Perm.trans ?_ List.perm_middle
    exact (List.perm_cons_erase isLive).append_left _
  · intro place notCache notLive
    rw [← unchanged place notLive]
    cases place with
    | chain k => rfl
    | cache thread' sc' =>
        exact content_setCache_other written _ notCache
    | live => exact absurd rfl notLive
  · intro block occurs
    change block ∈ (written.setCache thread sc
      { cache with list := ptr, size := cache.size + 1 }).cacheList
        thread sc at occurs
    rw [longer] at occurs
    rcases List.mem_cons.mp occurs with isPtr | wasCached
    · rw [isPtr]
      exact ofClass
    · exact placement.fits (.cache thread sc) block wasCached
  · intro block occurs
    trivial

theorem Inv.pushBlock
    (inv : Inv region heap)
    {thread sc ptr : Nat}
    (isLive : ptr ∈ heap.live)
    (ofClass : (heap.desc (region.owner ptr)).heap = some sc) :
    Inv region
      { heap.setCache thread sc
          ((heap.cache thread sc).push heap.memory ptr).2 with
        memory := ((heap.cache thread sc).push heap.memory ptr).1
        live := heap.live.erase ptr } := by
  refine ⟨inv.control.congr rfl rfl rfl rfl ?_,
    inv.placement.pushBlock inv.control.geometry isLive ofClass⟩
  exact maxsizePos_setCache inv.control
    (fun valid => inv.control.maxsizePos thread sc valid)

/-- The available index of a proper anchor is at most the block count. -/
theorem AnchorOk.avail_le
    {anchor : Anchor}
    {maxcount : Nat}
    (ok : AnchorOk anchor maxcount) :
    anchor.avail ≤ maxcount := by
  unfold AnchorOk at ok
  split at ok
  · exact ok.elim
  · exact ok.2
  · exact Nat.le_of_lt ok.2.2
  · exact Nat.le_of_lt ok.2

/-- The chain of a superblock starts at an address that fits in a link. -/
theorem Geometry.chainStart_lt
    (geometry : Geometry region heap)
    {k sc : Nat}
    (used : (heap.desc k).heap = some sc) :
    (heap.desc k).superblock +
        (heap.desc k).anchor.avail * (heap.desc k).blockSize < 2 ^ 48 := by
  have ok := geometry.descOk k sc used
  have low := geometry.below used
  have product :
      (heap.desc k).anchor.avail * (heap.desc k).blockSize ≤
        (heap.desc k).maxcount * (heap.desc k).blockSize :=
    Nat.mul_le_mul_right _ ok.anchor.avail_le
  have whole := ok.sizes.2.2.2.2
  rw [ok.superblock]
  omega

/-- A blank descriptor has an empty chain. -/
theorem freeChain_of_blank
    {k : Nat}
    (blank : (heap.desc k).heap = none) :
    heap.freeChain k = [] := by
  simp [freeChain, freeCount, blank]

/-- A new anchor keeps the geometry of every descriptor. -/
theorem setAnchor_same
    (heap : Heap)
    (k : Nat)
    (anchor : Anchor)
    (j : Nat) :
    ((heap.setAnchor k anchor).desc j).heap = (heap.desc j).heap ∧
      ((heap.setAnchor k anchor).desc j).maxcount =
        (heap.desc j).maxcount ∧
      ((heap.setAnchor k anchor).desc j).blockSize =
        (heap.desc j).blockSize := by
  simp only [setAnchor, setDesc, Function.update_apply]
  by_cases same : j = k
  · simp [same]
  · simp [same]

/-- A new descriptor for one superblock leaves all other places alone. -/
theorem content_setDesc_other
    (heap : Heap)
    {k : Nat}
    (desc : Descriptor)
    {place : Place}
    (other : place ≠ .chain k) :
    (heap.setDesc k desc).content place = heap.content place := by
  cases place with
  | chain j =>
      have distinct : j ≠ k := fun same => other (same ▸ rfl)
      simp [content, freeChain, setDesc, distinct]
  | cache thread sc => rfl
  | live => rfl

/-- A new anchor for one superblock leaves all other places alone. -/
theorem content_setAnchor_other
    (heap : Heap)
    {k : Nat}
    (anchor : Anchor)
    {place : Place}
    (other : place ≠ .chain k) :
    (heap.setAnchor k anchor).content place = heap.content place :=
  content_setDesc_other heap _ other

/-- A free list is its leading run followed by what stays cached. -/
theorem cacheList_append
    {thread sc more : Nat}
    (enough : more + 1 ≤ (heap.cache thread sc).size) :
    heap.cacheList thread sc =
      List.iterate (readLink heap.memory) (heap.cache thread sc).list
          (more + 1) ++
        List.iterate (readLink heap.memory)
          ((readLink heap.memory)^[more + 1] (heap.cache thread sc).list)
          ((heap.cache thread sc).size - (more + 1)) := by
  rw [← List.iterate_add, Nat.add_sub_cancel' enough]
  rfl

/-- The last link of a leading run leads elsewhere; no other walk changes. -/
structure Redirected
    (heap : Heap)
    (thread sc more target : Nat)
    (memory : Memory) : Prop where
  others :
    ∀ place,
      place ≠ .cache thread sc →
      ({ heap with memory := memory } : Heap).content place =
        heap.content place
  rest :
    List.iterate (readLink memory)
        ((readLink heap.memory)^[more + 1] (heap.cache thread sc).list)
        ((heap.cache thread sc).size - (more + 1)) =
      List.iterate (readLink heap.memory)
        ((readLink heap.memory)^[more + 1] (heap.cache thread sc).list)
        ((heap.cache thread sc).size - (more + 1))
  spliced :
    ∀ count,
      List.iterate (readLink memory) (heap.cache thread sc).list
          (more + 1 + count) =
        List.iterate (readLink heap.memory) (heap.cache thread sc).list
            (more + 1) ++
          List.iterate (readLink memory) target count

/-- Writing the link of the last block of a leading run. -/
theorem Placement.redirect
    (geometry : Geometry region heap)
    (placement : Placement region heap)
    {thread sc more tail target : Nat}
    (enough : more + 1 ≤ (heap.cache thread sc).size)
    (isTail :
      tail = (readLink heap.memory)^[more] (heap.cache thread sc).list)
    (targetFits : target < 2 ^ 48) :
    Redirected heap thread sc more target
      (writeLink heap.memory tail target) := by
  have cached := cacheList_append enough
  have cachedNodup : (heap.cacheList thread sc).Nodup :=
    placement.splits.nodup (.cache thread sc)
  have inCache :
      ∀ index,
        index < more + 1 →
        (readLink heap.memory)^[index] (heap.cache thread sc).list ∈
          heap.cacheList thread sc := by
    intro index early
    rw [cached]
    exact List.mem_append_left _ (LinkWalk.iterate_mem early)
  have tailCached : tail ∈ heap.cacheList thread sc := by
    rw [isTail]
    exact inCache more (Nat.lt_succ_self more)
  have tailBlock : heap.IsBlock region tail :=
    placement.isBlock (.cache thread sc) tailCached
  rw [cached] at cachedNodup
  obtain ⟨runNodup, -, apart⟩ := List.nodup_append'.mp cachedNodup
  refine ⟨?_, ?_, ?_⟩
  · intro place notCache
    apply geometry.content_write placement target tailBlock
    intro occurs
    exact notCache (placement.splits.place_eq occurs tailCached)
  · apply geometry.iterate_write target tailBlock
    intro node member
    constructor
    · apply placement.isBlock (.cache thread sc)
      change node ∈ heap.cacheList thread sc
      rw [cached]
      exact List.mem_append_right _ member
    · rintro rfl
      rw [isTail] at member
      exact apart (LinkWalk.iterate_mem (Nat.lt_succ_self more)) member
  · intro count
    refine LinkWalk.iterate_splice count ?_ ?_
    · intro index early
      apply geometry.readLink_write_other target tailBlock
      · exact placement.isBlock (.cache thread sc) (inCache index (by omega))
      · rw [isTail]
        exact LinkWalk.iterate_ne_of_nodup (more + 1) runNodup (by omega)
          (by omega) (by omega)
    · rw [← isTail]
      exact geometry.readLink_write_self tailBlock targetFits

/--
The exchange of `flush_cache`: the first `more + 1` blocks of a thread's list,
all of superblock `k`, go to the front of its free chain.
-/
theorem Placement.flushBlocks
    (geometry : Geometry region heap)
    (placement : Placement region heap)
    {thread sc k more tail : Nat}
    {anchor : Anchor}
    (used : (heap.desc k).heap = some sc)
    (enough : more + 1 ≤ (heap.cache thread sc).size)
    (isTail :
      tail = (readLink heap.memory)^[more] (heap.cache thread sc).list)
    (owned :
      ∀ index,
        index ≤ more →
        region.owner
          ((readLink heap.memory)^[index] (heap.cache thread sc).list) = k)
    (newStart :
      (heap.desc k).superblock + anchor.avail * (heap.desc k).blockSize =
        (heap.cache thread sc).list)
    (newCount :
      freeCount { heap.desc k with anchor := anchor } =
        more + 1 + freeCount (heap.desc k)) :
    let final : Heap :=
      { (heap.setCache thread sc
          ((heap.cache thread sc).popList
            (readLink heap.memory tail) (more + 1))).setAnchor k anchor with
        memory :=
          writeLink heap.memory tail
            ((heap.desc k).superblock +
              (heap.desc k).anchor.avail * (heap.desc k).blockSize) }
    Placement region final ∧
      ∀ thread' sc',
        final.cacheList thread' sc' <:+ heap.cacheList thread' sc' := by
  intro final
  have cached := cacheList_append enough
  have redirected :=
    placement.redirect geometry enough isTail (geometry.chainStart_lt used)
  have nextTail :
      readLink heap.memory tail =
        (readLink heap.memory)^[more + 1] (heap.cache thread sc).list := by
    rw [Function.iterate_succ_apply', isTail]
  have finalCache :
      final.cacheList thread sc =
        List.iterate (readLink heap.memory)
          ((readLink heap.memory)^[more + 1] (heap.cache thread sc).list)
          ((heap.cache thread sc).size - (more + 1)) := by
    rw [← redirected.rest]
    have sameList : final.cache thread sc =
        (heap.cache thread sc).popList
          (readLink heap.memory tail) (more + 1) :=
      setCache_self thread sc _
    unfold cacheList
    rw [sameList]
    simp only [FreeList.popList, nextTail]
    rfl
  have finalDesc : final.desc k = { heap.desc k with anchor := anchor } := by
    simp [final, setAnchor, setDesc, setCache]
  have finalChain :
      final.freeChain k =
        List.iterate (readLink heap.memory) (heap.cache thread sc).list
          (more + 1) ++ heap.freeChain k := by
    have sameChain := redirected.others (.chain k) (by simp)
    unfold freeChain
    rw [finalDesc, newCount]
    change List.iterate (readLink final.memory)
      ((heap.desc k).superblock +
        anchor.avail * (heap.desc k).blockSize) _ = _
    rw [newStart, redirected.spliced]
    congr 1
  have others :
      ∀ place,
        place ≠ .cache thread sc →
        place ≠ .chain k →
        final.content place = heap.content place := by
    intro place notCache notChain
    rw [← redirected.others place notCache]
    refine (content_setAnchor_other
      (Heap.setCache { heap with memory := _ } thread sc _) anchor
      notChain).trans ?_
    exact content_setCache_other _ _ notCache
  refine ⟨placement.exchange
    (setAnchor_same (heap.setCache thread sc _) k anchor)
    (.cache thread sc) (.chain k) (by simp) ?_ others ?_ ?_, ?_⟩
  · change
      (heap.cacheList thread sc ++ heap.freeChain k).Perm
        (final.cacheList thread sc ++ final.freeChain k)
    rw [finalCache, finalChain, cached]
    simp only [← List.append_assoc]
    exact List.perm_append_comm.append_right _
  · intro block occurs
    apply placement.fits (.cache thread sc) block
    change block ∈ heap.cacheList thread sc
    rw [cached]
    change block ∈ final.cacheList thread sc at occurs
    rw [finalCache] at occurs
    exact List.mem_append_right _ occurs
  · intro block occurs
    change block ∈ final.freeChain k at occurs
    rw [finalChain] at occurs
    rcases List.mem_append.mp occurs with inRun | inChain
    · obtain ⟨index, early, shape⟩ := List.mem_iterate.mp inRun
      rw [shape]
      exact owned index (by omega)
    · exact placement.fits (.chain k) block inChain
  · intro thread' sc'
    by_cases same : Place.cache thread' sc' = .cache thread sc
    · injection same with sameThread sameClass
      rw [sameThread, sameClass, finalCache, cached]
      exact List.suffix_append _ _
    · have unchanged :
          final.cacheList thread' sc' = heap.cacheList thread' sc' :=
        others (.cache thread' sc') same (by simp)
      rewrite [unchanged]
      exact List.suffix_rfl

/-- Retiring a superblock with only free blocks forgets exactly its blocks. -/
theorem Placement.retire
    (geometry : Geometry region heap)
    (placement : Placement region heap)
    {k sc : Nat}
    (used : (heap.desc k).heap = some sc)
    (complete : freeCount (heap.desc k) = (heap.desc k).maxcount) :
    Placement region (heap.setDesc k .blank) := by
  have chainBlocks :
      ∀ block,
        block ∈ heap.freeChain k →
        block ∈ heap.blocks region k := by
    intro block occurs
    have owned : region.owner block = k :=
      placement.fits (.chain k) block occurs
    have member :=
      geometry.mem_blocks_owner (placement.isBlock (.chain k) occurs)
    rwa [owned] at member
  have allFree :
      ∀ {block},
        block ∈ heap.blocks region k →
        block ∈ heap.freeChain k := by
    intro block member
    refine Geometry.mem_of_length_maxcount
      (placement.splits.nodup (.chain k)) chainBlocks ?_ member
    simp [content, freeChain, complete]
  have blankHere : (heap.setDesc k .blank).desc k = .blank := by
    simp [setDesc]
  have keepsOther :
      ∀ {j}, j ≠ k → (heap.setDesc k .blank).desc j = heap.desc j := by
    intro j distinct
    simp [setDesc, distinct]
  refine ⟨?_, ?_⟩
  · refine placement.splits.drop (.chain k) ?_ ?_ ?_
    · exact freeChain_of_blank (by rw [blankHere]; rfl)
    · intro place notChain
      exact content_setDesc_other heap _ notChain
    · intro block
      constructor
      · rintro ⟨j, usedThere, member⟩
        have distinct : j ≠ k := by
          intro same
          rw [same, blankHere] at usedThere
          exact usedThere rfl
        unfold blocks at member
        rw [keepsOther distinct] at usedThere member
        obtain ⟨sc', usedBy⟩ := Option.ne_none_iff_exists'.mp usedThere
        have owned : region.owner block = j :=
          geometry.owner_of_mem_blocks usedBy member
        refine ⟨⟨j, usedThere, member⟩, ?_⟩
        intro inChain
        exact distinct
          (owned.symm.trans (placement.fits (.chain k) block inChain))
      · rintro ⟨isBlock, notFree⟩
        have member := geometry.mem_blocks_owner isBlock
        have distinct : region.owner block ≠ k := by
          intro same
          rw [same] at member
          exact notFree (allFree member)
        obtain ⟨sc', index, usedBy, -, -⟩ :=
          geometry.isBlock_cases isBlock
        refine ⟨region.owner block, ?_, ?_⟩
        · rw [keepsOther distinct, usedBy]
          simp
        · unfold blocks
          rw [keepsOther distinct]
          exact member
  · intro place block occurs
    cases place with
    | chain j =>
        by_cases same : j = k
        · subst same
          have nothing :
              (heap.setDesc j .blank).content (.chain j) = [] :=
            freeChain_of_blank (by rw [blankHere]; rfl)
          rw [nothing] at occurs
          exact absurd occurs List.not_mem_nil
        · rw [content_setDesc_other heap _ (by simpa using same)] at occurs
          exact placement.fits (.chain j) block occurs
    | cache thread sc' =>
        have cached : block ∈ heap.content (.cache thread sc') := occurs
        have fits := placement.fits (.cache thread sc') block cached
        have distinct : region.owner block ≠ k := by
          intro same
          have member :=
            geometry.mem_blocks_owner
              (placement.isBlock (.cache thread sc') cached)
          rw [same] at member
          have clash :=
            placement.splits.place_eq cached
              (show block ∈ heap.content (.chain k) from allFree member)
          cases clash
        change ((heap.setDesc k .blank).desc (region.owner block)).heap = _
        rw [keepsOther distinct]
        exact fits
    | live => trivial

/--
Both parts of a free chain stay linked when at most the link of the last taken
block is written.
-/
theorem Placement.takenLinks
    (placement : Placement region heap)
    {k more left start : Nat}
    {memory : Memory}
    (startShape :
      start =
        (heap.desc k).superblock +
          (heap.desc k).anchor.avail * (heap.desc k).blockSize)
    (count : more + 1 + left = freeCount (heap.desc k))
    (sameLinks :
      ∀ block,
        heap.IsBlock region block →
        block ≠ (readLink heap.memory)^[more] start →
        readLink memory block = readLink heap.memory block) :
    List.iterate (readLink memory) start (more + 1) =
        List.iterate (readLink heap.memory) start (more + 1) ∧
      List.iterate (readLink memory)
          ((readLink heap.memory)^[more + 1] start) left =
        List.iterate (readLink heap.memory)
          ((readLink heap.memory)^[more + 1] start) left := by
  have chainShape :
      heap.freeChain k =
        List.iterate (readLink heap.memory) start (more + 1 + left) := by
    rw [freeChain, ← startShape, ← count]
  have chainNodup : (heap.freeChain k).Nodup :=
    placement.splits.nodup (.chain k)
  rw [chainShape] at chainNodup
  refine LinkWalk.iterate_cut chainNodup ?_
  intro node member notTail
  rw [← chainShape] at member
  exact sameLinks node (placement.isBlock (.chain k) member) notTail

/--
The exchange of `malloc_from_partial`: the first `more + 1` blocks of a free
chain become the list of a thread whose list was empty.
-/
theorem Placement.takeBlocks
    (placement : Placement region heap)
    {thread sc k : Nat}
    (more : Nat)
    (anchor : Anchor)
    (cache : FreeList)
    (memory : Memory)
    (used : (heap.desc k).heap = some sc)
    (emptyList : (heap.cache thread sc).size = 0)
    (listShape :
      cache.list =
        (heap.desc k).superblock +
          (heap.desc k).anchor.avail * (heap.desc k).blockSize)
    (sizeShape : cache.size = more + 1)
    (sameLinks :
      ∀ block,
        heap.IsBlock region block →
        block ≠ (readLink heap.memory)^[more] cache.list →
        readLink memory block = readLink heap.memory block)
    (newStart :
      0 < freeCount { heap.desc k with anchor := anchor } →
      (heap.desc k).superblock + anchor.avail * (heap.desc k).blockSize =
        (readLink heap.memory)^[more + 1] cache.list)
    (newCount :
      more + 1 + freeCount { heap.desc k with anchor := anchor } =
        freeCount (heap.desc k)) :
    Placement region
      { (heap.setAnchor k anchor).setCache thread sc cache with
        memory := memory } := by
  let link := readLink heap.memory
  let link' := readLink memory
  let start := cache.list
  let tail := link^[more] start
  let left := freeCount { heap.desc k with anchor := anchor }
  have chainShape :
      heap.freeChain k =
        List.iterate link start (more + 1) ++
          List.iterate link (link^[more + 1] start) left := by
    rw [← List.iterate_add, newCount]
    simp only [freeChain, start, listShape]
    rfl
  have chainNodup : (heap.freeChain k).Nodup :=
    placement.splits.nodup (.chain k)
  have parts := chainNodup
  rw [chainShape] at parts
  obtain ⟨-, -, apart⟩ := List.nodup_append'.mp parts
  have tailTaken : tail ∈ List.iterate link start (more + 1) :=
    LinkWalk.iterate_mem (Nat.lt_succ_self more)
  have tailFree : tail ∈ heap.freeChain k := by
    rw [chainShape]
    exact List.mem_append_left _ tailTaken
  have untouched :
      ∀ place,
        place ≠ .chain k →
        { heap with memory := memory }.content place =
          heap.content place := by
    intro place notChain
    have nodes :
        ∀ node,
          node ∈ heap.content place →
          readLink memory node = readLink heap.memory node := by
      intro node member
      refine sameLinks node (placement.isBlock place member) ?_
      intro isTail
      subst isTail
      exact notChain (placement.splits.place_eq member tailFree)
    cases place with
    | chain j => exact LinkWalk.iterate_congr_of_mem nodes
    | cache thread' sc' => exact LinkWalk.iterate_congr_of_mem nodes
    | live => rfl
  obtain ⟨takenSame, leftSame⟩ :
      List.iterate link' start (more + 1) =
          List.iterate link start (more + 1) ∧
        List.iterate link' (link^[more + 1] start) left =
          List.iterate link (link^[more + 1] start) left :=
    placement.takenLinks listShape newCount sameLinks
  let final : Heap :=
    { (heap.setAnchor k anchor).setCache thread sc cache with
      memory := memory }
  have finalCache :
      final.cacheList thread sc = List.iterate link start (more + 1) := by
    have sameList : final.cache thread sc = cache :=
      setCache_self thread sc cache
    unfold cacheList
    rw [sameList, sizeShape, ← takenSame]
  have finalDesc : final.desc k = { heap.desc k with anchor := anchor } := by
    simp [final, setAnchor, setDesc, setCache]
  have finalChain :
      final.freeChain k =
        List.iterate link (link^[more + 1] start) left := by
    unfold freeChain
    rw [finalDesc]
    by_cases nothing : left = 0
    · change List.iterate _ _ left = _
      rw [nothing]
      rfl
    · rw [← leftSame]
      change List.iterate link'
        ((heap.desc k).superblock +
          anchor.avail * (heap.desc k).blockSize) left = _
      rw [newStart (Nat.pos_of_ne_zero nothing)]
  have wasEmpty : heap.cacheList thread sc = [] := by
    simp [cacheList, emptyList]
  refine placement.exchange (setAnchor_same heap k anchor)
    (.cache thread sc) (.chain k) (by simp) ?_ ?_ ?_ ?_
  · change
      (heap.cacheList thread sc ++ heap.freeChain k).Perm
        (final.cacheList thread sc ++ final.freeChain k)
    rw [finalCache, finalChain, chainShape, wasEmpty, List.nil_append]
  · intro place notCache notChain
    let relinked : Heap := { heap with memory := memory }
    have shape :
        final = (relinked.setAnchor k anchor).setCache thread sc cache := rfl
    change final.content place = _
    rw [shape, content_setCache_other _ _ notCache,
      content_setAnchor_other _ _ notChain]
    exact untouched place notChain
  · intro block occurs
    change block ∈ final.cacheList thread sc at occurs
    rw [finalCache] at occurs
    have free : block ∈ heap.freeChain k := by
      rw [chainShape]
      exact List.mem_append_left _ occurs
    have owned : region.owner block = k :=
      placement.fits (.chain k) block free
    change (heap.desc (region.owner block)).heap = some sc
    rw [owned]
    exact used
  · intro block occurs
    apply placement.fits (.chain k) block
    change block ∈ heap.freeChain k
    rw [chainShape]
    change block ∈ final.freeChain k at occurs
    rw [finalChain] at occurs
    exact List.mem_append_right _ occurs

end Heap

end Bxalloc
