import Bxalloc.AnchorRaceMoves

namespace Bxalloc

/-!
# Runs of threads racing on one superblock

In every run in which the exchange for part of the chain succeeds at its first
attempt, no block is lost or duplicated.  The retry of that exchange keeps the
index it computed before: a run with a flush in between loses the blocks of the
flush.
-/

open Lib

namespace AnchorRace

variable {sb : Superblock} {state state' : State} {thread : Nat}

/-- Walking blocks that are linked in order. -/
theorem walk_blocks
    {memory : Memory}
    {first count : Nat}
    (links :
      ∀ index,
        first ≤ index →
        index + 1 < first + count →
        readLink memory (sb.block index) = sb.block (index + 1)) :
    List.iterate (readLink memory) (sb.block first) count =
      (List.range' first count).map sb.block := by
  induction count generalizing first with
  | zero =>
      rfl
  | succ count inductionHypothesis =>
      cases count with
      | zero =>
          rfl
      | succ count =>
          rw [List.iterate, links first le_rfl (by omega),
            inductionHypothesis
              (fun index after before => links index (by omega) (by omega))]
          rfl

/-- The links that `malloc_from_newsb` writes. -/
theorem newsb_links
    (sb : Superblock)
    (memory : Memory)
    {index : Nat}
    (early : index + 1 < sb.maxcount) :
    readLink
        (BaseMeta.linkBlocks sb.start sb.blockSize (sb.maxcount - 1) memory)
        (sb.block index) =
      sb.block (index + 1) := by
  have low : sb.start + (sb.maxcount - 1) * sb.blockSize < 2 ^ 48 :=
    sb.block_lt (Nat.sub_le _ _)
  exact Heap.linkBlocks_link memory sb.sizes.1 low (by omega)

/-- A write to one block leaves the links of the others alone. -/
theorem readLink_write_block
    {memory : Memory}
    {index written target : Nat}
    (differs : index ≠ written) :
    readLink (writeLink memory (sb.block written) target) (sb.block index) =
      readLink memory (sb.block index) := by
  have sizes := sb.sizes
  apply readLink_writeLink_apart
  unfold Superblock.block
  rcases Nat.lt_or_gt_of_ne differs with before | after
  · have step : (index + 1) * sb.blockSize ≤ written * sb.blockSize :=
      Nat.mul_le_mul_right _ before
    rw [Nat.add_mul, Nat.one_mul] at step
    omega
  · have step : (written + 1) * sb.blockSize ≤ index * sb.blockSize :=
      Nat.mul_le_mul_right _ after
    rw [Nat.add_mul, Nat.one_mul] at step
    omega

/-- The blocks are distinct. -/
theorem blocks_nodup
    (sb : Superblock) :
    sb.blocks.Nodup := by
  refine List.Nodup.map_on ?_ List.nodup_range
  intro first firstIn second secondIn same
  by_contra differs
  have sizes := sb.sizes
  unfold Superblock.block at same
  have product : first * sb.blockSize = second * sb.blockSize := by
    omega
  exact differs (Nat.eq_of_mul_eq_mul_right (by omega) product)

/-- The blocks behind the first ones. -/
theorem blocks_split
    {first : Nat}
    (within : first ≤ sb.maxcount) :
    (List.range' 0 first).map sb.block ++
        (List.range' first (sb.maxcount - first)).map sb.block =
      sb.blocks := by
  rw [← List.map_append]
  unfold Superblock.blocks
  rw [List.range_eq_range']
  congr 1
  have joined := @List.range'_append 0 first (sb.maxcount - first) 1
  rw [Nat.zero_add, Nat.one_mul, Nat.add_sub_cancel' within] at joined
  exact joined

/-- A state in which all blocks are on the chain or in one free list. -/
theorem inv_of_pair
    (thread : Nat)
    (idle : ∀ other, state.pc other = .idle)
    (used : state.retired = false)
    (anchor : Heap.AnchorOk state.anchor sb.maxcount)
    (listed : state.listed = true → state.anchor.state ≠ .sbFull)
    (maxsize : ∀ other, 1 ≤ (state.cache other).maxsize)
    (live : state.live = [])
    (empty :
      ∀ other, other ≠ thread → (state.cache other).size = 0)
    (together : state.cacheList thread ++ state.chain sb = sb.blocks) :
    Inv sb state := by
  refine
    { splits := ?_
      anchor := fun _ => anchor
      maxsize := maxsize
      custody := ?_
      threads := ?_ }
  · have pair : Splits (state.content sb) (· ∈ sb.blocks) := by
      refine Splits.ofPair
        (show Place.cache thread ≠ Place.chain by simp)
        (together ▸ List.Perm.refl _) (blocks_nodup sb) ?_
      intro place notCache notChain
      cases place with
      | chain => exact absurd rfl notChain
      | cache other =>
          change List.iterate _ _ _ = []
          rw [empty other fun same => notCache (by rw [same])]
          rfl
      | hands other => exact hands_eq_nil (idle other) rfl
      | live => exact live
    exact pair.congr_member fun block => by simp [used]
  · refine .ofNone ?_ (fun isListed => ⟨listed isListed, used⟩)
    intro other holds
    rw [idle other] at holds
    cases holds
  · intro other
    unfold PcOk
    rw [idle other]
    trivial

/-- A new superblock with more blocks than a free list takes. -/
theorem newsb_split
    {memory : Memory}
    {cache : Nat → FreeList}
    {more : Nat}
    (isMore : (cache thread).maxsize = more + 1)
    (few : more + 1 < sb.maxcount) :
    newsb sb memory cache thread =
      { memory :=
          writeLink
            (BaseMeta.linkBlocks sb.start sb.blockSize (sb.maxcount - 1)
              memory) (sb.block more) 0
        anchor :=
          { avail := more + 1
            count := sb.maxcount - (more + 1)
            state := .sbPartial }
        listed := true
        retired := false
        cache :=
          Function.update cache thread
            (((cache thread).pushList sb.start (more + 1)).growMaxSize
              (more + 1) sb.maxcount)
        live := []
        pc := fun _ => .idle } := by
  have low : sb.start + (sb.maxcount - 1) * sb.blockSize < 2 ^ 48 :=
    sb.block_lt (Nat.sub_le _ _)
  have nodes :
      ∀ index,
        index ≤ sb.maxcount - 1 →
        (readLink
            (BaseMeta.linkBlocks sb.start sb.blockSize (sb.maxcount - 1)
              memory))^[index] sb.start =
          sb.block index :=
    fun index early => Heap.linkBlocks_iterate memory sb.sizes.1 low early
  have walked :
      BaseMeta.takeLoop
          (BaseMeta.linkBlocks sb.start sb.blockSize (sb.maxcount - 1)
            memory) (more + 1) sb.start sb.start 0 =
        (sb.block more, sb.block (more + 1), more + 1) := by
    rw [Heap.takeLoop_spec, nodes more (by omega), nodes (more + 1) (by omega),
      Nat.zero_add]
    intro index early
    rw [nodes index (by omega)]
    have positive := sb.positive
    unfold Superblock.block
    omega
  have some : ¬ sb.maxcount ≤ more + 1 := by
    omega
  unfold newsb
  simp only [isMore, some, if_false, walked, sb.computeIdx_block few]

/-- The invariant holds of a new superblock. -/
theorem inv_newsb
    {memory : Memory}
    {cache : Nat → FreeList}
    (fresh :
      ∀ other, (cache other).size = 0 ∧ 1 ≤ (cache other).maxsize) :
    Inv sb (newsb sb memory cache thread) := by
  have sizes := sb.sizes
  have grown :
      ∀ num other,
        1 ≤
          (Function.update cache thread
            (((cache thread).pushList sb.start num).growMaxSize
              (cache thread).maxsize sb.maxcount) other).maxsize := by
    intro num other
    rcases eq_or_ne other thread with rfl | differs
    · rw [Function.update_self]
      exact Heap.growMaxSize_pos (fresh other).2 sizes.2.1
    · rw [Function.update_of_ne differs]
      exact (fresh other).2
  have listed :
      ∀ num,
        (((cache thread).pushList sb.start num).growMaxSize
              (cache thread).maxsize sb.maxcount).list = sb.start ∧
          (((cache thread).pushList sb.start num).growMaxSize
              (cache thread).maxsize sb.maxcount).size = num :=
    fun num => Heap.growMaxSize_list _ _ _
  have others :
      ∀ num other,
        other ≠ thread →
        (Function.update cache thread
          (((cache thread).pushList sb.start num).growMaxSize
            (cache thread).maxsize sb.maxcount) other).size = 0 := by
    intro num other differs
    rw [Function.update_of_ne differs]
    exact (fresh other).1
  have startBlock : sb.start = sb.block 0 := by
    simp [Superblock.block]
  by_cases whole : sb.maxcount ≤ (cache thread).maxsize
  · unfold newsb
    simp only [whole, if_true]
    refine inv_of_pair thread (fun _ => rfl) rfl ⟨rfl, le_rfl⟩
      (fun isListed => by cases isListed) (grown _) rfl (others _) ?_
    unfold State.cacheList
    simp only [Function.update_self, listed]
    rw [chain_of_used rfl, startBlock,
      walk_blocks fun index _ early => by
        rw [← startBlock]
        exact newsb_links sb memory (by omega)]
    have split := @blocks_split sb _ le_rfl
    rw [Nat.sub_self] at split
    exact split
  · obtain ⟨more, isMore⟩ : ∃ more, (cache thread).maxsize = more + 1 :=
      ⟨(cache thread).maxsize - 1, by have := (fresh thread).2; omega⟩
    have links :
        ∀ index,
          index ≠ more →
          index + 1 < sb.maxcount →
          readLink
              (writeLink
                (BaseMeta.linkBlocks sb.start sb.blockSize (sb.maxcount - 1)
                  memory) (sb.block more) 0) (sb.block index) =
            sb.block (index + 1) := by
      intro index differs early
      rw [readLink_write_block differs]
      exact newsb_links sb memory early
    rw [newsb_split isMore (by omega)]
    rw [isMore] at grown listed others
    refine inv_of_pair thread (fun _ => rfl) rfl ?_
      (fun _ isFull => by cases isFull) (grown _) rfl (others _) ?_
    · refine ⟨?_, ?_, ?_⟩
      · change 1 ≤ sb.maxcount - (more + 1)
        omega
      · change sb.maxcount - (more + 1) < sb.maxcount
        omega
      · change more + 1 < sb.maxcount
        omega
    · unfold State.cacheList
      simp only [Function.update_self, listed]
      rw [chain_of_used rfl]
      change List.iterate _ sb.start (more + 1) ++
        List.iterate _ (sb.block (more + 1)) (sb.maxcount - (more + 1)) =
          sb.blocks
      rw [← @blocks_split sb (more + 1) (by omega), startBlock,
        walk_blocks fun index _ early => by
          rw [← startBlock]
          exact links index (by omega) (by omega),
        walk_blocks fun index after early => by
          rw [← startBlock]
          exact links index (by omega) (by omega)]

/-- One step of a thread in a flush or refill keeps the invariant. -/
theorem Inv.advance
    (inv : Inv sb state)
    {spurious : Bool}
    (accepted : advance sb state thread spurious = some state')
    (firstTry : FirstTry state spurious (state.pc thread)) :
    Inv sb state' := by
  have ok := inv.threads thread
  unfold PcOk at ok
  unfold AnchorRace.advance at accepted
  cases shape : state.pc thread with
  | idle =>
      rw [shape] at accepted
      cases accepted
  | flushCas head tail blockCount old =>
      rw [shape] at accepted
      simp only at accepted
      split at accepted
      · next succeeds =>
          cases accepted
          obtain ⟨rfl, -⟩ := succeeds
          exact inv.flushCas_done shape rfl
      · cases accepted
        exact inv.flushCas_fail shape
  | flushPush =>
      rw [shape] at accepted
      cases accepted
      exact inv.flushPush shape
  | retire =>
      rw [shape] at accepted
      cases accepted
      exact inv.retire shape
  | refillLoad =>
      rw [shape] at accepted ok
      simp only at accepted
      split at accepted
      · cases accepted
        refine inv.holderMove shape rfl rfl rfl ?_
        unfold PcOk
        rw [setPc_pc_self]
        exact ⟨ok, id⟩
      · next many =>
          split at accepted
          · next isEmpty =>
              cases accepted
              refine inv.holderMove shape rfl rfl rfl ?_
              unfold PcOk
              rw [setPc_pc_self]
              exact isEmpty
          · next notEmpty =>
              cases accepted
              refine inv.holderMove shape rfl rfl rfl ?_
              unfold PcOk
              rw [setPc_pc_self]
              exact ⟨ok, notEmpty, Nat.lt_of_not_le many⟩
  | takeAllCas old =>
      rw [shape] at accepted ok
      simp only at accepted
      split at accepted
      · next isEmpty =>
          cases accepted
          refine inv.holderMove shape rfl rfl rfl ?_
          unfold PcOk
          rw [setPc_pc_self]
          exact ok.2 isEmpty
      · next notEmpty =>
          split at accepted
          · cases accepted
          · split at accepted
            · next succeeds =>
                cases accepted
                obtain ⟨rfl, -⟩ := succeeds
                exact inv.takeAll shape notEmpty
            · cases accepted
              refine inv.holderMove shape rfl rfl rfl ?_
              unfold PcOk
              rw [setPc_pc_self]
              exact ⟨ok.1, id⟩
  | takeSomeCas old =>
      rw [shape] at accepted ok firstTry
      obtain ⟨rfl, rfl⟩ := firstTry
      obtain ⟨size, notEmpty, many⟩ := ok
      have holds : (state.pc thread).holds := by
        rw [shape]
        rfl
      have taking := inv.taking holds notEmpty size
      obtain ⟨more, isMore⟩ :
          ∃ more, (state.cache thread).maxsize = more + 1 :=
        ⟨(state.cache thread).maxsize - 1, by
          have := inv.maxsize thread
          omega⟩
      rw [isMore] at many
      simp only [isMore, inv.takeLoop_chain taking many, and_self, if_true,
        Option.some.injEq] at accepted
      rw [← accepted]
      exact inv.takeSome shape many rfl rfl rfl rfl
  | takeSomeRetry head idx num old =>
      rw [shape] at ok
      exact ok.elim
  | refillPush head num =>
      rw [shape] at accepted
      cases accepted
      exact inv.refillPush shape

/-- Every step that does not fail on a cut chain keeps the invariant. -/
theorem Inv.step
    (inv : Inv sb state)
    {action : Action}
    (stepped : CleanStep sb state action state') :
    Inv sb state' := by
  obtain ⟨accepted, firstTry⟩ := stepped
  cases action with
  | malloc thread =>
      simp only [Step, AnchorRace.step] at accepted
      split at accepted
      · next allowed =>
          cases accepted
          exact inv.malloc allowed.1 allowed.2
      · cases accepted
  | free thread block =>
      simp only [Step, AnchorRace.step] at accepted
      split at accepted
      · next allowed =>
          cases accepted
          exact inv.free allowed.1 allowed.2
      · cases accepted
  | store address byte =>
      simp only [Step, AnchorRace.step] at accepted
      split at accepted
      · next allowed =>
          obtain ⟨block, isLive, lower, upper⟩ := allowed
          cases accepted
          exact inv.store byte isLive lower upper
      · cases accepted
  | grow thread =>
      simp only [Step, AnchorRace.step] at accepted
      split at accepted
      · next isIdle =>
          cases accepted
          exact inv.grow isIdle
      · cases accepted
  | flush thread blockCount =>
      simp only [Step, AnchorRace.step] at accepted
      split at accepted
      · next allowed =>
          obtain ⟨isIdle, positive, within⟩ := allowed
          cases accepted
          exact inv.flush isIdle positive within rfl
      · cases accepted
  | refill thread =>
      simp only [Step, AnchorRace.step] at accepted
      split at accepted
      · next allowed =>
          obtain ⟨isIdle, isEmpty, isListed⟩ := allowed
          cases accepted
          exact inv.refill isIdle isEmpty isListed
      · cases accepted
  | run thread spurious =>
      exact inv.advance accepted (firstTry thread spurious rfl)

/--
In every run in which each exchange for part of the chain succeeds at its first
attempt, the superblock keeps its blocks in every state.
-/
theorem blocks_kept_of_clean
    (reached : Reaches (Initial sb) (CleanStep sb) state)
    (used : state.retired = false) :
    Kept sb state := by
  have inv : Inv sb state :=
    reached.invariant
      (fun _ initial => by
        obtain ⟨memory, cache, thread, fresh, rfl⟩ := initial
        exact inv_newsb fresh)
      (fun _ _ _ inv stepped => inv.step stepped)
  exact inv.kept used

/-- A superblock of 546 blocks of 120 bytes. -/
def exampleSb : Superblock where
  start := 65536
  sc := 14
  positive := by decide
  userSpace := by decide
  small := by decide

theorem exampleSb_maxcount : exampleSb.maxcount = 546 := by
  decide

/-- Following links that are in order. -/
theorem reach_blocks
    {memory : Memory}
    {first count : Nat}
    (links :
      ∀ index,
        first ≤ index →
        index < first + count →
        readLink memory (sb.block index) = sb.block (index + 1)) :
    (readLink memory)^[count] (sb.block first) = sb.block (first + count) := by
  induction count with
  | zero =>
      rfl
  | succ count inductionHypothesis =>
      rw [Function.iterate_succ_apply',
        inductionHypothesis fun index after before =>
          links index after (by omega)]
      exact links (first + count) (by omega) (by omega)

/-- The free lists of the threads in the example. -/
def exampleCaches (first second third : FreeList) : Nat → FreeList
  | 0 => first
  | 1 => second
  | 2 => third
  | _ => freshFreeList 14

/-- The places of the threads in the example. -/
def examplePcs (first second third : Pc) : Nat → Pc
  | 0 => first
  | 1 => second
  | 2 => third
  | _ => .idle

theorem update_exampleCaches
    (first second third cache : FreeList) :
    Function.update (exampleCaches first second third) 0 cache =
        exampleCaches cache second third ∧
      Function.update (exampleCaches first second third) 1 cache =
        exampleCaches first cache third ∧
      Function.update (exampleCaches first second third) 2 cache =
        exampleCaches first second cache := by
  refine ⟨?_, ?_, ?_⟩
  all_goals
    funext thread
    match thread with
    | 0 | 1 | 2 => rfl
    | _ + 3 => rfl

theorem update_examplePcs
    (first second third pc : Pc) :
    Function.update (examplePcs first second third) 0 pc =
        examplePcs pc second third ∧
      Function.update (examplePcs first second third) 1 pc =
        examplePcs first pc third ∧
      Function.update (examplePcs first second third) 2 pc =
        examplePcs first second pc := by
  refine ⟨?_, ?_, ?_⟩
  all_goals
    funext thread
    match thread with
    | 0 | 1 | 2 => rfl
    | _ + 3 => rfl

/-- A state of the example with three threads. -/
def raceState
    (memory : Memory)
    (anchor : Anchor)
    (listed : Bool)
    (caches : Nat → FreeList)
    (live : List Nat)
    (pcs : Nat → Pc) : State where
  memory := memory
  anchor := anchor
  listed := listed
  retired := false
  cache := caches
  live := live
  pc := pcs

section Race

variable {memory : Memory} {anchor : Anchor} {listed : Bool}
variable {caches : Nat → FreeList} {live : List Nat} {pcs : Nat → Pc}

theorem step_malloc
    {cache : FreeList}
    {next : Nat}
    (isIdle : pcs thread = .idle)
    (isCache : caches thread = cache)
    (nonempty : 0 < cache.size)
    (linked : readLink memory cache.list = next) :
    Step sb (raceState memory anchor listed caches live pcs)
      (.malloc thread)
      (raceState memory anchor listed
        (Function.update caches thread
          { list := next, size := cache.size - 1, maxsize := cache.maxsize })
        (cache.list :: live) pcs) := by
  unfold Step step raceState
  simp only [isIdle, isCache, nonempty, and_self, if_true, FreeList.pop, linked,
    State.setCache]

theorem step_free
    {cache : FreeList}
    {block : Nat}
    (isIdle : pcs thread = .idle)
    (isCache : caches thread = cache)
    (isLive : block ∈ live) :
    Step sb (raceState memory anchor listed caches live pcs)
      (.free thread block)
      (raceState (writeLink memory block cache.list) anchor listed
        (Function.update caches thread
          { list := block, size := cache.size + 1, maxsize := cache.maxsize })
        (live.erase block) pcs) := by
  unfold Step step raceState
  simp only [isIdle, isCache, isLive, and_self, if_true, FreeList.push,
    State.setCache]

theorem step_flush
    {cache : FreeList}
    {blockCount tail next : Nat}
    (isIdle : pcs thread = .idle)
    (isCache : caches thread = cache)
    (positive : 0 < blockCount)
    (within : blockCount ≤ cache.size)
    (isTail : (readLink memory)^[blockCount - 1] cache.list = tail)
    (isNext : readLink memory tail = next) :
    Step sb (raceState memory anchor listed caches live pcs)
      (.flush thread blockCount)
      (raceState memory anchor listed
        (Function.update caches thread
          { list := next
            size := cache.size - blockCount
            maxsize := cache.maxsize })
        live
        (Function.update pcs thread
          (.flushCas cache.list tail blockCount anchor))) := by
  unfold Step step raceState
  simp only [isCache, isIdle, positive, within, and_self, if_true, isTail,
    isNext, FreeList.popList, State.setCache, State.setPc]

theorem step_flushCas
    {head tail blockCount idx : Nat}
    {new : Anchor}
    (shape : pcs thread = .flushCas head tail blockCount anchor)
    (isIdx : computeIdx sb.start head sb.sc = idx)
    (isNew : BaseMeta.flushAnchor anchor idx blockCount sb.maxcount = new)
    (notFull : anchor.state ≠ .sbFull) :
    Step sb (raceState memory anchor listed caches live pcs)
      (.run thread false)
      (raceState (writeLink memory tail (sb.block anchor.avail)) new listed
        caches live (Function.update pcs thread .idle)) := by
  unfold Step step advance raceState
  simp only [shape, isIdx, isNew, and_self, if_true, afterFlush, notFull,
    if_false, State.setPc]

theorem step_refill
    (isIdle : pcs thread = .idle)
    (isEmpty : (caches thread).size = 0) :
    Step sb (raceState memory anchor true caches live pcs)
      (.refill thread)
      (raceState memory anchor false caches live
        (Function.update pcs thread .refillLoad)) := by
  unfold Step step raceState
  simp only [isIdle, isEmpty, and_self, if_true, State.setPc]

theorem step_refillLoad
    (shape : pcs thread = .refillLoad)
    (many : (caches thread).maxsize < anchor.count)
    (notEmpty : anchor.state ≠ .sbEmpty) :
    Step sb (raceState memory anchor listed caches live pcs)
      (.run thread false)
      (raceState memory anchor listed caches live
        (Function.update pcs thread (.takeSomeCas anchor))) := by
  unfold Step step advance raceState
  simp only [shape, Nat.not_le.mpr many, notEmpty, if_false, State.setPc]

theorem step_takeSomeCas_fails
    {old : Anchor}
    {maxsize tail newhead num idx : Nat}
    (shape : pcs thread = .takeSomeCas old)
    (changed : anchor ≠ old)
    (isMaxsize : (caches thread).maxsize = maxsize)
    (walked :
      BaseMeta.takeLoop memory maxsize (sb.block old.avail)
          (sb.block old.avail) 0 =
        (tail, newhead, num))
    (isIdx : computeIdx sb.start newhead sb.sc = idx) :
    Step sb (raceState memory anchor listed caches live pcs)
      (.run thread false)
      (raceState (writeLink memory tail 0) anchor listed caches live
        (Function.update pcs thread
          (.takeSomeRetry (sb.block old.avail) idx num anchor))) := by
  unfold Step step advance raceState
  simp only [shape, isMaxsize, walked, isIdx, changed, false_and, if_false,
    State.setPc]

theorem step_takeSomeRetry
    {head idx num : Nat}
    (shape : pcs thread = .takeSomeRetry head idx num anchor) :
    Step sb (raceState memory anchor listed caches live pcs)
      (.run thread false)
      (raceState memory (restAnchor anchor idx num) listed caches live
        (Function.update pcs thread (.refillPush head num))) := by
  unfold Step step advance raceState
  simp only [shape, and_self, if_true, State.setPc]

theorem step_refillPush
    {head num : Nat}
    {cache : FreeList}
    (shape : pcs thread = .refillPush head num)
    (isCache : caches thread = cache) :
    Step sb (raceState memory anchor listed caches live pcs)
      (.run thread false)
      (raceState memory anchor true
        (Function.update caches thread
          ((cache.pushList head num).growMaxSize cache.maxsize sb.maxcount))
        live (Function.update pcs thread .idle)) := by
  unfold Step step advance raceState
  simp only [shape, isCache, State.setPc, State.setCache]


/-- The memory of the example when the chain is cut for the stalled refill. -/
def racedMemory (memory : Memory) : Memory :=
  writeLink
    (writeLink
      (writeLink
        (writeLink memory (exampleSb.block 511) (exampleSb.block 512))
        (exampleSb.block 0) 0)
      (exampleSb.block 0) (exampleSb.block 2))
    (exampleSb.block 513) 0

/--
Thread 0 allocates two blocks and flushes the rest, thread 1 loads the anchor to
take part of the chain, thread 2 frees and flushes one block, and thread 1
exchanges the anchor at its second attempt.
-/
theorem race_reaches
    (links :
      ∀ index,
        index ≠ 511 →
        index < 545 →
        readLink memory (exampleSb.block index) =
          exampleSb.block (index + 1))
    (reached :
      Reaches (Initial exampleSb) (Step exampleSb)
        (raceState memory { avail := 512, count := 34, state := .sbPartial }
          true
          (exampleCaches
            { list := exampleSb.block 0, size := 512, maxsize := 546 }
            (freshFreeList 14) (freshFreeList 14))
          [] (examplePcs .idle .idle .idle))) :
    ∃ first third,
      Reaches (Initial exampleSb) (Step exampleSb)
        (raceState (racedMemory memory)
          { avail := 514, count := 33, state := .sbPartial } true
          (exampleCaches { list := first, size := 0, maxsize := 546 }
            { list := exampleSb.block 2, size := 512, maxsize := 546 }
            { list := third, size := 0, maxsize := 512 })
          [exampleSb.block 1] (examplePcs .idle .idle .idle)) := by
  have allocated :=
    (reached.next (@step_malloc exampleSb 0 _ _ _ _ _ _
      { list := exampleSb.block 0, size := 512, maxsize := 546 } _ rfl rfl
      (by decide) (links 0 (by decide) (by decide)))).next
      (@step_malloc exampleSb 0 _ _ _ _ _ _
        { list := exampleSb.block 1, size := 511, maxsize := 546 } _ rfl rfl
        (by decide) (links 1 (by decide) (by decide)))
  rw [(update_exampleCaches _ _ _ _).1, (update_exampleCaches _ _ _ _).1]
    at allocated
  -- Thread 0 flushes its 510 blocks.
  have toTail :
      (readLink memory)^[509] (exampleSb.block 2) = exampleSb.block 511 :=
    reach_blocks fun index after before =>
      links index (by omega) (by omega)
  have flushing :=
    allocated.next (@step_flush exampleSb 0 _ _ _ _ _ _
      { list := exampleSb.block 2, size := 510, maxsize := 546 } 510 _ _ rfl
      rfl (by decide) (by decide) toTail rfl)
  rw [(update_exampleCaches _ _ _ _).1, (update_examplePcs _ _ _ _).1]
    at flushing
  have flushed :=
    flushing.next (@step_flushCas exampleSb 0 _ _ _ _ _ _ _ _ _ 2
      { avail := 2, count := 544, state := .sbPartial } rfl
      (exampleSb.computeIdx_block (by decide)) (by decide) (by decide))
  rw [(update_examplePcs _ _ _ _).1] at flushed
  -- Thread 1 pops the descriptor and loads the anchor.
  have popped :=
    flushed.next (@step_refill exampleSb 1 _ _ _ _ _ rfl rfl)
  rw [(update_examplePcs _ _ _ _).2.1] at popped
  have many : (freshFreeList 14).maxsize < 544 := by
    decide
  have loaded :=
    popped.next (@step_refillLoad exampleSb 1 _ _ _ _ _ _ rfl many
      (by decide))
  rw [(update_examplePcs _ _ _ _).2.1] at loaded
  -- Thread 2 frees and flushes the first block.
  have freed :=
    loaded.next (@step_free exampleSb 2 _ _ _ _ _ _ (freshFreeList 14)
      (exampleSb.block 0) rfl rfl (List.mem_cons_of_mem _ (List.mem_cons_self)))
  rw [(update_exampleCaches _ _ _ _).2.2] at freed
  have flushing :=
    freed.next (@step_flush exampleSb 2 _ _ _ _ _ _
      { list := exampleSb.block 0, size := 1, maxsize := 512 } 1 _ _ rfl rfl
      (by decide) (by decide) rfl rfl)
  rw [(update_exampleCaches _ _ _ _).2.2, (update_examplePcs _ _ _ _).2.2]
    at flushing
  have flushed :=
    flushing.next (@step_flushCas exampleSb 2 _ _ _ _ _ _ _ _ _ 0
      { avail := 0, count := 545, state := .sbPartial } rfl
      (exampleSb.computeIdx_block (by decide)) (by decide) (by decide))
  rw [(update_examplePcs _ _ _ _).2.2] at flushed
  -- Thread 1 cuts the chain, fails, and exchanges the anchor with the old index.
  have walked :
      BaseMeta.takeLoop
          (writeLink
            (writeLink
              (writeLink memory (exampleSb.block 511) (exampleSb.block 512))
              (exampleSb.block 0) 0)
            (exampleSb.block 0) (exampleSb.block 2))
          512 (exampleSb.block 2) (exampleSb.block 2) 0 =
        (exampleSb.block 513, exampleSb.block 514, 512) := by
    have inOrder :
        ∀ index,
          2 ≤ index →
          index < 545 →
          readLink
              (writeLink
                (writeLink
                  (writeLink memory (exampleSb.block 511)
                    (exampleSb.block 512)) (exampleSb.block 0) 0)
                (exampleSb.block 0) (exampleSb.block 2))
              (exampleSb.block index) =
            exampleSb.block (index + 1) := by
      intro index after before
      rw [readLink_write_block (by omega), readLink_write_block (by omega)]
      by_cases joins : index = 511
      · rw [joins]
        exact readLink_writeLink_same _ (by decide) (by decide)
      · rw [readLink_write_block joins]
        exact links index joins before
    have nodes :
        ∀ count,
          count ≤ 512 →
          (readLink
              (writeLink
                (writeLink
                  (writeLink memory (exampleSb.block 511)
                    (exampleSb.block 512)) (exampleSb.block 0) 0)
                (exampleSb.block 0) (exampleSb.block 2)))^[count]
              (exampleSb.block 2) =
            exampleSb.block (2 + count) :=
      fun count few => reach_blocks fun index after before =>
        inOrder index after (by omega)
    rw [Heap.takeLoop_spec, nodes 511 (by decide), nodes 512 (by decide)]
    intro index early
    rw [nodes index (by omega)]
    have positive := exampleSb.positive
    unfold Superblock.block
    omega
  have failed :=
    flushed.next (@step_takeSomeCas_fails exampleSb 1 _ _ _ _ _ _
      { avail := 2, count := 544, state := .sbPartial } 512 _ _ _ 514 rfl
      (by decide) rfl walked (exampleSb.computeIdx_block (by decide)))
  rw [(update_examplePcs _ _ _ _).2.1] at failed
  have retried :=
    failed.next (@step_takeSomeRetry exampleSb 1 _ _ _ _ _ _ _ _ _ rfl)
  rw [(update_examplePcs _ _ _ _).2.1] at retried
  have refilled :=
    retried.next (@step_refillPush exampleSb 1 _ _ _ _ _ _ _ _
      (freshFreeList 14) rfl rfl)
  rw [(update_examplePcs _ _ _ _).2.1, (update_exampleCaches _ _ _ _).2.1]
    at refilled
  exact ⟨_, _, refilled⟩

end Race

/-- The memory of the example after `malloc_from_newsb`. -/
def newsbMemory : Memory :=
  writeLink
    (BaseMeta.linkBlocks exampleSb.start exampleSb.blockSize
      (exampleSb.maxcount - 1) (fun _ => 0))
    (exampleSb.block 511) 0

/-- The example starts with a new superblock in zeroed memory. -/
theorem example_initial :
    Initial exampleSb
      (raceState newsbMemory { avail := 512, count := 34, state := .sbPartial }
        true
        (exampleCaches
          { list := exampleSb.block 0, size := 512, maxsize := 546 }
          (freshFreeList 14) (freshFreeList 14))
        [] (examplePcs .idle .idle .idle)) := by
  have fresh :
      (freshFreeList 14).size = 0 ∧ 1 ≤ (freshFreeList 14).maxsize := by
    decide
  refine ⟨fun _ => 0, fun _ => freshFreeList 14, 0, fun _ => fresh, ?_⟩
  have maxsize : (freshFreeList 14).maxsize = 511 + 1 := by
    decide
  rw [@newsb_split exampleSb 0 _ _ 511 maxsize (by decide)]
  have caches :
      Function.update (fun _ => freshFreeList 14) 0
          (((freshFreeList 14).pushList exampleSb.start (511 + 1)).growMaxSize
            (511 + 1) exampleSb.maxcount) =
        exampleCaches
          { list := exampleSb.block 0, size := 512, maxsize := 546 }
          (freshFreeList 14) (freshFreeList 14) := by
    funext thread
    match thread with
    | 0 => rfl
    | 1 | 2 => rfl
    | _ + 3 => rfl
  have pcs : examplePcs .idle .idle .idle = fun _ => .idle := by
    funext thread
    match thread with
    | 0 | 1 | 2 => rfl
    | _ + 3 => rfl
  rw [caches, pcs]
  rfl

/-- The first blocks of the example stay linked in order. -/
theorem newsbMemory_links
    {index : Nat}
    (differs : index ≠ 511)
    (early : index < 545) :
    readLink newsbMemory (exampleSb.block index) =
      exampleSb.block (index + 1) := by
  unfold newsbMemory
  rw [readLink_write_block differs]
  refine newsb_links exampleSb _ ?_
  rw [exampleSb_maxcount]
  omega

/-- The link of the last block of the example was never written. -/
theorem newsbMemory_last :
    readLink newsbMemory (exampleSb.block 545) = 0 := by
  unfold newsbMemory
  rw [readLink_write_block (by decide), Heap.linkBlocks_other]
  · exact readLink_zeros _
  · intro index early
    rw [exampleSb_maxcount] at early
    have size : exampleSb.blockSize = 120 := by
      decide
    unfold Superblock.block
    rw [size]
    omega

/-- A run in which a block of a new superblock is allocated. -/
theorem blocks_kept_of_clean_malloc :
    ∃ state,
      Reaches (Initial exampleSb) (CleanStep exampleSb) state ∧
        state.live = [exampleSb.block 0] ∧
        Kept exampleSb state := by
  have allocated :
      Step exampleSb _ (.malloc 0) _ :=
    @step_malloc exampleSb 0 newsbMemory
      { avail := 512, count := 34, state := .sbPartial } true
      (exampleCaches
        { list := exampleSb.block 0, size := 512, maxsize := 546 }
        (freshFreeList 14) (freshFreeList 14)) []
      (examplePcs .idle .idle .idle)
      { list := exampleSb.block 0, size := 512, maxsize := 546 }
      (exampleSb.block 1) rfl rfl (by decide)
      (newsbMemory_links (by decide) (by decide))
  have reached :=
    (Reaches.start example_initial).next
      (show CleanStep exampleSb _ (.malloc 0) _ from
        ⟨allocated, fun _ _ isRun => by cases isRun⟩)
  exact ⟨_, reached, rfl, blocks_kept_of_clean reached rfl⟩

/--
The retried exchange of thread 1 loses the block that thread 2 flushed: the
block is nowhere, and the chain runs off its end.
-/
theorem retried_exchange_loses_block :
    ∃ state,
      Reaches (Initial exampleSb) (Step exampleSb) state ∧
        state.retired = false ∧
        (∀ thread, state.pc thread = .idle) ∧
        0 ∈ state.chain exampleSb ∧
        exampleSb.block 0 ∉ state.live ∧
        exampleSb.block 0 ∉ state.chain exampleSb ∧
        (∀ thread, exampleSb.block 0 ∉ state.cacheList thread) ∧
        ¬ Kept exampleSb state := by
  obtain ⟨first, third, reached⟩ :=
    race_reaches (fun _ => newsbMemory_links) (.start example_initial)
  have links :
      ∀ index,
        index ≠ 513 →
        index ≠ 511 →
        index ≠ 0 →
        readLink (racedMemory newsbMemory) (exampleSb.block index) =
          readLink newsbMemory (exampleSb.block index) := by
    intro index not513 not511 not0
    unfold racedMemory
    rw [readLink_write_block not513, readLink_write_block not0,
      readLink_write_block not0, readLink_write_block not511]
  have inOrder :
      ∀ index,
        2 ≤ index →
        index < 545 →
        index ≠ 513 →
        readLink (racedMemory newsbMemory) (exampleSb.block index) =
          exampleSb.block (index + 1) := by
    intro index after before not513
    by_cases joins : index = 511
    · rw [joins]
      unfold racedMemory
      rw [readLink_write_block (by decide), readLink_write_block (by decide),
        readLink_write_block (by decide)]
      exact readLink_writeLink_same _ (by decide) (by decide)
    · rw [links index not513 joins (by omega)]
      exact newsbMemory_links joins before
  have notFirst :
      ∀ start count,
        1 ≤ start →
        exampleSb.block 0 ∉ (List.range' start count).map exampleSb.block := by
    intro start count positive occurs
    obtain ⟨index, inRange, same⟩ := List.mem_map.mp occurs
    have lower := (List.mem_range'_1.mp inRange).1
    have size : exampleSb.blockSize = 120 := by
      decide
    unfold Superblock.block at same
    rw [size] at same
    omega
  -- The chain: the 32 blocks that were left, then the null link.
  have chain :
      List.iterate (readLink (racedMemory newsbMemory)) (exampleSb.block 514)
          33 =
        (List.range' 514 32).map exampleSb.block ++ [0] := by
    have last :
        (readLink (racedMemory newsbMemory))^[32] (exampleSb.block 514) = 0 := by
      rw [Function.iterate_succ_apply',
        reach_blocks fun index after before =>
          inOrder index (by omega) (by omega) (by omega),
        links 545 (by decide) (by decide) (by decide)]
      exact newsbMemory_last
    rw [show (33 : Nat) = 32 + 1 from rfl, List.iterate_add,
      walk_blocks fun index after before =>
        inOrder index (by omega) (by omega) (by omega), last]
    rfl
  have taken :
      List.iterate (readLink (racedMemory newsbMemory)) (exampleSb.block 2)
          512 =
        (List.range' 2 512).map exampleSb.block :=
    walk_blocks fun index after before =>
      inOrder index after (by omega) (by omega)
  have positive : 0 ∉ exampleSb.blocks := by
    intro isBlock
    exact absurd (exampleSb.window isBlock).1 (Nat.lt_irrefl 0)
  refine ⟨_, reached, rfl, ?_, ?_, ?_, ?_, ?_, ?_⟩
  · intro thread
    match thread with
    | 0 | 1 | 2 => rfl
    | _ + 3 => rfl
  · rw [chain_of_used rfl]
    exact chain ▸ List.mem_append_right _ List.mem_cons_self
  · intro isLive
    cases List.mem_singleton.mp isLive
  · rw [chain_of_used rfl]
    intro occurs
    rcases List.mem_append.mp (chain ▸ occurs) with inRest | isNull
    · exact notFirst 514 32 (by decide) inRest
    · cases List.mem_singleton.mp isNull
  · intro thread occurs
    match thread with
    | 0 => cases occurs
    | 1 => exact notFirst 2 512 (by decide) (taken ▸ occurs)
    | 2 => cases occurs
    | _ + 3 => cases occurs
  · intro kept
    refine positive (kept.blocks 0 ?_)
    rw [chain_of_used rfl]
    exact chain ▸ List.mem_append_right _ List.mem_cons_self

end AnchorRace

end Bxalloc
