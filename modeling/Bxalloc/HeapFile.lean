import Bxalloc.GcLost
import Bxalloc.GcRecovered

namespace Bxalloc

/-!
# The life of a heap file

A heap file outlives the processes that use it.  A life is a sequence of calls
and crashes; after a crash another process maps the file, at any base that
keeps superblocks aligned, and `BXP_recover` runs the collection.  The crash
leaves each descriptor line as it was written back or as it was in the cache,
and block contents may be torn in any way.

Recovery is possible if every root, and every word of a reachable block that
the default filter takes for a pointer, names a block that was in use, whose
descriptor was durable and whose class is neither the first nor that of whole
superblocks.
-/

open Lib (Reaches)

/-- A descriptor read by a process that maps the heap at `start'`. -/
def Descriptor.remap (desc : Descriptor) (start start' : Nat) : Descriptor :=
  { desc with
    superblock :=
      if desc.superblock = 0 then
        0
      else
        desc.superblock - start + start' }

/-- A heap file as one process has it mapped. -/
structure HeapFile where
  region : SbRegion
  state : Durable

namespace HeapFile

/-- Another process maps the file after a crash between two calls. -/
structure PowerLost
    (file : HeapFile)
    (region : SbRegion)
    (image : Heap) : Prop where
  line :
    ∀ k,
      image.desc k =
          (file.state.persisted k).remap file.region.start region.start ∨
        image.desc k =
          (file.state.heap.desc k).remap file.region.start region.start
  queue : image.queue = file.state.heap.queue
  currAddr :
    image.currAddr + file.region.start =
      file.state.heap.currAddr + region.start
  /-- The file has the same size in both processes. -/
  limit : region.limit + file.region.start = file.region.limit + region.start
  /-- `heaps[NLIST].partial_list`, which no collection empties. -/
  wholeLists :
    ∀ sc,
      nlist ≤ sc → image.partialList sc = file.state.heap.partialList sc

/-- The block at `addr` was in use, durable and of a class that is rebuilt. -/
def Anchored (file : HeapFile) (region : SbRegion) (addr : Nat) : Prop :=
  ∃ block,
    block ∈ file.state.heap.live ∧
      addr + file.region.start = block + region.start ∧
      file.state.DurableAt (file.region.owner block) ∧
      (file.state.heap.desc (file.region.owner block)).heap ≠ some 0 ∧
      (file.state.heap.desc (file.region.owner block)).heap ≠ some nlist

/-- Roots and reachable pointers name such blocks. -/
structure Rooted
    (file : HeapFile)
    (region : SbRegion)
    (image : Heap)
    (roots : List Nat) : Prop where
  rooted :
    ∀ root,
      Gc.IsRoot region.start image roots root →
      file.Anchored region root
  pointed :
    ∀ addr target,
      Gc.Reachable region.start image roots addr →
      target ∈ Gc.targets region.start image addr →
      file.Anchored region target

/-- A call, or a crash and the recovery in another process. -/
inductive Event where
  | run (event : Durable.Event)
  | recover (region : SbRegion) (roots : List Nat)

/-- A new heap file. -/
def Initial (file : HeapFile) : Prop :=
  Durable.Initial file.region file.state

/-- One step of a life; the collection writes all descriptors back. -/
inductive Step : HeapFile → Event → HeapFile → Prop where
  | run
      {before : HeapFile}
      {event : Durable.Event}
      {state : Durable}
      (step : Durable.Step before.region before.state event state) :
      Step before (.run event) { before with state := state }
  | recover
      {before : HeapFile}
      {region : SbRegion}
      {image : Heap}
      {roots : List Nat}
      {result : Gc.Collected}
      (lost : before.PowerLost region image)
      (rooted : before.Rooted region image roots)
      (collected : Gc.collect region roots image = .ok result) :
      Step before (.recover region roots)
        { region := region
          state :=
            { heap := result.restart, persisted := result.restart.desc } }

end HeapFile

namespace Gc

/-- All superblocks below `curr_addr` are swept. -/
theorem le_sweepRounds
    {region : SbRegion}
    {image : Heap}
    (currAbove : region.start + sbSize ≤ image.currAddr)
    {k : Nat}
    (positive : 1 ≤ k)
    (inside : region.sbAddr k + sbSize ≤ image.currAddr) :
    k ≤ sweepRounds region image := by
  obtain ⟨n, rfl⟩ := Nat.exists_eq_succ_of_ne_zero (by omega : k ≠ 0)
  have before :
      (sweptState region image ∅ n).currSb < image.currAddr :=
    Nat.lt_of_lt_of_le (Nat.lt_add_of_pos_right (by decide)) inside
  exact (sbAddr_lt_currAddr currAbove).mp before

/-- A collection over marks in small classes completes in closed form. -/
theorem Marked.collected
    {region : SbRegion}
    {image : Heap}
    {roots : List Nat}
    {marking : Lib.Marking Nat}
    (given :
      Marked region image marking.marked (sweepRounds region image))
    (marked : mark region.start image roots = .ok marking) :
    collect region roots image =
      .ok
        { heap :=
            sweptHeap region image marking.marked (sweepRounds region image)
          marked := marking.marked
          availSb :=
            sweptAvail region marking.marked (sweepRounds region image) } := by
  have swept :=
    sweep_eq given.currBelow given.allocated given.currAbove given.small
  obtain ⟨final, loop, consumed⟩ :=
    sweep_completes given.currBelow given.allocated
  obtain rfl := Except.ok.inj (swept.symm.trans loop)
  exact collect_eq marked swept consumed

end Gc

namespace HeapFile

variable {file : HeapFile} {region : SbRegion} {image : Heap}

namespace PowerLost

variable (lost : file.PowerLost region image)

include lost

/-- A line carries the persistent fields of the old descriptor or is blank. -/
theorem heap_eq
    (synced : Durable.Synced file.state.heap file.state.persisted)
    (k : Nat) :
    (image.desc k).heap = none ∨
      (image.desc k).heap = (file.state.heap.desc k).heap := by
  rcases lost.line k with persisted | volatile
  · rw [persisted]
    exact (synced k).imp id fun same => same.1
  · rw [volatile]
    exact Or.inr rfl

/-- The line of a durable descriptor. -/
theorem fields
    {k : Nat}
    (durable : file.state.DurableAt k) :
    (image.desc k).SamePersist
      ((file.state.heap.desc k).remap file.region.start region.start) := by
  rcases lost.line k with persisted | volatile
  · obtain ⟨-, heap, superblock, blockSize, maxcount⟩ := durable
    rw [persisted]
    refine ⟨heap, ?_, blockSize, maxcount⟩
    unfold Descriptor.remap
    dsimp only
    rw [superblock]
  · rw [volatile]
    exact ⟨rfl, rfl, rfl, rfl⟩

/-- Superblocks keep their place in the region. -/
theorem inside
    {k : Nat}
    (inside :
      file.region.sbAddr k + sbSize ≤ file.state.heap.currAddr) :
    region.sbAddr k + sbSize ≤ image.currAddr := by
  have moved := lost.currAddr
  unfold SbRegion.sbAddr at inside ⊢
  omega

/-- What the crash leaves of the metadata. -/
theorem crashedMeta
    (inv : Durable.Inv file.region file.state) :
    Gc.CrashedMeta region image := by
  have control := inv.heap.control
  have geometry := control.geometry
  refine ⟨⟨?_, ?_⟩, ?_, ?_, ?_⟩
  · rw [lost.queue]
    exact control.queueNodup
  · intro k queued
    rw [lost.queue] at queued
    have spare := control.queueSpare k queued
    refine ⟨?_, spare.indexPos, lost.inside spare.inside⟩
    rcases lost.heap_eq inv.synced k with blank | same
    · exact blank
    · exact same.trans spare.blank
  · have moved := lost.currAddr
    have oldAligned := file.region.aligned
    have aligned := region.aligned
    have currAligned := geometry.currAligned
    simp only [sbSize, pageSize] at *
    omega
  · intro sc beyond
    rw [lost.wholeLists sc beyond, List.eq_nil_iff_forall_not_mem]
    intro k member
    obtain ⟨used, listed⟩ := (control.partialMem sc k).mp member
    have classLe := (geometry.descOk k sc used).classLe
    obtain rfl : sc = nlist := by
      omega
    rw [control.wholeFull k used] at listed
    rcases listed with isPartial | isEmpty
    · cases isPartial
    · cases isEmpty
  · intro k inUse
    rcases lost.heap_eq inv.synced k with blank | same
    · exact absurd blank inUse
    · rw [same] at inUse
      obtain ⟨sc, used⟩ := Option.ne_none_iff_exists'.mp inUse
      have ok := geometry.descOk k sc used
      exact ⟨ok.indexPos, lost.inside ok.inside⟩

end PowerLost

/-- Where a block that was in use lies in the image. -/
structure Origin
    (file : HeapFile)
    (region : SbRegion)
    (image : Heap)
    (addr block sc : Nat) : Prop where
  isLive : block ∈ file.state.heap.live
  moved : addr + file.region.start = block + region.start
  sameOwner : region.owner addr = file.region.owner block
  inUse : (file.state.heap.desc (file.region.owner block)).heap = some sc
  persistent : Gc.PersistentOk region image (region.owner addr) sc
  isBlock : Gc.IsBlock (image.desc (region.owner addr)) addr
  small : 0 < sc ∧ sc < nlist

/-- A block that was in use starts an allocated block of the image. -/
theorem Anchored.origin
    {addr : Nat}
    (anchored : file.Anchored region addr)
    (lost : file.PowerLost region image)
    (inv : Durable.Inv file.region file.state) :
    ∃ block sc, Origin file region image addr block sc := by
  obtain ⟨block, isLive, moved, durable, notFirst, notLast⟩ := anchored
  have geometry := inv.heap.control.geometry
  have isBlock := inv.heap.placement.isBlock .live isLive
  obtain ⟨sc, index, used, early, shape⟩ := geometry.isBlock_cases isBlock
  have ok := geometry.descOk _ sc used
  obtain ⟨sameHeap, sameSb, sameSize, sameCount⟩ := lost.fields durable
  have inside := lost.inside ok.inside
  have nonzero :
      (file.state.heap.desc (file.region.owner block)).superblock ≠ 0 := by
    have positive := file.region.positive
    rw [ok.superblock]
    unfold SbRegion.sbAddr
    omega
  have ownSb :
      (image.desc (file.region.owner block)).superblock =
        region.sbAddr (file.region.owner block) := by
    rw [sameSb]
    unfold Descriptor.remap
    dsimp only
    rw [if_neg nonzero, ok.superblock]
    unfold SbRegion.sbAddr
    omega
  have persistent :
      Gc.PersistentOk region image (file.region.owner block) sc :=
    ⟨ok.classLe, ok.indexPos, inside, sameHeap.trans used, ownSb,
      sameSize.trans ok.blockSize, sameCount.trans ok.maxcount⟩
  have isStart :
      Gc.IsBlock (image.desc (file.region.owner block)) addr := by
    refine ⟨index, Nat.lt_of_lt_of_eq early sameCount.symm, ?_⟩
    have size :
        (image.desc (file.region.owner block)).blockSize =
          (file.state.heap.desc (file.region.owner block)).blockSize :=
      sameSize
    rw [ownSb, size]
    unfold SbRegion.sbAddr at shape ⊢
    omega
  have currBelow : image.currAddr ≤ region.limit := by
    have below := geometry.currBelow
    have sameEnd := lost.currAddr
    have sameLimit := lost.limit
    omega
  have isOwner := persistent.owner_eq currBelow isStart
  have classLe := ok.classLe
  rw [used] at notFirst notLast
  simp only [ne_eq, Option.some.injEq] at notFirst notLast
  refine ⟨block, sc, isLive, moved, isOwner, used, ?_, ?_, by omega⟩
  · rw [isOwner]
    exact persistent
  · rw [isOwner]
    exact isStart

/-- Roots and reachable pointers lead to blocks that were in use. -/
theorem Rooted.anchored
    {roots : List Nat}
    (rooted : file.Rooted region image roots)
    {addr : Nat}
    (reachable : Gc.Reachable region.start image roots addr) :
    file.Anchored region addr := by
  cases reachable with
  | root isRoot => exact rooted.rooted _ isRoot
  | step reached edge => exact rooted.pointed _ _ reached edge

/-- What the collection is given after a crash. -/
theorem Rooted.marked
    {roots : List Nat}
    (rooted : file.Rooted region image roots)
    (lost : file.PowerLost region image)
    (inv : Durable.Inv file.region file.state)
    {marked : Finset Nat}
    (isMarked :
      ∀ addr,
        addr ∈ marked ↔ Gc.Reachable region.start image roots addr) :
    Gc.Marked region image marked (Gc.sweepRounds region image) := by
  have geometry := inv.heap.control.geometry
  have anchored :
      ∀ addr, addr ∈ marked → file.Anchored region addr :=
    fun addr member => rooted.anchored ((isMarked addr).mp member)
  have sameEnd := lost.currAddr
  have sameLimit := lost.limit
  have above := geometry.currAbove
  have below := geometry.currBelow
  have currAbove : region.start + sbSize ≤ image.currAddr := by
    omega
  refine ⟨lost.crashedMeta inv, currAbove, by omega, ?_, ?_, ?_⟩
  · intro addr member
    obtain ⟨block, sc, origin⟩ := (anchored addr member).origin lost inv
    exact ⟨_, sc, origin.persistent, origin.isBlock⟩
  · rintro k addr member rfl
    obtain ⟨block, sc, origin⟩ := (anchored addr member).origin lost inv
    exact ⟨sc, origin.persistent.heap, origin.small⟩
  · exact fun k positive inside =>
      Gc.le_sweepRounds currAbove positive inside

/-- A recovered process starts from the invariant. -/
theorem PowerLost.recovered
    {roots : List Nat}
    (lost : file.PowerLost region image)
    (rooted : file.Rooted region image roots)
    (inv : Durable.Inv file.region file.state) :
    ∃ result,
      Gc.collect region roots image = .ok result ∧
        (∀ addr,
          addr ∈ result.marked ↔
            Gc.Reachable region.start image roots addr) ∧
        Gc.Marked region image result.marked (Gc.sweepRounds region image) ∧
        result.restart =
          Gc.recoveredHeap region image result.marked
            (Gc.sweepRounds region image) := by
  obtain ⟨marking, marked, isMarked⟩ :=
    Gc.mark_spec region.start image roots
  have given := rooted.marked lost inv isMarked
  exact ⟨_, given.collected marked, isMarked, given, rfl⟩

/-- One step of a life keeps the invariant. -/
theorem Step.inv
    {before after : HeapFile}
    {event : Event}
    (step : Step before event after)
    (inv : Durable.Inv before.region before.state) :
    Durable.Inv after.region after.state := by
  cases step with
  | run step => exact step.inv inv
  | recover lost rooted collected =>
      obtain ⟨result, completed, -, given, isRestart⟩ :=
        lost.recovered rooted inv
      obtain rfl := Except.ok.inj (completed.symm.trans collected)
      refine ⟨?_, fun k => Or.inr ⟨rfl, rfl, rfl, rfl⟩⟩
      rw [isRestart]
      exact given.inv

/-- The invariant holds in every state of every life. -/
theorem inv_of_reaches
    (reached : Reaches Initial Step file) :
    Durable.Inv file.region file.state :=
  reached.invariant
    (fun _ fresh => Durable.Inv.of_reaches (Reaches.start fresh))
    (fun _ _ _ inv step => step.inv inv)

/-- A block in use after recovery, as the old process had it. -/
structure Restored
    (file : HeapFile)
    (region : SbRegion)
    (image recovered : Heap)
    (addr block : Nat) : Prop where
  isLive : block ∈ file.state.heap.live
  moved : addr + file.region.start = block + region.start
  sameOwner : region.owner addr = file.region.owner block
  sameClass :
    (recovered.desc (region.owner addr)).heap =
      (file.state.heap.desc (file.region.owner block)).heap
  bytes :
    ∀ offset,
      offset < (recovered.desc (region.owner addr)).blockSize →
      recovered.memory (addr + offset) = image.memory (addr + offset)

/-- The recovery after a crash, without the old run. -/
theorem PowerLost.restored
    {roots : List Nat}
    (lost : file.PowerLost region image)
    (rooted : file.Rooted region image roots)
    (inv : Durable.Inv file.region file.state)
    {result : Gc.Collected}
    (collected : Gc.collect region roots image = .ok result)
    {addr : Nat}
    (reachable : Gc.Reachable region.start image roots addr) :
    ∃ block, Restored file region image result.restart addr block := by
  obtain ⟨block, sc, origin⟩ := (rooted.anchored reachable).origin lost inv
  obtain ⟨final, loop, -, sameHeap, -, isMarked⟩ := Gc.collect_cases collected
  have given := rooted.marked lost inv isMarked
  have kept :=
    Gc.sweep_keeps given.currBelow given.allocated given.currAbove loop
      given.small addr ((isMarked addr).mpr reachable)
  rw [← sameHeap] at kept
  refine ⟨block, origin.isLive, origin.moved, origin.sameOwner, ?_, ?_⟩
  · rw [origin.inUse, ← origin.persistent.heap]
    exact kept.fields.heap
  · intro offset early
    refine kept.bytes offset ?_
    rw [← kept.fields.blockSize]
    exact early

/--
After every crash of every life: if roots and reachable pointers name durable
blocks of the rebuilt classes, the collection completes and leaves a heap that
keeps the invariant.  The blocks in use are the reachable addresses, each with
its old class and the bytes of the image; the superblocks in use are those with
a reachable block, and all their other blocks are on the free chain.
-/
theorem recovery_keeps_reachable_only
    (reached : Reaches Initial Step file)
    {roots : List Nat}
    (lost : file.PowerLost region image)
    (rooted : file.Rooted region image roots) :
    ∃ result,
      Gc.collect region roots image = .ok result ∧
        result.restart.Inv region ∧
        (∀ addr,
          addr ∈ result.restart.live ↔
            Gc.Reachable region.start image roots addr) ∧
        (∀ addr,
          addr ∈ result.restart.live →
          ∃ block, Restored file region image result.restart addr block) ∧
        (∀ k,
          (result.restart.desc k).heap ≠ none ↔
            ∃ addr, addr ∈ result.restart.live ∧ region.owner addr = k) ∧
        ∀ k block,
          block ∈ result.restart.freeChain k ↔
            (result.restart.desc k).heap ≠ none ∧
              Gc.IsBlock (result.restart.desc k) block ∧
              block ∉ result.restart.live := by
  have inv := inv_of_reaches reached
  obtain ⟨result, collected, isMarked, given, isRestart⟩ :=
    lost.recovered rooted inv
  have isLive :
      ∀ addr,
        addr ∈ result.restart.live ↔
          Gc.Reachable region.start image roots addr := by
    intro addr
    rw [← isMarked]
    exact Finset.mem_sort _
  refine ⟨result, collected, ?_, isLive, ?_, ?_, ?_⟩
  · rw [isRestart]
    exact given.inv
  · intro addr member
    exact lost.restored rooted inv collected ((isLive addr).mp member)
  · intro k
    simp only [isLive, ← isMarked]
    rw [isRestart]
    exact given.inUse_iff k
  · intro k block
    rw [isLive, ← isMarked, isRestart]
    exact given.mem_chain k block

theorem movedStart_aligned : 0x30000 % sbSize = 0 := by
  decide

theorem movedStart_positive : 0 < 0x30000 := by
  decide

theorem movedLimit_userSpace :
    0x30000 + sbRegionExpandSize ≤ 2 ^ 47 := by
  decide

/-- Where another process maps the example region. -/
def movedRegion : SbRegion where
  start := 0x30000
  limit := 0x30000 + sbRegionExpandSize
  aligned := movedStart_aligned
  positive := movedStart_positive
  userSpace := movedLimit_userSpace

/-- The image of a heap in the moved region, with all contents lost. -/
def movedImage (heap : Heap) : Heap :=
  { heap with
    memory := fun _ => 0
    desc := fun k => (heap.desc k).remap 0x10000 0x30000
    currAddr := heap.currAddr + 0x20000 }

/-- A life with one live block of 24 KiB and all descriptors written back. -/
theorem exists_served
    (room : region.start + sbRegionExpandSize ≤ region.limit) :
    ∃ heap,
      Reaches Initial Step
          { region := region
            state := { heap := heap, persisted := heap.desc } } ∧
        heap.live = [region.sbAddr 1] ∧
        (heap.desc 1).heap = some 159 := by
  obtain ⟨first, fresh⟩ := Heap.exists_fresh room
  obtain ⟨rest, made⟩ := fresh.constructed
  have isFirst :
      Initial
        { region := region
          state := { heap := first, persisted := fun _ => .blank } } :=
    Durable.initial_of_constructed made
  have malloc :=
    Heap.Step.malloc (by decide) (by decide) made.doMalloc
  have noneLive : (Heap.firstServed region rest first).live = [] :=
    made.live
  rw [noneLive] at malloc
  have served :=
    (Reaches.start isFirst).next (Step.run (.call malloc))
  refine ⟨_, served.next (Step.run .flushRegion), rfl, ?_⟩
  change ((Heap.firstServed region rest first).desc 1).heap = _
  rw [Heap.firstServed_desc]
  rfl

/-- The file before the crash. -/
def servedFile (heap : Heap) : HeapFile where
  region := Heap.exampleRegion
  state := { heap := heap, persisted := heap.desc }

/-- A crash behind which nothing but descriptors and lists is left. -/
theorem movedImage_lost
    (heap : Heap) :
    (servedFile heap).PowerLost movedRegion (movedImage heap) := by
  have sameSize :
      movedRegion.limit + Heap.exampleRegion.start =
        Heap.exampleRegion.limit + movedRegion.start := by
    decide
  have sameEnd :
      (movedImage heap).currAddr + Heap.exampleRegion.start =
        heap.currAddr + movedRegion.start :=
    Nat.add_assoc ..
  exact ⟨fun _ => Or.inl rfl, rfl, sameEnd, sameSize, fun _ _ => rfl⟩

/-- The root of the image names the live block. -/
theorem movedImage_rooted
    {heap : Heap}
    (isLive : 0x20000 ∈ heap.live)
    (inUse : (heap.desc 1).heap = some 159) :
    (servedFile heap).Rooted movedRegion (movedImage heap) [0x40000] := by
  have first : Heap.exampleRegion.owner 0x20000 = 1 := by
    decide
  have moved :
      0x40000 + Heap.exampleRegion.start = 0x20000 + movedRegion.start := by
    decide
  have anchored : (servedFile heap).Anchored movedRegion 0x40000 := by
    refine ⟨0x20000, isLive, moved, ?_, ?_, ?_⟩
    all_goals
      unfold servedFile
      dsimp only
      rw [first]
    · refine ⟨?_, rfl, rfl, rfl, rfl⟩
      change (heap.desc 1).heap ≠ none
      rw [inUse]
      exact Option.some_ne_none _
    · rw [inUse]
      decide
    · rw [inUse]
      decide
  refine ⟨?_, ?_⟩
  · intro root isRoot
    rw [List.mem_singleton.mp isRoot.1]
    exact anchored
  · intro addr target _ edge
    obtain ⟨⟨i, -, isTarget⟩, nonzero, -⟩ := Gc.mem_targets.mp edge
    exact absurd (isTarget.symm.trans (readLink_zeros _)) nonzero

/-- The root of the image is in range. -/
theorem movedImage_reachable
    {heap : Heap}
    (above : 0x20000 < heap.currAddr) :
    Gc.Reachable movedRegion.start (movedImage heap) [0x40000] 0x40000 := by
  refine .root ⟨List.mem_cons_self, by decide, by decide, ?_⟩
  change 0x40000 < heap.currAddr + 0x20000
  omega

/-- The served block of 24 KiB and what is known of it. -/
theorem exists_servedFile :
    ∃ heap,
      Reaches Initial Step (servedFile heap) ∧
        0x20000 ∈ heap.live ∧
        (heap.desc 1).heap = some 159 ∧
        0x20000 < heap.currAddr := by
  obtain ⟨heap, reached, isLive, inUse⟩ :=
    exists_served Heap.exampleRegion_room
  have start : Heap.exampleRegion.sbAddr 1 = 0x20000 := by
    decide
  have inside :
      Heap.exampleRegion.sbAddr 1 + sbSize ≤ heap.currAddr :=
    ((inv_of_reaches reached).heap.control.geometry.descOk 1 159 inUse).inside
  rw [start] at isLive inside
  refine ⟨heap, reached, ?_, inUse, ?_⟩
  · rw [isLive]
    exact List.mem_cons_self
  · exact Nat.lt_of_lt_of_le (by decide) inside

/-- The block of 24 KiB is found again where the other process maps it. -/
theorem recovery_keeps_reachable_only_moved :
    ∃ image result,
      Gc.collect movedRegion [0x40000] image = .ok result ∧
        result.restart.Inv movedRegion ∧
        0x40000 ∈ result.restart.live := by
  obtain ⟨heap, reached, isLive, inUse, above⟩ := exists_servedFile
  obtain ⟨result, collected, inv, isReachable, -⟩ :=
    recovery_keeps_reachable_only reached (movedImage_lost heap)
      (movedImage_rooted isLive inUse)
  exact ⟨_, result, collected, inv,
    (isReachable 0x40000).mpr (movedImage_reachable above)⟩

end HeapFile

end Bxalloc
