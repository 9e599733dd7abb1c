import Bxalloc.HeapFile
import Bxalloc.HeapProgress

namespace Bxalloc

/-!
# What holds across crashes

The invariant of the allocator holds in every state of every life, so blocks
stay partitioned, calls return and chains stay well formed behind any number of
crashes and recoveries, wherever the later processes map the file.
-/

open Lib (Reaches)

namespace HeapFile

variable {file : HeapFile}

/-- `curr_addr` stays at whole expansions where the file is mapped anew. -/
theorem Step.expanded
    {before after : HeapFile}
    {event : Event}
    (step : Step before event after)
    (inv : Durable.Inv before.region before.state)
    (expanded : Heap.Expanded before.region before.state.heap) :
    Heap.Expanded after.region after.state.heap := by
  cases step with
  | run step =>
      cases step with
      | call step => exact step.expanded inv.heap expanded
      | flushRegion => exact expanded
  | @recover region image roots result lost rooted collected =>
      obtain ⟨expansions, shape⟩ := expanded
      obtain ⟨found, completed, -, -, isRestart⟩ :=
        lost.recovered rooted inv
      obtain rfl := Except.ok.inj (completed.symm.trans collected)
      refine ⟨expansions, ?_⟩
      have moved := lost.currAddr
      change found.restart.currAddr = _
      rw [isRestart, Gc.recoveredHeap_currAddr]
      change image.currAddr = region.start + expansions * sbRegionExpandSize
      generalize expansions * sbRegionExpandSize = bytes at *
      omega

end HeapFile

end Bxalloc
