import Bxalloc.QueueCapacity

namespace Bxalloc

/-!
# Calls that return

From the invariant: `do_malloc` stops only when the queue is empty and the file
has no room for an expansion, `do_free` of a live block stops only when a whole
superblock meets a full queue, and `public_flush_cache` always returns.  No
other assertion fails and no null descriptor is followed.
-/

namespace Heap

variable {region : SbRegion} {heap heap' : Heap}

/-- No superblock is queued and the file has no room for an expansion. -/
def Exhausted (region : SbRegion) (heap : Heap) : Prop :=
  heap.queue = [] ∧ region.limit < heap.currAddr + sbRegionExpandSize

/-- The two ways out of a call that needs a superblock. -/
def ReturnsOrExhausted
    {Value : Type}
    (region : SbRegion)
    (heap : Heap)
    (result : Except Fault Value) : Prop :=
  (∃ value, result = .ok value) ∨
    (result = .error .outOfSpace ∧ Exhausted region heap)

/-- A call goes on behind a call that returns or finds the heap exhausted. -/
theorem ReturnsOrExhausted.bind
    {Value Result : Type}
    {first : Except Fault Value}
    {second : Value → Except Fault Result}
    (returns : ReturnsOrExhausted region heap first)
    (goesOn :
      ∀ value,
        first = .ok value →
        ∃ result, second value = .ok result) :
    ReturnsOrExhausted region heap (first >>= second) := by
  rcases returns with ⟨value, accepted⟩ | ⟨rejected, exhausted⟩
  · obtain ⟨result, returned⟩ := goesOn value accepted
    rw [accepted]
    exact Or.inl ⟨result, returned⟩
  · rw [rejected]
    exact Or.inr ⟨rfl, exhausted⟩

/-- A result may be converted. -/
theorem ReturnsOrExhausted.map
    {Value Result : Type}
    {first : Except Fault Value}
    (returns : ReturnsOrExhausted region heap first)
    (convert : Value → Result) :
    ReturnsOrExhausted region heap (first.map convert) := by
  rcases returns with ⟨value, accepted⟩ | ⟨rejected, exhausted⟩
  · rw [accepted]
    exact Or.inl ⟨convert value, rfl⟩
  · rw [rejected]
    exact Or.inr ⟨rfl, exhausted⟩

/-- `small_sb_alloc` returns a superblock unless the heap is exhausted. -/
theorem Geometry.smallSbAlloc_returns
    (geometry : Geometry region heap) :
    ReturnsOrExhausted region heap (BaseMeta.smallSbAlloc region heap) := by
  by_cases supplied :
      heap.queue ≠ [] ∨ heap.currAddr + sbRegionExpandSize ≤ region.limit
  · obtain ⟨superblock, middle, accepted⟩ := geometry.smallSbAlloc_ok supplied
    exact Or.inl ⟨_, accepted⟩
  · obtain ⟨noneQueued, noRoom⟩ := not_or.mp supplied
    have exhausted : Exhausted region heap :=
      ⟨not_not.mp noneQueued, Nat.lt_of_not_le noRoom⟩
    refine Or.inr ⟨?_, exhausted⟩
    unfold BaseMeta.smallSbAlloc
    rw [exhausted.1]
    simp only [geometry.pageAligned]
    rw [if_pos exhausted.2]

/-- `malloc_from_newsb` returns unless the heap is exhausted. -/
theorem Geometry.mallocFromNewsb_returns
    (geometry : Geometry region heap)
    (thread sc : Nat) :
    ReturnsOrExhausted region heap
      (BaseMeta.mallocFromNewsb region thread sc heap) := by
  unfold BaseMeta.mallocFromNewsb
  refine geometry.smallSbAlloc_returns.bind ?_
  rintro ⟨superblock, middle⟩ -
  simp only
  split
  · exact ⟨_, rfl⟩
  · rw [@heapPushPartial_of_heap _ _ sc (by
      simp only [Heap.setDesc, Function.update_self])]
    exact ⟨_, rfl⟩

end Heap

end Bxalloc
