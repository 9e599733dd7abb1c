import Bxalloc.Lookup
import Bxalloc.Lib.NullList
import Bxalloc.Lib.Reach

namespace Bxalloc

/-!
# The partial list under concurrency

`heap_push_partial` and `heap_pop_partial` on one `ProcHeap`, one atomic access
a step.  The head is one word: a counter in the high 34 bits and the offset of
the first descriptor in the low 30 bits.  `next_partial` is a position
independent pointer in the descriptor.  Threads push descriptors they own; the
owner of a popped descriptor may rewrite its `next_partial` or hand it to
another thread.

The fields `pushes` and `stack` record the successful pushes so far and the
descriptors pushed and not yet popped, most recent first.
-/

open Lib (NullList Reaches)

/-- Where the descriptor region lies in this run. -/
structure DescRegion where
  /-- `regions_address[DESC_IDX]`. -/
  start : Nat
  positive : 0 < start
  userSpace : start + 2 ^ maxDescOffsetBits ≤ 2 ^ 47

/-- The address is that of a descriptor other than the first. -/
def DescRegion.Contains (region : DescRegion) (desc : Nat) : Prop :=
  region.start < desc ∧ desc < region.start + 2 ^ maxDescOffsetBits

instance
    (region : DescRegion)
    (desc : Nat) :
    Decidable (region.Contains desc) :=
  inferInstanceAs (Decidable (_ ∧ _))

namespace PartialList

/-- `ptr_cnt<Descriptor>`. -/
structure PtrCnt where
  ptr : Nat
  cnt : Nat
  deriving Repr, DecidableEq

/-- The word `AtomicCrossPtrCnt` stores for a pointer and a counter. -/
def encode (region : DescRegion) (value : PtrCnt) : Nat :=
  let cntBits := (value.cnt <<< maxDescOffsetBits) % 2 ^ 64
  if value.ptr = 0 then
    cntBits
  else
    u64Sub value.ptr region.start ||| cntBits

/-- `AtomicCrossPtrCnt::load` of a stored word. -/
def decode (region : DescRegion) (word : Nat) : PtrCnt :=
  let offset := word &&& (2 ^ maxDescOffsetBits - 1)
  { ptr := if offset = 0 then 0 else (region.start + offset) % 2 ^ 64
    cnt := word >>> maxDescOffsetBits }

/-- The offset of `next_partial` in a `Descriptor`. -/
abbrev nextPartialOffset : Nat := 8

/-- What a thread does next. -/
inductive Pc where
  | idle
  /-- `heap_push_partial` stores `next_partial`. -/
  | pushStore (desc : Nat) (oldhead : PtrCnt)
  /-- `heap_push_partial` exchanges the head. -/
  | pushCas (desc : Nat) (oldhead : PtrCnt)
  /-- `heap_pop_partial` loads `next_partial`; `since` counts the pushes before
  its read of the head. -/
  | popLoad (oldhead : PtrCnt) (since : Nat)
  /-- `heap_pop_partial` exchanges the head. -/
  | popCas (oldhead : PtrCnt) (desc since : Nat)
  deriving Repr, DecidableEq

/-- One partial list, the descriptors and the threads. -/
structure State where
  /-- `partial_list.off`. -/
  head : Nat
  /-- `next_partial.off` of every descriptor. -/
  nextPartial : Nat → Nat
  pc : Nat → Pc
  /-- The thread that owns a descriptor. -/
  owner : Nat → Option Nat
  pushes : Nat
  stack : List Nat

/-- Steps of threads; a weak exchange may fail for no reason. -/
inductive Action where
  | push (thread desc : Nat)
  | storeNext (thread : Nat)
  | pushCas (thread : Nat) (spurious : Bool)
  | pop (thread : Nat)
  | loadNext (thread : Nat)
  | popCas (thread : Nat) (spurious : Bool)
  | rewrite (thread desc word : Nat)
  | transfer (thread desc receiver : Nat)
  deriving Repr, DecidableEq

namespace State

/-- `next_partial.load()`. -/
def loadNext (state : State) (desc : Nat) : Nat :=
  fromPptrOff (state.nextPartial desc) (desc + nextPartialOffset)

/-- Move one thread. -/
def setPc (state : State) (thread : Nat) (pc : Pc) : State :=
  { state with pc := Function.update state.pc thread pc }

/-- `next_partial.store(target)`, or any other write to the field. -/
def setNext (state : State) (desc word : Nat) : State :=
  { state with nextPartial := Function.update state.nextPartial desc word }

/-- Give a descriptor to a thread, or to the list. -/
def setOwner (state : State) (desc : Nat) (owner : Option Nat) : State :=
  { state with owner := Function.update state.owner desc owner }

end State

/-- The head of the loop of `heap_pop_partial` with the head just read. -/
def popEnter
    (thread : Nat)
    (oldhead : PtrCnt)
    (state : State) : State :=
  if oldhead.ptr = 0 then
    state.setPc thread .idle
  else
    state.setPc thread (.popLoad oldhead state.pushes)

/-- One atomic step, if the thread can take it. -/
def step (region : DescRegion) (state : State) : Action → Option State
  | .push thread desc =>
      if state.pc thread = .idle ∧ state.owner desc = some thread ∧
          region.Contains desc then
        some (state.setPc thread
          (.pushStore desc (decode region state.head)))
      else
        none
  | .storeNext thread =>
      match state.pc thread with
      | .pushStore desc oldhead =>
          some ((state.setNext desc
            (toPptrOff oldhead.ptr (desc + nextPartialOffset))).setPc thread
              (.pushCas desc oldhead))
      | _ => none
  | .pushCas thread spurious =>
      match state.pc thread with
      | .pushCas desc oldhead =>
          if state.head = encode region oldhead ∧ spurious = false then
            some { (state.setPc thread .idle).setOwner desc none with
              head :=
                encode region { ptr := desc, cnt := oldhead.cnt + 1 }
              pushes := state.pushes + 1
              stack := desc :: state.stack }
          else
            some (state.setPc thread
              (.pushStore desc (decode region state.head)))
      | _ => none
  | .pop thread =>
      if state.pc thread = .idle then
        some (popEnter thread (decode region state.head) state)
      else
        none
  | .loadNext thread =>
      match state.pc thread with
      | .popLoad oldhead since =>
          some (state.setPc thread
            (.popCas oldhead (state.loadNext oldhead.ptr) since))
      | _ => none
  | .popCas thread spurious =>
      match state.pc thread with
      | .popCas oldhead desc _ =>
          if state.head = encode region oldhead ∧ spurious = false then
            some { (state.setPc thread .idle).setOwner
                oldhead.ptr (some thread) with
              head := encode region { ptr := desc, cnt := oldhead.cnt }
              stack := state.stack.erase oldhead.ptr }
          else
            some (popEnter thread (decode region state.head) state)
      | _ => none
  | .rewrite thread desc word =>
      if state.pc thread = .idle ∧ state.owner desc = some thread then
        some (state.setNext desc word)
      else
        none
  | .transfer thread desc receiver =>
      if state.pc thread = .idle ∧ state.owner desc = some thread then
        some (state.setOwner desc (some receiver))
      else
        none

/-- An empty list; descriptors belong to any threads. -/
def Initial (region : DescRegion) (state : State) : Prop :=
  state.head = encode region { ptr := 0, cnt := 0 } ∧
    (∀ thread, state.pc thread = .idle) ∧
    state.pushes = 0 ∧
    state.stack = []

/-- Fewer than `2 ^ 34` pushes since a pop read the head it now exchanges. -/
def FewPushes (state : State) : Action → Prop
  | .popCas thread _ =>
      match state.pc thread with
      | .popCas _ _ since => state.pushes < since + 2 ^ 34
      | _ => True
  | _ => True

/-- Steps in which no pop is overtaken by `2 ^ 34` pushes. -/
def BoundedStep
    (region : DescRegion)
    (before : State)
    (action : Action)
    (after : State) : Prop :=
  step region before action = some after ∧ FewPushes before action

variable {region : DescRegion} {state state' : State}

/-- A null pointer or a descriptor of the region. -/
def Valid (region : DescRegion) (ptr : Nat) : Prop :=
  ptr = 0 ∨ region.Contains ptr

/-- The word of a valid pointer is its counter followed by its offset. -/
theorem encode_eq
    {value : PtrCnt}
    (valid : Valid region value.ptr) :
    encode region value =
      value.cnt % 2 ^ 34 * 2 ^ 30 +
        if value.ptr = 0 then 0 else value.ptr - region.start := by
  have userSpace := region.userSpace
  have counter :
      (value.cnt <<< maxDescOffsetBits) % 2 ^ 64 =
        value.cnt % 2 ^ 34 * 2 ^ 30 := by
    simp only [maxDescOffsetBits, maxDescAmountBits, Nat.shiftLeft_eq]
    omega
  unfold encode
  simp only [counter]
  by_cases isNull : value.ptr = 0
  · simp [isNull]
  · obtain ⟨lower, upper⟩ := valid.resolve_left isNull
    simp only [maxDescOffsetBits, maxDescAmountBits] at upper userSpace
    have offset :
        u64Sub value.ptr region.start = value.ptr - region.start :=
      u64Sub_of_le (by omega) (by omega)
    have small : value.ptr - region.start < 2 ^ 30 := by
      omega
    rw [if_neg isNull, if_neg isNull, offset, Nat.or_comm,
      ← Nat.shiftLeft_eq, Nat.shiftLeft_add_eq_or_of_lt small]

/-- Loading a stored word gives the pointer and the low counter bits back. -/
theorem decode_encode
    {value : PtrCnt}
    (valid : Valid region value.ptr) :
    decode region (encode region value) =
      { ptr := value.ptr, cnt := value.cnt % 2 ^ 34 } := by
  have userSpace := region.userSpace
  have positive := region.positive
  rw [encode_eq valid]
  unfold decode
  simp only [maxDescOffsetBits, maxDescAmountBits, Nat.shiftRight_eq_div_pow,
    Nat.and_two_pow_sub_one_eq_mod] at userSpace ⊢
  by_cases isNull : value.ptr = 0
  · rw [if_pos isNull, isNull]
    congr 1
    · rw [if_pos (by omega)]
    · omega
  · obtain ⟨lower, upper⟩ := valid.resolve_left isNull
    simp only [maxDescOffsetBits, maxDescAmountBits] at upper
    rw [if_neg isNull]
    congr 1
    · rw [if_neg (by omega)]
      omega
    · omega

/-- Equal words hold equal pointers and equal low counter bits. -/
theorem encode_injective
    {first second : PtrCnt}
    (firstValid : Valid region first.ptr)
    (secondValid : Valid region second.ptr)
    (same : encode region first = encode region second) :
    first.ptr = second.ptr ∧
      first.cnt % 2 ^ 34 = second.cnt % 2 ^ 34 := by
  have decoded : decode region (encode region first) =
      decode region (encode region second) := by
    rw [same]
  rw [decode_encode firstValid, decode_encode secondValid] at decoded
  injection decoded with samePtr sameCnt
  exact ⟨samePtr, sameCnt⟩

/-- A stored `next_partial` reads back. -/
theorem loadNext_store
    {desc target : Nat}
    (inside : region.Contains desc)
    (valid : Valid region target)
    (stored :
      state.nextPartial desc = toPptrOff target (desc + nextPartialOffset)) :
    state.loadNext desc = target := by
  have userSpace := region.userSpace
  obtain ⟨lower, upper⟩ := inside
  unfold State.loadNext
  rw [stored]
  simp only [maxDescOffsetBits, maxDescAmountBits, nextPartialOffset]
    at upper userSpace ⊢
  have low : target < 2 ^ 47 := by
    rcases valid with isNull | ⟨-, below⟩
    · omega
    · simp only [maxDescOffsetBits, maxDescAmountBits] at below
      omega
  exact fromPptrOff_toPptrOff (by omega) (by omega) (by omega) (by omega)

/-- A thread in a push owns the descriptor and holds a head it once read. -/
structure PushOk
    (region : DescRegion)
    (state : State)
    (thread desc : Nat)
    (oldhead : PtrCnt) : Prop where
  inside : region.Contains desc
  owned : state.owner desc = some thread
  valid : Valid region oldhead.ptr

/--
A thread in a pop holds the head it read after `since` pushes.  Without a push
since then, a descriptor still on the list is still the first one.
-/
structure PopOk
    (region : DescRegion)
    (state : State)
    (oldhead : PtrCnt)
    (since : Nat) : Prop where
  inside : region.Contains oldhead.ptr
  counted : oldhead.cnt = since % 2 ^ 34
  past : since ≤ state.pushes
  still :
    state.pushes = since →
    oldhead.ptr ∈ state.stack →
    state.stack.head? = some oldhead.ptr

/-- What is known about a thread at its program point. -/
def PcOk (region : DescRegion) (state : State) (thread : Nat) : Pc → Prop
  | .idle => True
  | .pushStore desc oldhead => PushOk region state thread desc oldhead
  | .pushCas desc oldhead =>
      PushOk region state thread desc oldhead ∧
        state.loadNext desc = oldhead.ptr
  | .popLoad oldhead since => PopOk region state oldhead since
  | .popCas oldhead desc since =>
      PopOk region state oldhead since ∧
        (state.pushes = since →
          oldhead.ptr ∈ state.stack →
          desc = NullList.top 0 state.stack.tail)

/-- The invariant of the partial list. -/
structure Inv (region : DescRegion) (state : State) : Prop where
  headShape :
    state.head =
      encode region
        { ptr := NullList.top 0 state.stack, cnt := state.pushes }
  linked :
    NullList state.loadNext 0 (NullList.top 0 state.stack) state.stack
  nodup : state.stack.Nodup
  inside : ∀ desc, desc ∈ state.stack → region.Contains desc
  unowned : ∀ desc, desc ∈ state.stack → state.owner desc = none
  threads : ∀ thread, PcOk region state thread (state.pc thread)

/-- Descriptors are not null. -/
theorem ne_zero_of_contains
    {desc : Nat}
    (inside : region.Contains desc) :
    desc ≠ 0 := by
  have lower := inside.1
  omega

/-- The first descriptor of the list, or null, is valid. -/
theorem Inv.top_valid
    (inv : Inv region state) :
    Valid region (NullList.top 0 state.stack) := by
  cases shape : state.stack with
  | nil => exact Or.inl rfl
  | cons desc rest =>
      right
      exact inv.inside desc (by rw [shape]; exact List.mem_cons_self)

/-- Reading the head gives the first descriptor and the low counter bits. -/
theorem Inv.decode_head
    (inv : Inv region state) :
    decode region state.head =
      { ptr := NullList.top 0 state.stack
        cnt := state.pushes % 2 ^ 34 } := by
  rw [inv.headShape]
  exact decode_encode inv.top_valid

/-- A thread that just read the head may go on with a pop. -/
theorem Inv.popOk_head
    (inv : Inv region state)
    (nonempty : (decode region state.head).ptr ≠ 0) :
    PopOk region state (decode region state.head) state.pushes := by
  rw [inv.decode_head] at nonempty ⊢
  refine ⟨inv.top_valid.resolve_left nonempty, rfl, Nat.le_refl _, ?_⟩
  intro _ _
  cases shape : state.stack with
  | nil =>
      rw [shape] at nonempty
      exact absurd rfl nonempty
  | cons desc rest => rfl

/--
What is known about a thread stays true when the descriptor it pushes is left
alone and the list is unchanged or has moved on from the head it read.
-/
theorem PcOk.frame
    {thread : Nat}
    {pc : Pc}
    (ok : PcOk region state thread pc)
    (owners :
      ∀ desc,
        state.owner desc = some thread →
        state'.owner desc = some thread)
    (links :
      ∀ desc oldhead,
        pc = .pushCas desc oldhead →
        state'.loadNext desc = state.loadNext desc)
    (pops :
      (state'.pushes = state.pushes ∧ state'.stack = state.stack) ∨
        ∀ oldhead since,
          PopOk region state oldhead since →
          since ≤ state'.pushes ∧
            ¬ (state'.pushes = since ∧ oldhead.ptr ∈ state'.stack)) :
    PcOk region state' thread pc := by
  have push :
      ∀ {desc oldhead},
        PushOk region state thread desc oldhead →
        PushOk region state' thread desc oldhead :=
    fun old => ⟨old.inside, owners _ old.owned, old.valid⟩
  have pop :
      ∀ {oldhead since},
        PopOk region state oldhead since →
        PopOk region state' oldhead since := by
    intro oldhead since old
    rcases pops with ⟨samePushes, sameStack⟩ | moved
    · refine ⟨old.inside, old.counted, ?_, ?_⟩
      · rw [samePushes]
        exact old.past
      · rw [samePushes, sameStack]
        exact old.still
    · obtain ⟨past, gone⟩ := moved oldhead since old
      exact ⟨old.inside, old.counted, past,
        fun same member => absurd ⟨same, member⟩ gone⟩
  cases pc with
  | idle => trivial
  | pushStore desc oldhead => exact push ok
  | pushCas desc oldhead =>
      exact ⟨push ok.1, (links desc oldhead rfl).trans ok.2⟩
  | popLoad oldhead since => exact pop ok
  | popCas oldhead desc since =>
      refine ⟨pop ok.1, ?_⟩
      rcases pops with ⟨samePushes, sameStack⟩ | moved
      · rw [samePushes, sameStack]
        exact ok.2
      · intro same member
        exact absurd ⟨same, member⟩ (moved oldhead since ok.1).2

/-- Moving one thread to a justified point keeps the invariant. -/
theorem Inv.setPc
    (inv : Inv region state)
    {thread : Nat}
    {pc : Pc}
    (ok : PcOk region state thread pc) :
    Inv region (state.setPc thread pc) where
  headShape := inv.headShape
  linked := inv.linked
  nodup := inv.nodup
  inside := inv.inside
  unowned := inv.unowned
  threads other := by
    have known :
        PcOk region state other ((state.setPc thread pc).pc other) := by
      by_cases same : other = thread
      · subst same
        simpa [State.setPc] using ok
      · simpa [State.setPc, same] using inv.threads other
    exact known.frame (fun _ owned => owned) (fun _ _ _ => rfl)
      (Or.inl ⟨rfl, rfl⟩)

/-- Entering the loop of a pop keeps the invariant. -/
theorem Inv.popEnter
    (inv : Inv region state)
    (thread : Nat) :
    Inv region
      (popEnter thread (decode region state.head) state) := by
  unfold PartialList.popEnter
  split
  · exact inv.setPc trivial
  · next nonempty => exact inv.setPc (inv.popOk_head nonempty)

/-- Writing `next_partial` of an owned descriptor disturbs nobody else. -/
theorem Inv.setNext
    (inv : Inv region state)
    {thread desc : Nat}
    (word : Nat)
    (owned : state.owner desc = some thread)
    (notPushing : ∀ old oldhead, state.pc thread ≠ .pushCas old oldhead) :
    Inv region (state.setNext desc word) where
  headShape := inv.headShape
  linked := by
    refine inv.linked.congr ?_
    intro node member
    have distinct : node ≠ desc := by
      intro same
      have free := inv.unowned node member
      rw [same, owned] at free
      cases free
    simp [State.loadNext, State.setNext, distinct]
  nodup := inv.nodup
  inside := inv.inside
  unowned := inv.unowned
  threads other := by
    refine (inv.threads other).frame (fun _ owned => owned) ?_
      (Or.inl ⟨rfl, rfl⟩)
    intro pushed oldhead shape
    have old := inv.threads other
    rw [shape] at old
    have distinct : pushed ≠ desc := by
      intro same
      have pushOwned := old.1.owned
      rw [same, owned] at pushOwned
      rw [← Option.some.inj pushOwned] at shape
      exact notPushing pushed oldhead shape
    simp [State.loadNext, State.setNext, distinct]

/-- Handing a descriptor of an idle thread over disturbs nobody else. -/
theorem Inv.transfer
    (inv : Inv region state)
    {thread desc receiver : Nat}
    (owned : state.owner desc = some thread)
    (idle : state.pc thread = .idle) :
    Inv region (state.setOwner desc (some receiver)) where
  headShape := inv.headShape
  linked := inv.linked
  nodup := inv.nodup
  inside := inv.inside
  unowned node member := by
    have free := inv.unowned node member
    have distinct : node ≠ desc := by
      intro same
      rw [same, owned] at free
      cases free
    simpa [State.setOwner, distinct] using free
  threads other := by
    by_cases same : other = thread
    · subst same
      change PcOk region _ other (state.pc other)
      rw [idle]
      trivial
    · refine (inv.threads other).frame ?_ (fun _ _ _ => rfl)
        (Or.inl ⟨rfl, rfl⟩)
      intro pushed pushOwned
      have distinct : pushed ≠ desc := by
        intro isDesc
        rw [isDesc, owned] at pushOwned
        exact same (Option.some.inj pushOwned).symm
      simpa [State.setOwner, distinct] using pushOwned

/-- A successful push exchange puts the descriptor on top. -/
theorem Inv.pushCas
    (inv : Inv region state)
    {thread desc : Nat}
    {oldhead : PtrCnt}
    (shape : state.pc thread = .pushCas desc oldhead)
    (unchanged : state.head = encode region oldhead) :
    Inv region
      { (state.setPc thread .idle).setOwner desc none with
        head := encode region { ptr := desc, cnt := oldhead.cnt + 1 }
        pushes := state.pushes + 1
        stack := desc :: state.stack } := by
  have known := inv.threads thread
  rw [shape] at known
  obtain ⟨push, linked⟩ := known
  obtain ⟨samePtr, sameCnt⟩ :=
    encode_injective push.valid inv.top_valid
      (unchanged.symm.trans inv.headShape)
  have fresh : desc ∉ state.stack := by
    intro member
    have free := inv.unowned desc member
    rw [push.owned] at free
    cases free
  refine ⟨?_, ?_, ?_, ?_, ?_, ?_⟩
  · have valid : Valid region desc := Or.inr push.inside
    change encode region _ = encode region _
    rw [encode_eq valid, encode_eq valid]
    congr 2
    simp only at sameCnt ⊢
    omega
  · exact inv.linked.cons (linked.trans samePtr)
      (ne_zero_of_contains push.inside)
  · exact List.nodup_cons.mpr ⟨fresh, inv.nodup⟩
  · intro node member
    rcases List.mem_cons.mp member with isDesc | old
    · rw [isDesc]
      exact push.inside
    · exact inv.inside node old
  · intro node member
    by_cases isDesc : node = desc
    · simp [State.setOwner, isDesc]
    · have old : node ∈ state.stack :=
        (List.mem_cons.mp member).resolve_left isDesc
      simpa [State.setOwner, State.setPc, isDesc] using inv.unowned node old
  · intro other
    change PcOk region _ other ((state.setPc thread .idle).pc other)
    by_cases same : other = thread
    · subst same
      simp only [State.setPc, Function.update_self]
      trivial
    · simp only [State.setPc, Function.update_apply, same, if_false]
      refine (inv.threads other).frame ?_ (fun _ _ _ => rfl) (Or.inr ?_)
      · intro pushed pushOwned
        have distinct : pushed ≠ desc := by
          intro isDesc
          rw [isDesc, push.owned] at pushOwned
          exact same (Option.some.inj pushOwned).symm
        simpa [State.setOwner, State.setPc, distinct] using pushOwned
      · intro old since pop
        have past := pop.past
        refine ⟨by simp only; omega, ?_⟩
        rintro ⟨samePushes, -⟩
        simp only at samePushes
        omega

/--
An exchange by a pop that was not overtaken by `2 ^ 34` pushes succeeds only on
the list it read: the descriptor is still first and was read with the link it
has now.
-/
theorem Inv.popCas_top
    (inv : Inv region state)
    {thread desc since : Nat}
    {oldhead : PtrCnt}
    (shape : state.pc thread = .popCas oldhead desc since)
    (unchanged : state.head = encode region oldhead)
    (few : state.pushes < since + 2 ^ 34) :
    state.stack = oldhead.ptr :: state.stack.tail ∧
      desc = NullList.top 0 state.stack.tail ∧
      oldhead.cnt = state.pushes % 2 ^ 34 := by
  have known := inv.threads thread
  rw [shape] at known
  obtain ⟨pop, read⟩ := known
  obtain ⟨samePtr, sameCnt⟩ :=
    encode_injective (Or.inr pop.inside) inv.top_valid
      (unchanged.symm.trans inv.headShape)
  have counted := pop.counted
  have past := pop.past
  have samePushes : state.pushes = since := by
    simp only at sameCnt
    omega
  have top : state.stack = oldhead.ptr :: state.stack.tail := by
    cases stackShape : state.stack with
    | nil =>
        rw [stackShape] at samePtr
        exact absurd samePtr (ne_zero_of_contains pop.inside)
    | cons first rest =>
        rw [stackShape] at samePtr
        rw [samePtr]
        rfl
  have member : oldhead.ptr ∈ state.stack := by
    rw [top]
    exact List.mem_cons_self
  exact ⟨top, read samePushes member, by rw [samePushes, counted]⟩

/-- A successful pop exchange takes the first descriptor. -/
theorem Inv.popCas
    (inv : Inv region state)
    {thread desc since : Nat}
    {oldhead : PtrCnt}
    (shape : state.pc thread = .popCas oldhead desc since)
    (unchanged : state.head = encode region oldhead)
    (few : state.pushes < since + 2 ^ 34) :
    Inv region
      { (state.setPc thread .idle).setOwner oldhead.ptr (some thread) with
        head := encode region { ptr := desc, cnt := oldhead.cnt }
        stack := state.stack.erase oldhead.ptr } := by
  obtain ⟨top, read, counted⟩ := inv.popCas_top shape unchanged few
  generalize stackShape : state.stack.tail = rest at top read
  have erased : state.stack.erase oldhead.ptr = rest := by
    rw [top]
    simp
  have linked := inv.linked
  have nodup := inv.nodup
  rw [top] at linked nodup
  obtain ⟨absent, restNodup⟩ := List.nodup_cons.mp nodup
  have restMember : ∀ node, node ∈ rest → node ∈ state.stack := by
    intro node member
    rw [top]
    exact List.mem_cons_of_mem _ member
  have restLinked : NullList state.loadNext 0 (NullList.top 0 rest) rest := by
    have later := linked.2.2
    rwa [later.start_eq] at later
  rw [erased]
  refine ⟨?_, restLinked, restNodup, ?_, ?_, ?_⟩
  · have valid : Valid region desc := by
      rw [read]
      cases rest with
      | nil => exact Or.inl rfl
      | cons first later =>
          exact Or.inr (inv.inside first (restMember first List.mem_cons_self))
    change encode region _ = encode region _
    rw [← read, encode_eq valid, encode_eq valid]
    congr 2
    simp only [counted]
    change state.pushes % 2 ^ 34 % 2 ^ 34 = state.pushes % 2 ^ 34
    omega
  · intro node member
    exact inv.inside node (restMember node member)
  · intro node member
    have distinct : node ≠ oldhead.ptr := fun same => absent (same ▸ member)
    simpa [State.setOwner, State.setPc, distinct] using
      inv.unowned node (restMember node member)
  · intro other
    change PcOk region _ other ((state.setPc thread .idle).pc other)
    by_cases same : other = thread
    · subst same
      simp only [State.setPc, Function.update_self]
      trivial
    · simp only [State.setPc, Function.update_apply, same, if_false]
      refine (inv.threads other).frame ?_ (fun _ _ _ => rfl) (Or.inr ?_)
      · intro pushed pushOwned
        have distinct : pushed ≠ oldhead.ptr := by
          intro isTop
          have free := inv.unowned oldhead.ptr (by
            rw [top]
            exact List.mem_cons_self)
          rw [isTop, free] at pushOwned
          cases pushOwned
        simpa [State.setOwner, State.setPc, distinct] using pushOwned
      · intro old oldSince pop
        refine ⟨pop.past, ?_⟩
        rintro ⟨samePushes, member⟩
        have first := pop.still samePushes (restMember _ member)
        rw [top] at first
        exact absent (Option.some.inj first ▸ member)

/-- Every bounded step keeps the invariant. -/
theorem Inv.step
    {action : Action}
    (inv : Inv region state)
    (stepped : BoundedStep region state action state') :
    Inv region state' := by
  obtain ⟨accepted, few⟩ := stepped
  cases action with
  | push thread desc =>
      simp only [PartialList.step] at accepted
      split at accepted
      · next enabled =>
          obtain ⟨-, owned, inside⟩ := enabled
          obtain rfl := Option.some.inj accepted
          refine inv.setPc ⟨inside, owned, ?_⟩
          rw [inv.decode_head]
          exact inv.top_valid
      · cases accepted
  | storeNext thread =>
      simp only [PartialList.step] at accepted
      split at accepted
      · next desc oldhead shape =>
          obtain rfl := Option.some.inj accepted
          have known := inv.threads thread
          rw [shape] at known
          have written :=
            inv.setNext (toPptrOff oldhead.ptr (desc + nextPartialOffset))
              known.owned (by rw [shape]; simp)
          refine written.setPc ⟨⟨known.inside, known.owned, known.valid⟩, ?_⟩
          exact loadNext_store known.inside known.valid
            (by simp [State.setNext])
      · cases accepted
  | pushCas thread spurious =>
      simp only [PartialList.step] at accepted
      split at accepted
      · next desc oldhead shape =>
          split at accepted
          · next success =>
              obtain rfl := Option.some.inj accepted
              exact inv.pushCas shape success.1
          · obtain rfl := Option.some.inj accepted
            have known := inv.threads thread
            rw [shape] at known
            refine inv.setPc ⟨known.1.inside, known.1.owned, ?_⟩
            rw [inv.decode_head]
            exact inv.top_valid
      · cases accepted
  | pop thread =>
      simp only [PartialList.step] at accepted
      split at accepted
      · obtain rfl := Option.some.inj accepted
        exact inv.popEnter thread
      · cases accepted
  | loadNext thread =>
      simp only [PartialList.step] at accepted
      split at accepted
      · next oldhead since shape =>
          obtain rfl := Option.some.inj accepted
          have known := inv.threads thread
          rw [shape] at known
          refine inv.setPc ⟨known, ?_⟩
          intro samePushes member
          have first := known.still samePushes member
          have linked := inv.linked
          cases stackShape : state.stack with
          | nil =>
              rw [stackShape] at first
              cases first
          | cons top rest =>
              rw [stackShape] at first linked
              rw [← Option.some.inj first]
              exact linked.2.2.start_eq
      · cases accepted
  | popCas thread spurious =>
      simp only [PartialList.step] at accepted
      split at accepted
      · next oldhead desc since shape =>
          split at accepted
          · next success =>
              obtain rfl := Option.some.inj accepted
              simp only [FewPushes, shape] at few
              exact inv.popCas shape success.1 few
          · obtain rfl := Option.some.inj accepted
            exact inv.popEnter thread
      · cases accepted
  | rewrite thread desc word =>
      simp only [PartialList.step] at accepted
      split at accepted
      · next enabled =>
          obtain rfl := Option.some.inj accepted
          exact inv.setNext word enabled.2 (by rw [enabled.1]; simp)
      · cases accepted
  | transfer thread desc receiver =>
      simp only [PartialList.step] at accepted
      split at accepted
      · next enabled =>
          obtain rfl := Option.some.inj accepted
          exact inv.transfer enabled.2 enabled.1
      · cases accepted

/-- The empty list satisfies the invariant. -/
theorem Initial.inv
    (initial : Initial region state) :
    Inv region state := by
  obtain ⟨head, idle, pushes, stack⟩ := initial
  refine ⟨?_, ?_, ?_, ?_, ?_, ?_⟩
  · rw [head, pushes, stack]
    rfl
  · rw [stack]
    rfl
  · rw [stack]
    exact List.nodup_nil
  · rw [stack]
    intro desc member
    exact absurd member List.not_mem_nil
  · rw [stack]
    intro desc member
    exact absurd member List.not_mem_nil
  · intro thread
    rw [idle]
    trivial

/-- The descriptor a pop returns if its exchange happens now. -/
def returned (region : DescRegion) (state : State) (thread : Nat) :
    Option Nat :=
  match state.pc thread with
  | .popCas oldhead _ _ =>
      if state.head = encode region oldhead then
        some oldhead.ptr
      else
        none
  | _ => none

/--
In every run in which no pop is overtaken by `2 ^ 34` pushes, following
`next_partial` from the head lists exactly the descriptors pushed and not yet
popped, each once, and every successful pop returns the most recent of them.
-/
theorem partial_list_is_stack
    (reached : Reaches (Initial region) (BoundedStep region) state) :
    NullList state.loadNext 0 (decode region state.head).ptr state.stack ∧
      state.stack.Nodup ∧
      ∀ thread desc after,
        BoundedStep region state (.popCas thread false) after →
        returned region state thread = some desc →
        state.stack.head? = some desc := by
  have inv : Inv region state :=
    reached.invariant (fun _ initial => initial.inv)
      (fun _ _ _ inv stepped => inv.step stepped)
  refine ⟨?_, inv.nodup, ?_⟩
  · rw [inv.decode_head]
    exact inv.linked
  · intro thread desc after stepped returns
    unfold returned at returns
    split at returns
    · next oldhead next since shape =>
        split at returns
        · next unchanged =>
            have few := stepped.2
            simp only [FewPushes, shape] at few
            obtain ⟨top, -, -⟩ := inv.popCas_top shape unchanged few
            rw [top, ← Option.some.inj returns]
            rfl
        · cases returns
    · cases returns

theorem exampleStart_positive : 0 < 4096 := by
  decide

theorem exampleStart_userSpace :
    4096 + 2 ^ maxDescOffsetBits ≤ 2 ^ 47 := by
  decide

/-- A descriptor region for examples. -/
def exampleDescRegion : DescRegion where
  start := 4096
  positive := exampleStart_positive
  userSpace := exampleStart_userSpace

/-- An empty list whose descriptors all belong to thread 0. -/
def emptyList : State where
  head := 0
  nextPartial := fun _ => 0
  pc := fun _ => .idle
  owner := fun _ => some 0
  pushes := 0
  stack := []

/-- A run in which thread 0 pushes a descriptor and thread 1 takes it. -/
theorem partial_list_is_stack_onePush :
    ∃ state after,
      Reaches (Initial exampleDescRegion) (BoundedStep exampleDescRegion)
          state ∧
        state.stack = [4160] ∧
        BoundedStep exampleDescRegion state (.popCas 1 false) after ∧
        returned exampleDescRegion state 1 = some 4160 ∧
        state.stack.head? = some 4160 := by
  have start :
      Reaches (Initial exampleDescRegion) (BoundedStep exampleDescRegion)
        emptyList :=
    .start ⟨rfl, fun _ => rfl, rfl, rfl⟩
  have pushed :=
    ((start.next
      (show BoundedStep exampleDescRegion _ (.push 0 4160) _ from
        ⟨rfl, trivial⟩)).next
      (show BoundedStep exampleDescRegion _ (.storeNext 0) _ from
        ⟨rfl, trivial⟩)).next
      (show BoundedStep exampleDescRegion _ (.pushCas 0 false) _ from
        ⟨rfl, trivial⟩)
  have popping :=
    (pushed.next
      (show BoundedStep exampleDescRegion _ (.pop 1) _ from
        ⟨rfl, trivial⟩)).next
      (show BoundedStep exampleDescRegion _ (.loadNext 1) _ from
        ⟨rfl, trivial⟩)
  have few : (1 : Nat) < 1 + 2 ^ 34 := by
    decide
  exact ⟨_, _, popping, rfl, ⟨rfl, few⟩, rfl,
    (partial_list_is_stack popping).2.2 1 4160 _ ⟨rfl, few⟩ rfl⟩

end PartialList

end Bxalloc
