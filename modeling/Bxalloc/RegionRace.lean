import Bxalloc.Lib.Reach
import Bxalloc.RegionManager

namespace Bxalloc

/-!
# Expanding a region under races

`__nvm_region_allocator`, `__try_nvm_region_allocator` and the expansion that
`small_sb_alloc` inlines, on one region with any number of threads.  A call
loads `curr_addr` in one step and exchanges it in another.  `granted` records
the ranges of the successful calls.
-/

open Lib (Reaches)

namespace RegionRace

/-- The three copies of the algorithm. -/
inductive Kind where
  | nvmRegionAllocator
  | tryNvmRegionAllocator
  | smallSbAlloc
  deriving Repr, DecidableEq

/-- How an attempt to expand the region ends. -/
inductive Outcome where
  | succeeded
  | lostCas
  | illegal
  deriving Repr, DecidableEq

/-- What a copy returns; in `small_sb_alloc` a lost exchange starts over. -/
def returnValue : Kind → Outcome → Int
  | .tryNvmRegionAllocator, .succeeded => 0
  | .tryNvmRegionAllocator, .lostCas => 1
  | .nvmRegionAllocator, .succeeded => 1
  | .nvmRegionAllocator, .lostCas => 0
  | .smallSbAlloc, .succeeded => 1
  | .smallSbAlloc, .lostCas => 0
  | _, .illegal => -1

/-- The return value says that the range was granted. -/
def Granted (kind : Kind) (value : Int) : Prop :=
  value = returnValue kind .succeeded

/-- A range that a call handed out. -/
structure Range where
  res : Nat
  size : Nat
  alignment : Nat
  deriving Repr, DecidableEq

/-- A region of a mapped file; user-space addresses. -/
structure MappedRegion where
  /-- `base_addr`. -/
  base : Nat
  /-- `FILESIZE`. -/
  fileSize : Nat
  positive : 0 < base
  reserved : pageSize ≤ fileSize
  userSpace : base + fileSize ≤ 2 ^ 47

/-- What a thread does next. -/
inductive Pc where
  | idle
  /-- The call exchanges `curr_addr`. -/
  | exchange (kind : Kind) (old next : Nat) (range : Range)
  deriving Repr, DecidableEq

/-- The word of `curr_addr`, the threads and the granted ranges. -/
structure State where
  /-- The word of `*curr_addr_ptr`. -/
  currAddrWord : Nat
  /-- `*memptr` of every thread's call. -/
  memptr : Nat → Nat
  pc : Nat → Pc
  /-- The copy and the result of every thread's last call. -/
  returned : Nat → Option (Kind × Int)
  granted : List Range

/-- A call with its arguments, or the exchange of a call. -/
inductive Action where
  | call (thread : Nat) (kind : Kind) (alignmentBits size : Nat)
  | exchange (thread : Nat)
  deriving Repr, DecidableEq

/-- The thread of an action. -/
def Action.thread : Action → Nat
  | .call thread _ _ _ => thread
  | .exchange thread => thread

/-- Alignments are powers of two from eight on; sizes fit in a region. -/
def Action.Proper : Action → Prop
  | .call _ .smallSbAlloc alignmentBits size =>
      2 ^ alignmentBits = pageSize ∧ size = sbRegionExpandSize
  | .call _ _ alignmentBits size =>
      3 ≤ alignmentBits ∧ alignmentBits < 64 ∧ 1 ≤ size ∧
        size ≤ maxSbRegionSize
  | .exchange _ => True

instance : (action : Action) → Decidable action.Proper
  | .call _ .smallSbAlloc _ _ => inferInstanceAs (Decidable (_ ∧ _))
  | .call _ .nvmRegionAllocator _ _ => inferInstanceAs (Decidable (_ ∧ _))
  | .call _ .tryNvmRegionAllocator _ _ => inferInstanceAs (Decidable (_ ∧ _))
  | .exchange _ => inferInstanceAs (Decidable True)

/-- The parameter check; the inlined copy has none. -/
def rejects (kind : Kind) (alignment size : Nat) : Bool :=
  kind != .smallSbAlloc && Region.badRequest alignment size

/-- The call of a thread returns. -/
def State.finish
    (state : State)
    (thread : Nat)
    (kind : Kind)
    (outcome : Outcome) : State :=
  { state with
    pc := Function.update state.pc thread .idle
    returned :=
      Function.update state.returned thread
        (some (kind, returnValue kind outcome)) }

/-- One step, if the thread can take it. -/
def step (region : MappedRegion) (state : State) : Action → Option State
  | .call thread kind alignmentBits size =>
      if state.pc thread ≠ .idle then
        none
      else if rejects kind (2 ^ alignmentBits) size then
        some (state.finish thread kind .illegal)
      else
        let old := fromPptrOff state.currAddrWord region.base
        let res := Region.alignUp old (2 ^ alignmentBits) % 2 ^ 64
        let next := (res + size) % 2 ^ 64
        if region.base + region.fileSize < next then
          some (state.finish thread kind .illegal)
        else
          some { state with
            pc :=
              Function.update state.pc thread
                (.exchange kind old next
                  { res := res
                    size := size
                    alignment := 2 ^ alignmentBits })
            returned := Function.update state.returned thread none }
  | .exchange thread =>
      match state.pc thread with
      | .idle => none
      | .exchange kind old next range =>
          if state.currAddrWord = toPptrOff old region.base then
            some { state.finish thread kind .succeeded with
              currAddrWord := toPptrOff next region.base
              memptr := Function.update state.memptr thread range.res
              granted := range :: state.granted }
          else
            some (state.finish thread kind .lostCas)

/-- A new or reopened file: `curr_addr` points behind the reserved page. -/
def Initial (region : MappedRegion) (state : State) : Prop :=
  (∃ curr,
    state.currAddrWord = toPptrOff curr region.base ∧
      region.base + pageSize ≤ curr ∧
      curr ≤ region.base + region.fileSize) ∧
    (∀ thread, state.pc thread = .idle) ∧
    state.granted = []

/-- Steps with proper arguments. -/
def Step
    (region : MappedRegion)
    (before : State)
    (action : Action)
    (after : State) : Prop :=
  action.Proper ∧ step region before action = some after

/-- `curr_addr_ptr->load()`. -/
def currAddr (region : MappedRegion) (state : State) : Nat :=
  fromPptrOff state.currAddrWord region.base

/-- The ranges do not overlap. -/
def Range.Disjoint (first second : Range) : Prop :=
  first.res + first.size ≤ second.res ∨ second.res + second.size ≤ first.res

/-- The range is aligned and lies in the file behind the reserved page. -/
structure Range.Ok (region : MappedRegion) (range : Range) : Prop where
  aligned : range.res % range.alignment = 0
  behind : region.base + pageSize ≤ range.res
  inside : range.res + range.size ≤ region.base + region.fileSize

/-- What holds between steps. -/
structure Inv (region : MappedRegion) (state : State) : Prop where
  word :
    ∃ curr,
      state.currAddrWord = toPptrOff curr region.base ∧
        region.base + pageSize ≤ curr ∧
        curr ≤ region.base + region.fileSize ∧
        ∀ range, range ∈ state.granted → range.res + range.size ≤ curr
  disjoint : state.granted.Pairwise Range.Disjoint
  ok : ∀ range, range ∈ state.granted → range.Ok region
  threads :
    ∀ thread kind old next range,
      state.pc thread = .exchange kind old next range →
      range.Ok region ∧
        old ≤ range.res ∧
        next = range.res + range.size ∧
        1 ≤ range.size ∧
        region.base + pageSize ≤ old

variable {region : MappedRegion} {state state' : State}

/-- Addresses of the region survive encoding. -/
theorem decode_encode
    {address : Nat}
    (behind : region.base ≤ address)
    (inside : address ≤ region.base + region.fileSize) :
    fromPptrOff (toPptrOff address region.base) region.base = address := by
  have userSpace := region.userSpace
  exact fromPptrOff_toPptrOff (by omega) (by omega) (by omega) (by omega)

/-- A call returns without a range. -/
theorem Inv.finish
    (inv : Inv region state)
    (thread : Nat)
    (kind : Kind)
    (outcome : Outcome) :
    Inv region (state.finish thread kind outcome) where
  word := inv.word
  disjoint := inv.disjoint
  ok := inv.ok
  threads other kind' old next range shape := by
    change Function.update state.pc thread .idle other = _ at shape
    rcases eq_or_ne other thread with rfl | differs
    · rw [Function.update_self] at shape
      cases shape
    · rw [Function.update_of_ne differs] at shape
      exact inv.threads other kind' old next range shape

/-- The range that a proper call computes from `curr_addr`. -/
theorem range_ok
    {curr alignmentBits size res next : Nat}
    (behind : region.base + pageSize ≤ curr)
    (inside : curr ≤ region.base + region.fileSize)
    (bits : alignmentBits < 64)
    (small : size ≤ maxSbRegionSize)
    (isRes : res = Region.alignUp curr (2 ^ alignmentBits) % 2 ^ 64)
    (isNext : next = (res + size) % 2 ^ 64)
    (fits : next ≤ region.base + region.fileSize) :
    Range.Ok region
        { res := res, size := size, alignment := 2 ^ alignmentBits } ∧
      curr ≤ res ∧
      next = res + size := by
  obtain ⟨aligned, lower, upper⟩ := Region.alignUp_pow curr alignmentBits
  have userSpace := region.userSpace
  have power : 2 ^ alignmentBits ≤ 2 ^ 63 :=
    Nat.pow_le_pow_right (by decide) (by omega)
  have noWrap : Region.alignUp curr (2 ^ alignmentBits) < 2 ^ 64 := by
    omega
  rw [Nat.mod_eq_of_lt noWrap] at isRes
  simp only [maxSbRegionSize, sbSize, pageSize, maxDescAmountBits] at small
  have noWrap' : res + size < 2 ^ 64 := by
    omega
  rw [Nat.mod_eq_of_lt noWrap'] at isNext
  refine ⟨⟨?_, ?_, ?_⟩, by omega, isNext⟩
  · rw [isRes]
    exact aligned
  · change region.base + pageSize ≤ res
    omega
  · change res + size ≤ _
    omega

/-- Nothing is granted before the first step. -/
theorem Inv.initial
    (fresh : Initial region state) :
    Inv region state := by
  obtain ⟨⟨curr, isWord, behind, inside⟩, idle, none⟩ := fresh
  refine ⟨⟨curr, isWord, behind, inside, ?_⟩, ?_, ?_, ?_⟩
  · simp [none]
  · simp [none]
  · simp [none]
  · intro thread kind old next range shape
    rw [idle thread] at shape
    cases shape

/-- Proper arguments of a call that passed its check. -/
theorem proper_bounds
    {thread alignmentBits size : Nat}
    {kind : Kind}
    (proper : (Action.call thread kind alignmentBits size).Proper) :
    alignmentBits < 64 ∧ 1 ≤ size ∧ size ≤ maxSbRegionSize := by
  cases kind with
  | nvmRegionAllocator =>
      exact ⟨proper.2.1, proper.2.2.1, proper.2.2.2⟩
  | tryNvmRegionAllocator =>
      exact ⟨proper.2.1, proper.2.2.1, proper.2.2.2⟩
  | smallSbAlloc =>
      obtain ⟨isPage, isSize⟩ := proper
      have bits : alignmentBits < 64 := by
        by_contra large
        have power : 2 ^ 64 ≤ 2 ^ alignmentBits :=
          Nat.pow_le_pow_right (by decide) (by omega)
        rw [isPage] at power
        exact absurd power (by decide)
      subst isSize
      exact ⟨bits, by decide, by decide⟩

/-- What a step does: it returns, it loads `curr_addr`, or it exchanges it. -/
theorem step_cases
    {action : Action}
    (stepped : step region state action = some state') :
    (∃ kind outcome,
        outcome ≠ .succeeded ∧
          state' = state.finish action.thread kind outcome) ∨
      (∃ kind alignmentBits size res next,
        action = .call action.thread kind alignmentBits size ∧
          res =
            Region.alignUp (currAddr region state) (2 ^ alignmentBits) %
              2 ^ 64 ∧
          next = (res + size) % 2 ^ 64 ∧
          next ≤ region.base + region.fileSize ∧
          state' = { state with
            pc :=
              Function.update state.pc action.thread
                (.exchange kind (currAddr region state) next
                  { res := res
                    size := size
                    alignment := 2 ^ alignmentBits })
            returned :=
              Function.update state.returned action.thread none }) ∨
      (∃ kind old next range,
        state.pc action.thread = .exchange kind old next range ∧
          state.currAddrWord = toPptrOff old region.base ∧
          state' = { state.finish action.thread kind .succeeded with
            currAddrWord := toPptrOff next region.base
            memptr :=
              Function.update state.memptr action.thread range.res
            granted := range :: state.granted }) := by
  cases action with
  | call thread kind alignmentBits size =>
      simp only [step] at stepped
      split at stepped
      · cases stepped
      split at stepped
      · left
        exact ⟨kind, .illegal, by decide, (Option.some.inj stepped).symm⟩
      split at stepped
      · left
        exact ⟨kind, .illegal, by decide, (Option.some.inj stepped).symm⟩
      · next fits =>
          right
          left
          exact ⟨kind, alignmentBits, size, _, _, rfl, rfl, rfl,
            not_lt.mp fits, (Option.some.inj stepped).symm⟩
  | exchange thread =>
      simp only [step] at stepped
      split at stepped
      · cases stepped
      · next kind old next range atExchange =>
          split at stepped
          · next isWord =>
              right
              right
              exact ⟨kind, old, next, range, atExchange, isWord,
                (Option.some.inj stepped).symm⟩
          · left
            exact ⟨kind, .lostCas, by decide, (Option.some.inj stepped).symm⟩

/-- Every step keeps the invariant. -/
theorem Inv.step
    {action : Action}
    (inv : Inv region state)
    (stepped : Step region state action state') :
    Inv region state' := by
  obtain ⟨proper, stepped⟩ := stepped
  obtain ⟨kind, outcome, -, rfl⟩ |
    ⟨kind, alignmentBits, size, res, next, isCall, isRes, isNext, fits, rfl⟩ |
    ⟨kind, old, next, range, atExchange, isWord, rfl⟩ := step_cases stepped
  · exact inv.finish _ kind outcome
  · obtain ⟨curr, currWord, behind, inside, below⟩ := inv.word
    have isCurr : currAddr region state = curr := by
      rw [currAddr, currWord]
      exact decode_encode (by omega) inside
    rw [isCall] at proper
    obtain ⟨bits, positive, small⟩ := proper_bounds proper
    rw [isCurr] at isRes
    obtain ⟨rangeOk, lower, exact⟩ :=
      range_ok behind inside bits small isRes isNext fits
    refine ⟨⟨curr, currWord, behind, inside, below⟩, inv.disjoint, inv.ok, ?_⟩
    intro other kind' old' next' range' shape
    change Function.update state.pc action.thread _ other = _ at shape
    rcases eq_or_ne other action.thread with rfl | differs
    · rw [Function.update_self] at shape
      cases shape
      rw [isCurr]
      exact ⟨rangeOk, lower, exact, positive, behind⟩
    · rw [Function.update_of_ne differs] at shape
      exact inv.threads other kind' old' next' range' shape
  · obtain ⟨rangeOk, lower, isNext, positive, oldBehind⟩ :=
      inv.threads _ _ _ _ _ atExchange
    obtain ⟨curr, currWord, behind, inside, below⟩ := inv.word
    have rangeInside := rangeOk.inside
    -- The exchange compares words; both decode to addresses of the region.
    have isOld : curr = old := by
      rw [← decode_encode (by omega) inside, ← currWord, isWord]
      exact decode_encode (by omega) (by omega)
    refine ⟨⟨next, rfl, by omega, by omega, ?_⟩, ?_, ?_, ?_⟩
    · intro other member
      rcases List.mem_cons.mp member with rfl | member
      · omega
      · have := below other member
        omega
    · refine List.pairwise_cons.mpr ⟨?_, inv.disjoint⟩
      intro other member
      have := below other member
      right
      omega
    · intro other member
      rcases List.mem_cons.mp member with rfl | member
      · exact rangeOk
      · exact inv.ok other member
    · exact (inv.finish action.thread kind .succeeded).threads

/-- The invariant holds in every reachable state. -/
theorem Inv.reaches
    (reached : Reaches (Initial region) (Step region) state) :
    Inv region state :=
  reached.invariant
    (fun _ fresh => Inv.initial fresh)
    (fun _ _ _ inv stepped => inv.step stepped)

/-- A step moves `curr_addr` forward or not at all. -/
theorem currAddr_mono
    {action : Action}
    (inv : Inv region state)
    (stepped : Step region state action state') :
    currAddr region state ≤ currAddr region state' := by
  obtain ⟨-, stepped⟩ := stepped
  obtain ⟨kind, outcome, -, rfl⟩ |
    ⟨kind, alignmentBits, size, res, next, -, -, -, -, rfl⟩ |
    ⟨kind, old, next, range, atExchange, isWord, rfl⟩ := step_cases stepped
  · exact le_refl _
  · exact le_refl _
  · obtain ⟨rangeOk, lower, isNext, positive, oldBehind⟩ :=
      inv.threads _ _ _ _ _ atExchange
    have rangeInside := rangeOk.inside
    have before : currAddr region state = old := by
      rw [currAddr, isWord]
      exact decode_encode (by omega) (by omega)
    have after :
        fromPptrOff (toPptrOff next region.base) region.base = next :=
      decode_encode (by omega) (by omega)
    calc
      currAddr region state = old := before
      _ ≤ next := by omega
      _ = _ := after.symm

/-- A failing call changes neither `curr_addr` nor `*memptr`. -/
theorem failure_unchanged
    {action : Action}
    (stepped : Step region state action state')
    (failed :
      ∀ kind value,
        state'.returned action.thread = some (kind, value) →
        ¬ Granted kind value) :
    state'.currAddrWord = state.currAddrWord ∧
      state'.memptr = state.memptr ∧
      state'.granted = state.granted := by
  obtain ⟨-, stepped⟩ := stepped
  obtain ⟨kind, outcome, -, rfl⟩ |
    ⟨kind, alignmentBits, size, res, next, -, -, -, -, rfl⟩ |
    ⟨kind, old, next, range, -, -, rfl⟩ := step_cases stepped
  · exact ⟨rfl, rfl, rfl⟩
  · exact ⟨rfl, rfl, rfl⟩
  · have isSuccess :
        Function.update state.returned action.thread
            (some (kind, returnValue kind .succeeded)) action.thread =
          some (kind, returnValue kind .succeeded) :=
      Function.update_self _ _ _
    exact absurd rfl (failed kind _ isSuccess)

/--
Expansion hands out disjoint memory: in every reachable state the granted
ranges are pairwise disjoint, aligned and inside the file behind its reserved
page; from there no step moves `curr_addr` back, and a call that does not
report success changes neither `curr_addr` nor `*memptr`.
-/
theorem expansion_disjoint
    (reached : Reaches (Initial region) (Step region) state) :
    state.granted.Pairwise Range.Disjoint ∧
      (∀ range, range ∈ state.granted → range.Ok region) ∧
      ∀ action after,
        Step region state action after →
        currAddr region state ≤ currAddr region after ∧
          ((∀ kind value,
              after.returned action.thread = some (kind, value) →
              ¬ Granted kind value) →
            currAddr region after = currAddr region state ∧
              after.memptr = state.memptr ∧
              after.granted = state.granted) := by
  have inv := Inv.reaches reached
  refine ⟨inv.disjoint, inv.ok, ?_⟩
  intro action after stepped
  refine ⟨currAddr_mono inv stepped, ?_⟩
  intro failed
  obtain ⟨sameWord, sameMemptr, sameGranted⟩ :=
    failure_unchanged stepped failed
  refine ⟨?_, sameMemptr, sameGranted⟩
  unfold currAddr
  rw [sameWord]

/-- A region of a small file. -/
def exampleRegion : MappedRegion where
  base := 16 * pageSize
  fileSize := 8 * pageSize
  positive := by decide
  reserved := by decide
  userSpace := by decide

/-- The region is new and nobody calls. -/
def exampleStart : State where
  currAddrWord :=
    toPptrOff (exampleRegion.base + pageSize) exampleRegion.base
  memptr := fun _ => 0
  pc := fun _ => .idle
  returned := fun _ => none
  granted := []

/-- Thread 1 loses the exchange to thread 0 and tries again. -/
def exampleActions : List Action :=
  [.call 0 .nvmRegionAllocator 6 100,
    .call 1 .tryNvmRegionAllocator 12 pageSize,
    .exchange 0,
    .exchange 1,
    .call 1 .tryNvmRegionAllocator 12 pageSize,
    .exchange 1]

/-- Two threads race for a range each. -/
theorem expansion_disjoint_race :
    ∃ state,
      Reaches (Initial exampleRegion) (Step exampleRegion) state ∧
        state.granted =
          [{ res := 18 * pageSize, size := pageSize, alignment := pageSize },
            { res := 17 * pageSize, size := 100, alignment := 64 }] ∧
        state.granted.Pairwise Range.Disjoint := by
  have accepted :
      (Reaches.runAll
          (Reaches.guarded (fun _ action => action.Proper)
            (step exampleRegion))
          exampleActions exampleStart).map State.granted =
        some
          [{ res := 18 * pageSize, size := pageSize, alignment := pageSize },
            { res := 17 * pageSize, size := 100, alignment := 64 }] := by
    decide +kernel
  obtain ⟨final, isFinal, granted⟩ := Option.map_eq_some_iff.mp accepted
  have inside :
      exampleRegion.base + pageSize ≤
        exampleRegion.base + exampleRegion.fileSize := by
    decide +kernel
  have fresh : Initial exampleRegion exampleStart :=
    ⟨⟨exampleRegion.base + pageSize, by simp only [exampleStart],
      Nat.le_refl _, inside⟩,
      fun _ => rfl, rfl⟩
  have reached : Reaches (Initial exampleRegion) (Step exampleRegion) final :=
    Reaches.of_guarded
      (fun _ _ _ stepped proper => ⟨proper, stepped⟩)
      (.start fresh) isFinal
  exact ⟨final, reached, granted, (expansion_disjoint reached).1⟩

end RegionRace

end Bxalloc
