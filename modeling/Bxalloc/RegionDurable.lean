import Bxalloc.RegionMachine
import Mathlib.Data.List.Pairwise

namespace Bxalloc

/-!
# Expanding a region across crashes

What is durable when a call returns, and why no byte of the file is handed out
twice in the life of the file.
-/

open Lib (Reaches SharedLine)

namespace RegionRace

namespace Machine

/-- The ranges of this process and of the calls that have returned. -/
structure Ranges (machine : Machine) : Prop where
  disjoint : machine.handedOut.Pairwise FileRange.Disjoint
  behind : ∀ range ∈ machine.handedOut, pageSize ≤ range.offset
  /-- A range of this process is new, or it is one that was handed out. -/
  granted :
    ∀ range ∈ machine.state.granted,
      1 ≤ range.size ∧
        ∀ old ∈ machine.handedOut,
          old = range.inFile machine.region ∨
            old.Disjoint (range.inFile machine.region)
  pending :
    ∀ thread range,
      machine.pending thread = some range →
        range ∈ machine.state.granted ∧
          range.inFile machine.region ∉ machine.handedOut
  single :
    ∀ first second range,
      machine.pending first = some range →
      machine.pending second = some range →
      first = second

/--
What holds between the steps of the machine; `offset n` is the `n`-th value of
`curr_addr`, counted from the base.
-/
structure Ok
    (machine : Machine)
    (offset : Nat → Nat)
    (last : Nat) : Prop where
  race : Inv machine.region machine.state
  ranges : machine.Ranges
  monotone : Monotone offset
  bounds :
    ∀ n, pageSize ≤ offset n ∧ offset n ≤ machine.region.fileSize
  words : machine.line.Numbered (fun n => wordAt (offset n)) last
  current : machine.state.currAddrWord = wordAt (offset last)
  /-- No call returns before its range is durable. -/
  returned :
    ∀ range ∈ machine.handedOut,
      range.offset + range.size ≤ offset machine.line.durable
  returning :
    ∀ thread range,
      machine.pending thread = some range →
        range.res + range.size ≤
          machine.region.base + offset (machine.ahead thread).durable

variable {machine : Machine}
variable {offset : Nat → Nat} {last : Nat}

/-- Two ranges of one process are the same or disjoint in the file. -/
theorem Ok.granted_disjoint
    (ok : machine.Ok offset last)
    {first second : Range}
    (firstGranted : first ∈ machine.state.granted)
    (secondGranted : second ∈ machine.state.granted) :
    first = second ∨
      (first.inFile machine.region).Disjoint
        (second.inFile machine.region) := by
  rcases eq_or_ne first second with same | differs
  · exact .inl same
  · right
    have firstBehind := (ok.race.ok first firstGranted).behind
    have secondBehind := (ok.race.ok second secondGranted).behind
    have symmetric : Std.Symm Range.Disjoint :=
      ⟨fun _ _ apart => apart.symm⟩
    have apart : first.Disjoint second :=
      ok.race.disjoint.forall firstGranted secondGranted differs
    simp only [FileRange.Disjoint, Range.inFile]
    unfold Range.Disjoint at apart
    omega

/-- The call of a thread returns with its range. -/
theorem Ok.handOut
    (ok : machine.Ok offset last)
    {thread : Nat}
    {range : Range}
    (pending : machine.pending thread = some range) :
    ∀ old ∈ machine.handedOut,
      old.Disjoint (range.inFile machine.region) := by
  intro old member
  obtain ⟨isGranted, isNew⟩ := ok.ranges.pending thread range pending
  rcases (ok.ranges.granted range isGranted).2 old member with same | apart
  · exact absurd (same ▸ member) isNew
  · exact apart

/-- The ranges behind a call's return. -/
theorem Ok.ranges_handOut
    (ok : machine.Ok offset last)
    {thread : Nat}
    {range : Range}
    (pending : machine.pending thread = some range) :
    Ranges
      { machine with
        pending := Function.update machine.pending thread none
        handedOut := range.inFile machine.region :: machine.handedOut } := by
  obtain ⟨isGranted, -⟩ := ok.ranges.pending thread range pending
  have apart := ok.handOut pending
  have behind := (ok.race.ok range isGranted).behind
  have others :
      ∀ other range',
        Function.update machine.pending thread none other = some range' →
          other ≠ thread ∧ machine.pending other = some range' := by
    intro other range' shape
    rcases eq_or_ne other thread with rfl | differs
    · rw [Function.update_self] at shape
      cases shape
    · rw [Function.update_of_ne differs] at shape
      exact ⟨differs, shape⟩
  refine
    { disjoint := List.pairwise_cons.mpr
        ⟨fun old member => (apart old member).symm, ok.ranges.disjoint⟩
      behind := ?_
      granted := ?_
      pending := ?_
      single := ?_ }
  · intro old member
    rcases List.mem_cons.mp member with rfl | member
    · change pageSize ≤ range.res - machine.region.base
      omega
    · exact ok.ranges.behind old member
  · intro other otherGranted
    obtain ⟨positive, separate⟩ := ok.ranges.granted other otherGranted
    refine ⟨positive, ?_⟩
    intro old member
    rcases List.mem_cons.mp member with rfl | member
    · rcases ok.granted_disjoint isGranted otherGranted with same | disjoint
      · exact .inl (same ▸ rfl)
      · exact .inr disjoint
    · exact separate old member
  · intro other range' shape
    obtain ⟨differs, shape⟩ := others other range' shape
    obtain ⟨otherGranted, isNew⟩ := ok.ranges.pending other range' shape
    refine ⟨otherGranted, ?_⟩
    intro member
    rcases List.mem_cons.mp member with same | member
    · rcases ok.granted_disjoint isGranted otherGranted with rfl | disjoint
      · exact differs (ok.ranges.single other thread range shape pending)
      · have positive := (ok.ranges.granted range isGranted).1
        change range'.inFile machine.region = range.inFile machine.region
          at same
        rw [same] at disjoint
        change
          range.res - machine.region.base + range.size ≤
              range.res - machine.region.base ∨
            range.res - machine.region.base + range.size ≤
              range.res - machine.region.base
          at disjoint
        omega
    · exact isNew member
  · intro first second range' isFirst isSecond
    exact ok.ranges.single first second range'
      (others first range' isFirst).2 (others second range' isSecond).2

/-- The range of a call that returns is durable. -/
theorem Ok.returns
    (ok : machine.Ok offset last)
    {thread : Nat}
    (ready : machine.todo thread = []) :
    (machine.returns thread).Ok offset last := by
  cases shape : machine.pending thread with
  | none =>
      unfold Machine.returns
      rw [shape]
      exact ok
  | some range =>
      have isReturned :
          machine.returns thread =
            { machine with
              pending := Function.update machine.pending thread none
              handedOut :=
                range.inFile machine.region :: machine.handedOut } := by
        unfold Machine.returns
        rw [shape]
      rw [isReturned]
      refine
        { race := ok.race
          ranges := ok.ranges_handOut shape
          monotone := ok.monotone
          bounds := ok.bounds
          words := ok.words
          current := ok.current
          returned := ?_
          returning := ?_ }
      · intro old member
        rcases List.mem_cons.mp member with rfl | member
        · have durable := ok.returning thread range shape
          obtain ⟨isGranted, -⟩ := ok.ranges.pending thread range shape
          have behind := (ok.race.ok range isGranted).behind
          rw [ahead_ready ready] at durable
          change
            range.res - machine.region.base + range.size ≤
              offset machine.line.durable
          omega
        · exact ok.returned old member
      · intro other range' isPending
        change Function.update machine.pending thread none other = _
          at isPending
        rcases eq_or_ne other thread with rfl | differs
        · rw [Function.update_self] at isPending
          cases isPending
        · rw [Function.update_of_ne differs] at isPending
          exact ok.returning other range' isPending

/-- A write-back only makes more durable. -/
theorem Ok.executed
    (ok : machine.Ok offset last)
    {thread : Nat}
    {event : WriteBack}
    {rest : List WriteBack}
    (next : machine.todo thread = event :: rest) :
    (machine.executed thread event rest).Ok offset last where
  race := ok.race
  ranges :=
    ⟨ok.ranges.disjoint, ok.ranges.behind, ok.ranges.granted,
      ok.ranges.pending, ok.ranges.single⟩
  monotone := ok.monotone
  bounds := ok.bounds
  words := ok.words.of_history (perform_history thread machine.line event)
  current := ok.current
  returned range member :=
    (ok.returned range member).trans
      (ok.monotone (extends_perform thread machine.line event).durable)
  returning other range shape :=
    (ok.returning other range shape).trans
      (Nat.add_le_add_left
        (ok.monotone (ahead_executed_extends next other).durable) _)

/-- A write-back keeps the invariant. -/
theorem Ok.wroteBack
    (ok : machine.Ok offset last)
    {thread : Nat}
    {event : WriteBack}
    {rest : List WriteBack}
    (next : machine.todo thread = event :: rest) :
    (machine.wroteBack thread event rest).Ok offset last := by
  have executed := ok.executed next
  unfold Machine.wroteBack
  split
  · next isLast =>
      have ready : (machine.executed thread event rest).todo thread = [] := by
        change Function.update machine.todo thread rest thread = []
        rw [Function.update_self, isLast]
      exact executed.returns ready
  · exact executed

/-- A step that grants nothing. -/
theorem Ok.quiet
    (ok : machine.Ok offset last)
    {thread : Nat}
    {state' : State}
    (race : Inv machine.region state')
    (sameWord : state'.currAddrWord = machine.state.currAddrWord)
    (sameGranted : state'.granted = machine.state.granted) :
    (machine.moved thread state').Ok offset last := by
  have grantsNone : newlyGranted machine.state state' = none := by
    unfold newlyGranted
    rw [sameGranted, if_pos rfl]
  have sameLine :
      machine.line.record state'.currAddrWord = machine.line := by
    rw [sameWord, ok.current, ← ok.words.current, SharedLine.record_current]
  have stillPending :
      ∀ other range,
        (machine.moved thread state').pending other = some range →
          other ≠ thread ∧ machine.pending other = some range := by
    intro other range shape
    change Function.update machine.pending thread _ other = _ at shape
    rw [grantsNone] at shape
    rcases eq_or_ne other thread with rfl | differs
    · rw [Function.update_self] at shape
      cases shape
    · rw [Function.update_of_ne differs] at shape
      exact ⟨differs, shape⟩
  refine
    { race := race
      ranges :=
        { disjoint := ok.ranges.disjoint
          behind := ok.ranges.behind
          granted := ?_
          pending := ?_
          single := ?_ }
      monotone := ok.monotone
      bounds := ok.bounds
      words := ?_
      current := sameWord.trans ok.current
      returned := ?_
      returning := ?_ }
  · change ∀ range ∈ state'.granted, _
    rw [sameGranted]
    exact ok.ranges.granted
  · intro other range shape
    change range ∈ state'.granted ∧ _
    rw [sameGranted]
    exact ok.ranges.pending other range (stillPending other range shape).2
  · intro first second range isFirst isSecond
    exact ok.ranges.single first second range
      (stillPending first range isFirst).2
      (stillPending second range isSecond).2
  · change (machine.line.record state'.currAddrWord).Numbered _ _
    rw [sameLine]
    exact ok.words
  · change ∀ range ∈ machine.handedOut,
      _ ≤ offset (machine.line.record state'.currAddrWord).durable
    rw [sameLine]
    exact ok.returned
  · intro other range shape
    obtain ⟨differs, shape⟩ := stillPending other range shape
    have ahead :
        (machine.ahead other).durable ≤
          ((machine.moved thread state').ahead other).durable :=
      (ahead_moved_extends differs).durable
    exact (ok.returning other range shape).trans
      (Nat.add_le_add_left (ok.monotone ahead) _)

/-- The values of `curr_addr` with one more. -/
def extendOffsets (offset : Nat → Nat) (last next : Nat) : Nat → Nat :=
  fun n => if n ≤ last then offset n else next

theorem extendOffsets_of_le
    {next n : Nat}
    (past : n ≤ last) :
    extendOffsets offset last next n = offset n :=
  if_pos past

theorem extendOffsets_succ
    (offset : Nat → Nat)
    (last next : Nat) :
    extendOffsets offset last next (last + 1) = next :=
  if_neg (Nat.not_succ_le_self last)

theorem extendOffsets_monotone
    {next : Nat}
    (monotone : Monotone offset)
    (grows : offset last ≤ next) :
    Monotone (extendOffsets offset last next) := by
  intro first second ordered
  unfold extendOffsets
  split
  · next firstPast =>
      split
      · exact monotone ordered
      · exact (monotone firstPast).trans grows
  · next firstNew =>
      rw [if_neg (by omega)]

/-- The range of a successful exchange lies behind every earlier one. -/
theorem Ok.newRange
    (ok : machine.Ok offset last)
    {thread : Nat}
    {kind : Kind}
    {old next : Nat}
    {range : Range}
    (atExchange : machine.state.pc thread = .exchange kind old next range)
    (isWord : machine.state.currAddrWord = toPptrOff old machine.region.base) :
    range.Ok machine.region ∧
      machine.region.base + offset last ≤ range.res ∧
      next = range.res + range.size ∧
      1 ≤ range.size := by
  obtain ⟨rangeOk, lower, isNext, positive, oldBehind⟩ :=
    ok.race.threads _ _ _ _ _ atExchange
  have rangeInside := rangeOk.inside
  obtain ⟨lastBehind, lastInside⟩ := ok.bounds last
  have pagePositive : 0 < pageSize := by decide
  have decoded :
      fromPptrOff (toPptrOff old machine.region.base) machine.region.base =
        fromPptrOff (wordAt (offset last)) machine.region.base := by
    rw [← isWord, ok.current]
  rw [decode_encode (by omega) (by omega),
    decode_wordAt (by omega) lastInside] at decoded
  exact ⟨rangeOk, decoded ▸ lower, isNext, positive⟩

/-- The ranges behind an exchange. -/
theorem Ok.ranges_granted
    (ok : machine.Ok offset last)
    {thread : Nat}
    {range : Range}
    {state' : State}
    (behind : machine.region.base + offset last ≤ range.res)
    (positive : 1 ≤ range.size)
    (grants : state'.granted = range :: machine.state.granted) :
    Ranges
      { machine with
        state := state'
        pending := Function.update machine.pending thread (some range) } := by
  have apart :
      ∀ old ∈ machine.handedOut,
        old.offset + old.size ≤ range.res - machine.region.base := by
    intro old member
    have before := ok.returned old member
    have grown := ok.monotone ok.words.durable_le
    omega
  have below :
      ∀ old ∈ machine.state.granted, old.res + old.size ≤ range.res := by
    intro old member
    obtain ⟨curr, isCurr, currBehind, currInside, ends⟩ := ok.race.word
    obtain ⟨lastBehind, lastInside⟩ := ok.bounds last
    have pagePositive : 0 < pageSize := by decide
    have decoded :
        fromPptrOff (toPptrOff curr machine.region.base) machine.region.base =
          fromPptrOff (wordAt (offset last)) machine.region.base := by
      rw [← isCurr, ok.current]
    rw [decode_encode (by omega) (by omega),
      decode_wordAt (by omega) lastInside] at decoded
    have ended := ends old member
    omega
  have cases :
      ∀ other range',
        Function.update machine.pending thread (some range) other =
            some range' →
          other = thread ∧ range' = range ∨
            range' ∈ machine.state.granted ∧
              machine.pending other = some range' := by
    intro other range' shape
    rcases eq_or_ne other thread with rfl | differs
    · rw [Function.update_self] at shape
      exact .inl ⟨rfl, (Option.some.inj shape).symm⟩
    · rw [Function.update_of_ne differs] at shape
      exact .inr ⟨(ok.ranges.pending other range' shape).1, shape⟩
  refine
    { disjoint := ok.ranges.disjoint
      behind := ok.ranges.behind
      granted := ?_
      pending := ?_
      single := ?_ }
  · change ∀ other ∈ state'.granted, _
    rw [grants]
    intro other member
    rcases List.mem_cons.mp member with rfl | member
    · exact ⟨positive, fun old isOld => .inr (.inl (apart old isOld))⟩
    · exact ok.ranges.granted other member
  · intro other range' shape
    change range' ∈ state'.granted ∧ _
    rw [grants]
    rcases cases other range' shape with ⟨rfl, rfl⟩ | ⟨-, shape⟩
    · refine ⟨List.mem_cons_self, ?_⟩
      intro member
      have ended := apart _ member
      change
        range'.res - machine.region.base + range'.size ≤
          range'.res - machine.region.base
        at ended
      omega
    · obtain ⟨isGranted, isNew⟩ := ok.ranges.pending other range' shape
      exact ⟨List.mem_cons_of_mem range isGranted, isNew⟩
  · intro first second range' isFirst isSecond
    rcases cases first range' isFirst with ⟨rfl, rfl⟩ | ⟨isOld, isFirst⟩
    · rcases cases second range' isSecond with ⟨rfl, -⟩ | ⟨isOld, -⟩
      · rfl
      · have ended := below range' isOld
        omega
    · rcases cases second range' isSecond with ⟨rfl, rfl⟩ | ⟨-, isSecond⟩
      · have ended := below range' isOld
        omega
      · exact ok.ranges.single first second range' isFirst isSecond

/-- The exchange of `curr_addr`. -/
theorem Ok.granted
    (ok : machine.Ok offset last)
    {thread : Nat}
    {kind : Kind}
    {old next : Nat}
    {range : Range}
    (atExchange : machine.state.pc thread = .exchange kind old next range)
    (isWord : machine.state.currAddrWord = toPptrOff old machine.region.base)
    (race :
      Inv machine.region
        { machine.state.finish thread kind .succeeded with
          currAddrWord := toPptrOff next machine.region.base
          memptr := Function.update machine.state.memptr thread range.res
          granted := range :: machine.state.granted }) :
    (machine.moved thread
        { machine.state.finish thread kind .succeeded with
          currAddrWord := toPptrOff next machine.region.base
          memptr := Function.update machine.state.memptr thread range.res
          granted := range :: machine.state.granted }).Ok
      (extendOffsets offset last (next - machine.region.base))
      (last + 1) := by
  obtain ⟨rangeOk, behind, isNext, positive⟩ := ok.newRange atExchange isWord
  have rangeInside := rangeOk.inside
  obtain ⟨lastBehind, lastInside⟩ := ok.bounds last
  have pagePositive : 0 < pageSize := by decide
  have userSpace := machine.region.userSpace
  have durableLast : machine.line.durable ≤ last := ok.words.durable_le
  obtain ⟨nextOffset, isNextOffset⟩ :
      ∃ nextOffset, nextOffset = next - machine.region.base := ⟨_, rfl⟩
  have nextWord :
      toPptrOff next machine.region.base = wordAt nextOffset := by
    rw [← wordAt_eq (by omega) (by omega), isNextOffset]
    congr 1
    omega
  rw [← isNextOffset]
  obtain ⟨offset', isExtended⟩ :
      ∃ offset', offset' = extendOffsets offset last nextOffset := ⟨_, rfl⟩
  have earlier : ∀ n ≤ last, offset' n = offset n :=
    fun n past => isExtended ▸ extendOffsets_of_le past
  have newest : offset' (last + 1) = nextOffset :=
    isExtended ▸ extendOffsets_succ offset last nextOffset
  have monotone : Monotone offset' :=
    isExtended ▸ extendOffsets_monotone ok.monotone (by omega)
  have bounds :
      ∀ n, pageSize ≤ offset' n ∧ offset' n ≤ machine.region.fileSize := by
    intro n
    rw [isExtended]
    unfold extendOffsets
    split
    · exact ok.bounds n
    · omega
  rw [← isExtended]
  have newWord : wordAt (offset' (last + 1)) ≠ wordAt (offset' last) := by
    intro same
    rw [newest, earlier last le_rfl] at same
    have equal : nextOffset = offset last :=
      wordAt_injective (by omega) (by omega) (by omega) lastInside same
    omega
  have words :
      (machine.line.record (toPptrOff next machine.region.base)).Numbered
        (fun n => wordAt (offset' n)) (last + 1) := by
    rw [nextWord, ← newest]
    exact
      (ok.words.congr fun n past => congrArg wordAt (earlier n past).symm).record
        newWord
  have later :=
    machine.line.extends_record (toPptrOff next machine.region.base)
  have grants :
      newlyGranted machine.state
          { machine.state.finish thread kind .succeeded with
            currAddrWord := toPptrOff next machine.region.base
            memptr := Function.update machine.state.memptr thread range.res
            granted := range :: machine.state.granted } =
        some range := by
    unfold newlyGranted
    rw [if_neg (by simp)]
    rfl
  have isPending :
      (machine.moved thread
          { machine.state.finish thread kind .succeeded with
            currAddrWord := toPptrOff next machine.region.base
            memptr := Function.update machine.state.memptr thread range.res
            granted := range :: machine.state.granted }).pending =
        Function.update machine.pending thread (some range) := by
    change Function.update machine.pending thread (newlyGranted _ _) = _
    rw [grants]
  have ranges :
      Ranges
        { machine with
          state :=
            { machine.state.finish thread kind .succeeded with
              currAddrWord := toPptrOff next machine.region.base
              memptr := Function.update machine.state.memptr thread range.res
              granted := range :: machine.state.granted }
          pending := Function.update machine.pending thread (some range) } :=
    ok.ranges_granted behind positive rfl
  refine
    { race := race
      ranges :=
        { disjoint := ranges.disjoint
          behind := ranges.behind
          granted := ranges.granted
          pending := by
            rw [isPending]
            exact ranges.pending
          single := by
            rw [isPending]
            exact ranges.single }
      monotone := monotone
      bounds := bounds
      words := words
      current := nextWord.trans (congrArg wordAt newest.symm)
      returned := ?_
      returning := ?_ }
  · intro old member
    have before := ok.returned old member
    rw [← earlier _ durableLast] at before
    exact before.trans (monotone later.durable)
  · intro other range' shape
    rw [isPending] at shape
    rcases eq_or_ne other thread with rfl | differs
    · rw [Function.update_self] at shape
      obtain rfl := Option.some.inj shape
      rw [ahead_moved, grants]
      change
        _ ≤
          machine.region.base +
            offset'
              (performAll other _
                (writeBacks
                  (Function.update machine.state.pc other Pc.idle other)
                  true)).durable
      rw [Function.update_self]
      have reach :=
        (machine.line.record
          (toPptrOff next machine.region.base)).reach_flush other
      rw [words.length, Nat.add_sub_cancel] at reach
      change
        _ ≤
          machine.region.base +
            offset'
              (((machine.line.record
                (toPptrOff next machine.region.base)).flush other).reach other)
      rw [reach, newest]
      omega
    · rw [Function.update_of_ne differs] at shape
      have before := ok.returning other range' shape
      have inside : (machine.ahead other).durable ≤ last :=
        (ok.words.of_history (performAll_history other _ _)).durable_le
      rw [← earlier _ inside] at before
      exact before.trans
        (Nat.add_le_add_left
          (monotone (ahead_moved_extends differs).durable) _)

/-- Every step of a call. -/
theorem Ok.act
    (ok : machine.Ok offset last)
    {action : Action}
    {state' : State}
    (stepped : RegionRace.Step machine.region machine.state action state') :
    ∃ offset' last', (machine.moved action.thread state').Ok offset' last' := by
  have race := ok.race.step stepped
  obtain ⟨-, stepped⟩ := stepped
  obtain ⟨kind, outcome, -, rfl⟩ |
    ⟨kind, alignmentBits, size, res, next, -, -, -, -, rfl⟩ |
    ⟨kind, old, next, range, atExchange, isWord, rfl⟩ := step_cases stepped
  · exact ⟨offset, last, ok.quiet race rfl rfl⟩
  · exact ⟨offset, last, ok.quiet race rfl rfl⟩
  · exact ⟨_, _, ok.granted atExchange isWord race⟩

/-- Another process maps the file. -/
theorem Ok.crashed
    (ok : machine.Ok offset last)
    {region : MappedRegion}
    {survivor : Nat}
    (sameFile : region.fileSize = machine.region.fileSize)
    (later : machine.line.durable ≤ survivor)
    (inside : survivor < machine.line.history.length) :
    (machine.crashed region survivor inside).Ok offset survivor := by
  have pagePositive : 0 < pageSize := by decide
  have word : machine.line.history[survivor] = wordAt (offset survivor) :=
    ok.words.getElem inside
  obtain ⟨behind, within⟩ := ok.bounds survivor
  have userSpace := region.userSpace
  have noRange : ∀ range : Range, some range ≠ none := Option.some_ne_none
  refine
    { race := Inv.initial ⟨⟨region.base + offset survivor, ?_, ?_, ?_⟩, ?_, ?_⟩
      ranges :=
        { disjoint := ok.ranges.disjoint
          behind := ok.ranges.behind
          granted := fun range isGranted => absurd isGranted List.not_mem_nil
          pending := fun thread range shape => absurd shape.symm (noRange range)
          single := fun first second range shape =>
            absurd shape.symm (noRange range) }
      monotone := ok.monotone
      bounds := ?_
      words := ok.words.crash inside
      current := word
      returned := fun range member =>
        (ok.returned range member).trans (ok.monotone later)
      returning := fun thread range shape =>
        absurd shape.symm (noRange range) }
  · exact word.trans (wordAt_eq (by omega) (by omega)).symm
  · change region.base + pageSize ≤ region.base + offset survivor
    omega
  · change region.base + offset survivor ≤ region.base + region.fileSize
    omega
  · exact fun _ => rfl
  · rfl
  · intro n
    change pageSize ≤ offset n ∧ offset n ≤ region.fileSize
    rw [sameFile]
    exact ok.bounds n

/-- The invariant holds of a file that is written back. -/
theorem ok_initial
    (initial : Initial machine) :
    ∃ offset last, machine.Ok offset last := by
  obtain ⟨fresh, isClean, -, noPending, none⟩ := initial
  have race := Inv.initial fresh
  obtain ⟨⟨curr, isWord, behind, inside⟩, -, noneGranted⟩ := fresh
  have pagePositive : 0 < pageSize := by decide
  have userSpace := machine.region.userSpace
  obtain ⟨first, rfl⟩ : ∃ first, curr = machine.region.base + first :=
    Nat.exists_eq_add_of_le (by omega)
  have word : machine.state.currAddrWord = wordAt first :=
    isWord.trans (wordAt_eq (by omega) (by omega))
  have noRange : ∀ range : Range, some range ≠ Option.none :=
    Option.some_ne_none
  refine ⟨fun _ => first, 0, ?_⟩
  refine
    { race := race
      ranges := ?_
      monotone := monotone_const
      bounds := fun _ => ⟨by omega, by omega⟩
      words := ?_
      current := word
      returned := ?_
      returning := ?_ }
  · refine ⟨?_, ?_, ?_, ?_, ?_⟩
    · rw [none]
      exact .nil
    · rw [none]
      exact fun range member => absurd member List.not_mem_nil
    · rw [noneGranted]
      exact fun range member => absurd member List.not_mem_nil
    · intro thread range shape
      exact absurd (shape.symm.trans (noPending thread)) (noRange range)
    · intro thread other range shape
      exact absurd (shape.symm.trans (noPending thread)) (noRange range)
  · rw [isClean, word]
    exact .clean _
  · rw [none]
    exact fun range member => absurd member List.not_mem_nil
  · intro thread range shape
    exact absurd (shape.symm.trans (noPending thread)) (noRange range)

/-- Every step of the machine. -/
theorem Ok.step
    (ok : machine.Ok offset last)
    {event : Event}
    {machine' : Machine}
    (stepped : Step machine event machine') :
    ∃ offset' last', machine'.Ok offset' last' := by
  cases stepped with
  | act ready accepted => exact ok.act accepted
  | writeBack next => exact ⟨offset, last, ok.wroteBack next⟩
  | crash sameFile later inside =>
      exact ⟨offset, _, ok.crashed sameFile later inside⟩

end Machine

/--
Over any number of processes, with a crash allowed after every exchange,
write-back and fence, no byte of the file is handed out by two calls: the ranges
of all calls that have returned are pairwise disjoint and lie in the file behind
its reserved page, a range that is not handed out yet overlaps none of them, and
every process that maps the file finds `curr_addr` behind all of them.
-/
theorem expansion_durable
    {machine : Machine}
    (reached : Reaches Machine.Initial Machine.Step machine) :
    machine.handedOut.Pairwise FileRange.Disjoint ∧
      (∀ range ∈ machine.handedOut,
        pageSize ≤ range.offset ∧
          range.offset + range.size ≤ machine.region.fileSize) ∧
      (∀ range ∈ machine.state.granted,
        ∀ old ∈ machine.handedOut,
          old = range.inFile machine.region ∨
            old.Disjoint (range.inFile machine.region)) ∧
      ∀ region survivor (inside : survivor < machine.line.history.length),
        region.fileSize = machine.region.fileSize →
        machine.line.durable ≤ survivor →
        ∀ range ∈ machine.handedOut,
          region.base + range.offset + range.size ≤
            currAddr region (machine.crashed region survivor inside).state := by
  obtain ⟨offset, last, ok⟩ : ∃ offset last, machine.Ok offset last :=
    reached.invariant
      (fun _ initial => Machine.ok_initial initial)
      (fun _ _ _ ok stepped => ok.elim fun _ ok => ok.elim fun _ ok =>
        ok.step stepped)
  refine ⟨ok.ranges.disjoint, ?_, ?_, ?_⟩
  · intro range member
    have ended := ok.returned range member
    have inside := (ok.bounds machine.line.durable).2
    exact ⟨ok.ranges.behind range member, ended.trans inside⟩
  · intro range isGranted
    exact (ok.ranges.granted range isGranted).2
  · intro region survivor inside sameFile later range member
    obtain ⟨behind, within⟩ := ok.bounds survivor
    have pagePositive : 0 < pageSize := by decide
    have ended := (ok.returned range member).trans (ok.monotone later)
    have word : machine.line.history[survivor] = wordAt (offset survivor) :=
      ok.words.getElem inside
    have found :
        currAddr region (machine.crashed region survivor inside).state =
          region.base + offset survivor := by
      change fromPptrOff machine.line.history[survivor] region.base = _
      rw [word]
      exact decode_wordAt (by omega) (by omega)
    rw [found]
    omega

/-- The example region, written back. -/
def exampleMachine : Machine where
  region := exampleRegion
  state := exampleStart
  line := .clean exampleStart.currAddrWord
  todo := fun _ => []
  pending := fun _ => none
  handedOut := []

/-- A call that returns with a range. -/
def durableCall : List Machine.Event :=
  [.act (.call 0 .nvmRegionAllocator 6 100), .writeBack 0, .writeBack 0,
    .act (.exchange 0), .writeBack 0, .writeBack 0]

/-- Whatever a crash leaves, the next process goes on behind the range. -/
theorem expansion_durable_call :
    ∃ machine,
      Reaches Machine.Initial Machine.Step machine ∧
        machine.handedOut = [{ offset := pageSize, size := 100 }] ∧
        ∀ survivor (inside : survivor < machine.line.history.length),
          machine.line.durable ≤ survivor →
            machine.region.base + pageSize + 100 ≤
              currAddr machine.region
                (machine.crashed machine.region survivor inside).state := by
  have accepted :
      (Reaches.runAll Machine.execute durableCall exampleMachine).map
          Machine.handedOut =
        some [{ offset := pageSize, size := 100 }] := by
    decide +kernel
  obtain ⟨machine, executed, isHandedOut⟩ := Option.map_eq_some_iff.mp accepted
  have inside :
      exampleRegion.base + pageSize ≤
        exampleRegion.base + exampleRegion.fileSize := by
    decide +kernel
  have fresh : RegionRace.Initial exampleRegion exampleStart :=
    ⟨⟨exampleRegion.base + pageSize, by simp only [exampleStart],
      Nat.le_refl _, inside⟩,
      fun _ => rfl, rfl⟩
  have isInitial : Machine.Initial exampleMachine :=
    ⟨fresh, rfl, fun _ => rfl, fun _ => rfl, rfl⟩
  have reached : Reaches Machine.Initial Machine.Step machine :=
    Reaches.of_runAll (fun _ _ _ => Machine.step_of_execute)
      (.start isInitial) executed
  refine ⟨machine, reached, isHandedOut, ?_⟩
  intro survivor inside later
  refine
    (expansion_durable reached).2.2.2 machine.region survivor inside rfl later
      { offset := pageSize, size := 100 } ?_
  rw [isHandedOut]
  exact List.mem_singleton_self _

end RegionRace

end Bxalloc
