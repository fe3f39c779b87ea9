import PandaBridge.Server.TimeRoundTrip
import PandaBridge.Transition.System

/-! The two registers of a time. Its value is written to them and kept in the field by every path
that sets it: as a scaled time, as a number of ticks, and by the commands of a saved state, which
are the same. Only the first of these checks that the number of ticks is one of 48 bits. -/
namespace Server.Fields

open FixedPoint

/-- A time field with its registers of the low and the high bits. -/
structure TimeRegisters where
  field : TimeField
  low : Nat
  high : Nat

/-- The commands that change a time. -/
inductive TimeWrite
  | put (string : Text)
  | rawPut (string : Text)
  | unitsPut (string : Text)

namespace TimeRegisters

/-- `time_class_init`, which does not write the registers. -/
def init (low high : Nat) : TimeRegisters where
  field := { unit := .seconds, value := 0 }
  low := low
  high := high

/-- `write_time_value`. -/
def writeTimeValue (state : TimeRegisters) (value : Nat) : TimeRegisters where
  field := { state.field with value }
  low := value % 2 ^ 32
  high := value / 2 ^ 32 % 2 ^ 32

variable (platform : Platform)

/-- `time_put`, `time_raw_put` and `time_class_units_put`. -/
def write (state : TimeRegisters) : TimeWrite → TimeRegisters × Option String
  | .put string =>
      stored state state.writeTimeValue
        (parseWhole (timeClassParse platform state.field.unit maxClockValue) string)
  | .rawPut string => stored state state.writeTimeValue (parseWhole parseUint64 string)
  | .unitsPut string =>
      stored state (fun unit => { state with field := { state.field with unit } })
        (sharedUnitsParse string)

def system : Transition.System TimeRegisters TimeWrite := fun state event =>
  some (state.write platform event).1

/-- The value is one of 48 bits, and the registers hold it. -/
structure Right (state : TimeRegisters) : Prop where
  inRange : state.field.value ≤ maxClockValue
  registers : state.low + 2 ^ 32 * state.high = state.field.value

end TimeRegisters

/-- A number of ticks that is accepted is one of 48 bits. -/
def TimeWrite.InRange : TimeWrite → Prop
  | .rawPut string => ∀ value, parseWhole parseUint64 string = .ok value → value ≤ maxClockValue
  | .put _ | .unitsPut _ => True

/-- A number between 0 and an integer that a `double` holds is not rounded to more than that. -/
def Platform.RoundsWithin (platform : Platform) : Prop :=
  ∀ (number : platform.Double) (bound : Nat), bound < 2 ^ 53 →
    platform.le (platform.ofInt 0) number = true →
      platform.le number (platform.ofInt bound) = true → platform.llround number ≤ bound

namespace TimeRegisters

variable {platform : Platform} {state : TimeRegisters}

theorem ticksOf_le (hRounds : platform.RoundsWithin) {unit : TimeUnit}
    {scaled : platform.Double} {value : Nat}
    (hTicks : ticksOf platform unit maxClockValue scaled = some value) : value ≤ maxClockValue := by
  unfold ticksOf at hTicks
  simp only [Bool.and_eq_true] at hTicks
  split at hTicks
  · rename_i hRange
    obtain rfl := Option.some.inj hTicks
    exact hRounds _ maxClockValue (by decide) hRange.1 hRange.2
  · cases hTicks

theorem timeClassParse_le (hRounds : platform.RoundsWithin) {unit : TimeUnit} {string : Text}
    {value : Nat}
    (hParse : parseWhole (timeClassParse platform unit maxClockValue) string = .ok value) :
    value ≤ maxClockValue := by
  unfold parseWhole timeClassParse Platform.parseScaled at hParse
  cases hNumber : platform.parseDouble string with
  | error message =>
      rw [hNumber] at hParse
      cases hParse
  | ok parsed =>
      obtain ⟨number, rest⟩ := parsed
      rw [hNumber] at hParse
      cases hTicks : ticksOf platform unit maxClockValue number with
      | none =>
          simp only [hTicks] at hParse
          cases hParse
      | some ticks =>
          simp only [hTicks] at hParse
          cases hEos : parseEos rest with
          | error message =>
              simp only [bind, Except.bind, hEos] at hParse
              cases hParse
          | ok _ =>
              simp only [bind, Except.bind, hEos] at hParse
              obtain rfl := Except.ok.inj hParse
              exact ticksOf_le hRounds hTicks

theorem writeTimeValue_right (state : TimeRegisters) {value : Nat} (hValue : value ≤ maxClockValue) :
    (state.writeTimeValue value).Right := by
  refine ⟨hValue, ?_⟩
  simp only [writeTimeValue]
  unfold maxClockValue at hValue
  omega

theorem Right.write (hRounds : platform.RoundsWithin) (hRight : state.Right) {event : TimeWrite}
    (hEvent : event.InRange) : (state.write platform event).1.Right := by
  cases event with
  | put string =>
      refine stored_keeps Right hRight fun value hParse => ?_
      exact state.writeTimeValue_right (timeClassParse_le hRounds hParse)
  | rawPut string =>
      refine stored_keeps Right hRight fun value hParse => ?_
      exact state.writeTimeValue_right (hEvent value hParse)
  | unitsPut string =>
      refine stored_keeps Right hRight fun unit _ => ?_
      exact ⟨hRight.inRange, hRight.registers⟩

theorem run_some (events : List TimeWrite) (state : TimeRegisters) :
    ∃ last, (system platform).run events state = some last := by
  induction events generalizing state with
  | nil => exact ⟨state, rfl⟩
  | cons event rest ih => exact ih (state.write platform event).1

theorem inRange_of_right {event : TimeWrite} (hRight : (state.write platform event).1.Right) :
    event.InRange := by
  cases event with
  | put string => trivial
  | rawPut string =>
      intro value hParse
      have hStored : (state.write platform (.rawPut string)).1 = state.writeTimeValue value := by
        simp only [TimeRegisters.write, hParse, stored]
      exact (hStored ▸ hRight).inRange
  | unitsPut string => trivial

end TimeRegisters

open TimeRegisters

/-- In every state of a run the value is one of 48 bits and the registers hold it, exactly when the
registers hold 0 at the start, as the field does, and no number of ticks that is accepted has more
than 48 bits. -/
theorem time_registers_right_iff {platform : Platform} (hRounds : platform.RoundsWithin)
    (low high : Nat) (events : List TimeWrite) :
    (∀ first rest state, events = first ++ rest →
      (system platform).run first (TimeRegisters.init low high) = some state → state.Right) ↔
    (low = 0 ∧ high = 0) ∧ ∀ event ∈ events, event.InRange := by
  constructor
  · intro hRight
    have hStart := (hRight [] events _ rfl rfl).registers
    simp only [TimeRegisters.init] at hStart
    refine ⟨by omega, fun event hMem => ?_⟩
    obtain ⟨before, after, rfl⟩ := List.append_of_mem hMem
    obtain ⟨middle, hMiddle⟩ := @run_some platform before (TimeRegisters.init low high)
    refine @inRange_of_right platform middle event (hRight (before ++ [event]) after _ ?_ ?_)
    · rw [List.append_assoc, List.singleton_append]
    · rw [Transition.System.run_append, hMiddle]
      rfl
  · rintro ⟨⟨rfl, rfl⟩, hEvents⟩ first rest state rfl hRun
    have hStart : (TimeRegisters.init 0 0).Right := ⟨Nat.zero_le _, rfl⟩
    refine @Transition.System.run_invariant _ _ (system platform)
      (fun _ event => event.InRange) Right ?_ first _ _ ?_ hStart hRun
    · intro state event next hState hEvent hStep
      obtain rfl := Option.some.inj hStep
      exact hState.write hRounds hEvent
    · rw [Transition.System.guarded_iff]
      rintro before event after middle rfl _
      exact hEvents event (by simp)

theorem exactPlatform_roundsWithin (width : Nat) (wide : 32 ≤ width)
    (parseLut : Text → Except String Nat) (nominalClock : Nat) :
    (exactPlatform width wide parseLut nominalClock).RoundsWithin := by
  intro number bound _ _ hUpper
  have hLe : number ≤ ((bound : Int) : ℚ) := of_decide_eq_true hUpper
  have hRounded := (roundsTo_rounded .away number).mono (roundsTo_intCast .away (bound : Int)) hLe
  exact Int.toNat_le.mpr hRounded

theorem plain_wide : 32 ≤ 32 := Nat.le_refl 32

/-- A platform of 32 bits. -/
abbrev plainPlatform : Platform := exactPlatform 32 plain_wide (fun _ => .ok 0) 125000000

theorem time_registers_right_two :
    ∃ state, (system plainPlatform).run [.unitsPut "ms".toList, .rawPut "5".toList]
        (TimeRegisters.init 0 0) = some state ∧ state.Right := by
  have hRounds := exactPlatform_roundsWithin 32 plain_wide (fun _ => .ok 0) 125000000
  have hParse : parseWhole parseUint64 "5".toList = .ok 5 := by decide
  obtain ⟨state, hRun⟩ := @run_some plainPlatform [.unitsPut "ms".toList, .rawPut "5".toList]
    (TimeRegisters.init 0 0)
  refine ⟨state, hRun, (time_registers_right_iff hRounds 0 0 [.unitsPut "ms".toList,
    .rawPut "5".toList]).mpr ⟨⟨rfl, rfl⟩, fun event hMem => ?_⟩ _ [] state
    (List.append_nil _).symm hRun⟩
  rcases List.mem_cons.mp hMem with rfl | hMem
  · trivial
  · obtain rfl := List.mem_singleton.mp hMem
    intro value hValue
    obtain rfl : 5 = value := Except.ok.inj (hParse.symm.trans hValue)
    decide

/-- A number of 2 ^ 48 ticks is accepted, and bit 16 of the high register is set. -/
theorem wide_raw_time_written :
    ∃ state, (system plainPlatform).run [.rawPut "281474976710656".toList]
        (TimeRegisters.init 0 0) = some state ∧ state.high = 2 ^ 16 ∧ ¬ state.Right := by
  have hParse : parseWhole parseUint64 "281474976710656".toList = .ok (2 ^ 48) := by
    decide
  refine ⟨(TimeRegisters.init 0 0).writeTimeValue (2 ^ 48), ?_, rfl, fun hRight => ?_⟩
  · simp only [Transition.System.run, system, TimeRegisters.write, hParse, stored, Option.bind_some]
  · exact absurd hRight.inRange (by decide)

end Server.Fields
