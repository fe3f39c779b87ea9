import PandaBridge.Server.DecimalText
import PandaBridge.Server.FieldClasses

/-! A time that is saved and loaded again. The number of ticks goes through a text of ten digits in
the unit of the field, with the arithmetic of `double` read as exact, and is given back when some
number of ten digits comes within half a tick of it. -/
namespace Server.Fields

open FixedPoint Decimal

/-- `time_conversion`. -/
def timeConversion : TimeUnit → ℚ
  | .minutes => 60
  | .seconds => 1
  | .milliseconds => 1 / 10 ^ 3
  | .microseconds => 1 / 10 ^ 6

/-- The platform whose `double` is exact. -/
abbrev exactPlatform (width : Nat) (wide : 32 ≤ width) (parseLut : Text → Except String Nat)
    (nominalClock : Nat) : Platform where
  width := width
  wide := wide
  Double := ℚ
  strtod := strtod
  printDouble := printDouble
  print_plain number :=
    ⟨fun hMem => absurd (numeric_printDouble number _ hMem) (by decide),
      fun hMem => absurd (numeric_printDouble number _ hMem) (by decide)⟩
  print_short := length_printDouble
  ofInt value := value
  add := (· + ·)
  sub := (· - ·)
  mul := (· * ·)
  div := (· / ·)
  round number := rounded .away number
  le first second := first ≤ second
  llround number := (rounded .away number).toNat
  toUnsigned number := (⌊number⌋ % 2 ^ 32).toNat
  timeConversion := timeConversion
  nominalClock := nominalClock
  parseLut := parseLut

section RoundTrip

variable {width : Nat} {wide : 32 ≤ width} {parseLut : Text → Except String Nat}
  {nominalClock : Nat}

/-- The ticks in one unit of time. -/
def ticksPerUnit (nominalClock : Nat) (unit : TimeUnit) : ℚ :=
  timeConversion unit * nominalClock

/-- The text of the saved field is accepted, and the field it is loaded to has its value. -/
def TimeRestored (platform : Platform) (saved loaded : TimeField) : Prop :=
  ∃ text, timeClassFormat platform maxResultLength saved.value saved.unit = .ok text ∧
    @timePut platform loaded text = ({ loaded with value := saved.value }, none)

/-- Some number of ten digits stands for this number of ticks: rounded to ticks it is the same, and
it is not out of range. -/
def TenDigits (nominalClock : Nat) (unit : TimeUnit) (value : Nat) : Prop :=
  ∃ number : ℚ, HasDigits 10 10 number ∧
    Recovers (ticksPerUnit nominalClock unit) maxClockValue value number

theorem timePut_eq_iff {platform : Platform} {field : TimeField} {text : Text} {value : Nat} :
    @timePut platform field text = ({ field with value }, none) ↔
      wholeLine (timeClassParse platform field.unit maxClockValue) text = some value := by
  unfold timePut parseWhole wholeLine
  cases timeClassParse platform field.unit maxClockValue text with
  | error message => simp [bind, Except.bind]
  | ok parsed =>
      obtain ⟨number, rest⟩ := parsed
      cases rest with
      | nil => simp [bind, Except.bind, parseEos]
      | cons ch rest => simp [bind, Except.bind, parseEos]

/-- What becomes of the value is decided by the number that its text stands for. -/
theorem timeRestored_iff {platform : Platform} {saved loaded : TimeField}
    (hUnit : loaded.unit = saved.unit) :
    TimeRestored platform saved loaded ↔
      (platform.reread (scaledTime platform saved.value saved.unit)).bind
        (ticksOf platform saved.unit maxClockValue) = some saved.value := by
  rw [TimeRestored, timeClassFormat, Platform.formatDouble_eq (by decide)]
  simp only [Except.ok.injEq, exists_eq_left']
  rw [timePut_eq_iff, timeClassParse, Platform.wholeLine_parseScaled, hUnit]

theorem ticksPerUnit_pos (hClock : 0 < nominalClock) (unit : TimeUnit) :
    0 < ticksPerUnit nominalClock unit := by
  have hPos : (0 : ℚ) < nominalClock := by exact_mod_cast hClock
  cases unit <;> simp [ticksPerUnit, timeConversion, hPos]

theorem scaledTime_exact (value : Nat) (unit : TimeUnit) :
    scaledTime (exactPlatform width wide parseLut nominalClock) value unit =
      (value : ℚ) / ticksPerUnit nominalClock unit := by
  change ((value : Int) : ℚ) / timeConversion unit / nominalClock = _
  rw [ticksPerUnit, div_div, Int.cast_natCast]

theorem inRange_scaledTime (hClock : 0 < nominalClock) (hWord : nominalClock < 2 ^ 32)
    {unit : TimeUnit} {value : Nat} (hValue : value ≤ maxClockValue) :
    InRange ((value : ℚ) / ticksPerUnit nominalClock unit) := by
  have hScale := ticksPerUnit_pos hClock unit
  rcases Nat.eq_zero_or_pos value with rfl | hSome
  · exact .inl (by simp)
  · have hPos : (0 : ℚ) < (value : ℚ) / ticksPerUnit nominalClock unit :=
      div_pos (by exact_mod_cast hSome) hScale
    have hConversion : 1 / 10 ^ 6 ≤ timeConversion unit ∧ timeConversion unit ≤ 60 := by
      cases unit <;> norm_num [timeConversion]
    have hLeast : (1 : ℚ) ≤ nominalClock := by exact_mod_cast hClock
    have hMost : (nominalClock : ℚ) ≤ 2 ^ 32 := by exact_mod_cast hWord.le
    have hFew : (value : ℚ) ≤ 2 ^ 48 := by
      have hBound : value ≤ 2 ^ 48 := hValue.trans (by decide)
      exact_mod_cast hBound
    have hOne : (1 : ℚ) ≤ value := by exact_mod_cast hSome
    have hScaleLow : (1 : ℚ) / 10 ^ 6 ≤ ticksPerUnit nominalClock unit := by
      unfold ticksPerUnit
      nlinarith [hConversion.1]
    have hScaleHigh : ticksPerUnit nominalClock unit ≤ 60 * 2 ^ 32 := by
      unfold ticksPerUnit
      nlinarith [hConversion.1, hConversion.2]
    refine .inr ⟨hPos, ?_, ?_⟩
    · rw [firstPlace, abs_of_pos hPos]
      have hPlace : (-12 : Int) ≤ Int.log 10 ((value : ℚ) / ticksPerUnit nominalClock unit) := by
        rw [← Int.zpow_le_iff_le_log (by norm_num) hPos, le_div_iff₀ hScale]
        norm_num
        linarith
      omega
    · rw [firstPlace, abs_of_pos hPos]
      have hPlace : Int.log 10 ((value : ℚ) / ticksPerUnit nominalClock unit) < 21 := by
        rw [← Int.lt_zpow_iff_log_lt (by norm_num) hPos, div_lt_iff₀ hScale]
        norm_num
        linarith
      omega

theorem reread_exact {number : ℚ} (h : InRange number) :
    (exactPlatform width wide parseLut nominalClock).reread number =
      some (significant .even 10 10 number) := by
  obtain ⟨hSkip, hRead⟩ := strtod_printDouble h
  change wholeLine (exactPlatform width wide parseLut nominalClock).parseDouble
    (skipWhitespace (printDouble number)) = _
  rw [hSkip]
  refine wholeLine_of_ok ?_
  simp only [Platform.parseDouble, hRead]

theorem rounded_away_eq_iff {number : ℚ} (hNonneg : 0 ≤ number) (value : Nat) :
    (rounded .away number).toNat = value ↔
      (value : ℚ) - 1 / 2 ≤ number ∧ number < value + 1 / 2 := by
  have hFloor : rounded .away number = ⌊number + 1 / 2⌋ := if_neg (not_lt.mpr hNonneg)
  have hSign : 0 ≤ ⌊number + 1 / 2⌋ := Int.floor_nonneg.mpr (by linarith)
  rw [hFloor, ← Int.natCast_inj, Int.toNat_of_nonneg hSign, Int.floor_eq_iff, Int.cast_natCast]
  constructor
  · rintro ⟨hLow, hHigh⟩
    exact ⟨by linarith, by linarith⟩
  · rintro ⟨hLow, hHigh⟩
    exact ⟨by linarith, by linarith⟩

theorem ticksOf_exact_iff {unit : TimeUnit} {number : ℚ} (hNonneg : 0 ≤ number)
    (hScale : 0 < ticksPerUnit nominalClock unit) (value : Nat) :
    ticksOf (exactPlatform width wide parseLut nominalClock) unit maxClockValue number =
        some value ↔
      Recovers (ticksPerUnit nominalClock unit) maxClockValue value number := by
  have hTicks : 0 ≤ number * ticksPerUnit nominalClock unit := mul_nonneg hNonneg hScale.le
  have hTest : ticksOf (exactPlatform width wide parseLut nominalClock) unit maxClockValue number =
      if (0 : ℚ) ≤ number * ticksPerUnit nominalClock unit ∧
        number * ticksPerUnit nominalClock unit ≤ maxClockValue then
        some (rounded .away (number * ticksPerUnit nominalClock unit)).toNat
      else none := by
    simp only [ticksOf, ticksPerUnit, Bool.and_eq_true, decide_eq_true_eq, Int.cast_zero,
      Int.cast_natCast, mul_assoc]
    exact if_congr Iff.rfl rfl rfl
  rw [hTest, recovers_iff]
  split_ifs with hBounds
  · rw [Option.some.injEq, rounded_away_eq_iff hTicks]
    simp only [Int.cast_natCast, hBounds.2, and_true]
  · have hOver : ¬ number * ticksPerUnit nominalClock unit ≤ ((maxClockValue : Nat) : Int) := by
      rw [Int.cast_natCast]
      exact fun hBelow => hBounds ⟨hTicks, hBelow⟩
    refine iff_of_false nofun ?_
    rintro ⟨-, -, hBelow⟩
    exact hOver hBelow

/-- A time is restored exactly when ten digits can stand for it. -/
theorem time_restored_iff (hClock : 0 < nominalClock) (hWord : nominalClock < 2 ^ 32)
    {saved loaded : TimeField} (hUnit : loaded.unit = saved.unit)
    (hValue : saved.value ≤ maxClockValue) :
    TimeRestored (exactPlatform width wide parseLut nominalClock) saved loaded ↔
      TenDigits nominalClock saved.unit saved.value := by
  have hScale := ticksPerUnit_pos hClock saved.unit
  rw [timeRestored_iff hUnit, scaledTime_exact, reread_exact (inRange_scaledTime hClock hWord hValue),
    Option.bind_some]
  rcases Nat.eq_zero_or_pos saved.value with hZero | hSome
  · have hRecovers : Recovers (ticksPerUnit nominalClock saved.unit) maxClockValue
        ((0 : Nat) : Int) (0 : ℚ) := ⟨by norm_num, by norm_num, by norm_num⟩
    rw [hZero, Nat.cast_zero, zero_div, significant_zero, ticksOf_exact_iff le_rfl hScale]
    exact ⟨fun _ => ⟨0, ⟨0, 0, by norm_num, by norm_num⟩, hRecovers⟩, fun _ => hRecovers⟩
  · have hPos : (0 : ℚ) < (saved.value : ℚ) / ticksPerUnit nominalClock saved.unit :=
      div_pos (by exact_mod_cast hSome) hScale
    obtain ⟨hLeast, -⟩ := significand_bounds (show 1 < 10 by omega) .even
      (show 0 < 10 by omega) hPos
    have hNonneg : 0 ≤ significant .even 10 10
        ((saved.value : ℚ) / ticksPerUnit nominalClock saved.unit) :=
      mul_nonneg (by exact_mod_cast (Int.natCast_nonneg _).trans hLeast)
        (lastUnit_pos (by norm_num) _ _).le
    rw [ticksOf_exact_iff hNonneg hScale, TenDigits]
    exact recovers_significant_iff (by norm_num) (by norm_num) hPos hScale
      (by rw [Int.cast_natCast, div_mul_cancel₀ _ hScale.ne']) (by exact_mod_cast hValue)
      (by decide)

end RoundTrip

/-- One microsecond at 125 MHz. -/
theorem time_restored_microsecond :
    TimeRestored (exactPlatform 64 (by decide) (fun _ => .error "No lookup table") 125000000)
      { unit := .microseconds, value := 125 } { unit := .microseconds, value := 0 } := by
  have hTen : TenDigits 125000000 .microseconds 125 := by
    refine ⟨1, ⟨1, 0, by decide, by norm_num⟩, ?_, ?_, ?_⟩
    · norm_num [ticksPerUnit, timeConversion]
    · norm_num [ticksPerUnit, timeConversion]
    · norm_num [ticksPerUnit, timeConversion, maxClockValue]
  have hRestored := @time_restored_iff 64 (by decide) (fun _ => .error "No lookup table") 125000000
    (by decide) (by decide) { unit := .microseconds, value := 125 }
    { unit := .microseconds, value := 0 } rfl (by decide)
  exact hRestored.mpr hTen

/-- A hundred seconds and one tick at 125 MHz are saved as a hundred seconds. -/
theorem time_loses_tick :
    let platform := exactPlatform 64 (by decide) (fun _ => .error "No lookup table") 125000000
    (timeClassFormat platform maxResultLength 12500000001 .seconds).toOption =
        some "100".toList ∧
      (@timePut platform { unit := .seconds, value := 0 } "100".toList).1.value = 12500000000 ∧
      ¬ TimeRestored platform { unit := .seconds, value := 12500000001 }
        { unit := .seconds, value := 0 } := by
  intro platform
  have hText : (timeClassFormat platform maxResultLength 12500000001 .seconds).toOption =
      some "100".toList := by decide +kernel
  have hPut : (@timePut platform { unit := .seconds, value := 0 } "100".toList).1.value =
      12500000000 := by decide +kernel
  refine ⟨hText, hPut, ?_⟩
  rintro ⟨text, hFormat, hRestored⟩
  rw [hFormat] at hText
  obtain rfl : text = "100".toList := Option.some.inj hText
  rw [hRestored] at hPut
  exact absurd hPut (by decide)

end Server.Fields
