import Mathlib.Data.Int.Log
import PandaBridge.FixedPoint.Rounding

/-! Rounding to a number of significant digits over an ordered field. The last digit has a unit of
its own for every value, and the value is rounded to the nearest multiple of that unit. -/
namespace FixedPoint

section Significant

variable {K : Type*} [Field K] [LinearOrder K] [IsStrictOrderedRing K] [FloorRing K]

/-- The place of the first digit. -/
def firstPlace (base : Nat) (value : K) : Int := Int.log base |value|

/-- The unit of the last digit, if there are this many. -/
def lastUnit (base digits : Nat) (value : K) : K :=
  (base : K) ^ (firstPlace base value + 1 - digits)

/-- The digits of a value as one number. -/
def significand (rule : TieRule) (base digits : Nat) (value : K) : Int :=
  rounded rule (value / lastUnit base digits value)

/-- A value rounded to so many digits. -/
def significant (rule : TieRule) (base digits : Nat) (value : K) : K :=
  significand rule base digits value * lastUnit base digits value

/-- A number that can be written with so many digits. -/
def HasDigits (base digits : Nat) (number : K) : Prop :=
  ∃ (code : Nat) (place : Int), code < base ^ digits ∧ number = code * (base : K) ^ place

variable {rule : TieRule} {base digits : Nat} {value number : K}

theorem significand_zero : significand rule base digits (0 : K) = 0 := by
  have hExact := roundsTo_intCast (K := K) rule 0
  rw [Int.cast_zero] at hExact
  rw [significand, zero_div, hExact.rounded_eq]

theorem significant_zero : significant rule base digits (0 : K) = 0 := by
  rw [significant, significand_zero, Int.cast_zero, zero_mul]

section Base

variable (hBase : 1 < base)
include hBase

theorem base_pos : (0 : K) < base := by
  exact_mod_cast (show 0 < base by omega)

theorem lastUnit_pos (digits : Nat) (value : K) : 0 < lastUnit base digits value :=
  zpow_pos (base_pos hBase) _

theorem zpow_firstPlace_le (hPos : 0 < value) : (base : K) ^ firstPlace base value ≤ value := by
  rw [firstPlace, abs_of_pos hPos]
  exact Int.zpow_log_le_self hBase hPos

theorem zpow_firstPlace (hDigits : 0 < digits) :
    (base : K) ^ firstPlace base value =
      ((base ^ (digits - 1) : Nat) : K) * lastUnit base digits value := by
  have hExponent : firstPlace base value =
      ((digits - 1 : Nat) : Int) + (firstPlace base value + 1 - digits) := by omega
  rw [lastUnit, Nat.cast_pow, ← zpow_natCast, ← zpow_add₀ (base_pos hBase).ne', ← hExponent]

theorem lt_pow_mul_lastUnit (digits : Nat) (hPos : 0 < value) :
    value < ((base ^ digits : Nat) : K) * lastUnit base digits value := by
  have hExponent : (digits : Int) + (firstPlace base value + 1 - digits) =
      firstPlace base value + 1 := by omega
  have hLog := Int.lt_zpow_succ_log_self hBase |value|
  rw [lastUnit, Nat.cast_pow, ← zpow_natCast, ← zpow_add₀ (base_pos hBase).ne', hExponent,
    firstPlace]
  rwa [abs_of_pos hPos] at hLog ⊢

/-- The digits of a positive value, which may have been rounded up to one more. -/
theorem significand_bounds (rule : TieRule) (hDigits : 0 < digits) (hPos : 0 < value) :
    (base ^ (digits - 1) : Nat) ≤ significand rule base digits value ∧
      significand rule base digits value ≤ (base ^ digits : Nat) := by
  have hUnit := lastUnit_pos hBase digits value
  have hRounds := roundsTo_rounded rule (value / lastUnit base digits value)
  constructor
  · refine (roundsTo_intCast (K := K) rule _).mono hRounds ?_
    rw [Int.cast_natCast, le_div_iff₀ hUnit, ← zpow_firstPlace hBase hDigits]
    exact zpow_firstPlace_le hBase hPos
  · refine hRounds.mono (roundsTo_intCast (K := K) rule _) ?_
    rw [Int.cast_natCast, div_le_iff₀ hUnit]
    exact (lt_pow_mul_lastUnit hBase _ hPos).le

theorem hasDigits_significant (hDigits : 0 < digits) (hPos : 0 < value) :
    HasDigits base digits (significant rule base digits value) := by
  obtain ⟨hLow, hHigh⟩ := significand_bounds hBase rule hDigits hPos
  have hCode : ((significand rule base digits value).toNat : Int) =
      significand rule base digits value := Int.toNat_of_nonneg ((Int.natCast_nonneg _).trans hLow)
  rcases hHigh.lt_or_eq with hLess | hSame
  · refine ⟨(significand rule base digits value).toNat, firstPlace base value + 1 - digits,
      by omega, ?_⟩
    rw [significant, ← Int.cast_natCast, hCode, lastUnit]
  · refine ⟨base ^ (digits - 1), firstPlace base value + 1 - digits + 1,
      Nat.pow_lt_pow_right hBase (by omega), ?_⟩
    have hPower : base ^ digits = base ^ (digits - 1) * base := by
      rw [← Nat.pow_succ, Nat.succ_eq_add_one, Nat.sub_add_cancel hDigits]
    rw [significant, hSame, lastUnit, zpow_add_one₀ (base_pos hBase).ne', hPower]
    push_cast
    ring

/-- A number with so many digits, not below the first digit of a value, is a multiple of the unit
of the last digit of that value. -/
theorem HasDigits.multiple (hNumber : HasDigits base digits number)
    (hFirst : (base : K) ^ firstPlace base value ≤ number) :
    ∃ factor : Int, number = factor * lastUnit base digits value := by
  obtain ⟨code, place, hCode, rfl⟩ := hNumber
  have hPos := base_pos (K := K) hBase
  have hPlace : firstPlace base value + 1 - digits ≤ place := by
    by_contra hNot
    have hCast : (code : K) < ((base ^ digits : Nat) : K) := by exact_mod_cast hCode
    have hBelow : (code : K) * (base : K) ^ place < (base : K) ^ firstPlace base value := by
      calc (code : K) * (base : K) ^ place
          < ((base ^ digits : Nat) : K) * (base : K) ^ place :=
            mul_lt_mul_of_pos_right hCast (zpow_pos hPos _)
        _ = (base : K) ^ ((digits : Int) + place) := by
            rw [Nat.cast_pow, ← zpow_natCast, ← zpow_add₀ hPos.ne']
        _ ≤ (base : K) ^ firstPlace base value :=
            zpow_le_zpow_right₀ (by exact_mod_cast hBase.le) (by omega)
    exact absurd hFirst (not_le.mpr hBelow)
  obtain ⟨shift, hShift⟩ := Int.eq_ofNat_of_zero_le (sub_nonneg.mpr hPlace)
  refine ⟨code * base ^ shift, ?_⟩
  have hSplit : place = (shift : Int) + (firstPlace base value + 1 - digits) := by omega
  rw [lastUnit, hSplit, zpow_add₀ hPos.ne', zpow_natCast]
  push_cast
  ring

end Base

/-! ### A whole number that is scaled, rounded to digits, and scaled back -/

theorem RoundsTo.near_whole {step : K} {whole code factor : Int} (hStep : 0 < step)
    (hRounds : RoundsTo rule ((whole : K) / step) code) (hLow : (whole : K) - 1 / 2 ≤ factor * step)
    (hHigh : (factor : K) * step < whole + 1 / 2) :
    ((whole : K) - 1 / 2 ≤ code * step ∧ (code : K) * step < whole + 1 / 2) ∧
      (1 < step → code = factor) := by
  have hNear : |(whole : K) - code * step| ≤ step / 2 := by
    have hScaled := mul_le_mul_of_nonneg_right hRounds.near hStep.le
    rwa [← abs_of_pos hStep, ← abs_mul, abs_of_pos hStep, sub_mul, div_mul_cancel₀ _ hStep.ne',
      one_div, inv_mul_eq_div] at hScaled
  obtain ⟨hBelow, hAbove⟩ := abs_le.mp hNear
  have hSame : 1 < step → code = factor := by
    intro hCoarse
    refine hRounds.unique ⟨?_, ?_⟩
    all_goals
      have hQuotient : (whole : K) / step - factor = (whole - factor * step) / step := by
        rw [sub_div, mul_div_cancel_right₀ _ hStep.ne']
      have hLess : |(whole : K) / step - factor| < 1 / 2 := by
        rw [hQuotient, abs_div, abs_of_pos hStep, div_lt_iff₀ hStep, abs_lt]
        constructor <;> linarith
    · exact hLess.le
    · exact fun hTie => absurd hTie hLess.ne
  refine ⟨?_, hSame⟩
  rcases lt_or_ge 1 step with hCoarse | hFine
  · rw [hSame hCoarse]
    exact ⟨hLow, hHigh⟩
  · refine ⟨by linarith, lt_of_le_of_ne (by linarith) fun hTie => ?_⟩
    -- a tie above needs the unit itself, and its multiples are whole
    have hUnit : step = 1 := by linarith
    rw [hUnit, mul_one] at hTie
    have hTwice : ((2 * code : Int) : K) = ((2 * whole + 1 : Int) : K) := by
      push_cast
      linarith
    have hOdd : 2 * code = 2 * whole + 1 := by exact_mod_cast hTwice
    omega

/-- The number is within one half of a whole number once it is scaled, and not above a limit. -/
@[mk_iff]
structure Recovers (scale : K) (limit whole : Int) (number : K) : Prop where
  low : (whole : K) - 1 / 2 ≤ number * scale
  high : number * scale < whole + 1 / 2
  below : number * scale ≤ limit

/-- A number with so many digits can be taken among the multiples of the last unit. -/
theorem Recovers.multiple {scale : K} {limit whole : Int} (hBase : 1 < base) (hDigits : 0 < digits)
    (hPos : 0 < value) (hScale : 0 < scale) (hWhole : value * scale = whole)
    (hLimit : whole ≤ limit) (hNumber : HasDigits base digits number)
    (hRecovers : Recovers scale limit whole number) :
    ∃ factor : Int, Recovers scale limit whole (factor * lastUnit base digits value) := by
  rcases le_or_gt ((base : K) ^ firstPlace base value) number with hFirst | hFirst
  · obtain ⟨factor, rfl⟩ := hNumber.multiple hBase hFirst
    exact ⟨factor, hRecovers⟩
  · -- the power of the base in between is nearer
    have hAbove := mul_lt_mul_of_pos_right hFirst hScale
    have hBelow := mul_le_mul_of_nonneg_right (zpow_firstPlace_le hBase hPos) hScale.le
    have hCast : (whole : K) ≤ limit := by exact_mod_cast hLimit
    have hLow := hRecovers.low
    rw [hWhole] at hBelow
    refine ⟨((base ^ (digits - 1) : Nat) : Int), ?_⟩
    rw [Int.cast_natCast, ← zpow_firstPlace hBase hDigits]
    exact ⟨by linarith, by linarith, hBelow.trans hCast⟩

/-- A whole number that was scaled and rounded to digits is recovered exactly when a number with so
many digits recovers it at all. The limit is too large for the digits to count every whole number
up to it. -/
theorem recovers_significant_iff {scale : K} {limit whole : Int} (hBase : 1 < base)
    (hDigits : 0 < digits) (hPos : 0 < value) (hScale : 0 < scale) (hWhole : value * scale = whole)
    (hLimit : whole ≤ limit) (hCoarse : (base ^ digits : Nat) ≤ limit) :
    Recovers scale limit whole (significant rule base digits value) ↔
      ∃ number, HasDigits base digits number ∧ Recovers scale limit whole number := by
  constructor
  · exact fun hRecovers => ⟨_, hasDigits_significant hBase hDigits hPos, hRecovers⟩
  · rintro ⟨number, hNumber, hRecovers⟩
    obtain ⟨factor, hFactor⟩ :=
      hRecovers.multiple hBase hDigits hPos hScale hWhole hLimit hNumber
    have hStep : 0 < lastUnit base digits value * scale := mul_pos (lastUnit_pos hBase _ _) hScale
    have hRounds := roundsTo_rounded rule (value / lastUnit base digits value)
    rw [← mul_div_mul_right _ _ hScale.ne', hWhole] at hRounds
    have hSame : value / lastUnit base digits value =
        (whole : K) / (lastUnit base digits value * scale) := by
      rw [← hWhole, mul_div_mul_right _ _ hScale.ne']
    obtain ⟨⟨hLow, hHigh⟩, hUnique⟩ := RoundsTo.near_whole hStep hRounds
      (by rw [← mul_assoc]; exact hFactor.low) (by rw [← mul_assoc]; exact hFactor.high)
    rw [← hSame] at hLow hHigh hUnique
    rw [← mul_assoc] at hLow hHigh
    refine ⟨hLow, hHigh, ?_⟩
    rcases hLimit.lt_or_eq with hLess | hTop
    · have hNext : (whole : K) + 1 ≤ limit := by exact_mod_cast hLess
      exact (hHigh.le.trans (by linarith)).trans hNext
    · have hScaled := mul_lt_mul_of_pos_right
        (lt_pow_mul_lastUnit hBase digits hPos) hScale
      have hCast : ((base ^ digits : Nat) : K) ≤ (whole : Int) := by
        rw [hTop]
        exact_mod_cast hCoarse
      have hOver : 1 < lastUnit base digits value * scale := by
        rw [hWhole, mul_assoc] at hScaled
        have hPower : (0 : K) < ((base ^ digits : Nat) : K) := by
          exact_mod_cast Nat.pow_pos (by omega : 0 < base)
        exact (mul_lt_mul_iff_right₀ hPower).mp (by linarith)
      have hBelow := hFactor.below
      rw [significant, significand, hUnique hOver]
      exact hBelow

end Significant

end FixedPoint
