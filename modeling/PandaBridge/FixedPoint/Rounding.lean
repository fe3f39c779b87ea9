import Mathlib.Algebra.Order.Floor.Ring
import Mathlib.Algebra.Order.Round
import Mathlib.Tactic.NormNum
import PandaBridge.FixedPoint.Signed

/-! Rounding to the nearest integer over an ordered field. A value halfway between
two integers is settled by a rule; with the rule the nearest integer is unique, and
rounding commutes with clamping to integer bounds. -/
namespace FixedPoint

/-- Which of two equally near integers is taken. -/
inductive TieRule
  | away
  | even

section Rounding

variable {K : Type*} [Field K] [LinearOrder K] [IsStrictOrderedRing K]

/-- The rule takes `code` for a value halfway between it and another integer. -/
def TieRule.Takes (rule : TieRule) (value : K) (code : Int) : Prop :=
  match rule with
  | .away => |value| < |(code : K)|
  | .even => Even code

/-- `code` is nearest to the value, and the one the rule takes if there are two. -/
@[mk_iff]
structure RoundsTo (rule : TieRule) (value : K) (code : Int) : Prop where
  near : |value - code| ≤ 1 / 2
  tie : |value - code| = 1 / 2 → rule.Takes value code

/-- The nearest integer under a rule. -/
def rounded [FloorRing K] (rule : TieRule) (value : K) : Int :=
  match rule with
  | .away => if value < 0 then ⌈value - 1 / 2⌉ else ⌊value + 1 / 2⌋
  | .even =>
      if Int.fract value < 1 / 2 ∨ (Int.fract value = 1 / 2 ∧ Even ⌊value⌋) then ⌊value⌋
      else ⌊value⌋ + 1

variable {rule : TieRule} {value : K}

theorem roundsTo_intCast (rule : TieRule) (code : Int) : RoundsTo rule (code : K) code where
  near := by
    rw [sub_self, abs_zero]
    norm_num
  tie h := by
    rw [sub_self, abs_zero] at h
    norm_num at h

private theorem not_takes_both {code : Int} (hHalf : value = code + 1 / 2)
    (hLow : rule.Takes value code) (hHigh : rule.Takes value (code + 1)) : False := by
  cases rule with
  | away =>
      simp only [TieRule.Takes] at hLow hHigh
      push_cast at hHigh
      rcases le_or_gt 0 code with hSign | hSign
      · have hCode : (0 : K) ≤ code := by exact_mod_cast hSign
        rw [abs_of_nonneg (by linarith), abs_of_nonneg hCode] at hLow
        linarith
      · have hCode : (code : K) + 1 ≤ 0 := by exact_mod_cast hSign
        rw [abs_of_nonpos (by linarith), abs_of_nonpos hCode] at hHigh
        linarith
  | even =>
      simp only [TieRule.Takes] at hLow hHigh
      exact Int.not_even_iff_odd.mpr hLow.add_one hHigh

private theorem RoundsTo.not_less {low high : Int} (hLow : RoundsTo rule value low)
    (hHigh : RoundsTo rule value high) : ¬ low < high := by
  intro hLess
  have hNext : (low : K) + 1 ≤ high := by exact_mod_cast hLess
  obtain ⟨-, hLowNear⟩ := abs_le.mp hLow.near
  obtain ⟨hHighNear, -⟩ := abs_le.mp hHigh.near
  have hHalf : value = low + 1 / 2 := by linarith
  obtain rfl : high = low + 1 := by
    have hSame : (high : K) = low + 1 := by linarith
    exact_mod_cast hSame
  apply not_takes_both hHalf (hLow.tie _) (hHigh.tie _)
  · rw [hHalf, add_sub_cancel_left]
    exact abs_of_pos (by norm_num)
  · rw [hHalf, Int.cast_add, Int.cast_one, show (low : K) + 1 / 2 - (low + 1) = -(1 / 2) by ring,
      abs_neg]
    exact abs_of_pos (by norm_num)

theorem RoundsTo.unique {first second : Int} (hFirst : RoundsTo rule value first)
    (hSecond : RoundsTo rule value second) : first = second :=
  le_antisymm (not_lt.mp (hSecond.not_less hFirst)) (not_lt.mp (hFirst.not_less hSecond))

theorem RoundsTo.mono {larger : K} {first second : Int} (hFirst : RoundsTo rule value first)
    (hSecond : RoundsTo rule larger second) (hOrder : value ≤ larger) : first ≤ second := by
  by_contra hNot
  have hNext : (second : K) + 1 ≤ first := by exact_mod_cast not_le.mp hNot
  obtain ⟨-, hSecondNear⟩ := abs_le.mp hSecond.near
  obtain ⟨hFirstNear, -⟩ := abs_le.mp hFirst.near
  obtain rfl : value = larger := by linarith
  exact hNot (hFirst.unique hSecond).le

theorem RoundsTo.clamped {code low high : Int} (hRounds : RoundsTo rule value code)
    (hBounds : low ≤ high) :
    RoundsTo rule (min (max value low) high) (min (max code low) high) := by
  have hCast : (low : K) ≤ high := by exact_mod_cast hBounds
  obtain ⟨hAbove, hBelow⟩ := abs_le.mp hRounds.near
  rcases le_or_gt value low with hLow | hLow
  · have hCode : code ≤ low := by
      by_contra hNot
      have hNext : (low : K) + 1 ≤ code := by exact_mod_cast not_le.mp hNot
      linarith
    rw [max_eq_right hLow, max_eq_right hCode, min_eq_left hCast, min_eq_left hBounds]
    exact roundsTo_intCast rule low
  · have hCodeLow : low ≤ code := by
      by_contra hNot
      have hNext : (code : K) + 1 ≤ low := by exact_mod_cast not_le.mp hNot
      linarith
    rw [max_eq_left hLow.le, max_eq_left hCodeLow]
    rcases le_or_gt (high : K) value with hHigh | hHigh
    · have hCode : high ≤ code := by
        by_contra hNot
        have hNext : (code : K) + 1 ≤ high := by exact_mod_cast not_le.mp hNot
        linarith
      rw [min_eq_right hHigh, min_eq_right hCode]
      exact roundsTo_intCast rule high
    · have hCode : code ≤ high := by
        by_contra hNot
        have hNext : (high : K) + 1 ≤ code := by exact_mod_cast not_le.mp hNot
        linarith
      rw [min_eq_left hHigh.le, min_eq_left hCode]
      exact hRounds

private theorem roundsTo_rounded_away [FloorRing K] (value : K) :
    RoundsTo .away value (rounded .away value) := by
  simp only [rounded]
  split_ifs with hSign
  · have hLow := Int.le_ceil (value - 1 / 2)
    have hHigh := Int.ceil_lt_add_one (value - 1 / 2)
    generalize ⌈value - 1 / 2⌉ = code at *
    refine ⟨abs_le.mpr ⟨by linarith, by linarith⟩, fun hTie => ?_⟩
    have hCode : (code : K) = value - 1 / 2 := by
      rcases abs_choice (value - code) with hAbs | hAbs <;> rw [hAbs] at hTie <;> linarith
    rw [TieRule.Takes, abs_of_neg hSign, abs_of_neg (by linarith)]
    linarith
  · have hLow := Int.lt_floor_add_one (value + 1 / 2)
    have hHigh := Int.floor_le (value + 1 / 2)
    generalize ⌊value + 1 / 2⌋ = code at *
    refine ⟨abs_le.mpr ⟨by linarith, by linarith⟩, fun hTie => ?_⟩
    have hCode : (code : K) = value + 1 / 2 := by
      rcases abs_choice (value - code) with hAbs | hAbs <;> rw [hAbs] at hTie <;> linarith
    rw [not_lt] at hSign
    rw [TieRule.Takes, abs_of_nonneg hSign, abs_of_pos (by linarith)]
    linarith

private theorem roundsTo_rounded_even [FloorRing K] (value : K) :
    RoundsTo .even value (rounded .even value) := by
  have hLow := Int.fract_nonneg value
  have hHigh := Int.fract_lt_one value
  have hFloor : value - ⌊value⌋ = Int.fract value := Int.self_sub_floor value
  simp only [rounded]
  split_ifs with hDown
  · rw [roundsTo_iff, hFloor, abs_of_nonneg hLow]
    rcases hDown with hLess | ⟨hHalf, hEven⟩
    · exact ⟨hLess.le, fun hTie => absurd hTie hLess.ne⟩
    · exact ⟨hHalf.le, fun _ => hEven⟩
  · have hUp : value - ((⌊value⌋ + 1 : Int) : K) = -(1 - Int.fract value) := by
      push_cast
      linarith
    rw [not_or, not_lt] at hDown
    rw [roundsTo_iff, hUp, abs_neg, abs_of_pos (by linarith)]
    refine ⟨by linarith [hDown.1], fun hTie => ?_⟩
    have hOdd : ¬ Even ⌊value⌋ := fun hEven => hDown.2 ⟨by linarith, hEven⟩
    exact (Int.not_even_iff_odd.mp hOdd).add_one

theorem roundsTo_rounded [FloorRing K] (rule : TieRule) (value : K) :
    RoundsTo rule value (rounded rule value) := by
  cases rule with
  | away => exact roundsTo_rounded_away value
  | even => exact roundsTo_rounded_even value

theorem RoundsTo.rounded_eq [FloorRing K] {code : Int} (hRounds : RoundsTo rule value code) :
    rounded rule value = code :=
  (roundsTo_rounded rule value).unique hRounds

/-- A quotient by an even number, in integers: the remainder is compared with half
the divisor. -/
theorem roundsTo_div (K : Type*) [Field K] [LinearOrder K] [IsStrictOrderedRing K]
    {value half code : Int} (hHalf : 0 < half) (hNear : |value - code * (2 * half)| ≤ half)
    (hTie : |value - code * (2 * half)| = half →
      match rule with
      | .away => |value| < |code| * (2 * half)
      | .even => Even code) :
    RoundsTo rule ((value : K) / (2 * half)) code := by
  have hPos : (0 : K) < 2 * half := by
    have hCast : (0 : K) < half := by exact_mod_cast hHalf
    linarith
  have hDistance : |(value : K) / (2 * half) - code| =
      (|value - code * (2 * half)| : Int) / (2 * half) := by
    have hQuotient : (value : K) / (2 * half) - code = (value - code * (2 * half)) / (2 * half) := by
      rw [sub_div, mul_div_cancel_right₀ _ hPos.ne']
    rw [hQuotient, abs_div, abs_of_pos hPos]
    push_cast
    rfl
  rw [roundsTo_iff, hDistance]
  constructor
  · rw [div_le_iff₀ hPos]
    have hCast : ((|value - code * (2 * half)| : Int) : K) ≤ half := by exact_mod_cast hNear
    linarith
  · intro hSame
    rw [div_eq_iff hPos.ne'] at hSame
    have hEqual : |value - code * (2 * half)| = half := by
      have hCast : ((|value - code * (2 * half)| : Int) : K) = half := by linarith
      exact_mod_cast hCast
    have hTakes := hTie hEqual
    cases rule with
    | away =>
        rw [TieRule.Takes, abs_div, abs_of_pos hPos, div_lt_iff₀ hPos]
        exact_mod_cast hTakes
    | even => exact hTakes

theorem roundsTo_nearestQuot (K : Type*) [Field K] [LinearOrder K] [IsStrictOrderedRing K]
    (value : Int) (frac : Nat) :
    RoundsTo .away ((value : K) / 2 ^ frac) (nearestQuot value frac) := by
  cases frac with
  | zero =>
      rw [pow_zero, div_one]
      exact roundsTo_intCast _ _
  | succ frac =>
      have hHalf : (0 : Int) < 2 ^ frac := by positivity
      have hCast : (2 : K) ^ (frac + 1) = 2 * ((2 ^ frac : Int) : K) := by
        push_cast
        ring
      rw [hCast, nearestQuot, show (2 : Int) ^ (frac + 1) = 2 * 2 ^ frac by ring]
      generalize (2 : Int) ^ frac = half at *
      have hFloor : ∀ size : Int, (size + half) / (2 * half) * (2 * half) ≤ size + half ∧
          size + half < (size + half) / (2 * half) * (2 * half) + 2 * half := by
        intro size
        have hMod := Int.emod_add_mul_ediv (size + half) (2 * half)
        have hLow := Int.emod_nonneg (size + half) (show 2 * half ≠ 0 by omega)
        have hHigh := Int.emod_lt_of_pos (size + half) (show 0 < 2 * half by omega)
        constructor <;> linarith
      split_ifs with hSign
      · obtain ⟨hLow, hHigh⟩ := hFloor (-value)
        generalize (-value + half) / (2 * half) = code at *
        apply roundsTo_div K hHalf
        · exact abs_le.mpr ⟨by linarith, by linarith⟩
        · intro hTie
          have hCode : value + code * (2 * half) = half := by
            rcases abs_choice (value - -code * (2 * half)) with hAbs | hAbs <;>
              rw [hAbs] at hTie <;> linarith
          have hPos : 0 ≤ code * (2 * half) := by linarith
          rw [abs_neg, abs_of_neg hSign,
            abs_of_nonneg (nonneg_of_mul_nonneg_left hPos (by omega))]
          linarith
      · obtain ⟨hLow, hHigh⟩ := hFloor value
        generalize (value + half) / (2 * half) = code at *
        apply roundsTo_div K hHalf
        · exact abs_le.mpr ⟨by linarith, by linarith⟩
        · intro hTie
          have hCode : code * (2 * half) - value = half := by
            rcases abs_choice (value - code * (2 * half)) with hAbs | hAbs <;>
              rw [hAbs] at hTie <;> linarith
          have hPos : 0 ≤ code * (2 * half) := by linarith
          rw [abs_of_nonneg (not_lt.mp hSign),
            abs_of_nonneg (nonneg_of_mul_nonneg_left hPos (by omega))]
          linarith

end Rounding

end FixedPoint
