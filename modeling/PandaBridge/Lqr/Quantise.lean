import Mathlib.Data.Rat.Floor
import PandaBridge.FixedPoint.Rounding
import PandaBridge.Lqr.FpUtils

/-! The two quantisers of the gains and signals: `requantise` of `fp_utils.vhd` rounds in
a vector with a guard bit and then saturates, `quantise_scaled` of `quantise.hpp` clamps
first and then rounds, here over exact rationals. Both give the same code. -/
namespace Lqr

open FixedPoint

/-- The rule of a rounding mode for values halfway between two codes. -/
def RoundMode.rule : RoundMode → TieRule
  | .halfAway => .away
  | .halfEven => .even

/-! ## The software -/

/-- `QFormat`: a width with the sign, and the bits below the point, which may be negative. -/
structure QFormat where
  width : Nat
  frac : Int

namespace QFormat

def maxCode (q : QFormat) : Int := 2 ^ (q.width - 1) - 1

def minCode (q : QFormat) : Int := -2 ^ (q.width - 1)

theorem minCode_le_maxCode (q : QFormat) : q.minCode ≤ q.maxCode := by
  have hOne : (1 : Int) ≤ 2 ^ (q.width - 1) := one_le_pow₀ (by decide)
  unfold minCode maxCode
  omega

end QFormat

/-- `trunc`, `copysign` and `nearbyint` of the C library on numbers that are not NaN; the
rounding direction of the last is the default one. -/
def trunc (value : ℚ) : Int := if value < 0 then ⌈value⌉ else ⌊value⌋

def copysign (magnitude sign : ℚ) : ℚ := if sign < 0 then -|magnitude| else |magnitude|

def nearbyint (value : ℚ) : Int :=
  if Int.fract value < 1 / 2 then ⌊value⌋
  else if 1 / 2 < Int.fract value then ⌊value⌋ + 1
  else if ⌊value⌋ % 2 = 0 then ⌊value⌋ else ⌊value⌋ + 1

def quantiseScaled (mode : RoundMode) (scaled low high : ℚ) : Int :=
  let clamped := min (max scaled low) high
  match mode with
  | .halfAway => trunc (clamped + copysign (1 / 2) clamped)
  | .halfEven => nearbyint clamped

theorem trunc_copysign (value : ℚ) :
    trunc (value + copysign (1 / 2) value) = rounded .away value := by
  have hHalf : |(1 / 2 : ℚ)| = 1 / 2 := abs_of_pos (by norm_num)
  simp only [copysign, rounded, hHalf]
  split_ifs with hSign
  · rw [trunc, if_pos (by linarith), sub_eq_add_neg]
  · rw [trunc, if_neg (by linarith)]

theorem nearbyint_eq_rounded (value : ℚ) : nearbyint value = rounded .even value := by
  simp only [nearbyint, rounded, Int.even_iff]
  rcases lt_trichotomy (Int.fract value) (1 / 2) with hLess | hTie | hMore
  · rw [if_pos hLess, if_pos (.inl hLess)]
  · rw [if_neg hTie.not_lt, if_neg hTie.not_gt]
    by_cases hEven : ⌊value⌋ % 2 = 0
    · rw [if_pos hEven, if_pos (.inr ⟨hTie, hEven⟩)]
    · rw [if_neg hEven, if_neg (not_or.mpr ⟨hTie.not_lt, fun h => hEven h.2⟩)]
  · rw [if_neg hMore.not_gt, if_pos hMore,
      if_neg (not_or.mpr ⟨hMore.not_gt, fun h => hMore.ne' h.1⟩)]

/-- Clamping first and then rounding gives the clamped nearest code. -/
theorem quantiseScaled_eq (mode : RoundMode) (scaled : ℚ) {low high : Int} (hBounds : low ≤ high) :
    quantiseScaled mode scaled low high = min (max (rounded mode.rule scaled) low) high := by
  have hClamped := (roundsTo_rounded mode.rule scaled).clamped hBounds
  rw [← hClamped.rounded_eq]
  cases mode with
  | halfAway => exact trunc_copysign _
  | halfEven => exact nearbyint_eq_rounded _

/-! ## The hardware -/

section Hardware

variable {width : Nat} (value : BitVec width) (fracDiff : Nat)

/-- `v_bias` of `round_half_away`. -/
def awayBias : BitVec (width + 1) :=
  if value.msb then (1#(width + 1) <<< (fracDiff - 1)) - 1 else 1#(width + 1) <<< (fracDiff - 1)

/-- `v_floor` and `v_inc` of `round_half_even`. -/
def evenFloor : BitVec (width + 1) := resize (width + 1) (value.sshiftRight fracDiff)

def evenInc : BitVec (width + 1) :=
  let drop : BitVec fracDiff := value.setWidth fracDiff
  let half : BitVec fracDiff := BitVec.ofNat fracDiff 1 <<< (fracDiff - 1)
  if half.toNat < drop.toNat then 1
  else if drop = half then if (evenFloor value fracDiff).getLsbD 0 then 1 else 0
  else 0

/-- The variables of both rounding functions hold what an unbounded integer would, and
so does the result in the `FULL_LEN` bits that `requantise` asks for. -/
structure RoundingExact : Prop where
  ext : (resize (width + 1) value : BitVec (width + 1)).toInt = value.toInt
  bias : 0 < fracDiff →
    (awayBias value fracDiff).toInt = 2 ^ (fracDiff - 1) - if value.toInt < 0 then 1 else 0
  biased : 0 < fracDiff → (resize (width + 1) value + awayBias value fracDiff).toInt =
    value.toInt + (awayBias value fracDiff).toInt
  away : (roundHalfAway value fracDiff (width - fracDiff + 1)).toInt =
    if fracDiff = 0 then value.toInt
    else (value.toInt + (awayBias value fracDiff).toInt) / 2 ^ fracDiff
  floor : (evenFloor value fracDiff).toInt = value.toInt / 2 ^ fracDiff
  inc : 0 < fracDiff → (evenInc value fracDiff).toInt = 0 ∨ (evenInc value fracDiff).toInt = 1
  incremented : 0 < fracDiff → (evenFloor value fracDiff + evenInc value fracDiff).toInt =
    (evenFloor value fracDiff).toInt + (evenInc value fracDiff).toInt
  even : (roundHalfEven value fracDiff (width - fracDiff + 1)).toInt =
    if fracDiff = 0 then value.toInt
    else value.toInt / 2 ^ fracDiff + (evenInc value fracDiff).toInt

variable {value fracDiff}

theorem roundHalfEven_eq (hFrac : 0 < fracDiff) (outLen : Nat) :
    roundHalfEven value fracDiff outLen =
      resize outLen (evenFloor value fracDiff + evenInc value fracDiff) :=
  if_neg hFrac.ne'

theorem toInt_awayBias (hFrac : 0 < fracDiff) (hWidth : fracDiff ≤ width) :
    (awayBias value fracDiff).toInt = 2 ^ (fracDiff - 1) - if value.toInt < 0 then 1 else 0 := by
  rw [awayBias, bias_eq_ofInt]
  apply toInt_ofInt _ (by omega)
  have hSmall : (2 : Int) ^ (fracDiff - 1) < 2 ^ width := pow_lt_pow_right₀ (by decide) (by omega)
  have hOne : (1 : Int) ≤ 2 ^ (fracDiff - 1) := one_le_pow₀ (by decide)
  rw [InRange, Nat.add_sub_cancel]
  split_ifs <;> omega

theorem toInt_evenFloor (value : BitVec width) (fracDiff : Nat) :
    (evenFloor value fracDiff).toInt = value.toInt / 2 ^ fracDiff := by
  rw [evenFloor, toInt_resize ((inRange_toInt _).mono (by omega)) (by omega),
    BitVec.toInt_sshiftRight, Int.shiftRight_eq_div_pow]
  push_cast
  rfl

theorem toNat_drop (value : BitVec width) (hWidth : fracDiff ≤ width) :
    ((value.setWidth fracDiff).toNat : Int) = value.toInt % 2 ^ fracDiff := by
  have hSplit : (2 : Int) ^ width = 2 ^ fracDiff * 2 ^ (width - fracDiff) := by
    rw [← pow_add, Nat.add_sub_cancel' hWidth]
  rw [BitVec.toNat_setWidth, BitVec.toInt_eq_msb_cond]
  push_cast
  split_ifs
  · rw [hSplit, Int.sub_mul_emod_self_left]
  · rfl

theorem toNat_half (hFrac : 0 < fracDiff) :
    (BitVec.ofNat fracDiff 1 <<< (fracDiff - 1)).toNat = 2 ^ (fracDiff - 1) := by
  have hOne : 1 < 2 ^ fracDiff := Nat.one_lt_two_pow hFrac.ne'
  have hHalf : 2 ^ (fracDiff - 1) < 2 ^ fracDiff := Nat.pow_lt_pow_right (by decide) (by omega)
  rw [BitVec.toNat_shiftLeft, BitVec.toNat_ofNat, Nat.mod_eq_of_lt hOne, Nat.one_shiftLeft,
    Nat.mod_eq_of_lt hHalf]

theorem getLsbD_zero_iff {width : Nat} (value : BitVec (width + 1)) :
    value.getLsbD 0 = true ↔ value.toInt % 2 = 1 := by
  have hParity : value.toInt % 2 = value.toNat % 2 := by
    rw [BitVec.toInt_eq_msb_cond]
    split_ifs
    · rw [pow_succ']
      push_cast
      rw [Int.sub_mul_emod_self_left]
    · rfl
  rw [hParity, BitVec.getLsbD, Nat.testBit_zero, decide_eq_true_eq]
  omega

/-- The increment: the remainder is over half, or half above an odd quotient. -/
theorem toInt_evenInc (hFrac : 0 < fracDiff) (hWidth : fracDiff ≤ width) :
    (evenInc value fracDiff).toInt =
      if 2 ^ (fracDiff - 1) < value.toInt % 2 ^ fracDiff ∨
          value.toInt % 2 ^ fracDiff = 2 ^ (fracDiff - 1) ∧ value.toInt / 2 ^ fracDiff % 2 = 1
      then 1 else 0 := by
  have hOne : (1#(width + 1)).toInt = 1 := by
    refine @toInt_ofInt (width + 1) 1 ?_ (by omega)
    have hPow : (1 : Int) < 2 ^ width := one_lt_pow₀ (by decide) (by omega)
    rw [InRange, Nat.add_sub_cancel]
    omega
  have hDrop := toNat_drop value hWidth
  have hHalf := toNat_half hFrac
  have hOdd := getLsbD_zero_iff (evenFloor value fracDiff)
  rw [toInt_evenFloor] at hOdd
  have hOver : (BitVec.ofNat fracDiff 1 <<< (fracDiff - 1)).toNat <
        (value.setWidth fracDiff).toNat ↔
      2 ^ (fracDiff - 1) < value.toInt % 2 ^ fracDiff := by
    rw [hHalf, ← hDrop]
    exact_mod_cast Iff.rfl
  have hTie : value.setWidth fracDiff = BitVec.ofNat fracDiff 1 <<< (fracDiff - 1) ↔
      value.toInt % 2 ^ fracDiff = 2 ^ (fracDiff - 1) := by
    rw [← BitVec.toNat_inj, hHalf, ← hDrop]
    exact_mod_cast Iff.rfl
  simp only [evenInc, hOver, hTie, hOdd]
  split_ifs <;> first | exact hOne | exact BitVec.toInt_zero | exfalso; tauto

theorem evenInc_cases (value : BitVec width) (hFrac : 0 < fracDiff) (hWidth : fracDiff ≤ width) :
    (evenInc value fracDiff).toInt = 0 ∨ (evenInc value fracDiff).toInt = 1 := by
  rw [toInt_evenInc hFrac hWidth]
  split_ifs
  · exact .inr rfl
  · exact .inl rfl

theorem toInt_incremented (value : BitVec width) (hFrac : 0 < fracDiff) (hWidth : fracDiff ≤ width) :
    (evenFloor value fracDiff + evenInc value fracDiff).toInt =
      (evenFloor value fracDiff).toInt + (evenInc value fracDiff).toInt := by
  have hFloor : InRange width (evenFloor value fracDiff).toInt := by
    rw [evenFloor, toInt_resize ((inRange_toInt _).mono (by omega)) (by omega)]
    exact inRange_toInt _
  have hTop : (2 : Int) ^ width = 2 * 2 ^ (width - 1) := by
    rw [← pow_succ', Nat.sub_add_cancel (by omega)]
  have hOne : (1 : Int) ≤ 2 ^ (width - 1) := one_le_pow₀ (by decide)
  have hInc := evenInc_cases value hFrac hWidth
  generalize evenFloor value fracDiff = floor at *
  generalize evenInc value fracDiff = inc at *
  rw [← BitVec.ofInt_toInt (x := floor), ← BitVec.ofInt_toInt (x := inc), ← BitVec.ofInt_add,
    BitVec.ofInt_toInt, BitVec.ofInt_toInt]
  apply toInt_ofInt _ (by omega)
  rw [InRange] at hFloor ⊢
  rw [Nat.add_sub_cancel]
  omega

/-- The quotient to the nearest even code, in integers: the remainder against half the
divisor. -/
theorem evenQuot_bounds (value : BitVec width) (hFrac : 0 < fracDiff) (hWidth : fracDiff ≤ width) :
    let code := value.toInt / 2 ^ fracDiff + (evenInc value fracDiff).toInt
    |value.toInt - code * (2 * 2 ^ (fracDiff - 1))| ≤ 2 ^ (fracDiff - 1) ∧
      (|value.toInt - code * (2 * 2 ^ (fracDiff - 1))| = 2 ^ (fracDiff - 1) → Even code) := by
  have hTwice : (2 : Int) ^ fracDiff = 2 * 2 ^ (fracDiff - 1) := by
    rw [← pow_succ', Nat.sub_add_cancel hFrac]
  have hHalf : (0 : Int) < 2 ^ (fracDiff - 1) := by positivity
  have hMod := Int.emod_add_mul_ediv value.toInt (2 ^ fracDiff)
  have hLow := Int.emod_nonneg value.toInt (show (2 : Int) ^ fracDiff ≠ 0 by omega)
  have hHigh := Int.emod_lt_of_pos value.toInt (show (0 : Int) < 2 ^ fracDiff by omega)
  rw [toInt_evenInc hFrac hWidth]
  dsimp only
  rw [hTwice] at hMod hLow hHigh ⊢
  generalize value.toInt / (2 * 2 ^ (fracDiff - 1)) = quotient at *
  generalize value.toInt % (2 * 2 ^ (fracDiff - 1)) = rest at *
  generalize (2 : Int) ^ (fracDiff - 1) = half at *
  split_ifs with hUp
  · have hDistance : value.toInt - (quotient + 1) * (2 * half) = -(2 * half - rest) := by
      linarith
    rw [hDistance, abs_neg, abs_of_nonneg (by omega)]
    refine ⟨by omega, fun hTie => ?_⟩
    rw [Int.even_iff]
    omega
  · have hDistance : value.toInt - (quotient + 0) * (2 * half) = rest := by linarith
    rw [hDistance, abs_of_nonneg hLow]
    refine ⟨by omega, fun hTie => ?_⟩
    rw [Int.even_iff]
    omega

theorem toInt_roundHalfEven (value : BitVec width) (hWidth : fracDiff ≤ width) :
    (roundHalfEven value fracDiff (width - fracDiff + 1)).toInt =
      if fracDiff = 0 then value.toInt
      else value.toInt / 2 ^ fracDiff + (evenInc value fracDiff).toInt := by
  split_ifs with hZero
  · rw [roundHalfEven, if_pos hZero]
    exact toInt_resize ((inRange_toInt value).mono (by omega)) (by omega)
  · have hFrac : 0 < fracDiff := Nat.pos_of_ne_zero hZero
    have hSum := toInt_incremented value hFrac hWidth
    rw [toInt_evenFloor] at hSum
    rw [roundHalfEven_eq hFrac, toInt_resize _ (by omega), hSum]
    rw [hSum, InRange, Nat.add_sub_cancel]
    obtain ⟨hLow, hHigh⟩ := abs_le.mp (evenQuot_bounds value hFrac hWidth).1
    generalize value.toInt / 2 ^ fracDiff + (evenInc value fracDiff).toInt = code at *
    have hTwice : (2 : Int) ^ fracDiff = 2 * 2 ^ (fracDiff - 1) := by
      rw [← pow_succ', Nat.sub_add_cancel hFrac]
    have hSplit : (2 : Int) ^ width = 2 ^ (width - fracDiff) * 2 ^ fracDiff := by
      rw [← pow_add, Nat.sub_add_cancel hWidth]
    have hTop : (2 : Int) ^ width = 2 * 2 ^ (width - 1) := by
      rw [← pow_succ', Nat.sub_add_cancel (by omega)]
    have hSmall : (2 : Int) ^ (fracDiff - 1) ≤ 2 ^ (width - 1) :=
      pow_le_pow_right₀ (by decide) (by omega)
    have hPos : (0 : Int) < 2 ^ fracDiff := by positivity
    obtain ⟨hFrom, hTo⟩ := inRange_toInt value
    rw [← hTwice] at hLow hHigh
    constructor
    · apply le_of_mul_le_mul_right _ hPos
      linarith
    · apply lt_of_mul_lt_mul_right _ hPos.le
      linarith

theorem roundingExact (value : BitVec width) (hWidth : fracDiff ≤ width) :
    RoundingExact value fracDiff where
  ext := toInt_resize ((inRange_toInt value).mono (by omega)) (by omega)
  bias hFrac := toInt_awayBias hFrac hWidth
  biased hFrac := by
    rw [toInt_awayBias hFrac hWidth]
    exact toInt_biased value (fracDiff - 1) (by omega)
  away := by
    rw [toInt_roundHalfAway value hWidth]
    split_ifs with hZero
    · rw [hZero]
      rfl
    · obtain ⟨frac, rfl⟩ := Nat.exists_eq_succ_of_ne_zero hZero
      rw [toInt_awayBias frac.succ_pos hWidth]
      exact nearestQuot_eq_div _ _
  floor := toInt_evenFloor value fracDiff
  inc hFrac := evenInc_cases value hFrac hWidth
  incremented hFrac := toInt_incremented value hFrac hWidth
  even := toInt_roundHalfEven value hWidth

theorem roundsTo_roundHalfAway (value : BitVec width) (hWidth : fracDiff ≤ width) :
    RoundsTo .away ((value.toInt : ℚ) / 2 ^ fracDiff)
      (roundHalfAway value fracDiff (width - fracDiff + 1)).toInt := by
  rw [toInt_roundHalfAway value hWidth]
  exact roundsTo_nearestQuot ℚ value.toInt fracDiff

theorem roundsTo_roundHalfEven (value : BitVec width) (hWidth : fracDiff ≤ width) :
    RoundsTo .even ((value.toInt : ℚ) / 2 ^ fracDiff)
      (roundHalfEven value fracDiff (width - fracDiff + 1)).toInt := by
  rw [toInt_roundHalfEven value hWidth]
  split_ifs with hZero
  · rw [hZero, pow_zero, div_one]
    exact roundsTo_intCast _ _
  · have hFrac : 0 < fracDiff := Nat.pos_of_ne_zero hZero
    obtain ⟨hNear, hTie⟩ := evenQuot_bounds value hFrac hWidth
    have hCast : (2 : ℚ) ^ fracDiff = 2 * ((2 ^ (fracDiff - 1) : Int) : ℚ) := by
      push_cast
      rw [← pow_succ', Nat.sub_add_cancel hFrac]
    rw [hCast]
    exact roundsTo_div ℚ (by positivity) hNear hTie

theorem clamp_eq (outLen : Nat) (code : Int) :
    clamp outLen code = min (max code (-2 ^ (outLen - 1))) (2 ^ (outLen - 1) - 1) := by
  have hPos : (0 : Int) < 2 ^ (outLen - 1) := by positivity
  unfold clamp
  split_ifs <;> omega

theorem toInt_requantise_rounded (value : BitVec width) {outLen : Nat} (mode : RoundMode)
    (hWidth : fracDiff ≤ width) (hPos : 0 < outLen) :
    (requantise value fracDiff outLen mode).toInt =
      clamp outLen (rounded mode.rule ((value.toInt : ℚ) / 2 ^ fracDiff)) := by
  unfold requantise
  rw [toInt_saturate _ hPos]
  cases mode with
  | halfAway => rw [RoundMode.rule, (roundsTo_roundHalfAway value hWidth).rounded_eq]
  | halfEven => rw [RoundMode.rule, (roundsTo_roundHalfEven value hWidth).rounded_eq]

end Hardware

/-- The hardware gives the clamped nearest code without a wrap on the way, and the software
gives the same code for the same value. -/
theorem requantise_eq_quantise {width : Nat} (value : BitVec width) {fracDiff outLen : Nat}
    (mode : RoundMode) (hWidth : fracDiff ≤ width) (hPos : 0 < outLen) :
    (requantise value fracDiff outLen mode).toInt =
        clamp outLen (rounded mode.rule ((value.toInt : ℚ) / 2 ^ fracDiff)) ∧
      RoundingExact value fracDiff ∧
      ∀ q : QFormat, q.width = outLen →
        quantiseScaled mode ((value.toInt : ℚ) / 2 ^ fracDiff) q.minCode q.maxCode =
          (requantise value fracDiff outLen mode).toInt := by
  have hHardware := toInt_requantise_rounded value mode hWidth hPos
  refine ⟨hHardware, roundingExact value hWidth, ?_⟩
  rintro q rfl
  rw [quantiseScaled_eq mode _ q.minCode_le_maxCode, hHardware, clamp_eq]
  rfl

/-- At the most negative input of eight bits, all of them dropped, the modes part. -/
theorem requantise_eq_quantise_all_dropped :
    (requantise (-128#8) 8 4 .halfAway).toInt = -1 ∧
      (requantise (-128#8) 8 4 .halfEven).toInt = 0 ∧
      quantiseScaled .halfAway (((-128#8).toInt : ℚ) / 2 ^ 8) (-8) 7 = -1 := by
  obtain ⟨-, -, hSoftware⟩ :=
    @requantise_eq_quantise 8 (-128#8) 8 4 .halfAway (Nat.le_refl 8) (by decide)
  have hAway : (requantise (-128#8) 8 4 .halfAway).toInt = -1 := by decide
  refine ⟨hAway, by decide, ?_⟩
  have hSame := hSoftware ⟨4, 0⟩ rfl
  rw [hAway] at hSame
  exact_mod_cast hSame

end Lqr
