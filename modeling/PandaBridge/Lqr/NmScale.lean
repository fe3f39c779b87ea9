import PandaBridge.Lqr.CondInput
import PandaBridge.Lqr.Quantise

/-! The scale constant of the conversion to nanometres. Its width leaves room for the sign of
every constant but a power of two, whose only bit becomes the sign. -/
namespace Lqr

open FixedPoint Clocked

/-- The constant as the multiplier sees it. -/
def scaleOperand (pvScale : Nat) : Int := (BitVec.ofNat (pvScaleLen pvScale) pvScale).toInt

theorem scaleOperand_eq {pvScale : Nat} (hPower : ¬∃ k, pvScale = 2 ^ k) :
    scaleOperand pvScale = pvScale := by
  have hLess : pvScale < 2 ^ ceilLog2 pvScale :=
    lt_of_le_of_ne (le_two_pow_ceilLog2 pvScale) fun hSame => hPower ⟨_, hSame⟩
  have hCast : (pvScale : Int) < 2 ^ ceilLog2 pvScale := by exact_mod_cast hLess
  rw [scaleOperand, ← BitVec.ofInt_natCast]
  refine toInt_ofInt ⟨?_, ?_⟩ (Nat.succ_pos _)
  · have : (0 : Int) < 2 ^ (pvScaleLen pvScale - 1) := by positivity
    omega
  · exact hCast

theorem scaleOperand_two_pow (k : Nat) : scaleOperand (2 ^ k) = -(2 ^ k : Nat) := by
  have hLen : pvScaleLen (2 ^ k) = k + 1 := by rw [pvScaleLen, ceilLog2_two_pow]
  have hMin : BitVec.ofNat (k + 1) (2 ^ k) = minS (k + 1) := rfl
  rw [scaleOperand, hLen, hMin, toInt_minS (Nat.succ_pos k), Nat.succ_sub_one]
  push_cast
  rfl

theorem toInt_nmProduct {cW : Nat} (hWidth : 0 < cW) (pvScale : Nat) (c : BitVec cW) :
    (nmProduct pvScale c).toInt = c.toInt * scaleOperand pvScale := by
  have hCount := abs_toInt_le c
  have hScale := abs_toInt_le (BitVec.ofNat (pvScaleLen pvScale) pvScale)
  have hProduct : |c.toInt * scaleOperand pvScale| ≤ 2 ^ (cW - 1) * 2 ^ (pvScaleLen pvScale - 1) := by
    rw [abs_mul]
    exact mul_le_mul hCount hScale (abs_nonneg _) (by positivity)
  have hLess : (2 : Int) ^ (cW - 1) * 2 ^ (pvScaleLen pvScale - 1) <
      2 ^ (cW + pvScaleLen pvScale - 1) := by
    rw [← pow_add]
    exact pow_lt_pow_right₀ (by decide) (by unfold pvScaleLen; omega)
  obtain ⟨hLow, hHigh⟩ := abs_le.mp hProduct
  exact toInt_ofInt ⟨by unfold scaleOperand at *; omega, by unfold scaleOperand at *; omega⟩
    (by omega)

theorem toInt_toNm {cW : Nat} (hWidth : 0 < cW) {pvScale : Nat}
    (hRound : nmFracDiff ≤ cW + pvScaleLen pvScale) (c : BitVec cW) :
    (toNm pvScale c).toInt =
      clamp laneAW (nearestQuot (c.toInt * scaleOperand pvScale) nmFracDiff) := by
  rw [toNm, toInt_requantise _ hRound (by decide), toInt_nmProduct hWidth]

/-- The value in nanometres, to the nearest code of the lane. -/
def nanometres (pvScale : Nat) (count : Int) : Int :=
  clamp laneAW (rounded .away ((count * pvScale : ℚ) / 2 ^ nmFracDiff))

theorem nanometres_eq (pvScale : Nat) (count : Int) :
    nanometres pvScale count = clamp laneAW (nearestQuot (count * pvScale) nmFracDiff) := by
  have hRounds := roundsTo_nearestQuot ℚ (count * pvScale) nmFracDiff
  rw [nanometres, ← hRounds.rounded_eq]
  push_cast
  rfl

/-- The constant is not a power of two, or the count is too small to show. -/
def ScaleFits (pvScale : Nat) (count : Int) : Prop :=
  (¬∃ k, pvScale = 2 ^ k) ∨ |count * pvScale| < 2 ^ (nmFracDiff - 1)

theorem toNm_eq_iff {cW : Nat} (hWidth : 0 < cW) {pvScale : Nat}
    (hRound : nmFracDiff ≤ cW + pvScaleLen pvScale) (c : BitVec cW) :
    (toNm pvScale c).toInt = nanometres pvScale c.toInt ↔ ScaleFits pvScale c.toInt := by
  rw [toInt_toNm hWidth hRound, nanometres_eq, ScaleFits]
  by_cases hPower : ∃ k, pvScale = 2 ^ k
  · obtain ⟨k, rfl⟩ := hPower
    have hSome : ¬¬∃ other, 2 ^ k = 2 ^ other := not_not_intro ⟨k, rfl⟩
    rw [scaleOperand_two_pow, mul_neg, nearestQuot_neg, clamp_neg_eq_iff (by decide),
      nearestQuot_eq_zero_iff, or_iff_right hSome]
    exact Iff.rfl
  · rw [scaleOperand_eq hPower]
    exact ⟨fun _ => .inl hPower, fun _ => rfl⟩

/-- `to_nm` with the widths that elaborate: `FULL_LEN` is a natural number, and a null vector is
saturated to zero. -/
def toNm? {cW : Nat} (pvScale : Nat) (c : BitVec cW) : Option (BitVec laneAW) :=
  if cW + pvScaleLen pvScale + 1 < nmFracDiff then none
  else if cW + pvScaleLen pvScale + 1 = nmFracDiff then some 0
  else some (toNm pvScale c)

/-- Vectors too short to be rounded hold less than half a unit. -/
theorem scaleFits_of_short {cW : Nat} (hWidth : 0 < cW) {pvScale : Nat}
    (hShort : cW + pvScaleLen pvScale < nmFracDiff) (c : BitVec cW) :
    |c.toInt * pvScale| < 2 ^ (nmFracDiff - 1) := by
  have hScale : (pvScale : Int) ≤ 2 ^ ceilLog2 pvScale := by
    exact_mod_cast le_two_pow_ceilLog2 pvScale
  have hProduct : |c.toInt * pvScale| ≤ 2 ^ (cW - 1) * 2 ^ ceilLog2 pvScale := by
    rw [abs_mul, Nat.abs_cast]
    exact mul_le_mul (abs_toInt_le c) hScale (Int.natCast_nonneg _) (by positivity)
  have hLess : (2 : Int) ^ (cW - 1) * 2 ^ ceilLog2 pvScale < 2 ^ (nmFracDiff - 1) := by
    rw [← pow_add]
    exact pow_lt_pow_right₀ (by decide) (by unfold pvScaleLen at hShort; omega)
  exact lt_of_le_of_lt hProduct hLess

/-- The conversion is exact for every constant but the powers of two, whose sign is lost: there
it is right only where the result is zero. -/
theorem nm_exact_iff {cW pvScale : Nat} (hWidth : 0 < cW) (c : BitVec cW) :
    ((∀ nm ∈ toNm? pvScale c, nm.toInt = nanometres pvScale c.toInt) ↔
        ScaleFits pvScale c.toInt) ∧
      (nmFracDiff ≤ cW + pvScaleLen pvScale →
        ∀ (run : Run (@NmConversion.step cW pvScale)) (clock : Nat), run.input clock = c →
          ((run.state (clock + 3)).nm.toInt = nanometres pvScale c.toInt ↔
            ScaleFits pvScale c.toInt)) := by
  constructor
  · rcases Nat.lt_or_ge (cW + pvScaleLen pvScale) nmFracDiff with hShort | hRound
    · have hSmall := scaleFits_of_short hWidth hShort c
      refine ⟨fun _ => .inr hSmall, fun _ nm hNm => ?_⟩
      have hZero : nearestQuot (c.toInt * pvScale) nmFracDiff = 0 :=
        (nearestQuot_eq_zero_iff _ _).mpr hSmall
      rw [nanometres_eq, hZero]
      unfold toNm? at hNm
      split_ifs at hNm
      · cases hNm
      · obtain rfl := Option.some.inj hNm
        decide
      · omega
    · have hElaborates : toNm? pvScale c = some (toNm pvScale c) := by
        rw [toNm?, if_neg (by omega), if_neg (by omega)]
      rw [hElaborates, ← toNm_eq_iff hWidth hRound c]
      exact ⟨fun hAll => hAll _ rfl, fun hSame nm hNm => Option.some.inj hNm ▸ hSame⟩
  · intro hRound run clock hInput
    rw [NmConversion.nm_latency, hInput]
    exact toNm_eq_iff hWidth hRound c

/-- The scale 0.256 is not a power of two: 1000 counts are 256 nanometres. -/
theorem nm_exact_interferometer :
    (∀ nm ∈ toNm? 8389 (1000 : BitVec 32), nm.toInt = nanometres 8389 1000) ∧
      ScaleFits 8389 1000 := by
  have hFits : ScaleFits 8389 1000 := by
    refine .inl fun ⟨k, hPower⟩ => ?_
    have hLow : 13 < k := (Nat.pow_lt_pow_iff_right Nat.one_lt_two).mp (by omega)
    have hHigh : k < 14 := (Nat.pow_lt_pow_iff_right Nat.one_lt_two).mp (by omega)
    omega
  exact ⟨((nm_exact_iff (by decide) (1000 : BitVec 32)).1.mpr hFits), hFits⟩

/-- With a scale of 0.25 four counts become minus one nanometre. -/
theorem scale_sign_lost :
    (toNm 8192 (4 : BitVec 32)).toInt = -1024 ∧ nanometres 8192 4 = 1024 ∧
      ∃ nm ∈ toNm? 8192 (4 : BitVec 32), nm.toInt ≠ nanometres 8192 4 := by
  have hMinus : (toNm 8192 (4 : BitVec 32)).toInt = -1024 := by decide
  have hPlus : nanometres 8192 4 = 1024 := by
    rw [nanometres_eq]
    decide
  refine ⟨hMinus, hPlus, _, rfl, ?_⟩
  rw [hMinus, hPlus]
  decide

end Lqr
