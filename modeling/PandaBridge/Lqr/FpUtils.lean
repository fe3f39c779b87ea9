import PandaBridge.FixedPoint.Signed

/-! The rounding and scaling primitives of `fp_utils.vhd` over vectors of any
width. A `signed` of VHDL is a bit vector read by `toInt`. -/
namespace Lqr

open FixedPoint

/-- `resize` of `numeric_std` for signed vectors: a wider result repeats the sign,
a narrower one keeps the sign bit and the low bits. -/
def resize {width : Nat} (outLen : Nat) (value : BitVec width) : BitVec outLen :=
  if width ≤ outLen then value.signExtend outLen
  else BitVec.ofNat outLen
    ((if value.msb then 2 ^ (outLen - 1) else 0) + value.toNat % 2 ^ (outLen - 1))

/-- The largest and the smallest signed value of a width. -/
def maxS (width : Nat) : BitVec width := BitVec.ofNat width (2 ^ (width - 1) - 1)

def minS (width : Nat) : BitVec width := BitVec.ofNat width (2 ^ (width - 1))

inductive RoundMode
  | halfAway
  | halfEven

def roundHalfAway {width : Nat} (value : BitVec width) (fracDiff outLen : Nat) : BitVec outLen :=
  if fracDiff = 0 then resize outLen value
  else
    let ext : BitVec (width + 1) := resize (width + 1) value
    let half : BitVec (width + 1) := 1#(width + 1) <<< (fracDiff - 1)
    let bias := if value.msb then half - 1 else half
    resize outLen ((ext + bias).sshiftRight fracDiff)

def roundHalfEven {width : Nat} (value : BitVec width) (fracDiff outLen : Nat) : BitVec outLen :=
  if fracDiff = 0 then resize outLen value
  else
    let floor : BitVec (width + 1) := resize (width + 1) (value.sshiftRight fracDiff)
    let drop : BitVec fracDiff := value.setWidth fracDiff
    let half : BitVec fracDiff := BitVec.ofNat fracDiff 1 <<< (fracDiff - 1)
    let inc : BitVec (width + 1) :=
      if half.toNat < drop.toNat then 1
      else if drop = half then if floor.getLsbD 0 then 1 else 0
      else 0
    resize outLen (floor + inc)

def saturate {width : Nat} (value : BitVec width) (outLen : Nat) : BitVec outLen :=
  if (maxS outLen).toInt < value.toInt then maxS outLen
  else if value.toInt < (minS outLen).toInt then minS outLen
  else resize outLen value

/-- Round to a width with a guard bit for the carry, then saturate. -/
def requantise {width : Nat} (value : BitVec width) (fracDiff outLen : Nat) (mode : RoundMode) :
    BitVec outLen :=
  let fullLen := width - fracDiff + 1
  let rounded : BitVec fullLen := match mode with
    | .halfAway => roundHalfAway value fracDiff fullLen
    | .halfEven => roundHalfEven value fracDiff fullLen
  saturate rounded outLen

variable {width outLen fracDiff : Nat} {value : BitVec width}

/-- The low bits of a negative value that fits, under its sign bit. -/
private theorem narrow_negative (hFits : InRange outLen value.toInt) (hPos : 0 < outLen)
    (hNarrow : outLen < width) (hNegative : value.msb = true) :
    ((2 ^ (outLen - 1) + value.toNat % 2 ^ (outLen - 1) : Nat) : Int) =
      value.toInt + 2 ^ outLen := by
  obtain ⟨less, rfl⟩ : ∃ less, outLen = less + 1 := ⟨outLen - 1, by omega⟩
  obtain ⟨more, rfl⟩ : ∃ more, width = less + more := ⟨width - less, by omega⟩
  simp only [InRange, Nat.add_sub_cancel] at hFits ⊢
  have hSign : value.toInt < 0 := by
    rw [BitVec.msb_eq_toInt, decide_eq_true_eq] at hNegative
    exact hNegative
  have hNat : (value.toNat : Int) = value.toInt + 2 ^ less * 2 ^ more := by
    rw [BitVec.toInt_eq_msb_cond, if_pos hNegative]
    push_cast
    ring
  have hMod : (value.toNat : Int) % 2 ^ less = value.toInt + 2 ^ less := by
    rw [hNat, Int.add_mul_emod_self_left, ← Int.add_emod_right]
    exact Int.emod_eq_of_lt (by omega) (by omega)
  push_cast
  rw [hMod]
  ring

theorem toInt_resize (hFits : InRange outLen value.toInt) (hPos : 0 < outLen) :
    (resize outLen value).toInt = value.toInt := by
  unfold resize
  by_cases hWider : width ≤ outLen
  · rw [if_pos hWider]
    exact BitVec.toInt_signExtend_of_le hWider
  · rw [if_neg hWider, ← BitVec.ofInt_natCast]
    cases hNegative : value.msb with
    | true =>
        rw [if_pos rfl, narrow_negative hFits hPos (by omega) hNegative]
        have hWrap := ofInt_add_mul_two_pow outLen value.toInt 1
        rw [one_mul] at hWrap
        rw [hWrap, toInt_ofInt hFits hPos]
    | false =>
        have hNat : value.toInt = value.toNat := by
          rw [BitVec.toInt_eq_msb_cond, hNegative]
          rfl
        have hSmall : value.toNat < 2 ^ (outLen - 1) := by
          have hHigh := hFits.2
          rw [hNat] at hHigh
          exact_mod_cast hHigh
        rw [if_neg Bool.false_ne_true, Nat.zero_add, Nat.mod_eq_of_lt hSmall, ← hNat,
          toInt_ofInt hFits hPos]

theorem toInt_maxS (hPos : 0 < width) : (maxS width).toInt = 2 ^ (width - 1) - 1 := by
  have hOne : (1 : Int) ≤ 2 ^ (width - 1) := one_le_pow₀ (by decide)
  have hCast : ((2 ^ (width - 1) - 1 : Nat) : Int) = 2 ^ (width - 1) - 1 := by
    rw [Nat.cast_sub Nat.one_le_two_pow]
    push_cast
    rfl
  rw [maxS, ← BitVec.ofInt_natCast, hCast]
  exact toInt_ofInt ⟨by omega, by omega⟩ hPos

theorem toInt_minS (hPos : 0 < width) : (minS width).toInt = -2 ^ (width - 1) := by
  have hMin : minS width = BitVec.intMin width := by
    apply BitVec.eq_of_toNat_eq
    rw [minS, BitVec.toNat_ofNat, BitVec.toNat_intMin]
  rw [hMin, BitVec.toInt_intMin_of_pos hPos]

theorem toInt_saturate (value : BitVec width) (hPos : 0 < outLen) :
    (saturate value outLen).toInt = clamp outLen value.toInt := by
  unfold saturate clamp
  rw [toInt_maxS hPos, toInt_minS hPos]
  split_ifs with hHigh hLow
  · exact toInt_maxS hPos
  · exact toInt_minS hPos
  · exact toInt_resize ⟨by omega, by omega⟩ hPos

theorem bias_eq_ofInt (value : BitVec width) (frac : Nat) :
    (if value.msb then (1#(width + 1) <<< frac) - 1 else 1#(width + 1) <<< frac) =
      BitVec.ofInt (width + 1) (2 ^ frac - if value.toInt < 0 then 1 else 0) := by
  have hHalf : 1#(width + 1) <<< frac = BitVec.ofInt (width + 1) (2 ^ frac) := by
    have hOne : 1#(width + 1) = BitVec.ofInt (width + 1) 1 := rfl
    rw [hOne, ofInt_shiftLeft, one_mul]
  rw [BitVec.msb_eq_toInt, hHalf]
  by_cases hNegative : value.toInt < 0
  · rw [if_pos (decide_eq_true hNegative), if_pos hNegative, Int.sub_eq_add_neg,
      BitVec.ofInt_add, BitVec.ofInt_neg, BitVec.sub_eq_add_neg]
    rfl
  · rw [if_neg (by simpa using hNegative), if_neg hNegative, sub_zero]

/-- The biased sum before the shift; the guard bit takes its carry. -/
theorem toInt_biased (value : BitVec width) (frac : Nat) (hFrac : frac < width) :
    ((resize (width + 1) value : BitVec (width + 1)) +
        if value.msb then (1#(width + 1) <<< frac) - 1 else 1#(width + 1) <<< frac).toInt =
      value.toInt + (2 ^ frac - if value.toInt < 0 then 1 else 0) := by
  have hExt : (resize (width + 1) value : BitVec (width + 1)) =
      BitVec.ofInt (width + 1) value.toInt := by
    apply BitVec.eq_of_toInt_eq
    have hFits := (inRange_toInt value).mono (show width ≤ width + 1 by omega)
    rw [toInt_resize hFits (by omega), toInt_ofInt hFits (by omega)]
  have hLow := (inRange_toInt value).1
  have hHigh := (inRange_toInt value).2
  have hSmall : (2 : Int) ^ frac ≤ 2 ^ (width - 1) := pow_le_pow_right₀ (by decide) (by omega)
  have hOne : (1 : Int) ≤ 2 ^ frac := one_le_pow₀ (by decide)
  have hTop : (2 : Int) ^ width = 2 * 2 ^ (width - 1) := by
    rw [← pow_succ', Nat.sub_add_cancel (by omega)]
  rw [hExt, bias_eq_ofInt, ← BitVec.ofInt_add]
  apply toInt_ofInt _ (by omega)
  rw [InRange, Nat.add_sub_cancel]
  split_ifs <;> omega

theorem toInt_roundHalfAway (value : BitVec width) (hFrac : fracDiff ≤ width) :
    (roundHalfAway value fracDiff (width - fracDiff + 1)).toInt =
      nearestQuot value.toInt fracDiff := by
  cases fracDiff with
  | zero =>
      exact toInt_resize ((inRange_toInt value).mono (by omega)) (by omega)
  | succ frac =>
      have hShift := toInt_biased value frac (by omega)
      have hLow := (inRange_toInt value).1
      have hHigh := (inRange_toInt value).2
      have hSmall : (2 : Int) ^ frac ≤ 2 ^ (width - 1) := pow_le_pow_right₀ (by decide) (by omega)
      have hOne : (1 : Int) ≤ 2 ^ frac := one_le_pow₀ (by decide)
      have hTop : (2 : Int) ^ width = 2 * 2 ^ (width - 1) := by
        rw [← pow_succ', Nat.sub_add_cancel (by omega)]
      have hSplit : (2 : Int) ^ width = 2 ^ (width - (frac + 1)) * 2 ^ (frac + 1) := by
        rw [← pow_add, Nat.sub_add_cancel (by omega)]
      have hStep : (0 : Int) < 2 ^ (frac + 1) := by positivity
      rw [roundHalfAway, if_neg (Nat.succ_ne_zero frac)]
      simp only [Nat.add_sub_cancel]
      rw [toInt_resize _ (by omega), BitVec.toInt_sshiftRight, hShift, Int.shiftRight_eq_div_pow,
        nearestQuot_eq_div]
      · push_cast
        rfl
      · rw [BitVec.toInt_sshiftRight, hShift, Int.shiftRight_eq_div_pow, InRange,
          Nat.add_sub_cancel]
        push_cast
        constructor
        · rw [Int.le_ediv_iff_mul_le hStep]
          split_ifs <;> linarith
        · rw [Int.ediv_lt_iff_lt_mul hStep]
          split_ifs <;> linarith

/-- `requantise` clamps the rounded quotient; nothing wraps on the way. -/
theorem toInt_requantise (value : BitVec width) (hFrac : fracDiff ≤ width) (hPos : 0 < outLen) :
    (requantise value fracDiff outLen .halfAway).toInt =
      clamp outLen (nearestQuot value.toInt fracDiff) := by
  rw [requantise, toInt_saturate _ hPos, toInt_roundHalfAway value hFrac]

end Lqr
