import Mathlib.Algebra.BigOperators.Intervals
import Mathlib.Algebra.BigOperators.Ring.Finset
import Mathlib.Algebra.Order.BigOperators.Group.Finset
import Mathlib.Algebra.Order.Ring.Int
import Mathlib.Tactic.Linarith
import Mathlib.Tactic.Ring

/-! Signed fixed-point arithmetic on integers: the range of a width, clamping,
rounding half away from zero, and the digits of a signed number in a power of
two, of which the highest carries the sign. -/
namespace FixedPoint

/-- The value fits in `width` bits with a sign. -/
def InRange (width : Nat) (value : Int) : Prop :=
  -2 ^ (width - 1) ≤ value ∧ value < 2 ^ (width - 1)

/-- Saturation to the range of a width. -/
def clamp (width : Nat) (value : Int) : Int :=
  if 2 ^ (width - 1) - 1 < value then 2 ^ (width - 1) - 1
  else if value < -2 ^ (width - 1) then -2 ^ (width - 1)
  else value

/-- The value divided by `2 ^ frac`, to the nearest integer and away from zero
when two are equally near. -/
def nearestQuot (value : Int) : Nat → Int
  | 0 => value
  | frac + 1 =>
      if value < 0 then -((-value + 2 ^ frac) / 2 ^ (frac + 1))
      else (value + 2 ^ frac) / 2 ^ (frac + 1)

theorem InRange.mono {width more : Nat} {value : Int} (h : InRange width value)
    (hMore : width ≤ more) : InRange more value := by
  have hPow : (2 : Int) ^ (width - 1) ≤ 2 ^ (more - 1) :=
    pow_le_pow_right₀ (by decide) (by omega)
  unfold InRange at h ⊢
  omega

/-- A value of a width is what its bits say. -/
theorem toInt_ofInt {width : Nat} {value : Int} (h : InRange width value) (hPos : 0 < width) :
    (BitVec.ofInt width value).toInt = value := by
  obtain ⟨less, rfl⟩ : ∃ less, width = less + 1 := ⟨width - 1, by omega⟩
  rw [BitVec.toInt_ofInt]
  unfold InRange at h
  have hPow : ((2 ^ (less + 1) : Nat) : Int) = 2 * 2 ^ less := by
    push_cast
    ring
  simp only [Nat.add_sub_cancel] at h
  apply Int.bmod_eq_of_le
  · rw [hPow]
    omega
  · rw [hPow]
    omega

theorem inRange_toInt {width : Nat} (word : BitVec width) : InRange width word.toInt :=
  ⟨BitVec.le_toInt word, BitVec.toInt_lt⟩

theorem abs_toInt_le {width : Nat} (word : BitVec width) : |word.toInt| ≤ 2 ^ (width - 1) :=
  abs_le.mpr ⟨(inRange_toInt word).1, (inRange_toInt word).2.le⟩

theorem ofInt_add_mul_two_pow (width : Nat) (value count : Int) :
    BitVec.ofInt width (value + count * 2 ^ width) = BitVec.ofInt width value := by
  apply BitVec.eq_of_toInt_eq
  rw [BitVec.toInt_ofInt, BitVec.toInt_ofInt]
  have hWrap := Int.add_mul_bmod_self_right value count (2 ^ width)
  push_cast at hWrap
  exact hWrap

theorem ofInt_shiftLeft (width shift : Nat) (value : Int) :
    BitVec.ofInt width value <<< shift = BitVec.ofInt width (value * 2 ^ shift) := by
  have hPow : BitVec.twoPow width shift = BitVec.ofInt width (2 ^ shift) := by
    apply BitVec.eq_of_toNat_eq
    rw [BitVec.toNat_twoPow, show (2 : Int) ^ shift = ((2 ^ shift : Nat) : Int) by push_cast; rfl,
      BitVec.ofInt_natCast, BitVec.toNat_ofNat]
  rw [BitVec.shiftLeft_eq_mul_twoPow, hPow, BitVec.ofInt_mul]

/-- Rounding as the hardware does it: add a bias and drop the low bits. The bias
is one less for a negative value. -/
theorem nearestQuot_eq_div (value : Int) (frac : Nat) :
    nearestQuot value (frac + 1) =
      (value + (2 ^ frac - if value < 0 then 1 else 0)) / 2 ^ (frac + 1) := by
  rw [nearestQuot]
  have hPos : (0 : Int) < 2 ^ frac := by positivity
  have hTwice : (2 : Int) ^ (frac + 1) = 2 * 2 ^ frac := by ring
  split_ifs with hNeg
  · rw [hTwice]
    generalize (2 : Int) ^ frac = half at *
    have hFloor := Int.emod_add_mul_ediv (-value + half) (2 * half)
    have hLow := Int.emod_nonneg (-value + half) (show 2 * half ≠ 0 by omega)
    have hHigh := Int.emod_lt_of_pos (-value + half) (show 0 < 2 * half by omega)
    symm
    rw [Int.ediv_eq_iff_of_pos (by omega)]
    constructor <;> linarith
  · rw [sub_zero]

theorem nearestQuot_neg (value : Int) (frac : Nat) :
    nearestQuot (-value) frac = -nearestQuot value frac := by
  cases frac with
  | zero => rfl
  | succ frac =>
      have hZero : (2 : Int) ^ frac / 2 ^ (frac + 1) = 0 := by
        have hHalf : (0 : Int) < 2 ^ frac := by positivity
        have hTwice : (2 : Int) ^ (frac + 1) = 2 * 2 ^ frac := by ring
        exact Int.ediv_eq_zero_of_lt (by omega) (by omega)
      rw [nearestQuot, nearestQuot]
      rcases lt_trichotomy value 0 with hNegative | rfl | hPositive
      · rw [if_neg (by omega), if_pos hNegative, neg_neg]
      · simp [hZero]
      · rw [if_pos (by omega), if_neg (by omega), neg_neg]

theorem nearestQuot_eq_zero_iff (value : Int) (frac : Nat) :
    nearestQuot value (frac + 1) = 0 ↔ |value| < 2 ^ frac := by
  have hHalf : (0 : Int) < 2 ^ frac := by positivity
  have hTwice : (2 : Int) ^ (frac + 1) = 2 * 2 ^ frac := by ring
  have hQuot : ∀ size : Int, 0 ≤ size →
      ((size + 2 ^ frac) / 2 ^ (frac + 1) = 0 ↔ size < 2 ^ frac) := by
    intro size hSize
    rw [hTwice, Int.ediv_eq_iff_of_pos (by omega)]
    omega
  rw [nearestQuot]
  split_ifs with hNegative
  · rw [neg_eq_zero, hQuot _ (by omega), abs_of_neg hNegative]
  · rw [hQuot _ (by omega), abs_of_nonneg (not_lt.mp hNegative)]

/-- A value and its opposite are clamped alike only if they are zero. -/
theorem clamp_neg_eq_iff {width : Nat} (hWidth : 2 ≤ width) (value : Int) :
    clamp width (-value) = clamp width value ↔ value = 0 := by
  have hRoom : (1 : Int) < 2 ^ (width - 1) := one_lt_pow₀ (by decide) (by omega)
  unfold clamp
  split_ifs <;> omega

/-- A sum of bounded terms fits where the count times the bound does. -/
theorem inRange_sum {width count : Nat} (bound : Int) {term : Nat → Int}
    (hTerm : ∀ i < count, |term i| ≤ bound) (hFits : count * bound < 2 ^ (width - 1)) :
    InRange width (∑ i ∈ Finset.range count, term i) := by
  have hSum : |∑ i ∈ Finset.range count, term i| ≤ count * bound :=
    calc |∑ i ∈ Finset.range count, term i| ≤ ∑ i ∈ Finset.range count, |term i| :=
          Finset.abs_sum_le_sum_abs _ _
      _ ≤ ∑ _i ∈ Finset.range count, bound :=
          Finset.sum_le_sum fun i hMem => hTerm i (Finset.mem_range.mp hMem)
      _ = count * bound := by rw [Finset.sum_const, Finset.card_range, nsmul_eq_mul]
  obtain ⟨hLow, hHigh⟩ := abs_le.mp hSum
  exact ⟨by linarith, by linarith⟩

theorem inRange_listSum {width : Nat} (bound : Int) {terms : List Int}
    (hTerm : ∀ term ∈ terms, |term| ≤ bound) (hFits : terms.length * bound < 2 ^ (width - 1)) :
    InRange width terms.sum := by
  have hSum : |terms.sum| ≤ terms.length * bound := by
    clear hFits
    induction terms with
    | nil => simp
    | cons term terms ih =>
        have hHead := hTerm term List.mem_cons_self
        have hTail := ih fun other hMem => hTerm other (List.mem_cons_of_mem _ hMem)
        rw [List.sum_cons, List.length_cons]
        push_cast
        linarith [abs_add_le term terms.sum]
  obtain ⟨hLow, hHigh⟩ := abs_le.mp hSum
  exact ⟨by linarith, by linarith⟩

/-- The digits of a number in base `2 ^ stride`; the part above the lowest `count`
digits keeps the sign. -/
theorem sum_digits (value : Int) (stride count : Nat) :
    value = (∑ i ∈ Finset.range count, value / 2 ^ (stride * i) % 2 ^ stride * 2 ^ (stride * i)) +
      value / 2 ^ (stride * count) * 2 ^ (stride * count) := by
  induction count with
  | zero => simp
  | succ count ih =>
      rw [Finset.sum_range_succ]
      have hSplit : value / 2 ^ (stride * count) =
          value / 2 ^ (stride * count) % 2 ^ stride +
            value / 2 ^ (stride * (count + 1)) * 2 ^ stride := by
        have hDiv := Int.emod_add_mul_ediv (value / 2 ^ (stride * count)) (2 ^ stride)
        rw [Int.ediv_ediv_of_nonneg (by positivity), ← pow_add, ← Nat.mul_succ] at hDiv
        rw [mul_comm (value / 2 ^ (stride * (count + 1)))]
        exact hDiv.symm
      have hPow : (2 : Int) ^ (stride * (count + 1)) = 2 ^ stride * 2 ^ (stride * count) := by
        rw [← pow_add, Nat.mul_succ, Nat.add_comm]
      calc value = (∑ i ∈ Finset.range count,
              value / 2 ^ (stride * i) % 2 ^ stride * 2 ^ (stride * i)) +
            value / 2 ^ (stride * count) * 2 ^ (stride * count) := ih
        _ = (∑ i ∈ Finset.range count,
              value / 2 ^ (stride * i) % 2 ^ stride * 2 ^ (stride * i)) +
            (value / 2 ^ (stride * count) % 2 ^ stride +
              value / 2 ^ (stride * (count + 1)) * 2 ^ stride) * 2 ^ (stride * count) := by
              rw [← hSplit]
        _ = _ := by
              rw [hPow]
              ring

/-- Products of split numbers, summed part by part and then over the parts. -/
theorem sum_split_products (nA nB count : Nat) (a b : Nat → Nat → Int) (weightA weightB : Nat → Int) :
    ∑ i ∈ Finset.range nA, ∑ j ∈ Finset.range nB,
        (∑ c ∈ Finset.range count, a c i * b c j) * (weightA i * weightB j) =
      ∑ c ∈ Finset.range count, (∑ i ∈ Finset.range nA, a c i * weightA i) *
        (∑ j ∈ Finset.range nB, b c j * weightB j) := by
  have hTerm : ∀ i j, (∑ c ∈ Finset.range count, a c i * b c j) * (weightA i * weightB j) =
      ∑ c ∈ Finset.range count, (a c i * weightA i) * (b c j * weightB j) := by
    intro i j
    rw [Finset.sum_mul]
    apply Finset.sum_congr rfl
    intro c _
    ring
  simp only [hTerm, Finset.sum_mul_sum]
  symm
  rw [Finset.sum_comm]
  apply Finset.sum_congr rfl
  intro i _
  exact Finset.sum_comm

end FixedPoint
