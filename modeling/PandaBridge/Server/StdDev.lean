import Mathlib.Algebra.BigOperators.Fin
import Mathlib.Algebra.Order.BigOperators.Group.List
import Mathlib.Algebra.Order.Chebyshev

/-! The integer part of the standard deviation. Sums of squares are 96 bits wide, and the
subtraction at the heart of the computation is made from overlapping 64- and 32-bit words. -/
namespace Server

/-- An `unaligned_uint96_t`, least significant word first. Its other members are views of two
neighbouring words. -/
structure Uint96 where
  value0 : BitVec 32
  value1 : BitVec 32
  value2 : BitVec 32
deriving DecidableEq, Repr

namespace Uint96

def toNat (a : Uint96) : Nat :=
  a.value0.toNat + 2 ^ 32 * a.value1.toNat + 2 ^ 64 * a.value2.toNat

def lowWord64 (a : Uint96) : BitVec 64 := a.value1 ++ a.value0

def setLowWord64 (a : Uint96) (word : BitVec 64) : Uint96 :=
  { a with value0 := word.extractLsb' 0 32, value1 := word.extractLsb' 32 32 }

def highWord32 (a : Uint96) : BitVec 32 := a.value2

def setHighWord32 (a : Uint96) (word : BitVec 32) : Uint96 := { a with value2 := word }

def highWord64 (a : Uint96) : BitVec 64 := a.value2 ++ a.value1

def setHighWord64 (a : Uint96) (word : BitVec 64) : Uint96 :=
  { a with value1 := word.extractLsb' 0 32, value2 := word.extractLsb' 32 32 }

/-- The three words as they lie in the captured data. -/
def ofBitVec (bits : BitVec 96) : Uint96 :=
  ⟨bits.extractLsb' 0 32, bits.extractLsb' 32 32, bits.extractLsb' 64 32⟩

end Uint96

/-- Which of the three subtractions of the low word is compiled. -/
inductive BorrowMethod where
  | overflowBuiltin
  | armAssembler
  | comparison
deriving DecidableEq, Repr

def abs64 (x : BitVec 64) : BitVec 64 := if 0 ≤ x.toInt then x else -x

/-- What `div_rem_64_32` leaves in its two results, and what it returns. -/
structure DivRem where
  d : BitVec 32
  r : BitVec 32
  ok : Bool
deriving DecidableEq, Repr

def divRem6432 (b : BitVec 64) (n : BitVec 32) : DivRem :=
  let div := b / n.setWidth 64
  let rem := b - n.setWidth 64 * div
  { d := div.setWidth 32
    r := rem.setWidth 32
    ok := div >>> 32 = 0 }

/-- `subs`, `sbcs` and `sbc`: the carry flag is clear when the word before it borrowed. -/
def subWithCarry (x y : BitVec 32) (carry : Bool) : BitVec 32 × Bool :=
  let taken := y.toNat + (if carry then 0 else 1)
  (x - y - (if carry then 0 else 1), taken ≤ x.toNat)

/-- Subtract `bl_c` from the low word and carry the borrow into the high word. -/
def subLowWord (method : BorrowMethod) (a : Uint96) (blC : BitVec 64) : Uint96 :=
  match method with
  | .overflowBuiltin =>
      let borrow := a.lowWord64.toNat < blC.toNat
      let a' := a.setLowWord64 (a.lowWord64 - blC)
      a'.setHighWord32 (a'.highWord32 - if borrow then 1 else 0)
  | .armAssembler =>
      let low := subWithCarry a.value0 (blC.setWidth 32) true
      let middle := subWithCarry a.value1 ((blC >>> 32).setWidth 32) low.2
      let high := subWithCarry a.value2 0 middle.2
      ⟨low.1, middle.1, high.1⟩
  | .comparison =>
      let difference := a.lowWord64 - blC
      let borrow := a.lowWord64.toNat < difference.toNat
      let a' := a.setLowWord64 difference
      a'.setHighWord32 (a'.highWord32 - if borrow then 1 else 0)

/-- Compute `A - B*C` for 96-bit `A`, 64-bit `B`, 32-bit `C`. -/
def mulSub966432 (method : BorrowMethod) (a : Uint96) (b : BitVec 64) (c : BitVec 32) : Uint96 :=
  let blC := (b &&& 0xFFFFFFFF) * c.setWidth 64
  let a' := subLowWord method a blC
  let bhC := (b >>> 32) * c.setWidth 64
  a'.setHighWord64 (a'.highWord64 - bhC)

/-- `compute_standard_deviation`, with the double precision arithmetic after the integer part
in `finish`: it takes `A - (B + R) D`, `R^2` and the number of samples. -/
def computeStandardDeviation {Double : Type} (nan : Double)
    (finish : Uint96 → BitVec 64 → BitVec 32 → Double) (method : BorrowMethod)
    (samples : BitVec 32) (rawSumValues : BitVec 64) (rawSumSquares : Uint96) : Double :=
  if samples = 0 then nan
  else
    let sumValues := abs64 rawSumValues
    let mean := divRem6432 sumValues samples
    if !mean.ok then nan
    else
      let sumSquares :=
        mulSub966432 method rawSumSquares (sumValues + mean.r.setWidth 64) mean.d
      finish sumSquares (mean.r.setWidth 64 * mean.r.setWidth 64) samples

section MultiwordSubtraction

theorem toNat_append32 (x y : BitVec 32) :
    (x ++ y : BitVec 64).toNat = 2 ^ 32 * x.toNat + y.toNat := by
  rw [BitVec.toNat_append, ← Nat.shiftLeft_add_eq_or_of_lt y.isLt, Nat.shiftLeft_eq, Nat.mul_comm]

theorem toNat_low32 (w : BitVec 64) : (w.extractLsb' 0 32).toNat = w.toNat % 2 ^ 32 := by
  simp

theorem toNat_high32 (w : BitVec 64) : (w.extractLsb' 32 32).toNat = w.toNat / 2 ^ 32 := by
  have := w.isLt
  rw [BitVec.extractLsb'_toNat, Nat.shiftRight_eq_div_pow]
  omega

namespace Uint96

theorem toNat_lt (a : Uint96) : a.toNat < 2 ^ 96 := by
  have h0 := a.value0.isLt
  have h1 := a.value1.isLt
  have h2 := a.value2.isLt
  unfold toNat
  omega

theorem toNat_ofBitVec (bits : BitVec 96) : (ofBitVec bits).toNat = bits.toNat := by
  have := bits.isLt
  simp only [ofBitVec, toNat, BitVec.extractLsb'_toNat, Nat.shiftRight_eq_div_pow]
  omega

theorem toNat_eq_low (a : Uint96) :
    a.toNat = a.lowWord64.toNat + 2 ^ 64 * a.highWord32.toNat := by
  rw [lowWord64, toNat_append32, toNat, highWord32]
  omega

theorem toNat_eq_high (a : Uint96) : a.toNat = a.value0.toNat + 2 ^ 32 * a.highWord64.toNat := by
  rw [highWord64, toNat_append32, toNat]
  omega

@[simp] theorem lowWord64_setLowWord64 (a : Uint96) (word : BitVec 64) :
    (a.setLowWord64 word).lowWord64 = word := by
  apply BitVec.eq_of_toNat_eq
  rw [lowWord64, toNat_append32]
  simp only [setLowWord64, toNat_low32, toNat_high32]
  omega

@[simp] theorem highWord32_setLowWord64 (a : Uint96) (word : BitVec 64) :
    (a.setLowWord64 word).highWord32 = a.highWord32 := rfl

@[simp] theorem lowWord64_setHighWord32 (a : Uint96) (word : BitVec 32) :
    (a.setHighWord32 word).lowWord64 = a.lowWord64 := rfl

@[simp] theorem highWord32_setHighWord32 (a : Uint96) (word : BitVec 32) :
    (a.setHighWord32 word).highWord32 = word := rfl

@[simp] theorem highWord64_setHighWord64 (a : Uint96) (word : BitVec 64) :
    (a.setHighWord64 word).highWord64 = word := by
  apply BitVec.eq_of_toNat_eq
  rw [highWord64, toNat_append32]
  simp only [setHighWord64, toNat_low32, toNat_high32]
  omega

@[simp] theorem value0_setHighWord64 (a : Uint96) (word : BitVec 64) :
    (a.setHighWord64 word).value0 = a.value0 := rfl

end Uint96

/-- Subtraction modulo `2 ^ 96`, in integers. -/
def IsDifference (result a subtrahend : Int) : Prop :=
  ∃ wraps : Int, result = a - subtrahend + 2 ^ 96 * wraps

theorem toNat_sub_borrow {w : Nat} (x y : BitVec w) :
    ((x - y).toNat : Int) = x.toNat - y.toNat + 2 ^ w * if x.toNat < y.toNat then 1 else 0 := by
  have hx := x.isLt
  have hy := y.isLt
  rw [BitVec.toNat_sub]
  split_ifs with hBorrow
  · rw [Nat.mod_eq_of_lt (by omega), Nat.cast_add, Nat.cast_sub hy.le]
    push_cast
    ring
  · rw [show 2 ^ w - y.toNat + x.toNat = x.toNat - y.toNat + 2 ^ w by omega, Nat.add_mod_right,
      Nat.mod_eq_of_lt (by omega)]
    omega

theorem toNat_borrow (borrow : Prop) [Decidable borrow] :
    ((if borrow then 1 else 0 : BitVec 32).toNat : Int) = if borrow then 1 else 0 := by
  split_ifs <;> rfl

theorem subLowWord_of_borrow (a : Uint96) (word : BitVec 64) (borrow : Prop) [Decidable borrow]
    (hBorrow : borrow ↔ a.lowWord64.toNat < word.toNat) :
    let a' := a.setLowWord64 (a.lowWord64 - word)
    IsDifference (a'.setHighWord32 (a'.highWord32 - if borrow then 1 else 0)).toNat a.toNat
      word.toNat := by
  have hLow := toNat_sub_borrow a.lowWord64 word
  have hHigh := toNat_sub_borrow a.highWord32 (if borrow then 1 else 0)
  rw [toNat_borrow] at hHigh
  simp only [← hBorrow] at hLow
  simp only [Uint96.toNat_eq_low, Uint96.lowWord64_setHighWord32, Uint96.lowWord64_setLowWord64,
    Uint96.highWord32_setHighWord32, Uint96.highWord32_setLowWord64]
  refine ⟨if a.highWord32.toNat < (if borrow then 1 else 0 : BitVec 32).toNat then 1 else 0, ?_⟩
  simp only [Nat.cast_add, Nat.cast_mul, Nat.cast_pow, Nat.cast_ofNat]
  rw [hLow, hHigh]
  ring

/-- The fallback sees the borrow in the wrapped difference. -/
theorem lt_sub_iff (x y : BitVec 64) : x.toNat < (x - y).toNat ↔ x.toNat < y.toNat := by
  have hSub := toNat_sub_borrow x y
  have hy := y.isLt
  split_ifs at hSub with hBorrow <;> omega

theorem subWithCarry_fst (x y : BitVec 32) (carry : Bool) :
    ((subWithCarry x y carry).1.toNat : Int) =
      x.toNat - y.toNat - (if carry then 0 else 1) +
        2 ^ 32 * if (subWithCarry x y carry).2 then 0 else 1 := by
  have hx := x.isLt
  have hy := y.isLt
  have hFirst := toNat_sub_borrow x y
  have hSecond := toNat_sub_borrow (x - y) (if carry then 0 else 1)
  have hLess := (x - y).isLt
  cases carry with
  | false =>
      have hOne : (1 : BitVec 32).toNat = 1 := rfl
      simp only [subWithCarry, Bool.false_eq_true, if_false, decide_eq_true_eq, hOne] at hSecond ⊢
      split_ifs at * <;> omega
  | true =>
      have hZero : (0 : BitVec 32).toNat = 0 := rfl
      simp only [subWithCarry, if_true, decide_eq_true_eq, hZero] at hSecond ⊢
      split_ifs at * <;> omega

theorem subLowWord_isDifference (method : BorrowMethod) (a : Uint96) (word : BitVec 64) :
    IsDifference (subLowWord method a word).toNat a.toNat word.toNat := by
  cases method with
  | overflowBuiltin => exact subLowWord_of_borrow a word _ Iff.rfl
  | comparison => exact subLowWord_of_borrow a word _ (lt_sub_iff a.lowWord64 word)
  | armAssembler =>
      have hLow := subWithCarry_fst a.value0 (word.setWidth 32) true
      have hMiddle := subWithCarry_fst a.value1 ((word >>> 32).setWidth 32)
        (subWithCarry a.value0 (word.setWidth 32) true).2
      have hHigh := subWithCarry_fst a.value2 0 (subWithCarry a.value1 ((word >>> 32).setWidth 32)
        (subWithCarry a.value0 (word.setWidth 32) true).2).2
      have hWord : (word.toNat : Int) =
          (word.setWidth 32).toNat + 2 ^ 32 * ((word >>> 32).setWidth 32).toNat := by
        have := word.isLt
        rw [BitVec.toNat_setWidth, BitVec.toNat_setWidth, BitVec.toNat_ushiftRight,
          Nat.shiftRight_eq_div_pow]
        omega
      have hZero : ((0 : BitVec 32).toNat : Int) = 0 := rfl
      rw [if_pos rfl] at hLow
      rw [hZero] at hHigh
      refine ⟨if (subWithCarry a.value2 0 (subWithCarry a.value1 ((word >>> 32).setWidth 32)
        (subWithCarry a.value0 (word.setWidth 32) true).2).2).2 then 0 else 1, ?_⟩
      simp only [subLowWord, Uint96.toNat, Nat.cast_add, Nat.cast_mul, Nat.cast_pow,
        Nat.cast_ofNat]
      rw [hLow, hMiddle, hHigh, hWord]
      split_ifs <;> ring

theorem setHighWord64_isDifference (a : Uint96) (word : BitVec 64) :
    IsDifference (a.setHighWord64 (a.highWord64 - word)).toNat a.toNat (2 ^ 32 * word.toNat) := by
  refine ⟨if a.highWord64.toNat < word.toNat then 1 else 0, ?_⟩
  simp only [Uint96.toNat_eq_high, Uint96.highWord64_setHighWord64, Uint96.value0_setHighWord64]
  push_cast
  rw [toNat_sub_borrow]
  ring

theorem toNat_mul_setWidth {b : BitVec 64} (c : BitVec 32) (hHalf : b.toNat < 2 ^ 32) :
    (b * c.setWidth 64).toNat = b.toNat * c.toNat := by
  have hLess : b.toNat * c.toNat < 2 ^ 64 := calc
    b.toNat * c.toNat < 2 ^ 32 * 2 ^ 32 := Nat.mul_lt_mul'' hHalf c.isLt
    _ = 2 ^ 64 := by norm_num
  rw [BitVec.toNat_mul, BitVec.toNat_setWidth_of_le (by decide), Nat.mod_eq_of_lt hLess]

/-- `mul_sub_96_64_32` is `A - B*C` modulo `2 ^ 96`, whichever way the borrow is taken. -/
theorem mulSub_isDifference (method : BorrowMethod) (a : Uint96) (b : BitVec 64) (c : BitVec 32) :
    IsDifference (mulSub966432 method a b c).toNat a.toNat (b.toNat * c.toNat) := by
  have hAnd : (b &&& 0xFFFFFFFF).toNat = b.toNat % 2 ^ 32 := by
    rw [BitVec.toNat_and]
    exact Nat.and_two_pow_sub_one_eq_mod b.toNat 32
  have hShift : (b >>> 32).toNat = b.toNat / 2 ^ 32 := by
    rw [BitVec.toNat_ushiftRight, Nat.shiftRight_eq_div_pow]
  have hLow := toNat_mul_setWidth (b := b &&& 0xFFFFFFFF) c (by omega)
  have hHigh := toNat_mul_setWidth (b := b >>> 32) c (by have := b.isLt; omega)
  have hSplit : (b.toNat : Int) = b.toNat % 2 ^ 32 + 2 ^ 32 * (b.toNat / 2 ^ 32) := by omega
  obtain ⟨k₁, hFirst⟩ := subLowWord_isDifference method a ((b &&& 0xFFFFFFFF) * c.setWidth 64)
  obtain ⟨k₂, hSecond⟩ := setHighWord64_isDifference
    (subLowWord method a ((b &&& 0xFFFFFFFF) * c.setWidth 64)) ((b >>> 32) * c.setWidth 64)
  refine ⟨k₁ + k₂, ?_⟩
  rw [mulSub966432, hSecond, hFirst, hLow, hHigh, hAnd, hShift, hSplit]
  push_cast
  ring

/-- Where the subtrahend is no larger, nothing is borrowed from above. -/
theorem mulSub_toNat {method : BorrowMethod} {a : Uint96} {b : BitVec 64} {c : BitVec 32}
    (hLe : b.toNat * c.toNat ≤ a.toNat) :
    (mulSub966432 method a b c).toNat = a.toNat - b.toNat * c.toNat := by
  obtain ⟨wraps, hWraps⟩ := mulSub_isDifference method a b c
  have hResult := (mulSub966432 method a b c).toNat_lt
  have hArgument := a.toNat_lt
  have hNonneg : (0 : Int) ≤ b.toNat * c.toNat := by positivity
  have hInt : ((b.toNat * c.toNat : Nat) : Int) = b.toNat * c.toNat := Nat.cast_mul _ _
  omega

end MultiwordSubtraction

section Samples

def sumValues (xs : List (BitVec 32)) : Int := (xs.map BitVec.toInt).sum

def sumSquares (xs : List (BitVec 32)) : Nat := (xs.map fun x => x.toInt.natAbs ^ 2).sum

theorem natAbs_sumValues_le (xs : List (BitVec 32)) :
    (sumValues xs).natAbs ≤ 2 ^ 31 * xs.length := by
  induction xs with
  | nil => decide
  | cons x xs ih =>
      have hLow := x.le_toInt
      have hHigh := x.toInt_lt
      simp only [sumValues, List.map_cons, List.sum_cons, List.length_cons] at ih ⊢
      omega

theorem sumSquares_le (xs : List (BitVec 32)) : sumSquares xs ≤ 2 ^ 62 * xs.length := by
  induction xs with
  | nil => decide
  | cons x xs ih =>
      have hLow := x.le_toInt
      have hHigh := x.toInt_lt
      have hSquare : x.toInt.natAbs ^ 2 ≤ (2 ^ 31) ^ 2 := Nat.pow_le_pow_left (by omega) 2
      simp only [sumSquares, List.map_cons, List.sum_cons, List.length_cons] at ih ⊢
      omega

theorem sq_sumValues_le (xs : List (BitVec 32)) :
    sumValues xs ^ 2 ≤ xs.length * (sumSquares xs : Int) := by
  have hBound := sq_sum_le_card_mul_sum_sq (s := (Finset.univ : Finset (Fin xs.length)))
    (f := fun i => xs[i].toInt)
  have hSquares : (sumSquares xs : Int) = (xs.map fun x => x.toInt ^ 2).sum := by
    rw [sumSquares, Nat.cast_list_sum, List.map_map]
    congr 2
    funext x
    simp
  rw [sumValues, hSquares, ← Fin.sum_univ_fun_getElem, ← Fin.sum_univ_fun_getElem]
  simpa using hBound

theorem toNat_abs64 {x : BitVec 64} {value : Int} (hx : x = BitVec.ofInt 64 value)
    (hValue : value.natAbs < 2 ^ 63) : (abs64 x).toNat = value.natAbs := by
  have hInt : x.toInt = value := by
    rw [hx, BitVec.toInt_ofInt_eq_self (by decide)] <;> omega
  have hSign := BitVec.toInt_eq_toNat_cond x
  have hLess := x.isLt
  rw [hInt] at hSign
  rw [abs64, hInt]
  split_ifs at hSign ⊢
  · omega
  · omega
  · omega
  · rw [BitVec.toNat_neg, Nat.mod_eq_of_lt (by omega)]
    omega

/-- Division by the number of samples, where the quotient has room. -/
theorem divRem_eq {b : BitVec 64} {n : BitVec 32} (hn : 0 < n.toNat)
    (hQuotient : b.toNat / n.toNat < 2 ^ 32) :
    (divRem6432 b n).ok = true ∧ (divRem6432 b n).d.toNat = b.toNat / n.toNat ∧
      (divRem6432 b n).r.toNat = b.toNat % n.toNat := by
  have hb := b.isLt
  have hWide : (n.setWidth 64).toNat = n.toNat := BitVec.toNat_setWidth_of_le (by decide)
  have hDiv : (b / n.setWidth 64).toNat = b.toNat / n.toNat := by rw [BitVec.toNat_udiv, hWide]
  have hMul : (n.setWidth 64 * (b / n.setWidth 64)).toNat = n.toNat * (b.toNat / n.toNat) := by
    rw [BitVec.toNat_mul, hWide, hDiv]
    exact Nat.mod_eq_of_lt (lt_of_le_of_lt (Nat.mul_div_le _ _) hb)
  have hRem : (b - n.setWidth 64 * (b / n.setWidth 64)).toNat = b.toNat % n.toNat := by
    have hLe : n.setWidth 64 * (b / n.setWidth 64) ≤ b := by
      rw [BitVec.le_def, hMul]
      exact Nat.mul_div_le _ _
    rw [BitVec.toNat_sub_of_le hLe, hMul]
    exact Nat.sub_eq_of_eq_add (Nat.mod_add_div _ _).symm
  have hModLess := Nat.mod_lt b.toNat hn
  have hnLess := n.isLt
  refine ⟨?_, ?_, ?_⟩
  · simp only [divRem6432, decide_eq_true_eq]
    apply BitVec.eq_of_toNat_eq
    rw [BitVec.toNat_ushiftRight, hDiv, Nat.shiftRight_eq_div_pow]
    exact Nat.div_eq_of_lt hQuotient
  · rw [divRem6432, BitVec.toNat_setWidth, hDiv, Nat.mod_eq_of_lt hQuotient]
  · rw [divRem6432, BitVec.toNat_setWidth, hRem, Nat.mod_eq_of_lt (by omega)]

/-- What is left to the double precision arithmetic: `N` times the integer part exceeds the
square of the remainder by the variance. -/
theorem integer_part_eq {n d r : Nat} {sum : Int} (squares : Nat)
    (hDiv : sum.natAbs = n * d + r) :
    (n : Int) * (squares - (sum.natAbs + r : Nat) * d) - r ^ 2 = n * squares - sum ^ 2 := by
  have hSquare : sum ^ 2 = (n * d + r : Int) ^ 2 := by
    rw [← Int.natAbs_sq, hDiv]
    push_cast
    rfl
  rw [hSquare, hDiv]
  push_cast
  ring

theorem subtrahend_le {n d r : Nat} {sum : Int} {squares : Nat} (hn : 0 < n)
    (hDiv : sum.natAbs = n * d + r) (hBound : sum ^ 2 ≤ n * (squares : Int)) :
    (sum.natAbs + r) * d ≤ squares := by
  have hExact := integer_part_eq squares hDiv
  have hProduct : 0 ≤ (n : Int) * (squares - (sum.natAbs + r : Nat) * d) := by
    have : (0 : Int) ≤ (r : Int) ^ 2 := sq_nonneg _
    omega
  have hDifference : (0 : Int) ≤ squares - (sum.natAbs + r : Nat) * d :=
    nonneg_of_mul_nonneg_right hProduct (by exact_mod_cast hn)
  exact_mod_cast sub_nonneg.mp hDifference

/-- The integer part of the standard deviation loses nothing: for every list of samples the
division succeeds, no 64-bit or 96-bit word wraps, and what remains is the variance. The
subtraction itself is exact modulo `2 ^ 96` for all arguments. -/
theorem standard_deviation_exact {Double : Type} (nan : Double)
    (finish : Uint96 → BitVec 64 → BitVec 32 → Double) (method : BorrowMethod)
    (samples : BitVec 32) (xs : List (BitVec 32)) (hSamples : 1 ≤ samples.toNat)
    (hLength : xs.length = samples.toNat) :
    let rawSumValues := BitVec.ofInt 64 (sumValues xs)
    let rawSumSquares := Uint96.ofBitVec (BitVec.ofNat 96 (sumSquares xs))
    let b := abs64 rawSumValues
    let mean := divRem6432 b samples
    let result := mulSub966432 method rawSumSquares (b + mean.r.setWidth 64) mean.d
    (mean.ok = true ∧ b.toNat = samples.toNat * mean.d.toNat + mean.r.toNat ∧
        mean.r.toNat < samples.toNat) ∧
      b.toNat = (sumValues xs).natAbs ∧ rawSumSquares.toNat = sumSquares xs ∧
      (b + mean.r.setWidth 64).toNat = b.toNat + mean.r.toNat ∧
      (b.toNat + mean.r.toNat) * mean.d.toNat ≤ sumSquares xs ∧
      result.toNat = sumSquares xs - (b.toNat + mean.r.toNat) * mean.d.toNat ∧
      (samples.toNat : Int) * result.toNat - mean.r.toNat ^ 2 =
        samples.toNat * sumSquares xs - sumValues xs ^ 2 ∧
      0 ≤ (samples.toNat : Int) * sumSquares xs - sumValues xs ^ 2 ∧
      computeStandardDeviation nan finish method samples rawSumValues rawSumSquares =
        finish result (BitVec.ofNat 64 (mean.r.toNat ^ 2)) samples ∧
      mean.r.toNat ^ 2 < 2 ^ 64 ∧
      ∀ (a : Uint96) (b : BitVec 64) (c : BitVec 32),
        ((mulSub966432 method a b c).toNat : Int) = (a.toNat - b.toNat * c.toNat) % 2 ^ 96 := by
  intro rawSumValues rawSumSquares b mean result
  have hN := samples.isLt
  have hMagnitude := natAbs_sumValues_le xs
  have hSquaresBound := sumSquares_le xs
  have hB : b.toNat = (sumValues xs).natAbs := toNat_abs64 rfl (by omega)
  have hA : rawSumSquares.toNat = sumSquares xs := by
    rw [Uint96.toNat_ofBitVec, BitVec.toNat_ofNat, Nat.mod_eq_of_lt (by omega)]
  have hQuotient : b.toNat / samples.toNat < 2 ^ 32 := by
    rw [Nat.div_lt_iff_lt_mul hSamples]
    omega
  obtain ⟨hOk, hD, hR⟩ := divRem_eq hSamples hQuotient
  change mean.ok = true at hOk
  change mean.d.toNat = _ at hD
  change mean.r.toNat = _ at hR
  have hDiv : b.toNat = samples.toNat * mean.d.toNat + mean.r.toNat := by
    rw [hD, hR, Nat.div_add_mod]
  have hRemainder : mean.r.toNat < samples.toNat := by
    rw [hR]
    exact Nat.mod_lt _ hSamples
  have hWide : (mean.r.setWidth 64).toNat = mean.r.toNat :=
    BitVec.toNat_setWidth_of_le (by decide)
  have hSum : (b + mean.r.setWidth 64).toNat = b.toNat + mean.r.toNat := by
    rw [BitVec.toNat_add, hWide, Nat.mod_eq_of_lt (by omega)]
  have hBound := sq_sumValues_le xs
  rw [hLength] at hBound
  have hLe := subtrahend_le hSamples (hB ▸ hDiv) hBound
  rw [← hB] at hLe
  have hResult : result.toNat = sumSquares xs - (b.toNat + mean.r.toNat) * mean.d.toNat := by
    rw [mulSub_toNat (by rw [hSum, hA]; exact hLe), hSum, hA]
  have hSquareLess : mean.r.toNat ^ 2 < 2 ^ 64 := calc
    mean.r.toNat ^ 2 < (2 ^ 32) ^ 2 := Nat.pow_lt_pow_left mean.r.isLt (by decide)
    _ = 2 ^ 64 := by norm_num
  refine ⟨⟨hOk, hDiv, hRemainder⟩, hB, hA, hSum, hLe, hResult, ?_, sub_nonneg.mpr hBound, ?_,
    hSquareLess, fun a b c => ?_⟩
  · have hExact := integer_part_eq (sumSquares xs) (hB ▸ hDiv)
    rw [← hExact, hResult, Nat.cast_sub hLe, hB]
    push_cast
    rfl
  · have hNonzero : samples ≠ 0 := fun h => by simp [h] at hSamples
    have hSquare : mean.r.setWidth 64 * mean.r.setWidth 64 =
        BitVec.ofNat 64 (mean.r.toNat ^ 2) := by
      apply BitVec.eq_of_toNat_eq
      rw [BitVec.toNat_mul, hWide, BitVec.toNat_ofNat, pow_two]
    rw [computeStandardDeviation, if_neg hNonzero]
    dsimp only
    rw [hOk, ← hSquare]
    rfl
  · obtain ⟨wraps, hWraps⟩ := mulSub_isDifference method a b c
    have hLess : ((mulSub966432 method a b c).toNat : Int) < 2 ^ 96 := by
      exact_mod_cast (mulSub966432 method a b c).toNat_lt
    rw [← Int.emod_eq_of_lt (Int.natCast_nonneg (mulSub966432 method a b c).toNat) hLess, hWraps,
      Int.add_mul_emod_self_left]

/-- Four samples at the lower extreme and a small one: the mean has a remainder, and the subtraction
borrows from the high word. -/
theorem standard_deviation_exact_extremes :
    (mulSub966432 .comparison
      (Uint96.ofBitVec (BitVec.ofNat 96
        (sumSquares [0x80000000, 0x80000000, 0x80000000, 0x80000000, 1])))
      (abs64 (BitVec.ofInt 64 (sumValues [0x80000000, 0x80000000, 0x80000000, 0x80000000, 1])) +
        (divRem6432 (abs64 (BitVec.ofInt 64
          (sumValues [0x80000000, 0x80000000, 0x80000000, 0x80000000, 1]))) 5).r.setWidth 64)
      (divRem6432 (abs64 (BitVec.ofInt 64
        (sumValues [0x80000000, 0x80000000, 0x80000000, 0x80000000, 1]))) 5).d).toNat =
      2 ^ 64 + 1 - 2 ^ 33 * 1717986918 := by
  have hExact := standard_deviation_exact (0 : Nat) (fun _ _ _ => 1) .comparison 5
    [0x80000000, 0x80000000, 0x80000000, 0x80000000, 1] (by decide) (by decide)
  exact hExact.2.2.2.2.2.1.trans (by decide)

end Samples

end Server
