import PandaBridge.Lqr.Quantise
import Mathlib.Algebra.Order.Field.Basic

/-! The quantiser of the gains on exact rationals: the laws of its codes, and the loop over a gain
vector with its whole SIMD vectors and its scalar tail. -/
namespace Lqr

open FixedPoint

/-- `quantise`. -/
def quantise (mode : RoundMode) (x : ℚ) (q : QFormat) : Int :=
  quantiseScaled mode (x * 2 ^ q.frac) q.minCode q.maxCode

/-- `dequantise`. -/
def dequantise (code : Int) (q : QFormat) : ℚ := code * 2 ^ (-q.frac)

/-- `to_word`: the bits of a 32-bit code. -/
def toWord (code : Int) : BitVec 32 := BitVec.ofInt 32 code

/-! ## The loop -/

/-- A store to an element of the output. -/
abbrev Store := Nat × BitVec 32

/-- The lanes of one vector, from element `i` on. -/
def storeLanes (mode : RoundMode) (q : QFormat) (gains : List ℚ) (lanes i : Nat) : List Store :=
  (List.range lanes).map fun lane =>
    (i + lane, toWord (quantiseScaled mode (gains.getD (i + lane) 0 * 2 ^ q.frac)
      q.minCode q.maxCode))

/-- The vector body from element `i` on: the stores, and the first element that it leaves. -/
def vectorBody (mode : RoundMode) (q : QFormat) (gains : List ℚ) (lanes : Nat) :
    Nat → Nat → List Store × Nat
  | 0, i => ([], i)
  | fuel + 1, i =>
      if i + lanes ≤ gains.length then
        let (stores, last) := vectorBody mode q gains lanes fuel (i + lanes)
        (storeLanes mode q gains lanes i ++ stores, last)
      else ([], i)

/-- The scalar tail from element `i` on. -/
def scalarTail (mode : RoundMode) (q : QFormat) (gains : List ℚ) : Nat → Nat → List Store
  | 0, _ => []
  | fuel + 1, i =>
      if i < gains.length then
        (i, toWord (quantiseScaled mode (gains.getD i 0 * 2 ^ q.frac) q.minCode q.maxCode)) ::
          scalarTail mode q gains fuel (i + 1)
      else []

/-- All stores of `quantise_into`, in order. Neither loop takes more rounds than there are gains. -/
def quantiseStores (mode : RoundMode) (q : QFormat) (lanes : Nat) (gains : List ℚ) : List Store :=
  let (stores, last) := vectorBody mode q gains lanes gains.length 0
  stores ++ scalarTail mode q gains gains.length last

/-- `quantise_into`. -/
def quantiseInto (mode : RoundMode) (q : QFormat) (lanes : Nat) (gains : List ℚ)
    (out : List (BitVec 32)) : List (BitVec 32) :=
  (quantiseStores mode q lanes gains).foldl (fun out store => out.set store.1 store.2) out

variable {mode : RoundMode} {q : QFormat}

theorem scale_pos (q : QFormat) : (0 : ℚ) < 2 ^ q.frac := zpow_pos (by decide) _

theorem dequantise_eq (code : Int) (q : QFormat) : dequantise code q = code / 2 ^ q.frac := by
  rw [dequantise, zpow_neg, div_eq_mul_inv]

theorem quantise_eq (mode : RoundMode) (x : ℚ) (q : QFormat) :
    quantise mode x q =
      min (max (rounded mode.rule (x * 2 ^ q.frac)) q.minCode) q.maxCode :=
  quantiseScaled_eq mode _ q.minCode_le_maxCode

/-- The code is the nearest one to the value, after the value has been clamped. -/
theorem roundsTo_quantise (mode : RoundMode) (x : ℚ) (q : QFormat) :
    RoundsTo mode.rule (min (max (x * 2 ^ q.frac) (q.minCode : ℚ)) (q.maxCode : ℚ))
      (quantise mode x q) := by
  rw [quantise_eq]
  exact (roundsTo_rounded mode.rule _).clamped q.minCode_le_maxCode

theorem quantise_dequantise {code : Int} (hLow : q.minCode ≤ code) (hHigh : code ≤ q.maxCode) :
    quantise mode (dequantise code q) q = code := by
  rw [quantise_eq, dequantise_eq, div_mul_cancel₀ _ (scale_pos q).ne',
    (roundsTo_intCast mode.rule code).rounded_eq, max_eq_left hLow, min_eq_left hHigh]

/-- A value in range comes back with an error of half a unit at most. -/
theorem dequantise_quantise {x : ℚ} (hLow : dequantise q.minCode q ≤ x)
    (hHigh : x ≤ dequantise q.maxCode q) :
    |dequantise (quantise mode x q) q - x| ≤ 2 ^ (-q.frac) / 2 := by
  have hScale := scale_pos q
  rw [dequantise_eq, div_le_iff₀ hScale] at hLow
  rw [dequantise_eq, le_div_iff₀ hScale] at hHigh
  have hNear := (roundsTo_quantise mode x q).near
  rw [max_eq_left hLow, min_eq_left hHigh, abs_sub_comm] at hNear
  have hError : dequantise (quantise mode x q) q - x =
      ((quantise mode x q : ℚ) - x * 2 ^ q.frac) / 2 ^ q.frac := by
    rw [dequantise_eq, sub_div, mul_div_cancel_right₀ _ hScale.ne']
  rw [hError, abs_div, abs_of_pos hScale, div_le_iff₀ hScale, zpow_neg]
  field_simp
  linarith

theorem quantise_below {x : ℚ} (hLow : x < dequantise q.minCode q) :
    quantise mode x q = q.minCode := by
  rw [dequantise_eq, lt_div_iff₀ (scale_pos q)] at hLow
  have hBounds : (q.minCode : ℚ) ≤ q.maxCode := by exact_mod_cast q.minCode_le_maxCode
  have hNear := roundsTo_quantise mode x q
  rw [max_eq_right hLow.le, min_eq_left hBounds] at hNear
  exact hNear.unique (roundsTo_intCast _ _)

theorem quantise_above {x : ℚ} (hHigh : dequantise q.maxCode q < x) :
    quantise mode x q = q.maxCode := by
  rw [dequantise_eq, div_lt_iff₀ (scale_pos q)] at hHigh
  have hBounds : (q.minCode : ℚ) ≤ q.maxCode := by exact_mod_cast q.minCode_le_maxCode
  have hNear := roundsTo_quantise mode x q
  rw [max_eq_left (hBounds.trans hHigh.le), min_eq_right hHigh.le] at hNear
  exact hNear.unique (roundsTo_intCast _ _)

theorem quantise_mono {x y : ℚ} (hOrder : x ≤ y) : quantise mode x q ≤ quantise mode y q := by
  have hScaled : x * 2 ^ q.frac ≤ y * 2 ^ q.frac :=
    mul_le_mul_of_nonneg_right hOrder (scale_pos q).le
  exact (roundsTo_quantise mode x q).mono (roundsTo_quantise mode y q)
    (min_le_min_right _ (max_le_max_right _ hScaled))

theorem quantise_inRange (x : ℚ) : InRange q.width (quantise mode x q) := by
  have hBounds := q.minCode_le_maxCode
  rw [quantise_eq, InRange]
  unfold QFormat.minCode QFormat.maxCode at *
  omega

theorem toInt_toWord (hWidth : q.width ≤ 32) (x : ℚ) :
    (toWord (quantise mode x q)).toInt = quantise mode x q :=
  toInt_ofInt ((quantise_inRange x).mono hWidth) (by decide)

/-! ## The stores -/

/-- The store of the scalar quantiser to its own element. -/
def storeAt (mode : RoundMode) (q : QFormat) (gains : List ℚ) (i : Nat) : Store :=
  (i, toWord (quantise mode (gains.getD i 0) q))

variable {gains : List ℚ} {lanes : Nat}

theorem storeLanes_eq (i : Nat) :
    storeLanes mode q gains lanes i = (List.range' i lanes).map (storeAt mode q gains) := by
  rw [storeLanes, List.range'_eq_map_range, List.map_map]
  rfl

/-- The vectors store the elements up to the first that is left, and each once. -/
theorem vectorBody_eq (fuel i : Nat) (hStart : i ≤ gains.length) :
    ∃ count, vectorBody mode q gains lanes fuel i =
      ((List.range' i count).map (storeAt mode q gains), i + count) ∧
        i + count ≤ gains.length := by
  induction fuel generalizing i with
  | zero => exact ⟨0, rfl, hStart⟩
  | succ fuel ih =>
      rw [vectorBody]
      split_ifs with hWhole
      · obtain ⟨count, hRest, hEnd⟩ := ih (i + lanes) hWhole
        refine ⟨lanes + count, ?_, by omega⟩
        rw [hRest, storeLanes_eq]
        dsimp only
        rw [← List.map_append, List.range'_append_1, Nat.add_assoc]
      · exact ⟨0, rfl, hStart⟩

theorem vectorBody_ends (hLanes : 0 < lanes) (fuel i : Nat) (hFuel : gains.length ≤ i + fuel) :
    gains.length < (vectorBody mode q gains lanes fuel i).2 + lanes := by
  induction fuel generalizing i with
  | zero =>
      rw [vectorBody]
      omega
  | succ fuel ih =>
      rw [vectorBody]
      split_ifs with hWhole
      · exact ih (i + lanes) (by omega)
      · exact Nat.lt_of_not_le hWhole

theorem scalarTail_eq (fuel i : Nat) (hFuel : gains.length ≤ i + fuel) :
    scalarTail mode q gains fuel i =
      (List.range' i (gains.length - i)).map (storeAt mode q gains) := by
  induction fuel generalizing i with
  | zero =>
      have hNone : gains.length - i = 0 := by omega
      rw [hNone]
      rfl
  | succ fuel ih =>
      rw [scalarTail]
      split_ifs with hMore
      · have hCount : gains.length - i = gains.length - (i + 1) + 1 := by omega
        rw [ih (i + 1) (by omega), hCount, List.range'_succ, List.map_cons]
        rfl
      · have hNone : gains.length - i = 0 := by omega
        rw [hNone]
        rfl

/-- Every element is stored once, in order, whatever the number of lanes. -/
theorem quantiseStores_eq :
    quantiseStores mode q lanes gains =
      (List.range gains.length).map (storeAt mode q gains) := by
  obtain ⟨count, hBody, hEnd⟩ :=
    @vectorBody_eq mode q gains lanes gains.length 0 (Nat.zero_le _)
  rw [Nat.zero_add] at hBody hEnd
  rw [quantiseStores, hBody]
  dsimp only
  have hCount : count + (gains.length - count) = gains.length := by omega
  have hSplit := @List.range'_append_1 0 count (gains.length - count)
  rw [Nat.zero_add, hCount] at hSplit
  rw [scalarTail_eq _ _ (Nat.le_add_left _ _), ← List.map_append, hSplit, List.range_eq_range']

/-- Stores to the first elements of the output. -/
theorem foldl_set_range {Value : Type} (word : Nat → Value) (out : List Value) (count : Nat)
    (hCount : count ≤ out.length) :
    ((List.range count).map fun i => (i, word i)).foldl
        (fun out store => out.set store.1 store.2) out =
      (List.range count).map word ++ out.drop count := by
  induction count with
  | zero => rfl
  | succ count ih =>
      have hNext : count < out.length := hCount
      have hLength : ((List.range count).map word).length = count := by simp
      rw [List.range_succ, List.map_append, List.foldl_append, ih hNext.le, List.map_append]
      simp only [List.map_cons, List.map_nil, List.foldl_cons, List.foldl_nil]
      rw [List.set_append_right _ _ hLength.le, hLength, Nat.sub_self,
        List.drop_eq_getElem_cons hNext, List.set_cons_zero, List.append_assoc]
      rfl

theorem quantiseInto_eq {out : List (BitVec 32)} (hLength : gains.length = out.length) :
    quantiseInto mode q lanes gains out = gains.map fun x => toWord (quantise mode x q) := by
  rw [quantiseInto, quantiseStores_eq]
  have hStores := foldl_set_range (fun i => toWord (quantise mode (gains.getD i 0) q)) out
    gains.length hLength.le
  have hDrop : out.drop gains.length = [] := by rw [hLength, List.drop_length]
  rw [hDrop, List.append_nil] at hStores
  refine hStores.trans ?_
  refine List.ext_getElem (by simp) fun i hLeft hRight => ?_
  rw [List.length_map] at hRight
  simp [List.getD_eq_getElem?_getD, List.getElem?_eq_getElem hRight]

/-- The laws of the quantiser for every format of up to 32 bits. -/
theorem quantiser_laws (mode : RoundMode) {q : QFormat} (hWidth : 2 ≤ q.width ∧ q.width ≤ 32) :
    (∀ code, q.minCode ≤ code → code ≤ q.maxCode →
      quantise mode (dequantise code q) q = code) ∧
    (∀ x, dequantise q.minCode q ≤ x → x ≤ dequantise q.maxCode q →
      |dequantise (quantise mode x q) q - x| ≤ 2 ^ (-q.frac) / 2) ∧
    (∀ x, x < dequantise q.minCode q → quantise mode x q = q.minCode) ∧
    (∀ x, dequantise q.maxCode q < x → quantise mode x q = q.maxCode) ∧
    (∀ x y, x ≤ y → quantise mode x q ≤ quantise mode y q) ∧
    ∀ (lanes : Nat) (gains : List ℚ) (out : List (BitVec 32)), 0 < lanes →
      gains.length = out.length →
      gains.length < (vectorBody mode q gains lanes gains.length 0).2 + lanes ∧
        (quantiseStores mode q lanes gains).map Prod.fst = List.range gains.length ∧
        quantiseInto mode q lanes gains out = gains.map (fun x => toWord (quantise mode x q)) ∧
        ∀ x, (toWord (quantise mode x q)).toInt = quantise mode x q := by
  refine ⟨fun code => quantise_dequantise, fun x => dequantise_quantise, fun x => quantise_below,
    fun x => quantise_above, fun x y => quantise_mono, fun lanes gains out hLanes hLength => ?_⟩
  refine ⟨vectorBody_ends hLanes _ _ (Nat.le_add_left _ _), ?_, quantiseInto_eq hLength,
    toInt_toWord hWidth.2⟩
  rw [quantiseStores_eq, List.map_map]
  exact List.map_id _

/-- Seven gains in vectors of four lanes, in the format of the gains. -/
theorem quantiser_laws_gains :
    quantise .halfAway (dequantise (-5) ⟨32, 25⟩) ⟨32, 25⟩ = -5 ∧
      (quantiseStores .halfEven ⟨32, 25⟩ 4 [1, 1 / 2, -1, 3, 0, -100, 2]).map Prod.fst =
        [0, 1, 2, 3, 4, 5, 6] :=
  ⟨(@quantiser_laws .halfAway ⟨32, 25⟩ (by decide)).1 (-5) (by decide) (by decide),
    ((@quantiser_laws .halfEven ⟨32, 25⟩ (by decide)).2.2.2.2.2 4
      [1, 1 / 2, -1, 3, 0, -100, 2] (List.replicate 7 0) (by decide) rfl).2.1⟩

end Lqr
