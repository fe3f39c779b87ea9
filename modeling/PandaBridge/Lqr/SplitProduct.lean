import PandaBridge.Lqr.MacLane

/-! The split multiplier of `mac_lane` for operands of any width: the pairs may enter with
pauses, and what the lane shows after them is the exact sum of their products. -/
namespace Lqr

open FixedPoint Clocked

/-- What `num_chunks` promises for operands of a width: lower chunks that are full strides
without sign, a top chunk of one bit at least that fits its port, and no bit lost. -/
structure Chunking (width port : Nat) : Prop where
  stride : ∀ i, i + 1 < numChunks width port → (port - 1) * (i + 1) ≤ width
  lower : ∀ (value : BitVec width) (i : Nat), i + 1 < numChunks width port →
    0 ≤ (chunk port value i).toInt ∧ (chunk port value i).toInt < 2 ^ (port - 1)
  top : 1 ≤ width - (port - 1) * (numChunks width port - 1) ∧
    width - (port - 1) * (numChunks width port - 1) ≤ port
  recombine : ∀ value : BitVec width, ∑ i ∈ Finset.range (numChunks width port),
    (chunk port value i).toInt * 2 ^ ((port - 1) * i) = value.toInt

theorem chunking {width port : Nat} (hWidth : 0 < width) (hPort : 2 ≤ port) :
    Chunking width port where
  stride i hLower := by
    have hTop := (topChunk_width hWidth hPort).1
    have hStep : (port - 1) * (i + 1) ≤ (port - 1) * (numChunks width port - 1) :=
      Nat.mul_le_mul_left _ (by omega)
    omega
  lower value i hLower := by
    have hPos : (0 : Int) < 2 ^ (port - 1) := by positivity
    rw [toInt_lowerChunk value hPort hLower]
    exact ⟨Int.emod_nonneg _ hPos.ne', Int.emod_lt_of_pos _ hPos⟩
  top := by
    obtain ⟨hTop, hFits⟩ := topChunk_width hWidth hPort
    exact ⟨by omega, hFits⟩
  recombine value := sum_chunk value hWidth hPort

section Lane

variable {aW bW : Nat}

/-- The pairs that enter the lane in an interval, those with the enable set. -/
def MacLane.entered (input : Nat → MacLane.Input aW bW) (clock : Nat) :
    Nat → List (BitVec aW × BitVec bW)
  | 0 => []
  | span + 1 =>
      let before := entered input clock span
      if (input (clock + span)).en then
        before ++ [((input (clock + span)).a, (input (clock + span)).b)]
      else before

/-- The first pair of the interval is loaded and the others accumulate. -/
def MacLane.LoadsFirst (input : Nat → MacLane.Input aW bW) (clock span : Nat) : Prop :=
  ∀ c < span, (input (clock + c)).en = true →
    ((input (clock + c)).load = true ↔ MacLane.entered input clock c = [])

/-- The products of the chunks that cell `(i, j)` sees. -/
def cellSum (pairs : List (BitVec aW × BitVec bW)) (i j : Nat) : Int :=
  (pairs.map fun pair =>
    (chunk dspCoeffW pair.1 i).toInt * (chunk dspDataW pair.2 j).toInt).sum

/-- The sum the lane is for. -/
def productSum (pairs : List (BitVec aW × BitVec bW)) : Int :=
  (pairs.map fun pair => pair.1.toInt * pair.2.toInt).sum

theorem MacLane.cell_of_entered
    (run : Run (MacLane.step : MacLane → MacLane.Input aW bW → MacLane)) {clock span : Nat}
    (hInit : ∀ later, clock ≤ later → later ≤ clock + span + 1 → (run.input later).init = false)
    (hLoad : LoadsFirst run.input clock span) (i j : Nat) {count : Nat} (hCount : count ≤ span)
    (hSome : entered run.input clock count ≠ []) :
    ((run.state (clock + count + 2)).cells i j).p =
      BitVec.ofInt dspAccW (cellSum (entered run.input clock count) i j) := by
  let cell : Run Panda1Dsp.step := run.component Panda1Dsp.step (fun lane => lane.cells i j)
    (fun _ input => cellInput input i j) fun _ _ => rfl
  induction count with
  | zero => exact absurd rfl hSome
  | succ count ih =>
      have hLatency : ((run.state (clock + count + 3)).cells i j).p =
          if (run.input (clock + count)).en then
            (if (run.input (clock + count)).load then BitVec.ofNat dspAccW 0
              else ((run.state (clock + count + 2)).cells i j).p) +
              BitVec.ofInt dspAccW ((chunk dspCoeffW (run.input (clock + count)).a i).toInt *
                (chunk dspDataW (run.input (clock + count)).b j).toInt)
          else ((run.state (clock + count + 2)).cells i j).p :=
        Panda1Dsp.p_latency cell (clock + count) fun later hFrom hTo =>
          hInit later (by omega) (by omega)
      cases hEn : (run.input (clock + count)).en with
      | false =>
          simp only [entered, hEn, Bool.false_eq_true, if_false] at hSome hLatency ⊢
          exact hLatency.trans (ih (by omega) hSome)
      | true =>
          have hFirst := hLoad count (by omega) hEn
          simp only [entered, hEn, if_true] at hLatency ⊢
          refine hLatency.trans ?_
          rw [cellSum, List.map_append, List.sum_append, BitVec.ofInt_add, List.map_singleton,
            List.sum_singleton]
          congr 1
          by_cases hNone : entered run.input clock count = []
          · rw [if_pos (hFirst.mpr hNone), hNone]
            rfl
          · rw [if_neg fun h => hNone (hFirst.mp h)]
            exact ih (by omega) hNone

theorem sum_cellSum (hA : 0 < aW) (hB : 0 < bW) (pairs : List (BitVec aW × BitVec bW)) :
    ∑ i ∈ Finset.range (numChunks aW dspCoeffW), ∑ j ∈ Finset.range (numChunks bW dspDataW),
        cellSum pairs i j * (2 ^ ((dspCoeffW - 1) * i) * 2 ^ ((dspDataW - 1) * j)) =
      productSum pairs := by
  induction pairs with
  | nil => simp [cellSum, productSum]
  | cons pair pairs ih =>
      have hSplit := sum_split_products (numChunks aW dspCoeffW) (numChunks bW dspDataW) 1
        (fun _ i => (chunk dspCoeffW pair.1 i).toInt) (fun _ j => (chunk dspDataW pair.2 j).toInt)
        (fun i => 2 ^ ((dspCoeffW - 1) * i)) fun j => 2 ^ ((dspDataW - 1) * j)
      simp only [Finset.sum_range_one] at hSplit
      rw [sum_chunk pair.1 hA (by decide), sum_chunk pair.2 hB (by decide)] at hSplit
      simp only [cellSum, productSum, List.map_cons, List.sum_cons, add_mul,
        Finset.sum_add_distrib] at ih ⊢
      rw [hSplit, ih]

/-- While the sums fit, the lane shows the sum of the products. -/
theorem toInt_combine {accW : Nat} (hA : 0 < aW) (hB : 0 < bW) (hAcc : dspAccW ≤ accW)
    {pairs : List (BitVec aW × BitVec bW)} {cellAcc : Nat → Nat → BitVec dspAccW}
    (hCells : ∀ i < numChunks aW dspCoeffW, ∀ j < numChunks bW dspDataW,
      (cellAcc i j).toInt = cellSum pairs i j)
    (hSum : InRange accW (productSum pairs)) :
    (combine accW (numChunks aW dspCoeffW) (numChunks bW dspDataW) cellAcc).toInt =
      productSum pairs := by
  rw [combine_eq_ofInt hAcc]
  have hExact := sum_cellSum hA hB pairs
  rw [← Finset.sum_congr rfl fun i hi => Finset.sum_congr rfl fun j hj => by
    rw [← hCells i (Finset.mem_range.mp hi) j (Finset.mem_range.mp hj)]] at hExact
  rw [hExact, toInt_ofInt hSum (Nat.lt_of_lt_of_le (by decide) hAcc)]

/-- The number of pairs a lane takes: one less than the six guard bits of a cell allow, unless
the top chunks leave their ports free. -/
def RowFits (aW bW count : Nat) : Prop := count ≤ 63 ∨ aW = 42 ∧ bW = 32 ∧ count ≤ 64

theorem inRange_cellSum {pairs : List (BitVec aW × BitVec bW)} (hRow : RowFits aW bW pairs.length)
    {i j : Nat} (hi : i < numChunks aW dspCoeffW) (hj : j < numChunks bW dspDataW) :
    InRange dspAccW (cellSum pairs i j) := by
  rcases hRow with hCount | ⟨rfl, rfl, hCount⟩
  · have hCast : (pairs.length : Int) ≤ 63 := by exact_mod_cast hCount
    apply inRange_listSum (2 ^ 24 * 2 ^ 17)
    · intro term hMem
      obtain ⟨pair, -, rfl⟩ := List.mem_map.mp hMem
      rw [abs_mul]
      exact mul_le_mul (abs_toInt_le _) (abs_toInt_le _) (abs_nonneg _) (by positivity)
    · rw [List.length_map]
      norm_num
      omega
  · have hCast : (pairs.length : Int) ≤ 64 := by exact_mod_cast hCount
    apply inRange_listSum ((2 ^ 24 - 1) * (2 ^ 17 - 1))
    · intro term hMem
      obtain ⟨pair, -, rfl⟩ := List.mem_map.mp hMem
      have hA := abs_chunk_lt pair.1 (by decide) hi (by decide)
      have hB := abs_chunk_lt pair.2 (by decide) hj (by decide)
      rw [abs_mul]
      exact mul_le_mul (Int.le_sub_one_of_lt hA) (Int.le_sub_one_of_lt hB) (abs_nonneg _)
        (by decide)
    · rw [List.length_map]
      norm_num
      omega

theorem inRange_productSum {accW : Nat} (hA : 0 < aW) (hB : 0 < bW) (hAcc : aW + bW + 6 ≤ accW)
    {pairs : List (BitVec aW × BitVec bW)} (hCount : pairs.length ≤ 64) :
    InRange accW (productSum pairs) := by
  have hCast : (pairs.length : Int) ≤ 64 := by exact_mod_cast hCount
  apply inRange_listSum (2 ^ (aW - 1) * 2 ^ (bW - 1))
  · intro term hMem
    obtain ⟨pair, -, rfl⟩ := List.mem_map.mp hMem
    rw [abs_mul]
    exact mul_le_mul (abs_toInt_le _) (abs_toInt_le _) (abs_nonneg _) (by positivity)
  · have hGuard : (2 : Int) ^ (aW - 1) * 2 ^ (bW - 1) * 64 < 2 ^ (accW - 1) :=
      calc (2 : Int) ^ (aW - 1) * 2 ^ (bW - 1) * 64 = 2 ^ (aW - 1 + (bW - 1) + 6) := by
            rw [pow_add, pow_add]
            norm_num
        _ < 2 ^ (accW - 1) := pow_lt_pow_right₀ (by decide) (by omega)
    have hPos : (0 : Int) < 2 ^ (aW - 1) * 2 ^ (bW - 1) := by positivity
    have hRow : (pairs.length : Int) * (2 ^ (aW - 1) * 2 ^ (bW - 1)) ≤
        64 * (2 ^ (aW - 1) * 2 ^ (bW - 1)) := mul_le_mul_of_nonneg_right hCast hPos.le
    rw [List.length_map]
    linarith

theorem MacLane.length_entered_le (input : Nat → MacLane.Input aW bW) (clock : Nat)
    {count span : Nat} (hCount : count ≤ span) :
    (entered input clock count).length ≤ (entered input clock span).length := by
  induction span, hCount using Nat.le_induction with
  | base => exact Nat.le_refl _
  | succ span _ ih =>
      simp only [entered]
      split_ifs
      · rw [List.length_append]
        omega
      · exact ih

end Lane

/-- The split multiplier is exact: the chunks are as the ports need them, no accumulator of a
cell wraps, and three clocks after a pair has entered the lane shows the sum of the products
so far. -/
theorem split_product_exact {aW bW accW : Nat} (hA : 1 ≤ aW) (hB : 1 ≤ bW)
    (hAcc : aW + bW + 6 ≤ accW) (hWide : dspAccW ≤ accW)
    (run : Run (MacLane.step : MacLane → MacLane.Input aW bW → MacLane)) {clock span : Nat}
    (hInit : ∀ later, clock ≤ later → later ≤ clock + span + 1 → (run.input later).init = false)
    (hLoad : MacLane.LoadsFirst run.input clock span)
    (hRow : RowFits aW bW (MacLane.entered run.input clock span).length) :
    Chunking aW dspCoeffW ∧ Chunking bW dspDataW ∧
      ∀ count ≤ span, MacLane.entered run.input clock count ≠ [] →
        (∀ i < numChunks aW dspCoeffW, ∀ j < numChunks bW dspDataW,
          ((run.state (clock + count + 2)).cells i j).p.toInt =
            cellSum (MacLane.entered run.input clock count) i j) ∧
        ((run.state (clock + count + 2)).acc aW bW accW).toInt =
          productSum (MacLane.entered run.input clock count) := by
  refine ⟨chunking hA (by decide), chunking hB (by decide), fun count hCount hSome => ?_⟩
  have hFewer : RowFits aW bW (MacLane.entered run.input clock count).length := by
    have hLength := MacLane.length_entered_le run.input clock hCount
    rcases hRow with hRow | ⟨hA, hB, hRow⟩
    · exact .inl (hLength.trans hRow)
    · exact .inr ⟨hA, hB, hLength.trans hRow⟩
  have hCells : ∀ i < numChunks aW dspCoeffW, ∀ j < numChunks bW dspDataW,
      ((run.state (clock + count + 2)).cells i j).p.toInt =
        cellSum (MacLane.entered run.input clock count) i j := by
    intro i hi j hj
    rw [MacLane.cell_of_entered run hInit hLoad i j hCount hSome]
    exact toInt_ofInt (inRange_cellSum hFewer hi hj) (by decide)
  have hAtMost : (MacLane.entered run.input clock count).length ≤ 64 := by
    rcases hFewer with hRow | ⟨-, -, hRow⟩
    · omega
    · exact hRow
  exact ⟨hCells, toInt_combine hA hB hWide hCells (inRange_productSum hA hB hAcc hAtMost)⟩

/-- A lane of 26 bits, so of two chunks, with a pause between two most negative operands. -/
def splitInputs (clock : Nat) : MacLane.Input 26 2 where
  init := false
  a := BitVec.intMin 26
  b := BitVec.intMin 2
  load := clock = 0
  en := clock = 0 ∨ clock = 2

def splitRun : Run (MacLane.step : MacLane → MacLane.Input 26 2 → MacLane) :=
  Run.ofInputs _ ⟨fun _ _ => ⟨false, false, false, 0, 0, 0, 0, 0⟩⟩ splitInputs

theorem split_product_exact_pause : ((splitRun.state 5).acc 26 2 48).toInt = 2 ^ 27 := by
  have hLoad : MacLane.LoadsFirst splitRun.input 0 3 := by
    unfold MacLane.LoadsFirst
    decide
  obtain ⟨-, -, hAll⟩ := @split_product_exact 26 2 48 (by decide) (by decide) (by decide)
    (by decide) splitRun 0 3 (fun _ _ _ => rfl) hLoad (.inl (by decide))
  obtain ⟨-, hSum⟩ := hAll 3 (Nat.le_refl 3) (by decide)
  exact hSum.trans (by decide)

end Lqr
