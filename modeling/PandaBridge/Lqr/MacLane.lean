import Mathlib.Algebra.Order.Ring.Abs
import PandaBridge.Clocked.Run
import PandaBridge.Lqr.FpUtils
import PandaBridge.Lqr.NumUtils

/-! The wide multiply-accumulate lane: operands split into chunks, one DSP48E1
with its pipeline registers for every pair of chunks, and the sum of the shifted
cells. -/
namespace Lqr

open FixedPoint Clocked

/-- `DSP_COEFF_W`, `DSP_DATA_W` and `DSP_ACC_W`. -/
abbrev dspCoeffW : Nat := 25

abbrev dspDataW : Nat := 18

abbrev dspAccW : Nat := 48

structure Panda1Dsp.Input where
  rst : Bool
  load : Bool
  en : Bool
  a : BitVec dspCoeffW
  b : BitVec dspDataW

/-- `panda1_dsp`: the shift registers of the wrapper and the registers A, B, M, P
and OPMODE of the DSP48E1. -/
structure Panda1Dsp where
  loadD1 : Bool
  enD1 : Bool
  enD2 : Bool
  aReg : BitVec 30
  bReg : BitVec dspDataW
  mReg : BitVec 43
  opmodeReg : BitVec 7
  p : BitVec dspAccW

namespace Panda1Dsp

/-- The OPMODE port: X and Y take the product, Z takes zero or the accumulator. -/
def opmode (dsp : Panda1Dsp) : BitVec 7 := if dsp.loadD1 then 0b0000101#7 else 0b0100101#7

/-- `Z + X + Y` for the multiplexer settings in use. -/
def alu (opmode : BitVec 7) (m : BitVec 43) (p : BitVec dspAccW) : BitVec dspAccW :=
  (if opmode.extractLsb' 4 3 = 0b010#3 then p else 0) +
    (if opmode.extractLsb' 0 4 = 0b0101#4 then m.signExtend dspAccW else 0)

def step (dsp : Panda1Dsp) (input : Input) : Panda1Dsp :=
  if input.rst then
    { loadD1 := false, enD1 := false, enD2 := false, aReg := 0, bReg := 0, mReg := 0
      opmodeReg := 0, p := 0 }
  else
    { loadD1 := input.load
      enD1 := input.en
      enD2 := dsp.enD1
      aReg := resize 30 input.a
      bReg := input.b
      mReg := BitVec.ofInt 43 ((dsp.aReg.setWidth dspCoeffW).toInt * dsp.bReg.toInt)
      opmodeReg := dsp.opmode
      p := if dsp.enD2 then alu dsp.opmodeReg dsp.mReg dsp.p else dsp.p }

end Panda1Dsp

/-- Chunk `i` of an operand: a full stride read without sign below the top, and the
signed rest at the top. -/
def chunk {width : Nat} (port : Nat) (value : BitVec width) (i : Nat) : BitVec port :=
  if i + 1 < numChunks width port then
    (value.extractLsb' ((port - 1) * i) (port - 1)).setWidth port
  else resize port (value.extractLsb' ((port - 1) * i) (width - (port - 1) * i))

/-- The `combine` process: every cell, sign extended and moved to its weight. -/
def combine (accW nA nB : Nat) (cellAcc : Nat → Nat → BitVec dspAccW) : BitVec accW :=
  (List.range nA).foldl (fun v i =>
    (List.range nB).foldl (fun v j =>
      v + (resize accW (cellAcc i j)) <<< ((dspCoeffW - 1) * i + (dspDataW - 1) * j)) v) 0

structure MacLane.Input (aW bW : Nat) where
  init : Bool
  a : BitVec aW
  b : BitVec bW
  load : Bool
  en : Bool

/-- `mac_lane`: a grid of DSP cells that share load and enable. -/
structure MacLane where
  cells : Nat → Nat → Panda1Dsp

namespace MacLane

variable {aW bW : Nat}

def cellInput (input : Input aW bW) (i j : Nat) : Panda1Dsp.Input where
  rst := input.init
  load := input.load
  en := input.en
  a := chunk dspCoeffW input.a i
  b := chunk dspDataW input.b j

def step (lane : MacLane) (input : Input aW bW) : MacLane where
  cells i j := (lane.cells i j).step (cellInput input i j)

/-- `acc_o`. -/
def acc (aW bW accW : Nat) (lane : MacLane) : BitVec accW :=
  combine accW (numChunks aW dspCoeffW) (numChunks bW dspDataW) fun i j => (lane.cells i j).p

end MacLane

/-! ## Chunks -/

section Chunks

variable {width : Nat} (value : BitVec width)

/-- Dropping low bits from the bits and from the value differ by the sign. -/
private theorem toNat_div_two_pow {low : Nat} (hLow : low ≤ width) :
    (value.toNat : Int) / 2 ^ low =
      value.toInt / 2 ^ low + (if value.msb then 1 else 0) * 2 ^ (width - low) := by
  have hSplit : (2 : Int) ^ width = 2 ^ low * 2 ^ (width - low) := by
    rw [← pow_add, Nat.add_sub_cancel' hLow]
  have hNat : (value.toNat : Int) =
      value.toInt + 2 ^ low * ((if value.msb then 1 else 0) * 2 ^ (width - low)) := by
    rw [BitVec.toInt_eq_msb_cond]
    split_ifs
    · push_cast
      rw [hSplit]
      ring
    · ring
  rw [hNat, Int.add_mul_ediv_left _ _ (by positivity)]

theorem toInt_lowerChunk {port i : Nat} (hPort : 2 ≤ port)
    (hLower : i + 1 < numChunks width port) :
    (chunk port value i).toInt = value.toInt / 2 ^ ((port - 1) * i) % 2 ^ (port - 1) := by
  have hWidth : 0 < width := by
    by_contra hZero
    rw [numChunks, if_pos (by omega)] at hLower
    omega
  have hFull : (port - 1) * i + (port - 1) ≤ width := by
    have hTop := (topChunk_width hWidth hPort).1
    have hStep : (port - 1) * (i + 1) ≤ (port - 1) * (numChunks width port - 1) :=
      Nat.mul_le_mul_left _ (by omega)
    rw [Nat.mul_succ] at hStep
    omega
  have hRest : (2 : Int) ^ (width - (port - 1) * i) =
      2 ^ (port - 1) * 2 ^ (width - (port - 1) * i - (port - 1)) := by
    rw [← pow_add]
    congr 1
    omega
  have hDigit : ((value.toNat >>> ((port - 1) * i) % 2 ^ (port - 1) : Nat) : Int) =
      value.toInt / 2 ^ ((port - 1) * i) % 2 ^ (port - 1) := by
    rw [Nat.shiftRight_eq_div_pow]
    push_cast
    rw [toNat_div_two_pow value (by omega), hRest, mul_left_comm, Int.add_mul_emod_self_left]
  rw [chunk, if_pos hLower, ← hDigit, ← BitVec.extractLsb'_toNat]
  rw [BitVec.toInt_eq_toNat_of_lt, BitVec.toNat_setWidth_of_le (by omega)]
  rw [BitVec.toNat_setWidth_of_le (by omega)]
  have hBound := (value.extractLsb' ((port - 1) * i) (port - 1)).isLt
  have hTwice : 2 ^ port = 2 * 2 ^ (port - 1) := by
    rw [← Nat.pow_succ', Nat.succ_eq_add_one, Nat.sub_add_cancel (by omega)]
  omega

theorem toInt_topChunk {port : Nat} (hWidth : 0 < width) (hPort : 2 ≤ port) :
    (chunk port value (numChunks width port - 1)).toInt =
      value.toInt / 2 ^ ((port - 1) * (numChunks width port - 1)) := by
  obtain ⟨hTop, hFits⟩ := topChunk_width hWidth hPort
  have hCount := numChunks_pos width port
  rw [chunk, if_neg (by omega), resize, if_pos hFits, BitVec.toInt_signExtend_of_le hFits,
    BitVec.toInt_extractLsb', Nat.shiftRight_eq_div_pow]
  push_cast
  generalize (port - 1) * (numChunks width port - 1) = low at *
  obtain ⟨more, hMore⟩ : ∃ more, width = low + (more + 1) := ⟨width - low - 1, by omega⟩
  have hRange := inRange_toInt value
  have hPow : (2 : Int) ^ (width - 1) = 2 ^ more * 2 ^ low := by
    rw [← pow_add]
    congr 1
    omega
  rw [InRange, hPow] at hRange
  have hLow : (0 : Int) < 2 ^ low := by positivity
  have hQuotient : InRange (more + 1) (value.toInt / 2 ^ low) := by
    rw [InRange, Nat.add_sub_cancel, Int.le_ediv_iff_mul_le hLow, Int.ediv_lt_iff_lt_mul hLow]
    constructor <;> linarith [hRange.1, hRange.2]
  have hBits := congrArg BitVec.toInt (ofInt_add_mul_two_pow (more + 1) (value.toInt / 2 ^ low)
    (if value.msb then 1 else 0))
  rw [toInt_ofInt hQuotient (by omega), BitVec.toInt_ofInt] at hBits
  rw [toNat_div_two_pow value (by omega), show width - low = more + 1 by omega]
  exact_mod_cast hBits

theorem sum_chunk {port : Nat} (hWidth : 0 < width) (hPort : 2 ≤ port) :
    ∑ i ∈ Finset.range (numChunks width port),
      (chunk port value i).toInt * 2 ^ ((port - 1) * i) = value.toInt := by
  have hCount := numChunks_pos width port
  obtain ⟨lower, hLower⟩ : ∃ lower, numChunks width port = lower + 1 :=
    ⟨numChunks width port - 1, by omega⟩
  have hTop := toInt_topChunk value hWidth hPort
  rw [hLower, Nat.add_sub_cancel] at hTop
  rw [hLower, Finset.sum_range_succ, hTop]
  conv_rhs => rw [sum_digits value.toInt (port - 1) lower]
  congr 1
  apply Finset.sum_congr rfl
  intro i hMem
  rw [Finset.mem_range] at hMem
  rw [toInt_lowerChunk value hPort (by omega)]

theorem abs_chunk_lt {port i : Nat} (hPort : 2 ≤ port) (hi : i < numChunks width port)
    (hTop : width - (port - 1) * (numChunks width port - 1) < port) :
    |(chunk port value i).toInt| < 2 ^ (port - 1) := by
  by_cases hLower : i + 1 < numChunks width port
  · have hPos : (0 : Int) < 2 ^ (port - 1) := by positivity
    rw [toInt_lowerChunk value hPort hLower, abs_of_nonneg (Int.emod_nonneg _ hPos.ne')]
    exact Int.emod_lt_of_pos _ hPos
  · obtain rfl : i = numChunks width port - 1 := by omega
    rw [chunk, if_neg hLower, resize, if_pos hTop.le, BitVec.toInt_signExtend_of_le hTop.le]
    have hRange := inRange_toInt (value.extractLsb' ((port - 1) * (numChunks width port - 1))
      (width - (port - 1) * (numChunks width port - 1)))
    have hPow : (2 : Int) ^ (width - (port - 1) * (numChunks width port - 1) - 1) <
        2 ^ (port - 1) := pow_lt_pow_right₀ (by decide) (by omega)
    exact abs_lt.mpr ⟨by linarith [hRange.1], by linarith [hRange.2]⟩

end Chunks

/-! ## The pipeline of one cell -/

namespace Panda1Dsp

theorem alu_load (m : BitVec 43) (p : BitVec dspAccW) :
    alu 0b0000101#7 m p = m.signExtend dspAccW := by
  simp [alu]

theorem alu_accumulate (m : BitVec 43) (p : BitVec dspAccW) :
    alu 0b0100101#7 m p = p + m.signExtend dspAccW := by
  simp [alu]

theorem product_exact (a : BitVec dspCoeffW) (b : BitVec dspDataW) :
    (BitVec.ofInt 43 (((resize 30 a).setWidth dspCoeffW).toInt * b.toInt)).signExtend dspAccW =
      BitVec.ofInt dspAccW (a.toInt * b.toInt) := by
  have hPort : (resize 30 a).setWidth dspCoeffW = a := by
    apply BitVec.eq_of_getLsbD_eq
    intro i hBit
    rw [resize, if_pos (by decide), BitVec.getLsbD_setWidth, BitVec.getLsbD_signExtend]
    have hWide : i < 30 := Nat.lt_trans hBit (by decide)
    simp [hBit, hWide]
  have hLarge : |a.toInt * b.toInt| ≤ 2 ^ 24 * 2 ^ 17 := by
    rw [abs_mul]
    exact mul_le_mul (abs_toInt_le a) (abs_toInt_le b) (abs_nonneg _) (by positivity)
  have hFits : InRange 43 (a.toInt * b.toInt) := by
    obtain ⟨hLow, hHigh⟩ := abs_le.mp hLarge
    exact ⟨by norm_num at hLow ⊢; omega, by norm_num at hHigh ⊢; omega⟩
  apply BitVec.eq_of_toInt_eq
  rw [hPort, BitVec.toInt_signExtend_of_le (by decide), toInt_ofInt hFits (by decide),
    toInt_ofInt (hFits.mono (by decide)) (by decide)]

theorem step_of_not_rst (dsp : Panda1Dsp) (input : Input) (hRst : input.rst = false) :
    dsp.step input =
      { loadD1 := input.load
        enD1 := input.en
        enD2 := dsp.enD1
        aReg := resize 30 input.a
        bReg := input.b
        mReg := BitVec.ofInt 43 ((dsp.aReg.setWidth dspCoeffW).toInt * dsp.bReg.toInt)
        opmodeReg := dsp.opmode
        p := if dsp.enD2 then alu dsp.opmodeReg dsp.mReg dsp.p else dsp.p } := by
  rw [step, hRst, if_neg Bool.false_ne_true]

/-- The product reaches the accumulator three edges after its operands, and load
and enable arrive with it. -/
theorem p_latency (run : Run step) (clock : Nat)
    (hRst : ∀ later, clock ≤ later → later ≤ clock + 2 → (run.input later).rst = false) :
    (run.state (clock + 3)).p =
      if (run.input clock).en then
        (if (run.input clock).load then BitVec.ofNat dspAccW 0 else (run.state (clock + 2)).p) +
          BitVec.ofInt dspAccW ((run.input clock).a.toInt * (run.input clock).b.toInt)
      else (run.state (clock + 2)).p := by
  have hFirst := (run.edge clock).trans (step_of_not_rst _ _ (hRst clock (by omega) (by omega)))
  have hSecond := (run.edge (clock + 1)).trans
    (step_of_not_rst _ _ (hRst (clock + 1) (by omega) (by omega)))
  have hThird := (run.edge (clock + 2)).trans
    (step_of_not_rst _ _ (hRst (clock + 2) (by omega) (by omega)))
  have hEn : (run.state (clock + 2)).enD2 = (run.input clock).en := by rw [hSecond, hFirst]
  have hProduct : (run.state (clock + 2)).mReg.signExtend dspAccW =
      BitVec.ofInt dspAccW ((run.input clock).a.toInt * (run.input clock).b.toInt) := by
    rw [hSecond, hFirst]
    exact product_exact _ _
  have hMode : (run.state (clock + 2)).opmodeReg =
      if (run.input clock).load then 0b0000101#7 else 0b0100101#7 := by
    rw [hSecond, hFirst]
    rfl
  rw [hThird]
  simp only [hEn, hMode]
  cases (run.input clock).load with
  | false => simp only [Bool.false_eq_true, if_false, alu_accumulate, hProduct]
  | true => simp only [if_true, alu_load, hProduct, BitVec.zero_add]

end Panda1Dsp

/-! ## Rows of products -/

section Rows

variable {aW bW : Nat} (a : Nat → BitVec aW) (b : Nat → BitVec bW)

/-- What cell `(i, j)` holds after the first `count` pairs: the sum of the chunk
products in the width of its accumulator. -/
def accumulated (count i j : Nat) : BitVec dspAccW :=
  BitVec.ofInt dspAccW
    (∑ c ∈ Finset.range count, (chunk dspCoeffW (a c) i).toInt * (chunk dspDataW (b c) j).toInt)

/-- What the lane then shows. -/
def laneSum (accW count : Nat) : BitVec accW :=
  combine accW (numChunks aW dspCoeffW) (numChunks bW dspDataW) (accumulated a b count)

variable {a b} in
theorem laneSum_congr {a' : Nat → BitVec aW} {b' : Nat → BitVec bW} {accW count : Nat}
    (hA : ∀ c < count, a c = a' c) (hB : ∀ c < count, b c = b' c) :
    laneSum a b accW count = laneSum a' b' accW count := by
  have hCells : accumulated a b count = accumulated a' b' count := by
    funext i j
    unfold accumulated
    congr 1
    apply Finset.sum_congr rfl
    intro c hMem
    rw [Finset.mem_range] at hMem
    rw [hA c hMem, hB c hMem]
  rw [laneSum, laneSum, hCells]

theorem MacLane.cell_accumulates
    (run : Run (MacLane.step : MacLane → MacLane.Input aW bW → MacLane)) {clock count : Nat}
    (hInit : ∀ later, clock ≤ later → later ≤ clock + count + 1 → (run.input later).init = false)
    (hEn : ∀ c < count, (run.input (clock + c)).en = true)
    (hLoad : ∀ c < count, (run.input (clock + c)).load = decide (c = 0))
    (hA : ∀ c < count, (run.input (clock + c)).a = a c)
    (hB : ∀ c < count, (run.input (clock + c)).b = b c) (i j : Nat) {c : Nat} (hc : c < count) :
    ((run.state (clock + c + 3)).cells i j).p = accumulated a b (c + 1) i j := by
  let cell : Run Panda1Dsp.step := run.component Panda1Dsp.step (fun lane => lane.cells i j)
    (fun _ input => cellInput input i j) fun _ _ => rfl
  have hStep : ∀ c < count, ((run.state (clock + c + 3)).cells i j).p =
      (if c = 0 then BitVec.ofNat dspAccW 0 else ((run.state (clock + c + 2)).cells i j).p) +
        BitVec.ofInt dspAccW ((chunk dspCoeffW (a c) i).toInt * (chunk dspDataW (b c) j).toInt) := by
    intro c hc
    have hLatency := Panda1Dsp.p_latency cell (clock + c) fun later hFrom hTo =>
      hInit later (by omega) (by omega)
    simp only [cell, Run.component, cellInput, hEn c hc, hLoad c hc, hA c hc, hB c hc,
      decide_eq_true_eq, if_true] at hLatency
    exact hLatency
  induction c with
  | zero =>
      rw [hStep 0 hc, if_pos rfl, BitVec.zero_add, accumulated, Finset.sum_range_one]
  | succ c ih =>
      rw [hStep (c + 1) hc, if_neg (Nat.succ_ne_zero c), accumulated, Finset.sum_range_succ,
        BitVec.ofInt_add]
      exact congrArg (· + _) (ih (by omega))

theorem MacLane.acc_of_row
    (run : Run (MacLane.step : MacLane → MacLane.Input aW bW → MacLane)) (clock : Nat) {count : Nat}
    (hCount : 0 < count)
    (hInit : ∀ later, clock ≤ later → later ≤ clock + count + 1 → (run.input later).init = false)
    (hEn : ∀ c < count, (run.input (clock + c)).en = true)
    (hLoad : ∀ c < count, (run.input (clock + c)).load = decide (c = 0))
    (hA : ∀ c < count, (run.input (clock + c)).a = a c)
    (hB : ∀ c < count, (run.input (clock + c)).b = b c) (accW : Nat) :
    (run.state (clock + count + 2)).acc aW bW accW = laneSum a b accW count := by
  obtain ⟨less, rfl⟩ : ∃ less, count = less + 1 := ⟨count - 1, by omega⟩
  rw [acc, laneSum]
  congr 1
  funext i j
  have hCell := MacLane.cell_accumulates a b run hInit hEn hLoad hA hB i j (Nat.lt_succ_self less)
  rw [← hCell]
  rfl

theorem combine_eq_ofInt {accW : Nat} (hAcc : dspAccW ≤ accW) (nA nB : Nat)
    (cellAcc : Nat → Nat → BitVec dspAccW) :
    combine accW nA nB cellAcc = BitVec.ofInt accW
      (∑ i ∈ Finset.range nA, ∑ j ∈ Finset.range nB,
        (cellAcc i j).toInt * (2 ^ ((dspCoeffW - 1) * i) * 2 ^ ((dspDataW - 1) * j))) := by
  have hCell : ∀ i j, (resize accW (cellAcc i j)) <<< ((dspCoeffW - 1) * i + (dspDataW - 1) * j) =
      BitVec.ofInt accW
        ((cellAcc i j).toInt * (2 ^ ((dspCoeffW - 1) * i) * 2 ^ ((dspDataW - 1) * j))) := by
    intro i j
    have hFits := (inRange_toInt (cellAcc i j)).mono hAcc
    have hPos : 0 < accW := Nat.lt_of_lt_of_le (by decide) hAcc
    have hWiden : resize accW (cellAcc i j) = BitVec.ofInt accW (cellAcc i j).toInt := by
      apply BitVec.eq_of_toInt_eq
      rw [toInt_resize hFits hPos, toInt_ofInt hFits hPos]
    rw [hWiden, ofInt_shiftLeft, pow_add]
  have hRow : ∀ (i n : Nat) (v : BitVec accW), (List.range n).foldl (fun v j =>
        v + (resize accW (cellAcc i j)) <<< ((dspCoeffW - 1) * i + (dspDataW - 1) * j)) v =
      v + BitVec.ofInt accW (∑ j ∈ Finset.range n,
        (cellAcc i j).toInt * (2 ^ ((dspCoeffW - 1) * i) * 2 ^ ((dspDataW - 1) * j))) := by
    intro i n v
    induction n with
    | zero => simp
    | succ n ih =>
        rw [List.range_succ, List.foldl_append, ih, Finset.sum_range_succ, BitVec.ofInt_add,
          ← BitVec.add_assoc, ← hCell]
        rfl
  unfold combine
  simp only [hRow]
  induction nA with
  | zero => simp
  | succ nA ih =>
      rw [List.range_succ, List.foldl_append, ih, Finset.sum_range_succ, BitVec.ofInt_add]
      rfl

/-- While neither a cell nor the output overflows, the split product is exact. -/
theorem toInt_laneSum {accW count : Nat} (hA : 0 < aW) (hB : 0 < bW) (hAcc : dspAccW ≤ accW)
    (hCells : ∀ i < numChunks aW dspCoeffW, ∀ j < numChunks bW dspDataW, InRange dspAccW
      (∑ c ∈ Finset.range count,
        (chunk dspCoeffW (a c) i).toInt * (chunk dspDataW (b c) j).toInt))
    (hSum : InRange accW (∑ c ∈ Finset.range count, (a c).toInt * (b c).toInt)) :
    (laneSum a b accW count).toInt = ∑ c ∈ Finset.range count, (a c).toInt * (b c).toInt := by
  have hCell : ∀ i ∈ Finset.range (numChunks aW dspCoeffW),
      ∀ j ∈ Finset.range (numChunks bW dspDataW), (accumulated a b count i j).toInt =
        ∑ c ∈ Finset.range count,
          (chunk dspCoeffW (a c) i).toInt * (chunk dspDataW (b c) j).toInt := by
    intro i hi j hj
    exact toInt_ofInt (hCells i (Finset.mem_range.mp hi) j (Finset.mem_range.mp hj)) (by decide)
  have hExact : ∑ i ∈ Finset.range (numChunks aW dspCoeffW),
      ∑ j ∈ Finset.range (numChunks bW dspDataW), (accumulated a b count i j).toInt *
        (2 ^ ((dspCoeffW - 1) * i) * 2 ^ ((dspDataW - 1) * j)) =
      ∑ c ∈ Finset.range count, (a c).toInt * (b c).toInt := by
    rw [Finset.sum_congr rfl fun i hi => Finset.sum_congr rfl fun j hj => by rw [hCell i hi j hj],
      sum_split_products]
    apply Finset.sum_congr rfl
    intro c _
    rw [sum_chunk (a c) hA (by decide), sum_chunk (b c) hB (by decide)]
  rw [laneSum, combine_eq_ofInt hAcc, hExact, toInt_ofInt hSum (Nat.lt_of_lt_of_le (by decide) hAcc)]

/-- The lane of the engine is exact for rows of up to 64 columns. -/
theorem toInt_laneSum_of_le {a : Nat → BitVec 42} {b : Nat → BitVec 32} {count : Nat}
    (hCount : count ≤ 64) :
    (laneSum a b 82 count).toInt = ∑ c ∈ Finset.range count, (a c).toInt * (b c).toInt := by
  have hCast : (count : Int) ≤ 64 := by exact_mod_cast hCount
  apply toInt_laneSum a b (by decide) (by decide) (by decide)
  · intro i hi j hj
    apply inRange_sum ((2 ^ 24 - 1) * (2 ^ 17 - 1))
    · intro c _
      have hA := abs_chunk_lt (a c) (by decide) hi (by decide)
      have hB := abs_chunk_lt (b c) (by decide) hj (by decide)
      rw [abs_mul]
      exact mul_le_mul (Int.le_sub_one_of_lt hA) (Int.le_sub_one_of_lt hB) (abs_nonneg _)
        (by decide)
    · norm_num
      omega
  · apply inRange_sum (2 ^ 41 * 2 ^ 31)
    · intro c _
      rw [abs_mul]
      exact mul_le_mul (abs_toInt_le (a c)) (abs_toInt_le (b c)) (abs_nonneg _) (by positivity)
    · norm_num
      omega

end Rows

end Lqr
