import Mathlib.Algebra.BigOperators.Group.Finset.Basic
import Mathlib.Algebra.Order.BigOperators.Group.Finset
import Mathlib.Data.BitVec
import Mathlib.Data.Finset.Fold
import Mathlib.Tactic.Linarith
import Mathlib.Tactic.Ring
import PandaBridge.Clocked.Run
import PandaBridge.Fpga.PcapFrame

/-! The window of a trigger: the gated ticks since the trigger before it. The registers of the frame
hold the aggregates of the window so far, those of the positions one clock late. -/
namespace Fpga

namespace PcapFrame

open Clocked

variable {stdDev : Bool}

theorem map_accumulate {Value Image : Type} (f : Value → Image) (s : PcapFrameMode.State)
    (clear set extended kept : Value) :
    f (PcapFrameMode.accumulate s clear set extended kept) =
      PcapFrameMode.accumulate s (f clear) (f set) (f extended) (f kept) := by
  unfold PcapFrameMode.accumulate
  split_ifs <;> rfl

theorem setWidth_square (value : BitVec 32) :
    (value.signExtend 64 * value.signExtend 64).setWidth 104 =
      BitVec.ofInt 104 (value.toInt ^ 2) := by
  have hLow : -2 ^ 31 ≤ value.toInt := value.le_toInt
  have hHigh : value.toInt < 2 ^ 31 := value.toInt_lt
  have hRange := mul_nonneg (sub_nonneg.mpr hLow) (sub_nonneg.mpr hHigh.le)
  have hSquare : value.toInt * value.toInt < 2 ^ 64 := by linarith
  have hPositive := mul_self_nonneg value.toInt
  rw [BitVec.signExtend, ← BitVec.ofInt_mul, sq]
  generalize value.toInt * value.toInt = square at hSquare hPositive
  apply BitVec.eq_of_toNat_eq
  rw [BitVec.toNat_setWidth, BitVec.toNat_ofInt, BitVec.toNat_ofInt]
  omega

section Window

variable (run : Run (step stdDev))

def gateAt (clock : Nat) : Bool := (run.input clock).gate

def pulse (clock : Nat) : Bool := trigPulse (run.state clock) (run.input clock)

/-- The value of a position at a tick, as a number. -/
def valueAt (position : Fin 32) (clock : Nat) : Int := ((run.input clock).posBus position).toInt

/-- How much a position moves from a tick to the next. -/
def changeAt (position : Fin 32) (clock : Nat) : Int :=
  valueAt run position (clock + 1) - valueAt run position clock

/-- The gated ticks that a trigger at this clock takes in: those since the last trigger before it
and since the frame was enabled. -/
def window (trigger : Nat) : Finset Nat :=
  (Finset.range trigger).filter fun tick =>
    gateAt run tick = true ∧
      (∀ later < trigger, tick ≤ later → (run.input later).enable = true) ∧
      ∀ later < trigger, tick < later → pulse run later = false

theorem not_mem_window_self (clock : Nat) : clock ∉ window run clock := by
  simp [window]

theorem window_succ (clock : Nat) : window run (clock + 1) =
    if (run.input clock).enable = false then ∅
    else if gateAt run clock then
      if pulse run clock then {clock} else insert clock (window run clock)
    else if pulse run clock then ∅ else window run clock := by
  ext tick
  cases hEnable : (run.input clock).enable with
  | false =>
      simp only [window, if_true, Finset.notMem_empty, iff_false, Finset.mem_filter,
        Finset.mem_range]
      rintro ⟨hTick, -, hEnabled, -⟩
      exact absurd (hEnabled clock (Nat.lt_succ_self clock) (by omega)) (by simp [hEnable])
  | true =>
      have hEarlier : tick < clock → (tick ∈ window run (clock + 1) ↔
          tick ∈ window run clock ∧ pulse run clock = false) := by
        intro hTick
        simp only [window, Finset.mem_filter, Finset.mem_range, hTick, Nat.lt_succ_of_lt hTick,
          true_and, Nat.lt_succ_iff_lt_or_eq, or_imp, forall_and, forall_eq, hEnable,
          implies_true, and_true]
        simp only [true_imp_iff, and_assoc]
      have hNow : clock ∈ window run (clock + 1) ↔ gateAt run clock = true := by
        simp only [window, Finset.mem_filter, Finset.mem_range, Nat.lt_succ_self, true_and]
        refine ⟨fun h => h.1, fun hGate => ⟨hGate, fun later hLater hFrom => ?_,
          fun later hLater hFrom => absurd hFrom (by omega)⟩⟩
        obtain rfl : later = clock := by omega
        exact hEnable
      have hLate : clock < tick → tick ∉ window run (clock + 1) ∧ tick ∉ window run clock := by
        intro hTick
        simp only [window, Finset.mem_filter, Finset.mem_range]
        exact ⟨fun h => by omega, fun h => by omega⟩
      have hSelf := not_mem_window_self run clock
      rcases Nat.lt_trichotomy tick clock with hTick | rfl | hTick
      · rw [hEarlier hTick]
        cases hGate : gateAt run clock <;> cases hPulse : pulse run clock <;>
          simp [Nat.ne_of_lt hTick]
      · rw [hNow]
        cases hGate : gateAt run tick <;> cases hPulse : pulse run tick <;> simp [hSelf]
      · obtain ⟨hNext, hLast⟩ := hLate hTick
        cases hGate : gateAt run clock <;> cases hPulse : pulse run clock <;>
          simp [hNext, hLast, Nat.ne_of_gt hTick]

/-- What `accumulate` does in the pipeline of a position, by the tick that it sees. -/
theorem accumulate_eq {Value : Type} (clock : Nat) (position : Fin 32)
    (clear set extended kept : Value) :
    PcapFrameMode.accumulate ((run.state (clock + 1)).modes position) clear set extended kept =
      if !(run.input clock).enable || pulse run clock && !gateAt run clock then clear
      else if pulse run clock && gateAt run clock then set
      else if gateAt run clock then extended
      else kept := by
  rw [run.edge]
  rfl

/-- A register that starts anew with a trigger, and takes every gated tick in, holds its
aggregate of the window. -/
theorem accumulated {Value : Type} (aggregate : Finset Nat → Value)
    (insertValue : Nat → Value → Value) (position : Fin 32) (register : PcapFrameMode.State → Value)
    (hInsert : ∀ tick ticks, tick ∉ ticks →
      aggregate (insert tick ticks) = insertValue tick (aggregate ticks))
    (hStep : ∀ clock, register ((run.state (clock + 2)).modes position) =
      PcapFrameMode.accumulate ((run.state (clock + 1)).modes position) (aggregate ∅)
        (aggregate {clock})
        (insertValue clock (register ((run.state (clock + 1)).modes position)))
        (register ((run.state (clock + 1)).modes position)))
    (hFirst : register ((run.state 1).modes position) = aggregate ∅)
    (clock : Nat) :
    register ((run.state (clock + 1)).modes position) = aggregate (window run clock) := by
  induction clock with
  | zero => rw [hFirst]; rfl
  | succ clock ih =>
      rw [hStep, accumulate_eq, window_succ, ih]
      have hNew := hInsert clock (window run clock) (not_mem_window_self run clock)
      cases (run.input clock).enable <;> cases pulse run clock <;> cases gateAt run clock <;>
        simp [hNew]

section Registers

variable (hBoot : run.state 0 = .boot)
include hBoot

theorem modes_first (position : Fin 32) : (run.state 1).modes position =
    PcapFrameMode.step stdDev .boot (modeInput .boot (run.input 0) position) := by
  rw [run.edge, hBoot]
  rfl

omit hBoot in
theorem valueR1_eq (position : Fin 32) (clock : Nat) :
    ((run.state (clock + 1)).modes position).valueR1 = (run.input clock).posBus position := by
  rw [run.edge]
  rfl

omit hBoot in
theorem valueSqR1_eq (position : Fin 32) (clock : Nat) :
    ((run.state (clock + 1)).modes position).valueSqR1 =
      ((run.input clock).posBus position).signExtend 64 *
        ((run.input clock).posBus position).signExtend 64 := by
  rw [run.edge]
  rfl

theorem sumData_eq (position : Fin 32) (clock : Nat) :
    ((run.state (clock + 1)).modes position).sumData =
      BitVec.ofInt 72 (∑ tick ∈ window run clock, valueAt run position tick) := by
  refine accumulated run
    (fun ticks => BitVec.ofInt 72 (∑ tick ∈ ticks, valueAt run position tick))
    (fun tick sum => sum + BitVec.ofInt 72 (valueAt run position tick)) position
    PcapFrameMode.State.sumData (fun tick ticks hTick => ?_) (fun clock => ?_) ?_ clock
  · rw [Finset.sum_insert hTick, BitVec.ofInt_add, BitVec.add_comm]
  · rw [Finset.sum_empty, Finset.sum_singleton, valueAt, ← valueR1_eq, run.edge (clock + 1)]
    rfl
  · rw [modes_first run hBoot]
    rfl

/-- The number of gated ticks, as far as it fits its register. -/
theorem cntSamples_eq (hGate : ∀ clock, gateAt run clock = true → (run.input clock).enable = true)
    (clock : Nat) : (run.state clock).cntSamples = BitVec.ofNat 40 (window run clock).card := by
  induction clock with
  | zero => rw [hBoot]; rfl
  | succ clock ih =>
      have hStep : (run.state (clock + 1)).cntSamples =
          if pulse run clock || !(run.input clock).enable then
            if gateAt run clock then 1 else 0
          else if gateAt run clock then (run.state clock).cntSamples + 1
          else (run.state clock).cntSamples := by
        rw [run.edge]
        rfl
      have hCount : BitVec.ofNat 40 ((window run clock).card + 1) =
          BitVec.ofNat 40 (window run clock).card + 1 := by
        rw [BitVec.ofNat_add]
        rfl
      have hGated := hGate clock
      rw [hStep, window_succ, ih]
      cases hEnable : (run.input clock).enable <;> cases pulse run clock <;>
        cases hNow : gateAt run clock <;>
        simp [hEnable, hNow, Finset.card_insert_of_notMem (not_mem_window_self run clock), hCount]
          at hGated ⊢

theorem sumDataSq_eq (hOption : stdDev = true) (position : Fin 32) (clock : Nat) :
    ((run.state (clock + 1)).modes position).sumDataSq =
      BitVec.ofInt 104 (∑ tick ∈ window run clock, valueAt run position tick ^ 2) := by
  refine accumulated run
    (fun ticks => BitVec.ofInt 104 (∑ tick ∈ ticks, valueAt run position tick ^ 2))
    (fun tick sum => sum + BitVec.ofInt 104 (valueAt run position tick ^ 2)) position
    PcapFrameMode.State.sumDataSq (fun tick ticks hTick => ?_) (fun clock => ?_) ?_ clock
  · rw [Finset.sum_insert hTick, BitVec.ofInt_add, BitVec.add_comm]
  · rw [Finset.sum_empty, Finset.sum_singleton, valueAt, ← setWidth_square, ← valueSqR1_eq,
      run.edge (clock + 1)]
    exact if_pos hOption
  · rw [modes_first run hBoot]
    exact if_pos hOption

theorem minVal_eq (position : Fin 32) (clock : Nat) :
    ((run.state (clock + 1)).modes position).minVal.toInt =
      (window run clock).fold min (2 ^ 31 - 1) (valueAt run position) := by
  refine accumulated run (fun ticks => ticks.fold min (2 ^ 31 - 1) (valueAt run position))
    (fun tick least => min (valueAt run position tick) least) position
    (fun s => s.minVal.toInt) (fun tick ticks hTick => Finset.fold_insert hTick)
    (fun clock => ?_) ?_ clock
  · have hBound : valueAt run position clock ≤ 2 ^ 31 - 1 := Int.le_sub_one_of_lt BitVec.toInt_lt
    rw [Finset.fold_singleton, min_eq_left hBound, Finset.fold_empty, valueAt, ← valueR1_eq]
    generalize hState : (run.state (clock + 1)).modes position = s
    have hStep : ((run.state (clock + 2)).modes position).minVal =
        PcapFrameMode.accumulate s 0x7FFFFFFF s.valueR1
          (if s.valueR1.slt s.minVal then s.valueR1 else s.minVal) s.minVal := by
      rw [run.edge (clock + 1), ← hState]
      rfl
    rw [hStep, map_accumulate BitVec.toInt]
    congr 1
    rw [BitVec.slt_eq_decide]
    by_cases hLess : s.valueR1.toInt < s.minVal.toInt
    · rw [if_pos (decide_eq_true hLess), min_eq_left hLess.le]
    · rw [if_neg (by simpa using hLess), min_eq_right (not_lt.mp hLess)]
  · rw [modes_first run hBoot]
    rfl

theorem maxVal_eq (position : Fin 32) (clock : Nat) :
    ((run.state (clock + 1)).modes position).maxVal.toInt =
      (window run clock).fold max (-2 ^ 31) (valueAt run position) := by
  refine accumulated run (fun ticks => ticks.fold max (-2 ^ 31) (valueAt run position))
    (fun tick most => max (valueAt run position tick) most) position
    (fun s => s.maxVal.toInt) (fun tick ticks hTick => Finset.fold_insert hTick)
    (fun clock => ?_) ?_ clock
  · have hBound : -2 ^ 31 ≤ valueAt run position clock := BitVec.le_toInt _
    rw [Finset.fold_singleton, max_eq_left hBound, Finset.fold_empty, valueAt, ← valueR1_eq]
    generalize hState : (run.state (clock + 1)).modes position = s
    have hStep : ((run.state (clock + 2)).modes position).maxVal =
        PcapFrameMode.accumulate s 0x80000000 s.valueR1
          (if s.maxVal.slt s.valueR1 then s.valueR1 else s.maxVal) s.maxVal := by
      rw [run.edge (clock + 1), ← hState]
      rfl
    rw [hStep, map_accumulate BitVec.toInt]
    congr 1
    rw [BitVec.slt_eq_decide]
    by_cases hLess : s.maxVal.toInt < s.valueR1.toInt
    · rw [if_pos (decide_eq_true hLess), max_eq_left hLess.le]
    · rw [if_neg (by simpa using hLess), max_eq_right (not_lt.mp hLess)]
  · rw [modes_first run hBoot]
    rfl

/-- The differences of the window, with those of the last gated tick still to be added while the
gate is high. -/
theorem diffSum_eq (hGate : ∀ clock, gateAt run clock = true → (run.input clock).enable = true)
    (position : Fin 32) (clock : Nat) :
    (let s := (run.state (clock + 1)).modes position
     if s.gateR2 then s.diffSum + s.valueR1 - s.startVal else s.diffSum) =
      BitVec.ofInt 32 (∑ tick ∈ window run clock, changeAt run position tick) := by
  induction clock with
  | zero =>
      simp only [modes_first run hBoot]
      rfl
  | succ clock ih =>
      have hNext : (run.state (clock + 2)).modes position =
          PcapFrameMode.step stdDev ((run.state (clock + 1)).modes position)
            (modeInput (run.state (clock + 1)) (run.input (clock + 1)) position) := by
        rw [run.edge (clock + 1)]
        rfl
      have hNow := valueR1_eq run position clock
      have hRegisters : ((run.state (clock + 1)).modes position).enableR1 =
            (run.input clock).enable ∧
          ((run.state (clock + 1)).modes position).gateR1 = gateAt run clock ∧
          ((run.state (clock + 1)).modes position).trigR1 = pulse run clock := by
        rw [run.edge]
        exact ⟨rfl, rfl, rfl⟩
      generalize (run.state (clock + 1)).modes position = s at ih hNow hNext hRegisters
      have hDifference : BitVec.ofInt 32 (changeAt run position clock) =
          (run.input (clock + 1)).posBus position - s.valueR1 := by
        rw [hNow, changeAt, Int.sub_eq_add_neg, BitVec.ofInt_add, BitVec.ofInt_neg, valueAt, valueAt,
          BitVec.ofInt_toInt, BitVec.ofInt_toInt, BitVec.sub_eq_add_neg]
      have hInsert : BitVec.ofInt 32 (∑ tick ∈ insert clock (window run clock), changeAt run position tick) =
          (run.input (clock + 1)).posBus position - s.valueR1 +
            BitVec.ofInt 32 (∑ tick ∈ window run clock, changeAt run position tick) := by
        rw [Finset.sum_insert (not_mem_window_self run clock), BitVec.ofInt_add, hDifference]
      have hGated := hGate clock
      rw [hNext, window_succ]
      simp only [PcapFrameMode.step, PcapFrameMode.addedDiff, PcapFrameMode.nextStartVal,
        hRegisters, modeInput]
      cases hEnable : (run.input clock).enable <;> cases pulse run clock <;>
        cases hHigh : gateAt run clock <;> cases hBefore : s.gateR2 <;>
        simp [hEnable, hHigh, hBefore] at hGated ih ⊢
      all_goals first
        | exact ih
        | exact hDifference.symm
        | rw [hInsert, ← ih]; ring

omit hBoot in
/-- What a trigger puts out of a position, from the registers of the clock after it. -/
theorem outputs_after (position : Fin 32) {trigger : Nat} (hPulse : pulse run trigger = true) :
    let s := (run.state (trigger + 1)).modes position
    let shift := (run.input (trigger + 1)).shiftSum.toNat
    ((run.state (trigger + 2)).modes position).outputs =
      ![s.valueR1, PcapFrameMode.addedDiff s,
        (s.sumData.sshiftRight shift).extractLsb' 0 32,
        (s.sumData.sshiftRight shift).extractLsb' 32 32, s.minVal, s.maxVal,
        if stdDev then (s.sumDataSq >>> shift).extractLsb' 0 32 else 0,
        if stdDev then (s.sumDataSq >>> shift).extractLsb' 32 32 else 0,
        if stdDev then (s.sumDataSq >>> shift).extractLsb' 64 32 else 0] := by
  have hTrig : ((run.state (trigger + 1)).modes position).trigR1 = true := by
    rw [run.edge, ← hPulse]
    rfl
  have hNext : (run.state (trigger + 2)).modes position =
      PcapFrameMode.step stdDev ((run.state (trigger + 1)).modes position)
        (modeInput (run.state (trigger + 1)) (run.input (trigger + 1)) position) := by
    rw [run.edge (trigger + 1)]
    rfl
  rw [hNext]
  cases stdDev <;> simp [PcapFrameMode.State.outputs, PcapFrameMode.step, hTrig, modeInput]

theorem addedDiff_at (hGate : ∀ clock, gateAt run clock = true → (run.input clock).enable = true)
    (position : Fin 32) {trigger : Nat} (hPulse : pulse run trigger = true)
    (hEnable : (run.input trigger).enable = true) :
    PcapFrameMode.addedDiff ((run.state (trigger + 1)).modes position) =
      BitVec.ofInt 32 (∑ tick ∈ window run trigger, changeAt run position tick) := by
  have hSum := diffSum_eq run hBoot hGate position trigger
  have hRegisters : ((run.state (trigger + 1)).modes position).enableR1 = true ∧
      ((run.state (trigger + 1)).modes position).trigR1 = true := by
    rw [run.edge]
    exact ⟨hEnable, hPulse⟩
  rw [← hSum]
  simp [PcapFrameMode.addedDiff, hRegisters]

end Registers

/-! ### The width of the registers -/

theorem sum_bounds (ticks : Finset Nat) (position : Fin 32) :
    -(ticks.card * 2 ^ 31 : Int) ≤ ∑ tick ∈ ticks, valueAt run position tick ∧
      ∑ tick ∈ ticks, valueAt run position tick ≤ ticks.card * 2 ^ 31 := by
  have hLow := Finset.card_nsmul_le_sum ticks (valueAt run position) (-2 ^ 31)
    fun tick _ => BitVec.le_toInt _
  have hHigh := Finset.sum_le_card_nsmul ticks (valueAt run position) (2 ^ 31)
    fun tick _ => BitVec.toInt_lt.le
  simp only [nsmul_eq_mul] at hLow hHigh
  exact ⟨by linarith, hHigh⟩

theorem squares_bounds (ticks : Finset Nat) (position : Fin 32) :
    0 ≤ ∑ tick ∈ ticks, valueAt run position tick ^ 2 ∧
      ∑ tick ∈ ticks, valueAt run position tick ^ 2 ≤ ticks.card * 2 ^ 62 := by
  have hSquare : ∀ tick ∈ ticks, valueAt run position tick ^ 2 ≤ 2 ^ 62 := fun tick _ => by
    have hLow : -2 ^ 31 ≤ valueAt run position tick := BitVec.le_toInt _
    have hHigh : valueAt run position tick < 2 ^ 31 := BitVec.toInt_lt
    have hRange := mul_nonneg (sub_nonneg.mpr hLow) (sub_nonneg.mpr hHigh.le)
    linarith
  have hHigh := Finset.sum_le_card_nsmul ticks _ _ hSquare
  simp only [nsmul_eq_mul] at hHigh
  exact ⟨Finset.sum_nonneg fun tick _ => sq_nonneg _, hHigh⟩

end Window

theorem append_halves (sum : BitVec 72) :
    sum.extractLsb' 32 32 ++ sum.extractLsb' 0 32 = BitVec.ofInt 64 sum.toInt := by
  rw [BitVec.extractLsb'_append_extractLsb'_eq_extractLsb' (show 32 = 0 + 32 from rfl)]
  apply BitVec.eq_of_toNat_eq
  rw [BitVec.toNat_ofInt, BitVec.extractLsb'_toNat, Nat.shiftRight_zero, BitVec.toInt_eq_toNat_cond]
  split_ifs <;> omega

theorem append_thirds (sum : BitVec 104) :
    sum.extractLsb' 64 32 ++ (sum.extractLsb' 32 32 ++ sum.extractLsb' 0 32) =
      BitVec.ofNat 96 sum.toNat := by
  rw [BitVec.extractLsb'_append_extractLsb'_eq_extractLsb' (show 32 = 0 + 32 from rfl),
    BitVec.extractLsb'_append_extractLsb'_eq_extractLsb' (show 64 = 0 + (32 + 32) from rfl)]
  apply BitVec.eq_of_toNat_eq
  rw [BitVec.toNat_ofNat, BitVec.extractLsb'_toNat, Nat.shiftRight_zero]

end PcapFrame

end Fpga
