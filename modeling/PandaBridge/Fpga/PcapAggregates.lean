import PandaBridge.Fpga.PcapRows
import PandaBridge.Fpga.PcapWindow

/-! The rows of position capture: what a row holds of the positions is the aggregate of its
trigger's window. -/
namespace Fpga

namespace PcapFrame

open Clocked

variable {stdDev : Bool} (run : Run (step stdDev))

/-- The registers of a trigger hold the aggregates of its window without any wrapping around. -/
structure ExactAt (trigger : Nat) : Prop where
  samples : (run.state trigger).cntSamples.toNat = (window run trigger).card
  sum : ∀ position, ((run.state (trigger + 1)).modes position).sumData.toInt =
    ∑ tick ∈ window run trigger, valueAt run position tick
  squares : stdDev = true → ∀ position,
    (((run.state (trigger + 1)).modes position).sumDataSq.toNat : Int) =
      ∑ tick ∈ window run trigger, valueAt run position tick ^ 2

/-- A row whose values and whose number of samples are those of its trigger's window. Without the
standard deviation option the squares are zero. -/
structure Aggregates (trigger shift : Nat) (row : ModeTsBits) : Prop where
  samples : row.ts 6 = BitVec.ofNat 32 ((window run trigger).card >>> shift)
  value : ∀ position, row.mode position 0 = (run.input trigger).posBus position
  diff : ∀ position, row.mode position 1 =
    BitVec.ofInt 32 (∑ tick ∈ window run trigger, changeAt run position tick)
  sum : ∀ position, row.mode position 3 ++ row.mode position 2 =
    BitVec.ofInt 64 ((∑ tick ∈ window run trigger, valueAt run position tick) >>> shift)
  min : ∀ position, (row.mode position 4).toInt =
    (window run trigger).fold min (2 ^ 31 - 1) (valueAt run position)
  max : ∀ position, (row.mode position 5).toInt =
    (window run trigger).fold max (-2 ^ 31) (valueAt run position)
  squares : ∀ position,
    row.mode position 8 ++ (row.mode position 7 ++ row.mode position 6) =
      if stdDev then
        BitVec.ofInt 96 ((∑ tick ∈ window run trigger, valueAt run position tick ^ 2) >>> shift)
      else 0

variable {run}

theorem exactAt (hBoot : run.state 0 = .boot)
    (hGate : ∀ clock, gateAt run clock = true → (run.input clock).enable = true) {trigger : Nat}
    (hSmall : (window run trigger).card < 2 ^ 40) : ExactAt run trigger where
  samples := by
    rw [cntSamples_eq run hBoot hGate, BitVec.toNat_ofNat, Nat.mod_eq_of_lt hSmall]
  sum position := by
    obtain ⟨hLow, hHigh⟩ := sum_bounds run (window run trigger) position
    rw [sumData_eq run hBoot, BitVec.toInt_ofInt_eq_self (by decide)] <;> omega
  squares hOption position := by
    obtain ⟨hLow, hHigh⟩ := squares_bounds run (window run trigger) position
    rw [sumDataSq_eq run hBoot hOption, BitVec.toNat_ofInt]
    omega

/-- A capture as the frame latches it: the timestamps, the samples and the bit bus a clock after
the trigger, the end of the gate and the positions two. -/
def latchedRow (run : Run (step stdDev)) (trigger : Nat) : ModeTsBits where
  mode position := ((run.state (trigger + 2)).modes position).outputs
  ts := ![(run.state (trigger + 1)).tsStartDly.extractLsb' 0 32,
    (run.state (trigger + 1)).tsStartDly.extractLsb' 32 32,
    (run.state (trigger + 2)).tsEnd.extractLsb' 0 32,
    (run.state (trigger + 2)).tsEnd.extractLsb' 32 32,
    (run.state (trigger + 1)).tsTrig.extractLsb' 0 32,
    (run.state (trigger + 1)).tsTrig.extractLsb' 32 32, (run.state (trigger + 1)).samples]
  bits := (run.state (trigger + 1)).bitBus

/-- A trigger is through the pipeline of the positions after two clocks. -/
theorem trigInt_after (clock : Nat) :
    trigInt (run.state (clock + 2)) = pulse run clock := by
  rw [run.edge, run.edge]
  rfl

/-- The latched row reaches the output, when no trigger follows at once. -/
theorem modeTsBits_out {trigger : Nat} (hPulse : pulse run trigger = true)
    (hNext : pulse run (trigger + 1) = false) (hEnable : (run.input (trigger + 1)).enable = true)
    (hOut : (run.state (trigger + 3)).trigDly = true) :
    (run.state (trigger + 4)).modeTsBits = latchedRow run trigger := by
  have hInt : trigInt (run.state (trigger + 2)) = true := by rw [trigInt_after, hPulse]
  obtain ⟨hStart, hTrig, hSamples, hBits⟩ := @latched_step stdDev _ _ hNext hEnable
  rw [← run.edge (trigger + 1)] at hStart hTrig hSamples hBits
  have hOutputs (position : Fin 32) : ((run.state (trigger + 3)).modes position).outputs =
      ((run.state (trigger + 2)).modes position).outputs := by
    have hTrigR1 : ((run.state (trigger + 2)).modes position).trigR1 = false := by
      rw [run.edge, ← hNext]
      rfl
    have hSquares : stdDev = false →
        PcapFrameMode.NoSquares ((run.state (trigger + 2)).modes position) := fun hOption => by
      rw [run.edge]
      exact PcapFrameMode.noSquares_step hOption
    rw [run.edge (trigger + 2)]
    exact PcapFrameMode.outputs_step hTrigR1 hSquares
  have hRow : (run.state (trigger + 4)).modeTsBits =
      nextModeTsBits (run.state (trigger + 3)) := by
    rw [run.edge (trigger + 3)]
    exact if_pos hOut
  have hLatched : (run.state (trigger + 3)).tsStartO = (run.state (trigger + 2)).tsStartDly ∧
      (run.state (trigger + 3)).tsEndO = (run.state (trigger + 2)).tsEnd ∧
      (run.state (trigger + 3)).tsTrigO = (run.state (trigger + 2)).tsTrig ∧
      (run.state (trigger + 3)).samplesO = (run.state (trigger + 2)).samples ∧
      (run.state (trigger + 3)).bits = (run.state (trigger + 2)).bitBus := by
    rw [run.edge (trigger + 2)]
    exact ⟨if_pos hInt, if_pos hInt, if_pos hInt, if_pos hInt, if_pos hInt⟩
  obtain ⟨hStartO, hEndO, hTrigO, hSamplesO, hBitsO⟩ := hLatched
  rw [hRow, nextModeTsBits, latchedRow, hStartO, hEndO, hTrigO, hSamplesO, hBitsO, hStart, hTrig,
    hSamples, hBits]
  simp only [hOutputs]

/-- The output stands still until the next trigger has come through. -/
theorem modeTsBits_kept {trigger clock : Nat} (hFrom : trigger + 4 ≤ clock)
    (hQuiet : ∀ later, trigger < later → later + 4 ≤ clock → pulse run later = false) :
    (run.state clock).modeTsBits = (run.state (trigger + 4)).modeTsBits := by
  refine stable_of_kept (fun clock => (run.state clock).modeTsBits) (trigger + 4) clock
    (fun before hBefore hAfter => ?_) hFrom le_rfl
  obtain ⟨later, rfl⟩ : ∃ later, before = later + 3 := ⟨before - 3, by omega⟩
  have hDly : (run.state (later + 3)).trigDly = false := by
    have hInt := @trigInt_after stdDev run later
    rw [hQuiet later (by omega) (by omega)] at hInt
    rw [run.edge (later + 2)]
    simp [step, hInt]
  rw [run.edge (later + 3)]
  exact if_neg (by simp [hDly])

theorem latchedRow_aggregates (hBoot : run.state 0 = .boot)
    (hGate : ∀ clock, gateAt run clock = true → (run.input clock).enable = true)
    {trigger shift : Nat} (hPulse : pulse run trigger = true)
    (hEnable : (run.input trigger).enable = true)
    (hShift : (run.input trigger).shiftSum.toNat = shift ∧
      (run.input (trigger + 1)).shiftSum.toNat = shift)
    (hSmall : (window run trigger).card < 2 ^ 40) :
    Aggregates run trigger shift (latchedRow run trigger) := by
  have hExact := exactAt hBoot hGate hSmall
  have hMode (position : Fin 32) := (show (latchedRow run trigger).mode position =
    ((run.state (trigger + 2)).modes position).outputs from rfl).trans
      (outputs_after run position hPulse)
  simp only [hShift.2] at hMode
  refine ⟨?_, fun position => ?_, fun position => ?_, fun position => ?_, fun position => ?_,
    fun position => ?_, fun position => ?_⟩
  · have hTrig : trigPulse (run.state trigger) (run.input trigger) = true := hPulse
    have hSamples : (latchedRow run trigger).ts 6 =
        ((run.state trigger).cntSamples >>> shift).extractLsb' 0 32 := by
      rw [show (latchedRow run trigger).ts 6 = (run.state (trigger + 1)).samples from rfl,
        run.edge, ← hShift.1]
      exact if_pos (by rw [hTrig]; rfl)
    rw [hSamples]
    apply BitVec.eq_of_toNat_eq
    rw [BitVec.extractLsb'_toNat, BitVec.toNat_ushiftRight, hExact.samples, Nat.shiftRight_zero,
      BitVec.toNat_ofNat]
  · rw [hMode, ← valueR1_eq]
    rfl
  · rw [hMode]
    exact addedDiff_at run hBoot hGate position hPulse hEnable
  · rw [hMode]
    exact (append_halves _).trans (by rw [BitVec.toInt_sshiftRight, hExact.sum])
  · rw [hMode]
    exact minVal_eq run hBoot position trigger
  · rw [hMode]
    exact maxVal_eq run hBoot position trigger
  · rw [hMode]
    by_cases hOption : stdDev = true
    · simp only [if_pos hOption, ← hExact.squares hOption position]
      refine (append_thirds _).trans ?_
      rw [BitVec.toNat_ushiftRight, ← BitVec.ofInt_natCast]
      rfl
    · simp only [if_neg hOption]
      exact (by decide : (0#32 ++ (0#32 ++ 0#32) : BitVec 96) = 0)

end PcapFrame

namespace PcapArming

theorem armed_of_step {s : State} {i : Input} (hArmed : (step s i).pcapArmed = true) :
    s.pcapArmed = true ∨ i.arm = true := by
  cases hBefore : s.pcapArmed with
  | true => exact .inl rfl
  | false =>
      cases hArm : i.arm with
      | true => exact .inr rfl
      | false =>
          cases hReset : i.reset <;> cases hFsm : s.fsm <;>
            simp [step, machine, hBefore, hArm, hReset, hFsm] at hArmed
          all_goals split_ifs at hArmed

end PcapArming

namespace PcapCore

open Clocked PcapFrame

variable {stdDev : Bool}

/-- The frame of position capture in a run of it. -/
def frameRun (run : Run (step stdDev)) : Run (PcapFrame.step stdDev) :=
  run.component (PcapFrame.step stdDev) State.frame frameInput fun _ _ => rfl

/-- At this clock the output holds the row of a trigger: the trigger falls into an acquisition, its
row is put out, and the next trigger has not come through yet. -/
structure RowAt (run : Run (step stdDev)) (trigger clock : Nat) : Prop where
  pulse : pulse (frameRun run) trigger = true
  enabled : ((frameRun run).input trigger).enable = true
  out : (run.state (trigger + 3)).frame.trigO = true
  after : trigger + 4 ≤ clock
  last : ∀ later, trigger < later → later + 4 ≤ clock → PcapFrame.pulse (frameRun run) later = false

theorem frame_gate (run : Run (step stdDev)) (clock : Nat)
    (hGate : gateAt (frameRun run) clock = true) :
    ((frameRun run).input clock).enable = true := by
  change (((run.input clock).arm || (run.state clock).arming.pcapArmed) &&
    (run.input clock).gate && (run.input clock).enable) = true at hGate
  change ((run.state clock).arming.pcapArmed || (run.input clock).arm) = true
  rw [Bool.or_comm]
  simp only [Bool.and_eq_true] at hGate
  exact hGate.1.1

theorem RowAt.enabled_next {run : Run (step stdDev)} {trigger clock : Nat}
    (h : RowAt run trigger clock) : ((frameRun run).input (trigger + 1)).enable = true := by
  have hOut := h.out
  rw [trigO_step, Bool.and_eq_true] at hOut
  have hArmed : (run.state (trigger + 2)).arming.pcapArmed = true := by
    have hReset := hOut.1
    simp only [pcapReset, Bool.not_or, Bool.not_not, Bool.and_eq_true] at hReset
    exact hReset.2
  rw [run.edge (trigger + 1)] at hArmed
  have hCases := PcapArming.armed_of_step hArmed
  change ((run.state (trigger + 1)).arming.pcapArmed || (run.input (trigger + 1)).arm) = true
  exact Bool.or_eq_true_iff.mpr hCases

theorem RowAt.latched {run : Run (step stdDev)} {trigger clock : Nat} (h : RowAt run trigger clock)
    (hApart : PcapFrame.pulse (frameRun run) (trigger + 1) = false) :
    (run.state clock).frame.modeTsBits = latchedRow (frameRun run) trigger := by
  have hKept := @modeTsBits_kept stdDev (frameRun run) trigger clock h.after h.last
  have hDly : ((frameRun run).state (trigger + 3)).trigDly = true := (trigDly_eq (trigger + 2)).trans h.out
  exact hKept.trans (modeTsBits_out h.pulse hApart h.enabled_next hDly)

theorem RowAt.aggregates {run : Run (step stdDev)} (hBoot : run.state 0 = .boot)
    {trigger clock : Nat} (hRow : RowAt run trigger clock)
    (hApart : PcapFrame.pulse (frameRun run) (trigger + 1) = false) (shift : BitVec 6)
    (hShift : (run.input trigger).shiftSum = shift ∧ (run.input (trigger + 1)).shiftSum = shift)
    (hSmall : (window (frameRun run) trigger).card < 2 ^ 40) :
    Aggregates (frameRun run) trigger shift.toNat (run.state clock).frame.modeTsBits := by
  have hFrame : (frameRun run).state 0 = .boot := congrArg State.frame hBoot
  rw [hRow.latched hApart]
  exact latchedRow_aggregates hFrame (frame_gate run) hRow.pulse hRow.enabled
    ⟨congrArg BitVec.toNat hShift.1, congrArg BitVec.toNat hShift.2⟩ hSmall

/-- Every row holds the aggregates of the gated ticks between its trigger and the one before, and
no register has wrapped around for them. -/
theorem row_aggregates (run : Run (step stdDev)) (hBoot : run.state 0 = .boot)
    {trigger clock : Nat} (hRow : RowAt run trigger clock)
    (hApart : PcapFrame.pulse (frameRun run) (trigger + 1) = false) (shift : BitVec 6)
    (hShift : (run.input trigger).shiftSum = shift ∧ (run.input (trigger + 1)).shiftSum = shift)
    (hSmall : (window (frameRun run) trigger).card < 2 ^ 40) :
    Aggregates (frameRun run) trigger shift.toNat (run.state clock).frame.modeTsBits ∧
      ExactAt (frameRun run) trigger :=
  ⟨hRow.aggregates hBoot hApart shift hShift hSmall,
    exactAt (congrArg State.frame hBoot) (frame_gate run) hSmall⟩

/-- ARM at clock 1, ENABLE high from clock 2 on, and a trigger at clock 5, with all positions
at 1. -/
def oneTrigger (stdDev : Bool) (gate : Nat → Bool) : Run (step stdDev) :=
  .ofInputs _ .boot fun clock =>
    { arm := clock == 1
      enable := decide (2 ≤ clock)
      gate := gate clock
      trig := clock == 5
      posBus := fun _ => 1 }

theorem oneTrigger_row (stdDev : Bool) (gate : Nat → Bool) : RowAt (oneTrigger stdDev gate) 5 9 :=
  ⟨rfl, rfl, rfl, Nat.le_refl _, fun later hAfter hBefore => by omega⟩

theorem oneTrigger_apart (stdDev : Bool) (gate : Nat → Bool) (clock : Nat)
    (hPulse : PcapFrame.pulse (frameRun (oneTrigger stdDev gate)) clock = true) :
    PcapFrame.pulse (frameRun (oneTrigger stdDev gate)) (clock + 1) = false := by
  cases clock with
  | zero => exact absurd hPulse Bool.false_ne_true
  | succ clock =>
      have hEdge : pulseAt (oneTrigger stdDev gate) (clock + 1) = true :=
        (@pulse_eq stdDev (oneTrigger stdDev gate) clock).symm.trans hPulse
      obtain rfl : clock = 4 := by
        simp [pulseAt, trigEn, selectedEdge, oneTrigger, Run.ofInputs] at hEdge
        exact hEdge.2.1
      rfl

/-- GATE follows ENABLE. -/
def enabledGate (clock : Nat) : Bool := decide (2 ≤ clock)

theorem row_aggregates_one_trigger :
    Aggregates (frameRun (oneTrigger true enabledGate)) 5 0
        ((oneTrigger true enabledGate).state 9).frame.modeTsBits ∧
      ExactAt (frameRun (oneTrigger true enabledGate)) 5 :=
  row_aggregates (oneTrigger true enabledGate) rfl (oneTrigger_row true enabledGate) rfl 0
    ⟨rfl, rfl⟩ (by decide)

/-- Without the standard deviation option the squares of three samples add up to zero. -/
theorem no_squares_one_trigger :
    let run := oneTrigger false enabledGate
    run.state 0 = .boot ∧
      (∀ clock, PcapFrame.pulse (frameRun run) clock = true →
        PcapFrame.pulse (frameRun run) (clock + 1) = false) ∧
      RowAt run 5 9 ∧ (window (frameRun run) 5).card < 2 ^ 40 ∧
      (run.state 9).frame.modeTsBits.mode 0 8 ++ ((run.state 9).frame.modeTsBits.mode 0 7 ++
        (run.state 9).frame.modeTsBits.mode 0 6) ≠
        BitVec.ofInt 96 ((∑ tick ∈ window (frameRun run) 5,
          valueAt (frameRun run) 0 tick ^ 2) >>> (0 : Nat)) := by
  have hWindow : window (frameRun (oneTrigger false enabledGate)) 5 = {2, 3, 4} := by decide
  have hSmall : (window (frameRun (oneTrigger false enabledGate)) 5).card < 2 ^ 40 := by decide
  have hRow := (oneTrigger_row false enabledGate).aggregates rfl rfl 0 ⟨rfl, rfl⟩ hSmall
  refine ⟨rfl, oneTrigger_apart false enabledGate, oneTrigger_row false enabledGate, hSmall, ?_⟩
  rw [hRow.squares, hWindow]
  decide

end PcapCore

end Fpga
