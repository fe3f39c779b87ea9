import Mathlib.Data.Fintype.Basic
import Mathlib.Tactic.FinCases
import PandaBridge.Fpga.PcapAcquisition

/-! The rows of an acquisition: every trigger puts out the listed fields of its own capture, and
triggers that are too close end the capture. -/
namespace Fpga

namespace PcapFrameMode

variable {stdDev : Bool} {s : State} {i : Input}

/-- Without the standard deviation option the squares are zero. -/
def NoSquares (s : State) : Prop := s.sumSq0O = 0 ∧ s.sumSq1O = 0 ∧ s.sumSq2O = 0

theorem noSquares_step (hOption : stdDev = false) : NoSquares (step stdDev s i) := by
  simp [NoSquares, step, hOption]

theorem outputs_step (hTrig : s.trigR1 = false) (hSquares : stdDev = false → NoSquares s) :
    (step stdDev s i).outputs = s.outputs := by
  cases stdDev with
  | true => simp [State.outputs, step, hTrig]
  | false =>
      obtain ⟨hLow, hMiddle, hHigh⟩ := hSquares rfl
      simp [State.outputs, step, hTrig, hLow, hMiddle, hHigh]

end PcapFrameMode

namespace PcapFrame

variable {stdDev : Bool} {s : State} {i : Input}

/-- The capture in the registers of the frame: those of the timestamps and of the bit bus are
latched one clock after the trigger, those of the positions two. -/
def captureIn (latched later : State) : ModeTsBits where
  mode position := (later.modes position).outputs
  ts := ![latched.tsStartDly.extractLsb' 0 32, latched.tsStartDly.extractLsb' 32 32,
    latched.tsEnd.extractLsb' 0 32, latched.tsEnd.extractLsb' 32 32,
    latched.tsTrig.extractLsb' 0 32, latched.tsTrig.extractLsb' 32 32, latched.samples]
  bits := latched.bitBus

/-- Captures that agree but for the end of the gate. -/
structure SameButEnd (m n : ModeTsBits) : Prop where
  mode : m.mode = n.mode
  bits : m.bits = n.bits
  ts : ∀ field : Fin 7, field ≠ 2 → field ≠ 3 → m.ts field = n.ts field

theorem ts_but_end {field : Fin 7}
    (start startHigh low high low' high' trig trigHigh samples : BitVec 32) (hTwo : field ≠ 2)
    (hThree : field ≠ 3) :
    ![start, startHigh, low, high, trig, trigHigh, samples] field =
      ![start, startHigh, low', high', trig, trigHigh, samples] field := by
  fin_cases field <;> first | rfl | exact absurd rfl hTwo | exact absurd rfl hThree

/-- The registers of a capture stand still between triggers, the end of the gate apart. -/
theorem latched_step (hPulse : trigPulse s i = false) (hEnable : i.enable = true) :
    (step stdDev s i).tsStartDly = s.tsStartDly ∧ (step stdDev s i).tsTrig = s.tsTrig ∧
      (step stdDev s i).samples = s.samples ∧ (step stdDev s i).bitBus = s.bitBus := by
  simp [step, hPulse, hEnable]

theorem tsEnd_step (hPulse : trigPulse s i = false) (hEnable : i.enable = true)
    (hFall : gateFall s i = false) : (step stdDev s i).tsEnd = s.tsEnd := by
  simp [step, nextTsEnd, hPulse, hEnable, hFall]

end PcapFrame

namespace PcapBuffer

open PcapFrame (ModeTsBits SameButEnd)
open PcapCore (listsTsEnd)

theorem select_congr {mask : BitVec 10} {m n : ModeTsBits} (h : SameButEnd m n)
    (hMask : listsTsEnd mask = true → m.ts = n.ts) : select mask m = select mask n := by
  unfold select
  rw [h.mode, h.bits]
  cases hExt : mask.getLsbD 9 with
  | false => rfl
  | true =>
      simp only [if_true]
      split
      · rfl
      · split
        · case isTrue hTs =>
          congr 1
          by_cases hEnd : listsTsEnd mask = true
          · rw [hMask hEnd]
          · rw [listsTsEnd, hExt, Bool.true_and, Bool.or_eq_true, beq_iff_eq, beq_iff_eq,
              not_or] at hEnd
            refine h.ts _ (fun hTwo => hEnd.1 ?_) (fun hThree => hEnd.2 ?_)
            · exact BitVec.eq_of_toNat_eq (by simpa using congrArg Fin.val hTwo)
            · exact BitVec.eq_of_toNat_eq (by simpa using congrArg Fin.val hThree)
        · rfl

end PcapBuffer

namespace PcapCore

open Clocked PcapFrame

variable {stdDev : Bool} {run : Run (step stdDev)}

/-- A trigger's own capture. -/
def captureOf (run : Run (step stdDev)) (trigger : Nat) : ModeTsBits :=
  captureIn (run.state (trigger + 1)).frame (run.state (trigger + 2)).frame

section Acquisition

variable {entries : List (BitVec 32)} {arm rise fall finish : Nat}

theorem not_pulse_of_low {clock : Nat} (hBefore : (run.input (clock - 1)).enable = false)
    (hNow : (run.input clock).enable = false) : pulseAt run clock = false := by
  simp [pulseAt, trigEn, hBefore, hNow, selectedEdge]

theorem Acquisition.arm_lt (h : Acquisition run entries arm rise fall finish) : arm < finish := by
  have := h.low.1
  have := h.high.1
  have := h.ended.1
  omega

/-- The edges that reach the buffer before the output is finished are the triggers. -/
theorem Regular.reaches_iff (hRegular : Regular run entries arm fall finish)
    (h : Acquisition run entries arm rise fall finish) {clock : Nat} (hClock : clock < finish) :
    reaches run arm clock ↔ ∃ trigger, IsTrigger run arm fall trigger ∧ trigger + 3 = clock := by
  constructor
  · rintro ⟨hFrom, hPulse⟩
    have hArm := h.two_le
    have hFall : clock - 3 ≤ fall := by
      by_contra hLate
      rw [not_pulse_of_low (h.ended.2 _ (by omega) (by omega))
        (h.ended.2 _ (by omega) (by omega))] at hPulse
      exact Bool.false_ne_true hPulse
    exact ⟨clock - 3, (hRegular.live _ (by omega) hFall (by omega)).mp hPulse, by omega⟩
  · rintro ⟨trigger, hTrigger, rfl⟩
    refine ⟨by have := hTrigger.1; omega, ?_⟩
    rw [Nat.add_sub_cancel]
    exact (hRegular.live _ (by have := hTrigger.1; omega) (by have := hTrigger.2.1; omega)
      (by omega)).mpr hTrigger

theorem Held.valid_iff {clock : Nat} (hHeld : Held run entries arm rise fall clock)
    (hRegular : Regular run entries arm fall finish)
    (h : Acquisition run entries arm rise fall finish) (hClock : clock ≤ finish) :
    (run.state clock).buffer.pcapDatValidO = true ↔
      InRow run entries.length arm fall clock := by
  rw [hHeld.readout.valid]
  constructor
  · rintro ⟨s, hReaches, hFrom, hTo⟩
    obtain ⟨trigger, hTrigger, rfl⟩ := (hRegular.reaches_iff h (by omega)).mp hReaches
    exact ⟨trigger, hTrigger, by omega, by omega⟩
  · rintro ⟨trigger, hTrigger, hFrom, hTo⟩
    exact ⟨trigger + 3, (hRegular.reaches_iff h (by omega)).mpr ⟨trigger, hTrigger, rfl⟩,
      by omega, by omega⟩

/-- The acquisition is held as long as the triggers are far enough apart. -/
theorem Acquisition.held (h : Acquisition run entries arm rise fall finish)
    (hRegular : Regular run entries arm fall finish) {last : Nat}
    (hSpaced : Spaced run entries.length arm fall last) {clock : Nat} (hFrom : arm < clock)
    (hTo : clock ≤ finish) (hLast : clock ≤ last + 3) :
    Held run entries arm rise fall clock := by
  induction clock, hFrom using Nat.le_induction with
  | base => exact h.first
  | succ clock hFrom ih =>
      have hHeld := ih (by omega) (by omega)
      refine h.held_step hHeld hFrom (by omega) (fun hFall => ?_) fun hReaches s hEarlier hBefore => ?_
      · exact (hHeld.valid_iff hRegular h (by omega)).mpr (h.output clock hFall (by omega))
      · obtain ⟨later, hLater, rfl⟩ := (hRegular.reaches_iff h (by omega)).mp hReaches
        obtain ⟨earlier, hTrigger, rfl⟩ := (hRegular.reaches_iff h (by omega)).mp hEarlier
        have := hSpaced earlier later hTrigger hLater (by omega) (by omega)
        omega

theorem Spaced.all {length last : Nat} (hSpaced : Spaced run length arm fall fall) :
    Spaced run length arm fall last :=
  fun earlier later hEarlier hLater hBefore _ =>
    hSpaced earlier later hEarlier hLater hBefore hLater.2.1

theorem idle_until_arm {stop : Nat} (hFsm : (run.state stop).arming.fsm = .idle)
    (hArmed : (run.state stop).arming.pcapArmed = false) {clock : Nat} (hFrom : stop ≤ clock)
    (hNoArm : ∀ later, stop ≤ later → later < clock → (run.input later).arm = false) :
    (run.state clock).arming.fsm = .idle ∧ (run.state clock).arming.pcapArmed = false ∧
      (run.state clock).arming.status = (run.state stop).arming.status := by
  induction clock, hFrom using Nat.le_induction with
  | base => exact ⟨hFsm, hArmed, rfl⟩
  | succ clock hFrom ih =>
      obtain ⟨hIdle, hOff, hSame⟩ := ih fun later hLater hBefore => hNoArm later hLater (by omega)
      obtain ⟨hIdle', hOff', hStatus⟩ := PcapArming.step_idle (i := armingInput _ _) hIdle hOff
        (hNoArm clock hFrom (Nat.lt_succ_self clock))
      rw [run.edge]
      exact ⟨hIdle', hOff', hStatus.trans hSame⟩

theorem Spaced.row_unique {length : Nat} (hSpaced : Spaced run length arm fall fall)
    {clock first second : Nat} (hFirst : IsTrigger run arm fall first)
    (hSecond : IsTrigger run arm fall second)
    (hInFirst : first + 5 ≤ clock ∧ clock ≤ first + length + 4)
    (hInSecond : second + 5 ≤ clock ∧ clock ≤ second + length + 4) : first = second := by
  rcases Nat.lt_trichotomy first second with hBefore | hSame | hAfter
  · have := hSpaced first second hFirst hSecond hBefore hSecond.2.1
    omega
  · exact hSame
  · have := hSpaced second first hSecond hFirst hAfter hFirst.2.1
    omega

section Rows

variable (h : Acquisition run entries arm rise fall finish)
  (hRegular : Regular run entries arm fall finish)
include h hRegular

theorem Acquisition.row_end {trigger : Nat} (hTrigger : IsTrigger run arm fall trigger) :
    trigger + entries.length + 4 < finish ∨ entries.length = 1 ∧ trigger + 4 = finish := by
  refine (hRegular.inTime trigger hTrigger).imp (fun hBegins => ?_) id
  by_contra hLate
  exact h.finished ⟨trigger, hTrigger, hBegins, by omega⟩

/-- A trigger is an edge that the frame sees. -/
theorem Acquisition.pulse_at {trigger : Nat} (hTrigger : IsTrigger run arm fall trigger) :
    pulseAt run trigger = true := by
  have hEnd := h.row_end hRegular hTrigger
  have hFall := hTrigger.2.1
  have hArm := hTrigger.1
  exact (hRegular.live trigger (by omega) (by omega) (by omega)).mpr hTrigger

variable (hSpaced : Spaced run entries.length arm fall fall)
include hSpaced

theorem Acquisition.held_all (clock : Nat) (hFrom : arm < clock) (hTo : clock ≤ finish) :
    Held run entries arm rise fall clock :=
  h.held hRegular (@Spaced.all _ run arm fall _ finish hSpaced) hFrom hTo (by omega)

theorem Acquisition.no_pulse_after {trigger : Nat} (hTrigger : IsTrigger run arm fall trigger) :
    pulseAt run (trigger + 1) = false := by
  have hLength := h.length.1
  have hFall := hTrigger.2.1
  have hArm := hTrigger.1
  by_cases hOne : entries.length = 1
  · exact hRegular.alone hOne trigger hTrigger
  · have hEnd := h.row_end hRegular hTrigger
    refine Bool.eq_false_iff.mpr fun hPulse => ?_
    have hNext := (hRegular.live (trigger + 1) (by omega) (by omega) (by omega)).mp hPulse
    have := hSpaced trigger (trigger + 1) hTrigger hNext (by omega) hNext.2.1
    omega

section Trigger

variable {trigger : Nat} (hTrigger : IsTrigger run arm fall trigger)
include hTrigger

theorem Acquisition.frame_after :
    trigPulse (run.state (trigger + 1)).frame
        (frameInput (run.state (trigger + 1)) (run.input (trigger + 1))) = false ∧
      (frameInput (run.state (trigger + 1)) (run.input (trigger + 1))).enable = true := by
  have hEnd := h.row_end hRegular hTrigger
  have hArm := hTrigger.1
  refine ⟨(pulse_eq trigger).trans (h.no_pulse_after hRegular hSpaced hTrigger), ?_⟩
  simp [frameInput, (h.held_all hRegular hSpaced (trigger + 1) (by omega)
    (by omega)).armed]

theorem Acquisition.frame_out :
    (run.state (trigger + 3)).frame.samplesO = (run.state (trigger + 1)).frame.samples ∧
      (run.state (trigger + 3)).frame.tsStartO = (run.state (trigger + 1)).frame.tsStartDly ∧
      (run.state (trigger + 3)).frame.tsTrigO = (run.state (trigger + 1)).frame.tsTrig ∧
      (run.state (trigger + 3)).frame.bits = (run.state (trigger + 1)).frame.bitBus ∧
      (run.state (trigger + 3)).frame.tsEndO = (run.state (trigger + 2)).frame.tsEnd := by
  have hTwo := h.two_le
  have hArm := hTrigger.1
  have hInt : trigInt (run.state (trigger + 2)).frame = true :=
    (trigInt_eq (by omega)).trans (h.pulse_at hRegular hTrigger)
  obtain ⟨hNone, hEnable⟩ := h.frame_after hRegular hSpaced hTrigger
  obtain ⟨hStart, hTrig, hSamples, hBus⟩ := @latched_step stdDev _ _ hNone hEnable
  have hLater : (run.state (trigger + 2)).frame = PcapFrame.step stdDev
      (run.state (trigger + 1)).frame
      (frameInput (run.state (trigger + 1)) (run.input (trigger + 1))) := by
    rw [run.edge]
    rfl
  rw [← hStart, ← hTrig, ← hSamples, ← hBus, ← hLater, run.edge (trigger + 2)]
  simp [step, PcapFrame.step, hInt]

theorem Acquisition.modes_out (position : Fin 32) :
    ((run.state (trigger + 3)).frame.modes position).outputs =
      ((run.state (trigger + 2)).frame.modes position).outputs := by
  obtain ⟨hNone, _⟩ := h.frame_after hRegular hSpaced hTrigger
  have hMode : (run.state (trigger + 2)).frame.modes position =
      PcapFrameMode.step stdDev ((run.state (trigger + 1)).frame.modes position)
        (modeInput (run.state (trigger + 1)).frame
          (frameInput (run.state (trigger + 1)) (run.input (trigger + 1))) position) := by
    rw [run.edge]
    rfl
  rw [run.edge (trigger + 2)]
  refine PcapFrameMode.outputs_step ?_ fun hOption => ?_
  · rw [hMode]
    exact hNone
  · rw [hMode]
    exact PcapFrameMode.noSquares_step hOption

/-- The capture at the buffer, four clocks after the trigger. -/
theorem Acquisition.modeTsBits_at :
    SameButEnd (run.state (trigger + 4)).frame.modeTsBits (captureOf run trigger) ∧
      ((gated run trigger && !gated run (trigger + 1)) = false →
        (run.state (trigger + 4)).frame.modeTsBits = captureOf run trigger) := by
  have hEnd := h.row_end hRegular hTrigger
  have hArm := hTrigger.1
  have hHeld := h.held_all hRegular hSpaced (trigger + 3) (by omega) (by omega)
  have hDly : (run.state (trigger + 3)).frame.trigDly = true := by
    rw [trigDly_eq (trigger + 2), hHeld.trigO, reaches, Nat.add_sub_cancel]
    exact ⟨by omega, h.pulse_at hRegular hTrigger⟩
  have hOut : (run.state (trigger + 4)).frame.modeTsBits =
      nextModeTsBits (run.state (trigger + 3)).frame := by
    rw [run.edge (trigger + 3)]
    simp [step, PcapFrame.step, hDly]
  obtain ⟨hSamples, hStart, hTrig, hBus, hTsEnd⟩ := h.frame_out hRegular hSpaced hTrigger
  have hModes : (fun position => ((run.state (trigger + 3)).frame.modes position).outputs) =
      fun position => ((run.state (trigger + 2)).frame.modes position).outputs :=
    funext (h.modes_out hRegular hSpaced hTrigger)
  rw [hOut]
  refine ⟨⟨hModes, hBus, fun field hTwo hThree => ?_⟩, fun hGate => ?_⟩
  · simp only [nextModeTsBits, captureOf, captureIn, hSamples, hStart, hTrig]
    exact ts_but_end _ _ _ _ _ _ _ _ _ hTwo hThree
  · obtain ⟨hNone, hEnable⟩ := h.frame_after hRegular hSpaced hTrigger
    have hGatePrev : (run.state (trigger + 1)).frame.gatePrev = gated run trigger := by
      rw [run.edge]
      rcases Nat.eq_or_lt_of_le hArm with rfl | hLater
      · simp [step, PcapFrame.step, frameInput, gated, h.armed]
      · have hArmed := (h.held_all hRegular hSpaced trigger (by omega) (by omega)).armed
        simp [step, PcapFrame.step, frameInput, gated, hArmed]
    have hArmed := (h.held_all hRegular hSpaced (trigger + 1) (by omega)
      (by omega)).armed
    have hSame : (run.state (trigger + 2)).frame.tsEnd = (run.state (trigger + 1)).frame.tsEnd := by
      rw [run.edge (trigger + 1)]
      refine tsEnd_step hNone hEnable ?_
      rw [gateFall, hGatePrev, ← hGate]
      simp [frameInput, gated, hArmed]
    simp only [nextModeTsBits, captureOf, captureIn, hSamples, hStart, hTrig, hBus, hTsEnd, hSame,
      hModes]

/-- The capture stays at the buffer until its row has been put out. -/
theorem Acquisition.modeTsBits_kept {clock : Nat} (hFrom : trigger + 4 ≤ clock)
    (hTo : clock < trigger + 4 + entries.length) :
    (run.state clock).frame.modeTsBits = (run.state (trigger + 4)).frame.modeTsBits := by
  have hEnd := h.row_end hRegular hTrigger
  have hArm := hTrigger.1
  induction clock, hFrom using Nat.le_induction with
  | base => rfl
  | succ clock hFrom ih =>
      have hHeld := h.held_all hRegular hSpaced clock (by omega) (by omega)
      have hQuiet : (run.state clock).frame.trigDly = false := by
        obtain ⟨prior, rfl⟩ : ∃ prior, clock = prior + 1 := ⟨clock - 1, by omega⟩
        rw [trigDly_eq]
        refine Bool.eq_false_iff.mpr fun hTrig => ?_
        obtain ⟨later, hLater, hAt⟩ :=
          (hRegular.reaches_iff h (by omega)).mp (hHeld.trigO.mp hTrig)
        have := hSpaced trigger later hTrigger hLater (by omega) hLater.2.1
        omega
      rw [← ih (by omega), run.edge]
      simp [step, PcapFrame.step, hQuiet]

theorem Acquisition.word_at {k : Nat} (hEntry : k < entries.length) (word : BitVec 32)
    (hWord : word ∈ PcapBuffer.select ((entries[k]).setWidth 10) (captureOf run trigger)) :
    (run.state (trigger + 5 + k)).buffer.pcapDatO = word := by
  have hEnd := h.row_end hRegular hTrigger
  have hArm := hTrigger.1
  have hHeld := h.held_all hRegular hSpaced (trigger + 4 + k) (by omega) (by omega)
  have hReaches : reaches run arm (trigger + 3) := by
    rw [reaches, Nat.add_sub_cancel]
    exact ⟨by omega, h.pulse_at hRegular hTrigger⟩
  have hDoutb : (run.state (trigger + 4 + k)).buffer.maskDoutb = (entries[k]).setWidth 10 := by
    rw [hHeld.readout.doutb (trigger + 3) hReaches (by omega) (by omega),
      show trigger + 4 + k - 1 - (trigger + 3) = k by omega]
    exact hHeld.readout.listed.mem k hEntry
  obtain ⟨hSame, hAll⟩ := h.modeTsBits_at hRegular hSpaced hTrigger
  have hSelect : PcapBuffer.select ((entries[k]).setWidth 10)
      (run.state (trigger + 4 + k)).frame.modeTsBits = some word := by
    rw [h.modeTsBits_kept hRegular hSpaced hTrigger (by omega) (by omega), ← hWord]
    refine PcapBuffer.select_congr hSame fun hListed => ?_
    refine congrArg ModeTsBits.ts (hAll ?_)
    refine Bool.eq_false_iff.mpr fun hFalls => ?_
    rw [Bool.and_eq_true, Bool.not_eq_true'] at hFalls
    have hNot := hRegular.gate trigger hTrigger hFalls.1 hFalls.2 _ (List.getElem_mem hEntry)
    rw [hNot] at hListed
    exact Bool.false_ne_true hListed
  rw [show trigger + 5 + k = trigger + 4 + k + 1 by omega, run.edge]
  simp only [step, PcapBuffer.step, bufferInput, hDoutb, hSelect]
  rfl

end Trigger

theorem Acquisition.at_finish :
    (run.state (finish + 1)).arming.fsm = .idle ∧
      (run.state (finish + 1)).arming.pcapArmed = false ∧
      (run.state (finish + 1)).arming.pcapDone = true ∧
      (run.state (finish + 1)).arming.status = ⟨false, false, false⟩ := by
  have hFrom := h.arm_lt
  have hHeld := h.held_all hRegular hSpaced _ hFrom le_rfl
  have hOver : (run.state finish).buffer.pcapDatValidO = false :=
    Bool.eq_false_iff.mpr fun hValid =>
      h.finished ((hHeld.valid_iff hRegular h le_rfl).mp hValid)
  obtain ⟨hFsm, hArmed, hDone, hStatus⟩ := PcapArming.machine_finish (i := armingInput _ _)
    (h.ending hHeld hFrom le_rfl h.ended.1) hOver
  rw [h.arming_running hHeld hFrom le_rfl]
  exact ⟨hFsm, hArmed, hDone, hStatus.trans hHeld.status⟩

/-- The words put out are those of the rows, until position capture is armed again. -/
theorem Acquisition.valid_iff {clock : Nat} (hFrom : arm < clock)
    (hNoArm : ∀ later, finish < later → later < clock → (run.input later).arm = false) :
    (run.state clock).buffer.pcapDatValidO = true ↔
      InRow run entries.length arm fall clock := by
  rcases Nat.lt_trichotomy clock (finish + 1) with hBefore | rfl | hAfter
  · exact (h.held_all hRegular hSpaced _ hFrom (by omega)).valid_iff hRegular h (by omega)
  · have hHeld := h.held_all hRegular hSpaced _ h.arm_lt le_rfl
    have hReset : (bufferInput (run.state finish) (run.input finish)).reset = false := by
      simp [bufferInput, pcapReset, hHeld.armed, (h.quiet finish h.arm_lt.le le_rfl).1]
    rw [run.edge]
    refine (hHeld.readout.valid_step h.length hReset).trans ⟨?_, ?_⟩
    · rintro ⟨s, hReaches, hBegins, hEnds⟩
      obtain ⟨trigger, hTrigger, rfl⟩ := (hRegular.reaches_iff h (by omega)).mp hReaches
      exact ⟨trigger, hTrigger, by omega, by omega⟩
    · rintro ⟨trigger, hTrigger, hBegins, hEnds⟩
      exact ⟨trigger + 3, (hRegular.reaches_iff h (by omega)).mpr ⟨trigger, hTrigger, rfl⟩,
        by omega, by omega⟩
  · obtain ⟨prior, rfl⟩ : ∃ prior, clock = prior + 1 := ⟨clock - 1, by omega⟩
    obtain ⟨hFsm, hArmed, _⟩ := h.at_finish hRegular hSpaced
    have hIdle := @idle_until_arm _ run _ hFsm hArmed prior (by omega)
      fun later hLater hBefore => hNoArm later (by omega) (by omega)
    have hOff : (run.state (prior + 1)).buffer.pcapDatValidO = false := by
      rw [run.edge]
      simp [step, PcapBuffer.step, PcapBuffer.readoutReset, bufferInput, pcapReset, hIdle.2.1]
    rw [hOff]
    refine ⟨fun hOn => absurd hOn Bool.false_ne_true, ?_⟩
    rintro ⟨trigger, hTrigger, hInRow⟩
    have := h.row_end hRegular hTrigger
    omega

end Rows

section TooClose

variable (h : Acquisition run entries arm rise fall finish)
  (hRegular : Regular run entries arm fall finish) {earlier later : Nat}
  (hEarlier : IsTrigger run arm fall earlier) (hLater : IsTrigger run arm fall later)
  (hBefore : earlier < later) (hClose : later < earlier + entries.length)
  (hSpaced : Spaced run entries.length arm fall later)
include h hRegular hEarlier hLater hBefore hClose hSpaced

/-- The first trigger that is too close is flagged four clocks later, and ends the capture. -/
theorem Acquisition.too_close :
    (run.state (later + 5)).arming.fsm = .idle ∧
      (run.state (later + 5)).arming.pcapArmed = false ∧
      (run.state (later + 5)).arming.pcapDone = true ∧
      (run.state (later + 5)).arming.status.framing = true := by
  have hIn := hRegular.inTime later hLater
  have hFrom := hEarlier.1
  have hHeld := @Acquisition.held _ run _ _ _ _ _ h hRegular _ hSpaced (later + 3) (by omega)
    (by omega) le_rfl
  have hPulse : reaches run arm (later + 3) :=
    (hRegular.reaches_iff h (by omega)).mpr ⟨later, hLater, rfl⟩
  have hReading : reaches run arm (earlier + 3) :=
    (hRegular.reaches_iff h (by omega)).mpr ⟨earlier, hEarlier, rfl⟩
  have hError : (run.state (later + 4)).buffer.errorO = true := by
    have hReset := (h.quiet (later + 3) (by omega) (by omega)).1
    rw [run.edge]
    exact hHeld.readout.too_close (i := bufferInput _ _) h.length
      (by simp [bufferInput, pcapReset, hHeld.armed, hReset]) hReading (by omega) (by omega)
      (hHeld.trigO.mpr hPulse)
  obtain ⟨hArmed, _, _⟩ := h.arming_step hHeld (by omega) (by omega) fun hFall =>
    (hHeld.valid_iff hRegular h (by omega)).mpr (h.output _ hFall (by omega))
  obtain ⟨hFsm, hOff, hDone, hFraming⟩ := PcapArming.step_abort
    (i := armingInput (run.state (later + 4)) (run.input (later + 4)))
    (h.quiet (later + 4) (by omega) (by omega)).1 hArmed
    (by simp [PcapArming.abortTrig, armingInput, hError])
  rw [run.edge]
  refine ⟨hFsm, hOff, hDone, hFraming.trans ?_⟩
  simp [armingInput, hError]

end TooClose

end Acquisition

/-- Every row is complete and belongs to one trigger, and triggers that are too close end the
capture. If the triggers are as far apart as the list is long, a word is put out exactly when it
is due for a trigger, and it is the listed field of that trigger's capture. Otherwise HEALTH is 1
from the end of the capture to the next ARM. -/
theorem rows_complete {entries : List (BitVec 32)} {arm rise fall finish : Nat}
    (h : Acquisition run entries arm rise fall finish)
    (hRegular : Regular run entries arm fall finish) :
    (Spaced run entries.length arm fall fall →
      (∀ clock, arm < clock →
        (∀ later, finish < later → later < clock → (run.input later).arm = false) →
        ((run.state clock).buffer.pcapDatValidO = true ↔
          InRow run entries.length arm fall clock)) ∧
      (∀ clock first second, IsTrigger run arm fall first → IsTrigger run arm fall second →
        first + 5 ≤ clock ∧ clock ≤ first + entries.length + 4 →
        second + 5 ≤ clock ∧ clock ≤ second + entries.length + 4 → first = second) ∧
      (∀ trigger, IsTrigger run arm fall trigger → ∀ k (hEntry : k < entries.length),
        ∀ word ∈ PcapBuffer.select ((entries[k]).setWidth 10) (captureOf run trigger),
          (run.state (trigger + 5 + k)).buffer.pcapDatO = word) ∧
      (run.state (finish + 1)).arming.pcapDone = true ∧ health (run.state (finish + 1)) = 0) ∧
    ∀ earlier later, IsTrigger run arm fall earlier → IsTrigger run arm fall later →
      earlier < later → later < earlier + entries.length →
      ∃ stop ≤ later + 5, (run.state stop).arming.pcapDone = true ∧
        ∀ clock, stop ≤ clock →
          (∀ next, stop ≤ next → next < clock → (run.input next).arm = false) →
          health (run.state clock) = 1 ∧ (run.state clock).arming.pcapArmed = false := by
  refine ⟨fun hSpaced => ⟨fun clock => h.valid_iff hRegular hSpaced,
    fun clock first second hFirst hSecond => hSpaced.row_unique hFirst hSecond,
    fun trigger hTrigger k hEntry word => h.word_at hRegular hSpaced hTrigger hEntry word, ?_⟩,
    fun earlier later hEarlier hLater hBefore hClose => ?_⟩
  · obtain ⟨_, _, hDone, hStatus⟩ := h.at_finish hRegular hSpaced
    exact ⟨hDone, by simp [health, hStatus]⟩
  · have hSome : ∃ later, IsTrigger run arm fall later ∧ ∃ earlier, IsTrigger run arm fall earlier ∧
        earlier < later ∧ later < earlier + entries.length :=
      ⟨later, hLater, earlier, hEarlier, hBefore, hClose⟩
    classical
    obtain ⟨hFirst, before, hTrigger, hLess, hNear⟩ := Nat.find_spec hSome
    have hSpaced : Spaced run entries.length arm fall (Nat.find hSome) := by
      intro one two hOne hTwo hOrder hUntil
      by_contra hNot
      exact Nat.find_min hSome hUntil ⟨hTwo, one, hOne, hOrder, by omega⟩
    obtain ⟨hFsm, hOff, hDone, hFraming⟩ :=
      h.too_close hRegular hTrigger hFirst hLess hNear hSpaced
    refine ⟨Nat.find hSome + 5, ?_, hDone, fun clock hFrom hNoArm => ?_⟩
    · have := Nat.find_min' hSome ⟨hLater, earlier, hEarlier, hBefore, hClose⟩
      omega
    · obtain ⟨_, hArmed, hStatus⟩ := idle_until_arm hFsm hOff hFrom hNoArm
      exact ⟨by simp [health, hStatus, hFraming], hArmed⟩

section Captures

instance (run : Run (step stdDev)) (arm fall clock : Nat) :
    Decidable (IsTrigger run arm fall clock) :=
  inferInstanceAs (Decidable (_ ∧ _ ∧ _))

/-- The list is written from clock 1 on, and ARM follows it. -/
def captureWith (entries : List (BitVec 32)) (levels : Nat → Input) : Run (step true) :=
  .ofInputs _ .boot fun clock =>
    if clock = 0 then { startWrite := true }
    else if clock ≤ entries.length then
      { write := entries.getD (clock - 1) 0, writeWstb := true }
    else { levels clock with arm := clock == entries.length + 1 }

/-- Nothing but ENABLE, GATE and TRIG. -/
def Plain (i : Input) : Prop :=
  i.reset = false ∧ i.disarm = false ∧ i.dmaError = false ∧ i.startWrite = false ∧
    i.writeWstb = false

section

variable {entries : List (BitVec 32)} {levels : Nat → Input}

theorem captureWith_later {clock : Nat} (hLater : entries.length < clock) :
    (captureWith entries levels).input clock =
      { levels clock with arm := clock == entries.length + 1 } := by
  have hStarted : clock ≠ 0 := by omega
  simp only [captureWith, Run.ofInputs, if_neg hStarted, if_neg (Nat.not_le.mpr hLater)]

theorem captureWith_written {count : Nat} (hCount : count ≤ entries.length) :
    written (captureWith entries levels) 0 count = entries.take count := by
  induction count with
  | zero => rfl
  | succ count ih =>
      have hInput : (captureWith entries levels).input (0 + 1 + count) =
          { write := entries.getD count 0, writeWstb := true } := by
        have hStarted : 0 + 1 + count ≠ 0 := by omega
        have hWithin : 0 + 1 + count ≤ entries.length := by omega
        simp only [captureWith, Run.ofInputs, if_neg hStarted, if_pos hWithin,
          Nat.zero_add, Nat.add_sub_cancel_left]
      have hEntry : count < entries.length := hCount
      rw [written, hInput, if_pos rfl, ih (by omega), List.take_add_one,
        List.getD_eq_getElem?_getD, List.getElem?_eq_getElem hEntry]
      rfl

theorem captureWith_acquisition {rise fall : Nat}
    (hLength : 1 ≤ entries.length ∧ entries.length ≤ 64) (hPlain : ∀ clock, Plain (levels clock))
    (hIdle : ((captureWith entries levels).state (entries.length + 1)).arming.fsm = .idle ∧
      ((captureWith entries levels).state (entries.length + 1)).arming.pcapArmed = false)
    (hRise : entries.length + 1 < rise) (hFall : rise < fall)
    (hLow : ∀ clock < rise, entries.length + 1 < clock → (levels clock).enable = false)
    (hHigh : ∀ clock < fall, rise ≤ clock → (levels clock).enable = true)
    (hEnded : (levels fall).enable = false)
    (hFinished : ∀ trigger < fall,
      IsTrigger (captureWith entries levels) (entries.length + 1) fall trigger →
        trigger + entries.length + 4 < fall ∨ fall < trigger + 5) :
    Acquisition (captureWith entries levels) entries (entries.length + 1) rise fall fall where
  list := by
    refine ⟨0, entries.length, by omega, rfl, fun clock hFrom hTo => ?_,
      (captureWith_written le_rfl).trans List.take_length⟩
    have hStarted : clock ≠ 0 := by omega
    have hWithin : clock ≤ entries.length := by omega
    simp only [captureWith, Run.ofInputs, if_neg hStarted, if_pos hWithin]
  length := hLength
  idle := hIdle
  armed := by
    rw [captureWith_later (Nat.lt_succ_self _)]
    exact beq_self_eq_true _
  quiet clock hFrom _ := by
    rw [captureWith_later hFrom]
    exact hPlain clock
  low := ⟨hRise, fun clock hFrom hTo => by
    rw [captureWith_later (by omega)]
    exact hLow clock hTo hFrom⟩
  high := ⟨hFall, fun clock hFrom hTo => by
    rw [captureWith_later (by omega)]
    exact hHigh clock hTo hFrom⟩
  ended := ⟨le_rfl, fun clock hFrom hTo => by
    obtain rfl : clock = fall := Nat.le_antisymm hTo hFrom
    rw [captureWith_later (by omega)]
    exact hEnded⟩
  output clock hFrom hTo := absurd hFrom (Nat.not_le.mpr hTo)
  finished := by
    rintro ⟨trigger, hTrigger, hBegun, hNotOver⟩
    have := hFinished trigger hTrigger.2.1 hTrigger
    omega

theorem captureWith_gated (hGate : ∀ clock, (levels clock).gate = false) (clock : Nat) :
    gated (captureWith entries levels) clock = false := by
  rcases Nat.lt_or_ge entries.length clock with hLater | hWithin
  · rw [gated, captureWith_later hLater]
    simp [hGate clock]
  · rw [gated]
    by_cases hStart : clock = 0 <;> simp [captureWith, Run.ofInputs, hStart, hWithin]

end

/-- A position and the time of the capture, two triggers two clocks apart. -/
def twoTriggers : Run (step true) :=
  captureWith [0x000, 0x240] fun clock =>
    { enable := decide (5 ≤ clock ∧ clock < 20)
      trig := clock == 6 || clock == 8
      posBus _ := BitVec.ofNat 32 clock }

theorem twoTriggers_acquisition : Acquisition twoTriggers [0x000, 0x240] 3 5 20 20 :=
  captureWith_acquisition (by decide) (fun _ => ⟨rfl, rfl, rfl, rfl, rfl⟩) (by decide)
    (by decide) (by decide) (by decide) (by decide) (by decide) (by decide)

theorem twoTriggers_regular : Regular twoTriggers [0x000, 0x240] 3 20 20 where
  live := by
    have hAll : ∀ c < 21, 3 ≤ c + 1 →
        (pulseAt twoTriggers c = true ↔ IsTrigger twoTriggers 3 20 c) := by decide
    exact fun clock hFrom hTo _ => hAll clock (by omega) hFrom
  inTime := by
    have hAll : ∀ t < 20, IsTrigger twoTriggers 3 20 t → t ≤ 8 := by decide
    intro trigger hTrigger
    have := hAll trigger hTrigger.2.1 hTrigger
    omega
  alone hOne := absurd hOne (by decide)
  gate trigger _ hGated := by
    rw [twoTriggers, captureWith_gated (fun _ => rfl)] at hGated
    exact absurd hGated Bool.false_ne_true

/-- The second row says that the position was 8 three clocks after ENABLE. -/
theorem rows_complete_two_triggers :
    (twoTriggers.state 13).buffer.pcapDatValidO = true ∧
      (twoTriggers.state 13).buffer.pcapDatO = 8 ∧
      (twoTriggers.state 14).buffer.pcapDatO = 3 := by
  have hSpaced : Spaced twoTriggers 2 3 20 20 := by
    have hAll : ∀ t < 20, IsTrigger twoTriggers 3 20 t → t = 6 ∨ t = 8 := by decide
    intro earlier later hEarlier hLater hBefore _
    have := hAll earlier hEarlier.2.1 hEarlier
    have := hAll later hLater.2.1 hLater
    omega
  have hTrigger : IsTrigger twoTriggers 3 20 8 := by decide
  obtain ⟨hValid, _, hWords, _⟩ :=
    (rows_complete twoTriggers_acquisition twoTriggers_regular).1 hSpaced
  refine ⟨(hValid 13 (by decide) fun later hFrom hTo => absurd hTo (by omega)).mpr
    ⟨8, hTrigger, by decide, by decide⟩, ?_, ?_⟩
  · exact hWords 8 hTrigger 0 (by decide) 8 (by decide)
  · exact hWords 8 hTrigger 1 (by decide) 3 (by decide)

/-- ENABLE falls in the clock after the trigger. -/
def lateTrigger : Run (step true) :=
  captureWith [0x000] fun clock =>
    { enable := decide (4 ≤ clock ∧ clock < 10)
      trig := clock == 9 }

/-- Two triggers in consecutive clocks, with one field listed. -/
def consecutiveTriggers : Run (step true) :=
  captureWith [0x000] fun clock =>
    { enable := decide (4 ≤ clock ∧ clock < 20)
      trig := clock == 6
      trigEdge := 2
      posBus _ := BitVec.ofNat 32 clock }

/-- The row of a trigger right before the end is lost, and the first of two consecutive triggers
puts out the position of the second. -/
theorem rows_lost :
    (Acquisition lateTrigger [0x000] 2 4 10 10 ∧ IsTrigger lateTrigger 2 10 9 ∧
      (List.range 30).all (fun clock => !(lateTrigger.state clock).buffer.pcapDatValidO) = true) ∧
    Acquisition consecutiveTriggers [0x000] 2 4 20 20 ∧ IsTrigger consecutiveTriggers 2 20 6 ∧
      (captureOf consecutiveTriggers 6).mode 0 0 = 6 ∧
      (consecutiveTriggers.state 11).buffer.pcapDatO = 7 := by
  refine ⟨⟨?_, by decide, by decide⟩, ?_, by decide, by decide,
    by decide⟩
  · exact captureWith_acquisition (by decide) (fun _ => ⟨rfl, rfl, rfl, rfl, rfl⟩)
      (by decide) (by decide) (by decide) (by decide) (by decide) (by decide)
      (by decide)
  · exact captureWith_acquisition (by decide) (fun _ => ⟨rfl, rfl, rfl, rfl, rfl⟩)
      (by decide) (by decide) (by decide) (by decide) (by decide) (by decide)
      (by decide)

end Captures

end PcapCore

end Fpga
