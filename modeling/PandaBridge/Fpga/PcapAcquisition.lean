import PandaBridge.Fpga.PcapReadout

/-! One acquisition of position capture, from its ARM to the end of the output after ENABLE has
fallen. The arming state machine acts on ENABLE at once and on the triggers five clocks late. -/
namespace Fpga

namespace PcapArming

variable {s : State} {i : Input}

/-- Without reset and abort only the state machine acts. -/
theorem step_running (hReset : i.reset = false) (hAbort : abortTrig i = false) :
    step s i = { machine s i with enablePrev := i.enable, timestamp := nextTimestamp s i } := by
  simp [step, hReset, hAbort]

theorem step_abort (hReset : i.reset = false) (hArmed : s.pcapArmed = true)
    (hAbort : abortTrig i = true) :
    (step s i).fsm = .idle ∧ (step s i).pcapArmed = false ∧ (step s i).pcapDone = true ∧
      (step s i).status.framing = (s.status.framing || i.pcapError) := by
  simp [step, hReset, hArmed, hAbort]

theorem step_idle (hFsm : s.fsm = .idle) (hArmed : s.pcapArmed = false) (hArm : i.arm = false) :
    (step s i).fsm = .idle ∧ (step s i).pcapArmed = false ∧ (step s i).status = s.status := by
  cases hReset : i.reset <;> simp [step, machine, hReset, hFsm, hArmed, hArm]

theorem machine_armed (hFsm : s.fsm = .armed) :
    (machine s i).fsm = (if i.enable then .enabled else .armed) ∧
      (machine s i).pcapArmed = s.pcapArmed ∧ (machine s i).status = s.status := by
  simp [machine, hFsm]

theorem machine_enabled (hFsm : s.fsm = .enabled) (hDisarm : i.disarm = false)
    (hNoFall : (s.enablePrev && !i.enable) = false) :
    (machine s i).fsm = .enabled ∧ (machine s i).pcapArmed = s.pcapArmed ∧
      (machine s i).status = s.status := by
  simp [machine, hFsm, hDisarm, hNoFall]

/-- ENABLE falls, or has fallen, while a row is being put out. -/
theorem machine_ongoing (hFsm : s.fsm = .enabled ∧ (s.enablePrev && !i.enable) = true ∨
    s.fsm = .waitOngoingWrite) (hOngoing : i.ongoingTrig = true) :
    (machine s i).fsm = .waitOngoingWrite ∧ (machine s i).pcapArmed = s.pcapArmed ∧
      (machine s i).status = s.status := by
  rcases hFsm with ⟨hFsm, hFall⟩ | hFsm
  · simp [machine, hFsm, hFall, hOngoing]
  · simp [machine, hFsm, hOngoing]

theorem machine_finish (hFsm : s.fsm = .enabled ∧ (s.enablePrev && !i.enable) = true ∨
    s.fsm = .waitOngoingWrite) (hOngoing : i.ongoingTrig = false) :
    (machine s i).fsm = .idle ∧ (machine s i).pcapArmed = false ∧
      (machine s i).pcapDone = true ∧ (machine s i).status = s.status := by
  rcases hFsm with ⟨hFsm, hFall⟩ | hFsm
  · simp [machine, hFsm, hFall, hOngoing]
  · simp [machine, hFsm, hOngoing]

end PcapArming

namespace PcapCore

open Clocked PcapFrame

variable {stdDev : Bool}

section Inputs

variable (run : Run (step stdDev))

def trigEn (clock : Nat) : Bool := (run.input clock).trig && (run.input clock).enable

/-- The edges that the frame sees. -/
def pulseAt (clock : Nat) : Bool :=
  selectedEdge (run.input clock).trigEdge (trigEn run (clock - 1)) (trigEn run clock)

/-- The edges of TRIG while ENABLE is high. -/
def edgeAt (clock : Nat) : Bool :=
  (run.input clock).enable &&
    selectedEdge (run.input clock).trigEdge (run.input (clock - 1)).trig (run.input clock).trig

def gated (clock : Nat) : Bool := (run.input clock).gate && (run.input clock).enable

/-- The words written to the list in `count` clocks after START_WRITE. -/
def written (start : Nat) : Nat → List (BitVec 32)
  | 0 => []
  | count + 1 =>
      if (run.input (start + 1 + count)).writeWstb then
        written start count ++ [(run.input (start + 1 + count)).write]
      else written start count

/-- A trigger of the acquisition. -/
def IsTrigger (arm fall clock : Nat) : Prop :=
  arm ≤ clock ∧ clock < fall ∧ edgeAt run clock = true

/-- A word of some trigger's row is due at this clock. -/
def InRow (length arm fall clock : Nat) : Prop :=
  ∃ trigger, IsTrigger run arm fall trigger ∧ trigger + 5 ≤ clock ∧ clock ≤ trigger + length + 4

/-- The list is written, ARM comes at clock `arm`, and ENABLE is seen high from `rise` on until it
falls at `fall`. The output is finished at the first clock from then on at which no row is due. -/
structure Acquisition (entries : List (BitVec 32)) (arm rise fall finish : Nat) : Prop where
  list : ∃ start count, start + 1 + count = arm ∧ (run.input start).startWrite = true ∧
    (∀ clock, start < clock → clock < arm → (run.input clock).startWrite = false) ∧
    written run start count = entries
  length : 1 ≤ entries.length ∧ entries.length ≤ 64
  idle : (run.state arm).arming.fsm = .idle ∧ (run.state arm).arming.pcapArmed = false
  armed : (run.input arm).arm = true
  quiet : ∀ clock, arm ≤ clock → clock ≤ finish →
    (run.input clock).reset = false ∧ (run.input clock).disarm = false ∧
      (run.input clock).dmaError = false ∧ (run.input clock).startWrite = false ∧
      (run.input clock).writeWstb = false
  low : arm < rise ∧ ∀ clock, arm < clock → clock < rise → (run.input clock).enable = false
  high : rise < fall ∧ ∀ clock, rise ≤ clock → clock < fall → (run.input clock).enable = true
  ended : fall ≤ finish ∧
    ∀ clock, fall ≤ clock → clock ≤ finish → (run.input clock).enable = false
  output : ∀ clock, fall ≤ clock → clock < finish → InRow run entries.length arm fall clock
  finished : ¬InRow run entries.length arm fall finish

/-- An entry that asks for the end of the gate. -/
def listsTsEnd (mask : BitVec 10) : Bool :=
  mask.getLsbD 9 && (mask.extractLsb' 4 4 == 2 || mask.extractLsb' 4 4 == 3)

/-- When the rows come out right: the edges that get through before the output is finished are the
triggers, every row begins before that, single words have a clock between two triggers, and the
gate does not fall right after a trigger whose row has its end. -/
structure Regular (entries : List (BitVec 32)) (arm fall finish : Nat) : Prop where
  live : ∀ clock, arm ≤ clock + 1 → clock ≤ fall → clock + 4 ≤ finish →
    (pulseAt run clock = true ↔ IsTrigger run arm fall clock)
  inTime : ∀ trigger, IsTrigger run arm fall trigger →
    trigger + 5 ≤ finish ∨ entries.length = 1 ∧ trigger + 4 = finish
  alone : entries.length = 1 → ∀ trigger, IsTrigger run arm fall trigger →
    pulseAt run (trigger + 1) = false
  gate : ∀ trigger, IsTrigger run arm fall trigger → gated run trigger = true →
    gated run (trigger + 1) = false → ∀ entry ∈ entries, listsTsEnd (entry.setWidth 10) = false

/-- The triggers up to a clock are far enough apart. -/
def Spaced (length arm fall last : Nat) : Prop :=
  ∀ earlier later, IsTrigger run arm fall earlier → IsTrigger run arm fall later →
    earlier < later → later < last → earlier + length ≤ later

end Inputs

variable {run : Run (step stdDev)}

/-! The pipeline of a trigger. -/

theorem pulse_eq (clock : Nat) :
    trigPulse (run.state (clock + 1)).frame
      (frameInput (run.state (clock + 1)) (run.input (clock + 1))) = pulseAt run (clock + 1) := by
  rw [run.edge clock]
  rfl

theorem trigInt_eq {clock : Nat} (hClock : 1 ≤ clock) :
    trigInt (run.state (clock + 2)).frame = pulseAt run clock := by
  obtain ⟨prior, rfl⟩ : ∃ prior, clock = prior + 1 := ⟨clock - 1, by omega⟩
  rw [← pulse_eq, run.edge, run.edge]
  rfl

theorem trigO_step (clock : Nat) :
    (run.state (clock + 1)).frame.trigO =
      (!pcapReset (run.state clock) (run.input clock) && trigInt (run.state clock).frame) := by
  rw [run.edge]
  rfl

theorem trigDly_eq (clock : Nat) :
    (run.state (clock + 1)).frame.trigDly = (run.state (clock + 1)).frame.trigO := by
  rw [run.edge]
  rfl

theorem enablePrev_eq (clock : Nat) :
    (run.state (clock + 1)).arming.enablePrev = (run.input clock).enable := by
  rw [run.edge]
  rfl

/-- The triggers as they reach the buffer, from the second clock after ARM on. -/
def reaches (run : Run (step stdDev)) (arm clock : Nat) : Prop :=
  arm + 2 ≤ clock ∧ pulseAt run (clock - 3) = true

/-- What holds at every clock of an acquisition. -/
structure Held (run : Run (step stdDev)) (entries : List (BitVec 32)) (arm rise fall clock : Nat) :
    Prop where
  armed : (run.state clock).arming.pcapArmed = true
  fsm : (run.state clock).arming.fsm =
    if clock ≤ rise then .armed else if clock ≤ fall then .enabled else .waitOngoingWrite
  status : (run.state clock).arming.status = ⟨false, false, false⟩
  trigO : (run.state clock).frame.trigO = true ↔ reaches run arm clock
  readout : PcapBuffer.Readout entries (reaches run arm) clock (run.state clock).buffer

section Acquisition

variable {entries : List (BitVec 32)} {arm rise fall finish : Nat}
  (h : Acquisition run entries arm rise fall finish)
include h

theorem Acquisition.listed : PcapBuffer.Listed entries (run.state arm).buffer := by
  obtain ⟨start, count, rfl, hStart, hNoStart, rfl⟩ := h.list
  have hRoom := h.length.2
  clear h
  induction count with
  | zero =>
      rw [Nat.add_zero, run.edge]
      exact PcapBuffer.Listed.start hStart
  | succ count ih =>
      have hNow : (run.input (start + 1 + count)).startWrite = false :=
        hNoStart _ (by omega) (by omega)
      have hBefore : ∀ clock, start < clock → clock < start + 1 + count →
          (run.input clock).startWrite = false :=
        fun clock hFrom hTo => hNoStart clock hFrom (by omega)
      rw [← Nat.add_assoc, run.edge, written]
      rw [written] at hRoom
      cases hWrite : (run.input (start + 1 + count)).writeWstb with
      | true =>
          rw [hWrite, if_pos rfl, List.length_append, List.length_singleton] at hRoom
          rw [if_pos rfl]
          exact (ih hBefore (by omega)).write (i := bufferInput _ _) (by omega) hNow hWrite
      | false =>
          rw [hWrite, if_neg Bool.false_ne_true] at hRoom
          rw [if_neg Bool.false_ne_true]
          exact (ih hBefore hRoom).keep (i := bufferInput _ _) hNow hWrite

theorem Acquisition.two_le : 2 ≤ arm := by
  obtain ⟨start, count, hArm, _, _, hWritten⟩ := h.list
  cases count with
  | zero =>
      have := h.length.1
      rw [← hWritten] at this
      exact absurd this (by simp [written])
  | succ count => omega

theorem Acquisition.first : Held run entries arm rise fall (arm + 1) := by
  obtain ⟨hReset, _, _, hStart, hWrite⟩ := h.quiet arm le_rfl
    (by have := h.low.1; have := h.high.1; have := h.ended.1; omega)
  obtain ⟨hFsm, hArmed⟩ := h.idle
  have hPcapReset : pcapReset (run.state arm) (run.input arm) = true := by
    simp [pcapReset, hArmed]
  have hArming : (run.state (arm + 1)).arming =
      { (run.state arm).arming with
        startEvent := false
        pcapDone := false
        pcapArmed := true
        fsm := .armed
        status := ⟨false, false, false⟩
        enablePrev := (run.input arm).enable
        timestamp := PcapArming.nextTimestamp (run.state arm).arming
          (armingInput (run.state arm) (run.input arm)) } := by
    rw [run.edge]
    simp [step, PcapArming.step, PcapArming.machine, armingInput, hReset, hFsm, hArmed, h.armed]
  refine ⟨by rw [hArming], ?_, by rw [hArming], ?_, ?_⟩
  · rw [hArming, if_pos (by have := h.low.1; omega)]
  · rw [trigO_step, hPcapReset]
    exact ⟨fun hOn => absurd hOn Bool.false_ne_true, fun hReaches => absurd hReaches.1 (by omega)⟩
  · rw [run.edge]
    exact PcapBuffer.Readout.reset h.listed hPcapReset hStart hWrite
      fun s hReaches => by have := hReaches.1; omega

theorem Acquisition.fall_seen :
    ((run.state fall).arming.enablePrev && !(run.input fall).enable) = true := by
  have hRise := h.high.1
  obtain ⟨prior, rfl⟩ : ∃ prior, fall = prior + 1 := ⟨fall - 1, by omega⟩
  have hBefore := h.high.2 prior (by omega) (by omega)
  have hAfter := h.ended.2 (prior + 1) le_rfl h.ended.1
  rw [enablePrev_eq, hBefore, hAfter]
  rfl

variable {clock : Nat} (hHeld : Held run entries arm rise fall clock) (hFrom : arm < clock)
  (hTo : clock ≤ finish)
include hHeld hFrom hTo

theorem Acquisition.no_abort :
    PcapArming.abortTrig (armingInput (run.state clock) (run.input clock)) = false := by
  obtain ⟨_, hDisarm, hDma, _, _⟩ := h.quiet clock (by omega) hTo
  simp [PcapArming.abortTrig, armingInput, hDisarm, hDma, hHeld.readout.error]

theorem Acquisition.arming_running :
    (run.state (clock + 1)).arming =
      { PcapArming.machine (run.state clock).arming
          (armingInput (run.state clock) (run.input clock)) with
        enablePrev := (run.input clock).enable
        timestamp := PcapArming.nextTimestamp (run.state clock).arming
          (armingInput (run.state clock) (run.input clock)) } := by
  rw [run.edge]
  exact PcapArming.step_running (h.quiet clock (by omega) hTo).1 (h.no_abort hHeld hFrom hTo)

/-- From the fall of ENABLE on only the output keeps the capture going. -/
theorem Acquisition.ending (hFall : fall ≤ clock) :
    (run.state clock).arming.fsm = .enabled ∧
        ((run.state clock).arming.enablePrev && !(run.input clock).enable) = true ∨
      (run.state clock).arming.fsm = .waitOngoingWrite := by
  have hFsm := hHeld.fsm
  have hRise := h.high.1
  rw [if_neg (by omega)] at hFsm
  rcases Nat.eq_or_lt_of_le hFall with rfl | hLater
  · rw [if_pos le_rfl] at hFsm
    exact .inl ⟨hFsm, h.fall_seen⟩
  · rw [if_neg (by omega)] at hFsm
    exact .inr hFsm

/-- The arming state machine, as long as the output goes on after the fall of ENABLE. -/
theorem Acquisition.arming_step
    (hOngoing : fall ≤ clock → (run.state clock).buffer.pcapDatValidO = true) :
    (run.state (clock + 1)).arming.pcapArmed = true ∧
      ((run.state (clock + 1)).arming.fsm =
        if clock + 1 ≤ rise then .armed
        else if clock + 1 ≤ fall then .enabled
        else .waitOngoingWrite) ∧
      (run.state (clock + 1)).arming.status = ⟨false, false, false⟩ := by
  have hFsm := hHeld.fsm
  have hRise := h.high.1
  rw [h.arming_running hHeld hFrom hTo, ← hHeld.armed, ← hHeld.status]
  dsimp only
  rcases Nat.lt_or_ge clock fall with hBefore | hFall
  · by_cases hLow : clock ≤ rise
    · rw [if_pos hLow] at hFsm
      obtain ⟨hNext, hArmed, hStatus⟩ := PcapArming.machine_armed (i := armingInput _ _) hFsm
      refine ⟨hArmed, ?_, hStatus⟩
      rw [hNext]
      by_cases hNow : clock = rise
      · have hEnable : (run.input clock).enable = true := h.high.2 clock (by omega) hBefore
        rw [armingInput, hEnable, if_pos rfl, if_neg (by omega), if_pos (by omega)]
      · have hEnable : (run.input clock).enable = false := h.low.2 clock hFrom (by omega)
        rw [armingInput, hEnable, if_neg Bool.false_ne_true, if_pos (by omega)]
    · rw [if_neg hLow, if_pos (by omega)] at hFsm
      have hEnable : (run.input clock).enable = true := h.high.2 clock (by omega) hBefore
      obtain ⟨hNext, hArmed, hStatus⟩ := PcapArming.machine_enabled (i := armingInput _ _) hFsm
        (h.quiet clock (by omega) hTo).2.1 (by simp [armingInput, hEnable])
      refine ⟨hArmed, ?_, hStatus⟩
      rw [hNext, if_neg (by omega), if_pos (by omega)]
  · obtain ⟨hNext, hArmed, hStatus⟩ := PcapArming.machine_ongoing (i := armingInput _ _)
      (h.ending hHeld hFrom hTo hFall) (hOngoing hFall)
    refine ⟨hArmed, ?_, hStatus⟩
    rw [hNext, if_neg (by omega), if_neg (by omega)]

theorem Acquisition.trigO_eq :
    (run.state (clock + 1)).frame.trigO = true ↔ reaches run arm (clock + 1) := by
  obtain ⟨prior, rfl⟩ : ∃ prior, clock = prior + 2 := ⟨clock - 2, by have := h.two_le; omega⟩
  have hReset : pcapReset (run.state (prior + 2)) (run.input (prior + 2)) = false := by
    simp [pcapReset, hHeld.armed, (h.quiet (prior + 2) (by omega) hTo).1]
  rw [trigO_step, hReset, trigInt_eq (by have := h.two_le; omega), reaches]
  have hSame : prior + 2 + 1 - 3 = prior := by omega
  rw [hSame]
  simp only [Bool.not_false, Bool.true_and]
  exact ⟨fun hPulse => ⟨by omega, hPulse⟩, fun hReaches => hReaches.2⟩

theorem Acquisition.readout_step
    (hSpaced : reaches run arm clock → ∀ s, reaches run arm s → s < clock →
      s + entries.length ≤ clock) :
    PcapBuffer.Readout entries (reaches run arm) (clock + 1) (run.state (clock + 1)).buffer := by
  obtain ⟨hReset, _, _, hStart, hWrite⟩ := h.quiet clock (by omega) hTo
  rw [run.edge]
  exact hHeld.readout.step (i := bufferInput _ _) h.length
    (by simp [bufferInput, pcapReset, hHeld.armed, hReset]) hHeld.trigO hSpaced hStart hWrite

theorem Acquisition.held_step
    (hOngoing : fall ≤ clock → (run.state clock).buffer.pcapDatValidO = true)
    (hSpaced : reaches run arm clock → ∀ s, reaches run arm s → s < clock →
      s + entries.length ≤ clock) :
    Held run entries arm rise fall (clock + 1) := by
  obtain ⟨hArmed, hFsm, hStatus⟩ := h.arming_step hHeld hFrom hTo hOngoing
  exact ⟨hArmed, hFsm, hStatus, h.trigO_eq hHeld hFrom hTo,
    h.readout_step hHeld hFrom hTo hSpaced⟩

end Acquisition

end PcapCore

end Fpga
