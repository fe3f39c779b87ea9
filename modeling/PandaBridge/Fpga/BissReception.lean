import PandaBridge.Fpga.BissMaster
import PandaBridge.Fpga.SerialReceiver

/-! What the BiSS master makes of the bits of a frame. -/
namespace Fpga.BissMaster

open Clocked

/-! ### Before a frame -/

section Ready

/-- The states before the data range. -/
def Opens (smData : SmData) : Prop := smData = .ack ∨ smData = .start ∨ smData = .zero

/-- The state machine before the data range. -/
structure Opening (s : State) : Prop where
  dataEnable : s.dataEnable = false
  nEnWEnable : s.nEnWEnable = false
  crcEnable : s.crcEnable = false
  dataCnt : s.dataCnt = 0

/-- A shift register between its words. -/
def Clear {width : Nat} (s : ShifterIn.State width) : Prop := s.validPrev = false → s.smplHold = 0

/-- What holds in all states: before the data range nothing is enabled, and the shift registers are
empty. -/
structure Ready (s : State) : Prop where
  opening : Opens s.smData → Opening s
  settled : s.smData = .start ∨ s.smData = .zero → s.shifterData.validPrev = false ∧
    s.shifterNEnW.validPrev = false ∧ s.shifterCrc.validPrev = false
  data : Clear s.shifterData
  nEnW : Clear s.shifterNEnW
  crc : Clear s.shifterCrc
  crcReset : s.smData = .zero → s.crcReset = true

theorem Clear.step {width : Nat} {s : ShifterIn.State width} {i : ShifterIn.Input} (h : Clear s) :
    Clear (ShifterIn.step s i) := by
  intro hPrev
  cases hReset : i.reset with
  | true => simp [ShifterIn.step, hReset]
  | false =>
      cases hEnable : i.enable with
      | true =>
          rw [ShifterIn.step_enabled hReset hEnable] at hPrev
          exact absurd hPrev.symm Bool.false_ne_true
      | false =>
          cases hOld : s.validPrev with
          | true => rw [ShifterIn.step_latches hReset hEnable hOld]
          | false =>
              rw [ShifterIn.step_disabled hReset hEnable hOld]
              exact h hOld

theorem validPrev_step {width : Nat} {s : ShifterIn.State width} {i : ShifterIn.Input}
    (hReset : i.reset = false) : (ShifterIn.step s i).validPrev = i.enable := by
  simp only [ShifterIn.step, hReset, Bool.false_eq_true, if_false]
  split_ifs <;> rfl

/-- How the state machine comes to a state before the data range. -/
structure OpensFrom (s s' : State) : Prop where
  opening : Opening s'
  before : s'.smData = .ack ∨ Opens s.smData
  crcReset : s'.smData = .zero → s.smData = .zero ∧ s'.crcReset = s.crcReset ∨ s'.crcReset = true

theorem synchStep_opens {s : State} {i : Input} (hState : s.smData = .synch) :
    Opens (synchStep s i).smData → Opening (synchStep s i) ∧ (synchStep s i).smData = .ack := by
  rw [synchStep]
  split
  · intro hOpens
    simp [Opens, hState] at hOpens
  split
  · exact fun _ => ⟨⟨rfl, rfl, rfl, rfl⟩, rfl⟩
  split
  · intro hOpens
    simp [Opens, lost] at hOpens
  · intro hOpens
    simp [Opens, hState] at hOpens

theorem opens_step {s : State} {i : Input} (hReset : i.reset = false)
    (hOld : Opens s.smData → Opening s) (hOpens : Opens (statStep s i).smData) :
    OpensFrom s (statStep s i) := by
  cases hState : s.smData with
  | synch =>
      simp only [statStep, hReset, hState, Bool.false_eq_true, if_false] at hOpens ⊢
      obtain ⟨hOpening, hAck⟩ := synchStep_opens hState hOpens
      exact ⟨hOpening, .inl hAck, fun hZero => absurd (hAck.symm.trans hZero) (by decide)⟩
  | ack =>
      obtain ⟨hData, hStatus, hCrc, hCnt⟩ := hOld (.inl hState)
      simp only [statStep, hReset, hState, Bool.false_eq_true, if_false,
        ackStep] at hOpens ⊢
      split_ifs at hOpens ⊢
      · exact ⟨⟨hData, hStatus, hCrc, hCnt⟩, .inr (.inl hState), fun hZero => absurd hZero (by simp)⟩
      · simp [Opens, lost] at hOpens
      · exact ⟨⟨hData, hStatus, hCrc, hCnt⟩, .inl rfl, fun hZero => absurd hZero (by simp)⟩
  | start =>
      obtain ⟨hData, hStatus, hCrc, hCnt⟩ := hOld (.inr (.inl hState))
      simp only [statStep, hReset, hState, Bool.false_eq_true, if_false,
        startStep] at hOpens ⊢
      split_ifs at hOpens ⊢
      · simp [Opens, lost] at hOpens
      · exact ⟨⟨hData, hStatus, hCrc, hCnt⟩, .inr (.inr (.inl hState)), fun _ => .inr rfl⟩
      · exact ⟨⟨hData, hStatus, hCrc, hCnt⟩, .inr (.inr (.inl hState)),
          fun hZero => absurd hZero (by simp)⟩
  | zero =>
      obtain ⟨hData, hStatus, hCrc, hCnt⟩ := hOld (.inr (.inr hState))
      simp only [statStep, hReset, hState, Bool.false_eq_true, if_false,
        zeroStep] at hOpens ⊢
      split_ifs at hOpens ⊢
      · simp [Opens] at hOpens
      · simp [Opens, lost] at hOpens
      · exact ⟨⟨hData, hStatus, hCrc, hCnt⟩, .inr (.inr (.inr hState)), fun _ => .inl ⟨hState, rfl⟩⟩
  | data =>
      simp only [statStep, hReset, hState, Bool.false_eq_true, if_false,
        dataStep] at hOpens
      split_ifs at hOpens <;> simp [Opens] at hOpens
  | nEnW =>
      simp only [statStep, hReset, hState, Bool.false_eq_true, if_false,
        nEnWStep] at hOpens
      split_ifs at hOpens <;> simp [Opens] at hOpens
  | crc =>
      simp only [statStep, hReset, hState, Bool.false_eq_true, if_false,
        crcStep] at hOpens
      split_ifs at hOpens <;> simp [Opens] at hOpens
  | timeout =>
      simp only [statStep, hReset, hState, Bool.false_eq_true, if_false,
        timeoutStep] at hOpens
      split_ifs at hOpens <;> simp [Opens] at hOpens

theorem Ready.step {s : State} {i : Input} (h : Ready s) : Ready (BissMaster.step s i) := by
  cases hReset : i.reset with
  | true =>
      have hSynch : (BissMaster.step s i).smData = .synch := by
        show (statStep s i).smData = _
        rw [statStep, if_pos hReset]
      refine ⟨fun hOpens => ?_, fun hOpens => ?_, h.data.step, h.nEnW.step, h.crc.step,
        fun hZero => absurd (hSynch.symm.trans hZero) (by decide)⟩
      · rw [hSynch] at hOpens
        simp [Opens] at hOpens
      · rw [hSynch] at hOpens
        simp at hOpens
  | false =>
      have hFrom : Opens (statStep s i).smData → OpensFrom s (statStep s i) :=
        opens_step hReset h.opening
      refine ⟨fun hOpens => ?_, fun hOpens => ?_, h.data.step, h.nEnW.step, h.crc.step,
        fun hZero => ?_⟩
      · obtain ⟨⟨hData, hStatus, hCrc, hCnt⟩, -, -⟩ := hFrom hOpens
        exact ⟨hData, hStatus, hCrc, hCnt⟩
      · have hOpen : Opens (statStep s i).smData := .inr hOpens
        have hBefore : Opens s.smData := by
          rcases (hFrom hOpen).before with hAck | hOld
          · rcases hOpens with hStart | hZero
            · exact absurd (hAck.symm.trans hStart) (by decide)
            · exact absurd (hAck.symm.trans hZero) (by decide)
          · exact hOld
        obtain ⟨hData, hStatus, hCrc, -⟩ := h.opening hBefore
        exact ⟨(validPrev_step hReset).trans hData, (validPrev_step hReset).trans hStatus,
          (validPrev_step hReset).trans hCrc⟩
      · rcases (hFrom (.inr (.inr hZero))).crcReset hZero with ⟨hOld, hSame⟩ | hSet
        · exact hSame.trans (h.crcReset hOld)
        · exact hSet

theorem ready_boot : Ready .boot :=
  ⟨fun hOpens => by simp [Opens, State.boot] at hOpens, fun hOpens => by simp [State.boot] at hOpens,
    fun _ => rfl, fun _ => rfl, fun _ => rfl, fun hZero => by simp [State.boot] at hZero⟩

end Ready

/-! ### The data range -/

section Phases

/-- The state after so many bits of the data range. -/
def phaseState (bits count : Nat) : SmData :=
  if count ≤ bits then .data
  else if count ≤ bits + 2 then .nEnW
  else if count < bits + 8 then .crc
  else .timeout

/-- The registers after so many bits of the data range. -/
structure Phase (bits count : Nat) (s : State) : Prop where
  smData : s.smData = phaseState bits count
  dataCnt : s.dataCnt.toNat = count
  dataEnable : s.dataEnable = decide (count < bits)
  nEnWEnable : s.nEnWEnable = decide (bits ≤ count ∧ count < bits + 2)
  crcEnable : s.crcEnable = decide (bits + 2 ≤ count ∧ count < bits + 8)
  crcReset : s.crcReset = false

section Steps

variable {s : State} {i : Input} (hReset : i.reset = false)

include hReset

theorem statStep_data (hState : s.smData = .data) : statStep s i = dataStep s i := by
  simp only [statStep, hReset, hState, Bool.false_eq_true, if_false]

theorem statStep_nEnW (hState : s.smData = .nEnW) : statStep s i = nEnWStep s i := by
  simp only [statStep, hReset, hState, Bool.false_eq_true, if_false]

theorem statStep_crc (hState : s.smData = .crc) : statStep s i = crcStep s i := by
  simp only [statStep, hReset, hState, Bool.false_eq_true, if_false]

end Steps

theorem Phase.quiet {bits count : Nat} {s : State} {i : Input} (h : Phase bits count s)
    (hReset : i.reset = false) (hQuiet : sckRisingEdge s = false) (hCount : count < bits + 8) :
    Phase bits count (step s i) ∧ (step s i).linkUp = s.linkUp := by
  have hStat : statStep s i = { s with lineDelayCnt := 0 } := by
    have hState := h.smData
    rw [phaseState] at hState
    split_ifs at hState
    · rw [statStep_data hReset hState, dataStep, if_neg (by simp [hQuiet])]
    · rw [statStep_nEnW hReset hState, nEnWStep, if_neg (by simp [hQuiet])]
    · rw [statStep_crc hReset hState, crcStep, if_neg (by simp [hQuiet])]
  obtain ⟨hState, hCnt, hData, hStatus, hCrc, hOff⟩ := h
  simp only [step, hStat]
  exact ⟨⟨hState, hCnt, hData, hStatus, hCrc, hOff⟩, trivial⟩

theorem Phase.edge {bits : BitVec 8} {count : Nat} {s : State} {i : Input}
    (h : Phase bits.toNat count s) (hReset : i.reset = false) (hRise : sckRisingEdge s = true)
    (hBits : i.bits = bits) (hSome : 0 < bits.toNat) (hSmall : bits.toNat ≤ 32)
    (hCount : count < bits.toNat + 8) :
    Phase bits.toNat (count + 1) (step s i) ∧ (step s i).linkUp = s.linkUp := by
  obtain ⟨hState, hCnt, hData, hStatus, hCrc, hOff⟩ := h
  have hUp : (s.dataCnt + 1).toNat = count + 1 := by
    rw [BitVec.toNat_add, hCnt]
    show (count + 1) % 256 = _
    omega
  rw [phaseState] at hState
  split_ifs at hState with hInData hInStatus
  · have hLast : s.dataCnt = i.bits - 1 ↔ count + 1 = bits.toNat := by
      rw [hBits, ← BitVec.toNat_inj, hCnt, BitVec.toNat_sub]
      show count = (2 ^ 8 - 1 + bits.toNat) % 2 ^ 8 ↔ _
      omega
    have hAll : s.dataCnt = i.bits ↔ count = bits.toNat := by
      rw [hBits, ← BitVec.toNat_inj, hCnt]
    have hStat := statStep_data hReset hState
    rw [dataStep, if_pos hRise] at hStat
    simp only [step, hStat, hLast, hAll]
    refine ⟨⟨?_, hUp, ?_, ?_, ?_, hOff⟩, trivial⟩
    · simp only [phaseState]
      split_ifs <;> first | rfl | omega
    · simp only [hData]
      split_ifs
      · exact (decide_eq_false (by omega)).symm
      · exact decide_eq_decide.mpr (by omega)
    · simp only [hStatus]
      split_ifs
      · exact (decide_eq_true (by omega)).symm
      · exact decide_eq_decide.mpr (by omega)
    · exact hCrc.trans (decide_eq_decide.mpr (by omega))
  · have hLast : s.dataCnt = i.bits + uStatusBits - 1 ↔ count = bits.toNat + 1 := by
      rw [hBits, ← BitVec.toNat_inj, hCnt, BitVec.toNat_sub, BitVec.toNat_add]
      show count = (2 ^ 8 - 1 + (bits.toNat + 2) % 2 ^ 8) % 2 ^ 8 ↔ _
      omega
    have hAll : s.dataCnt = i.bits + uStatusBits ↔ count = bits.toNat + 2 := by
      rw [hBits, ← BitVec.toNat_inj, hCnt, BitVec.toNat_add]
      show count = (bits.toNat + 2) % 2 ^ 8 ↔ _
      omega
    have hStat := statStep_nEnW hReset hState
    rw [nEnWStep, if_pos hRise] at hStat
    simp only [step, hStat, hLast, hAll]
    refine ⟨⟨?_, hUp, ?_, ?_, ?_, hOff⟩, trivial⟩
    · simp only [phaseState]
      split_ifs <;> first | rfl | omega
    · exact hData.trans (decide_eq_decide.mpr (by omega))
    · simp only [hStatus]
      split_ifs
      · exact (decide_eq_false (by omega)).symm
      · exact decide_eq_decide.mpr (by omega)
    · simp only [hCrc]
      split_ifs
      · exact (decide_eq_true (by omega)).symm
      · exact decide_eq_decide.mpr (by omega)
  · have hLast : s.dataCnt = i.bits + uStatusBits + uCrcBits - 1 ↔ count = bits.toNat + 7 := by
      rw [hBits, ← BitVec.toNat_inj, hCnt, BitVec.toNat_sub, BitVec.toNat_add, BitVec.toNat_add]
      show count = (2 ^ 8 - 1 + ((bits.toNat + 2) % 2 ^ 8 + 6) % 2 ^ 8) % 2 ^ 8 ↔ _
      omega
    have hStat := statStep_crc hReset hState
    rw [crcStep, if_pos hRise] at hStat
    simp only [step, hStat, hLast]
    refine ⟨⟨?_, hUp, ?_, ?_, ?_, hOff⟩, trivial⟩
    · simp only [phaseState]
      split_ifs <;> first | rfl | omega
    · exact hData.trans (decide_eq_decide.mpr (by omega))
    · exact hStatus.trans (decide_eq_decide.mpr (by omega))
    · simp only [hCrc]
      split_ifs
      · exact (decide_eq_false (by omega)).symm
      · exact decide_eq_decide.mpr (by omega)

end Phases

/-! ### A frame -/

section Frame

variable {run : Run step}

/-- A rising edge of the serial clock. -/
def Rises (run : Run step) (clock : Nat) : Prop := sckRisingEdge (run.state clock) = true

/-- A frame of so many data bits, from the edge of its zero bit to the edge of its last bit. -/
structure Frame (run : Run step) (bits : BitVec 8) (encoding : Encoding) (edge : Nat → Nat) :
    Prop where
  zero : (run.state (edge 0)).smData = .zero
  first : Rises run (edge 0)
  zeroBit : (run.input (edge 0)).bissDat = false
  events : Events (Rises run) edge (bits.toNat + 8)
  running : ∀ clock, edge 0 ≤ clock → clock ≤ edge (bits.toNat + 8) + 2 →
    (run.input clock).reset = false ∧ (run.input clock).bits = bits ∧
      (run.input clock).encoding = encoding

/-- A bit of the data range as it is received. -/
def received (run : Run step) (edge : Nat → Nat) (place : Nat) : Bool :=
  (run.input (edge (place + 1))).bissDat

variable {bits : BitVec 8} {encoding : Encoding} {edge : Nat → Nat}
  (h : Frame run bits encoding edge) (hReady : Ready (run.state (edge 0)))
  (hSome : 0 < bits.toNat) (hSmall : bits.toNat ≤ 32)

include h hReady hSome in
theorem Frame.start : Phase bits.toNat 0 (run.state (edge 0 + 1)) ∧
    (run.state (edge 0 + 1)).linkUp = (run.state (edge 0)).linkUp := by
  obtain ⟨hReset, -, -⟩ := h.running (edge 0) le_rfl ((h.events.mono (Nat.zero_le _) le_rfl).trans
    (Nat.le_add_right _ 2))
  obtain ⟨hData, hStatus, hCrc, hCnt⟩ := hReady.opening (.inr (.inr h.zero))
  have hRise : sckRisingEdge (run.state (edge 0)) = true := h.first
  have hStat : statStep (run.state (edge 0)) (run.input (edge 0)) =
      zeroStep (run.state (edge 0)) (run.input (edge 0)) := by
    simp only [statStep, hReset, h.zero, Bool.false_eq_true, if_false]
  rw [zeroStep, if_pos hRise, if_pos (by rw [h.zeroBit]; rfl)] at hStat
  rw [run.edge]
  simp only [step, hStat]
  refine ⟨⟨?_, ?_, (decide_eq_true hSome).symm, ?_, ?_, rfl⟩, trivial⟩
  · rw [phaseState, if_pos (Nat.zero_le _)]
  · rw [hCnt]
    rfl
  · exact hStatus.trans (decide_eq_false fun hIn => by omega).symm
  · exact hCrc.trans (decide_eq_false fun hIn => by omega).symm

include h in
theorem Frame.running_to {tick : Nat} (count : Nat) (hCount : count ≤ bits.toNat + 8)
    (hFrom : edge 0 ≤ tick) (hTo : tick ≤ edge count) : (run.input tick).reset = false ∧
      (run.input tick).bits = bits ∧ (run.input tick).encoding = encoding := by
  have := h.events.mono hCount le_rfl
  exact h.running tick hFrom (by omega)

include h in
theorem Frame.lasts {count : Nat} (hCount : count < bits.toNat + 8)
    (hPhase : Phase bits.toNat count (run.state (edge count + 1))) {tick : Nat}
    (hFrom : edge count < tick) (hTo : tick ≤ edge (count + 1)) :
    Phase bits.toNat count (run.state tick) ∧
      (run.state tick).linkUp = (run.state (edge count + 1)).linkUp := by
  induction tick, (show edge count + 1 ≤ tick from hFrom) using Nat.le_induction with
  | base => exact ⟨hPhase, rfl⟩
  | succ tick hLow ih =>
      obtain ⟨hPrior, hLink⟩ := ih hLow (by omega)
      have hStart := h.events.mono (Nat.zero_le count) (Nat.le_of_lt hCount)
      have hReset := (h.running_to (count + 1) (by omega) (by omega) (by omega) :
        (run.input tick).reset = false ∧ _).1
      have hQuiet := Bool.eq_false_iff.mpr ((h.events.next count hCount).quiet tick hLow (by omega))
      obtain ⟨hNext, hSame⟩ := hPrior.quiet hReset hQuiet hCount
      rw [run.edge]
      exact ⟨hNext, hSame.trans hLink⟩

include h hReady hSome hSmall in
theorem Frame.phase {count : Nat} (hCount : count ≤ bits.toNat + 8) :
    Phase bits.toNat count (run.state (edge count + 1)) ∧
      (run.state (edge count + 1)).linkUp = (run.state (edge 0)).linkUp := by
  induction count with
  | zero => exact h.start hReady hSome
  | succ count ih =>
      obtain ⟨hPhase, hLink⟩ := ih (by omega)
      obtain ⟨hNow, hSame⟩ := h.lasts hCount hPhase (h.events.next count hCount).ordered le_rfl
      obtain ⟨hReset, hBits, -⟩ := h.running_to _ hCount (h.events.mono (Nat.zero_le _) hCount) le_rfl
      obtain ⟨hNext, hKept⟩ := hNow.edge hReset (h.events.next count hCount).occurs hBits hSome
        hSmall hCount
      rw [run.edge]
      exact ⟨hNext, hKept.trans (hSame.trans hLink)⟩

include h hReady hSome hSmall in
theorem Frame.phase_at {tick : Nat} (hFrom : edge 0 < tick)
    (hTo : tick ≤ edge (bits.toNat + 8) + 1) : ∃ count, count ≤ bits.toNat + 8 ∧
      Phase bits.toNat count (run.state tick) ∧ edge count < tick ∧
      (count < bits.toNat + 8 → tick ≤ edge (count + 1)) := by
  rcases Nat.lt_or_ge (edge (bits.toNat + 8)) tick with hLast | hBefore
  · obtain rfl : tick = edge (bits.toNat + 8) + 1 := by omega
    exact ⟨_, le_rfl, (h.phase hReady hSome hSmall le_rfl).1, Nat.lt_succ_self _,
      fun hLess => absurd hLess (Nat.lt_irrefl _)⟩
  · obtain ⟨count, hCount, hLow, hHigh⟩ := h.events.exists_between hFrom hBefore
    have hPhase := (h.phase hReady hSome hSmall (Nat.le_of_lt hCount)).1
    exact ⟨count, Nat.le_of_lt hCount, (h.lasts hCount hPhase hLow hHigh).1, hLow,
      fun _ => hHigh⟩

include h hReady hSome hSmall in
/-- What a strobe of certain phases has taken by the end of a frame. -/
theorem Frame.collects {State : Type} (register : Nat → State) (takes : Nat → Bool)
    (take : State → Bool → State) {low high : Nat} (hLess : low ≤ high)
    (hHigh : high ≤ bits.toNat + 8) {first last : Nat} (hFirst : first = edge low + 1)
    (hLast : edge high < last) (hEnd : last ≤ edge (bits.toNat + 8) + 2)
    (hTakes : ∀ tick count, edge 0 < tick → tick < last → Phase bits.toNat count (run.state tick) →
      (takes tick = true ↔ (low ≤ count ∧ count < high) ∧ Rises run tick))
    (hStep : ∀ tick, first ≤ tick → tick < last → register (tick + 1) =
      if takes tick then take (register tick) (run.input tick).bissDat else register tick) :
    register last = ((List.range (high - low)).map fun place => received run edge (low + place)).foldl
      take (register first) := by
  have hOrder := h.events.mono hLess hHigh
  have hZero := h.events.mono (Nat.zero_le low) (hLess.trans hHigh)
  have hTop := h.events.mono hHigh le_rfl
  have hSame : edge (low + (high - low)) = edge high := by rw [Nat.add_sub_of_le hLess]
  refine collect register takes (fun tick => (run.input tick).bissDat) take (by omega) hStep
    (fun place => edge (low + place + 1)) (high - low) (fun tick hFrom hTo => ?_)
    (fun place hPlace => ?_) fun place later hPlace hLater => ?_
  · obtain ⟨count, hCount, hPhase, hLow, hNext⟩ :=
      h.phase_at hReady hSome hSmall (show edge 0 < tick by omega) (by omega)
    rw [hTakes tick count (by omega) hTo hPhase]
    constructor
    · rintro ⟨⟨hFromLow, hToHigh⟩, hRise⟩
      have hNow := hNext (by omega)
      have hUpTo := h.events.mono (show count + 1 ≤ high from hToHigh) hHigh
      exact ((h.events.part hHigh).event_iff (show edge (low + 0) < tick by rw [Nat.add_zero]; omega)
        (show tick ≤ edge (low + (high - low)) by omega)).mp hRise
    · rintro ⟨place, hPlace, rfl⟩
      have hSame : count = low + place := by
        rcases Nat.lt_trichotomy count (low + place) with hBefore | hSame | hAfter
        · have := hNext (by omega)
          have := h.events.strict (show count + 1 < low + place + 1 by omega) (by omega)
          omega
        · exact hSame
        · have := h.events.mono (show low + place + 1 ≤ count by omega) hCount
          omega
      exact ⟨⟨by omega, by omega⟩, (h.events.next (low + place) (by omega)).occurs⟩
  · have hAfter := h.events.strict (show low < low + place + 1 by omega) (by omega)
    have hUpTo := h.events.mono (show low + place + 1 ≤ high by omega) hHigh
    exact ⟨by omega, by omega⟩
  · exact h.events.strict (show low + place + 1 < low + later + 1 by omega) (by omega)

include h hReady hSome hSmall in
/-- The check code of a frame is the one of its data and status bits. -/
theorem Frame.crcCalc_eq : (run.state (edge (bits.toNat + 8) + 2)).crcCalc =
    Coding.feed 3 0#6 ((List.range (bits.toNat + 2)).map (received run edge)) := by
  have hOrder := h.events.mono (show bits.toNat + 2 ≤ bits.toNat + 8 by omega) le_rfl
  have hZero := h.events.mono (Nat.zero_le (bits.toNat + 8)) le_rfl
  have hClear : (run.state (edge 0 + 1)).crcCalc = 0#6 := by
    rw [run.edge]
    simp only [step, hReady.crcReset h.zero, Bool.or_true]
    rfl
  have hCollect := h.collects hReady hSome hSmall (fun tick => (run.state tick).crcCalc)
    (fun tick => ((run.state tick).dataEnable || (run.state tick).nEnWEnable) &&
      sckRisingEdge (run.state tick)) (Coding.shiftBit 3) (Nat.zero_le (bits.toNat + 2)) (by omega)
    rfl (by omega) le_rfl ?_ ?_
  · simp only [hClear, Nat.sub_zero, Nat.zero_add] at hCollect
    exact hCollect
  · intro tick count hFrom hTo hPhase
    rw [hPhase.dataEnable, hPhase.nEnWEnable, Rises, Bool.and_eq_true, Bool.or_eq_true,
      decide_eq_true_iff, decide_eq_true_iff]
    refine and_congr_left fun _ => ?_
    omega
  · intro tick hFrom hTo
    obtain ⟨count, -, hPhase, -, -⟩ := h.phase_at hReady hSome hSmall
      (show edge 0 < tick by omega) (by omega)
    have hReset := (h.running tick (by omega) (by omega)).1
    rw [run.edge]
    simp only [step, hPhase.crcReset, hReset, Bool.or_self]
    split_ifs with hTakes
    · rw [hTakes, BissCrc.step_strobe]
    · rw [Bool.eq_false_iff.mpr hTakes]
      rfl

include h hReady hSome hSmall in
/-- A shift register that is enabled in certain phases has its window from edge to edge. -/
theorem Frame.window {width : Nat} (shifter : Run (@ShifterIn.step width)) {code : Encoding}
    (enable : State → Bool) {low high : Nat} (hLess : low < high) (hHigh : high ≤ bits.toNat + 8)
    (hEnable : ∀ count s, Phase bits.toNat count s →
      enable s = decide (low ≤ count ∧ count < high))
    (hInput : ∀ tick, edge 0 < tick → tick < edge (bits.toNat + 8) + 2 → shifter.input tick =
      { shifterInput (run.state tick) (run.input tick) code (enable (run.state tick)) with
        reset := false })
    (hClear : (shifter.state (edge 0 + 1)).validPrev = false ∧
      (shifter.state (edge 0 + 1)).smplHold = 0) :
    ShifterIn.Window shifter code (edge 0 + 1) (edge low + 1) (edge high + 1)
      (edge (bits.toNat + 8) + 2) (fun place => edge (low + (place + 1))) (high - low) := by
  have hZero := h.events.mono (Nat.zero_le low) (by omega)
  have hOrder := h.events.strict hLess hHigh
  have hTop := h.events.mono hHigh le_rfl
  have hOn : ∀ tick, edge 0 < tick → tick < edge (bits.toNat + 8) + 2 →
      ((shifter.input tick).enable = true ↔ edge low < tick ∧ tick ≤ edge high) := by
    intro tick hFrom hTo
    obtain ⟨count, hCount, hPhase, hLow, hNext⟩ :=
      h.phase_at hReady hSome hSmall hFrom (by omega)
    rw [hInput tick hFrom hTo]
    show enable (run.state tick) = true ↔ _
    rw [hEnable count _ hPhase, decide_eq_true_iff]
    constructor
    · rintro ⟨hFromLow, hToHigh⟩
      have := h.events.mono hFromLow hCount
      have := h.events.mono (show count + 1 ≤ high from hToHigh) hHigh
      have := hNext (by omega)
      exact ⟨by omega, by omega⟩
    · rintro ⟨hFromLow, hToHigh⟩
      constructor
      · by_contra hBefore
        have := hNext (by omega)
        have := h.events.mono (show count + 1 ≤ low by omega) (by omega)
        omega
      · by_contra hAfter
        have := h.events.mono (Nat.not_lt.mp hAfter) hCount
        omega
  refine ⟨by omega, by omega, by omega, fun tick hFrom hTo => ?_, hClear, fun tick hFrom hTo => ?_,
    fun tick hFrom hTo => ⟨?_, ?_⟩, fun tick hFrom hTo => ?_, fun tick hFrom hTo => ?_,
    fun place hPlace => ?_, fun place later hPlace hLater => ?_⟩
  · rw [hInput tick hFrom hTo]
  · rw [Bool.eq_false_iff, Ne, hOn tick (by omega) (by omega)]
    omega
  · rw [hOn tick (by omega) (by omega)]
    omega
  · rw [hInput tick (by omega) (by omega)]
    rfl
  · rw [Bool.eq_false_iff, Ne, hOn tick (by omega) (by omega)]
    omega
  · rw [hInput tick (by omega) (by omega)]
    have hSame : edge (low + (high - low)) = edge high := by rw [Nat.add_sub_of_le hLess.le]
    exact (h.events.part hHigh).event_iff (show edge (low + 0) < tick by rw [Nat.add_zero]; omega)
      (show tick ≤ edge (low + (high - low)) by omega)
  · have hAfter := h.events.strict (show low < low + (place + 1) by omega) (by omega)
    have hUpTo := h.events.mono (show low + (place + 1) ≤ high by omega) hHigh
    exact ⟨by omega, by omega⟩
  · exact h.events.strict (show low + (place + 1) < low + (later + 1) by omega) (by omega)

/-- The shift registers as circuits of their own. -/
def dataRun (run : Run step) : Run (@ShifterIn.step 32) :=
  run.component ShifterIn.step (·.shifterData)
    (fun s i => shifterInput s i i.encoding s.dataEnable) fun _ _ => rfl

def nEnWRun (run : Run step) : Run (@ShifterIn.step 2) :=
  run.component ShifterIn.step (·.shifterNEnW)
    (fun s i => shifterInput s i .unsignedBinary s.nEnWEnable) fun _ _ => rfl

def crcRun (run : Run step) : Run (@ShifterIn.step 6) :=
  run.component ShifterIn.step (·.shifterCrc)
    (fun s i => shifterInput s i .unsignedBinary s.crcEnable) fun _ _ => rfl

theorem clear_after {width : Nat} (shifter : Run (@ShifterIn.step width)) {clock : Nat}
    (hReset : (shifter.input clock).reset = false) (hEnable : (shifter.input clock).enable = false)
    (hClear : Clear (shifter.state clock)) :
    (shifter.state (clock + 1)).validPrev = false ∧ (shifter.state (clock + 1)).smplHold = 0 := by
  rw [shifter.edge]
  have hPrev := (validPrev_step (s := shifter.state clock) hReset).trans hEnable
  exact ⟨hPrev, hClear.step hPrev⟩

include h in
theorem Frame.shifterInput_eq {tick : Nat} (hFrom : edge 0 < tick)
    (hTo : tick < edge (bits.toNat + 8) + 2) (code : Encoding) (enable : Bool) :
    shifterInput (run.state tick) (run.input tick) code enable =
      { shifterInput (run.state tick) (run.input tick) code enable with reset := false } := by
  rw [shifterInput, (h.running tick (Nat.le_of_lt hFrom) (Nat.le_of_lt hTo)).1]

include h hReady hSome hSmall in
theorem Frame.dataWindow : ShifterIn.Window (dataRun run) encoding (edge 0 + 1) (edge 0 + 1)
    (edge bits.toNat + 1) (edge (bits.toNat + 8) + 2) (fun place => edge (0 + (place + 1)))
    (bits.toNat - 0) := by
  have hZero := h.events.mono (Nat.zero_le (bits.toNat + 8)) le_rfl
  obtain ⟨hData, -, -, -⟩ := hReady.opening (.inr (.inr h.zero))
  have hReset := (h.running (edge 0) le_rfl (by omega)).1
  refine h.window hReady hSome hSmall (dataRun run) (·.dataEnable) hSome (by omega)
    (fun count s hPhase => hPhase.dataEnable.trans (decide_eq_decide.mpr (by omega)))
    (fun tick hFrom hTo => ?_) (clear_after (dataRun run) hReset hData hReady.data)
  have hEncoding := (h.running tick (Nat.le_of_lt hFrom) (Nat.le_of_lt hTo)).2.2
  show shifterInput _ _ (run.input tick).encoding _ = _
  rw [hEncoding]
  exact h.shifterInput_eq hFrom hTo _ _

include h hReady hSome hSmall in
theorem Frame.nEnWWindow : ShifterIn.Window (nEnWRun run) .unsignedBinary (edge 0 + 1)
    (edge bits.toNat + 1) (edge (bits.toNat + 2) + 1) (edge (bits.toNat + 8) + 2)
    (fun place => edge (bits.toNat + (place + 1))) (bits.toNat + 2 - bits.toNat) := by
  have hZero := h.events.mono (Nat.zero_le (bits.toNat + 8)) le_rfl
  obtain ⟨-, hStatus, -, -⟩ := hReady.opening (.inr (.inr h.zero))
  have hReset := (h.running (edge 0) le_rfl (by omega)).1
  exact h.window hReady hSome hSmall (nEnWRun run) (·.nEnWEnable) (by omega) (by omega)
    (fun count s hPhase => hPhase.nEnWEnable)
    (fun tick hFrom hTo => h.shifterInput_eq hFrom hTo _ _)
    (clear_after (nEnWRun run) hReset hStatus hReady.nEnW)

include h hReady hSome hSmall in
theorem Frame.crcWindow : ShifterIn.Window (crcRun run) .unsignedBinary (edge 0 + 1)
    (edge (bits.toNat + 2) + 1) (edge (bits.toNat + 8) + 1) (edge (bits.toNat + 8) + 2)
    (fun place => edge (bits.toNat + 2 + (place + 1))) (bits.toNat + 8 - (bits.toNat + 2)) := by
  have hZero := h.events.mono (Nat.zero_le (bits.toNat + 8)) le_rfl
  obtain ⟨-, -, hCrc, -⟩ := hReady.opening (.inr (.inr h.zero))
  have hReset := (h.running (edge 0) le_rfl (by omega)).1
  exact h.window hReady hSome hSmall (crcRun run) (·.crcEnable) (by omega) le_rfl
    (fun count s hPhase => hPhase.crcEnable)
    (fun tick hFrom hTo => h.shifterInput_eq hFrom hTo _ _)
    (clear_after (crcRun run) hReset hCrc hReady.crc)

include h hReady hSome hSmall in
/-- The position stays as it is up to the check. -/
theorem Frame.posn_kept {clock : Nat} (hAfter : edge 0 < clock)
    (hUpTo : clock ≤ edge (bits.toNat + 8) + 2) :
    (run.state clock).posn = (run.state (edge 0 + 1)).posn := by
  have hZero := h.events.mono (Nat.zero_le (bits.toNat + 8)) le_rfl
  have hFirst : (run.state (edge 0 + 1)).shifterCrc.dataValid = false := by
    have hReset := (h.running (edge 0) le_rfl (by omega)).1
    obtain ⟨-, -, hCrc, -⟩ := hReady.opening (.inr (.inr h.zero))
    obtain ⟨-, -, hPrev⟩ := hReady.settled (.inr h.zero)
    show ((crcRun run).state (edge 0 + 1)).dataValid = false
    rw [(crcRun run).edge, @ShifterIn.step_disabled _ ((crcRun run).state (edge 0))
      ((crcRun run).input (edge 0)) hReset hCrc hPrev]
  refine stable_of_kept (fun tick => (run.state tick).posn) (edge 0 + 1)
    (edge (bits.toNat + 8) + 2) (fun tick hFrom hTo => ?_) hAfter hUpTo
  have hQuiet : (run.state tick).shifterCrc.dataValid = false := by
    rcases Nat.eq_or_lt_of_le hFrom with rfl | hLater
    · exact hFirst
    · have hIff := (h.crcWindow hReady hSome hSmall).dataValid_iff hLater (Nat.le_of_lt hTo)
      exact Bool.eq_false_iff.mpr fun hValid => by
        have := hIff.mp hValid
        omega
  have hReset := (h.running tick (by omega) (by omega)).1
  rw [run.edge]
  show (check (run.state tick) (run.input tick)).posn = _
  simp only [check, hReset, hQuiet, Bool.false_eq_true, if_false]
  split_ifs <;> rfl

/-- What the check of a frame gives: a lost link, a wrong code, the error bit of the slave, or the
position. -/
def verdict (linkUp : Bool) (bits : Nat) (encoding : Encoding) (posn : BitVec 32)
    (received : Nat → Bool) [Decidable (BissCrc.Accepted received (bits + 2))] :
    BitVec 32 × BitVec 32 :=
  if linkUp = false then (2, posn)
  else if ¬ BissCrc.Accepted received (bits + 2) then (3, posn)
  else if received bits = false then (4, posn)
  else (0, signExtended bits (ShifterIn.wordOf encoding ((List.range bits).map received)))

instance (received : Nat → Bool) (count : Nat) : Decidable (BissCrc.Accepted received count) :=
  inferInstanceAs (Decidable (_ = _))

/-- The registers compare the code that they have put together with the one that they compute. -/
theorem verdict_eq (linkUp : Bool) (bits : Nat) (encoding : Encoding) (posn : BitVec 32)
    (received : Nat → Bool) : verdict linkUp bits encoding posn received =
      if !linkUp then (2, posn)
      else if ShifterIn.wordOf .unsignedBinary
          ((List.range 6).map fun place => received (bits + 2 + place)) ≠
          BissCrc.out (Coding.feed 3 0#6 ((List.range (bits + 2)).map received)) then (3, posn)
      else if !received bits then (4, posn)
      else (0, signExtended bits
        (ShifterIn.wordOf encoding ((List.range bits).map received))) := by
  rw [verdict]
  cases linkUp
  · rfl
  · cases received bits <;> rfl

theorem statusBit (error warning : Bool) :
    (ShifterIn.wordOf .unsignedBinary [error, warning] : BitVec 2).getLsbD 1 = error := by
  cases error <;> cases warning <;> rfl

include h hReady hSome hSmall in
theorem Frame.checked :
    ((run.state (edge (bits.toNat + 8) + 3)).health, (run.state (edge (bits.toNat + 8) + 3)).posn) =
      verdict (run.state (edge (bits.toNat + 8) + 2)).linkUp bits.toNat encoding
        (run.state (edge 0 + 1)).posn (received run edge) := by
  have hZero := h.events.mono (Nat.zero_le (bits.toNat + 8)) le_rfl
  obtain ⟨hReset, hBits, -⟩ := h.running (edge (bits.toNat + 8) + 2) (by omega) le_rfl
  have hCrcWindow := h.crcWindow hReady hSome hSmall
  have hValid : (run.state (edge (bits.toNat + 8) + 2)).shifterCrc.dataValid = true :=
    (hCrcWindow.dataValid_iff (by omega) le_rfl).mpr rfl
  have hCode : (run.state (edge (bits.toNat + 8) + 2)).shifterCrc.dataO =
      ShifterIn.wordOf .unsignedBinary
        ((List.range 6).map fun place => received run edge (bits.toNat + 2 + place)) := by
    have hWord := hCrcWindow.word
    rw [show bits.toNat + 8 - (bits.toNat + 2) = 6 by omega] at hWord
    exact hWord
  have hStatus : (run.state (edge (bits.toNat + 8) + 2)).shifterNEnW.dataO.getLsbD 1 =
      received run edge bits.toNat := by
    have hWord := (h.nEnWWindow hReady hSome hSmall).word
    rw [show bits.toNat + 2 - bits.toNat = 2 by omega] at hWord
    exact (congrArg (·.getLsbD 1) hWord).trans (statusBit _ _)
  have hData : (run.state (edge (bits.toNat + 8) + 2)).shifterData.dataO =
      ShifterIn.wordOf encoding ((List.range bits.toNat).map (received run edge)) := by
    have hWord := (h.dataWindow hReady hSome hSmall).word
    simp only [Nat.zero_add, Nat.sub_zero] at hWord
    exact hWord
  have hCalc := h.crcCalc_eq hReady hSome hSmall
  have hPosn := h.posn_kept hReady hSome hSmall
    (show edge 0 < edge (bits.toNat + 8) + 2 by omega) le_rfl
  have hCheck : ∀ s : State, s = run.state (edge (bits.toNat + 8) + 2) →
      ((check s (run.input (edge (bits.toNat + 8) + 2))).health,
        (check s (run.input (edge (bits.toNat + 8) + 2))).posn) =
      verdict s.linkUp bits.toNat encoding (run.state (edge 0 + 1)).posn (received run edge) := by
    rintro s rfl
    rw [check, if_neg (by simp [hReset]), hValid, hCode, hStatus, hData, hCalc, hPosn, hBits,
      verdict_eq]
    simp only [if_true]
    split_ifs <;> rfl
  have hStep := hCheck _ rfl
  rw [run.edge]
  exact hStep

include h hReady hSome hSmall in
theorem Frame.linkUp_kept (hUp : (run.state (edge 0)).linkUp = true) :
    (run.state (edge (bits.toNat + 8) + 2)).linkUp = true := by
  have hZero := h.events.mono (Nat.zero_le (bits.toNat + 8)) le_rfl
  obtain ⟨hPhase, hLink⟩ := h.phase hReady hSome hSmall (show bits.toNat + 8 ≤ bits.toNat + 8 from le_rfl)
  have hState : (run.state (edge (bits.toNat + 8) + 1)).smData = .timeout := by
    rw [hPhase.smData, phaseState, if_neg (by omega), if_neg (by omega), if_neg (by omega)]
  have hReset := (h.running (edge (bits.toNat + 8) + 1) (by omega) (by omega)).1
  rw [run.edge]
  show (statStep _ _).linkUp = true
  simp only [statStep, hReset, hState, timeoutStep, Bool.false_eq_true, if_false]
  split_ifs
  · rfl
  · exact hLink.trans hUp

end Frame

end Fpga.BissMaster
