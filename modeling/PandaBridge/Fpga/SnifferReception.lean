import PandaBridge.Fpga.BissSniffer
import PandaBridge.Fpga.BissReception

/-! What the BiSS sniffer makes of the bits of a frame. -/
namespace Fpga.BissSniffer

open Clocked

/-! ### Before a frame -/

section Ready

/-- What holds in all states: before the data range nothing is enabled, the shift registers are
empty, and the check code is clear. -/
structure Ready (s : State) : Prop where
  flags : s.fsm ≠ .dataRange → s.fsm ≠ .timeout →
    s.dataValid = false ∧ s.nErrorValid = false ∧ s.crcValid = false
  settled : s.fsm = .ack ∨ s.fsm = .start ∨ s.fsm = .waitZero → s.dataIn.validPrev = false ∧
    s.nErrorIn.validPrev = false ∧ s.crcIn.validPrev = false
  data : BissMaster.Clear s.dataIn
  nError : BissMaster.Clear s.nErrorIn
  crc : BissMaster.Clear s.crcIn
  crcCalc : s.fsm = .waitZero → s.crcCalc = 0

theorem step_fsm {s : State} {i : Input} (hReset : reset s i = false) :
    (step s i).fsm = fsmNext s i := by
  simp only [step, fsmStep, hReset, Bool.false_eq_true, if_false]

theorem step_fsm_reset {s : State} {i : Input} (hReset : reset s i = true) :
    (step s i).fsm = .idle := by
  simp only [step, fsmStep, hReset, if_true]

theorem flags_off {s : State} {i : Input} (hState : s.fsm ≠ .dataRange) :
    flags s i = ⟨0, false, false, false⟩ := by
  rw [flags, if_neg hState, ite_self]

theorem flags_reset {s : State} {i : Input} (hReset : reset s i = true) :
    flags s i = ⟨0, false, false, false⟩ := by
  rw [flags, if_pos hReset]

/-- Before the data range the state machine goes one state on at a time. -/
theorem fsmNext_before {s : State} {i : Input} :
    (fsmNext s i = .ack → s.fsm = .idle ∨ s.fsm = .ack) ∧
    (fsmNext s i = .start → s.fsm = .ack ∨ s.fsm = .start) ∧
    (fsmNext s i = .waitZero → s.fsm = .start ∨ s.fsm = .waitZero) ∧
    (fsmNext s i = .idle → s.fsm = .idle ∨ s.fsm = .timeout) := by
  rw [fsmNext]
  cases s.fsm <;> simp <;> split_ifs <;> simp

theorem Ready.step {s : State} {i : Input} (h : Ready s) : Ready (BissSniffer.step s i) := by
  obtain ⟨hAck, hStart, hWait, hIdle⟩ := @fsmNext_before s i
  cases hReset : reset s i with
  | true =>
      have hState := step_fsm_reset hReset
      refine ⟨fun _ _ => ?_, fun hOpens => ?_, h.data.step, h.nError.step, h.crc.step, fun hZero => ?_⟩
      · simp only [BissSniffer.step, flags_reset hReset, and_self]
      · rw [hState] at hOpens
        simp at hOpens
      · exact absurd (hState.symm.trans hZero) (by decide)
  | false =>
      have hState := step_fsm hReset
      refine ⟨fun hData hTimeout => ?_, fun hOpens => ?_, h.data.step, h.nError.step, h.crc.step,
        fun hZero => ?_⟩
      · have hOld : s.fsm ≠ .dataRange := by
          intro hRange
          rw [hState, fsmNext, hRange] at hData hTimeout
          revert hData hTimeout
          simp only
          split_ifs <;> simp
        simp only [BissSniffer.step, flags_off hOld, and_self]
      · have hOld : s.fsm ≠ .dataRange ∧ s.fsm ≠ .timeout := by
          rw [hState] at hOpens
          rcases hOpens with hNext | hNext | hNext
          · rcases hAck hNext with hOld | hOld <;> simp [hOld]
          · rcases hStart hNext with hOld | hOld <;> simp [hOld]
          · rcases hWait hNext with hOld | hOld <;> simp [hOld]
        obtain ⟨hDataOff, hErrorOff, hCrcOff⟩ := h.flags hOld.1 hOld.2
        exact ⟨(BissMaster.validPrev_step hReset).trans hDataOff,
          (BissMaster.validPrev_step hReset).trans hErrorOff,
          (BissMaster.validPrev_step hReset).trans hCrcOff⟩
      · rcases hWait (hState.symm.trans hZero) with hOld | hOld
        · simp only [BissSniffer.step, hOld]
          rfl
        · obtain ⟨hDataOff, hErrorOff, -⟩ := h.flags (by simp [hOld]) (by simp [hOld])
          simp only [BissSniffer.step, hOld, hDataOff, hErrorOff, h.crcCalc hOld, Bool.or_self,
            Bool.and_false]
          rfl

theorem ready_boot : Ready .boot :=
  ⟨fun _ _ => ⟨rfl, rfl, rfl⟩, fun hOpens => by simp [State.boot] at hOpens, fun _ => rfl,
    fun _ => rfl, fun _ => rfl, fun _ => rfl⟩

end Ready

/-! ### A frame -/

section Frame

variable {run : Run step}

/-- A rising edge of the serial clock. -/
def Rises (run : Run step) (clock : Nat) : Prop :=
  serialClockRise (run.state clock) (run.input clock) = true

theorem rises_apart {first second : Nat} (hFirst : Rises run first) (hSecond : Rises run second)
    (hOrder : first < second) : first + 2 ≤ second := by
  by_contra hClose
  obtain rfl : second = first + 1 := by omega
  rw [Rises, serialClockRise, Bool.and_eq_true] at hFirst hSecond
  have hPrev : (run.state (first + 1)).serialClockPrev = (run.input first).ssiSck := by
    rw [run.edge]
    rfl
  rw [hPrev, hFirst.1] at hSecond
  exact absurd hSecond.2 (by decide)

/-- A frame of so many data bits, from the edge of its zero bit to the edge of its last bit, that is
heard while the link is up. The next edge is not the very next one that there can be. -/
structure Frame (run : Run step) (bits : BitVec 8) (encoding : Encoding) (edge : Nat → Nat) :
    Prop where
  waitZero : (run.state (edge 0)).fsm = .waitZero
  first : Rises run (edge 0)
  zeroBit : (run.input (edge 0)).ssiDat = false
  events : Events (Rises run) edge (bits.toNat + 8)
  pause : ¬ Rises run (edge (bits.toNat + 8) + 2)
  running : ∀ clock, edge 0 ≤ clock → clock ≤ edge (bits.toNat + 8) + 4 →
    (run.input clock).reset = false ∧ (run.state clock).linkDetect.linkUp = true ∧
      (run.input clock).bits = bits ∧ (run.input clock).encoding = encoding

/-- A bit of the data range as it is received. -/
def received (run : Run step) (edge : Nat → Nat) (place : Nat) : Bool :=
  (run.input (edge (place + 1))).ssiDat

/-- The state machine after so many bits of the data range. -/
structure Phase (count : Nat) (s : State) : Prop where
  fsm : s.fsm = .dataRange
  dataCount : s.dataCount.toNat = count

theorem dataBits_toNat {i : Input} {bits : BitVec 8} (hBits : i.bits = bits)
    (hSmall : bits.toNat ≤ 32) : (dataBits i).toNat = bits.toNat + 8 := by
  rw [dataBits, hBits, BitVec.toNat_add, BitVec.toNat_add]
  show ((bits.toNat + 2) % 2 ^ 8 + 6) % 2 ^ 8 = _
  omega

theorem Phase.goes {bits : BitVec 8} {count : Nat} {s : State} {i : Input} (h : Phase count s)
    (hReset : reset s i = false) (hBits : i.bits = bits) (hSmall : bits.toNat ≤ 32)
    (hCount : count < bits.toNat + 8) :
    Phase (if serialClockRise s i then count + 1 else count) (BissSniffer.step s i) := by
  have hOther : s.dataCount ≠ dataBits i := by
    intro hSame
    have := congrArg BitVec.toNat hSame
    rw [h.dataCount, dataBits_toNat hBits hSmall] at this
    omega
  constructor
  · rw [step_fsm hReset, fsmNext, h.fsm]
    exact if_neg hOther
  · simp only [BissSniffer.step, flags, hReset, h.fsm, Bool.false_eq_true, if_false, if_true]
    split_ifs
    · rw [BitVec.toNat_add, h.dataCount]
      show (count + 1) % 256 = _
      omega
    · exact h.dataCount

variable {bits : BitVec 8} {encoding : Encoding} {edge : Nat → Nat}
  (h : Frame run bits encoding edge) (hReady : Ready (run.state (edge 0)))
  (hSome : 0 < bits.toNat) (hSmall : bits.toNat ≤ 32)

include h in
theorem Frame.reset_low {tick : Nat} (hFrom : edge 0 ≤ tick)
    (hTo : tick ≤ edge (bits.toNat + 8) + 4) : reset (run.state tick) (run.input tick) = false := by
  obtain ⟨hReset, hLink, -, -⟩ := h.running tick hFrom hTo
  rw [reset, hReset, hLink]
  rfl

include h in
theorem Frame.zero_le : edge 0 ≤ edge (bits.toNat + 8) := h.events.mono (Nat.zero_le _) le_rfl

include h in
theorem Frame.start : Phase 0 (run.state (edge 0 + 1)) ∧ flags (run.state (edge 0))
    (run.input (edge 0)) = ⟨0, false, false, false⟩ := by
  have hZero := h.zero_le
  have hFlags : flags (run.state (edge 0)) (run.input (edge 0)) = ⟨0, false, false, false⟩ :=
    flags_off (by simp [h.waitZero])
  have hRise : serialClockRise (run.state (edge 0)) (run.input (edge 0)) = true := h.first
  refine ⟨⟨?_, ?_⟩, hFlags⟩
  · rw [run.edge, step_fsm (h.reset_low le_rfl (by omega)), fsmNext, h.waitZero]
    exact if_pos (by rw [hRise, h.zeroBit]; rfl)
  · rw [run.edge]
    show (flags _ _).dataCount.toNat = 0
    rw [hFlags]
    rfl

include h hSmall in
theorem Frame.phase_at {tick : Nat} (hFrom : edge 0 < tick)
    (hTo : tick ≤ edge (bits.toNat + 8) + 1) : ∃ count, count ≤ bits.toNat + 8 ∧
      Phase count (run.state tick) ∧ edge count < tick ∧
      (count < bits.toNat + 8 → tick ≤ edge (count + 1)) := by
  induction tick, (show edge 0 + 1 ≤ tick from hFrom) using Nat.le_induction with
  | base =>
      exact ⟨0, Nat.zero_le _, h.start.1, Nat.lt_succ_self _, fun _ =>
        (h.events.next 0 (by omega)).ordered⟩
  | succ tick hLow ih =>
      obtain ⟨count, hCount, hPhase, hAfter, hNext⟩ := ih hLow (by omega)
      have hLess : count < bits.toNat + 8 := by
        rcases Nat.eq_or_lt_of_le hCount with rfl | hLess
        · omega
        · exact hLess
      have hBits := (h.running tick (by omega) (by omega)).2.2.1
      have hStep := hPhase.goes (h.reset_low (by omega) (by omega)) hBits hSmall hLess
      rw [← run.edge] at hStep
      have hOrdered := (h.events.next count hLess).ordered
      by_cases hRise : Rises run tick
      · have hSame : tick = edge (count + 1) := by
          by_contra hOther
          exact (h.events.next count hLess).quiet tick hAfter
            (Nat.lt_of_le_of_ne (hNext hLess) hOther) hRise
        rw [if_pos (show serialClockRise _ _ = true from hRise)] at hStep
        refine ⟨count + 1, hLess, hStep, by omega, fun hMore => ?_⟩
        rw [hSame]
        exact (h.events.next (count + 1) hMore).ordered
      · rw [if_neg (show ¬ serialClockRise _ _ = true from hRise)] at hStep
        refine ⟨count, hCount, hStep, by omega, fun _ => ?_⟩
        have hOther : tick ≠ edge (count + 1) := by
          rintro rfl
          exact hRise (h.events.next count hLess).occurs
        exact Nat.lt_of_le_of_ne (hNext hLess) hOther

/-- The flags say which part of the data range the bits are of. -/
theorem flags_phase {count : Nat} {s : State} {i : Input} (hPhase : Phase count s)
    (hReset : reset s i = false) (hBits : i.bits = bits) (hSome : 0 < bits.toNat)
    (hSmall : bits.toNat ≤ 32) :
    (BissSniffer.flags s i).dataValid = decide (count < bits.toNat) ∧
      (BissSniffer.flags s i).nErrorValid =
        decide (bits.toNat ≤ count ∧ count < bits.toNat + 2) ∧
      (BissSniffer.flags s i).crcValid = decide (bits.toNat + 2 ≤ count) := by
  have hLast : s.dataCount ≤ i.bits - 1 ↔ count < bits.toNat := by
    rw [BitVec.le_def, hPhase.dataCount, hBits, BitVec.toNat_sub]
    show count ≤ (2 ^ 8 - 1 + bits.toNat) % 2 ^ 8 ↔ _
    omega
  have hStatus : s.dataCount ≤ i.bits + uStatusBits - 1 ↔ count < bits.toNat + 2 := by
    rw [BitVec.le_def, hPhase.dataCount, hBits, BitVec.toNat_sub, BitVec.toNat_add]
    show count ≤ (2 ^ 8 - 1 + (bits.toNat + 2) % 2 ^ 8) % 2 ^ 8 ↔ _
    omega
  simp only [BissSniffer.flags, hReset, hPhase.fsm, Bool.false_eq_true, if_false, if_true, hLast,
    hStatus, ← decide_not, ← Bool.decide_and]
  exact ⟨trivial, decide_eq_decide.mpr (by omega), decide_eq_decide.mpr (by omega)⟩

include h hSome hSmall in
theorem Frame.flags_at {tick : Nat} (hFrom : edge 0 + 1 < tick)
    (hTo : tick ≤ edge (bits.toNat + 8) + 2) :
    ((run.state tick).dataValid = true ↔ tick ≤ edge bits.toNat + 1) ∧
      ((run.state tick).nErrorValid = true ↔
        edge bits.toNat + 1 < tick ∧ tick ≤ edge (bits.toNat + 2) + 1) ∧
      ((run.state tick).crcValid = true ↔ edge (bits.toNat + 2) + 1 < tick) := by
  obtain ⟨before, rfl⟩ : ∃ before, tick = before + 1 := ⟨tick - 1, by omega⟩
  obtain ⟨count, hCount, hPhase, hLow, hNext⟩ :=
    h.phase_at hSmall (show edge 0 < before by omega) (by omega)
  have hBits := (h.running before (by omega) (by omega)).2.2.1
  obtain ⟨hData, hError, hCrc⟩ :=
    flags_phase hPhase (h.reset_low (by omega) (by omega)) hBits hSome hSmall
  -- the phases before an edge are the ones with fewer bits
  have hBefore : ∀ limit, limit ≤ bits.toNat + 8 → (count < limit ↔ before ≤ edge limit) := by
    intro limit hLimit
    constructor
    · intro hLess
      have := h.events.mono (show count + 1 ≤ limit from hLess) hLimit
      have := hNext (by omega)
      omega
    · intro hLess
      by_contra hMore
      have := h.events.mono (Nat.not_lt.mp hMore) hCount
      omega
  have hAtData := hBefore bits.toNat (by omega)
  have hAtStatus := hBefore (bits.toNat + 2) (by omega)
  rw [run.edge]
  refine ⟨?_, ?_, ?_⟩
  · show (BissSniffer.flags _ _).dataValid = true ↔ _
    rw [hData, decide_eq_true_iff]
    omega
  · show (BissSniffer.flags _ _).nErrorValid = true ↔ _
    rw [hError, decide_eq_true_iff]
    omega
  · show (BissSniffer.flags _ _).crcValid = true ↔ _
    rw [hCrc, decide_eq_true_iff]
    omega

include h in
theorem Frame.flags_first : (run.state (edge 0 + 1)).dataValid = false ∧
    (run.state (edge 0 + 1)).nErrorValid = false ∧ (run.state (edge 0 + 1)).crcValid = false := by
  have hFlags := h.start.2
  rw [run.edge]
  simp only [step, hFlags, and_self]

include h hSmall in
theorem Frame.flags_last : (run.state (edge (bits.toNat + 8) + 3)).dataValid = false ∧
    (run.state (edge (bits.toNat + 8) + 3)).nErrorValid = false ∧
    (run.state (edge (bits.toNat + 8) + 3)).crcValid = false ∧
    (run.state (edge (bits.toNat + 8) + 2)).fsm = .timeout := by
  have hZero := h.zero_le
  obtain ⟨count, hCount, hPhase, hLow, hNext⟩ :=
    h.phase_at hSmall (show edge 0 < edge (bits.toNat + 8) + 1 by omega) le_rfl
  have hLast : count = bits.toNat + 8 := by
    by_contra hOther
    have := hNext (by omega)
    have := h.events.mono (show count + 1 ≤ bits.toNat + 8 by omega) le_rfl
    omega
  obtain ⟨-, -, hBits, -⟩ := h.running (edge (bits.toNat + 8) + 1) (by omega) (by omega)
  have hState : (run.state (edge (bits.toNat + 8) + 2)).fsm = .timeout := by
    rw [run.edge, step_fsm (h.reset_low (by omega) (by omega)), fsmNext, hPhase.fsm]
    refine if_pos (BitVec.eq_of_toNat_eq ?_)
    rw [hPhase.dataCount, dataBits_toNat hBits hSmall, hLast]
  have hFlags := @flags_off _ (run.input (edge (bits.toNat + 8) + 2))
    (show (run.state (edge (bits.toNat + 8) + 2)).fsm ≠ .dataRange by simp [hState])
  refine ⟨?_, ?_, ?_, hState⟩
  all_goals
    rw [run.edge]
    simp only [step, hFlags]

include h in
theorem Frame.edge_before {count tick : Nat} (hCount : count ≤ bits.toNat + 8)
    (hRise : Rises run tick) (hTo : tick ≤ edge count + 1) : tick ≤ edge count := by
  by_contra hAfter
  have hFirst : Rises run (edge count) := by
    cases count with
    | zero => exact h.first
    | succ count => exact (h.events.next count hCount).occurs
  have := rises_apart hFirst hRise (by omega)
  omega

include h in
/-- A shift register with the flag of a part of the data range has its window. -/
theorem Frame.window {width : Nat} (shifter : Run (@ShifterIn.step width)) {code : Encoding}
    {low high on off : Nat} (hLess : low < high) (hHigh : high ≤ bits.toNat + 8)
    (hOn : on = edge low + 2) (hOff : edge high + 1 < off)
    (hLast : off < edge (bits.toNat + 8) + 4)
    (hRise : ∀ tick, Rises run tick → tick < off → tick ≤ edge high)
    (hRunning : ∀ tick, edge 0 < tick → tick < edge (bits.toNat + 8) + 4 →
      (shifter.input tick).reset = false ∧ (shifter.input tick).encoding = code ∧
        ((shifter.input tick).clock = true ↔ Rises run tick) ∧
        ((shifter.input tick).enable = true ↔ on ≤ tick ∧ tick < off))
    (hClear : (shifter.state (edge 0 + 1)).validPrev = false ∧
      (shifter.state (edge 0 + 1)).smplHold = 0) :
    ShifterIn.Window shifter code (edge 0 + 1) on off (edge (bits.toNat + 8) + 4)
      (fun place => edge (low + (place + 1))) (high - low) := by
  have hZero := h.events.mono (Nat.zero_le low) (by omega)
  have hOrder := h.events.strict hLess hHigh
  have hSame : edge (low + (high - low)) = edge high := by rw [Nat.add_sub_of_le hLess.le]
  refine ⟨by omega, by omega, hLast, fun tick hFrom hTo => ?_, hClear, fun tick hFrom hTo => ?_,
    fun tick hFrom hTo => ⟨?_, ?_⟩, fun tick hFrom hTo => ?_, fun tick hFrom hTo => ?_,
    fun place hPlace => ?_, fun place later hPlace hLater => ?_⟩
  · exact (hRunning tick hFrom hTo).1
  · rw [Bool.eq_false_iff, Ne, (hRunning tick hFrom (by omega)).2.2.2]
    omega
  · rw [(hRunning tick (by omega) (by omega)).2.2.2]
    omega
  · exact (hRunning tick (by omega) (by omega)).2.1
  · rw [Bool.eq_false_iff, Ne, (hRunning tick (by omega) hTo).2.2.2]
    omega
  · rw [(hRunning tick (by omega) (by omega)).2.2.1]
    have hFirst : edge (low + 0) < tick := by rw [Nat.add_zero]; omega
    constructor
    · intro hNow
      have hUpTo := hRise tick hNow hTo
      exact ((h.events.part hHigh).event_iff hFirst (hSame ▸ hUpTo)).mp hNow
    · rintro ⟨place, hPlace, rfl⟩
      exact (h.events.next (low + place) (by omega)).occurs
  · have hFirst : Rises run (edge (low + place + 1)) :=
      (h.events.next (low + place) (by omega)).occurs
    have hAfter := h.events.strict (show low < low + (place + 1) by omega) (by omega)
    have hUpTo := h.events.mono (show low + (place + 1) ≤ high by omega) hHigh
    have hApart : ¬ edge (low + (place + 1)) ≤ edge low + 1 := fun hClose => by
      have := h.edge_before (show low ≤ bits.toNat + 8 by omega) hFirst hClose
      have hSame : edge (low + place + 1) = edge (low + (place + 1)) := rfl
      omega
    exact ⟨by omega, by omega⟩
  · exact h.events.strict (show low + (place + 1) < low + (later + 1) by omega) (by omega)

/-- The shift registers as circuits of their own. -/
def dataRun (run : Run step) : Run (@ShifterIn.step 32) :=
  run.component ShifterIn.step (·.dataIn) (fun s i => shifterInput s i i.encoding s.dataValid)
    fun _ _ => rfl

def nErrorRun (run : Run step) : Run (@ShifterIn.step 2) :=
  run.component ShifterIn.step (·.nErrorIn)
    (fun s i => shifterInput s i .unsignedBinary s.nErrorValid) fun _ _ => rfl

def crcRun (run : Run step) : Run (@ShifterIn.step 6) :=
  run.component ShifterIn.step (·.crcIn)
    (fun s i => shifterInput s i .unsignedBinary s.crcValid) fun _ _ => rfl

include h hSome hSmall in
theorem Frame.flag_iff {tick : Nat} (hFrom : edge 0 < tick)
    (hTo : tick < edge (bits.toNat + 8) + 4) :
    ((run.state tick).dataValid = true ↔ edge 0 + 2 ≤ tick ∧ tick < edge bits.toNat + 2) ∧
      ((run.state tick).nErrorValid = true ↔
        edge bits.toNat + 2 ≤ tick ∧ tick < edge (bits.toNat + 2) + 2) ∧
      ((run.state tick).crcValid = true ↔
        edge (bits.toNat + 2) + 2 ≤ tick ∧ tick < edge (bits.toNat + 8) + 3) := by
  have hZero := h.zero_le
  have hData := h.events.mono (Nat.zero_le bits.toNat) (by omega)
  have hStatus := h.events.mono (show bits.toNat ≤ bits.toNat + 2 by omega) (by omega)
  have hCode := h.events.strict (show bits.toNat + 2 < bits.toNat + 8 by omega) le_rfl
  rcases Nat.eq_or_lt_of_le (show edge 0 + 1 ≤ tick from hFrom) with rfl | hLater
  · obtain ⟨hDataOff, hErrorOff, hCrcOff⟩ := h.flags_first
    simp only [hDataOff, hErrorOff, hCrcOff, Bool.false_eq_true, false_iff]
    omega
  · rcases Nat.eq_or_lt_of_le (show tick ≤ edge (bits.toNat + 8) + 3 by omega) with rfl | hBefore
    · obtain ⟨hDataOff, hErrorOff, hCrcOff, -⟩ := h.flags_last hSmall
      simp only [hDataOff, hErrorOff, hCrcOff, Bool.false_eq_true, false_iff]
      omega
    · obtain ⟨hDataIff, hErrorIff, hCrcIff⟩ := h.flags_at hSome hSmall hLater (by omega)
      rw [hDataIff, hErrorIff, hCrcIff]
      omega

include h hReady hSome hSmall in
theorem Frame.dataWindow : ShifterIn.Window (dataRun run) encoding (edge 0 + 1) (edge 0 + 2)
    (edge bits.toNat + 2) (edge (bits.toNat + 8) + 4) (fun place => edge (0 + (place + 1)))
    (bits.toNat - 0) := by
  have hTop := h.events.mono (show bits.toNat ≤ bits.toNat + 8 by omega) le_rfl
  have hOff := (hReady.flags (by simp [h.waitZero]) (by simp [h.waitZero])).1
  have hReset := h.reset_low le_rfl (h.zero_le.trans (Nat.le_add_right _ 4))
  refine h.window (dataRun run) hSome (by omega) rfl (by omega) (by omega)
    (fun tick hRise hTo => h.edge_before (by omega) hRise (by omega)) (fun tick hFrom hTo => ?_)
    (BissMaster.clear_after (dataRun run) hReset hOff hReady.data)
  exact ⟨h.reset_low (Nat.le_of_lt hFrom) (Nat.le_of_lt hTo),
    (h.running tick (Nat.le_of_lt hFrom) (Nat.le_of_lt hTo)).2.2.2, Iff.rfl,
    (h.flag_iff hSome hSmall hFrom hTo).1⟩

include h hReady hSome hSmall in
theorem Frame.nErrorWindow : ShifterIn.Window (nErrorRun run) .unsignedBinary (edge 0 + 1)
    (edge bits.toNat + 2) (edge (bits.toNat + 2) + 2) (edge (bits.toNat + 8) + 4)
    (fun place => edge (bits.toNat + (place + 1))) (bits.toNat + 2 - bits.toNat) := by
  have hTop := h.events.mono (show bits.toNat + 2 ≤ bits.toNat + 8 by omega) le_rfl
  have hOff := (hReady.flags (by simp [h.waitZero]) (by simp [h.waitZero])).2.1
  have hReset := h.reset_low le_rfl (h.zero_le.trans (Nat.le_add_right _ 4))
  refine h.window (nErrorRun run) (by omega) (by omega) rfl (by omega) (by omega)
    (fun tick hRise hTo => h.edge_before (by omega) hRise (by omega)) (fun tick hFrom hTo => ?_)
    (BissMaster.clear_after (nErrorRun run) hReset hOff hReady.nError)
  exact ⟨h.reset_low (Nat.le_of_lt hFrom) (Nat.le_of_lt hTo), rfl, Iff.rfl,
    (h.flag_iff hSome hSmall hFrom hTo).2.1⟩

include h hReady hSome hSmall in
theorem Frame.crcWindow : ShifterIn.Window (crcRun run) .unsignedBinary (edge 0 + 1)
    (edge (bits.toNat + 2) + 2) (edge (bits.toNat + 8) + 3) (edge (bits.toNat + 8) + 4)
    (fun place => edge (bits.toNat + 2 + (place + 1))) (bits.toNat + 8 - (bits.toNat + 2)) := by
  have hOff := (hReady.flags (by simp [h.waitZero]) (by simp [h.waitZero])).2.2
  have hReset := h.reset_low le_rfl (h.zero_le.trans (Nat.le_add_right _ 4))
  refine h.window (crcRun run) (by omega) le_rfl rfl (by omega) (by omega)
    (fun tick hRise hTo => ?_) (fun tick hFrom hTo => ?_)
    (BissMaster.clear_after (crcRun run) hReset hOff hReady.crc)
  · -- the flag is still on two clocks after the last bit
    rcases Nat.lt_or_ge tick (edge (bits.toNat + 8) + 2) with hBefore | hAfter
    · exact h.edge_before le_rfl hRise (by omega)
    · obtain rfl : tick = edge (bits.toNat + 8) + 2 := by omega
      exact absurd hRise h.pause
  · exact ⟨h.reset_low (Nat.le_of_lt hFrom) (Nat.le_of_lt hTo), rfl, Iff.rfl,
      (h.flag_iff hSome hSmall hFrom hTo).2.2⟩

include h hSmall in
theorem Frame.fsm_ne_start {tick : Nat} (hFrom : edge 0 < tick)
    (hTo : tick < edge (bits.toNat + 8) + 4) : (run.state tick).fsm ≠ .start := by
  have hZero := h.zero_le
  have hTimeout := (h.flags_last hSmall).2.2.2
  rcases Nat.lt_or_ge (edge (bits.toNat + 8) + 1) tick with hAfter | hBefore
  · rcases Nat.eq_or_lt_of_le (show edge (bits.toNat + 8) + 2 ≤ tick from hAfter) with rfl | hLater
    · rw [hTimeout]
      decide
    · obtain rfl : tick = edge (bits.toNat + 8) + 3 := by omega
      rw [run.edge, step_fsm (h.reset_low (by omega) (by omega)), fsmNext, hTimeout]
      simp only
      split_ifs <;> decide
  · obtain ⟨count, -, hPhase, -, -⟩ := h.phase_at hSmall hFrom (by omega)
    rw [hPhase.fsm]
    decide

include h hReady hSome hSmall in
/-- The check code of a frame is the one of its data and status bits. -/
theorem Frame.crcCalc_eq : (run.state (edge (bits.toNat + 8) + 4)).crcCalc =
    Coding.feed 3 0#6 ((List.range (bits.toNat + 2)).map (received run edge)) := by
  have hZero := h.zero_le
  have hTop := h.events.mono (show bits.toNat + 2 ≤ bits.toNat + 8 by omega) le_rfl
  have hClear : (run.state (edge 0 + 1)).crcCalc = 0#6 := by
    obtain ⟨hDataOff, hErrorOff, -⟩ := hReady.flags (by simp [h.waitZero]) (by simp [h.waitZero])
    rw [run.edge]
    simp only [step, h.waitZero, hReady.crcCalc h.waitZero, hDataOff, hErrorOff, Bool.or_self,
      Bool.and_false]
    rfl
  have hOrder := h.events.mono (Nat.zero_le (bits.toNat + 2)) (by omega)
  have hData := h.events.mono (Nat.zero_le bits.toNat) (by omega)
  have hStatus := h.events.mono (show bits.toNat ≤ bits.toNat + 2 by omega) (by omega)
  have hCollect := collect (fun tick => (run.state tick).crcCalc)
    (fun tick => serialClockRise (run.state tick) (run.input tick) &&
      ((run.state tick).dataValid || (run.state tick).nErrorValid))
    (fun tick => (run.input tick).ssiDat) (Coding.shiftBit 3)
    (show edge 0 + 1 ≤ edge (bits.toNat + 8) + 4 by omega) (fun tick hFrom hTo => ?_)
    (fun place => edge (place + 1)) (bits.toNat + 2) (fun tick hFrom hTo => ?_)
    (fun place hPlace => ?_) fun place later hPlace hLater => h.events.strict (by omega) (by omega)
  · rw [hClear] at hCollect
    exact hCollect
  · have hStart := h.fsm_ne_start hSmall (show edge 0 < tick by omega) hTo
    rw [run.edge]
    simp only [step, decide_eq_false hStart]
    split_ifs with hTakes
    · rw [hTakes, BissCrc.step_strobe]
    · rw [Bool.eq_false_iff.mpr hTakes]
      rfl
  · obtain ⟨hDataIff, hErrorIff, -⟩ := h.flag_iff hSome hSmall (show edge 0 < tick by omega) hTo
    have hUpTo : Events (Rises run) edge (bits.toNat + 2) :=
      ⟨fun count hCount => h.events.next count (by omega)⟩
    rw [Bool.and_eq_true, Bool.or_eq_true, hDataIff, hErrorIff]
    constructor
    · rintro ⟨hRise, hIn⟩
      have hBefore := h.edge_before (show bits.toNat + 2 ≤ bits.toNat + 8 by omega) hRise (by omega)
      exact (hUpTo.event_iff (by omega) hBefore).mp hRise
    · rintro ⟨place, hPlace, rfl⟩
      have hRise : Rises run (edge (place + 1)) := (h.events.next place (by omega)).occurs
      have hLate := rises_apart h.first hRise (h.events.strict (by omega) (by omega))
      have hEarly := h.events.mono (show place + 1 ≤ bits.toNat + 2 by omega) (by omega)
      exact ⟨hRise, by omega⟩
  · have hAfter := h.events.strict (show 0 < place + 1 by omega) (by omega)
    have hEarly := h.events.mono (show place + 1 ≤ bits.toNat + 2 by omega) (by omega)
    exact ⟨by omega, by omega⟩

include h hReady hSome hSmall in
/-- The position stays as it is up to the check. -/
theorem Frame.posn_kept {clock : Nat} (hAfter : edge 0 < clock)
    (hUpTo : clock ≤ edge (bits.toNat + 8) + 4) :
    (run.state clock).posn = (run.state (edge 0 + 1)).posn := by
  have hZero := h.zero_le
  have hFirst : (run.state (edge 0 + 1)).crcIn.dataValid = false := by
    have hOff := (hReady.flags (by simp [h.waitZero]) (by simp [h.waitZero])).2.2
    have hPrev := (hReady.settled (.inr (.inr h.waitZero))).2.2
    show ((crcRun run).state (edge 0 + 1)).dataValid = false
    rw [(crcRun run).edge, @ShifterIn.step_disabled _ ((crcRun run).state (edge 0))
      ((crcRun run).input (edge 0)) (h.reset_low le_rfl (by omega)) hOff hPrev]
  refine stable_of_kept (fun tick => (run.state tick).posn) (edge 0 + 1)
    (edge (bits.toNat + 8) + 4) (fun tick hFrom hTo => ?_) hAfter hUpTo
  have hQuiet : (run.state tick).crcIn.dataValid = false := by
    rcases Nat.eq_or_lt_of_le hFrom with rfl | hLater
    · exact hFirst
    · have hIff := (h.crcWindow hReady hSome hSmall).dataValid_iff hLater (Nat.le_of_lt hTo)
      exact Bool.eq_false_iff.mpr fun hValid => by
        have := hIff.mp hValid
        omega
  obtain ⟨hReset, hLink, -, -⟩ := h.running tick (by omega) (by omega)
  rw [run.edge]
  show (check (run.state tick) (run.input tick)).2 = _
  simp only [check, hReset, hLink, hQuiet, Bool.false_eq_true, if_false, Bool.not_true]

include h hReady hSome hSmall in
theorem Frame.checked :
    ((run.state (edge (bits.toNat + 8) + 5)).health, (run.state (edge (bits.toNat + 8) + 5)).posn) =
      BissMaster.verdict true bits.toNat encoding (run.state (edge 0 + 1)).posn
        (received run edge) := by
  have hZero := h.zero_le
  obtain ⟨hReset, hLink, hBits, -⟩ := h.running (edge (bits.toNat + 8) + 4) (by omega) le_rfl
  have hCrcWindow := h.crcWindow hReady hSome hSmall
  have hValid : (run.state (edge (bits.toNat + 8) + 4)).crcIn.dataValid = true :=
    (hCrcWindow.dataValid_iff (by omega) le_rfl).mpr rfl
  have hCode : (run.state (edge (bits.toNat + 8) + 4)).crcIn.dataO =
      ShifterIn.wordOf .unsignedBinary
        ((List.range 6).map fun place => received run edge (bits.toNat + 2 + place)) := by
    have hWord := hCrcWindow.word
    rw [show bits.toNat + 8 - (bits.toNat + 2) = 6 by omega] at hWord
    exact hWord
  have hStatus : (run.state (edge (bits.toNat + 8) + 4)).nErrorIn.dataO.getLsbD 1 =
      received run edge bits.toNat := by
    have hWord := (h.nErrorWindow hReady hSome hSmall).word
    rw [show bits.toNat + 2 - bits.toNat = 2 by omega] at hWord
    exact (congrArg (·.getLsbD 1) hWord).trans (BissMaster.statusBit _ _)
  have hData : (run.state (edge (bits.toNat + 8) + 4)).dataIn.dataO =
      ShifterIn.wordOf encoding ((List.range bits.toNat).map (received run edge)) := by
    have hWord := (h.dataWindow hReady hSome hSmall).word
    simp only [Nat.zero_add, Nat.sub_zero] at hWord
    exact hWord
  have hCalc := h.crcCalc_eq hReady hSome hSmall
  have hPosn := h.posn_kept hReady hSome hSmall
    (show edge 0 < edge (bits.toNat + 8) + 4 by omega) le_rfl
  have hCheck : check (run.state (edge (bits.toNat + 8) + 4)) (run.input (edge (bits.toNat + 8) + 4)) =
      BissMaster.verdict true bits.toNat encoding (run.state (edge 0 + 1)).posn
        (received run edge) := by
    rw [check, if_neg (by simp [hReset]), if_neg (by simp [hLink]), if_pos hValid, hCode, hStatus,
      hData, hCalc, hPosn, hBits, BissMaster.verdict_eq]
    rfl
  rw [run.edge]
  exact hCheck

end Frame

end Fpga.BissSniffer
