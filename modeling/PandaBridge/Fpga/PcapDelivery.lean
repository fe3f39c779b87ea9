import PandaBridge.Fpga.PcapPhases

/-! Whole captures: the buffers that the interrupts give back hold the pushed words in order,
and after a normal completion all of them. -/
namespace Fpga.PcapDma

open Clocked

variable {Word : Type} {blockSize : BitVec 32}

namespace World

variable {w : World Word} {e : Env Word}

/-- What holds at every clock of a capture. -/
structure Inv (blockSize : BitVec 32) (w : World Word) : Prop where
  driven : w.Driven
  phase : ∃ q, Fifo.Holds 10 w.dma.fifo q ∧ w.Phase blockSize q
  bases : ∀ (k : Nat) (switch : Switch Word), w.switches[k]? = some switch →
    w.given[k]? = some switch.base

theorem Boot.inv (hBoot : w.Boot) : w.Inv blockSize := by
  have hDriven := hBoot.driven
  obtain ⟨⟨s, i, hReset, hDma⟩, hSlave, hStarted, hGiven, hPushed, hSwitches⟩ := hBoot
  refine ⟨hDriven, ⟨.empty, ?_, ?_⟩, fun k switch hSwitch => ?_⟩
  · rw [hDma]
    exact Fifo.holds_of_reset hReset
  · have hControl : w.dma.control = .reset := by rw [hDma, control_reset hReset]
    have hMaster : w.dma.master = .idle := by
      simp [hDma, PcapDma.step, AxiWriteMaster.step, masterPorts, hReset,
        AxiWriteMaster.State.idle]
    simp only [Phase, hControl, Control.reset]
    refine ⟨⟨hMaster, hSlave, by rw [hControl, Control.reset]⟩, ⟨?_, rfl⟩, hPushed, ?_⟩
    · simp [hPushed, delivered, hSwitches, hSlave, Slave.idle]
    · simp
  · simp [hSwitches] at hSwitch

theorem Inv.not_full_early (h : w.Inv blockSize) (hSized : Sized blockSize) :
    w.NotFullEarly blockSize e := by
  intro hFew hFsm hLast
  obtain ⟨q, _, hPhase⟩ := h.phase
  obtain ⟨hPushed, _, _, hLatch⟩ := h.driven.early hFew
  simp only [Phase, hFsm] at hPhase
  obtain ⟨filled, _, hPlaced, hIrq⟩ := hPhase
  have hNone := hPlaced.pushed
  rw [hPushed] at hNone
  have hFilled : filled = [] := by
    have := hNone.symm
    simp only [List.append_eq_nil_iff] at this
    exact this.1.1.2
  have hCount := hIrq.goes hLatch hLast
  rw [hFilled, List.length_nil] at hCount
  have hPos := hSized.pos
  have hNotFull : w.dma.control.tlpCount ≠ blocks blockSize := by omega
  simpa [bufferFull, blockTlpSize, blocks] using hNotFull

theorem Inv.phase_step (h : w.Inv blockSize) (hSized : Sized blockSize) (hLegal : w.Legal e) :
    ∃ q, Fifo.Holds 10 (w.step blockSize e).dma.fifo q ∧ (w.step blockSize e).Phase blockSize q := by
  obtain ⟨q, hHolds, hPhase⟩ := h.phase
  refine ⟨w.nextQueue blockSize e q, hHolds.step _, ?_⟩
  cases hFsm : w.dma.control.fsm with
  | init => exact phase_init hSized h.driven hLegal hFsm hPhase
  | actv => exact phase_actv hSized h.driven hLegal hHolds hFsm hPhase
  | doDma => exact phase_doDma hSized h.driven hLegal hHolds hFsm hPhase
  | isFinished => exact phase_isFinished h.driven hLegal hFsm hPhase
  | irq => exact phase_irq hSized h.driven hLegal (h.not_full_early hSized) hFsm hPhase
  | completed => exact phase_completed hLegal hFsm hPhase

/-- Each switch is about the buffer whose turn it is. -/
theorem Inv.bases_step (h : w.Inv blockSize) (k : Nat) (switch : Switch Word)
    (hSwitch : (w.step blockSize e).switches[k]? = some switch) :
    (w.step blockSize e).given[k]? = some switch.base := by
  have hKept : w.switches[k]? = some switch →
      (w.step blockSize e).given[k]? = some switch.base := by
    intro hOld
    have hGiven := h.bases k switch hOld
    obtain ⟨hLess, _⟩ := List.getElem?_eq_some_iff.mp hGiven
    rw [step_given, List.getElem?_append_left hLess, hGiven]
  cases hGives : w.givesBack blockSize e with
  | false =>
      rw [switches_keep hGives] at hSwitch
      exact hKept hSwitch
  | true =>
      have hFsm := (givesBack_eq_true.mp hGives).1
      have hAhead := (h.driven.ahead (by simp [hFsm]) (by simp [hFsm])).1
      simp only [step_switches, nextSwitches, hGives, if_true] at hSwitch
      rcases Nat.lt_or_ge k w.switches.length with hOld | hNew
      · rw [List.getElem?_append_left hOld] at hSwitch
        exact hKept hSwitch
      · rw [List.getElem?_append_right hNew, List.getElem?_singleton] at hSwitch
        split at hSwitch
        · rename_i hLast
          obtain rfl : w.switches.length = k := by omega
          obtain rfl := Option.some.inj hSwitch
          rw [step_given, List.getElem?_append_left hAhead]
          simp [inUse, List.getD_eq_getElem?_getD, List.getElem?_eq_getElem hAhead]
        · exact absurd hSwitch (by simp)

theorem Inv.step (h : w.Inv blockSize) (hSized : Sized blockSize) (hLegal : w.Legal e) :
    (w.step blockSize e).Inv blockSize :=
  ⟨h.driven.step hLegal (h.not_full_early hSized), h.phase_step hSized hLegal, h.bases_step⟩

/-- What has been given back is a first part of what was pushed. -/
theorem Inv.delivered_first (h : w.Inv blockSize) : ∃ rest, w.pushed = w.delivered ++ rest := by
  obtain ⟨q, _, hPhase⟩ := h.phase
  cases hFsm : w.dma.control.fsm <;> simp only [Phase, hFsm] at hPhase
  case init =>
    obtain ⟨_, hPlaced, _⟩ := hPhase
    exact ⟨_, by rw [hPlaced.pushed, List.append_assoc, List.append_assoc]⟩
  case actv =>
    obtain ⟨filled, _, hPlaced, _⟩ := hPhase
    exact ⟨_, by rw [hPlaced.pushed, List.append_assoc, List.append_assoc]⟩
  case doDma =>
    obtain ⟨filled, beats, hPlaced, _⟩ := hPhase
    exact ⟨_, by rw [hPlaced.pushed, List.append_assoc, List.append_assoc]⟩
  case isFinished =>
    obtain ⟨filled, _, hPlaced, _⟩ := hPhase
    exact ⟨_, by rw [hPlaced.pushed, List.append_assoc, List.append_assoc]⟩
  case irq =>
    obtain ⟨filled, _, hPlaced, _⟩ := hPhase
    exact ⟨_, by rw [hPlaced.pushed, List.append_assoc, List.append_assoc]⟩
  case completed => exact hPhase.2

theorem Inv.burst_in_buffer (h : w.Inv blockSize) (hLegal : w.Legal e) (hAnswer : e.answer = true) :
    ∃ address length offset, w.slave.address = some (address, length) ∧
      w.slave.beats.length = length + 1 ∧
      address = w.inUse + BitVec.ofNat 32 (4 * offset) ∧
      4 * (offset + w.slave.beats.length) ≤ blockSize.toNat := by
  obtain ⟨q, _, hPhase⟩ := h.phase
  obtain ⟨hTaken, hLast⟩ := hLegal.answer hAnswer
  have hNotIdle : ¬ w.Idle := fun hIdle => by simp [hIdle.slave, Slave.idle] at hTaken
  cases hFsm : w.dma.control.fsm <;> simp only [Phase, hFsm] at hPhase
  case doDma =>
    obtain ⟨filled, beats, _, hBursting⟩ := hPhase
    obtain ⟨_, _, hSlave⟩ | ⟨_, hAddress, hData⟩ := hBursting.stage
    · simp [hSlave, Slave.idle] at hTaken
    · obtain ⟨_, hNone⟩ | ⟨_, hSome⟩ := hAddress
      · simp [hNone] at hTaken
      · obtain ⟨_, _, _, hNotLast⟩ | ⟨_, _, hAll, _⟩ := hData
        · rw [hNotLast] at hLast
          exact absurd hLast Bool.false_ne_true
        · have hPos := hBursting.beats_pos
          have hLe := hBursting.beats_le
          have hRoom := hBursting.room
          refine ⟨_, _, 16 * w.dma.control.tlpCount, hSome, by omega, ?_, ?_⟩
          · rw [hBursting.address, ← Nat.mul_assoc]
          · have hSize := Nat.div_mul_le_self blockSize.toNat 64
            have hBlocks : blocks blockSize = blockSize.toNat / 64 := rfl
            omega
  all_goals
    first
      | exact absurd hPhase.1 hNotIdle
      | exact absurd hPhase.choose_spec.1 hNotIdle

/-- This interrupt says that the capture is complete and well. -/
def NormalCompletion (blockSize : BitVec 32) (w : World Word) (e : Env Word) : Prop :=
  w.dma.control.fsm = .irq ∧ (irqFlags w.dma (w.input blockSize e)).done = true ∧
    (irqFlags w.dma (w.input blockSize e)).completion = ⟨false, false, false⟩ ∧
    (irqFlags w.dma (w.input blockSize e)).addressMissing = false

/-- Everything is given back and nothing more can come. -/
structure Settled (w : World Word) : Prop where
  fsm : w.dma.control.fsm = .completed
  completed : w.dma.pcapCompleted = true
  delivered : w.delivered = w.pushed

/-- A normal completion leaves nothing behind. -/
theorem Inv.settled (h : w.Inv blockSize) (hLegal : w.Legal e)
    (hNormal : w.NormalCompletion blockSize e) : (w.step blockSize e).Settled := by
  obtain ⟨hFsm, hDone, hWell, hValid⟩ := hNormal
  obtain ⟨q, _, hPhase⟩ := h.phase
  simp only [Phase, hFsm] at hPhase
  obtain ⟨filled, hIdle, hPlaced, hIrq⟩ := hPhase
  have hLast : w.dma.control.lastTlp = true := by
    simp only [irqFlags, Bool.not_eq_false'] at hValid
    simpa [irqFlags, hValid] using hDone
  obtain ⟨hCompleted, hWhy⟩ := hIrq.last hLast
  have hEmpty : q.entries = [] := by
    rcases hWhy with hEmpty | hError
    · exact hEmpty
    · rw [← hLegal.status hCompleted, show e.status = ⟨false, false, false⟩ from hWell] at hError
      exact absurd hError Bool.false_ne_true
  have hGives : w.givesBack blockSize e = true := by
    simp [givesBack, hFsm, switchBuffer, hLast]
  refine ⟨?_, completed_step hCompleted, ?_⟩
  · rw [step_dma, control_irq (i := w.input blockSize e) rfl hFsm, stepIrq_fsm, hLast]
    rfl
  · rw [delivered_switch hPlaced hIrq.count hGives, pushed_step, hPlaced.pushed, hEmpty,
      hIdle.slave, pushes_of_completed hLegal hCompleted]
    simp [Slave.idle]

theorem Settled.step (h : w.Settled) (hLegal : w.Legal e) : (w.step blockSize e).Settled := by
  refine ⟨?_, completed_step h.completed, ?_⟩
  · rw [step_dma, control_completed (i := w.input blockSize e) rfl h.fsm]
    exact h.fsm
  · rw [delivered_keep (keeps_of_ne_irq (by simp [h.fsm])), pushed_step,
      pushes_of_completed hLegal h.completed, h.delivered, List.append_nil]

end World

section Runs

variable {run : Run (@World.step Word blockSize)}

theorem inv_run (hSized : World.Sized blockSize) (hBoot : (run.state 0).Boot)
    (hLegal : ∀ clock, (run.state clock).Legal (run.input clock)) (clock : Nat) :
    (run.state clock).Inv blockSize := by
  induction clock with
  | zero => exact hBoot.inv
  | succ clock ih =>
      rw [run.edge]
      exact ih.step hSized (hLegal clock)

/-- The capture stream arrives block by block without loss: the buffers given back hold a first
part of the pushed words, each under the address whose turn it is; each burst has as many
beats as its address says and stays in the buffer in use; and from a normal completion on all
pushed words have been given back. -/
theorem capture_stream_delivered (hPos : 0 < blockSize.toNat) (hWhole : 64 ∣ blockSize.toNat)
    (hSmall : blockSize.toNat < 2 ^ 25) (hBoot : (run.state 0).Boot)
    (hLegal : ∀ clock, (run.state clock).Legal (run.input clock)) :
    (∀ clock, ∃ rest, (run.state clock).pushed = (run.state clock).delivered ++ rest) ∧
      (∀ clock (k : Nat) (switch : Switch Word), (run.state clock).switches[k]? = some switch →
        (run.state clock).given[k]? = some switch.base) ∧
      (∀ clock, (run.input clock).answer = true →
        ∃ address length offset, (run.state clock).slave.address = some (address, length) ∧
          (run.state clock).slave.beats.length = length + 1 ∧
          address = (run.state clock).inUse + BitVec.ofNat 32 (4 * offset) ∧
          4 * (offset + (run.state clock).slave.beats.length) ≤ blockSize.toNat) ∧
      (∀ clock, (run.state clock).NormalCompletion blockSize (run.input clock) →
        ∀ later, clock < later → (run.state later).delivered = (run.state later).pushed) := by
  have hSized : World.Sized blockSize := by
    have hBlocks : World.blocks blockSize = blockSize.toNat / 64 := rfl
    constructor <;> omega
  have hInv := inv_run hSized hBoot hLegal
  refine ⟨fun clock => (hInv clock).delivered_first, fun clock => (hInv clock).bases,
    fun clock hAnswer => (hInv clock).burst_in_buffer (hLegal clock) hAnswer,
    fun clock hNormal later hLater => ?_⟩
  have hSettled : (run.state later).Settled := by
    induction later, Nat.succ_le_of_lt hLater using Nat.le_induction with
    | base =>
        rw [run.edge]
        exact (hInv clock).settled (hLegal clock) hNormal
    | succ later hLater' ih =>
        rw [run.edge]
        exact (ih hLater').step (hLegal later)
  exact hSettled.delivered

end Runs

instance World.Legal.decidable (w : World Word) (e : Env Word) : Decidable (w.Legal e) :=
  decidable_of_iff
    ((e.wstb = true →
        w.dma.fifo.writeReadyO = true ∧ 2 ≤ w.given.length ∧ w.dma.pcapCompleted = false) ∧
      (w.dma.pcapCompleted = true → e.status = w.status) ∧
      (e.answer = true → w.slave.address.isSome = true ∧ w.slave.last = true) ∧
      (e.start = true → w.given.length = 1 ∧ w.started = false) ∧
      (e.address.isSome = true →
        w.given.length = 0 ∨ w.given.length = 1 ∧ w.started = true ∨
          2 ≤ w.given.length ∧ w.given.length < w.switches.length + 2))
    ⟨fun ⟨hPush, hStatus, hAnswer, hStart, hAddress⟩ =>
      ⟨hPush, hStatus, hAnswer, hStart, hAddress⟩, fun h =>
      ⟨h.push, h.status, h.answer, h.start, h.address⟩⟩

/-- A capture of three words with buffers of 128 bytes. The first buffer is given back with two of
them, three clocks after the first. -/
def threeWords : Run (@World.step Nat 128) :=
  .ofInputs _
    { dma := PcapDma.step (.boot 0) { dat := 0, dmaAddr := 0, blockSize := 128, dmaReset := true }
      dmaAddr := 0
      slave := .idle
      memory := fun _ => 0
      started := false
      given := []
      pushed := []
      switches := []
      status := ⟨false, false, false⟩ }
    fun clock => {
      dat := 10 * clock
      wstb := clock == 3 || clock == 4 || clock == 14
      done := clock == 14
      start := clock == 1
      timeout := 3
      address :=
        if clock = 0 then some 0x1000 else if clock = 2 then some 0x2000
        else if clock = 16 then some 0x3000 else none
      answer := clock == 13 || clock == 21 }

theorem threeWords_legal (clock : Nat) : (threeWords.state clock).Legal (threeWords.input clock) := by
  by_cases hEarly : clock < 22
  · have hAll : ∀ c < 22, (threeWords.state c).Legal (threeWords.input c) := by decide
    exact hAll clock hEarly
  · obtain ⟨prior, rfl⟩ : ∃ prior, clock = prior + 1 := ⟨clock - 1, by omega⟩
    have hInput : threeWords.input (prior + 1) = { dat := 10 * (prior + 1), timeout := 3 } := by
      simp only [threeWords, Run.ofInputs, Env.mk.injEq]
      rw [if_neg (by omega), if_neg (by omega), if_neg (by omega)]
      refine ⟨trivial, trivial, ?_, ?_, trivial, ?_, rfl, trivial, trivial, trivial, ?_⟩ <;>
        simp <;> omega
    rw [hInput]
    exact ⟨fun h => absurd h Bool.false_ne_true, fun _ => rfl,
      fun h => absurd h Bool.false_ne_true, fun h => absurd h Bool.false_ne_true,
      fun h => absurd h Bool.false_ne_true⟩

/-- The last interrupt comes at clock 24, and the words are in the two buffers. -/
theorem capture_stream_delivered_three :
    (threeWords.state 25).delivered = (threeWords.state 25).pushed ∧
      (threeWords.state 25).pushed = [30, 40, 140] ∧
      (threeWords.state 25).switches.map Switch.base = [0x1000, 0x2000] := by
  refine ⟨?_, by decide, by decide⟩
  exact (@capture_stream_delivered Nat 128 threeWords (by decide) (by decide) (by decide)
    ⟨⟨_, _, rfl, rfl⟩, rfl, rfl, rfl, rfl, rfl⟩ threeWords_legal).2.2.2 24
    ⟨by decide, by decide, by decide, by decide⟩ 25 (by decide)

end Fpga.PcapDma
