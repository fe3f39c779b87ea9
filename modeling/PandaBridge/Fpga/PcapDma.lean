import PandaBridge.Clocked.Run
import PandaBridge.Fpga.AxiWriteMaster
import PandaBridge.Fpga.Fifo

/-! The DMA engine of position capture: it collects the captured words in a FIFO and writes
them to the buffers of the driver in bursts of up to 16 words. -/
namespace Fpga.PcapDma

abbrev Address := BitVec 32

/-- `pcap_status_i`: user disarm, framing error and DMA error. -/
structure PcapStatus where
  disarmed : Bool
  framing : Bool
  dma : Bool
  deriving DecidableEq

/-- The interrupt status register. The sample count has 23 bits. -/
structure IrqStatus where
  done : Bool
  completion : PcapStatus
  addressMissing : Bool
  timeout : Bool
  bufferFull : Bool
  startEvent : Bool
  sampleCount : Nat
  deriving DecidableEq

inductive Fsm
  | init
  | actv
  | doDma
  | isFinished
  | irq
  | completed
  deriving DecidableEq

structure Input (Word : Type) where
  startEvent : Bool := false
  dat : Word
  wstb : Bool := false
  done : Bool := false
  status : PcapStatus := ⟨false, false, false⟩
  dmaReset : Bool := false
  dmaInit : Bool := false
  dmaAddr : Address
  dmaAddrWstb : Bool := false
  timeout : BitVec 32 := 0
  blockSize : BitVec 32
  awready : Bool := true
  wready : Bool := true
  bvalid : Bool := false
  bresp : BitVec 2 := 0

/-- The registers of the timeout counter. -/
structure Timeout where
  firstData : Bool
  timeoutCounter : BitVec 32
  pcapTimeout : Bool
  pcapTimeoutLatch : Bool
  pcapWstb : Bool

/-- The registers of the main state machine. -/
structure Control where
  fsm : Fsm
  irqStatus : IrqStatus
  dmaIrq : Bool
  lastTlp : Bool
  dmaStart : Bool
  axiAwaddr : Address
  burstLen : Nat
  tlpCount : Nat
  sampleCount : Nat

structure State (Word : Type) where
  startEventDetected : Bool
  nextDmaaddrValid : Bool
  pcapCompleted : Bool
  timeout : Timeout
  control : Control
  fifo : Fifo.State Word
  master : AxiWriteMaster.State

variable {Word : Type}

def Control.reset : Control where
  fsm := .init
  irqStatus := ⟨false, ⟨false, false, false⟩, false, false, false, false, 0⟩
  dmaIrq := false
  lastTlp := false
  dmaStart := false
  axiAwaddr := 0
  burstLen := 0
  tlpCount := 0
  sampleCount := 0

/-- The signals before the first clock edge. -/
def State.boot (zeros : Word) : State Word where
  startEventDetected := false
  nextDmaaddrValid := false
  pcapCompleted := false
  timeout := ⟨false, 0, false, false, false⟩
  control := .reset
  fifo := .boot zeros
  master := .idle

/-- Beats of the longest burst. -/
def axiBurstMax : Nat := 16

/-- Bytes of the longest burst. -/
def burstBytes : Nat := axiBurstMax * 4

def blockTlpSize (i : Input Word) : Nat := i.blockSize.toNat / burstBytes

def pcapError (i : Input Word) : Bool := i.status.dma || i.status.framing

def fifoCount (s : State Word) : Nat := s.fifo.fifoDepthO

def transferSize (s : State Word) : Nat :=
  if axiBurstMax < fifoCount s then axiBurstMax else fifoCount s % 32

def writingSample (s : State Word) (i : Input Word) : Bool := i.wstb || s.timeout.pcapWstb

def bufferFull (s : State Word) (i : Input Word) : Bool :=
  s.control.tlpCount == blockTlpSize i

def switchBuffer (s : State Word) (i : Input Word) : Bool :=
  s.timeout.pcapTimeoutLatch || bufferFull s i || s.control.lastTlp

def irqFlags (s : State Word) (i : Input Word) : IrqStatus where
  done := s.control.lastTlp || !s.nextDmaaddrValid
  completion := i.status
  addressMissing := !s.nextDmaaddrValid
  timeout := s.timeout.pcapTimeoutLatch
  bufferFull := bufferFull s i
  startEvent := s.startEventDetected
  sampleCount := s.control.sampleCount

def masterPorts (s : State Word) (i : Input Word) : AxiWriteMaster.Ports where
  reset := i.dmaReset
  burstLen := s.control.burstLen
  dmaStart := s.control.dmaStart
  awready := i.awready
  wready := i.wready

def fifoPorts (s : State Word) (i : Input Word) : Fifo.Ports Word where
  resetFifo := i.dmaReset
  writeValid := i.wstb
  writeData := i.dat
  readReady := AxiWriteMaster.wnext s.master (masterPorts s i)

def nextStartEventDetected (s : State Word) (i : Input Word) : Bool :=
  if i.dmaReset then false
  else if i.startEvent then true
  else if s.control.fsm = .irq then false
  else s.startEventDetected

def nextNextDmaaddrValid (s : State Word) (i : Input Word) : Bool :=
  if i.dmaReset then false
  else if i.dmaAddrWstb then true
  else if s.control.fsm = .irq && switchBuffer s i then false
  else s.nextDmaaddrValid

def nextTimeout (s : State Word) (i : Input Word) : Timeout :=
  if i.dmaReset then ⟨false, 0, false, false, false⟩
  else
    let stopped := s.control.fsm = .init ∨ s.control.fsm = .irq ∨ s.timeout.firstData = false
    { firstData :=
        if s.control.fsm = .init then false
        else if i.wstb then true
        else s.timeout.firstData
      timeoutCounter := if stopped then 0 else s.timeout.timeoutCounter + 1
      pcapTimeout :=
        if stopped then false
        else if i.timeout = 0 then false
        else if s.timeout.timeoutCounter = i.timeout - 1 then true
        else s.timeout.pcapTimeout
      pcapTimeoutLatch :=
        if s.control.fsm = .actv ∧ s.timeout.pcapTimeout = true then true
        else if s.control.fsm = .irq then false
        else s.timeout.pcapTimeoutLatch
      pcapWstb := i.wstb }

def nextPcapCompleted (s : State Word) (i : Input Word) : Bool :=
  if i.dmaReset then false else if i.done then true else s.pcapCompleted

/-- `goto_do_dma`. -/
def gotoDoDma (s : State Word) (c : Control) : Control :=
  { c with
    dmaStart := true
    sampleCount := (s.control.sampleCount + transferSize s) % 2 ^ 23
    burstLen := transferSize s
    fsm := .doDma }

/-- Wait until the FIFO has enough data, or for a reason to interrupt. -/
def stepActv (s : State Word) (i : Input Word) : Control :=
  let c := { s.control with dmaIrq := false }
  if s.pcapCompleted && pcapError i then { c with lastTlp := true, fsm := .irq }
  else if s.timeout.pcapTimeout && !writingSample s i then
    if fifoCount s = 0 then { c with fsm := .irq } else gotoDoDma s c
  else if axiBurstMax ≤ fifoCount s then gotoDoDma s c
  else if s.pcapCompleted && !writingSample s i then
    if fifoCount s = 0 then
      -- Wait for the next buffer address before the last interrupt.
      if s.nextDmaaddrValid then { c with lastTlp := true, fsm := .irq }
      else { c with lastTlp := true }
    else gotoDoDma s { c with lastTlp := true }
  else if s.startEventDetected then { c with fsm := .irq }
  else c

/-- Interrupt, and either continue or stop. -/
def stepIrq (s : State Word) (i : Input Word) : Control :=
  let next := if s.control.lastTlp || !s.nextDmaaddrValid then Fsm.completed else .actv
  if switchBuffer s i then
    { s.control with
      dmaIrq := true
      irqStatus := irqFlags s i
      axiAwaddr := i.dmaAddr
      sampleCount := 0
      tlpCount := 0
      fsm := next }
  else { s.control with dmaIrq := true, irqStatus := irqFlags s i, fsm := next }

/-- The main state machine. -/
def nextControl (s : State Word) (i : Input Word) : Control :=
  if i.dmaReset then .reset
  else
    match s.control.fsm with
    | .init =>
        { s.control with
          axiAwaddr := i.dmaAddr
          fsm := if i.dmaInit && s.nextDmaaddrValid then .actv else .init }
    | .actv => stepActv s i
    | .doDma =>
        if i.bvalid then
          { s.control with
            dmaStart := false
            tlpCount := (s.control.tlpCount + 1) % 2 ^ 32
            fsm := .isFinished }
        else { s.control with dmaStart := false }
    | .isFinished =>
        if s.timeout.pcapTimeoutLatch || bufferFull s i then { s.control with fsm := .irq }
        else
          { s.control with
            axiAwaddr := s.control.axiAwaddr + BitVec.ofNat 32 burstBytes
            fsm := .actv }
    | .irq => stepIrq s i
    | .completed => { s.control with dmaIrq := false }

/-- One rising clock edge. -/
def step (s : State Word) (i : Input Word) : State Word where
  startEventDetected := nextStartEventDetected s i
  nextDmaaddrValid := nextNextDmaaddrValid s i
  pcapCompleted := nextPcapCompleted s i
  timeout := nextTimeout s i
  control := nextControl s i
  fifo := Fifo.step 10 s.fifo (fifoPorts s i)
  master := AxiWriteMaster.step s.master (masterPorts s i)

theorem control_reset {s : State Word} {i : Input Word} (hReset : i.dmaReset = true) :
    (step s i).control = .reset := by
  simp [step, nextControl, hReset]

/-! One clock edge without reset, state by state. -/
section Edge

variable {s : State Word} {i : Input Word} (hReset : i.dmaReset = false)
include hReset

theorem control_init (hFsm : s.control.fsm = .init) :
    (step s i).control =
      { s.control with
        axiAwaddr := i.dmaAddr
        fsm := if i.dmaInit && s.nextDmaaddrValid then .actv else .init } := by
  simp [step, nextControl, hReset, hFsm]

theorem control_actv (hFsm : s.control.fsm = .actv) : (step s i).control = stepActv s i := by
  simp [step, nextControl, hReset, hFsm]

theorem control_doDma (hFsm : s.control.fsm = .doDma) :
    (step s i).control =
      if i.bvalid then
        { s.control with
          dmaStart := false
          tlpCount := (s.control.tlpCount + 1) % 2 ^ 32
          fsm := .isFinished }
      else { s.control with dmaStart := false } := by
  simp [step, nextControl, hReset, hFsm]

theorem control_isFinished (hFsm : s.control.fsm = .isFinished) :
    (step s i).control =
      if s.timeout.pcapTimeoutLatch || bufferFull s i then { s.control with fsm := .irq }
      else
        { s.control with
          axiAwaddr := s.control.axiAwaddr + BitVec.ofNat 32 burstBytes
          fsm := .actv } := by
  simp [step, nextControl, hReset, hFsm]

theorem control_irq (hFsm : s.control.fsm = .irq) : (step s i).control = stepIrq s i := by
  simp [step, nextControl, hReset, hFsm]

theorem control_completed (hFsm : s.control.fsm = .completed) :
    (step s i).control = { s.control with dmaIrq := false } := by
  simp [step, nextControl, hReset, hFsm]

omit hReset in
theorem stepIrq_fsm :
    (stepIrq s i).fsm =
      if s.control.lastTlp || !s.nextDmaaddrValid then Fsm.completed else .actv := by
  cases hSwitch : switchBuffer s i <;> simp [stepIrq, hSwitch]

omit hReset in
/-- Everything that the waiting state can do. -/
theorem stepActv_cases :
    (s.pcapCompleted = true ∧ pcapError i = true ∧
      stepActv s i = { s.control with dmaIrq := false, lastTlp := true, fsm := .irq }) ∨
    (s.timeout.pcapTimeout = true ∧ writingSample s i = false ∧ fifoCount s = 0 ∧
      stepActv s i = { s.control with dmaIrq := false, fsm := .irq }) ∨
    (fifoCount s ≠ 0 ∧ (s.timeout.pcapTimeout = true ∨ axiBurstMax ≤ fifoCount s) ∧
      stepActv s i = gotoDoDma s { s.control with dmaIrq := false }) ∨
    (s.pcapCompleted = true ∧ writingSample s i = false ∧ fifoCount s = 0 ∧
      s.nextDmaaddrValid = true ∧
      stepActv s i = { s.control with dmaIrq := false, lastTlp := true, fsm := .irq }) ∨
    (s.pcapCompleted = true ∧ writingSample s i = false ∧ fifoCount s = 0 ∧
      stepActv s i = { s.control with dmaIrq := false, lastTlp := true }) ∨
    (s.pcapCompleted = true ∧ writingSample s i = false ∧ fifoCount s ≠ 0 ∧
      fifoCount s < axiBurstMax ∧
      stepActv s i = gotoDoDma s { s.control with dmaIrq := false, lastTlp := true }) ∨
    (s.startEventDetected = true ∧
      stepActv s i = { s.control with dmaIrq := false, fsm := .irq }) ∨
    stepActv s i = { s.control with dmaIrq := false } := by
  generalize hNext : stepActv s i = next
  simp only [stepActv] at hNext
  by_cases hError : (s.pcapCompleted && pcapError i) = true
  · rw [if_pos hError] at hNext
    simp only [Bool.and_eq_true] at hError
    exact .inl ⟨hError.1, hError.2, hNext.symm⟩
  rw [if_neg hError] at hNext
  by_cases hTimeout : (s.timeout.pcapTimeout && !writingSample s i) = true
  · rw [if_pos hTimeout] at hNext
    simp only [Bool.and_eq_true, Bool.not_eq_true'] at hTimeout
    by_cases hEmpty : fifoCount s = 0
    · rw [if_pos hEmpty] at hNext
      exact .inr (.inl ⟨hTimeout.1, hTimeout.2, hEmpty, hNext.symm⟩)
    · rw [if_neg hEmpty] at hNext
      exact .inr (.inr (.inl ⟨hEmpty, .inl hTimeout.1, hNext.symm⟩))
  rw [if_neg hTimeout] at hNext
  by_cases hBurst : axiBurstMax ≤ fifoCount s
  · rw [if_pos hBurst] at hNext
    have hSome : fifoCount s ≠ 0 := Nat.ne_of_gt (Nat.lt_of_lt_of_le (by decide) hBurst)
    exact .inr (.inr (.inl ⟨hSome, .inr hBurst, hNext.symm⟩))
  rw [if_neg hBurst] at hNext
  by_cases hDone : (s.pcapCompleted && !writingSample s i) = true
  · rw [if_pos hDone] at hNext
    simp only [Bool.and_eq_true, Bool.not_eq_true'] at hDone
    obtain ⟨hCompleted, hWriting⟩ := hDone
    by_cases hEmpty : fifoCount s = 0
    · rw [if_pos hEmpty] at hNext
      by_cases hValid : s.nextDmaaddrValid = true
      · rw [if_pos hValid] at hNext
        exact .inr (.inr (.inr (.inl ⟨hCompleted, hWriting, hEmpty, hValid, hNext.symm⟩)))
      · rw [if_neg hValid] at hNext
        exact .inr (.inr (.inr (.inr (.inl ⟨hCompleted, hWriting, hEmpty, hNext.symm⟩))))
    · rw [if_neg hEmpty] at hNext
      exact .inr (.inr (.inr (.inr (.inr (.inl
        ⟨hCompleted, hWriting, hEmpty, Nat.lt_of_not_le hBurst, hNext.symm⟩)))))
  rw [if_neg hDone] at hNext
  by_cases hStart : s.startEventDetected = true
  · rw [if_pos hStart] at hNext
    exact .inr (.inr (.inr (.inr (.inr (.inr (.inl ⟨hStart, hNext.symm⟩))))))
  · rw [if_neg hStart] at hNext
    exact .inr (.inr (.inr (.inr (.inr (.inr (.inr hNext.symm))))))

theorem fsm_init (hFsm : (step s i).control.fsm = .init) :
    s.control.fsm = .init ∧ (i.dmaInit && s.nextDmaaddrValid) = false := by
  cases hNow : s.control.fsm with
  | init =>
      rw [control_init hReset hNow] at hFsm
      refine ⟨rfl, Bool.eq_false_iff.mpr fun hInit => ?_⟩
      simp [hInit] at hFsm
  | actv =>
      rw [control_actv hReset hNow] at hFsm
      rcases @stepActv_cases _ s i with h | h | h | h | h | h | h | h <;>
        simp [h, gotoDoDma, hNow] at hFsm
  | doDma =>
      rw [control_doDma hReset hNow] at hFsm
      split at hFsm <;> simp [hNow] at hFsm
  | isFinished =>
      rw [control_isFinished hReset hNow] at hFsm
      split at hFsm <;> simp at hFsm
  | irq =>
      rw [control_irq hReset hNow, stepIrq_fsm] at hFsm
      split at hFsm <;> simp at hFsm
  | completed =>
      rw [control_completed hReset hNow] at hFsm
      simp [hNow] at hFsm

/-- Only an interrupt stops the engine: the last one, or one without a next address. -/
theorem fsm_completed (hFsm : (step s i).control.fsm = .completed) :
    s.control.fsm = .completed ∨
      s.control.fsm = .irq ∧ (s.control.lastTlp = true ∨ s.nextDmaaddrValid = false) := by
  cases hNow : s.control.fsm with
  | init =>
      rw [control_init hReset hNow] at hFsm
      dsimp only at hFsm
      split at hFsm <;> simp at hFsm
  | actv =>
      rw [control_actv hReset hNow] at hFsm
      rcases @stepActv_cases _ s i with h | h | h | h | h | h | h | h <;>
        simp [h, gotoDoDma, hNow] at hFsm
  | doDma =>
      rw [control_doDma hReset hNow] at hFsm
      split at hFsm <;> simp [hNow] at hFsm
  | isFinished =>
      rw [control_isFinished hReset hNow] at hFsm
      split at hFsm <;> simp at hFsm
  | irq =>
      rw [control_irq hReset hNow, stepIrq_fsm] at hFsm
      split at hFsm
      · rename_i hStop
        exact .inr ⟨rfl, by simpa using hStop⟩
      · simp at hFsm
  | completed => exact .inl rfl

theorem fsm_irq (hFsm : s.control.fsm = .irq)
    (hGoes : (step s i).control.fsm ≠ .completed) :
    s.control.lastTlp = false ∧ s.nextDmaaddrValid = true := by
  rw [control_irq hReset hFsm, stepIrq_fsm] at hGoes
  simpa using hGoes

end Edge

end Fpga.PcapDma
