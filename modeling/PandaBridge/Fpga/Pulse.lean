import PandaBridge.Fpga.Fifo
import PandaBridge.Clocked.Run

/-! The PULSE block: triggers put the timestamps of their pulses on a queue, and a second
process compares a running timestamp with the output of the queue. -/
namespace Fpga.Pulse

/-- The parameter registers. -/
structure Params where
  trigEdge : BitVec 32
  delayL : BitVec 32
  delayH : BitVec 32
  widthL : BitVec 32
  widthH : BitVec 32
  pulses : BitVec 32
  stepL : BitVec 32
  stepH : BitVec 32
  deriving DecidableEq

structure Input where
  trig : Bool
  enable : Bool
  params : Params
  trigEdgeWstb : Bool := false
  delayLWstb : Bool := false
  delayHWstb : Bool := false
  widthLWstb : Bool := false
  widthHWstb : Bool := false
  pulsesWstb : Bool := false
  stepLWstb : Bool := false
  stepHWstb : Bool := false

/-- A word of the queue: the level of the output from a timestamp on. -/
structure Entry where
  value : Bool
  ts : BitVec 48
  deriving DecidableEq

/-- The registers of the process that fills the queue. -/
structure Fill where
  missedPulses : BitVec 32
  dropFor : BitVec 48
  overrideEndsTs : BitVec 48
  pulseOverride : Bool
  pulseQueuedDin : Entry
  pulseQueuedWstb : Bool

/-- The registers of the process that passes edges. -/
structure Edges where
  pulse : Bool
  edgeTs : BitVec 48
  edgesRemaining : BitVec 32

structure State where
  isEnabledPrev : Bool
  trigPrev : Bool
  delayI : BitVec 48
  widthI : BitVec 48
  stepI : BitVec 48
  pulsesI : BitVec 32
  stepTimesPulses : BitVec 48
  timestamp : BitVec 48
  fill : Fill
  edges : Edges
  queue : Fifo.State Entry

def State.boot : State where
  isEnabledPrev := false
  trigPrev := false
  delayI := 0
  widthI := 0
  stepI := 0
  pulsesI := 0
  stepTimesPulses := 0
  timestamp := 0
  fill := ⟨0, 0, 0, false, ⟨false, 0⟩, false⟩
  edges := ⟨false, 0, 0⟩
  queue := .boot ⟨false, 0⟩

/-! Parameter validation. -/

def Params.widthVector (p : Params) : BitVec 48 := p.widthH.setWidth 16 ++ p.widthL

def Params.delayVector (p : Params) : BitVec 48 := p.delayH.setWidth 16 ++ p.delayL

def Params.stepVector (p : Params) : BitVec 48 := p.stepH.setWidth 16 ++ p.stepL

def Params.widthInteger (p : Params) : BitVec 48 :=
  if p.widthVector ≠ 0 ∧ p.widthVector < 5 then 5 else p.widthVector

def Params.delayInteger (p : Params) : BitVec 48 :=
  if p.delayVector ≠ 0 ∧ p.delayVector < 5 then 5 else p.delayVector

def Params.stepInteger (p : Params) : BitVec 48 :=
  if p.widthInteger < p.stepVector then p.stepVector else p.widthInteger + 1

def Params.pulsesInteger (p : Params) : BitVec 32 := if p.pulses = 0 then 1 else p.pulses

/-! The signals between the processes. -/

def strobed (i : Input) : Bool :=
  i.trigEdgeWstb || i.delayLWstb || i.delayHWstb || i.widthLWstb || i.widthHWstb ||
    i.pulsesWstb || i.stepLWstb || i.stepHWstb

def isEnabled (i : Input) : Bool := i.enable && !strobed i

def enabledRise (s : State) (i : Input) : Bool := isEnabled i && !s.isEnabledPrev

def trigRise (s : State) (i : Input) : Bool := i.trig && !s.trigPrev

def trigFall (s : State) (i : Input) : Bool := !i.trig && s.trigPrev

def gotTrigger (s : State) (i : Input) : Bool :=
  if i.params.trigEdge.setWidth 2 = 2 ∨ s.widthI = 0 then trigRise s i || trigFall s i
  else if i.params.trigEdge.setWidth 2 = 1 then trigFall s i
  else if i.params.trigEdge.setWidth 2 = 0 then trigRise s i
  else false

def queuePulseTs (s : State) : BitVec 48 := s.queue.readDataO.ts

def queuePulseValue (s : State) : Bool := s.queue.readDataO.value

def pulseQueuedRstb (s : State) : Bool :=
  s.widthI == 0 && s.timestamp == queuePulseTs s ||
    s.edges.edgesRemaining == 1 && s.timestamp == s.edges.edgeTs

/-! The outputs. -/

def out (s : State) : Bool := s.fill.pulseOverride || s.edges.pulse

def queued (s : State) : Nat := s.queue.fifoDepthO

def dropped (s : State) : BitVec 32 := s.fill.missedPulses

/-- Whether a trigger can be processed. -/
def canProcess (s : State) : Bool := s.fill.dropFor == 0 && s.queue.writeReadyO

/-- What a trigger that can be processed does to the queue and to the override. -/
def processTrigger (s : State) (i : Input) (f : Fill) : Fill :=
  if s.widthI = 0 then
    if s.delayI = 0 then { f with pulseOverride := i.trig }
    else { f with
      pulseQueuedDin := ⟨trigRise s i, s.timestamp + s.delayI⟩, pulseQueuedWstb := true }
  else if s.delayI = 0 then
    { f with
      pulseOverride := true
      overrideEndsTs := s.timestamp + 4
      pulseQueuedDin := ⟨true, s.timestamp + s.delayI + 4⟩
      pulseQueuedWstb := true
      dropFor := s.stepTimesPulses - s.stepI + s.widthI }
  else
    { f with
      pulseQueuedDin := ⟨true, s.timestamp + s.delayI⟩
      pulseQueuedWstb := true
      dropFor := s.stepTimesPulses - s.stepI + s.widthI }

/-- The default is to do nothing with the queue and to count down how long to drop for. -/
def idle (s : State) : Fill :=
  { s.fill with
    pulseQueuedDin := ⟨false, 0⟩
    pulseQueuedWstb := false
    dropFor := if 0 < s.fill.dropFor then s.fill.dropFor - 1 else s.fill.dropFor }

/-- The queue filling process. -/
def fillQueue (s : State) (i : Input) : Fill :=
  let filled : Fill :=
    if enabledRise s i then { idle s with missedPulses := 0, dropFor := 0, overrideEndsTs := 0 }
    else if isEnabled i && gotTrigger s i then
      if canProcess s then processTrigger s i (idle s)
      else { idle s with missedPulses := s.fill.missedPulses + 1 }
    else idle s
  -- Disabling or the end of the override has the last word on it.
  if isEnabled i = false ∨ s.timestamp = s.fill.overrideEndsTs then
    { filled with pulseOverride := false }
  else filled

/-- The process that passes edges. -/
def passEdges (s : State) (i : Input) : Edges :=
  if enabledRise s i then { s.edges with edgeTs := 0 }
  else if isEnabled i && s.edges.edgesRemaining != 0 then
    if s.timestamp = s.edges.edgeTs then
      if s.edges.edgesRemaining.toNat % 2 = 1 then
        ⟨false, s.timestamp + s.stepI - s.widthI, s.edges.edgesRemaining - 1⟩
      else ⟨true, s.timestamp + s.widthI, s.edges.edgesRemaining - 1⟩
    else s.edges
  else if isEnabled i && s.timestamp == queuePulseTs s then
    if s.widthI = 0 then { s.edges with pulse := queuePulseValue s }
    else
      ⟨true, if s.delayI = 0 then s.timestamp + s.widthI - 4 else s.timestamp + s.widthI,
        s.pulsesI + s.pulsesI - 1⟩
  else if isEnabled i then s.edges
  else { s.edges with pulse := false, edgesRemaining := 0 }

def queuePorts (s : State) (i : Input) : Fifo.Ports Entry where
  resetFifo := !isEnabled i
  writeValid := s.fill.pulseQueuedWstb
  writeData := s.fill.pulseQueuedDin
  readReady := pulseQueuedRstb s

/-- One rising clock edge. -/
def step (s : State) (i : Input) : State where
  isEnabledPrev := isEnabled i
  trigPrev := i.trig
  delayI := i.params.delayInteger
  widthI := i.params.widthInteger
  stepI := i.params.stepInteger
  pulsesI := i.params.pulsesInteger
  stepTimesPulses := (s.stepI.setWidth 80 * s.pulsesI.setWidth 80).setWidth 48
  timestamp := if isEnabled i then s.timestamp + 1 else 0
  fill := fillQueue s i
  edges := passEdges s i
  queue := Fifo.step 8 s.queue (queuePorts s i)

/-- A trigger is accepted at this clock edge. -/
def accepts (s : State) (i : Input) : Bool :=
  isEnabled i && !enabledRise s i && gotTrigger s i && canProcess s

/-- The comparison with the queue's output register starts a high level although nothing
has been put into the register since the queue was last emptied. -/
def staleMatch (s : State) (i : Input) : Bool :=
  isEnabled i && !enabledRise s i && s.edges.edgesRemaining == 0 && !s.queue.readValidO &&
    s.timestamp == queuePulseTs s && (s.widthI != 0 || queuePulseValue s)

theorem Params.pulsesInteger_pos (p : Params) : 0 < p.pulsesInteger.toNat := by
  unfold Params.pulsesInteger
  split
  · decide
  · bv_omega

section Edge

variable {s : State} {i : Input}

@[simp] theorem idle_pulseQueuedWstb : (idle s).pulseQueuedWstb = false := rfl

@[simp] theorem idle_pulseOverride : (idle s).pulseOverride = s.fill.pulseOverride := rfl

@[simp] theorem idle_overrideEndsTs : (idle s).overrideEndsTs = s.fill.overrideEndsTs := rfl

theorem out_step_of_disabled (h : isEnabled i = false) : out (step s i) = false := by
  simp [out, step, fillQueue, passEdges, enabledRise, h]

theorem fillQueue_of_not_accepts (h : accepts s i = false) :
    (fillQueue s i).pulseQueuedWstb = false ∧
      ((fillQueue s i).pulseOverride = true → s.fill.pulseOverride = true) := by
  unfold fillQueue
  by_cases hRise : enabledRise s i = true
  · simp only [hRise, if_true]
    split <;> simp
  · by_cases hTrigger : (isEnabled i && gotTrigger s i) = true
    · have hProcess : canProcess s = false := by simp_all [accepts]
      simp only [hRise, hTrigger, hProcess, if_true, Bool.false_eq_true, if_false]
      split <;> simp
    · simp only [hRise, hTrigger, if_false, Bool.false_eq_true]
      split <;> simp

/-- An accepted trigger, but for the end of an override at the same clock. -/
theorem fillQueue_of_accepts (h : accepts s i = true) :
    fillQueue s i =
      if s.timestamp = s.fill.overrideEndsTs then
        { processTrigger s i (idle s) with pulseOverride := false }
      else processTrigger s i (idle s) := by
  simp only [accepts, Bool.and_eq_true, Bool.not_eq_true'] at h
  obtain ⟨⟨⟨hEnabled, hRise⟩, hTrigger⟩, hProcess⟩ := h
  simp [fillQueue, hEnabled, hRise, hTrigger, hProcess]

/-- How long after its trigger the queue should show a pulse: an override without delay
covers the clocks that an entry needs through the queue. -/
def queueDelay (width delay : BitVec 48) : BitVec 48 :=
  if width ≠ 0 ∧ delay = 0 then 4 else delay

theorem din_of_accepts (h : accepts s i = true) (hQueued : (fillQueue s i).pulseQueuedWstb = true) :
    (fillQueue s i).pulseQueuedDin.ts = s.timestamp + queueDelay s.widthI s.delayI ∧
      (s.widthI = 0 → (fillQueue s i).pulseQueuedDin.value = trigRise s i) := by
  rw [fillQueue_of_accepts h] at hQueued ⊢
  by_cases hWidth : s.widthI = 0 <;> by_cases hDelay : s.delayI = 0 <;>
    split <;> simp_all [processTrigger, queueDelay]

theorem override_of_accepts (h : accepts s i = true)
    (hOverride : (fillQueue s i).pulseOverride = true) :
    s.fill.pulseOverride = true ∨ s.delayI = 0 ∧ (s.widthI = 0 → i.trig = true) := by
  rw [fillQueue_of_accepts h] at hOverride
  by_cases hWidth : s.widthI = 0 <;> by_cases hDelay : s.delayI = 0 <;>
    split at hOverride <;> simp_all [processTrigger]

theorem trigRise_of_accepts (h : accepts s i = true) (hWidth : s.widthI = 0)
    (hTrig : i.trig = true) : trigRise s i = true := by
  simp only [accepts, Bool.and_eq_true] at h
  simpa [gotTrigger, hWidth, trigFall, hTrig] using h.1.2

/-- What the edge process does at an enabled clock after the first. -/
theorem passEdges_cases (hEnabled : isEnabled i = true) (hRise : enabledRise s i = false) :
    passEdges s i = s.edges ∨
      s.edges.edgesRemaining ≠ 0 ∧ s.timestamp = s.edges.edgeTs ∧
        s.edges.edgesRemaining.toNat % 2 = 1 ∧
        passEdges s i = ⟨false, s.timestamp + s.stepI - s.widthI, s.edges.edgesRemaining - 1⟩ ∨
      s.edges.edgesRemaining ≠ 0 ∧ s.timestamp = s.edges.edgeTs ∧
        s.edges.edgesRemaining.toNat % 2 = 0 ∧
        passEdges s i = ⟨true, s.timestamp + s.widthI, s.edges.edgesRemaining - 1⟩ ∨
      s.edges.edgesRemaining = 0 ∧ s.timestamp = queuePulseTs s ∧ s.widthI = 0 ∧
        passEdges s i = { s.edges with pulse := queuePulseValue s } ∨
      s.edges.edgesRemaining = 0 ∧ s.timestamp = queuePulseTs s ∧ s.widthI ≠ 0 ∧
        passEdges s i =
          ⟨true, if s.delayI = 0 then s.timestamp + s.widthI - 4 else s.timestamp + s.widthI,
            s.pulsesI + s.pulsesI - 1⟩ := by
  unfold passEdges
  by_cases hRemaining : s.edges.edgesRemaining = 0
  · by_cases hMatch : s.timestamp = queuePulseTs s
    · by_cases hWidth : s.widthI = 0
      · simp [hRise, hEnabled, hRemaining, hMatch, hWidth]
      · simp_all
    · simp [hRise, hEnabled, hRemaining, hMatch]
  · by_cases hMatch : s.timestamp = s.edges.edgeTs
    · rcases Nat.mod_two_eq_zero_or_one s.edges.edgesRemaining.toNat with hEven | hOdd
      · simp_all
      · simp_all
    · simp_all

end Edge

end Fpga.Pulse
