import PandaBridge.Driver.PandaStream
import PandaBridge.Fpga.PcapDma

/-! The interrupt of position capture between the DMA engine and `stream_isr`. The engine has one
status register that every interrupt overwrites, and the controller keeps one edge of the
interrupt line until the handler is entered. -/
namespace Driver.Irq

open Fpga Fpga.PcapDma

variable {Word : Type}

/-! The macros on the interrupt status. -/

/-- `IRQ_STATUS_NEW_BUFFER`. -/
def newBuffer (status : PcapDma.IrqStatus) : Bool :=
  status.done || status.timeout || status.bufferFull

/-- `IRQ_STATUS_LENGTH`: the sample count in bytes. -/
def length (status : PcapDma.IrqStatus) : Nat := status.sampleCount * 4

/-- How far `stream_isr` has come. -/
inductive IsrAt
  | idle
  | entered
  | assign (block length : Nat)
  | receive (block length : Nat)
  deriving DecidableEq

/-- What the processor does with the handler at one clock. -/
inductive Action
  | enter
  | readStatus (nextFree : Bool)
  | assignBuffer (address : Address)
  | receive
  deriving DecidableEq

/-- The fields of `struct stream_open` that the handler uses. -/
structure Handler where
  isr : IsrAt
  streamActive : Bool
  startTsValid : Bool
  isrBlockIndex : Nat
  completion : PcapStatus × Bool
  deriving DecidableEq

/-- The engine, the interrupt line with its latch, the handler, and what has happened: the
statuses raised and read, the blocks received with their lengths, and whether the start event
came, also before the last interrupt. -/
structure World (Word : Type) where
  dma : PcapDma.State Word
  dmaAddr : Address
  irqPrev : Bool
  pending : Bool
  handler : Handler
  raised : List PcapDma.IrqStatus
  reads : List PcapDma.IrqStatus
  received : List (Nat × Nat)
  enabled : Bool
  enabledAtIrq : Bool

/-- What the surroundings do at one clock. The address is one that `start_hardware` writes. -/
structure Env (Word : Type) where
  startEvent : Bool := false
  dat : Word
  wstb : Bool := false
  done : Bool := false
  status : PcapStatus := ⟨false, false, false⟩
  start : Bool := false
  address : Option Address := none
  timeout : BitVec 32 := 0
  awready : Bool := true
  wready : Bool := true
  bvalid : Bool := false
  bresp : BitVec 2 := 0
  action : Option Action := none

/-- The status read, and the block taken from the ring: `stream_isr` up to the next register
access or to the end of the block. -/
def Handler.readStatus (blockCount : Nat) (h : Handler) (status : PcapDma.IrqStatus)
    (nextFree : Bool) : Handler :=
  if h.streamActive then
    let seen := { h with startTsValid := h.startTsValid || status.startEvent, isr := .idle }
    if newBuffer status then
      if status.done then
        { seen with
          streamActive := false
          completion := (status.completion, status.addressMissing)
          isr := .receive h.isrBlockIndex (length status) }
      else
        { seen with
          isrBlockIndex := stepIndex blockCount h.isrBlockIndex
          isr :=
            if nextFree then .assign h.isrBlockIndex (length status)
            else .receive h.isrBlockIndex (length status) }
    else seen
  else { h with isr := .idle }

/-- The handler at one clock. An action that it is not ready for has no effect. -/
def Handler.step (blockCount : Nat) (h : Handler) (pending : Bool)
    (status : PcapDma.IrqStatus) : Option Action → Handler
  | some .enter => if pending ∧ h.isr = .idle then { h with isr := .entered } else h
  | some (.readStatus nextFree) =>
      if h.isr = .entered then h.readStatus blockCount status nextFree else h
  | some (.assignBuffer _) =>
      match h.isr with
      | .assign block length => { h with isr := .receive block length }
      | _ => h
  | some .receive =>
      match h.isr with
      | .receive _ _ => { h with isr := .idle }
      | _ => h
  | none => h

namespace World

/-- The address that is written at this clock, by `start_hardware` or by the handler. -/
def addressWrite (w : World Word) (e : Env Word) : Option Address :=
  match e.action, w.handler.isr with
  | some (.assignBuffer address), .assign _ _ => some address
  | _, _ => e.address

def input (blockSize : BitVec 32) (w : World Word) (e : Env Word) : Input Word where
  startEvent := e.startEvent
  dat := e.dat
  wstb := e.wstb
  done := e.done
  status := e.status
  dmaInit := e.start
  dmaAddr := (w.addressWrite e).getD w.dmaAddr
  dmaAddrWstb := (w.addressWrite e).isSome
  timeout := e.timeout
  blockSize
  awready := e.awready
  wready := e.wready
  bvalid := e.bvalid
  bresp := e.bresp

/-- The handler is entered. -/
def enters (w : World Word) (e : Env Word) : Bool :=
  e.action == some .enter && w.pending && w.handler.isr == .idle

/-- The handler reads the status. -/
def readsStatus (w : World Word) (e : Env Word) : Bool :=
  (match e.action with
    | some (.readStatus _) => true
    | _ => false) && w.handler.isr == .entered

/-- The block that the handler receives. -/
def receives (w : World Word) (e : Env Word) : Option (Nat × Nat) :=
  match e.action, w.handler.isr with
  | some .receive, .receive block length => some (block, length)
  | _, _ => none

/-- The engine raises an interrupt. -/
def raises (w : World Word) : Bool := w.dma.control.fsm == .irq

/-- One rising clock edge. A new edge of the line counts even while the handler is entered. -/
def step (blockSize : BitVec 32) (blockCount : Nat) (w : World Word) (e : Env Word) :
    World Word where
  dma := PcapDma.step w.dma (w.input blockSize e)
  dmaAddr := (w.addressWrite e).getD w.dmaAddr
  irqPrev := w.dma.control.dmaIrq
  pending := w.dma.control.dmaIrq && !w.irqPrev || w.pending && !w.enters e
  handler := w.handler.step blockCount w.pending w.dma.control.irqStatus e.action
  raised := if w.raises then w.raised ++ [irqFlags w.dma (w.input blockSize e)] else w.raised
  reads := if w.readsStatus e then w.reads ++ [w.dma.control.irqStatus] else w.reads
  received := w.received ++ (w.receives e).toList
  enabled := w.enabled || e.startEvent
  enabledAtIrq := if w.raises then w.enabled else w.enabledAtIrq

/-- A capture begins: the engine has been reset and the handler is ready. -/
structure Boot (w : World Word) : Prop where
  reset : ∃ (s : State Word) (i : Input Word), i.dmaReset = true ∧ w.dma = PcapDma.step s i
  irqPrev : w.irqPrev = false
  pending : w.pending = false
  handler : w.handler.isr = .idle ∧ w.handler.streamActive = true ∧
    w.handler.startTsValid = false ∧ w.handler.isrBlockIndex = 0
  raised : w.raised = []
  reads : w.reads = []
  received : w.received = []
  enabled : w.enabled = false
  enabledAtIrq : w.enabledAtIrq = false

/-- The start event comes at most once in a capture, and not after its end. -/
def Legal (w : World Word) (e : Env Word) : Prop :=
  e.startEvent = true → w.enabled = false ∧ w.dma.pcapCompleted = false

instance (w : World Word) (e : Env Word) : Decidable (w.Legal e) :=
  inferInstanceAs (Decidable (_ → _))

/-- No interrupt is raised before the status of the one before it has been read. -/
def ReadInTime (w : World Word) : Prop :=
  w.raises = true →
    w.dma.control.dmaIrq = false ∧ w.pending = false ∧ w.handler.isr ≠ .entered

instance (w : World Word) : Decidable w.ReadInTime := inferInstanceAs (Decidable (_ → _))

end World

end Driver.Irq
