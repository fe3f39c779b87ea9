import Mathlib.Tactic.Simps.Basic
import PandaBridge.Fpga.PcapDma

/-! The DMA engine of position capture with its surroundings: the memory behind an AXI slave,
and a driver that gives buffers. The state also keeps what has happened. -/
namespace Fpga.PcapDma

variable {Word : Type}

/-- The slave: the address and length it has taken, and the beats of the burst so far. -/
structure Slave (Word : Type) where
  address : Option (Address × Nat)
  beats : List Word
  last : Bool

def Slave.idle : Slave Word := ⟨none, [], false⟩

/-- An interrupt that gives a buffer back: the first `sampleCount` words of the buffer at that
time. -/
structure Switch (Word : Type) where
  base : Address
  status : IrqStatus
  words : List Word

structure World (Word : Type) where
  dma : State Word
  dmaAddr : Address
  slave : Slave Word
  memory : Address → Word
  started : Bool
  given : List Address
  pushed : List Word
  switches : List (Switch Word)
  status : PcapStatus

/-- What the surroundings do at one clock. -/
structure Env (Word : Type) where
  startEvent : Bool := false
  dat : Word
  wstb : Bool := false
  done : Bool := false
  status : PcapStatus := ⟨false, false, false⟩
  start : Bool := false
  address : Option Address := none
  timeout : BitVec 32 := 0
  awready : Bool := true
  wready : Bool := true
  answer : Bool := false

/-- Consecutive words from an address on. -/
def wordsAt (memory : Address → Word) (base : Address) (count : Nat) : List Word :=
  (List.range count).map fun i => memory (base + BitVec.ofNat 32 (4 * i))

/-- The beats of a burst land one after the other. -/
def landBeats (memory : Address → Word) (address : Address) : List Word → Address → Word
  | [] => memory
  | word :: rest =>
      landBeats (Function.update memory address word) (address + BitVec.ofNat 32 4) rest

namespace World

/-- The buffer in use: each switch goes on to the next address that the driver has given. -/
def inUse (w : World Word) : Address := w.given.getD w.switches.length 0

/-- The words that the interrupts so far have given back. -/
def delivered (w : World Word) : List Word := w.switches.flatMap Switch.words

@[simps]
def input (blockSize : BitVec 32) (w : World Word) (e : Env Word) : Input Word where
  startEvent := e.startEvent
  dat := e.dat
  wstb := e.wstb
  done := e.done
  status := e.status
  dmaInit := e.start
  dmaAddr := e.address.getD w.dmaAddr
  dmaAddrWstb := e.address.isSome
  timeout := e.timeout
  blockSize
  awready := e.awready
  wready := e.wready
  bvalid := e.answer

/-- The slave takes an address and a beat whenever they are offered and it is ready. -/
def nextSlave (blockSize : BitVec 32) (w : World Word) (e : Env Word) : Slave Word :=
  let ports := masterPorts w.dma (w.input blockSize e)
  let before := if e.answer then Slave.idle else w.slave
  { address :=
      if e.awready && w.dma.master.awvalid then
        some (w.dma.control.axiAwaddr, AxiWriteMaster.awlen ports)
      else before.address
    beats :=
      if AxiWriteMaster.wnext w.dma.master ports then before.beats ++ [w.dma.fifo.readDataO]
      else before.beats
    last := AxiWriteMaster.wlast w.dma.master ports || before.last }

/-- The data of a burst are in the memory when the slave answers. -/
def nextMemory (w : World Word) (e : Env Word) : Address → Word :=
  match e.answer, w.slave.address with
  | true, some (address, _) => landBeats w.memory address w.slave.beats
  | _, _ => w.memory

/-- An interrupt gives the buffer in use back at this clock. -/
def givesBack (blockSize : BitVec 32) (w : World Word) (e : Env Word) : Bool :=
  w.dma.control.fsm == .irq && switchBuffer w.dma (w.input blockSize e)

def nextSwitches (blockSize : BitVec 32) (w : World Word) (e : Env Word) : List (Switch Word) :=
  if w.givesBack blockSize e then
    w.switches ++
      [{ base := w.inUse
         status := irqFlags w.dma (w.input blockSize e)
         words := wordsAt w.memory w.inUse w.dma.control.sampleCount }]
  else w.switches

/-- One rising clock edge. -/
@[simps]
def step (blockSize : BitVec 32) (w : World Word) (e : Env Word) : World Word where
  dma := PcapDma.step w.dma (w.input blockSize e)
  dmaAddr := e.address.getD w.dmaAddr
  slave := w.nextSlave blockSize e
  memory := w.nextMemory e
  started := w.started || e.start
  given := w.given ++ e.address.toList
  pushed := if e.wstb then w.pushed ++ [e.dat] else w.pushed
  switches := w.nextSwitches blockSize e
  status := e.status

/-- The DMA engine has just been reset and nothing else has happened. -/
structure Boot (w : World Word) : Prop where
  reset : ∃ (s : State Word) (i : Input Word), i.dmaReset = true ∧ w.dma = PcapDma.step s i
  slave : w.slave = .idle
  started : w.started = false
  given : w.given = []
  pushed : w.pushed = []
  switches : w.switches = []

/-- What the surroundings keep to. Words are pushed only into a FIFO that is not full, after
the second address and not after the end of the capture, from which on the status stands
still. The slave answers a burst when it has the address and the last beat. The driver writes
ADDR, START and ADDR, and from then on one address after each switch. -/
structure Legal (w : World Word) (e : Env Word) : Prop where
  push : e.wstb = true →
    w.dma.fifo.writeReadyO = true ∧ 2 ≤ w.given.length ∧ w.dma.pcapCompleted = false
  status : w.dma.pcapCompleted = true → e.status = w.status
  answer : e.answer = true → w.slave.address.isSome = true ∧ w.slave.last = true
  start : e.start = true → w.given.length = 1 ∧ w.started = false
  address : e.address.isSome = true →
    w.given.length = 0 ∨ w.given.length = 1 ∧ w.started = true ∨
      2 ≤ w.given.length ∧ w.given.length < w.switches.length + 2

end World

end Fpga.PcapDma
