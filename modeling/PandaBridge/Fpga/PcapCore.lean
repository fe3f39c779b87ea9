import PandaBridge.Clocked.Run
import PandaBridge.Fpga.PcapDma
import PandaBridge.Fpga.PcapFrame

/-! Position capture between the system bus and the DMA engine: the arming state machine, the
frame, and the buffer that puts out the listed fields of each capture. -/
namespace Fpga

namespace PcapBuffer

open PcapFrame (ModeTsBits)

structure Input where
  reset : Bool
  startWrite : Bool
  write : BitVec 32
  writeWstb : Bool
  modeTsBits : ModeTsBits
  trig : Bool

structure State where
  mem : BitVec 6 → BitVec 10
  maskAddra : BitVec 6
  maskLength : BitVec 6
  maskAddrb : BitVec 6
  maskDoutb : BitVec 10
  ongoingTrig : Bool
  trigDly : Bool
  ongoingTrigDly : Bool
  pcapDatO : BitVec 32
  pcapDatValidO : Bool
  errorO : Bool

/-- The signals before the first clock edge. -/
def State.boot : State :=
  ⟨fun _ => 0, 0, 0, 0, 0, false, false, false, 0, false, false⟩

/-- The field of a capture that a mask entry stands for, if any. -/
def select (mask : BitVec 10) (m : ModeTsBits) : Option (BitVec 32) :=
  if mask.getLsbD 9 then
    let ext := (mask.extractLsb' 4 4).toNat
    if hBits : 7 ≤ ext ∧ ext ≤ 10 then some (m.bits ⟨ext - 7, by omega⟩)
    else if hTs : ext ≤ 6 then some (m.ts ⟨ext, by omega⟩)
    else none
  else
    let mode := (mask.extractLsb' 0 4).toNat
    if hMode : mode ≤ 8 then
      some (m.mode (mask.extractLsb' 4 5).toFin ⟨mode, by omega⟩)
    else none

/-- The last entry of the mask is being read. The length of a full mask is zero. -/
def atLast (s : State) : Bool := s.maskAddrb == s.maskLength - 1

/-- The readout of the mask: an ongoing flag runs while it is read through. -/
def readout (s : State) (i : Input) : State :=
  { s with
    ongoingTrig :=
      if atLast s then false else if i.trig && s.maskAddrb == 0 then true else s.ongoingTrig
    maskAddrb :=
      if i.trig || s.ongoingTrig then if atLast s then 0 else s.maskAddrb + 1 else s.maskAddrb
    trigDly := i.trig
    ongoingTrigDly := s.ongoingTrig
    pcapDatValidO := s.trigDly || s.ongoingTrigDly
    errorO :=
      if s.ongoingTrig && s.maskAddrb ≤ s.maskLength - 1 then i.trig else s.errorO }

def readoutReset (s : State) : State :=
  { s with
    ongoingTrig := false
    maskAddrb := 0
    errorO := false
    pcapDatValidO := false
    trigDly := false
    ongoingTrigDly := false }

/-- One rising clock edge. -/
def step (s : State) (i : Input) : State :=
  { if i.reset then readoutReset s else readout s i with
    mem := if i.writeWstb then Function.update s.mem s.maskAddra (i.write.setWidth 10) else s.mem
    maskAddra :=
      if i.startWrite then 0 else if i.writeWstb then s.maskAddra + 1 else s.maskAddra
    maskLength := s.maskAddra
    maskDoutb := s.mem s.maskAddrb
    pcapDatO := (select s.maskDoutb i.modeTsBits).getD s.pcapDatO }

end PcapBuffer

namespace PcapArming

inductive Fsm
  | idle
  | armed
  | enabled
  | waitOngoingWrite
  deriving DecidableEq

structure Input where
  reset : Bool
  arm : Bool
  disarm : Bool
  enable : Bool
  pcapError : Bool
  ongoingTrig : Bool
  dmaError : Bool

structure State where
  fsm : Fsm
  enablePrev : Bool
  pcapArmed : Bool
  pcapDone : Bool
  startEvent : Bool
  firstEnable : Bool
  status : PcapDma.PcapStatus
  timestamp : BitVec 64

/-- The signals before the first clock edge. -/
def State.boot : State :=
  ⟨.idle, false, false, false, false, false, ⟨false, false, false⟩, 0⟩

def abortTrig (i : Input) : Bool := i.disarm || i.pcapError || i.dmaError

/-- The state machine outside reset and abort. -/
def machine (s : State) (i : Input) : State :=
  match s.fsm with
  | .idle =>
      if i.arm then
        { s with
          startEvent := false
          pcapDone := false
          pcapArmed := true
          fsm := .armed
          status := ⟨false, false, false⟩ }
      else { s with startEvent := false, pcapDone := false }
  | .armed =>
      { s with
        startEvent := false
        firstEnable := true
        fsm := if i.enable then .enabled else .armed }
  | .enabled =>
      let s := { s with startEvent := s.firstEnable, firstEnable := false }
      if s.enablePrev && !i.enable || i.disarm then
        if i.ongoingTrig then { s with fsm := .waitOngoingWrite }
        else { s with fsm := .idle, pcapArmed := false, pcapDone := true }
      else s
  | .waitOngoingWrite =>
      if i.ongoingTrig then { s with startEvent := false }
      else { s with startEvent := false, fsm := .idle, pcapArmed := false, pcapDone := true }

def nextTimestamp (s : State) (i : Input) : BitVec 64 :=
  if i.reset then 0
  else if !i.arm && !s.pcapArmed then 0
  else if i.arm && i.enable then 1
  else if s.pcapArmed && i.enable then s.timestamp + 1
  else s.timestamp

/-- One rising clock edge. -/
def step (s : State) (i : Input) : State :=
  let next :=
    if i.reset then { s with fsm := .idle, pcapArmed := false, pcapDone := false }
    else if s.pcapArmed && abortTrig i then
      { s with
        fsm := .idle
        pcapArmed := false
        pcapDone := true
        status :=
          ⟨s.status.disarmed || i.disarm, s.status.framing || i.pcapError,
            s.status.dma || i.dmaError⟩ }
    else machine s i
  { next with enablePrev := i.enable, timestamp := nextTimestamp s i }

end PcapArming

namespace PcapCore

structure Input where
  reset : Bool := false
  arm : Bool := false
  disarm : Bool := false
  startWrite : Bool := false
  write : BitVec 32 := 0
  writeWstb : Bool := false
  trigEdge : BitVec 2 := 0
  shiftSum : BitVec 6 := 0
  enable : Bool := false
  trig : Bool := false
  gate : Bool := false
  dmaError : Bool := false
  bitBus : BitVec 128 := 0
  posBus : Fin 32 → BitVec 32 := fun _ => 0

structure State where
  arming : PcapArming.State
  frame : PcapFrame.State
  buffer : PcapBuffer.State

/-- The signals before the first clock edge. -/
def State.boot : State := ⟨.boot, .boot, .boot⟩

def armingInput (s : State) (i : Input) : PcapArming.Input where
  reset := i.reset
  arm := i.arm
  disarm := i.disarm
  enable := i.enable
  pcapError := s.buffer.errorO
  ongoingTrig := s.buffer.pcapDatValidO
  dmaError := i.dmaError

/-- The frame and the buffer are under reset while position capture is not armed. -/
def pcapReset (s : State) (i : Input) : Bool := i.reset || !s.arming.pcapArmed

def frameInput (s : State) (i : Input) : PcapFrame.Input where
  reset := pcapReset s i
  shiftSum := i.shiftSum
  trigEdge := i.trigEdge
  bitBus := i.bitBus
  posBus := i.posBus
  enable := s.arming.pcapArmed || i.arm
  gate := (i.arm || s.arming.pcapArmed) && i.gate && i.enable
  trig := i.trig && i.enable
  timestamp := s.arming.timestamp

def bufferInput (s : State) (i : Input) : PcapBuffer.Input where
  reset := pcapReset s i
  startWrite := i.startWrite
  write := i.write
  writeWstb := i.writeWstb
  modeTsBits := s.frame.modeTsBits
  trig := s.frame.trigO

/-- One rising clock edge. -/
def step (stdDev : Bool) (s : State) (i : Input) : State where
  arming := PcapArming.step s.arming (armingInput s i)
  frame := PcapFrame.step stdDev s.frame (frameInput s i)
  buffer := PcapBuffer.step s.buffer (bufferInput s i)

/-- The `HEALTH` register. -/
def health (s : State) : Nat :=
  if s.arming.status.framing then 1 else if s.arming.status.dma then 2 else 0

end PcapCore

end Fpga
