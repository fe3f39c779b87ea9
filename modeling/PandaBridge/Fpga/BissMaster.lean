import PandaBridge.Fpga.SerialParts

/-! The BiSS master, which clocks a position out of a slave and checks its code. -/
namespace Fpga

/-- The received word with its sign bit up to the top. -/
def signExtended (bits : Nat) (data : BitVec 32) : BitVec 32 :=
  ofBits fun place : Fin 32 =>
    if place.val < bits then data.getLsbD place.val else data.getLsbD (bits - 1)

namespace BissMaster

inductive SmData
  | synch
  | ack
  | start
  | zero
  | data
  | nEnW
  | crc
  | timeout
  deriving DecidableEq

def lineDelay : BitVec 13 := 5000
def timeoutLimit : BitVec 13 := 2500
def maxStartTimeout : BitVec 13 := 5000
def deadPeriod : Nat := 20000 / 8

def uStatusBits : BitVec 8 := 2
def uCrcBits : BitVec 8 := 6
def uStartZero : BitVec 8 := 1

structure Input where
  reset : Bool
  encoding : Encoding
  bits : BitVec 8
  clkPeriod : BitVec 32
  framePeriod : BitVec 32
  bissDat : Bool

structure State where
  smData : SmData
  dataCnt : BitVec 8
  startLineDelayCnt : Bool
  lineDelayCnt : BitVec 13
  timeoutCnt : BitVec 13
  startTimeout : BitVec 13
  crcReset : Bool
  bissClkReset : Bool
  framePresc : Prescaler.State
  clockTrain : BissClockGen.State
  bissSckPrev : Bool
  dataEnable : Bool
  nEnWEnable : Bool
  crcEnable : Bool
  enableCnt : Bool
  crcCalc : BitVec 6
  shifterData : ShifterIn.State 32
  shifterNEnW : ShifterIn.State 2
  shifterCrc : ShifterIn.State 6
  linkUp : Bool
  linkUpCrcNEbit : Bool
  health : BitVec 32
  posn : BitVec 32
  posnValid : Bool

/-- The registers before the first clock edge. -/
def State.boot : State where
  smData := .synch
  dataCnt := 0
  startLineDelayCnt := false
  lineDelayCnt := 0
  timeoutCnt := 0
  startTimeout := 0
  crcReset := false
  bissClkReset := false
  framePresc := ⟨false, 0⟩
  clockTrain := ⟨.waitStart, ⟨false, 0⟩, false, 0, 0⟩
  bissSckPrev := false
  dataEnable := false
  nEnWEnable := false
  crcEnable := false
  enableCnt := false
  crcCalc := 0
  shifterData := ⟨0, false, 0, false⟩
  shifterNEnW := ⟨0, false, 0, false⟩
  shifterCrc := ⟨0, false, 0, false⟩
  linkUp := false
  linkUpCrcNEbit := false
  health := 0
  posn := 0
  posnValid := false

def bissSck (s : State) : Bool := s.clockTrain.serialClk

def sckRisingEdge (s : State) : Bool := !s.bissSckPrev && bissSck s

/-- The frame is lost, and the clock generator starts again. -/
def lost (s : State) : State :=
  { s with smData := .synch, bissClkReset := true, startLineDelayCnt := false, linkUp := false }

def synchStep (s : State) (i : Input) : State :=
  let s' :=
    { s with
      crcReset := false
      bissClkReset := false
      crcEnable := false
      enableCnt := false
      dataEnable := false
      nEnWEnable := false
      startTimeout := 0
      lineDelayCnt := if s.startLineDelayCnt then s.lineDelayCnt + 1 else 0 }
  if bissSck s then s'
  else if !i.bissDat then
    { s' with dataCnt := 0, timeoutCnt := 0, smData := .ack, startLineDelayCnt := false }
  else if lineDelay ≤ s.lineDelayCnt then lost s'
  else { s' with startLineDelayCnt := true }

def ackStep (s : State) (i : Input) : State :=
  let s' := { s with lineDelayCnt := 0 }
  if sckRisingEdge s then if !i.bissDat then { s' with smData := .start } else lost s' else s'

def startStep (s : State) (i : Input) : State :=
  let s' := { s with lineDelayCnt := 0 }
  if s.startTimeout = maxStartTimeout then lost { s' with startTimeout := 0 }
  else if sckRisingEdge s && i.bissDat then
    { s' with crcReset := true, smData := .zero, startTimeout := 0 }
  else { s' with startTimeout := s.startTimeout + 1 }

def zeroStep (s : State) (i : Input) : State :=
  let s' := { s with lineDelayCnt := 0 }
  if sckRisingEdge s then
    if !i.bissDat then
      { s' with crcReset := false, enableCnt := true, dataEnable := true, smData := .data }
    else lost s'
  else s'

def dataStep (s : State) (i : Input) : State :=
  let s' := { s with lineDelayCnt := 0 }
  if sckRisingEdge s then
    { s' with
      dataCnt := s.dataCnt + 1
      dataEnable := if s.dataCnt = i.bits - 1 then false else s.dataEnable
      nEnWEnable := if s.dataCnt = i.bits - 1 then true else s.nEnWEnable
      smData := if s.dataCnt = i.bits then .nEnW else .data }
  else s'

def nEnWStep (s : State) (i : Input) : State :=
  let s' := { s with lineDelayCnt := 0 }
  if sckRisingEdge s then
    { s' with
      dataCnt := s.dataCnt + 1
      nEnWEnable := if s.dataCnt = i.bits + uStatusBits - 1 then false else s.nEnWEnable
      crcEnable := if s.dataCnt = i.bits + uStatusBits - 1 then true else s.crcEnable
      smData := if s.dataCnt = i.bits + uStatusBits then .crc else .nEnW }
  else s'

def crcStep (s : State) (i : Input) : State :=
  let s' := { s with lineDelayCnt := 0 }
  if sckRisingEdge s then
    { s' with
      dataCnt := s.dataCnt + 1
      crcEnable := if s.dataCnt = i.bits + uStatusBits + uCrcBits - 1 then false else s.crcEnable
      smData := if s.dataCnt = i.bits + uStatusBits + uCrcBits - 1 then .timeout else .crc }
  else s'

def timeoutStep (s : State) : State :=
  let s' := { s with lineDelayCnt := 0, enableCnt := false, timeoutCnt := s.timeoutCnt + 1 }
  if s.timeoutCnt = timeoutLimit then
    { s' with smData := .synch, linkUp := true, startLineDelayCnt := false }
  else s'

/-- `ps_stat`. -/
def statStep (s : State) (i : Input) : State :=
  if i.reset then
    { s with
      crcReset := false
      bissClkReset := true
      crcEnable := false
      enableCnt := false
      dataEnable := false
      nEnWEnable := false
      startTimeout := 0
      dataCnt := 0
      timeoutCnt := 0
      linkUp := false
      lineDelayCnt := 0
      startLineDelayCnt := false
      smData := .synch }
  else
    match s.smData with
    | .synch => synchStep s i
    | .ack => ackStep s i
    | .start => startStep s i
    | .zero => zeroStep s i
    | .data => dataStep s i
    | .nEnW => nEnWStep s i
    | .crc => crcStep s i
    | .timeout => timeoutStep s

structure Outputs where
  health : BitVec 32
  posn : BitVec 32
  posnValid : Bool
  linkUpCrcNEbit : Bool

/-- The check of a frame at the strobe of its code. -/
def check (s : State) (i : Input) : Outputs :=
  if i.reset then ⟨2, s.posn, false, false⟩
  else if !s.linkUp then ⟨2, s.posn, false, s.linkUpCrcNEbit⟩
  else if s.shifterCrc.dataValid then
    if s.shifterCrc.dataO ≠ BissCrc.out s.crcCalc then ⟨3, s.posn, false, false⟩
    else if !s.shifterNEnW.dataO.getLsbD 1 then ⟨4, s.posn, false, false⟩
    else ⟨0, signExtended i.bits.toNat s.shifterData.dataO, true, true⟩
  else ⟨s.health, s.posn, false, s.linkUpCrcNEbit⟩

def shifterInput (s : State) (i : Input) (encoding : Encoding) (enable : Bool) :
    ShifterIn.Input where
  reset := i.reset
  encoding := encoding
  enable := enable
  clock := sckRisingEdge s
  data := i.bissDat

/-- One rising clock edge. -/
def step (s : State) (i : Input) : State :=
  { statStep s i with
    framePresc := Prescaler.step s.framePresc i.reset i.framePeriod
    clockTrain := BissClockGen.step deadPeriod s.clockTrain
      { reset := i.reset || s.bissClkReset
        n := uStartZero + i.bits - 1 + uStatusBits + uCrcBits
        clkPeriod := i.clkPeriod
        start := s.framePresc.pulse
        enableCnt := s.enableCnt }
    bissSckPrev := bissSck s
    crcCalc := BissCrc.step s.crcCalc (i.reset || s.crcReset) i.bissDat
      ((s.dataEnable || s.nEnWEnable) && sckRisingEdge s)
    shifterData := ShifterIn.step s.shifterData (shifterInput s i i.encoding s.dataEnable)
    shifterNEnW := ShifterIn.step s.shifterNEnW (shifterInput s i .unsignedBinary s.nEnWEnable)
    shifterCrc := ShifterIn.step s.shifterCrc (shifterInput s i .unsignedBinary s.crcEnable)
    health := (check s i).health
    posn := (check s i).posn
    posnValid := (check s i).posnValid
    linkUpCrcNEbit := (check s i).linkUpCrcNEbit }

end BissMaster

end Fpga
