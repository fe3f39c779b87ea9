import PandaBridge.Fpga.SerialParts

/-! The BiSS slave, which sends a position with its check code on the clock of a master. -/
namespace Fpga.BissSlave

inductive SmData
  | synch
  | ack
  | start
  | zero
  | data
  | nEnW
  | crc
  | stop
  | timeout
  deriving DecidableEq

def nEnWSize : BitVec 8 := 2
def crcSize : BitVec 8 := 6
def timeoutLimit : BitVec 12 := 2500
def maxTimeout : BitVec 13 := 5000

structure Input where
  reset : Bool
  encoding : Encoding
  bits : BitVec 8
  enable : Bool
  generatorError : Bool
  posn : BitVec 32
  bissSck : Bool

structure State where
  smData : SmData
  dataEnable : Bool
  nEnWEnable : Bool
  nEnW : BitVec 2
  bissSckPrev : Bool
  calcEnable : Bool
  crcReset : Bool
  bissDat : Bool
  posnLatched : BitVec 32
  crc : BitVec 6
  dataCnt : BitVec 8
  timeoutCnt : BitVec 12
  sckTimeoutCnt : BitVec 13
  health : BitVec 32

/-- The registers before the first clock edge. -/
def State.boot : State where
  smData := .synch
  dataEnable := false
  nEnWEnable := false
  nEnW := 0
  bissSckPrev := false
  calcEnable := false
  crcReset := true
  bissDat := true
  posnLatched := 0
  crc := 0
  dataCnt := 0
  timeoutCnt := 0
  sckTimeoutCnt := 0
  health := 0

def sckRisingEdge (s : State) (i : Input) : Bool := !s.bissSckPrev && i.bissSck

/-- All bits of a frame: data, status and check code. -/
def frameCount (i : Input) : BitVec 8 := i.bits + nEnWSize + crcSize

/-- Without a clock from the master for too long the frame is given up. -/
def resync (s : State) (i : Input) : State :=
  { s with
    bissDat := true
    crcReset := true
    dataEnable := false
    nEnWEnable := false
    dataCnt := frameCount i
    smData := .synch
    sckTimeoutCnt := maxTimeout }

/-- A state of the frame: what it does at a rising edge of the serial clock. -/
def onEdge (s : State) (i : Input) (next : State → State) : State :=
  if sckRisingEdge s i then { next s with sckTimeoutCnt := maxTimeout, health := 0 }
  else if s.sckTimeoutCnt = 0 then { resync s i with health := 1 }
  else { s with sckTimeoutCnt := s.sckTimeoutCnt - 1 }

/-- The data bit that is sent at a count. -/
def dataBit (s : State) (i : Input) : Bool :=
  if i.encoding.isBinary then s.posnLatched.getLsbD (s.dataCnt - 9).toNat
  else if s.dataCnt = frameCount i then s.posnLatched.getLsbD (s.dataCnt - 9).toNat
  else s.posnLatched.getLsbD (s.dataCnt - 9).toNat ^^ s.posnLatched.getLsbD (s.dataCnt - 8).toNat

def ackEdge (s : State) : State := { s with crcReset := false, bissDat := false, smData := .start }

def startEdge (s : State) : State := { s with bissDat := true, smData := .zero }

def zeroEdge (i : Input) (s : State) : State :=
  { s with bissDat := false, dataEnable := true, smData := .data, posnLatched := i.posn }

def dataEdge (i : Input) (s : State) : State :=
  { s with
    dataCnt := s.dataCnt - 1
    bissDat := dataBit s i
    dataEnable := if s.dataCnt = 9 then false else s.dataEnable
    nEnWEnable := if s.dataCnt = 9 then true else s.nEnWEnable
    smData := if s.dataCnt = 9 then .nEnW else .data }

def nEnWEdge (s : State) : State :=
  { s with
    dataCnt := s.dataCnt - 1
    bissDat := s.nEnW.getLsbD (s.dataCnt - 7).toNat
    nEnWEnable := if s.dataCnt = 7 then false else s.nEnWEnable
    smData := if s.dataCnt = 7 then .crc else .nEnW }

def crcEdge (s : State) : State :=
  { s with
    dataCnt := s.dataCnt - 1
    bissDat := (BissCrc.out s.crc).getLsbD (s.dataCnt - 1).toNat
    smData := if s.dataCnt = 1 then .stop else .crc }

def stopEdge (s : State) : State := { s with bissDat := false, smData := .timeout }

/-- `ps_case`. -/
def caseStep (s : State) (i : Input) : State :=
  if i.reset then
    { s with
      bissDat := true
      dataEnable := false
      nEnWEnable := false
      crcReset := true
      posnLatched := i.posn
      dataCnt := frameCount i
      smData := .synch
      sckTimeoutCnt := maxTimeout
      health := 1 }
  else
    match s.smData with
    | .synch =>
      if i.enable then
        if sckRisingEdge s i then
          { s with
            crcReset := true
            dataCnt := frameCount i
            bissDat := true
            smData := .ack
            sckTimeoutCnt := maxTimeout
            health := 0 }
        else if s.sckTimeoutCnt = 0 then resync s i
        else
          { s with
            bissDat := true
            dataEnable := false
            nEnWEnable := false
            sckTimeoutCnt := s.sckTimeoutCnt - 1 }
      else resync s i
    | .ack => onEdge s i ackEdge
    | .start => onEdge s i startEdge
    | .zero => onEdge s i (zeroEdge i)
    | .data => onEdge s i (dataEdge i)
    | .nEnW => onEdge s i nEnWEdge
    | .crc => onEdge s i crcEdge
    | .stop => onEdge s i stopEdge
    | .timeout =>
      { s with
        bissDat := decide (s.timeoutCnt = timeoutLimit)
        sckTimeoutCnt := maxTimeout
        health := 0
        smData := if s.timeoutCnt = timeoutLimit then .synch else .timeout }

/-- `ps_timeout`. -/
def timeoutStep (s : State) : BitVec 12 :=
  match s.smData with
  | .synch => 0
  | .timeout => if s.timeoutCnt ≠ timeoutLimit then s.timeoutCnt + 1 else s.timeoutCnt
  | _ => s.timeoutCnt

/-- One rising clock edge. -/
def step (s : State) (i : Input) : State :=
  { caseStep s i with
    nEnW := BitVec.ofBool (!i.generatorError) ++ 1#1
    bissSckPrev := i.bissSck
    timeoutCnt := timeoutStep s
    calcEnable := (s.dataEnable || s.nEnWEnable) && sckRisingEdge s i
    crc := BissCrc.step s.crc (i.reset || s.crcReset) s.bissDat s.calcEnable }

end Fpga.BissSlave
