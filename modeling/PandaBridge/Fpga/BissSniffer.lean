import PandaBridge.Fpga.BissMaster

/-! The BiSS sniffer, which listens to the clock and the data of a link between others. -/
namespace Fpga.BissSniffer

/-- `SYNCPERIOD`: 5 us. -/
def syncPeriod : Nat := 125 * 5

inductive Fsm
  | idle
  | ack
  | start
  | waitZero
  | dataRange
  | timeout
  deriving DecidableEq

def uStatusBits : BitVec 8 := 2
def uCrcBits : BitVec 8 := 6

structure Input where
  reset : Bool
  encoding : Encoding
  bits : BitVec 8
  ssiSck : Bool
  ssiDat : Bool

structure State where
  fsm : Fsm
  bissFrame : Bool
  linkUpO : Bool
  dataCount : BitVec 8
  dataValid : Bool
  nErrorValid : Bool
  crcValid : Bool
  serialClockPrev : Bool
  serialDataPrev : Bool
  linkDetect : SerialLinkDetect.State
  dataIn : ShifterIn.State 32
  nErrorIn : ShifterIn.State 2
  crcIn : ShifterIn.State 6
  crcCalc : BitVec 6
  health : BitVec 32
  posn : BitVec 32

/-- The registers before the first clock edge. -/
def State.boot : State where
  fsm := .idle
  bissFrame := false
  linkUpO := false
  dataCount := 0
  dataValid := false
  nErrorValid := false
  crcValid := false
  serialClockPrev := false
  serialDataPrev := false
  linkDetect := ⟨false, 0, false⟩
  dataIn := ⟨0, false, 0, false⟩
  nErrorIn := ⟨0, false, 0, false⟩
  crcIn := ⟨0, false, 0, false⟩
  crcCalc := 0
  health := 0
  posn := 0

/-- The internal reset, also when the link is down. -/
def reset (s : State) (i : Input) : Bool := i.reset || !s.linkDetect.linkUp

def serialClockRise (s : State) (i : Input) : Bool := i.ssiSck && !s.serialClockPrev

def serialDataRise (s : State) (i : Input) : Bool := i.ssiDat && !s.serialDataPrev

/-- `DATA_BITS`. -/
def dataBits (i : Input) : BitVec 8 := i.bits + uStatusBits + uCrcBits

def fsmNext (s : State) (i : Input) : Fsm :=
  match s.fsm with
  | .idle => if !i.ssiSck && !i.ssiDat then .ack else .idle
  | .ack => if serialClockRise s i && !i.ssiDat then .start else .ack
  | .start => if serialClockRise s i && i.ssiDat then .waitZero else .start
  | .waitZero => if serialClockRise s i && !i.ssiDat then .dataRange else .waitZero
  | .dataRange => if s.dataCount = dataBits i then .timeout else .dataRange
  | .timeout => if serialDataRise s i then .idle else .timeout

/-- The state machine. -/
def fsmStep (s : State) (i : Input) : State :=
  if reset s i then { s with fsm := .idle, bissFrame := false, linkUpO := false }
  else
    { s with
      fsm := fsmNext s i
      bissFrame :=
        if s.fsm = .idle ∧ i.ssiSck = false then true
        else if s.fsm = .timeout then false
        else s.bissFrame
      linkUpO := if s.fsm = .idle ∧ i.ssiSck = false then true else s.linkUpO }

structure Flags where
  dataCount : BitVec 8
  dataValid : Bool
  nErrorValid : Bool
  crcValid : Bool

/-- The flags for the parts of the data range. -/
def flags (s : State) (i : Input) : Flags :=
  if reset s i then ⟨0, false, false, false⟩
  else if s.fsm = .dataRange then
    { dataCount := if serialClockRise s i then s.dataCount + 1 else s.dataCount
      dataValid := decide (s.dataCount ≤ i.bits - 1)
      nErrorValid :=
        !decide (s.dataCount ≤ i.bits - 1) && decide (s.dataCount ≤ i.bits + uStatusBits - 1)
      crcValid :=
        !decide (s.dataCount ≤ i.bits - 1) && !decide (s.dataCount ≤ i.bits + uStatusBits - 1) }
  else ⟨0, false, false, false⟩

def shifterInput (s : State) (i : Input) (encoding : Encoding) (enable : Bool) :
    ShifterIn.Input where
  reset := reset s i
  encoding := encoding
  enable := enable
  clock := serialClockRise s i
  data := i.ssiDat

/-- The check of a frame at the strobe of its code. -/
def check (s : State) (i : Input) : BitVec 32 × BitVec 32 :=
  if i.reset then (2, s.posn)
  else if !s.linkDetect.linkUp then (2, s.posn)
  else if s.crcIn.dataValid then
    if s.crcIn.dataO ≠ BissCrc.out s.crcCalc then (3, s.posn)
    else if !s.nErrorIn.dataO.getLsbD 1 then (4, s.posn)
    else (0, signExtended i.bits.toNat s.dataIn.dataO)
  else (s.health, s.posn)

/-- One rising clock edge. -/
def step (s : State) (i : Input) : State :=
  { fsmStep s i with
    dataCount := (flags s i).dataCount
    dataValid := (flags s i).dataValid
    nErrorValid := (flags s i).nErrorValid
    crcValid := (flags s i).crcValid
    serialClockPrev := i.ssiSck
    serialDataPrev := i.ssiDat
    linkDetect := SerialLinkDetect.step syncPeriod s.linkDetect i.reset i.ssiSck s.bissFrame
    dataIn := ShifterIn.step s.dataIn (shifterInput s i i.encoding s.dataValid)
    nErrorIn := ShifterIn.step s.nErrorIn (shifterInput s i .unsignedBinary s.nErrorValid)
    crcIn := ShifterIn.step s.crcIn (shifterInput s i .unsignedBinary s.crcValid)
    crcCalc := BissCrc.step s.crcCalc (decide (s.fsm = .start)) i.ssiDat
      (serialClockRise s i && (s.dataValid || s.nErrorValid))
    health := (check s i).1
    posn := (check s i).2 }

end Fpga.BissSniffer
