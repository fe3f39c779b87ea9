import PandaBridge.Fpga.Quadrature
import PandaBridge.Fpga.SequencerTable

/-! The SEQ block: the state machine that plays the frames of the ring table. What the client of the
DMA engine says is a port. -/
namespace Fpga

namespace SequencerPrescaler

def pulse (clkCnt period : BitVec 32) : Bool := PrescalerPos.pulse clkCnt period

/-- One rising clock edge of the counter. -/
def step (clkCnt period : BitVec 32) (reset : Bool) : BitVec 32 :=
  PrescalerPos.step clkCnt period reset

end SequencerPrescaler

namespace Seq

/-! ### Trigger options -/

def immediately : BitVec 4 := 0
def bita0 : BitVec 4 := 1
def bita1 : BitVec 4 := 2
def bitb0 : BitVec 4 := 3
def bitb1 : BitVec 4 := 4
def bitc0 : BitVec 4 := 5
def bitc1 : BitVec 4 := 6
def posaGtPosition : BitVec 4 := 7
def posaLtPosition : BitVec 4 := 8
def posbGtPosition : BitVec 4 := 9
def posbLtPosition : BitVec 4 := 10
def poscGtPosition : BitVec 4 := 11
def poscLtPosition : BitVec 4 := 12

/-! ### Table errors -/

def tableErrorOk : BitVec 2 := 0
def tableErrorUnderrun : BitVec 2 := 1
def tableErrorOverrun : BitVec 2 := 2

/-- `SEQ_FRAMES`. -/
def seqFrames : Nat := 4096

/-- `AW` of the ring table. -/
abbrev addressWidth : Nat := 12

/-- `state_t`. -/
inductive Sm
  | unready
  | waitEnable
  | phase1
  | phase2
  | waitTrigger
  deriving DecidableEq

structure Input where
  enable : Bool
  bita : Bool
  bitb : Bool
  bitc : Bool
  posa : BitVec 32
  posb : BitVec 32
  posc : BitVec 32
  prescale : BitVec 32
  repeats : BitVec 32
  tableLength : BitVec 32
  dmaData : BitVec 32
  dmaValid : Bool
  dataLast : Bool
  /-- The register of the client, without the abort of the same clock. -/
  resetting : Bool
  overrunEvent : Bool
  streamingMode : Bool
  oneBufferMode : Bool

structure State where
  enablePrev : Bool
  seqSm : Sm
  currentFrame : SeqFrame
  currentFrameLast : Bool
  nextTs : BitVec 32
  outVal : BitVec 6
  active : Bool
  tableRepeatOut : BitVec 32
  tableLineOut : BitVec 19
  lineRepeatOut : BitVec 32
  tframeCounter : BitVec 32
  clkCnt : BitVec 32
  abortDma : Bool
  wrappingModeReset : Bool
  health : BitVec 2
  ring : SequencerRingTable.State addressWidth

/-- Registers to which the source gives no first value are cleared. -/
def State.boot : State where
  enablePrev := false
  seqSm := .unready
  currentFrame := .zero
  currentFrameLast := false
  nextTs := 0
  outVal := 0
  active := false
  tableRepeatOut := 0
  tableLineOut := 0
  lineRepeatOut := 0
  tframeCounter := 0
  clkCnt := 0
  abortDma := false
  wrappingModeReset := false
  health := 0
  ring := .boot addressWidth

section Signals

variable (s : State) (i : Input)

def enableFall : Bool := !i.enable && s.enablePrev

def enableRise : Bool := i.enable && !s.enablePrev

def tableFrames : BitVec 19 := i.tableLength.extractLsb' 2 19

def resettingDma : Bool := s.abortDma || i.resetting

def wrappingMode : Bool :=
  decide ((tableFrames i).toNat < seqFrames) && i.oneBufferMode && !resettingDma s i

/-- The reset of the ring table. -/
def ringReset : Bool := resettingDma s i || s.wrappingModeReset

def nextFrame : SeqFrame := SequencerRingTable.frameO s.ring

def nextFrameLast : Bool := SequencerRingTable.frameLastO s.ring

def frameValid : Bool := s.ring.frameValidO

end Signals

/-! ### Trigger management -/

def xnor (a b : BitVec 3) : BitVec 3 := ~~~(a ^^^ b)

/-- The input bits `c & b & a`. -/
def bits (c b a : Bool) : BitVec 3 := BitVec.ofBool c ++ BitVec.ofBool b ++ BitVec.ofBool a

def inpVal (frame : SeqFrame) (i : Input) : BitVec 3 :=
  if frame.trigger == bita0 then xnor 0b000 (bits false false i.bita)
  else if frame.trigger == bita1 then xnor 0b001 (bits false false i.bita)
  else if frame.trigger == bitb0 then xnor 0b000 (bits false i.bitb false)
  else if frame.trigger == bitb1 then xnor 0b010 (bits false i.bitb false)
  else if frame.trigger == bitc0 then xnor 0b000 (bits i.bitc false false)
  else if frame.trigger == bitc1 then xnor 0b100 (bits i.bitc false false)
  else 0b000

/-- One bit of `pos_en`, for an input with its two trigger options. -/
def posEnBit (frame : SeqFrame) (pos : BitVec 32) (gtPosition ltPosition : BitVec 4) : Bool :=
  frame.trigger == gtPosition && frame.position.sle pos ||
    frame.trigger == ltPosition && pos.sle frame.position

def posEn (frame : SeqFrame) (i : Input) : BitVec 3 :=
  bits (posEnBit frame i.posc poscGtPosition poscLtPosition)
    (posEnBit frame i.posb posbGtPosition posbLtPosition)
    (posEnBit frame i.posa posaGtPosition posaLtPosition)

def posInp (frame : SeqFrame) (i : Input) : Bool :=
  inpVal frame i == 0b111 || posEn frame i != 0b000

/-- `current_trig_valid` of the current frame, `next_trig_valid` of the next one. -/
def trigValid (frame : SeqFrame) (i : Input) : Bool :=
  frame.trigger == immediately || posInp frame i

/-! ### Ends of a phase, a line and a table -/

section Ends

variable (s : State) (i : Input)

def prescCe : Bool := SequencerPrescaler.pulse s.clkCnt i.prescale

def timeElapsed : Bool := prescCe s i && s.tframeCounter == s.nextTs - 1

def lastLineRepeat : Bool :=
  s.currentFrame.repeats != 0 && s.lineRepeatOut == s.currentFrame.repeats.setWidth 32

def lastTableLine : Bool :=
  lastLineRepeat s &&
    (i.oneBufferMode && s.tableLineOut == tableFrames i || s.currentFrameLast)

def lastTableRepeat : Bool :=
  lastTableLine s i &&
    (!i.streamingMode && i.repeats != 0 && s.tableRepeatOut == i.repeats || i.streamingMode)

def loadNext : Bool :=
  s.seqSm == .waitEnable && enableRise s i ||
    s.seqSm == .phase2 && timeElapsed s i && lastLineRepeat s && !lastTableRepeat s i

def underrunEvent : Bool := loadNext s i && !frameValid s

def errorEvent : Bool := underrunEvent s i || i.overrunEvent

def prescReset : Bool :=
  s.seqSm == .waitTrigger || s.seqSm == .waitEnable || s.seqSm == .unready || loadNext s i

end Ends

/-! ### State machine -/

def resetRepeatCount (s : State) (val : Nat) : State :=
  { s with
    tableRepeatOut := BitVec.ofNat 32 val
    tableLineOut := BitVec.ofNat 19 val
    lineRepeatOut := BitVec.ofNat 32 val }

def gotoPhase1 (s : State) (frame : SeqFrame) : State :=
  { s with nextTs := frame.time1, outVal := frame.out1, seqSm := .phase1 }

def gotoPhase2 (s : State) (frame : SeqFrame) : State :=
  { s with
    nextTs := if frame.time2 != 0 then frame.time2 else 1
    outVal := frame.out2
    seqSm := .phase2 }

def gotoFrame (s : State) (frame : SeqFrame) (triggered considerTriggers : Bool) : State :=
  if !triggered && considerTriggers then { s with seqSm := .waitTrigger }
  else if frame.time1 != 0 then gotoPhase1 s frame
  else gotoPhase2 s frame

def gotoNextState (s : State) (i : Input) (needNextFrame considerTriggers : Bool) : State :=
  if needNextFrame then
    gotoFrame { s with currentFrame := nextFrame s, currentFrameLast := nextFrameLast s }
      (nextFrame s) (trigValid (nextFrame s) i) considerTriggers
  else gotoFrame s s.currentFrame (trigValid s.currentFrame i) considerTriggers

/-- The branch of a falling ENABLE and of an error. -/
def stop (s : State) (i : Input) : State :=
  let s' := { s with
    abortDma := false, wrappingModeReset := false, outVal := 0, active := false }
  if s.seqSm != .unready && s.seqSm != .waitEnable then
    if wrappingMode s i && !errorEvent s i then
      { s' with seqSm := .waitEnable, wrappingModeReset := true }
    else { s' with seqSm := .unready, abortDma := true }
  else s'

/-- The end of phase 2. -/
def lineEnd (s : State) (i : Input) : State :=
  if lastTableRepeat s i then
    { s with
      active := false
      outVal := 0
      seqSm := if i.streamingMode then .unready else .waitEnable }
  else if lastLineRepeat s then
    let s' := { s with lineRepeatOut := 1 }
    let s'' :=
      if lastTableLine s i then
        { s' with
          tableLineOut := 1
          tableRepeatOut :=
            if i.oneBufferMode then s.tableRepeatOut + 1 else s.tableRepeatOut }
      else { s' with tableLineOut := s.tableLineOut + 1 }
    gotoNextState s'' i true true
  else gotoNextState { s with lineRepeatOut := s.lineRepeatOut + 1 } i false true

/-- The case of a state of the machine. -/
def smCase (s : State) (i : Input) : Sm → State :=
  let s' := { s with abortDma := false, wrappingModeReset := false }
  fun
  | .unready =>
      { s' with
        outVal := 0
        seqSm := if frameValid s && !resettingDma s i then .waitEnable else .unready }
  | .waitEnable =>
      if !frameValid s then { s' with seqSm := .unready }
      else if enableRise s i then
        { resetRepeatCount (gotoNextState s' i true true) 1 with active := true }
      else s'
  | .waitTrigger =>
      if trigValid s.currentFrame i then gotoNextState s' i false false else s'
  | .phase1 => if timeElapsed s i then gotoPhase2 s' s.currentFrame else s'
  | .phase2 => if timeElapsed s i then lineEnd s' i else s'

/-- `SEQ_FSM`, for the registers that it assigns. -/
def seqFsm (s : State) (i : Input) : State :=
  if enableFall s i || errorEvent s i then stop s i else smCase s i s.seqSm

/-- The counter of the prescaled clocks of a phase. -/
def nextTframeCounter (s : State) (i : Input) : BitVec 32 :=
  if prescReset s i then 0
  else if prescCe s i then
    if s.tframeCounter == s.nextTs - 1 then 0 else s.tframeCounter + 1
  else s.tframeCounter

def nextHealth (s : State) (i : Input) : BitVec 2 :=
  if errorEvent s i && s.health == 0b00 then
    if underrunEvent s i then tableErrorUnderrun
    else if i.overrunEvent then tableErrorOverrun
    else tableErrorOk
  else if s.seqSm == .waitEnable && enableRise s i then tableErrorOk
  else s.health

def ringPorts (s : State) (i : Input) : SequencerRingTable.Ports where
  reset := ringReset s i
  frameReady := loadNext s i
  wrappingMode := wrappingMode s i
  data := i.dmaData
  dataLast := i.dataLast
  dataValid := i.dmaValid

/-- One rising clock edge. -/
def step (s : State) (i : Input) : State :=
  { seqFsm s i with
    enablePrev := i.enable
    tframeCounter := nextTframeCounter s i
    clkCnt := SequencerPrescaler.step s.clkCnt i.prescale (prescReset s i)
    health := nextHealth s i
    ring := SequencerRingTable.step s.ring (ringPorts s i) }

/-! ### Block status -/

def tableLine (s : State) : BitVec 32 := s.tableLineOut.setWidth 32

def lineRepeat (s : State) : BitVec 32 := s.lineRepeatOut

def tableRepeat (s : State) : BitVec 32 := s.tableRepeatOut

end Seq

end Fpga
