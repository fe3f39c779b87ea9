import PandaBridge.Clocked.Run

/-! The quadrature encoder, which follows a position with two Gray coded signals, and the decoder,
which counts their steps. -/
namespace Fpga

/-- The signals of a quadrature pair. -/
structure Quad where
  b : Bool
  a : Bool
  deriving DecidableEq

namespace Quad

def state0 : Quad := ⟨false, false⟩
def state1 : Quad := ⟨false, true⟩
def state2 : Quad := ⟨true, true⟩
def state3 : Quad := ⟨true, false⟩

end Quad

namespace PrescalerPos

def periodRollover (period : BitVec 32) : BitVec 32 :=
  if period.toNat < 1 then 0 else period - 1

def pulse (clkCnt period : BitVec 32) : Bool := clkCnt == periodRollover period

/-- One rising clock edge of the counter. -/
def step (clkCnt period : BitVec 32) (reset : Bool) : BitVec 32 :=
  if reset then 0 else if clkCnt == periodRollover period then 0 else clkCnt + 1

end PrescalerPos

namespace Qencoder

/-- One rising clock edge. -/
def step (quadSt : Quad) (reset quadTrans quadDir : Bool) : Quad :=
  if reset then .state0
  else if quadTrans then
    match quadSt with
    | ⟨false, false⟩ => if quadDir then .state3 else .state1
    | ⟨false, true⟩ => if quadDir then .state0 else .state2
    | ⟨true, true⟩ => if quadDir then .state1 else .state3
    | ⟨true, false⟩ => if quadDir then .state2 else .state0
  else quadSt

end Qencoder

namespace Qenc

structure Input where
  reset : Bool
  enable : Bool
  posn : BitVec 32
  qperiod : BitVec 32
  qperiodWstb : Bool

structure State where
  enable : Bool
  clkCnt : BitVec 32
  posnTracker : BitVec 32
  posnTracking : Bool
  qencDir : Bool
  qencTrans : Bool
  quadSt : Quad

def enableRise (s : State) (i : Input) : Bool := i.enable && !s.enable

def qencClk (s : State) (i : Input) : Bool := PrescalerPos.pulse s.clkCnt i.qperiod

/-- `posn_encoding`. -/
def posnEncoding (s : State) (i : Input) : State :=
  if i.reset then
    { s with posnTracker := 0, posnTracking := false, qencDir := false, qencTrans := false }
  else
    let s' :=
      if enableRise s i then
        { s with posnTracker := i.posn, posnTracking := false, qencTrans := false }
      else if s.enable && s.posnTracker != i.posn then
        if qencClk s i then
          { s with
            posnTracking := true
            qencTrans := true
            posnTracker :=
              if s.posnTracker.slt i.posn then s.posnTracker + 1 else s.posnTracker - 1 }
        else { s with posnTracking := true, qencTrans := false }
      else { s with posnTracking := false, qencTrans := false }
    { s' with qencDir := !s.posnTracker.slt i.posn }

/-- One rising clock edge. -/
def step (s : State) (i : Input) : State :=
  { posnEncoding s i with
    enable := i.enable
    clkCnt := PrescalerPos.step s.clkCnt i.qperiod i.qperiodWstb
    quadSt := Qencoder.step s.quadSt i.reset s.qencTrans s.qencDir }

end Qenc

namespace Qdecoder

structure State where
  quadStNew : Quad
  quadStOld : Quad
  quadTrans : Bool
  quadDir : Bool
  quadError : Bool

/-- What a state says after another one. -/
inductive Change
  | still
  | positive
  | negative
  | error
  deriving DecidableEq

/-- The cases of one state, between the one before it and the one after it. -/
def changeFrom (same before after old : Quad) : Change :=
  if old = same then .still
  else if old = before then .positive
  else if old = after then .negative
  else .error

def change (new old : Quad) : Change :=
  match new with
  | ⟨false, false⟩ => changeFrom .state0 .state3 .state1 old
  | ⟨false, true⟩ => changeFrom .state1 .state0 .state2 old
  | ⟨true, true⟩ => changeFrom .state2 .state1 .state3 old
  | ⟨true, false⟩ => changeFrom .state3 .state2 .state0 old

/-- One rising clock edge. The strobes clear themselves, whatever the signals are. -/
def step (s : State) (reset : Bool) (ab : Quad) : State :=
  if reset then ⟨ab, ab, false, false, false⟩
  else
    let found : Bool × Bool × Bool :=
      match change s.quadStNew s.quadStOld with
      | .still => (false, s.quadDir, s.quadError)
      | .positive => (true, false, s.quadError)
      | .negative => (true, true, s.quadError)
      | .error => (false, s.quadDir, true)
    { quadStNew := ab
      quadStOld := s.quadStNew
      quadTrans := if s.quadTrans then false else found.1
      quadDir := if s.quadDir then false else found.2.1
      quadError := if s.quadError then false else found.2.2 }

def quadReset : Bool := false

end Qdecoder

namespace Qdec

structure Input where
  linkupIncr : BitVec 32
  ab : Quad
  z : Bool
  rstOnZ : BitVec 32
  setp : BitVec 32
  setpWstb : Bool

structure State where
  homed : Bool
  quadCount : BitVec 32
  decoder : Qdecoder.State

/-- The reset of the decoder is not connected. -/
def reset : Bool := false

/-- One rising clock edge of the position counter. -/
def count (s : State) (i : Input) : Bool × BitVec 32 :=
  if reset then (false, s.quadCount)
  else if !i.linkupIncr.getLsbD 0 then (false, s.quadCount)
  else if i.rstOnZ.getLsbD 0 && i.z then (true, 0)
  else if i.setpWstb then (true, i.setp)
  else if s.decoder.quadTrans then
    if Qdecoder.quadReset then
      if !s.decoder.quadDir then (s.homed, 0) else (s.homed, 0)
    else if !s.decoder.quadDir then (s.homed, s.quadCount + 1)
    else (s.homed, s.quadCount - 1)
  else (s.homed, s.quadCount)

/-- One rising clock edge. -/
def step (s : State) (i : Input) : State where
  homed := (count s i).1
  quadCount := (count s i).2
  decoder := Qdecoder.step s.decoder reset i.ab

end Qdec

end Fpga
