import PandaBridge.Clocked.Run
import Mathlib.Data.BitVec

/-! The PCOMP block: a position is compared with crossings that are advanced one from another, and
a state machine makes the edges of the output pulses. -/
namespace Fpga.Pcomp

/-- The parameter registers. -/
structure Params where
  preStart : BitVec 32
  start : BitVec 32
  width : BitVec 32
  step : BitVec 32
  pulses : BitVec 32
  relative : BitVec 32
  dir : BitVec 32
  deriving DecidableEq

structure Input where
  enable : Bool
  inp : BitVec 32
  params : Params

inductive Fsm where
  | waitEnable
  | waitDir
  | waitPreStart
  | waitRising
  | waitFalling
  deriving DecidableEq

structure State where
  enablePrev : Bool
  posnLatched : BitVec 32
  pulseCounter : BitVec 32
  nextCrossing : BitVec 32
  lastCrossing : BitVec 32
  dirPos : Bool
  pcompFsm : Fsm
  health : BitVec 32
  active : Bool
  out : Bool
  deriving DecidableEq

def State.boot : State where
  enablePrev := false
  posnLatched := 0
  pulseCounter := 0
  nextCrossing := 0
  lastCrossing := 0
  dirPos := false
  pcompFsm := .waitEnable
  health := 0
  active := false
  out := false

def cPositive : BitVec 2 := 0
def cEither : BitVec 2 := 2
def cErrPjump : BitVec 2 := 1
def cErrGuess : BitVec 2 := 2

def enableRise (s : State) (i : Input) : Bool := i.enable && !s.enablePrev

def enableFall (s : State) (i : Input) : Bool := !i.enable && s.enablePrev

/-! The parameters, with the sign of the direction. -/

def Params.isRelative (p : Params) : Bool := p.relative.getLsbD 0

def Params.dirBits (p : Params) : BitVec 2 := p.dir.setWidth 2

def Params.pulseStart (p : Params) (dirPos : Bool) : BitVec 32 :=
  if p.isRelative = false ∨ dirPos = true then p.start else -p.start

def Params.pulseWidth (p : Params) (dirPos : Bool) : BitVec 32 :=
  if dirPos then p.width else -p.width

def Params.pulseStep (p : Params) (dirPos : Bool) : BitVec 32 :=
  if dirPos then p.step else -p.step

def Params.guessDirThresh (p : Params) : BitVec 32 := p.start + p.preStart

/-! The position and its comparisons. All of them are signed. -/

def posn (s : State) (i : Input) : BitVec 32 :=
  if i.params.isRelative then i.inp - s.posnLatched else i.inp

def exceededPrestart (s : State) (i : Input) : Bool :=
  s.dirPos && (posn s i).slt (i.params.pulseStart s.dirPos - i.params.preStart) ||
    !s.dirPos && (i.params.pulseStart s.dirPos + i.params.preStart).slt (posn s i)

def reachedLastPos (s : State) (i : Input) : Bool :=
  s.lastCrossing.sle s.nextCrossing && s.nextCrossing.sle (posn s i)

def reachedLastNeg (s : State) (i : Input) : Bool :=
  s.nextCrossing.slt s.lastCrossing && (posn s i).sle s.nextCrossing

def reachedLastCrossing (s : State) (i : Input) : Bool := reachedLastPos s i || reachedLastNeg s i

def tooFarCrossing (s : State) (i : Input) : BitVec 32 :=
  s.lastCrossing + i.params.pulseStep s.dirPos

def tooFarPos (s : State) (i : Input) : Bool :=
  s.lastCrossing.sle s.nextCrossing && s.nextCrossing.sle (tooFarCrossing s i) &&
    (tooFarCrossing s i).sle (posn s i)

def tooFarNeg (s : State) (i : Input) : Bool :=
  s.nextCrossing.sle s.lastCrossing && (tooFarCrossing s i).sle s.nextCrossing &&
    (posn s i).sle (tooFarCrossing s i)

def jumpedMoreThanStep (s : State) (i : Input) : Bool := tooFarPos s i || tooFarNeg s i

/-! The pulse generator, one function for each state. -/

/-- The block stops with an error code in the low bits of the health. -/
def fail (s : State) (code : BitVec 2) : State :=
  { s with
    active := false
    health := s.health.extractLsb' 2 30 ++ code
    pcompFsm := .waitEnable }

def waitEnable (s : State) (i : Input) : State :=
  if enableRise s i then
    if i.params.dirBits = cEither then
      { s with active := true, health := 0, pulseCounter := 0, pcompFsm := .waitDir }
    else
      let positive : Bool := i.params.dirBits = cPositive
      if i.params.isRelative ∧ i.params.start = 0 ∧ i.params.preStart = 0 then
        -- the first pulse is produced right away
        { s with
          active := true
          health := 0
          pulseCounter := 1
          dirPos := positive
          nextCrossing := i.params.pulseWidth positive
          lastCrossing := 0
          out := true
          pcompFsm := .waitFalling }
      else
        { s with
          active := true
          health := 0
          pulseCounter := 0
          dirPos := positive
          nextCrossing := i.params.pulseWidth positive
          pcompFsm := .waitPreStart }
  else s

def waitDir (s : State) (i : Input) : State :=
  if i.params.isRelative then
    if (0 : BitVec 32).slt i.params.guessDirThresh then
      -- the absolute value of the least number is that number
      if i.params.guessDirThresh.sle (posn s i).abs then
        if (0 : BitVec 32).slt i.params.preStart then
          { s with dirPos := !(0 : BitVec 32).slt (posn s i), pcompFsm := .waitPreStart }
        else
          let positive := (0 : BitVec 32).slt (posn s i)
          let first := if positive then i.params.start else -i.params.start
          { s with
            dirPos := positive
            lastCrossing := first
            nextCrossing := first + i.params.pulseWidth positive
            out := true
            active := true
            pulseCounter := s.pulseCounter + 1
            pcompFsm := .waitFalling }
      else s
    else fail s cErrGuess
  else if i.params.start ≠ posn s i then
    { s with dirPos := !i.params.start.slt (posn s i), pcompFsm := .waitPreStart }
  else s

def waitPreStart (s : State) (i : Input) : State :=
  if exceededPrestart s i then
    { s with
      lastCrossing := if s.dirPos then i.params.pulseStart s.dirPos - 1
        else i.params.pulseStart s.dirPos + 1
      nextCrossing := i.params.pulseStart s.dirPos
      pcompFsm := .waitRising }
  else s

def waitRising (s : State) (i : Input) : State :=
  if reachedLastCrossing s i then
    if jumpedMoreThanStep s i then fail s cErrPjump
    else
      { s with
        out := true
        pulseCounter := s.pulseCounter + 1
        lastCrossing := s.nextCrossing
        nextCrossing := s.nextCrossing + i.params.pulseWidth s.dirPos
        pcompFsm := .waitFalling }
  else s

def waitFalling (s : State) (i : Input) : State :=
  if reachedLastCrossing s i then
    if s.pulseCounter = i.params.pulses then
      { s with out := false, active := false, pcompFsm := .waitEnable }
    else if jumpedMoreThanStep s i then fail { s with out := false } cErrPjump
    else
      { s with
        out := false
        lastCrossing := s.nextCrossing
        nextCrossing := s.lastCrossing + i.params.pulseStep s.dirPos
        pcompFsm := .waitRising }
  else s

def outpGen (s : State) (i : Input) : State :=
  if enableFall s i then { s with out := false, active := false, pcompFsm := .waitEnable }
  else
    match s.pcompFsm with
    | .waitEnable => waitEnable s i
    | .waitDir => waitDir s i
    | .waitPreStart => waitPreStart s i
    | .waitRising => waitRising s i
    | .waitFalling => waitFalling s i

/-- One rising clock edge. -/
def step (s : State) (i : Input) : State :=
  { outpGen s i with
    enablePrev := i.enable
    posnLatched := if enableRise s i then i.inp else s.posnLatched }

end Fpga.Pcomp
