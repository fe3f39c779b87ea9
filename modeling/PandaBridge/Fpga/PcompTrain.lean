import PandaBridge.Fpga.Pcomp

/-! The crossings of a pulse train over the integers, and what the comparisons of the PCOMP block
say of them. Positions and crossings are taken along the direction of the comparison. -/
namespace Fpga.Pcomp

/-- A position along the direction of the comparison. -/
def along (dirPos : Bool) (position : Int) : Int := if dirPos then position else -position

/-- A crossing that the registers can hold. -/
def InRange (dirPos : Bool) (crossing : Int) : Prop :=
  -2 ^ 31 ≤ along dirPos crossing ∧ along dirPos crossing < 2 ^ 31

instance (dirPos : Bool) (crossing : Int) : Decidable (InRange dirPos crossing) :=
  inferInstanceAs (Decidable (_ ∧ _))

/-- A register that holds a crossing. -/
def Holds (word : BitVec 32) (dirPos : Bool) (crossing : Int) : Prop :=
  word.toInt = along dirPos crossing

section
variable {dirPos : Bool} {word next last posn : BitVec 32} {crossing distance low high at' : Int}

end

/-! ### The train -/

/-- The first crossing along the direction. In the other direction a relative start is mirrored. -/
def Params.origin (p : Params) (dirPos : Bool) : Int :=
  if p.isRelative then p.start.toInt else along dirPos p.start.toInt

/-- Where a pulse rises. -/
def Params.riseAt (p : Params) (dirPos : Bool) (pulse : Nat) : Int :=
  p.origin dirPos + pulse * p.step.toInt

/-- Where a pulse falls. -/
def Params.fallAt (p : Params) (dirPos : Bool) (pulse : Nat) : Int :=
  p.riseAt dirPos pulse + p.width.toInt

/-- The rising edge of a pulse is given up from here on: for the first pulse one short of the next
crossing, for the others where the pulse would fall. -/
def Params.riseLimit (p : Params) (dirPos : Bool) (pulse : Nat) : Int :=
  if pulse = 0 then p.riseAt dirPos 1 - 1 else p.fallAt dirPos pulse

/-- There is a pulse of this number. -/
def Params.More (p : Params) (pulse : Nat) : Prop := pulse < p.pulses.toNat ∨ p.pulses = 0

/-- The pulses are shorter than the step. -/
structure Params.Regular (p : Params) : Prop where
  width : 0 < p.width.toInt
  step : p.width.toInt < p.step.toInt

section
variable {p : Params} {dirPos : Bool} {pulse : Nat}

end

/-! ### The phases of the state machine -/

/-- The block waits for a rising edge. -/
structure Waiting (p : Params) (dirPos : Bool) (pulse : Nat) (s : State) : Prop where
  fsm : s.pcompFsm = .waitRising
  direction : s.dirPos = dirPos
  active : s.active = true
  out : s.out = false
  health : s.health = 0
  counter : s.pulseCounter.toNat = pulse
  next : Holds s.nextCrossing dirPos (p.riseAt dirPos pulse)
  last : Holds s.lastCrossing dirPos (p.riseLimit dirPos pulse - p.step.toInt)

/-- The output is high. -/
structure Shining (p : Params) (dirPos : Bool) (pulse : Nat) (s : State) : Prop where
  fsm : s.pcompFsm = .waitFalling
  direction : s.dirPos = dirPos
  active : s.active = true
  out : s.out = true
  health : s.health = 0
  counter : s.pulseCounter.toNat = pulse + 1
  next : Holds s.nextCrossing dirPos (p.fallAt dirPos pulse)
  last : Holds s.lastCrossing dirPos (p.riseAt dirPos pulse)

/-- The block has stopped. -/
structure Stopped (health : BitVec 32) (s : State) : Prop where
  fsm : s.pcompFsm = .waitEnable
  active : s.active = false
  out : s.out = false
  health : s.health = health

/-- The block before its first crossing. -/
structure Preparing (fsm : Fsm) (s : State) : Prop where
  fsm : s.pcompFsm = fsm
  active : s.active = true
  out : s.out = false
  health : s.health = 0
  counter : s.pulseCounter = 0

section
variable {p : Params} {dirPos : Bool} {pulse : Nat} {s : State} {i : Input} {position : Int}

end

end Fpga.Pcomp
