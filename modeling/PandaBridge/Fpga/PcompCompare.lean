import PandaBridge.Fpga.PcompRun
import Mathlib.Algebra.Order.Group.Int

/-! What the PCOMP block makes of a sequence of positions. -/
namespace Fpga.Pcomp

open Clocked

section
variable {run : Run step} {p : Params} {first last clock start : Nat} {dirPos fired : Bool}

/-- The train has begun: the first pulse is still to rise, or has just risen. -/
def Begun (p : Params) (dirPos fired : Bool) (s : State) : Prop :=
  if fired then Shining p dirPos 0 s else Waiting p dirPos 0 s

/-! ### The train -/

/-- Where the train is, with the edges that it has made. -/
inductive Phase (p : Params) (dirPos : Bool) (rises falls : Nat) (s : State) : Prop where
  | waiting (hWaits : Waiting p dirPos falls s) (hCount : rises = falls) (hMore : p.More falls)
  | shining (hShines : Shining p dirPos falls s) (hCount : rises = falls + 1) (hMore : p.More falls)
  | stopped {health : BitVec 32} (hStopped : Stopped health s) (hCount : rises = falls)
      (hCounter : s.pulseCounter.toNat = rises)
      (hHealth : health = 1 ∧ (p.More rises ∨ rises = p.pulses.toNat) ∨
        health = 0 ∧ rises = p.pulses.toNat)

/-- A position that moves by less than both distances between edges. -/
def Small (run : Run step) (p : Params) (first last : Nat) : Prop :=
  ∀ clock, first ≤ clock → clock + 1 < last →
    |sample run p first (clock + 1) - sample run p first clock| ≤
      min p.width.toInt (p.step.toInt - p.width.toInt)

/-- What is assumed of a period and of the train in it. -/
structure Train (run : Run step) (p : Params) (dirPos fired : Bool) (first start last : Nat) :
    Prop where
  boot : run.state 0 = .boot
  regular : p.Regular
  distance : 0 ≤ p.preStart.toInt
  enabled : Enabled run p first last
  begins : Begins p (sample run p first) first start dirPos fired
  starts : start < last
  fits : Fits run p dirPos first last

namespace Train

variable (h : Train run p dirPos fired first start last)

include h

/-- No edge is left behind at a clock. -/
inductive Keeping (p : Params) (dirPos : Bool) (position : Int) (s : State) : Prop where
  | waiting {pulse : Nat} (hWaits : Waiting p dirPos pulse s)
      (hBefore : position < p.riseAt dirPos pulse)
  | shining {pulse : Nat} (hShines : Shining p dirPos pulse s)
      (hBefore : position < p.fallAt dirPos pulse)
  | ended (hStopped : Stopped 0 s)

end Train

end

end Fpga.Pcomp
