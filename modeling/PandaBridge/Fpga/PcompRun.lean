import PandaBridge.Fpga.PcompTrain
import Mathlib.Algebra.Order.Group.Abs
import Mathlib.Order.Nat
import Mathlib.Data.Nat.Count

/-! Pulse trains of the PCOMP block over a whole enabled period. -/
namespace Fpga.Pcomp

open Clocked

/-- An enabled period with settled parameters, from the rising edge of the enable on. -/
structure Enabled (run : Run step) (p : Params) (first last : Nat) : Prop where
  rise : enableRise (run.state first) (run.input first) = true
  high : ∀ clock, first ≤ clock → clock < last → (run.input clock).enable = true
  settled : ∀ clock, first ≤ clock → clock < last → (run.input clock).params = p

/-- The position of the input, taken from the one at the rising edge of the enable when it is
relative. -/
def sample (run : Run step) (p : Params) (first clock : Nat) : Int :=
  if p.isRelative then ((run.input clock).inp - (run.input first).inp).toInt
  else (run.input clock).inp.toInt

/-- A position that is far enough from where it was to tell the direction. The least position has
no absolute value in the registers. -/
def FarEnough (distance position : Int) : Prop :=
  distance ≤ position ∨ position ≤ -distance ∧ -2 ^ 31 < position

/-- The first pulse is produced as soon as the block is enabled. -/
def Params.Immediate (p : Params) : Prop :=
  p.dirBits ≠ cEither ∧ p.isRelative = true ∧ p.start = 0 ∧ p.preStart = 0

/-- The direction is known after a clock: it is given, or the position tells it. -/
inductive Found (p : Params) (position : Nat → Int) (first : Nat) : Nat → Bool → Prop where
  | given (hDir : p.dirBits ≠ cEither) : Found p position first first (p.dirBits = cPositive)
  | sides {clock : Nat} (hDir : p.dirBits = cEither) (hAbsolute : p.isRelative = false)
      (hNext : Next (fun clock => position clock ≠ p.start.toInt) first clock) :
      Found p position first clock (position clock < p.start.toInt)
  | moved {clock : Nat} (hDir : p.dirBits = cEither) (hRelative : p.isRelative = true)
      (hPre : 0 < p.preStart.toInt) (hSome : 0 < p.start.toInt + p.preStart.toInt)
      (hRange : p.start.toInt + p.preStart.toInt < 2 ^ 31)
      (hNext : Next (fun clock => FarEnough (p.start.toInt + p.preStart.toInt) (position clock))
        first clock) : Found p position first clock (position clock ≤ 0)

/-- The train begins after a clock: the block waits for the first crossing once the position has
been before the start, or the first pulse has risen already. -/
inductive Begins (p : Params) (position : Nat → Int) (first : Nat) : Nat → Bool → Bool → Prop where
  | preStart {known clock : Nat} {dirPos : Bool} (hNot : ¬ p.Immediate)
      (hFound : Found p position first known dirPos)
      (hRange : InRange dirPos (p.origin dirPos - p.preStart.toInt))
      (hNext : Next (fun clock =>
        along dirPos (position clock) < p.origin dirPos - p.preStart.toInt) known clock) :
      Begins p position first clock dirPos false
  | atOnce (hNow : p.Immediate) : Begins p position first first (p.dirBits = cPositive) true
  | guessed {clock : Nat} (hDir : p.dirBits = cEither) (hRelative : p.isRelative = true)
      (hPre : p.preStart = 0) (hSome : 0 < p.start.toInt)
      (hNext : Next (fun clock => FarEnough p.start.toInt (position clock)) first clock) :
      Begins p position first clock (0 < position clock) true

/-- The rising edges of the output from a clock on. -/
def rises (run : Run step) (first last : Nat) : Nat :=
  Nat.count (fun clock => first ≤ clock ∧ (run.state clock).out = false ∧
    (run.state (clock + 1)).out = true) last

/-- The falling edges of the output from a clock on. -/
def falls (run : Run step) (first last : Nat) : Nat :=
  Nat.count (fun clock => first ≤ clock ∧ (run.state clock).out = true ∧
    (run.state (clock + 1)).out = false) last

/-- No crossing leaves the range of the registers: none of the pulses to be produced, or, when
their number is not limited, none of those so far and of the next one. -/
def Fits (run : Run step) (p : Params) (dirPos : Bool) (first last : Nat) : Prop :=
  ∀ pulse, pulse < p.pulses.toNat ∨ p.pulses = 0 ∧ pulse ≤ falls run first last →
    InRange dirPos (p.riseAt dirPos pulse) ∧ InRange dirPos (p.fallAt dirPos pulse)

section
variable {run : Run step} {p : Params} {first last clock : Nat} {dirPos fired : Bool}

/-! ### Before the first crossing -/

/-- The output is high in a pulse only, and the block is idle whenever it is not enabled. -/
structure Consistent (s : State) : Prop where
  active : s.pcompFsm ≠ .waitEnable → s.active = true
  out : s.pcompFsm ≠ .waitFalling → s.out = false
  idle : s.enablePrev = false → s.pcompFsm = .waitEnable

section
variable {s : State} {i : Input} {position : Int}

end

end

end Fpga.Pcomp
