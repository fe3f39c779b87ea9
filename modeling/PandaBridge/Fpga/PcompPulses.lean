import PandaBridge.Fpga.PcompCompare

/-! What the PCOMP block makes of a sequence of positions. -/
namespace Fpga.Pcomp

open Clocked

section
variable {run : Run step} {p : Params} {first last clock start : Nat} {dirPos fired : Bool}

/-- The block has stopped with the error of a jump. -/
def Jumped (s : State) : Prop := s.active = false ∧ s.out = false ∧ s.health = 1

/-- A pulse rises. -/
def Rose (run : Run step) (first pulse clock : Nat) : Prop :=
  (run.state clock).out = false ∧ (run.state (clock + 1)).out = true ∧
    rises run first (clock + 1) = pulse + 1

/-- As many pulses as this have fallen. -/
def Fell (run : Run step) (first pulses clock : Nat) : Prop :=
  (run.state clock).out = true ∧ (run.state (clock + 1)).out = false ∧
    falls run first (clock + 1) = pulses

/-- What the block makes of the positions: nothing before the train begins, and from there on every
pulse rises at the first sample at or beyond its crossing after the one before it fell, unless that
sample is at its limit, and falls at the first later sample that is a width beyond. A train that
begins with its first pulse has that rise at once. -/
structure Compares (run : Run step) (p : Params) (dirPos fired : Bool) (first start last : Nat) :
    Prop where
  low : ∀ clock, first ≤ clock → clock ≤ start → (run.state clock).out = false
  begun : fired = true → Rose run first 0 start
  rising : ∀ pulse since clock, (pulse = 0 ∧ fired = false ∧ since = start ∨
      start < since ∧ Fell run first pulse since ∧ (run.state (since + 1)).active = true) →
    Next (fun clock => p.riseAt dirPos pulse ≤ along dirPos (sample run p first clock))
      since clock → clock < last →
    (∀ tick, since < tick → tick ≤ clock →
      (run.state tick).out = false ∧ (run.state tick).active = true) ∧
    if along dirPos (sample run p first clock) < p.riseLimit dirPos pulse then
      Rose run first pulse clock
    else Jumped (run.state (clock + 1))
  falling : ∀ pulse since clock, start ≤ since → Rose run first pulse since →
    Next (fun clock => p.fallAt dirPos pulse ≤ along dirPos (sample run p first clock))
      since clock → clock < last →
    (∀ tick, since < tick → tick ≤ clock →
      (run.state tick).out = true ∧ (run.state tick).active = true) ∧
    Fell run first (pulse + 1) clock ∧
    if pulse + 1 = p.pulses.toNat then
      (run.state (clock + 1)).active = false ∧ (run.state (clock + 1)).health = 0
    else if p.riseAt dirPos (pulse + 1) ≤ along dirPos (sample run p first clock) then
      Jumped (run.state (clock + 1))
    else (run.state (clock + 1)).active = true
  produced : ∀ clock, first < clock → clock ≤ last →
    (run.state clock).pulseCounter.toNat = rises run first clock
  limit : p.pulses ≠ 0 → rises run first last ≤ p.pulses.toNat
  ends : ∀ clock, start < clock → clock < last → (run.state clock).active = true →
    (run.state (clock + 1)).active = false →
    Jumped (run.state (clock + 1)) ∨
      (run.state (clock + 1)).health = 0 ∧ falls run first (clock + 1) = p.pulses.toNat
  stops : ∀ clock, start < clock → clock < last → (run.state clock).active = true →
    p.More (falls run first clock + 1) →
    p.riseAt dirPos (falls run first clock + 1) ≤ along dirPos (sample run p first clock) →
    Jumped (run.state (clock + 1))
  healthy : Small run p first last → ∀ clock, first < clock → clock ≤ last →
    (run.state clock).health = 0

namespace Train

variable (h : Train run p dirPos fired first start last)

include h

end Train

end

/-! ### A position that skips a pulse -/

def skipParams : Params where
  preStart := 0
  start := 4
  width := 2
  step := 5
  pulses := 0
  relative := 0
  dir := 0

/-- The block is enabled at 9, goes below its start, makes a pulse and then jumps over the next. -/
def skipping : Run step := .ofInputs step .boot fun clock =>
  ⟨decide (1 ≤ clock), [9, 9, 1, 5, 7, 8].getD clock 11, skipParams⟩

def deadbandParams : Params := { skipParams with preStart := -10 }

/-- The position stays behind the second pulse, where a negative distance lets the train begin. -/
def resting : Run step := .ofInputs step .boot fun clock =>
  ⟨decide (1 ≤ clock), 9, deadbandParams⟩

end Fpga.Pcomp
