import Mathlib.Order.Nat

/-! Runs of clocked circuits. A circuit is a state with a step for one rising
clock edge; a run gives the state before every edge and the ports at that edge. -/
namespace Clocked

variable {State Input Part PartInput Value : Type}

/-- A run without end. -/
structure Run (step : State → Input → State) where
  state : Nat → State
  input : Nat → Input
  edge : ∀ clock, state (clock + 1) = step (state clock) (input clock)

/-- The states that a stream of inputs gives from a first state. -/
def statesFrom (step : State → Input → State) (boot : State) (inputs : Nat → Input) : Nat → State
  | 0 => boot
  | clock + 1 => step (statesFrom step boot inputs clock) (inputs clock)

namespace Run

variable {step : State → Input → State}

/-- Every first state and every stream of inputs have their run. -/
def ofInputs (step : State → Input → State) (boot : State) (inputs : Nat → Input) : Run step where
  state := statesFrom step boot inputs
  input := inputs
  edge _ := rfl

/-- The run of one component inside a circuit. -/
def component (run : Run step) (partStep : Part → PartInput → Part) (part : State → Part)
    (ports : State → Input → PartInput)
    (hPart : ∀ state input, part (step state input) = partStep (part state) (ports state input)) :
    Run partStep where
  state clock := part (run.state clock)
  input clock := ports (run.state clock) (run.input clock)
  edge clock := by rw [run.edge, hPart]

/-- What every edge preserves holds at every clock. -/
theorem invariant (run : Run step) (Inv : State → Prop) (hBoot : Inv (run.state 0))
    (hStep : ∀ state input, Inv state → Inv (step state input)) (clock : Nat) :
    Inv (run.state clock) := by
  induction clock with
  | zero => exact hBoot
  | succ clock ih =>
      rw [run.edge]
      exact hStep _ _ ih

end Run

/-- A signal that no edge of an interval changes has its first value throughout. -/
theorem stable_of_kept (signal : Nat → Value) (first last : Nat)
    (hKept : ∀ clock, first ≤ clock → clock < last → signal (clock + 1) = signal clock)
    {clock : Nat} (hFirst : first ≤ clock) (hLast : clock ≤ last) :
    signal clock = signal first := by
  induction clock, hFirst using Nat.le_induction with
  | base => rfl
  | succ clock hFirst ih => rw [hKept clock hFirst (by omega), ih (by omega)]

/-- From one clock with an event to the next one. -/
structure Next (event : Nat → Prop) (first second : Nat) : Prop where
  ordered : first < second
  occurs : event second
  quiet : ∀ clock, first < clock → clock < second → ¬ event clock

/-- What holds after the first event and is kept without an event holds up to the next one. -/
theorem Next.kept {event : Nat → Prop} {first second : Nat} (h : Next event first second)
    (holds : Nat → Prop) (hBase : holds (first + 1))
    (hStep : ∀ clock, first < clock → clock < second → ¬ event clock → holds clock →
      holds (clock + 1)) {clock : Nat} (hFrom : first < clock) (hTo : clock ≤ second) :
    holds clock := by
  induction clock, hFrom using Nat.le_induction with
  | base => exact hBase
  | succ clock hFrom ih =>
      exact hStep clock hFrom hTo (h.quiet clock hFrom hTo) (ih (Nat.le_of_lt hTo))

end Clocked
