import Mathlib.Data.Option.Basic

/-! Systems that move by events. An event may be impossible in a state, a run is the list
of its events, and a guard restricts runs by the state before each step. -/
namespace Transition

variable {State Event : Type}

/-- What an event does, if it can happen. -/
abbrev System (State Event : Type) := State → Event → Option State

namespace System

variable (system : System State Event)

def run : List Event → State → Option State
  | [], state => some state
  | event :: rest, state => (system state event).bind (run rest)

/-- Every step of the run meets the guard in the state it is taken from. -/
def Guarded (guard : State → Event → Prop) : List Event → State → Prop
  | [], _ => True
  | event :: rest, state => guard state event ∧ ∀ next ∈ system state event, Guarded guard rest next

instance Guarded.decidable (guard : State → Event → Prop)
    [∀ state event, Decidable (guard state event)] :
    (events : List Event) → (state : State) → Decidable (system.Guarded guard events state)
  | [], _ => isTrue trivial
  | event :: rest, state =>
      have := fun next => Guarded.decidable guard rest next
      inferInstanceAs (Decidable (guard state event ∧ ∀ next ∈ system state event, _))

def Reachable (initial state : State) : Prop := ∃ events, system.run events initial = some state

variable {system}

theorem Guarded.cons {guard : State → Event → Prop} {state next : State} {event : Event}
    {rest : List Event} (hGuard : guard state event) (hNext : system state event = some next)
    (hRest : system.Guarded guard rest next) : system.Guarded guard (event :: rest) state := by
  refine ⟨hGuard, fun other hOther => ?_⟩
  obtain rfl : next = other := Option.some.inj (hNext.symm.trans hOther)
  exact hRest

@[simp] theorem run_nil (state : State) : system.run [] state = some state := rfl

@[simp] theorem run_cons (event : Event) (rest : List Event) (state : State) :
    system.run (event :: rest) state = (system state event).bind (system.run rest) := rfl

theorem run_append (first second : List Event) (state : State) :
    system.run (first ++ second) state = (system.run first state).bind (system.run second) := by
  induction first generalizing state with
  | nil => rfl
  | cons event rest ih =>
      rw [List.cons_append, run_cons, run_cons, Option.bind_assoc]
      congr 1
      funext next
      exact ih next

theorem guarded_iff {guard : State → Event → Prop} {events : List Event} {state : State} :
    system.Guarded guard events state ↔
      ∀ first event rest middle, events = first ++ event :: rest →
        system.run first state = some middle → guard middle event := by
  induction events generalizing state with
  | nil => simp [Guarded]
  | cons head tail ih =>
      constructor
      · rintro ⟨hHead, hTail⟩ first event rest middle hEvents hRun
        cases first with
        | nil =>
            obtain ⟨rfl, _⟩ : head = event ∧ tail = rest := by simpa using hEvents
            obtain rfl : state = middle := by simpa using hRun
            exact hHead
        | cons other first =>
            obtain ⟨rfl, hTails⟩ : head = other ∧ tail = first ++ event :: rest := by
              simpa using hEvents
            rw [run_cons, Option.bind_eq_some_iff] at hRun
            obtain ⟨next, hNext, hRest⟩ := hRun
            exact ih.mp (hTail next hNext) first event rest middle hTails hRest
      · intro h
        refine ⟨h [] head tail state rfl rfl, fun next hNext => ih.mpr ?_⟩
        intro first event rest middle hTails hRun
        refine h (head :: first) event rest middle (by rw [hTails]; rfl) ?_
        rw [run_cons, Option.mem_def.mp hNext]
        exact hRun

theorem run_invariant {guard : State → Event → Prop} (inv : State → Prop)
    (hStep : ∀ state event next, inv state → guard state event →
      system state event = some next → inv next)
    {events : List Event} {state last : State} (hGuarded : system.Guarded guard events state)
    (hInv : inv state) (hRun : system.run events state = some last) : inv last := by
  induction events generalizing state with
  | nil =>
      obtain rfl : state = last := by simpa using hRun
      exact hInv
  | cons event rest ih =>
      rw [run_cons, Option.bind_eq_some_iff] at hRun
      obtain ⟨next, hNext, hRest⟩ := hRun
      exact ih (hGuarded.2 next hNext) (hStep state event next hInv hGuarded.1 hNext) hRest

theorem Reachable.invariant {initial state : State} (inv : State → Prop) (hInitial : inv initial)
    (hStep : ∀ state event next, inv state → system state event = some next → inv next)
    (hReachable : system.Reachable initial state) : inv state := by
  obtain ⟨events, hRun⟩ := hReachable
  have hGuarded : ∀ (events : List Event) (state : State),
      system.Guarded (fun _ _ => True) events state := by
    intro events
    induction events with
    | nil => exact fun _ => trivial
    | cons event rest ih => exact fun _ => ⟨trivial, fun next _ => ih next⟩
  exact run_invariant inv (fun state event next hInv _ hNext => hStep state event next hInv hNext)
    (hGuarded events initial) hInitial hRun

end System

end Transition
