import PandaBridge.Clocked.Run

/-! A flag of the changes of a signal that is read and cleared by one strobe. The flag is a clock
behind the signal, and the strobe clears it to the change of its own clock. -/
namespace Clocked

variable {Value : Type}

/-- A signal with the flag that collects its changes between strobes. -/
structure ChangeFlag (Value : Type) where
  value : Nat → Value
  strobe : Nat → Bool
  previous : Nat → Value
  flag : Nat → Bool
  follows : ∀ clock, previous (clock + 1) = value clock
  collects : ∀ clock, flag (clock + 1) = true ↔
    value clock ≠ previous clock ∨ strobe clock = false ∧ flag clock = true

namespace ChangeFlag

variable (signal : ChangeFlag Value)

/-- The signal is another one than at the clock before. -/
def ChangesAt (clock : Nat) : Prop := signal.value clock ≠ signal.previous clock

/-- From one strobe to the next. -/
structure Strobes (first second : Nat) : Prop where
  ordered : first < second
  strobe : signal.strobe first = true
  quiet : ∀ clock, first < clock → clock < second → signal.strobe clock = false

/-- The flag goes with the values at two strobes: it is set when they differ, and only when the
signal has changed in between. -/
structure Tells (first second : Nat) : Prop where
  differs : signal.value second ≠ signal.value first → signal.flag second = true
  flagged : signal.flag second = true →
    ∃ clock, first < clock ∧ clock ≤ second ∧ signal.value clock ≠ signal.value first

variable {signal} {first second : Nat}

/-- The flag at a strobe has the changes from the clock of the strobe before it to the clock before
its own. -/
theorem Strobes.flag_iff (h : signal.Strobes first second) : signal.flag second = true ↔
    ∃ clock, first ≤ clock ∧ clock < second ∧ signal.ChangesAt clock := by
  obtain ⟨hOrdered, hStrobe, hQuiet⟩ := h
  induction second, hOrdered using Nat.le_induction with
  | base =>
      rw [signal.collects, hStrobe]
      constructor
      · rintro (hChange | ⟨hLow, -⟩)
        · exact ⟨first, Nat.le_refl _, Nat.lt_succ_self _, hChange⟩
        · exact absurd hLow (by decide)
      · rintro ⟨clock, hFrom, hTo, hChange⟩
        obtain rfl : clock = first := by omega
        exact .inl hChange
  | succ second hOrdered ih =>
      have hLow := hQuiet second hOrdered (Nat.lt_succ_self second)
      rw [signal.collects, ih fun clock hFrom hTo => hQuiet clock hFrom (by omega)]
      constructor
      · rintro (hChange | ⟨-, clock, hFrom, hTo, hChange⟩)
        · exact ⟨second, Nat.le_of_succ_le hOrdered, Nat.lt_succ_self _, hChange⟩
        · exact ⟨clock, hFrom, by omega, hChange⟩
      · rintro ⟨clock, hFrom, hTo, hChange⟩
        rcases Nat.lt_succ_iff_lt_or_eq.mp hTo with hTo | rfl
        · exact .inr ⟨hLow, clock, hFrom, hTo, hChange⟩
        · exact .inl hChange

theorem value_eq_of_unchanged {clock : Nat} (hFrom : first ≤ clock)
    (hNone : ∀ tick, first < tick → tick ≤ clock → ¬ signal.ChangesAt tick) :
    signal.value clock = signal.value first := by
  refine stable_of_kept signal.value first clock (fun tick hTick hLess => ?_) hFrom (Nat.le_refl _)
  have hSame := not_not.mp (hNone (tick + 1) (by omega) (by omega))
  rw [hSame, signal.follows]

theorem exists_ne_iff : (∃ clock, first < clock ∧ clock ≤ second ∧
      signal.value clock ≠ signal.value first) ↔
    ∃ clock, first < clock ∧ clock ≤ second ∧ signal.ChangesAt clock := by
  constructor
  · rintro ⟨clock, hFrom, hTo, hOther⟩
    by_contra hNone
    exact hOther (value_eq_of_unchanged (Nat.le_of_lt hFrom) fun tick hTick hLess hChange =>
      hNone ⟨tick, hTick, by omega, hChange⟩)
  · intro hSome
    classical
    obtain ⟨hFrom, hTo, hChange⟩ := Nat.find_spec hSome
    refine ⟨Nat.find hSome, hFrom, hTo, fun hSame => hChange ?_⟩
    obtain ⟨before, hBefore⟩ : ∃ before, Nat.find hSome = before + 1 :=
      ⟨Nat.find hSome - 1, by omega⟩
    have hUntil : signal.value before = signal.value first :=
      value_eq_of_unchanged (by omega) fun tick hTick hLess hEarlier =>
        Nat.find_min hSome (by omega) ⟨hTick, by omega, hEarlier⟩
    rw [hSame, hBefore, signal.follows, hUntil]

/-- The flag tells the change between two strobes exactly when the signal changes at a clock
between them, or at both of their own clocks, or at neither. -/
theorem Strobes.tells_iff (h : signal.Strobes first second) : signal.Tells first second ↔
    (∃ clock, first < clock ∧ clock < second ∧ signal.ChangesAt clock) ∨
      (signal.ChangesAt first ↔ signal.ChangesAt second) := by
  have hOrdered := h.ordered
  have hFlag : signal.flag second = true ↔ signal.ChangesAt first ∨
      ∃ clock, first < clock ∧ clock < second ∧ signal.ChangesAt clock := by
    rw [h.flag_iff]
    constructor
    · rintro ⟨clock, hFrom, hTo, hChange⟩
      rcases Nat.eq_or_lt_of_le hFrom with rfl | hFrom
      · exact .inl hChange
      · exact .inr ⟨clock, hFrom, hTo, hChange⟩
    · rintro (hChange | ⟨clock, hFrom, hTo, hChange⟩)
      · exact ⟨first, Nat.le_refl _, hOrdered, hChange⟩
      · exact ⟨clock, Nat.le_of_lt hFrom, hTo, hChange⟩
  have hBetween : (∃ clock, first < clock ∧ clock ≤ second ∧
      signal.value clock ≠ signal.value first) ↔ signal.ChangesAt second ∨
      ∃ clock, first < clock ∧ clock < second ∧ signal.ChangesAt clock := by
    rw [exists_ne_iff]
    constructor
    · rintro ⟨clock, hFrom, hTo, hChange⟩
      rcases Nat.eq_or_lt_of_le hTo with rfl | hTo
      · exact .inl hChange
      · exact .inr ⟨clock, hFrom, hTo, hChange⟩
    · rintro (hChange | ⟨clock, hFrom, hTo, hChange⟩)
      · exact ⟨second, hOrdered, Nat.le_refl _, hChange⟩
      · exact ⟨clock, hFrom, Nat.le_of_lt hTo, hChange⟩
  constructor
  · rintro ⟨hDiffers, hFlagged⟩
    refine or_iff_not_imp_left.mpr fun hNone => ⟨fun hEarly => ?_, fun hLate => ?_⟩
    · have hSome := hBetween.mp (hFlagged (hFlag.mpr (.inl hEarly)))
      exact hSome.resolve_right hNone
    · obtain ⟨before, rfl⟩ : ∃ before, second = before + 1 := ⟨second - 1, by omega⟩
      have hUntil : signal.value before = signal.value first :=
        value_eq_of_unchanged (by omega) fun tick hTick hLess hChange =>
          hNone ⟨tick, hTick, by omega, hChange⟩
      have hOther : signal.value (before + 1) ≠ signal.value first := by
        rw [← hUntil, ← signal.follows before]
        exact hLate
      exact (hFlag.mp (hDiffers hOther)).resolve_right hNone
  · rintro hCondition
    constructor
    · intro hOther
      have hSome := hBetween.mp ⟨second, hOrdered, Nat.le_refl _, hOther⟩
      rw [hFlag]
      rcases hCondition with hMid | hBoth
      · exact .inr hMid
      · exact hSome.imp_left hBoth.mpr
    · intro hSet
      have hSome := hFlag.mp hSet
      rw [hBetween]
      rcases hCondition with hMid | hBoth
      · exact .inr hMid
      · exact hSome.imp_left hBoth.mp

end ChangeFlag

end Clocked
