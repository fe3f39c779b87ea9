import PandaBridge.Clocked.Run
import Mathlib.Data.List.Range

/-! Registers that take part in the events of a signal only, and so hold what the events before
have left. -/
namespace Clocked

variable {State Data : Type}

/-- The events from one to another, by their clocks. -/
structure Events (event : Nat → Prop) (clock : Nat → Nat) (last : Nat) : Prop where
  next : ∀ count, count < last → Next event (clock count) (clock (count + 1))

namespace Events

variable {event : Nat → Prop} {clock : Nat → Nat} {last : Nat}

theorem mono (h : Events event clock last) {count later : Nat} (hOrder : count ≤ later)
    (hLater : later ≤ last) : clock count ≤ clock later := by
  induction later, hOrder using Nat.le_induction with
  | base => exact le_rfl
  | succ later hOrder ih =>
      exact (ih (by omega)).trans (Nat.le_of_lt (h.next later hLater).ordered)

theorem strict (h : Events event clock last) {count later : Nat} (hOrder : count < later)
    (hLater : later ≤ last) : clock count < clock later :=
  Nat.lt_of_lt_of_le (h.next count (by omega)).ordered (h.mono hOrder hLater)

theorem exists_between (h : Events event clock last) {tick : Nat} (hFrom : clock 0 < tick)
    (hTo : tick ≤ clock last) : ∃ count, count < last ∧ clock count < tick ∧
      tick ≤ clock (count + 1) := by
  induction last with
  | zero => omega
  | succ last ih =>
      rcases Nat.lt_or_ge (clock last) tick with hAfter | hBefore
      · exact ⟨last, Nat.lt_succ_self last, hAfter, hTo⟩
      · obtain ⟨count, hCount, hLow, hHigh⟩ :=
          ih ⟨fun count hCount => h.next count (by omega)⟩ hBefore
        exact ⟨count, by omega, hLow, hHigh⟩

theorem event_iff (h : Events event clock last) {tick : Nat} (hFrom : clock 0 < tick)
    (hTo : tick ≤ clock last) : event tick ↔ ∃ count, count < last ∧ tick = clock (count + 1) := by
  constructor
  · intro hEvent
    obtain ⟨count, hCount, hLow, hHigh⟩ := h.exists_between hFrom hTo
    rcases Nat.eq_or_lt_of_le hHigh with hSame | hLess
    · exact ⟨count, hCount, hSame⟩
    · exact absurd hEvent ((h.next count hCount).quiet tick hLow hLess)
  · rintro ⟨count, hCount, rfl⟩
    exact (h.next count hCount).occurs

theorem part (h : Events event clock last) {low high : Nat} (hHigh : high ≤ last) :
    Events event (fun count => clock (low + count)) (high - low) :=
  ⟨fun count hCount => h.next (low + count) (by omega)⟩

end Events

theorem collect (register : Nat → State) (takes : Nat → Bool) (data : Nat → Data)
    (take : State → Data → State) {first last : Nat} (hOrder : first ≤ last)
    (hStep : ∀ tick, first ≤ tick → tick < last →
      register (tick + 1) = if takes tick then take (register tick) (data tick) else register tick)
    (clock : Nat → Nat) (count : Nat)
    (hTakes : ∀ tick, first ≤ tick → tick < last →
      (takes tick = true ↔ ∃ place, place < count ∧ tick = clock place))
    (hRange : ∀ place, place < count → first ≤ clock place ∧ clock place < last)
    (hStrict : ∀ place later, place < later → later < count → clock place < clock later) :
    register last = ((List.range count).map fun place => data (clock place)).foldl take
      (register first) := by
  -- up to a clock the register has taken what came before it
  have hUpTo : ∀ tick, first ≤ tick → tick ≤ last → ∀ taken, taken ≤ count →
      (∀ place, place < taken → clock place < tick) →
      (∀ place, taken ≤ place → place < count → tick ≤ clock place) →
      register tick = ((List.range taken).map fun place => data (clock place)).foldl take
        (register first) := by
    intro tick hFrom
    induction tick, hFrom using Nat.le_induction with
    | base =>
        intro _ taken hTaken hBefore _
        cases taken with
        | zero => rfl
        | succ taken =>
            have := hBefore 0 (Nat.succ_pos taken)
            have := (hRange 0 (by omega)).1
            omega
    | succ tick hFrom ih =>
        intro hTo taken hTaken hBefore hAfter
        rw [hStep tick hFrom (by omega)]
        by_cases hNow : takes tick = true
        · obtain ⟨place, hPlace, rfl⟩ := (hTakes tick hFrom (by omega)).mp hNow
          have hLess : place < taken := by
            by_contra hMore
            have := hAfter place (by omega) hPlace
            omega
          obtain rfl : taken = place + 1 := by
            by_contra hOther
            have := hStrict place (taken - 1) (by omega) (by omega)
            have := hBefore (taken - 1) (by omega)
            omega
          have hPrior := ih (by omega) place (by omega)
            (fun earlier hEarlier => hStrict earlier place hEarlier hPlace)
            fun later hLater hCount => by
              rcases Nat.eq_or_lt_of_le hLater with rfl | hMore
              · exact le_rfl
              · exact Nat.le_of_lt (hStrict place later hMore hCount)
          rw [if_pos hNow, hPrior, List.range_succ, List.map_append, List.foldl_append]
          rfl
        · rw [if_neg hNow]
          refine ih (by omega) taken hTaken (fun place hPlace => ?_) fun place hLow hHigh => ?_
          · rcases Nat.lt_succ_iff_lt_or_eq.mp (hBefore place hPlace) with hLess | rfl
            · exact hLess
            · exact absurd ((hTakes _ hFrom (by omega)).mpr ⟨place, by omega, rfl⟩) hNow
          · have := hAfter place hLow hHigh
            omega
  exact hUpTo last hOrder le_rfl count le_rfl (fun place hPlace => (hRange place hPlace).2)
    fun place hLow hHigh => absurd hHigh (Nat.not_lt.mpr hLow)

end Clocked
