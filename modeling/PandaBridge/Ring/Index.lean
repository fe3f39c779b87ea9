import Mathlib.Data.Nat.ModEq

/-! Absolute positions in a ring: position `i` of a ring of `count` slots lies in slot
`i % count` of lap `i / count`. -/
namespace Ring

variable {count i j : Nat}

theorem step_wrap (hCount : 0 < count) (hLast : count ≤ i % count + 1) :
    (i + 1) % count = 0 ∧ (i + 1) / count = i / count + 1 := by
  have hSlot := Nat.mod_lt i hCount
  have hSplit := Nat.div_add_mod i count
  have hNext : i + 1 = count * (i / count + 1) := by
    rw [Nat.mul_succ]
    omega
  rw [hNext]
  exact ⟨Nat.mul_mod_right _ _, Nat.mul_div_cancel_left _ hCount⟩

theorem step_next (hNext : i % count + 1 < count) :
    (i + 1) % count = i % count + 1 ∧ (i + 1) / count = i / count := by
  have hCount : 0 < count := by omega
  have hSplit : i + 1 = i % count + 1 + count * (i / count) := by
    have := Nat.mod_add_div i count
    omega
  constructor
  · rw [hSplit, Nat.add_mul_mod_self_left, Nat.mod_eq_of_lt hNext]
  · rw [hSplit, Nat.add_mul_div_left _ _ hCount, Nat.div_eq_of_lt hNext]
    omega

theorem of_slot_lap {slot : Nat} (lap : Nat) (hSlot : slot < count) :
    (slot + count * lap) % count = slot ∧ (slot + count * lap) / count = lap := by
  constructor
  · rw [Nat.add_mul_mod_self_left, Nat.mod_eq_of_lt hSlot]
  · rw [Nat.add_mul_div_left _ _ (by omega), Nat.div_eq_of_lt hSlot, Nat.zero_add]

theorem eq_of_slot_lap (hSlot : i % count = j % count) (hLap : i / count = j / count) : i = j := by
  rw [← Nat.mod_add_div i count, ← Nat.mod_add_div j count, hSlot, hLap]

/-- Positions less than a lap apart lie in different slots. -/
theorem slot_ne (hLess : i < j) (hNear : j < i + count) : i % count ≠ j % count := by
  intro hSame
  have hDvd : count ∣ j - i := (Nat.modEq_iff_dvd' hLess.le).mp hSame
  have := Nat.le_of_dvd (by omega) hDvd
  omega

/-- Whether a later position is less than a lap ahead, from slots and laps alone. -/
theorem near_iff (hCount : 0 < count) (hLess : i < j) :
    j < i + count ↔ i % count < j % count ∧ j / count = i / count ∨
      j % count < i % count ∧ j / count = i / count + 1 := by
  have hi := Nat.mod_add_div i count
  have hj := Nat.mod_add_div j count
  have hSlotI := Nat.mod_lt i hCount
  have hSlotJ := Nat.mod_lt j hCount
  constructor
  · intro hNear
    have hLapGe : i / count ≤ j / count := Nat.div_le_div_right hLess.le
    have hLapLe : j / count ≤ i / count + 1 := by
      rw [← Nat.add_div_right i hCount]
      exact Nat.div_le_div_right hNear.le
    rcases Nat.eq_or_lt_of_le hLapGe with hSame | hNext
    · rw [← hSame] at hj
      exact .inl ⟨by omega, hSame.symm⟩
    · have hLap : j / count = i / count + 1 := by omega
      rw [hLap, Nat.mul_succ] at hj
      exact .inr ⟨by omega, hLap⟩
  · rintro (⟨hLt, hLap⟩ | ⟨hGt, hLap⟩)
    · rw [hLap] at hj
      omega
    · rw [hLap, Nat.mul_succ] at hj
      omega

end Ring
