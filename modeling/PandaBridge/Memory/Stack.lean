import Mathlib.Algebra.Order.Ring.Int
import Mathlib.Data.List.Basic
import Mathlib.Logic.Function.Basic

/-! A stack in an array: the cells below its pointer hold its entries, and what is above them is
left open. -/
namespace Memory

variable {Entry : Type}

/-- The cells from the first on hold these entries, the top of the stack first. -/
def Holds (array : Int → Entry) : List Entry → Prop
  | [] => True
  | entry :: rest => array rest.length = entry ∧ Holds array rest

variable {array : Int → Entry} {entries : List Entry}

theorem Holds.update (h : Holds array entries) {index : Int} (hIndex : entries.length ≤ index)
    (entry : Entry) : Holds (Function.update array index entry) entries := by
  induction entries with
  | nil => trivial
  | cons top rest ih =>
      rw [List.length_cons, Nat.cast_succ] at hIndex
      have hBelow : (rest.length : Int) ≠ index := by omega
      refine ⟨?_, ih h.2 (by omega)⟩
      rw [Function.update_of_ne hBelow]
      exact h.1

theorem Holds.push (h : Holds array entries) {index : Int} (hIndex : entries.length = index)
    (entry : Entry) : Holds (Function.update array index entry) (entry :: entries) := by
  subst hIndex
  exact ⟨Function.update_self _ _ _, h.update (le_refl _) entry⟩

theorem Holds.drop (h : Holds array entries) (count : Nat) : Holds array (entries.drop count) := by
  induction count generalizing entries with
  | zero => exact h
  | succ count ih =>
      cases entries with
      | nil => exact h
      | cons top rest => exact ih h.2

theorem Holds.above {below above : List Entry} (h : Holds array (above ++ below)) :
    Holds array below := by
  have hDrop := h.drop above.length
  rwa [List.drop_left] at hDrop

/-- A cell below the pointer has entries above and below it. -/
theorem Holds.split (h : Holds array entries) {index : Int} (hLow : 0 ≤ index)
    (hHigh : index < entries.length) :
    ∃ above below : List Entry, entries = above ++ array index :: below ∧ below.length = index := by
  induction entries with
  | nil => exact absurd (hLow.trans_lt hHigh) (lt_irrefl _)
  | cons top rest ih =>
      rw [List.length_cons, Nat.cast_succ] at hHigh
      by_cases hTop : (rest.length : Int) = index
      · refine ⟨[], rest, ?_, hTop⟩
        rw [← hTop, h.1]
        rfl
      · obtain ⟨above, below, hRest, hLength⟩ := ih h.2 (by omega)
        refine ⟨top :: above, below, ?_, hLength⟩
        rw [List.cons_append, ← hRest]

end Memory
