import Mathlib.Order.Lattice

/-! Binary search in a list that is sorted by a key, and the list with an entry put where the search
comes to. -/
namespace Search

/-- The first index between two from which on a property holds. -/
def bisect (upper : Nat → Bool) (left right : Nat) : Nat :=
  if left < right then
    let centre := (left + right) / 2
    if upper centre then bisect upper left centre else bisect upper (centre + 1) right
  else left
termination_by right - left
decreasing_by
  · omega
  · omega

theorem bisect_spec {upper : Nat → Bool}
    (hUpper : ∀ i j, i ≤ j → upper i = true → upper j = true) {left right : Nat}
    (hRange : left ≤ right) :
    left ≤ bisect upper left right ∧ bisect upper left right ≤ right ∧
      (∀ i, left ≤ i → i < bisect upper left right → upper i = false) ∧
      ∀ i, bisect upper left right ≤ i → i < right → upper i = true := by
  induction left, right using bisect.induct upper with
  | case1 left right hLess centre hCentre ih =>
      rw [bisect, if_pos hLess]
      simp only [centre] at hCentre ih ⊢
      rw [if_pos hCentre]
      obtain ⟨hFrom, hTo, hBelow, hAbove⟩ := ih (by omega)
      refine ⟨hFrom, by omega, hBelow, fun i hLow hHigh => ?_⟩
      by_cases hInside : i < (left + right) / 2
      · exact hAbove i hLow hInside
      · exact hUpper _ i (Nat.le_of_not_lt hInside) hCentre
  | case2 left right hLess centre hCentre ih =>
      rw [bisect, if_pos hLess]
      simp only [centre] at hCentre ih ⊢
      rw [if_neg hCentre]
      obtain ⟨hFrom, hTo, hBelow, hAbove⟩ := ih (by omega)
      refine ⟨by omega, hTo, fun i hLow hHigh => ?_, hAbove⟩
      by_cases hInside : i ≤ (left + right) / 2
      · rw [← Bool.not_eq_true]
        exact fun hTrue => hCentre (hUpper i _ hInside hTrue)
      · exact hBelow i (by omega) hHigh
  | case3 left right hDone =>
      rw [bisect, if_neg hDone]
      exact ⟨Nat.le_refl left, hRange, fun i _ _ => by omega, fun i _ _ => by omega⟩

variable {Entry Key : Type} [LinearOrder Key] (key : Entry → Key)

/-- The index of the first entry whose key is not below a value. -/
def lowerBound (entries : List Entry) (value : Key) : Nat :=
  bisect (fun i => entries[i]?.all fun entry => decide (value ≤ key entry)) 0 entries.length

/-- The entry is put at an index. -/
def insertAt (entries : List Entry) (ix : Nat) (entry : Entry) : List Entry :=
  entries.take ix ++ entry :: entries.drop ix

variable {key} {entries : List Entry}

theorem insertAt_perm (ix : Nat) (entry : Entry) :
    (insertAt entries ix entry).Perm (entry :: entries) := by
  refine List.perm_middle.trans ?_
  rw [List.take_append_drop]

/-- Before the index all keys are below the value, and from it on none is. -/
theorem lowerBound_spec (hSorted : entries.Pairwise fun first second => key first < key second)
    (value : Key) :
    (∀ entry ∈ entries.take (lowerBound key entries value), key entry < value) ∧
      ∀ entry ∈ entries.drop (lowerBound key entries value), value ≤ key entry := by
  have hUpper : ∀ i j : Nat, i ≤ j →
      (entries[i]?.all fun entry => decide (value ≤ key entry)) = true →
      (entries[j]?.all fun entry => decide (value ≤ key entry)) = true := by
    intro i j hLe hAt
    rw [Option.all_eq_true] at hAt ⊢
    intro later hLater
    obtain ⟨hJ, rfl⟩ := List.getElem?_eq_some_iff.mp hLater
    have hI : i < entries.length := Nat.lt_of_le_of_lt hLe hJ
    have hFirst := of_decide_eq_true (hAt entries[i] (List.getElem?_eq_getElem hI))
    rcases Nat.lt_or_eq_of_le hLe with hLess | rfl
    · exact decide_eq_true (hFirst.trans
        (List.pairwise_iff_getElem.mp hSorted i j hI hJ hLess).le)
    · exact decide_eq_true hFirst
  obtain ⟨_, hTo, hBelow, hAbove⟩ := bisect_spec hUpper (Nat.zero_le entries.length)
  constructor
  · intro entry hMem
    obtain ⟨i, hLess, rfl⟩ := List.mem_take_iff_getElem.mp hMem
    have hNot := hBelow i (Nat.zero_le i) (Nat.lt_of_lt_of_le hLess (Nat.min_le_left _ _))
    rw [List.getElem?_eq_getElem (Nat.lt_of_lt_of_le hLess (Nat.min_le_right _ _))] at hNot
    exact lt_of_not_ge (of_decide_eq_false hNot)
  · intro entry hMem
    obtain ⟨i, hLess, rfl⟩ := List.mem_drop_iff_getElem.mp hMem
    rw [Nat.add_comm] at hLess
    have hAt := hAbove (lowerBound key entries value + i) (Nat.le_add_right _ _) hLess
    rw [List.getElem?_eq_getElem hLess] at hAt
    exact of_decide_eq_true hAt

/-- The search finds an entry with the value where there is one. -/
theorem getElem?_lowerBound (hSorted : entries.Pairwise fun first second => key first < key second)
    {value : Key} {entry : Entry} (hKey : key entry = value) :
    entries[lowerBound key entries value]? = some entry ↔ entry ∈ entries := by
  obtain ⟨hBelow, hAbove⟩ := lowerBound_spec hSorted value
  rw [← List.head?_drop]
  constructor
  · intro hHead
    exact List.mem_of_mem_drop (List.mem_of_mem_head? hHead)
  · intro hMem
    rw [← List.take_append_drop (lowerBound key entries value) entries] at hMem hSorted
    have hDrop := (List.mem_append.mp hMem).resolve_left fun hTake =>
      absurd hKey (hBelow entry hTake).ne
    have hRest := (List.pairwise_append.mp hSorted).2.1
    generalize entries.drop (lowerBound key entries value) = rest at hDrop hRest hAbove ⊢
    cases rest with
    | nil => cases hDrop
    | cons head rest =>
        rcases List.mem_cons.mp hDrop with rfl | hLater
        · rfl
        · have hLess := List.rel_of_pairwise_cons hRest hLater
          exact absurd (hKey ▸ hLess) (not_lt_of_ge (hAbove head List.mem_cons_self))

/-- A new key is put where the search comes to, and the list stays sorted. -/
theorem insertAt_sorted (hSorted : entries.Pairwise fun first second => key first < key second)
    {entry : Entry} (hNew : ∀ other ∈ entries, key other ≠ key entry) :
    (insertAt entries (lowerBound key entries (key entry)) entry).Pairwise
      fun first second => key first < key second := by
  obtain ⟨hBelow, hAbove⟩ := lowerBound_spec hSorted (key entry)
  rw [← List.take_append_drop (lowerBound key entries (key entry)) entries,
    List.pairwise_append] at hSorted
  obtain ⟨hFirst, hSecond, hAcross⟩ := hSorted
  refine List.pairwise_append.mpr ⟨hFirst, List.pairwise_cons.mpr ⟨fun other hMem => ?_, hSecond⟩, ?_⟩
  · exact lt_of_le_of_ne (hAbove other hMem) (hNew other (List.mem_of_mem_drop hMem)).symm
  · intro before hBefore after hAfter
    rcases List.mem_cons.mp hAfter with rfl | hLater
    · exact hBelow before hBefore
    · exact hAcross before hBefore after hLater

end Search
