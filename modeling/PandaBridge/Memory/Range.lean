import Mathlib.Data.List.GetD

/-! Memory by index, with what is stored into a range of it and loaded from its start. -/
namespace Memory

variable {Entry : Type}

/-- The entries are stored from an index on. -/
def store (memory : Nat → Entry) (start : Nat) (entries : List Entry) : Nat → Entry :=
  fun i => if start ≤ i then entries.getD (i - start) (memory i) else memory i

/-- The first entries. -/
def load (memory : Nat → Entry) (count : Nat) : List Entry := (List.range count).map memory

variable {memory : Nat → Entry} {start : Nat} {entries : List Entry}

@[simp] theorem length_load (count : Nat) : (load memory count).length = count := by simp [load]

@[simp] theorem load_zero : load memory 0 = [] := rfl

theorem store_below {i : Nat} (hBelow : i < start) : store memory start entries i = memory i :=
  if_neg (Nat.not_le.mpr hBelow)

theorem store_past {i : Nat} (hPast : start + entries.length ≤ i) :
    store memory start entries i = memory i := by
  rw [store, if_pos (Nat.le_of_add_right_le hPast)]
  exact List.getD_eq_default _ _ (by omega)

theorem store_nil : store memory start [] = memory := by
  funext i
  rw [store]
  split
  · rfl
  · rfl

theorem store_append (first second : List Entry) :
    store (store memory start first) (start + first.length) second =
      store memory start (first ++ second) := by
  funext i
  by_cases hBelow : i < start
  · rw [store_below (Nat.lt_add_right _ hBelow), store_below hBelow, store_below hBelow]
  · by_cases hFirst : i < start + first.length
    · rw [store_below hFirst, store, store, if_pos (by omega), if_pos (by omega),
        List.getD_append _ _ _ _ (by omega)]
    · have hPast := @store_past Entry memory start first i (Nat.le_of_not_lt hFirst)
      rw [store, if_pos (Nat.le_of_not_lt hFirst), hPast, store, if_pos (Nat.le_of_not_lt hBelow),
        List.getD_append_right _ _ _ _ (by omega), Nat.sub_sub]

theorem load_store_of_le {count : Nat} (hCount : count ≤ start) :
    load (store memory start entries) count = load memory count := by
  apply List.map_congr_left
  intro i hMem
  exact store_below (Nat.lt_of_lt_of_le (List.mem_range.mp hMem) hCount)

/-- What is stored at the end of the first entries follows them. -/
theorem load_store (memory : Nat → Entry) (start : Nat) (entries : List Entry) :
    load (store memory start entries) (start + entries.length) = load memory start ++ entries := by
  rw [load, List.range_add, List.map_append]
  congr 1
  · exact load_store_of_le (Nat.le_refl start)
  · rw [List.map_map]
    apply List.ext_getElem
    · simp
    · intro i hLeft hRight
      have hLess : i < entries.length := hRight
      simp [store, List.getD_eq_getElem?_getD, List.getElem?_eq_getElem hLess]

end Memory
