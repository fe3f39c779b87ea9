import Mathlib.Data.List.Basic

/-! Lists laid out in pieces of one size: piece `i` of size `size` starts at `size * i`. -/
namespace Chunk

variable {Item Entry : Type}

theorem length_flatMap {size : Nat} {piece : Item → List Entry}
    (hSize : ∀ item, (piece item).length = size) (items : List Item) :
    (items.flatMap piece).length = size * items.length := by
  induction items with
  | nil => rfl
  | cons item rest ih =>
      rw [List.flatMap_cons, List.length_append, ih, hSize, List.length_cons, Nat.mul_succ,
        Nat.add_comm]

theorem getElem?_flatMap {size : Nat} {piece : Item → List Entry}
    (hSize : ∀ item, (piece item).length = size) {items : List Item} {i offset : Nat} {item : Item}
    (hItem : items[i]? = some item) (hOffset : offset < size) :
    (items.flatMap piece)[size * i + offset]? = (piece item)[offset]? := by
  induction items generalizing i with
  | nil => simp at hItem
  | cons head rest ih =>
      rw [List.flatMap_cons]
      cases i with
      | zero =>
          obtain rfl : head = item := by simpa using hItem
          rw [Nat.mul_zero, Nat.zero_add, List.getElem?_append_left (by rw [hSize]; exact hOffset)]
      | succ i =>
          rw [List.getElem?_append_right (by rw [hSize, Nat.mul_succ]; omega), hSize]
          rw [show size * (i + 1) + offset - size = size * i + offset by
            rw [Nat.mul_succ]; omega]
          exact ih (by simpa using hItem)

/-- The same inside a longer list, where the pieces stand behind `before`. -/
theorem getElem?_append_flatMap {size : Nat} {piece : Item → List Entry}
    (hSize : ∀ item, (piece item).length = size) (before after : List Entry) {items : List Item}
    {i offset : Nat} {item : Item} (hItem : items[i]? = some item) (hOffset : offset < size) :
    (before ++ items.flatMap piece ++ after)[before.length + (size * i + offset)]? =
      (piece item)[offset]? := by
  have hIndex : i < items.length := (List.getElem?_eq_some_iff.mp hItem).1
  have hInside : size * i + offset < size * items.length := by
    calc size * i + offset < size * (i + 1) := by rw [Nat.mul_succ]; omega
      _ ≤ size * items.length := Nat.mul_le_mul_left size hIndex
  rw [List.append_assoc, List.getElem?_append_right (Nat.le_add_right _ _), Nat.add_sub_cancel_left,
    List.getElem?_append_left (by rw [length_flatMap hSize]; exact hInside)]
  exact getElem?_flatMap hSize hItem hOffset

/-- A loop over indices is a loop over the items they stand for. -/
theorem range_map {items : List Item} {byIndex : Nat → Entry} {byItem : Item → Entry}
    (hSame : ∀ i item, items[i]? = some item → byIndex i = byItem item) :
    (List.range items.length).map byIndex = items.map byItem := by
  apply List.ext_getElem
  · simp
  · intro i hLeft hRight
    rw [List.getElem_map, List.getElem_map, List.getElem_range]
    exact hSame i _ (List.getElem?_eq_getElem _)

theorem range_flatMap {items : List Item} {byIndex : Nat → List Entry} {byItem : Item → List Entry}
    (hSame : ∀ i item, items[i]? = some item → byIndex i = byItem item) :
    (List.range items.length).flatMap byIndex = items.flatMap byItem := by
  rw [List.flatMap_def, List.flatMap_def, range_map hSame]

end Chunk
