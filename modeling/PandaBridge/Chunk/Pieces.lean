import Mathlib.Data.List.Basic

/-! The first pieces of a list, all of one size. -/
namespace Chunk

variable {Entry : Type}

/-- The first `count` pieces of `size` entries. -/
def pieces (size count : Nat) (list : List Entry) : List (List Entry) :=
  (List.range count).map fun i => (list.drop (size * i)).take size

variable {size count : Nat} {list : List Entry}

@[simp] theorem pieces_zero : pieces size 0 list = [] := rfl

theorem pieces_add (first second : Nat) (list : List Entry) :
    pieces size (first + second) list =
      pieces size first list ++ pieces size second (list.drop (size * first)) := by
  unfold pieces
  rw [List.range_add, List.map_append, List.map_map]
  congr 1
  apply List.map_congr_left
  intro i _
  rw [Function.comp_apply, List.drop_drop, Nat.mul_add]

theorem pieces_append (hInside : size * count ≤ list.length) (more : List Entry) :
    pieces size count (list ++ more) = pieces size count list := by
  apply List.map_congr_left
  intro i hi
  have hPiece : size * i + size ≤ list.length := by
    calc size * i + size = size * (i + 1) := (Nat.mul_succ size i).symm
      _ ≤ size * count := Nat.mul_le_mul_left size (List.mem_range.mp hi)
      _ ≤ list.length := hInside
  rw [List.drop_append_of_le_length (by omega), List.take_append_of_le_length]
  rw [List.length_drop]
  omega

theorem length_of_mem_pieces (hInside : size * count ≤ list.length) {piece : List Entry}
    (hPiece : piece ∈ pieces size count list) : piece.length = size := by
  obtain ⟨i, hi, rfl⟩ := List.mem_map.mp hPiece
  have hEnd : size * i + size ≤ list.length := by
    calc size * i + size = size * (i + 1) := (Nat.mul_succ size i).symm
      _ ≤ size * count := Nat.mul_le_mul_left size (List.mem_range.mp hi)
      _ ≤ list.length := hInside
  rw [List.length_take, List.length_drop]
  omega

theorem pieces_one (hLength : list.length = size) : pieces size 1 list = [list] := by
  simp [pieces, ← hLength]

theorem flatten_pieces (count : Nat) (list : List Entry) :
    (pieces size count list).flatten = list.take (size * count) := by
  induction count with
  | zero => simp
  | succ count ih =>
      rw [pieces_add, List.flatten_append, ih, Nat.mul_succ, List.take_add]
      simp [pieces]

theorem map_range_getD {default : Entry} {offset : Nat} (hInside : offset + count ≤ list.length) :
    (List.range count).map (fun i => list.getD (offset + i) default) =
      (list.drop offset).take count := by
  apply List.ext_getElem
  · simp
    omega
  · intro i hLeft hRight
    have hi : i < count := by simpa using hLeft
    simp [List.getD_eq_getElem?_getD,
      List.getElem?_eq_getElem (show offset + i < list.length by omega)]

theorem length_drop_whole (hCount : count = list.length / size) :
    (list.drop (size * count)).length = list.length % size := by
  rw [List.length_drop, hCount, ← Nat.mod_eq_sub_mul_div]

theorem whole_append (hCount : count = list.length / size) (more : List Entry) :
    (list ++ more).length / size = count + (list.drop (size * count) ++ more).length / size := by
  have hFits : size * count ≤ list.length := hCount ▸ Nat.mul_div_le _ _
  have hLe : count ≤ (list ++ more).length / size := by
    rw [hCount]
    exact Nat.div_le_div_right (List.sublist_append_left _ _).length_le
  rw [← List.drop_append_of_le_length hFits, List.length_drop, Nat.sub_mul_div]
  omega

end Chunk
