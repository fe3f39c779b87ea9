import Mathlib.Algebra.Order.Group.Unbundled.Int
import Mathlib.Tactic.SplitIfs

/-! Integers in an interval whose ends are joined. -/
namespace Ring

/-- The place of a number that goes round the interval. -/
def wrap (low high total : Int) : Int := low + (total - low) % (high - low + 1)

/-- How often it has been round. -/
def laps (low high total : Int) : Int := (total - low) / (high - low + 1)

variable {low high total : Int}

theorem wrap_laps_unique {place lap : Int} (hLow : low ≤ place) (hHigh : place ≤ high)
    (hTotal : total = place + lap * (high - low + 1)) :
    wrap low high total = place ∧ laps low high total = lap := by
  have hUnique := (Int.ediv_emod_unique (a := total - low) (b := high - low + 1) (r := place - low)
    (q := lap) (by omega)).mpr ⟨by rw [Int.mul_comm]; omega, by omega, by omega⟩
  exact ⟨by rw [wrap, hUnique.2]; omega, hUnique.1⟩

theorem wrap_bounds (h : low ≤ high) : low ≤ wrap low high total ∧ wrap low high total ≤ high := by
  have hPos := Int.emod_nonneg (total - low) (by omega : high - low + 1 ≠ 0)
  have hLess := Int.emod_lt_of_pos (total - low) (by omega : 0 < high - low + 1)
  unfold wrap
  omega

theorem wrap_move (h : low ≤ high) {move : Int} (hDown : -(high - low + 1) ≤ move)
    (hUp : move ≤ high - low + 1) :
    let next := wrap low high total + move
    wrap low high (total + move) =
        (if high < next then next - (high - low + 1)
        else if next < low then next + (high - low + 1) else next) ∧
      (laps low high (total + move) ≠ laps low high total ↔ high < next ∨ next < low) := by
  intro next
  have hBounds := @wrap_bounds low high total h
  have hTotal : total = wrap low high total + laps low high total * (high - low + 1) := by
    have hDiv := Int.emod_add_mul_ediv (total - low) (high - low + 1)
    rw [wrap, laps, Int.mul_comm]
    omega
  have hNext : next = wrap low high total + move := rfl
  split_ifs with hAbove hBelow
  · have hUnique := @wrap_laps_unique low high (total + move) (next - (high - low + 1))
      (laps low high total + 1) (by omega) (by omega) (by rw [Int.add_mul]; omega)
    exact ⟨hUnique.1, by rw [hUnique.2]; omega⟩
  · have hUnique := @wrap_laps_unique low high (total + move) (next + (high - low + 1))
      (laps low high total - 1) (by omega) (by omega) (by rw [Int.sub_mul]; omega)
    exact ⟨hUnique.1, by rw [hUnique.2]; omega⟩
  · have hUnique := @wrap_laps_unique low high (total + move) next (laps low high total) (by omega)
      (by omega) (by omega)
    exact ⟨hUnique.1, by rw [hUnique.2]; omega⟩

end Ring
