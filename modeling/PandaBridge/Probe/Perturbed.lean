import Mathlib.RingTheory.ZMod.UnitsCyclic

/-! Probe sequences that start from a hash, mix its higher bits in bit by bit, and go on with
`x ↦ 5 x + 1` when there are none left. Modulo a power of two they visit every place. -/
namespace Probe

/-- What is left of the hash after some steps. -/
def perturb (hash step : Nat) : Nat := hash / 32 ^ step

/-- The unreduced place of each step. -/
def index (hash : Nat) : Nat → Nat
  | 0 => hash
  | step + 1 => 1 + 5 * index hash step + perturb hash (step + 1)

theorem perturb_eq_zero {hash width step : Nat} (hHash : hash < 2 ^ width) (hStep : width ≤ step) :
    perturb hash step = 0 := by
  refine Nat.div_eq_of_lt (hHash.trans_le ?_)
  calc 2 ^ width ≤ 2 ^ step := Nat.pow_le_pow_right (by decide) hStep
    _ ≤ 32 ^ step := Nat.pow_le_pow_left (by decide) step

/-- Without any bits left, `4 x + 1` is multiplied by five in each step. -/
theorem four_mul_index {hash width : Nat} (hHash : hash < 2 ^ width) (steps : Nat) :
    4 * index hash (width + steps) + 1 = 5 ^ steps * (4 * index hash width + 1) := by
  induction steps with
  | zero => simp
  | succ steps ih =>
      have hNone := perturb_eq_zero hHash (show width ≤ width + steps + 1 by omega)
      rw [← Nat.add_assoc, index, hNone, Nat.pow_succ]
      calc 4 * (1 + 5 * index hash (width + steps) + 0) + 1
          = 5 * (4 * index hash (width + steps) + 1) := by ring
        _ = 5 * (5 ^ steps * (4 * index hash width + 1)) := by rw [ih]
        _ = 5 ^ steps * 5 * (4 * index hash width + 1) := by ring

/-- Two steps within one period are at different places. -/
theorem index_inj {hash width order first second : Nat} (hHash : hash < 2 ^ width)
    (hFirst : first < 2 ^ order) (hSecond : second < 2 ^ order)
    (hSame : index hash (width + first) % 2 ^ order = index hash (width + second) % 2 ^ order) :
    first = second := by
  obtain ⟨odd, hOdd⟩ : ∃ odd, odd = 4 * index hash width + 1 := ⟨_, rfl⟩
  have hMod : 5 ^ first * odd ≡ 5 ^ second * odd [MOD 2 ^ (order + 2)] := by
    rw [hOdd, ← four_mul_index hHash, ← four_mul_index hHash, Nat.pow_add, Nat.mul_comm (2 ^ order)]
    exact (Nat.ModEq.mul_left' 4 hSame).add_right 1
  have hCast : (5 : ZMod (2 ^ (order + 2))) ^ first * (odd : ZMod (2 ^ (order + 2))) =
      (5 : ZMod (2 ^ (order + 2))) ^ second * (odd : ZMod (2 ^ (order + 2))) := by
    exact_mod_cast (ZMod.natCast_eq_natCast_iff _ _ _).mpr hMod
  have hUnit : IsUnit (odd : ZMod (2 ^ (order + 2))) := by
    rw [ZMod.isUnit_iff_coprime]
    refine Nat.Coprime.pow_right _ ?_
    rw [Nat.coprime_two_right, hOdd]
    exact ⟨2 * index hash width, by ring⟩
  have hPow := hUnit.mul_right_cancel hCast
  have hOrder := ZMod.orderOf_five order
  exact pow_injOn_Iio_orderOf (by rw [Set.mem_Iio, hOrder]; exact hFirst)
    (by rw [Set.mem_Iio, hOrder]; exact hSecond) hPow

/-- Every place is visited within one period after the bits of the hash are used up. -/
theorem exists_index {hash width order place : Nat} (hHash : hash < 2 ^ width)
    (hPlace : place < 2 ^ order) :
    ∃ step < width + 2 ^ order, index hash step % 2 ^ order = place := by
  have hPos : 0 < 2 ^ order := Nat.two_pow_pos order
  let visit : Fin (2 ^ order) → Fin (2 ^ order) :=
    fun steps => ⟨index hash (width + steps) % 2 ^ order, Nat.mod_lt _ hPos⟩
  have hInj : Function.Injective visit := by
    intro first second hSame
    exact Fin.ext (index_inj hHash first.isLt second.isLt (congrArg Fin.val hSame))
  obtain ⟨steps, hSteps⟩ := (Finite.injective_iff_surjective.mp hInj) ⟨place, hPlace⟩
  exact ⟨width + steps, by omega, congrArg Fin.val hSteps⟩

end Probe
