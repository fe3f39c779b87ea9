import Mathlib.Algebra.Group.Nat.Defs
import Mathlib.Data.Nat.Log

/-! Integer and bit-width helpers of `num_utils.vhd` that the other models use. -/
namespace Lqr

def ceilLog2Loop : Nat → Nat → Nat → Nat
  | 0, _, r => r
  | fuel + 1, v, r => if v = 0 then r else ceilLog2Loop fuel (v / 2) (r + 1)

/-- `ceil_log2`: halve `n - 1` until it is zero and count the halvings. The loop
runs at most `n` times. -/
def ceilLog2 (n : Nat) : Nat := ceilLog2Loop n (n - 1) 0

private theorem ceilLog2Loop_add (fuel v r : Nat) :
    ceilLog2Loop fuel v r = ceilLog2Loop fuel v 0 + r := by
  induction fuel generalizing v r with
  | zero => simp [ceilLog2Loop]
  | succ fuel ih =>
      simp only [ceilLog2Loop]
      split_ifs with hZero
      · simp
      · rw [ih (v / 2) (r + 1), ih (v / 2) (0 + 1)]
        omega

private theorem lt_two_pow_ceilLog2Loop (fuel v : Nat) (hFuel : v ≤ fuel) :
    v < 2 ^ ceilLog2Loop fuel v 0 := by
  induction fuel generalizing v with
  | zero =>
      obtain rfl : v = 0 := by omega
      exact Nat.two_pow_pos _
  | succ fuel ih =>
      simp only [ceilLog2Loop]
      split_ifs with hZero
      · simp [hZero]
      · have hHalf := ih (v / 2) (by omega)
        rw [ceilLog2Loop_add, Nat.pow_succ]
        omega

theorem le_two_pow_ceilLog2 (n : Nat) : n ≤ 2 ^ ceilLog2 n := by
  have h := lt_two_pow_ceilLog2Loop n (n - 1) (by omega)
  unfold ceilLog2
  omega

private theorem ceilLog2Loop_pred_two_pow (fuel k : Nat) (hFuel : 2 ^ k - 1 ≤ fuel) :
    ceilLog2Loop fuel (2 ^ k - 1) 0 = k := by
  induction k generalizing fuel with
  | zero => cases fuel <;> simp [ceilLog2Loop]
  | succ k ih =>
      have hPos := Nat.two_pow_pos k
      have hTwice : 2 ^ (k + 1) = 2 * 2 ^ k := Nat.pow_succ'
      obtain ⟨less, rfl⟩ : ∃ less, fuel = less + 1 := ⟨fuel - 1, by omega⟩
      have hHalf : (2 ^ (k + 1) - 1) / 2 = 2 ^ k - 1 := by omega
      rw [ceilLog2Loop, if_neg (by omega), hHalf, ceilLog2Loop_add, ih less (by omega)]

theorem ceilLog2_two_pow (k : Nat) : ceilLog2 (2 ^ k) = k :=
  ceilLog2Loop_pred_two_pow (2 ^ k) k (Nat.sub_le _ _)

/-- `num_chunks`: how many DSP operands of at most `port` bits a signed operand of
`width` bits is split into. -/
def numChunks (width port : Nat) : Nat :=
  if width ≤ port then 1 else 1 + (width - 2) / (port - 1)

theorem numChunks_pos (width port : Nat) : 0 < numChunks width port := by
  unfold numChunks
  split_ifs
  · exact Nat.one_pos
  · exact Nat.add_pos_left Nat.one_pos _

/-- The strides below the top chunk leave it at least one bit, and at most as many
as the port has. -/
theorem topChunk_width {width port : Nat} (hWidth : 0 < width) (hPort : 2 ≤ port) :
    (port - 1) * (numChunks width port - 1) < width ∧
      width - (port - 1) * (numChunks width port - 1) ≤ port := by
  unfold numChunks
  split_ifs with hFits
  · simpa using ⟨hWidth, hFits⟩
  · rw [Nat.add_sub_cancel_left]
    have hDiv := Nat.div_add_mod (width - 2) (port - 1)
    have hMod := Nat.mod_lt (width - 2) (show 0 < port - 1 by omega)
    omega

end Lqr
