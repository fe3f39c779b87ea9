import Mathlib.Logic.Function.Iterate
import Mathlib.Data.BitVec

/-! Check codes from a shift register with feedback. The register is linear in what it is fed, so
that what it makes of inverted bits does not depend on the frame. -/
namespace Coding

variable {width : Nat} (taps : BitVec width)

/-- The register shifts by one bit, and the bit that falls out of it goes back in. -/
def shiftBit (crc : BitVec width) (bit : Bool) : BitVec width :=
  if bit ^^ crc.msb then crc <<< 1 ^^^ taps else crc <<< 1

/-- The register after so many bits. -/
def feed (crc : BitVec width) (bits : List Bool) : BitVec width := bits.foldl (shiftBit taps) crc

@[simp] theorem feed_nil (crc : BitVec width) : feed taps crc [] = crc := rfl

@[simp] theorem feed_cons (crc : BitVec width) (bit : Bool) (bits : List Bool) :
    feed taps crc (bit :: bits) = feed taps (shiftBit taps crc bit) bits := rfl

theorem feed_append (crc : BitVec width) (bits later : List Bool) :
    feed taps crc (bits ++ later) = feed taps (feed taps crc bits) later :=
  List.foldl_append

theorem shiftBit_zero_false : shiftBit taps 0#(width) false = 0#(width) := by simp [shiftBit]

theorem shiftBit_zero_true : shiftBit taps 0#(width) true = taps := by simp [shiftBit]

/-- What goes back into the register. -/
def feedback (bit : Bool) : BitVec width := if bit then taps else 0

theorem feedback_xor (bit flip : Bool) :
    feedback taps (bit ^^ flip) = feedback taps bit ^^^ feedback taps flip := by
  cases bit <;> cases flip <;> simp [feedback]

theorem shiftBit_eq (crc : BitVec width) (bit : Bool) :
    shiftBit taps crc bit = crc <<< 1 ^^^ feedback taps (bit ^^ crc.msb) := by
  rw [shiftBit, feedback]
  split_ifs <;> simp

theorem shiftBit_xor (crc other : BitVec width) (bit flip : Bool) :
    shiftBit taps (crc ^^^ other) (bit ^^ flip) =
      shiftBit taps crc bit ^^^ shiftBit taps other flip := by
  have hSwap : ((bit ^^ flip) ^^ (crc.msb ^^ other.msb)) =
      ((bit ^^ crc.msb) ^^ (flip ^^ other.msb)) := by
    cases bit <;> cases flip <;> cases crc.msb <;> cases other.msb <;> rfl
  rw [shiftBit_eq, shiftBit_eq, shiftBit_eq, BitVec.msb_xor, BitVec.shiftLeft_xor_distrib, hSwap,
    feedback_xor]
  ac_rfl

theorem feed_xor (bits flips : List Bool) (hLength : bits.length = flips.length)
    (crc other : BitVec width) :
    feed taps (crc ^^^ other) (List.zipWith xor bits flips) =
      feed taps crc bits ^^^ feed taps other flips := by
  induction bits generalizing flips crc other with
  | nil =>
      obtain rfl := List.eq_nil_of_length_eq_zero hLength.symm
      rfl
  | cons bit bits ih =>
      obtain ⟨flip, flips, rfl⟩ := List.exists_cons_of_length_eq_add_one hLength.symm
      rw [List.zipWith_cons_cons, feed_cons, feed_cons, feed_cons, shiftBit_xor]
      exact ih flips (Nat.succ.inj hLength) _ _

/-- A clear register stays so until an inverted bit. -/
theorem feed_zero_replicate (count : Nat) :
    feed taps 0#(width) (List.replicate count false) = 0#(width) := by
  induction count with
  | zero => rfl
  | succ count ih => rw [List.replicate_succ, feed_cons, shiftBit_zero_false, ih]

/-- A shift without input. -/
def turn (crc : BitVec width) : BitVec width := shiftBit taps crc false

theorem turn_zero : turn taps 0#(width) = 0#(width) := shiftBit_zero_false taps

theorem feed_replicate (crc : BitVec width) (count : Nat) :
    feed taps crc (List.replicate count false) = (turn taps)^[count] crc := by
  induction count generalizing crc with
  | zero => rfl
  | succ count ih => rw [List.replicate_succ, feed_cons, ih, Function.iterate_succ_apply, turn]

theorem exists_first {flips : List Bool} (hSome : 0 < flips.count true) :
    ∃ before rest, flips = List.replicate before false ++ true :: rest := by
  induction flips with
  | nil => exact absurd hSome (by decide)
  | cons flip flips ih =>
      cases flip with
      | true => exact ⟨0, flips, rfl⟩
      | false =>
          obtain ⟨before, rest, rfl⟩ := ih (by simpa using hSome)
          exact ⟨before + 1, rest, rfl⟩

theorem eq_replicate_of_count {flips : List Bool} (hNone : flips.count true = 0) :
    flips = List.replicate flips.length false := by
  refine List.eq_replicate_of_mem fun flip hMem => ?_
  cases flip with
  | true => exact absurd hMem (List.count_eq_zero.mp hNone)
  | false => rfl

section Detection

variable (hTaps : taps.getLsbD 0 = true)

include hTaps in
/-- A register whose feedback goes to its first bit does not become clear by itself. -/
theorem eq_zero_of_shift {crc : BitVec width} (hZero : turn taps crc = 0#(width)) :
    crc = 0#(width) := by
  have hWidth : 0 < width := BitVec.lt_of_getLsbD hTaps
  rw [turn, shiftBit, Bool.false_xor] at hZero
  cases hTop : crc.msb with
  | true =>
      rw [hTop, if_pos rfl] at hZero
      have hFirst := congrArg (·.getLsbD 0) hZero
      simp [hTaps] at hFirst
  | false =>
      rw [hTop, if_neg Bool.false_ne_true] at hZero
      refine BitVec.eq_of_getLsbD_eq fun place hPlace => ?_
      rw [BitVec.getLsbD_zero]
      by_cases hLast : place = width - 1
      · rw [hLast, ← BitVec.msb_eq_getLsbD_last, hTop]
      · have hNext := congrArg (·.getLsbD (place + 1)) hZero
        simpa [show place + 1 < width by omega, BitVec.getLsbD_eq_getElem hPlace] using hNext

include hTaps in
theorem iterate_injective (count : Nat) :
    Function.Injective (turn taps)^[count] := by
  refine Function.Injective.iterate (fun crc other hSame => ?_) count
  have hZero : turn taps (crc ^^^ other) = 0#(width) := by
    have hXor := shiftBit_xor taps crc other false false
    rw [Bool.xor_false] at hXor
    rw [turn, hXor, show shiftBit taps crc false = shiftBit taps other false from hSame,
      BitVec.xor_self]
  exact BitVec.xor_eq_zero_iff.mp (eq_zero_of_shift taps hTaps hZero)

include hTaps in
theorem feed_one_ne_zero (before after : Nat) :
    feed taps 0#(width) (List.replicate before false ++ true :: List.replicate after false) ≠
      0#(width) := by
  rw [feed_append, feed_zero_replicate, feed_cons, shiftBit_zero_true, feed_replicate]
  intro hZero
  have hFixed : (turn taps)^[after] 0#(width) = 0#(width) :=
    Function.iterate_fixed (turn_zero taps) after
  have hNone := iterate_injective taps hTaps after (hZero.trans hFixed.symm)
  rw [hNone, BitVec.getLsbD_zero] at hTaps
  exact absurd hTaps Bool.false_ne_true

include hTaps in
/-- Two inverted bits show, when the register does not come round between them. -/
theorem feed_two_ne_zero (before between after : Nat)
    (hPeriod : (turn taps)^[between + 1] taps ≠ taps) :
    feed taps 0#(width) (List.replicate before false ++
      true :: (List.replicate between false ++ true :: List.replicate after false)) ≠
      0#(width) := by
  rw [feed_append, feed_zero_replicate, feed_cons, shiftBit_zero_true, feed_append, feed_replicate,
    feed_cons, feed_replicate]
  intro hZero
  have hFixed : (turn taps)^[after] 0#(width) = 0#(width) :=
    Function.iterate_fixed (turn_zero taps) after
  have hNone := iterate_injective taps hTaps after (hZero.trans hFixed.symm)
  have hSplit := shiftBit_xor taps
    ((turn taps)^[between] taps) 0#(width) false true
  rw [BitVec.xor_zero, shiftBit_zero_true, Bool.false_xor] at hSplit
  rw [hSplit, BitVec.xor_eq_zero_iff] at hNone
  rw [Function.iterate_succ_apply'] at hPeriod
  exact hPeriod hNone

include hTaps in
/-- One or two inverted bits show, in a frame that is shorter than the period of the register. -/
theorem feed_flips_ne_zero {flips : List Bool} (hOne : 1 ≤ flips.count true)
    (hTwo : flips.count true ≤ 2)
    (hPeriod : ∀ distance, 0 < distance → distance < flips.length →
      (turn taps)^[distance] taps ≠ taps) : feed taps 0#(width) flips ≠ 0#(width) := by
  obtain ⟨before, rest, rfl⟩ := exists_first hOne
  have hCount : rest.count true ≤ 1 := by
    simpa [List.count_replicate] using hTwo
  rcases Nat.eq_zero_or_pos (rest.count true) with hNone | hMore
  · rw [eq_replicate_of_count hNone]
    exact feed_one_ne_zero taps hTaps before rest.length
  · obtain ⟨between, last, rfl⟩ := exists_first hMore
    have hNone : last.count true = 0 := by
      simpa [List.count_replicate] using hCount
    rw [eq_replicate_of_count hNone]
    refine feed_two_ne_zero taps hTaps before between last.length (hPeriod _ (by omega) ?_)
    simp only [List.length_append, List.length_cons, List.length_replicate]
    omega

end Detection

end Coding
