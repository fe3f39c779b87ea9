import PandaBridge.Clocked.Run
import PandaBridge.Ring.Interval
import Mathlib.Data.BitVec
import Mathlib.Algebra.Order.Group.Abs
import Mathlib.Algebra.Order.Group.Int

/-! The COUNTER block: it counts edges of its trigger up and down between two bounds that are
joined, and shows the count as it changes or what it was when the block was disabled. -/
namespace Fpga.Counter

open Clocked

structure Input where
  enable : Bool
  trig : Bool
  dir : Bool
  trigEdge : BitVec 32
  outMode : BitVec 32
  set : BitVec 32
  setWstb : Bool
  start : BitVec 32
  step : BitVec 32
  max : BitVec 32
  maxWstb : Bool
  min : BitVec 32
  minWstb : Bool

/-- `nextCounter` is the variable of the process, which keeps what the last count has left. -/
structure State where
  triggerPrev : Bool
  enablePrev : Bool
  counter : BitVec 32
  counterEnd : BitVec 32
  maxVal : BitVec 32
  minVal : BitVec 32
  counterCarry : Bool
  carryLatch : Bool
  carryEnd : Bool
  nextCounter : BitVec 33

section Step

variable (s : State) (i : Input)

def triggerRise : Bool := i.trig && !s.triggerPrev

def triggerFall : Bool := !i.trig && s.triggerPrev

def triggerEdge : Bool := triggerRise s i || triggerFall s i

def gotTrigger : Bool :=
  if i.trigEdge.setWidth 2 = 2 then triggerEdge s i
  else if i.trigEdge.setWidth 2 = 1 then triggerFall s i
  else if i.trigEdge.setWidth 2 = 0 then triggerRise s i
  else false

def enableRise : Bool := i.enable && !s.enablePrev

def enableFall : Bool := !i.enable && s.enablePrev

def stepDefault : BitVec 32 := if i.step = 0 then 1 else i.step

/-- `next_counter` before the bounds are looked at. -/
def moved : BitVec 33 :=
  if i.dir then s.counter.signExtend 33 - (stepDefault i).signExtend 33
  else s.counter.signExtend 33 + (stepDefault i).signExtend 33

def above : Bool := (s.maxVal.signExtend 33).slt (moved s i)

def below : Bool := (moved s i).slt (s.minVal.signExtend 33)

/-- The distance that is taken off has 32 bits. -/
def nextCounter : BitVec 33 :=
  if above s i then moved s i - (s.maxVal - s.minVal + 1).signExtend 33
  else if below s i then moved s i + (s.maxVal - s.minVal + 1).signExtend 33
  else moved s i

def count : State :=
  if enableRise s i then { s with counter := i.start, carryLatch := false }
  else if i.setWstb then { s with counter := i.set, carryLatch := false }
  else if enableFall s i then
    { s with
      counterCarry := false
      counterEnd := s.nextCounter.setWidth 32
      carryEnd := s.carryLatch }
  else if i.enable && triggerEdge s i then
    if gotTrigger s i then
      { s with
        counterCarry := above s i || below s i
        carryLatch := s.carryLatch || (above s i || below s i)
        nextCounter := nextCounter s i
        counter := (nextCounter s i).setWidth 32 }
    else { s with counterCarry := false }
  else s

/-- One rising clock edge. -/
def step : State :=
  { count s i with
    triggerPrev := i.trig
    enablePrev := i.enable
    maxVal :=
      if i.maxWstb || i.minWstb then (if i.max = 0 ∧ i.min = 0 then 0x7FFFFFFF else i.max)
      else s.maxVal
    minVal :=
      if i.maxWstb || i.minWstb then (if i.max = 0 ∧ i.min = 0 then 0x80000000 else i.min)
      else s.minVal }

end Step

/-! ### One count -/

variable {s : State} {i : Input}

/-- What a clock adds to the count. -/
def move (s : State) (i : Input) : Int :=
  if gotTrigger s i then (if i.dir then -(stepDefault i).toInt else (stepDefault i).toInt) else 0

theorem triggerEdge_of_got (h : gotTrigger s i = true) : triggerEdge s i = true := by
  unfold gotTrigger at h
  split_ifs at h
  · exact h
  · simp [triggerEdge, h]
  · simp [triggerEdge, h]

theorem toInt_moved (h : gotTrigger s i = true) :
    (moved s i).toInt = s.counter.toInt + move s i := by
  have hCounter := BitVec.toInt_lt (x := s.counter)
  have hCounter' := BitVec.le_toInt (x := s.counter)
  have hStep := BitVec.toInt_lt (x := stepDefault i)
  have hStep' := BitVec.le_toInt (x := stepDefault i)
  unfold moved move
  rw [if_pos h]
  split_ifs
  · rw [BitVec.toInt_sub, BitVec.toInt_signExtend_of_le (by decide),
      BitVec.toInt_signExtend_of_le (by decide)]
    exact Int.bmod_eq_of_le (by omega) (by omega)
  · rw [BitVec.toInt_add, BitVec.toInt_signExtend_of_le (by decide),
      BitVec.toInt_signExtend_of_le (by decide)]
    exact Int.bmod_eq_of_le (by omega) (by omega)

/-- The distance in 32 bits is right in the bits that are kept. -/
theorem toInt_narrow (word : BitVec 33) {place : Int} (hLow : -2 ^ 31 ≤ place)
    (hHigh : place < 2 ^ 31) (h : (word.toInt - place) % 2 ^ 32 = 0) :
    (word.setWidth 32).toInt = place := by
  have hKept : (word.setWidth 32).toInt = word.toInt.bmod (2 ^ 32) := by
    rw [BitVec.toInt_setWidth, BitVec.toInt_eq_toNat_bmod, Int.bmod_bmod_of_dvd (by decide)]
  rw [hKept, Int.bmod_def]
  omega

theorem toInt_distance (high low : BitVec 32) :
    (((high - low + 1).signExtend 33).toInt - (high.toInt - low.toInt + 1)) % 2 ^ 32 = 0 := by
  have hOne : (1 : BitVec 32).toInt = 1 := rfl
  rw [BitVec.toInt_signExtend_of_le (by decide), BitVec.toInt_add, BitVec.toInt_sub, hOne,
    Int.bmod_def, Int.bmod_def]
  omega

/-- A counted edge moves the count round the interval, and the carry says whether it has passed an
end. -/
theorem counts {total : Int} (hBounds : s.minVal.toInt ≤ s.maxVal.toInt)
    (hCounter : s.counter.toInt = Ring.wrap s.minVal.toInt s.maxVal.toInt total)
    (hStep : |(stepDefault i).toInt| ≤ s.maxVal.toInt - s.minVal.toInt + 1)
    (hGot : gotTrigger s i = true) :
    ((nextCounter s i).setWidth 32).toInt =
        Ring.wrap s.minVal.toInt s.maxVal.toInt (total + move s i) ∧
      ((above s i || below s i) = true ↔
        Ring.laps s.minVal.toInt s.maxVal.toInt (total + move s i) ≠
          Ring.laps s.minVal.toInt s.maxVal.toInt total) := by
  have hMoved := toInt_moved hGot
  have hMove : |move s i| ≤ s.maxVal.toInt - s.minVal.toInt + 1 := by
    unfold move
    rw [if_pos hGot]
    split_ifs
    · rwa [abs_neg]
    · exact hStep
  have hAbove : above s i = true ↔ s.maxVal.toInt < s.counter.toInt + move s i := by
    rw [above, BitVec.slt_iff_toInt_lt, hMoved, BitVec.toInt_signExtend_of_le (by decide)]
  have hBelow : below s i = true ↔ s.counter.toInt + move s i < s.minVal.toInt := by
    rw [below, BitVec.slt_iff_toInt_lt, hMoved, BitVec.toInt_signExtend_of_le (by decide)]
  have hWrap := @Ring.wrap_move s.minVal.toInt s.maxVal.toInt total hBounds (move s i)
    (abs_le.mp hMove).1 (abs_le.mp hMove).2
  simp only [← hCounter] at hWrap
  have hDistance := toInt_distance s.maxVal s.minVal
  have hMax := BitVec.toInt_lt (x := s.maxVal)
  have hMin := BitVec.le_toInt (x := s.minVal)
  have hIn := @Ring.wrap_bounds _ _ (total + move s i) hBounds
  refine ⟨toInt_narrow _ (by omega) (by omega) ?_, ?_⟩
  · rw [hWrap.1]
    unfold nextCounter
    simp only [hAbove, hBelow]
    split_ifs
    · rw [BitVec.toInt_sub, hMoved, Int.bmod_def]
      omega
    · rw [BitVec.toInt_add, hMoved, Int.bmod_def]
      omega
    · rw [hMoved]
      omega
  · rw [Bool.or_eq_true, hAbove, hBelow]
    exact hWrap.2.symm

/-! ### Enabled periods -/

/-- From the rise of `ENABLE` to a clock before which nothing is written and `ENABLE` stays. -/
structure Enabled (run : Run step) (rise last : Nat) : Prop where
  rises : enableRise (run.state rise) (run.input rise) = true
  ordered : rise < last
  stays : ∀ clock, rise < clock → clock < last → (run.input clock).enable = true ∧
    (run.input clock).setWstb = false ∧ (run.input clock).maxWstb = false ∧
      (run.input clock).minWstb = false

/-- The bounds of a period. -/
def low (run : Run step) (rise : Nat) : Int := (run.state (rise + 1)).minVal.toInt

def high (run : Run step) (rise : Nat) : Int := (run.state (rise + 1)).maxVal.toInt

/-- What the period has come to without the bounds. -/
def total (run : Run step) (rise : Nat) : Nat → Int
  | 0 => (run.input rise).start.toInt
  | clocks + 1 => total run rise clocks +
      move (run.state (rise + 1 + clocks)) (run.input (rise + 1 + clocks))

/-- The count has passed an end of the interval at this clock of the period. -/
def Passes (run : Run step) (rise clocks : Nat) : Prop :=
  Ring.laps (low run rise) (high run rise) (total run rise (clocks + 1)) ≠
    Ring.laps (low run rise) (high run rise) (total run rise clocks)

/-- An edge has been counted in the period. -/
def Counted (run : Run step) (rise clocks : Nat) : Prop :=
  ∃ earlier < clocks, gotTrigger (run.state (rise + 1 + earlier))
    (run.input (rise + 1 + earlier)) = true

/-- The bounds hold the start, and no step is longer than the interval. -/
structure Fits (run : Run step) (rise last : Nat) : Prop where
  start : low run rise ≤ (run.input rise).start.toInt ∧
    (run.input rise).start.toInt ≤ high run rise
  step : ∀ clock, rise < clock → clock < last →
    |(stepDefault (run.input clock)).toInt| ≤ high run rise - low run rise + 1

/-- What the block has after so many clocks of a period. -/
structure Follows (run : Run step) (rise clocks : Nat) (s : State) : Prop where
  enablePrev : s.enablePrev = true
  minVal : s.minVal.toInt = low run rise
  maxVal : s.maxVal.toInt = high run rise
  counter : s.counter.toInt = Ring.wrap (low run rise) (high run rise) (total run rise clocks)
  carryLatch : s.carryLatch = true ↔ ∃ earlier < clocks, Passes run rise earlier
  counted : Counted run rise clocks → s.nextCounter.setWidth 32 = s.counter
  uncounted : ¬ Counted run rise clocks →
    s.nextCounter = (run.state rise).nextCounter ∧ s.counter = (run.input rise).start

variable {run : Run step} {rise last : Nat}

theorem Enabled.first (h : Enabled run rise last) (hFits : Fits run rise last) :
    Follows run rise 0 (run.state (rise + 1)) := by
  have hCount : count (run.state rise) (run.input rise) =
      { run.state rise with counter := (run.input rise).start, carryLatch := false } :=
    if_pos h.rises
  have hEnable : (run.input rise).enable = true := (Bool.and_eq_true_iff.mp h.rises).1
  have hWrap := (@Ring.wrap_laps_unique (low run rise) (high run rise) (run.input rise).start.toInt
    _ 0 hFits.start.1 hFits.start.2 (by omega)).1
  have hNone : ∀ {holds : Nat → Prop}, ¬ ∃ earlier < 0, holds earlier := by simp
  have hState : run.state (rise + 1) = _ := run.edge rise
  refine ⟨?_, rfl, rfl, ?_, iff_of_false ?_ hNone, fun hCounted => absurd hCounted hNone,
    fun _ => ?_⟩
  · rw [hState]
    exact hEnable
  · rw [total, hWrap, hState, step, hCount]
  · rw [hState, step, hCount]
    exact Bool.false_ne_true
  · rw [hState, step, hCount]
    exact ⟨rfl, rfl⟩

theorem count_enabled (hEnable : i.enable = true) (hPrev : s.enablePrev = true)
    (hSet : i.setWstb = false) : count s i =
      if triggerEdge s i then
        if gotTrigger s i then
          { s with
            counterCarry := above s i || below s i
            carryLatch := s.carryLatch || (above s i || below s i)
            nextCounter := nextCounter s i
            counter := (nextCounter s i).setWidth 32 }
        else { s with counterCarry := false }
      else s := by
  simp only [count, enableRise, enableFall, hEnable, hPrev, hSet, Bool.not_true, Bool.and_false,
    Bool.false_and, Bool.true_and, Bool.false_eq_true, if_false]

theorem Enabled.next (h : Enabled run rise last) (hFits : Fits run rise last) {clocks : Nat}
    (hClock : rise + 1 + clocks < last)
    (hFollows : Follows run rise clocks (run.state (rise + 1 + clocks))) :
    Follows run rise (clocks + 1) (run.state (rise + 1 + clocks + 1)) ∧
      (triggerEdge (run.state (rise + 1 + clocks)) (run.input (rise + 1 + clocks)) = true →
        ((run.state (rise + 1 + clocks + 1)).counterCarry = true ↔ Passes run rise clocks)) := by
  obtain ⟨hEnable, hSet, hMaxWstb, hMinWstb⟩ := h.stays _ (by omega) hClock
  have hStep := hFits.step _ (by omega) hClock
  have hTotal : total run rise (clocks + 1) = total run rise clocks +
    move (run.state (rise + 1 + clocks)) (run.input (rise + 1 + clocks)) := rfl
  have hPasses : Passes run rise clocks ↔ Ring.laps (low run rise) (high run rise)
    (total run rise clocks + move (run.state (rise + 1 + clocks)) (run.input (rise + 1 + clocks))) ≠
      Ring.laps (low run rise) (high run rise) (total run rise clocks) := Iff.rfl
  have hCounted : Counted run rise (clocks + 1) ↔ Counted run rise clocks ∨
    gotTrigger (run.state (rise + 1 + clocks)) (run.input (rise + 1 + clocks)) = true :=
      Nat.exists_lt_succ_right
  have hMore := @Nat.exists_lt_succ_right clocks (Passes run rise)
  rw [run.edge (rise + 1 + clocks)]
  generalize run.state (rise + 1 + clocks) = s at *
  generalize run.input (rise + 1 + clocks) = i at *
  have hCount := count_enabled hEnable hFollows.enablePrev hSet
  have hMin : (step s i).minVal = s.minVal := by simp [step, hMaxWstb, hMinWstb]
  have hMax : (step s i).maxVal = s.maxVal := by simp [step, hMaxWstb, hMinWstb]
  by_cases hGot : gotTrigger s i = true
  · have hBounds : s.minVal.toInt ≤ s.maxVal.toInt := by
      rw [hFollows.minVal, hFollows.maxVal]
      exact hFits.start.1.trans hFits.start.2
    have hCounter := hFollows.counter
    rw [← hFollows.minVal, ← hFollows.maxVal] at hCounter hStep
    obtain ⟨hPlace, hCarry⟩ := counts hBounds hCounter hStep hGot
    rw [hFollows.minVal, hFollows.maxVal] at hPlace hCarry
    rw [if_pos (triggerEdge_of_got hGot), if_pos hGot] at hCount
    rw [← hPasses] at hCarry
    refine ⟨⟨hEnable, hMin ▸ hFollows.minVal, hMax ▸ hFollows.maxVal, ?_, ?_, fun _ => ?_,
      fun hNone => absurd (hCounted.mpr (.inr hGot)) hNone⟩, fun _ => ?_⟩
    · rw [hTotal, ← hPlace, step, hCount]
    · rw [hMore, ← hFollows.carryLatch, ← hCarry, step, hCount]
      exact Bool.or_eq_true_iff
    · rw [step, hCount]
    · rw [← hCarry, step, hCount]
  · have hStill : move s i = 0 := if_neg hGot
    have hNot : ¬ Passes run rise clocks := fun hPass => hPass (by rw [hTotal, hStill, Int.add_zero])
    rw [if_neg hGot] at hCount
    have hKept : (step s i).counter = s.counter ∧ (step s i).carryLatch = s.carryLatch ∧
        (step s i).nextCounter = s.nextCounter := by
      rw [step, hCount]
      split_ifs <;> exact ⟨rfl, rfl, rfl⟩
    obtain ⟨hCounter, hLatch, hNext⟩ := hKept
    refine ⟨⟨hEnable, hMin ▸ hFollows.minVal, hMax ▸ hFollows.maxVal, ?_, ?_, fun hSome => ?_,
      fun hNone => ?_⟩, fun hEdge => iff_of_false ?_ hNot⟩
    · rw [hTotal, hStill, Int.add_zero, hCounter, hFollows.counter]
    · rw [hMore, hLatch, hFollows.carryLatch, or_iff_left hNot]
    · rw [hNext, hCounter]
      exact hFollows.counted ((hCounted.mp hSome).resolve_right hGot)
    · rw [hNext, hCounter]
      exact hFollows.uncounted fun hSome => hNone (hCounted.mpr (.inl hSome))
    · rw [step, hCount, if_pos hEdge]
      exact Bool.false_ne_true

theorem Enabled.follows (h : Enabled run rise last) (hFits : Fits run rise last) {clocks : Nat}
    (hClock : rise + 1 + clocks ≤ last) :
    Follows run rise clocks (run.state (rise + 1 + clocks)) := by
  induction clocks with
  | zero => exact h.first hFits
  | succ clocks ih => exact (h.next hFits (by omega) (ih (by omega))).1

/-- Through a whole period the count is what the start and the edges up and down come to, taken
round the interval, and the carry says after each edge whether it has passed an end. -/
theorem counter_goes_round (h : Enabled run rise last) (hFits : Fits run rise last) {clocks : Nat}
    (hClock : rise + 1 + clocks < last) :
    (run.state (rise + 1 + clocks)).counter.toInt =
        Ring.wrap (low run rise) (high run rise) (total run rise clocks) ∧
      (triggerEdge (run.state (rise + 1 + clocks)) (run.input (rise + 1 + clocks)) = true →
        ((run.state (rise + 1 + clocks + 1)).counterCarry = true ↔ Passes run rise clocks)) :=
  have hFollows := h.follows hFits (Nat.le_of_lt hClock)
  ⟨hFollows.counter, (h.next hFits hClock hFollows).2⟩

/-- When the block is disabled it takes over the count of the period exactly if an edge was counted
in it, or if what the last counted edge before the period had left is the start of it. -/
theorem disabled_shows_count_iff {clocks : Nat} (h : Enabled run rise (rise + 1 + clocks))
    (hFits : Fits run rise (rise + 1 + clocks))
    (hDisable : (run.input (rise + 1 + clocks)).enable = false)
    (hSet : (run.input (rise + 1 + clocks)).setWstb = false) :
    let after := run.state (rise + 1 + clocks + 1)
    (after.carryEnd = true ↔ ∃ earlier < clocks, Passes run rise earlier) ∧
      (after.counterEnd.toInt =
          Ring.wrap (low run rise) (high run rise) (total run rise clocks) ↔
        Counted run rise clocks ∨
          (run.state rise).nextCounter.setWidth 32 = (run.input rise).start) := by
  have hFollows := h.follows hFits le_rfl
  rw [← hFollows.carryLatch, ← hFollows.counter, run.edge (rise + 1 + clocks)]
  generalize run.state (rise + 1 + clocks) = s at *
  generalize run.input (rise + 1 + clocks) = i at *
  have hCount : count s i = { s with
      counterCarry := false
      counterEnd := s.nextCounter.setWidth 32
      carryEnd := s.carryLatch } := by
    simp [count, enableRise, enableFall, hDisable, hSet, hFollows.enablePrev]
  simp only [step, hCount, BitVec.toInt_inj]
  refine ⟨trivial, ?_⟩
  by_cases hCounted : Counted run rise clocks
  · exact iff_of_true (hFollows.counted hCounted) (.inl hCounted)
  · obtain ⟨hStale, hStart⟩ := hFollows.uncounted hCounted
    rw [hStale, hStart]
    exact (or_iff_right hCounted).symm

/-! ### One edge over the end -/

/-- The bounds 0 and 2 are written, and the one edge of the period is counted from 2. -/
def overflowing : Run step :=
  .ofInputs step ⟨false, false, 0, 0, 0x7FFFFFFF, 0x80000000, false, false, false, 0⟩ fun clock =>
    { enable := clock < 3, trig := clock == 1, dir := false, trigEdge := 0, outMode := 0, set := 0,
      setWstb := false, start := 2, step := 0, max := 2, maxWstb := clock == 0, min := 0,
      minWstb := false }

theorem overflowing_enabled : Enabled overflowing 0 (0 + 1 + 2) where
  rises := rfl
  ordered := by decide
  stays clock hFirst hLast := by
    have hBoth : clock = 1 ∨ clock = 2 := by omega
    rcases hBoth with rfl | rfl <;> decide

theorem overflowing_fits : Fits overflowing 0 (0 + 1 + 2) where
  start := by decide
  step _ _ _ := show |(1 : Int)| ≤ 2 - 0 + 1 by decide

theorem counter_goes_round_over :
    (overflowing.state 1).counter.toInt = Ring.wrap (low overflowing 0) (high overflowing 0) 2 ∧
      ((overflowing.state 2).counterCarry = true ↔ Passes overflowing 0 0) :=
  have hRound := @counter_goes_round overflowing 0 3 overflowing_enabled overflowing_fits 0
    (by decide)
  ⟨hRound.1, hRound.2 rfl⟩

theorem disabled_shows_count_over :
    (overflowing.state 4).carryEnd = true ∧
      (overflowing.state 4).counterEnd.toInt = Ring.wrap (low overflowing 0) (high overflowing 0) 3 :=
  have hShown := disabled_shows_count_iff overflowing_enabled overflowing_fits rfl rfl
  ⟨hShown.1.mpr ⟨0, by decide, by unfold Passes; decide⟩, hShown.2.mpr (.inl ⟨0, by decide, rfl⟩)⟩

end Fpga.Counter
