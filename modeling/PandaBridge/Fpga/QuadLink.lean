import PandaBridge.Fpga.Quadrature
import Mathlib.Algebra.BigOperators.Intervals
import Mathlib.Data.BitVec

/-! An encoder whose outputs go to a decoder. The count of the decoder is the sum of the steps of
the encoder, four clocks behind it. -/
namespace Fpga.QuadLink

open Clocked

structure Input where
  qenc : Qenc.Input
  linkupIncr : BitVec 32
  z : Bool
  rstOnZ : BitVec 32
  setp : BitVec 32
  setpWstb : Bool

structure State where
  qenc : Qenc.State
  qdec : Qdec.State

def qdecInput (s : State) (i : Input) : Qdec.Input where
  linkupIncr := i.linkupIncr
  ab := s.qenc.quadSt
  z := i.z
  rstOnZ := i.rstOnZ
  setp := i.setp
  setpWstb := i.setpWstb

/-- One rising clock edge. -/
def step (s : State) (i : Input) : State where
  qenc := Qenc.step s.qenc i.qenc
  qdec := Qdec.step s.qdec (qdecInput s i)

/-- The settings of a link with this period: nothing but the steps changes the count. -/
structure Settings (period : BitVec 32) (i : Input) : Prop where
  running : i.qenc.reset = false
  qperiod : i.qenc.qperiod = period
  linkup : i.linkupIncr.getLsbD 0 = true
  noIndex : (i.rstOnZ.getLsbD 0 && i.z) = false
  noSetp : i.setpWstb = false

/-- The state at the start: nothing is on its way. -/
structure AtRest (period : BitVec 32) (s : State) : Prop where
  noTrans : s.qenc.qencTrans = false
  counter : s.qenc.clkCnt.toNat < period.toNat
  new : s.qdec.decoder.quadStNew = s.qenc.quadSt
  old : s.qdec.decoder.quadStOld = s.qenc.quadSt
  noStrobe : s.qdec.decoder.quadTrans = false

section Encoder

/-- A step of the tracker, other than the load at the rise of the enable. -/
def trackerStep (s s' : Qenc.State) : BitVec 32 :=
  if s.enable then s'.posnTracker - s.posnTracker else 0

/-- The step that the registers of the encoder stand for. -/
def registered (s : Qenc.State) : BitVec 32 :=
  if s.qencTrans then if s.qencDir then -1 else 1 else 0

theorem registered_step (s : Qenc.State) (i : Qenc.Input) (hReset : i.reset = false) :
    registered (Qenc.step s i) = trackerStep s (Qenc.step s i) := by
  rcases hEnable : s.enable with - | -
  · simp only [registered, trackerStep, Qenc.step, Qenc.posnEncoding, Qenc.enableRise, hReset,
      hEnable]
    cases i.enable <;> rfl
  · simp only [registered, trackerStep, Qenc.step, Qenc.posnEncoding, Qenc.enableRise, hReset,
      hEnable]
    by_cases hSame : s.posnTracker = i.posn
    · simp [hSame]
    · cases hClk : Qenc.qencClk s i
      · simp [hSame]
      · cases hLess : s.posnTracker.slt i.posn
        · simp [hSame]
        · simp [hSame]

theorem trans_step {s : Qenc.State} {i : Qenc.Input} (hReset : i.reset = false) :
    (Qenc.step s i).qencTrans = true ↔ Qenc.enableRise s i = false ∧ s.enable = true ∧
      s.posnTracker ≠ i.posn ∧ Qenc.qencClk s i = true := by
  simp only [Qenc.step, Qenc.posnEncoding, hReset, Bool.false_eq_true, if_false]
  cases Qenc.enableRise s i
  · cases s.enable
    · simp
    · by_cases hSame : s.posnTracker = i.posn
      · simp [hSame]
      · cases Qenc.qencClk s i <;> simp [hSame]
  · simp

theorem change_step (ab : Quad) (trans dir : Bool) :
    Qdecoder.change (Qencoder.step ab false trans dir) ab =
      if trans then if dir then .negative else .positive else .still := by
  obtain ⟨b, a⟩ := ab
  cases b <;> cases a <;> cases trans <;> cases dir <;> rfl

theorem one_signal_changes {ab ab' : Quad} {trans dir : Bool}
    (hStep : ab' = Qencoder.step ab false trans dir) (hChange : ab' ≠ ab) :
    (ab'.a ≠ ab.a ∧ ab'.b = ab.b) ∨ (ab'.a = ab.a ∧ ab'.b ≠ ab.b) := by
  subst hStep
  obtain ⟨b, a⟩ := ab
  revert hChange
  cases b <;> cases a <;> cases trans <;> cases dir <;> decide

end Encoder

section Run

variable {period : BitVec 32} {run : Run step}

/-- The pulse of the prescaler. -/
def tick (run : Run step) (clock : Nat) : Prop :=
  Qenc.qencClk (run.state clock).qenc (run.input clock).qenc = true

theorem rollover_eq (hPeriod : 2 ≤ period.toNat) :
    (PrescalerPos.periodRollover period).toNat = period.toNat - 1 := by
  rw [PrescalerPos.periodRollover, if_neg (by omega), BitVec.toNat_sub_of_le]
  · rfl
  · rw [BitVec.le_def]
    show 1 % 2 ^ 32 ≤ _
    omega

variable (hPeriod : 2 ≤ period.toNat) (hSettings : ∀ clock, Settings period (run.input clock))

include hSettings in
theorem tick_iff (clock : Nat) : tick run clock ↔
    (run.state clock).qenc.clkCnt = PrescalerPos.periodRollover period := by
  rw [tick, Qenc.qencClk, PrescalerPos.pulse, (hSettings clock).qperiod, beq_iff_eq]

include hSettings in
theorem clkCnt_succ (clock : Nat) : (run.state (clock + 1)).qenc.clkCnt =
    PrescalerPos.step (run.state clock).qenc.clkCnt period (run.input clock).qenc.qperiodWstb := by
  rw [run.edge, ← (hSettings clock).qperiod]
  rfl

include hSettings in
/-- The counter counts no faster than the clock. -/
theorem clkCnt_le {first : Nat} (hZero : (run.state first).qenc.clkCnt = 0) (count : Nat) :
    (run.state (first + count)).qenc.clkCnt.toNat ≤ count := by
  induction count with
  | zero =>
      rw [Nat.add_zero, hZero]
      exact le_rfl
  | succ count ih =>
      rw [← Nat.add_assoc, clkCnt_succ hSettings, PrescalerPos.step]
      split_ifs
      · exact Nat.zero_le _
      · exact Nat.zero_le _
      · rw [BitVec.toNat_add]
        exact (Nat.mod_le _ _).trans (Nat.succ_le_succ ih)

include hPeriod hSettings in
theorem ticks_apart {first second : Nat} (hFirst : tick run first) (hSecond : tick run second)
    (hOrder : first < second) : first + period.toNat ≤ second := by
  rw [tick_iff hSettings] at hFirst hSecond
  have hZero : (run.state (first + 1)).qenc.clkCnt = 0 := by
    rw [clkCnt_succ hSettings, PrescalerPos.step, hFirst]
    split_ifs <;> simp_all
  obtain ⟨count, rfl⟩ : ∃ count, second = first + 1 + count := ⟨second - (first + 1), by omega⟩
  have hCount := clkCnt_le hSettings hZero count
  rw [hSecond, rollover_eq hPeriod] at hCount
  omega

include hSettings in
theorem tick_of_trans {clock : Nat} (hTrans : (run.state (clock + 1)).qenc.qencTrans = true) :
    tick run clock := by
  rw [run.edge] at hTrans
  exact ((trans_step (hSettings clock).running).mp hTrans).2.2.2

variable (hRest : AtRest period (run.state 0))

include hPeriod hSettings hRest in
theorem no_trans_next {clock : Nat} (hTrans : (run.state clock).qenc.qencTrans = true) :
    (run.state (clock + 1)).qenc.qencTrans = false := by
  rw [Bool.eq_false_iff]
  intro hNext
  cases clock with
  | zero => exact absurd hTrans (by rw [hRest.noTrans]; decide)
  | succ clock =>
      have := ticks_apart hPeriod hSettings (tick_of_trans hSettings hTrans)
        (tick_of_trans hSettings hNext) (Nat.lt_succ_self clock)
      omega

include hSettings in
theorem quadSt_succ (clock : Nat) : (run.state (clock + 1)).qenc.quadSt =
    Qencoder.step (run.state clock).qenc.quadSt false (run.state clock).qenc.qencTrans
      (run.state clock).qenc.qencDir := by
  rw [run.edge, ← (hSettings clock).running]
  rfl

theorem quadStNew_succ (clock : Nat) :
    (run.state (clock + 1)).qdec.decoder.quadStNew = (run.state clock).qenc.quadSt := by
  rw [run.edge]
  rfl

theorem quadStOld_succ (clock : Nat) : (run.state (clock + 1)).qdec.decoder.quadStOld =
    (run.state clock).qdec.decoder.quadStNew := by
  rw [run.edge]
  rfl

/-- The strobes of the decoder are the ones of the encoder. -/
structure Decodes (s : Qenc.State) (d : Qdecoder.State) : Prop where
  trans : d.quadTrans = s.qencTrans
  dir : d.quadDir = (s.qencTrans && s.qencDir)

theorem decodes_step {s s' : Qenc.State} {d : Qdecoder.State} {ab : Quad} (hDecodes : Decodes s d)
    (hNew : d.quadStNew = Qencoder.step d.quadStOld false s'.qencTrans s'.qencDir)
    (hApart : s.qencTrans = true → s'.qencTrans = false) :
    Decodes s' (Qdecoder.step d false ab) := by
  obtain ⟨hTrans, hDir⟩ := hDecodes
  have hChange := change_step d.quadStOld s'.qencTrans s'.qencDir
  rw [← hNew] at hChange
  constructor
  · simp only [Qdecoder.step, hChange, hTrans]
    cases hOld : s.qencTrans
    · cases s'.qencTrans <;> cases s'.qencDir <;> rfl
    · rw [hApart hOld]
      rfl
  · simp only [Qdecoder.step, hChange, hDir]
    cases hOld : s.qencTrans
    · cases s'.qencTrans <;> cases s'.qencDir <;> rfl
    · rw [hApart hOld]
      cases s.qencDir <;> rfl

/-- Without a change the decoder has no strobe next. -/
theorem still_step {d : Qdecoder.State} {ab : Quad} (hStill : d.quadStNew = d.quadStOld) :
    (Qdecoder.step d false ab).quadTrans = false ∧ (Qdecoder.step d false ab).quadDir = false := by
  have hChange := change_step d.quadStOld false false
  rw [show Qencoder.step d.quadStOld false false false = d.quadStOld from rfl, ← hStill] at hChange
  simp only [Qdecoder.step, ← hStill, hChange]
  constructor
  · cases d.quadTrans <;> rfl
  · cases d.quadDir <;> rfl

theorem decoder_succ (clock : Nat) : (run.state (clock + 1)).qdec.decoder =
    Qdecoder.step (run.state clock).qdec.decoder false (run.state clock).qenc.quadSt := by
  rw [run.edge]
  rfl

include hSettings hRest in
theorem rest_start : (run.state 1).qdec.decoder.quadTrans = false ∧
    (run.state 2).qdec.decoder.quadTrans = false ∧
    Decodes (run.state 0).qenc (run.state 3).qdec.decoder := by
  have hSame : (run.state 1).qenc.quadSt = (run.state 0).qenc.quadSt := by
    rw [quadSt_succ hSettings, hRest.noTrans]
    rfl
  have hFirst : (run.state 0).qdec.decoder.quadStNew = (run.state 0).qdec.decoder.quadStOld :=
    hRest.new.trans hRest.old.symm
  have hSecond : (run.state 1).qdec.decoder.quadStNew = (run.state 1).qdec.decoder.quadStOld := by
    rw [quadStNew_succ, quadStOld_succ, hRest.new]
  have hThird : (run.state 2).qdec.decoder.quadStNew = (run.state 2).qdec.decoder.quadStOld := by
    rw [quadStNew_succ, quadStOld_succ, quadStNew_succ, hSame]
  refine ⟨?_, ?_, ?_, ?_⟩
  · rw [decoder_succ]
    exact (still_step hFirst).1
  · rw [decoder_succ]
    exact (still_step hSecond).1
  · rw [decoder_succ, hRest.noTrans]
    exact (still_step hThird).1
  · rw [decoder_succ, hRest.noTrans]
    exact (still_step hThird).2

include hPeriod hSettings hRest in
theorem decodes (clock : Nat) :
    Decodes (run.state clock).qenc (run.state (clock + 3)).qdec.decoder := by
  induction clock with
  | zero => exact (rest_start hSettings hRest).2.2
  | succ clock ih =>
      rw [show clock + 1 + 3 = clock + 3 + 1 from rfl, decoder_succ]
      refine decodes_step ih ?_ (no_trans_next hPeriod hSettings hRest)
      rw [show clock + 3 = clock + 2 + 1 from rfl, quadStNew_succ, quadStOld_succ,
        show clock + 2 = clock + 1 + 1 from rfl, quadStNew_succ, quadSt_succ hSettings]

include hSettings in
theorem quadCount_succ (clock : Nat) : (run.state (clock + 1)).qdec.quadCount =
    (run.state clock).qdec.quadCount +
      if (run.state clock).qdec.decoder.quadTrans then
        if (run.state clock).qdec.decoder.quadDir then -1 else 1
      else 0 := by
  obtain ⟨-, -, hLink, hIndex, hSetp⟩ := hSettings clock
  rw [run.edge]
  simp only [step, Qdec.step, Qdec.count, Qdec.reset, qdecInput, hLink, hIndex, hSetp,
    Qdecoder.quadReset]
  cases (run.state clock).qdec.decoder.quadTrans
  · simp
  · cases (run.state clock).qdec.decoder.quadDir
    · simp
    · simp [sub_eq_add_neg]

include hPeriod hSettings hRest in
theorem quadCount_behind (clock : Nat) : (run.state (clock + 4)).qdec.quadCount =
    (run.state (clock + 3)).qdec.quadCount + registered (run.state clock).qenc := by
  obtain ⟨hTrans, hDir⟩ := decodes hPeriod hSettings hRest clock
  rw [show clock + 4 = clock + 3 + 1 from rfl, quadCount_succ hSettings, hTrans, hDir, registered]
  cases (run.state clock).qenc.qencTrans <;> rfl

/-- The sum of the steps of the tracker. -/
def trackerSteps (run : Run step) (clock : Nat) : BitVec 32 :=
  ∑ tick ∈ Finset.range clock,
    trackerStep (run.state tick).qenc (run.state (tick + 1)).qenc

include hPeriod hSettings hRest in
/-- The count of the decoder is the sum of the steps, four clocks later. -/
theorem quadCount_eq (clock : Nat) : (run.state (clock + 4)).qdec.quadCount =
    (run.state 0).qdec.quadCount + trackerSteps run clock := by
  induction clock with
  | zero =>
      obtain ⟨hSecond, hThird, -⟩ := rest_start hSettings hRest
      rw [quadCount_behind hPeriod hSettings hRest, registered, hRest.noTrans,
        quadCount_succ hSettings, hThird, quadCount_succ hSettings, hSecond,
        quadCount_succ hSettings, hRest.noStrobe]
      simp [trackerSteps]
  | succ clock ih =>
      have hStep : registered (run.state (clock + 1)).qenc =
          trackerStep (run.state clock).qenc (run.state (clock + 1)).qenc := by
        rw [run.edge]
        exact registered_step _ _ (hSettings clock).running
      rw [quadCount_behind hPeriod hSettings hRest, hStep, trackerSteps, Finset.sum_range_succ,
        ← trackerSteps, ← add_assoc, ← ih]

/-! ### Transitions -/

include hSettings in
theorem trans_of_change {clock : Nat}
    (hChange : (run.state (clock + 1)).qenc.quadSt ≠ (run.state clock).qenc.quadSt) :
    (run.state clock).qenc.qencTrans = true := by
  by_contra hTrans
  rw [quadSt_succ hSettings, Bool.eq_false_iff.mpr hTrans] at hChange
  exact hChange rfl

include hPeriod hSettings hRest in
theorem changes_apart {first second : Nat}
    (hFirst : (run.state (first + 1)).qenc.quadSt ≠ (run.state first).qenc.quadSt)
    (hSecond : (run.state (second + 1)).qenc.quadSt ≠ (run.state second).qenc.quadSt)
    (hOrder : first < second) : first + period.toNat ≤ second := by
  have hTrans := trans_of_change hSettings hFirst
  cases first with
  | zero => exact absurd hTrans (by rw [hRest.noTrans]; decide)
  | succ first =>
      obtain ⟨before, rfl⟩ : ∃ before, second = before + 1 := ⟨second - 1, by omega⟩
      have := ticks_apart hPeriod hSettings (tick_of_trans hSettings hTrans)
        (tick_of_trans hSettings (trans_of_change hSettings hSecond)) (by omega)
      omega

/-! ### Settling -/

/-- The encoder is enabled on one input, and its period is not written. -/
def Held (run : Run step) (posn : BitVec 32) (first last : Nat) : Prop :=
  ∀ clock, first ≤ clock → clock < last → (run.input clock).qenc.enable = true ∧
    (run.input clock).qenc.posn = posn ∧ (run.input clock).qenc.qperiodWstb = false

/-- How far the tracker is from a position. -/
def distance (run : Run step) (posn : BitVec 32) (clock : Nat) : Nat :=
  ((run.state clock).qenc.posnTracker.toInt - posn.toInt).natAbs

theorem distance_eq_zero {posn : BitVec 32} {clock : Nat} :
    distance run posn clock = 0 ↔ (run.state clock).qenc.posnTracker = posn := by
  rw [distance, Int.natAbs_eq_zero, sub_eq_zero, BitVec.toInt_inj]

include hSettings in
/-- The counter of the prescaler stays in its period. -/
theorem clkCnt_lt (hRest : AtRest period (run.state 0)) (hPeriod : 2 ≤ period.toNat)
    (clock : Nat) : (run.state clock).qenc.clkCnt.toNat < period.toNat := by
  induction clock with
  | zero => exact hRest.counter
  | succ clock ih =>
      rw [clkCnt_succ hSettings, PrescalerPos.step]
      split_ifs with hWstb hLast
      · show 0 < _
        omega
      · show 0 < _
        omega
      · have hOther : (run.state clock).qenc.clkCnt.toNat ≠ period.toNat - 1 := by
          intro hSame
          rw [← rollover_eq hPeriod] at hSame
          exact hLast (beq_iff_eq.mpr (BitVec.eq_of_toNat_eq hSame))
        rw [BitVec.toNat_add]
        exact (Nat.mod_le _ _).trans_lt
          (show (run.state clock).qenc.clkCnt.toNat + 1 < _ by omega)

include hPeriod hSettings in
/-- The pulse comes when the counter has got to the end of the period. -/
theorem tick_after (remaining clock : Nat)
    (hCount : (run.state clock).qenc.clkCnt.toNat + remaining = period.toNat - 1)
    (hQuiet : ∀ before, before < remaining →
      (run.input (clock + before)).qenc.qperiodWstb = false) :
    tick run (clock + remaining) := by
  induction remaining generalizing clock with
  | zero =>
      rw [Nat.add_zero, tick_iff hSettings]
      exact BitVec.eq_of_toNat_eq (by rw [rollover_eq hPeriod, ← hCount, Nat.add_zero])
  | succ remaining ih =>
      have hOther : ((run.state clock).qenc.clkCnt == PrescalerPos.periodRollover period) =
          false := by
        rw [beq_eq_false_iff_ne]
        intro hSame
        rw [hSame, rollover_eq hPeriod] at hCount
        omega
      have hNext : (run.state (clock + 1)).qenc.clkCnt.toNat =
          (run.state clock).qenc.clkCnt.toNat + 1 := by
        have hFits := period.isLt
        rw [clkCnt_succ hSettings, PrescalerPos.step,
          if_neg (by simp [show (run.input clock).qenc.qperiodWstb = false from
            hQuiet 0 (Nat.succ_pos remaining)]), if_neg (by simp [hOther]), BitVec.toNat_add]
        exact Nat.mod_eq_of_lt (show (run.state clock).qenc.clkCnt.toNat + 1 < _ by omega)
      have hLater := ih (clock + 1) (by omega) fun before hBefore => by
        rw [Nat.add_assoc, Nat.add_comm 1]
        exact hQuiet (before + 1) (by omega)
      rwa [Nat.add_assoc, Nat.add_comm 1] at hLater

theorem toward_input {tracker posn : BitVec 32} (hOther : tracker ≠ posn) :
    ((if tracker.slt posn then tracker + 1 else tracker - 1).toInt - posn.toInt).natAbs + 1 ≤
      (tracker.toInt - posn.toInt).natAbs := by
  have hInt : tracker.toInt ≠ posn.toInt := fun hSame => hOther (BitVec.toInt_inj.mp hSame)
  have hLow := BitVec.le_toInt tracker
  have hHigh := BitVec.toInt_lt (x := tracker)
  have hLowPosn := BitVec.le_toInt posn
  have hHighPosn := BitVec.toInt_lt (x := posn)
  by_cases hLess : tracker.toInt < posn.toInt
  · rw [if_pos (by rw [BitVec.slt_iff_toInt_lt]; exact hLess), BitVec.toInt_add]
    have hOne : (1 : BitVec 32).toInt = 1 := rfl
    rw [hOne, Int.bmod_eq_of_le (by omega) (by omega)]
    omega
  · rw [if_neg (by rw [BitVec.slt_iff_toInt_lt]; exact hLess), BitVec.toInt_sub]
    have hOne : (1 : BitVec 32).toInt = 1 := rfl
    rw [hOne, Int.bmod_eq_of_le (by omega) (by omega)]
    omega

theorem tracker_step {s : Qenc.State} {i : Qenc.Input} (hReset : i.reset = false)
    (hEnable : i.enable = true) : (Qenc.step s i).posnTracker =
      if s.enable = false ∨ s.posnTracker = i.posn then i.posn
      else if Qenc.qencClk s i then
        if s.posnTracker.slt i.posn then s.posnTracker + 1 else s.posnTracker - 1
      else s.posnTracker := by
  simp only [Qenc.step, Qenc.posnEncoding, Qenc.enableRise, hReset, hEnable, Bool.false_eq_true,
    if_false, Bool.true_and]
  cases s.enable
  · simp
  · by_cases hSame : s.posnTracker = i.posn
    · simp [hSame]
    · cases Qenc.qencClk s i <;> simp [hSame]

variable {posn : BitVec 32} {first last : Nat} (hHeld : Held run posn first last)

include hSettings hHeld in
theorem tracker_succ {clock : Nat} (hFrom : first ≤ clock) (hTo : clock < last) :
    (run.state (clock + 1)).qenc.posnTracker =
      if (run.state clock).qenc.enable = false ∨ (run.state clock).qenc.posnTracker = posn then posn
      else if Qenc.qencClk (run.state clock).qenc (run.input clock).qenc then
        if (run.state clock).qenc.posnTracker.slt posn then (run.state clock).qenc.posnTracker + 1
        else (run.state clock).qenc.posnTracker - 1
      else (run.state clock).qenc.posnTracker := by
  obtain ⟨hEnable, hPosn, -⟩ := hHeld clock hFrom hTo
  have hStep := tracker_step (s := (run.state clock).qenc) (hSettings clock).running hEnable
  rw [hPosn] at hStep
  rw [run.edge]
  exact hStep

include hSettings hHeld in
theorem distance_succ (clock : Nat) (hFrom : first ≤ clock) (hTo : clock < last) :
    distance run posn (clock + 1) ≤ distance run posn clock := by
  have hTracker := tracker_succ hSettings hHeld hFrom hTo
  by_cases hAt : (run.state clock).qenc.enable = false ∨ (run.state clock).qenc.posnTracker = posn
  · rw [if_pos hAt] at hTracker
    rw [distance_eq_zero.mpr hTracker]
    exact Nat.zero_le _
  · rw [if_neg hAt] at hTracker
    have hToward := toward_input (not_or.mp hAt).2
    rw [distance, hTracker, distance]
    split_ifs at hToward ⊢ <;> omega

include hSettings hHeld in
/-- The tracker takes a step with every pulse of the prescaler. -/
theorem distance_tick {clock : Nat} (hFrom : first < clock) (hTo : clock < last)
    (hTick : tick run clock) : distance run posn (clock + 1) ≤ distance run posn clock - 1 := by
  have hTracker := tracker_succ hSettings hHeld (Nat.le_of_lt hFrom) hTo
  have hEnable : (run.state clock).qenc.enable = true := by
    obtain ⟨before, rfl⟩ : ∃ before, clock = before + 1 := ⟨clock - 1, by omega⟩
    rw [run.edge]
    exact (hHeld before (by omega) (by omega)).1
  by_cases hAt : (run.state clock).qenc.posnTracker = posn
  · rw [if_pos (.inr hAt)] at hTracker
    rw [distance_eq_zero.mpr hTracker]
    exact Nat.zero_le _
  · rw [tick] at hTick
    rw [if_neg (by simp [hEnable, hAt]), if_pos hTick] at hTracker
    have hToward := toward_input hAt
    rw [distance, hTracker, distance]
    omega

include hSettings hHeld in
theorem distance_antitone (clock later : Nat) (hFrom : first ≤ clock) (hOrder : clock ≤ later)
    (hTo : later ≤ last) : distance run posn later ≤ distance run posn clock := by
  induction later, hOrder using Nat.le_induction with
  | base => exact le_rfl
  | succ later hOrder ih =>
      exact (distance_succ hSettings hHeld later (by omega) (by omega)).trans (ih (by omega))

include hPeriod hSettings hRest hHeld in
theorem distance_periods (count clock : Nat) (hFrom : first < clock)
    (hTo : clock + count * period.toNat ≤ last) :
    distance run posn (clock + count * period.toNat) ≤ distance run posn clock - count := by
  induction count with
  | zero => rw [Nat.zero_mul]; exact le_rfl
  | succ count ih =>
      rw [Nat.succ_mul, ← Nat.add_assoc] at hTo ⊢
      have hBefore := ih (by omega)
      have hInPeriod := clkCnt_lt hSettings hRest hPeriod (clock + count * period.toNat)
      obtain ⟨wait, hWait⟩ : ∃ wait, (run.state (clock + count * period.toNat)).qenc.clkCnt.toNat +
          wait = period.toNat - 1 := ⟨_, Nat.add_sub_of_le (by omega)⟩
      have hTick := tick_after hPeriod hSettings wait _ hWait fun before hBefore =>
        (hHeld _ (by omega) (by omega)).2.2
      have hStep := distance_tick hSettings hHeld (by omega) (by omega) hTick
      have hUntil := distance_antitone hSettings hHeld (clock + count * period.toNat)
        (clock + count * period.toNat + wait) (by omega) (by omega) (by omega)
      have hAfter := distance_antitone hSettings hHeld
        (clock + count * period.toNat + wait + 1) (clock + count * period.toNat + period.toNat) (by omega) (by omega) hTo
      omega

include hPeriod hSettings hRest hHeld in
/-- The tracker gets to a constant input, a period for each step, and the signals stand still from
the clock after that. -/
theorem settles {clock : Nat}
    (hFrom : first + 2 + distance run posn first * period.toNat ≤ clock) (hTo : clock ≤ last) :
    (run.state clock).qenc.posnTracker = posn ∧ (run.state clock).qenc.quadSt =
      (run.state (first + 2 + distance run posn first * period.toNat)).qenc.quadSt := by
  have hStart := distance_succ hSettings hHeld first le_rfl (by omega)
  have hThere := distance_periods hPeriod hSettings hRest hHeld (distance run posn first)
    (first + 1) (Nat.lt_succ_self first) (by omega)
  have hAt : ∀ later, first + 1 + distance run posn first * period.toNat ≤ later → later ≤ last →
      (run.state later).qenc.posnTracker = posn := by
    intro later hLow hHigh
    have hLater := distance_antitone hSettings hHeld _ later (by omega) hLow hHigh
    exact distance_eq_zero.mp (by omega)
  refine ⟨hAt clock (by omega) hTo, ?_⟩
  refine stable_of_kept (fun clock => (run.state clock).qenc.quadSt) _ last
    (fun later hLow hHigh => ?_) hFrom hTo
  by_contra hChange
  have hTrans := trans_of_change hSettings hChange
  obtain ⟨before, rfl⟩ : ∃ before, later = before + 1 := ⟨later - 1, by omega⟩
  rw [run.edge] at hTrans
  refine ((trans_step (hSettings before).running).mp hTrans).2.2.1 ?_
  rw [hAt before (by omega) (by omega), (hHeld before (by omega) (by omega)).2.1]

end Run

/-- What a decoder that listens to an encoder agrees on. -/
structure Agrees (period : BitVec 32) (run : Run step) : Prop where
  oneSignal : ∀ clock, (run.state (clock + 1)).qenc.quadSt ≠ (run.state clock).qenc.quadSt →
    (run.state (clock + 1)).qenc.quadSt.a ≠ (run.state clock).qenc.quadSt.a ∧
        (run.state (clock + 1)).qenc.quadSt.b = (run.state clock).qenc.quadSt.b ∨
      (run.state (clock + 1)).qenc.quadSt.a = (run.state clock).qenc.quadSt.a ∧
        (run.state (clock + 1)).qenc.quadSt.b ≠ (run.state clock).qenc.quadSt.b
  apart : ∀ first second,
    (run.state (first + 1)).qenc.quadSt ≠ (run.state first).qenc.quadSt →
    (run.state (second + 1)).qenc.quadSt ≠ (run.state second).qenc.quadSt →
    first < second → first + period.toNat ≤ second
  counts : ∀ clock, (run.state (clock + 4)).qdec.quadCount - (run.state 0).qdec.quadCount =
    trackerSteps run clock
  settles : ∀ posn first last, Held run posn first last → ∀ clock,
    first + 2 + distance run posn first * period.toNat ≤ clock → clock ≤ last →
    (run.state clock).qenc.posnTracker = posn ∧ (run.state clock).qenc.quadSt =
      (run.state (first + 2 + distance run posn first * period.toNat)).qenc.quadSt

/-- The signals of the encoder move by single Gray steps at least a period apart, the decoder
counts the steps of the tracker, and the tracker settles on a constant input. -/
theorem quadrature_agrees {period : BitVec 32} (hPeriod : 2 ≤ period.toNat) (run : Run step)
    (hSettings : ∀ clock, Settings period (run.input clock))
    (hRest : AtRest period (run.state 0)) : Agrees period run where
  oneSignal clock hChange := one_signal_changes (quadSt_succ hSettings clock) hChange
  apart _ _ hFirst hSecond hOrder :=
    changes_apart hPeriod hSettings hRest hFirst hSecond hOrder
  counts clock := by
    rw [quadCount_eq hPeriod hSettings hRest, add_sub_cancel_left]
  settles _ _ _ hHeld _ hFrom hTo := settles hPeriod hSettings hRest hHeld hFrom hTo

/-- The registers before the first clock edge. -/
def State.boot : State where
  qenc := ⟨false, 0, 0, false, false, false, .state0⟩
  qdec := ⟨false, 0, ⟨.state0, .state0, false, false, false⟩⟩

/-- An encoder that is enabled on position 5, goes on to 7 and turns back to 6, with a period of
3. -/
def enabledRun : Run step := .ofInputs step .boot fun clock =>
  ⟨⟨false, true, if clock < 2 then 5 else if clock < 12 then 7 else 6, 3, false⟩, 1, false, 0, 0,
    false⟩

theorem quadrature_agrees_enabled : 2 ≤ (3 : BitVec 32).toNat ∧
    (∀ clock, Settings 3 (enabledRun.input clock)) ∧ AtRest 3 (enabledRun.state 0) ∧
    Agrees 3 enabledRun ∧ (enabledRun.state 10).qdec.quadCount = 2 ∧
    (enabledRun.state 19).qdec.quadCount = 1 :=
  have hPeriod : 2 ≤ (3 : BitVec 32).toNat := by decide
  have hSettings : ∀ clock, Settings 3 (enabledRun.input clock) :=
    fun _ => ⟨rfl, rfl, show (1 : BitVec 32).getLsbD 0 = true by decide, Bool.and_false _, rfl⟩
  have hRest : AtRest 3 (enabledRun.state 0) := ⟨rfl, by decide, rfl, rfl, rfl⟩
  ⟨hPeriod, hSettings, hRest, quadrature_agrees hPeriod enabledRun hSettings hRest, by decide,
    by decide⟩

end Fpga.QuadLink
