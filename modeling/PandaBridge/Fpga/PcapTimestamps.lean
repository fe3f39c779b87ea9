import PandaBridge.Fpga.PcapAggregates

/-! The timestamps of a row: those of its trigger, and of the first and of the end of the gated
ticks in its window. -/
namespace Fpga

namespace PcapFrame

open Clocked

variable {stdDev : Bool} (run : Run (step stdDev))

def timeAt (clock : Nat) : BitVec 64 := (run.input clock).timestamp

/-- A row with the time of its trigger, of the first gated tick of its window and of the tick after
the last one, both all ones when there is none. -/
structure Timestamps (trigger : Nat) (row : ModeTsBits) : Prop where
  trig : row.ts 5 ++ row.ts 4 = timeAt run trigger
  start : ∀ tick ∈ window run trigger, (∀ other ∈ window run trigger, tick ≤ other) →
    row.ts 1 ++ row.ts 0 = timeAt run tick
  noStart : window run trigger = ∅ → row.ts 1 ++ row.ts 0 = (-1 : BitVec 64)
  finish : ∀ tick ∈ window run trigger, (∀ other ∈ window run trigger, other ≤ tick) →
    row.ts 3 ++ row.ts 2 = timeAt run (tick + 1)
  noFinish : window run trigger = ∅ → row.ts 3 ++ row.ts 2 = (-1 : BitVec 64)

/-- There was a trigger since the frame was enabled. -/
def Triggered (clock : Nat) : Prop :=
  ∃ earlier < clock, pulse run earlier = true ∧
    ∀ tick, earlier ≤ tick → tick < clock → (run.input tick).enable = true

/-- When the timestamps of a row come out right: the gate neither rises with the trigger nor falls
right after it, and a window without any gated tick neither is the first one of its acquisition,
with an old start in the register, nor finds the flag of an old end. -/
structure TimesRegular (trigger : Nat) : Prop where
  noRise : gateAt run trigger = true → ∃ before, trigger = before + 1 ∧ gateAt run before = true
  noFall : gateAt run trigger = true → gateAt run (trigger + 1) = true
  start : window run trigger = ∅ → Triggered run trigger ∨ (run.state trigger).tsStart = -1
  finish : window run trigger = ∅ → (run.state trigger).tsEndEnable = false

variable {run}

theorem gatePrev_eq (clock : Nat) : (run.state (clock + 1)).gatePrev = gateAt run clock := by
  rw [run.edge]
  rfl

theorem last_mem_window (hGate : ∀ clock, gateAt run clock = true → (run.input clock).enable = true)
    {clock : Nat} (hHigh : gateAt run clock = true) : clock ∈ window run (clock + 1) := by
  rw [window_succ, if_neg (by simp [hGate clock hHigh]), if_pos hHigh]
  split_ifs <;> simp

theorem triggered_succ (clock : Nat) (hTriggered : Triggered run (clock + 1)) : pulse run clock = true ∨ Triggered run clock := by
  obtain ⟨earlier, hBefore, hPulse, hEnabled⟩ := hTriggered
  rcases Nat.lt_succ_iff_lt_or_eq.mp hBefore with hBefore | rfl
  · exact .inr ⟨earlier, hBefore, hPulse, fun tick hFrom hTo => hEnabled tick hFrom (by omega)⟩
  · exact .inl hPulse

/-- What the register of the start holds between two triggers. -/
structure StartHeld (run : Run (step stdDev)) (clock : Nat) : Prop where
  empty : window run clock = ∅ → (run.state clock).tsStartEnable = false ∧
    (Triggered run clock → (run.state clock).tsStart = -1)
  first : ∀ tick ∈ window run clock, (run.state clock).tsStartEnable = true ∧
    ((∀ other ∈ window run clock, tick ≤ other) → (run.state clock).tsStart = timeAt run tick)

/-- The gate of the tick before is known to the frame, and puts that tick into the window. -/
theorem gateRise_of_empty (hBoot : run.state 0 = .boot)
    (hGate : ∀ clock, gateAt run clock = true → (run.input clock).enable = true) {clock : Nat}
    (hEmpty : window run clock = ∅) (hHigh : gateAt run clock = true) :
    gateRise (run.state clock) (run.input clock) = true := by
  have hPrev : (run.state clock).gatePrev = false := by
    cases clock with
    | zero => rw [hBoot]; rfl
    | succ clock =>
        rw [gatePrev_eq, Bool.eq_false_iff]
        intro hBefore
        have hMem := last_mem_window hGate hBefore
        rw [hEmpty] at hMem
        exact absurd hMem (Finset.notMem_empty _)
  rw [gateRise, hPrev]
  exact hHigh

theorem nextTsStart_first (hBoot : run.state 0 = .boot)
    (hGate : ∀ clock, gateAt run clock = true → (run.input clock).enable = true) {clock : Nat}
    (hHeld : StartHeld run clock) (hHigh : gateAt run clock = true)
    (hFirst : pulse run clock = true ∨ window run clock = ∅) :
    nextTsStart (run.state clock) (run.input clock) = (true, timeAt run clock) := by
  have hNow : (run.input clock).gate = true := hHigh
  rw [nextTsStart, if_neg (by simp [hGate clock hHigh])]
  rcases hFirst with hPulse | hEmpty
  · have hTrig : trigPulse (run.state clock) (run.input clock) = true := hPulse
    rw [hTrig, hNow, if_pos (Bool.and_self true : (true && true) = true)]
    split_ifs <;> rfl
  · rw [(hHeld.empty hEmpty).1, gateRise_of_empty hBoot hGate hEmpty hHigh]
    rfl

/-- Nothing happens to the start at a later gated tick, or at a tick without gate. -/
theorem nextTsStart_kept (hEnable : (run.input clock).enable = true)
    (hPulse : pulse run clock = false)
    (hLater : gateAt run clock = false ∨ (run.state clock).tsStartEnable = true) :
    nextTsStart (run.state clock) (run.input clock) =
      ((run.state clock).tsStartEnable, (run.state clock).tsStart) := by
  have hTrig : trigPulse (run.state clock) (run.input clock) = false := hPulse
  have hRise : (!(run.state clock).tsStartEnable &&
      gateRise (run.state clock) (run.input clock)) = false := by
    rcases hLater with hLow | hFlag
    · have hNow : (run.input clock).gate = false := hLow
      simp [gateRise, hNow]
    · simp [hFlag]
  simp [nextTsStart, hEnable, hTrig, hRise]

theorem startHeld (hBoot : run.state 0 = .boot)
    (hGate : ∀ clock, gateAt run clock = true → (run.input clock).enable = true) (clock : Nat) :
    StartHeld run clock := by
  induction clock with
  | zero =>
      refine ⟨fun _ => ⟨by rw [hBoot]; rfl, fun hTriggered => ?_⟩, fun tick hTick => ?_⟩
      · obtain ⟨earlier, hBefore, -⟩ := hTriggered
        exact absurd hBefore (Nat.not_lt_zero _)
      · exact absurd hTick (by simp [window])
  | succ clock ih =>
      have hFlag : (run.state (clock + 1)).tsStartEnable =
          (nextTsStart (run.state clock) (run.input clock)).1 := by rw [run.edge]; rfl
      have hStart : (run.state (clock + 1)).tsStart =
          (nextTsStart (run.state clock) (run.input clock)).2 := by rw [run.edge]; rfl
      have hWindow := window_succ run clock
      by_cases hEnable : (run.input clock).enable = true
      · rw [if_neg (by simp [hEnable])] at hWindow
        by_cases hHigh : gateAt run clock = true
        · rw [if_pos hHigh] at hWindow
          by_cases hFirst : pulse run clock = true ∨ window run clock = ∅
          · -- the window starts anew with this tick
            have hOnly : window run (clock + 1) = {clock} := by
              rw [hWindow]
              rcases hFirst with hPulse | hEmpty
              · rw [if_pos hPulse]
              · rw [hEmpty]
                split_ifs <;> rfl
            rw [nextTsStart_first hBoot hGate ih hHigh hFirst] at hFlag hStart
            refine ⟨fun hEmpty => absurd hEmpty (by simp [hOnly]), fun tick hTick => ?_⟩
            rw [hOnly, Finset.mem_singleton] at hTick
            subst hTick
            exact ⟨hFlag, fun _ => hStart⟩
          · obtain ⟨hPulse, hFilled⟩ := not_or.mp hFirst
            rw [if_neg hPulse] at hWindow
            obtain ⟨some, hSome⟩ := Finset.nonempty_iff_ne_empty.mpr hFilled
            have hSet := (ih.first some hSome).1
            simp only [nextTsStart_kept hEnable (Bool.eq_false_iff.mpr hPulse) (.inr hSet)]
              at hFlag hStart
            refine ⟨fun hEmpty => absurd hEmpty (by simp [hWindow]), fun tick hTick => ?_⟩
            refine ⟨hFlag.trans hSet, fun hLeast => ?_⟩
            have hBefore : some < clock := by
              have := (Finset.mem_filter.mp hSome).1
              exact Finset.mem_range.mp this
            rw [hWindow] at hTick hLeast
            have hLe := hLeast some (Finset.mem_insert_of_mem hSome)
            rcases Finset.mem_insert.mp hTick with rfl | hTick
            · omega
            · rw [hStart]
              exact (ih.first tick hTick).2 fun other hOther =>
                hLeast other (Finset.mem_insert_of_mem hOther)
        · rw [if_neg hHigh] at hWindow
          have hLow : (run.input clock).gate = false := Bool.eq_false_iff.mpr hHigh
          by_cases hPulse : pulse run clock = true
          · have hTrig : trigPulse (run.state clock) (run.input clock) = true := hPulse
            rw [if_pos hPulse] at hWindow
            rw [nextTsStart, if_neg (by simp [hEnable]), if_neg (by simp [gateRise, hLow]),
              if_neg (by simp [hLow]), if_pos hTrig] at hFlag hStart
            exact ⟨fun _ => ⟨hFlag, fun _ => hStart⟩,
              fun tick hTick => absurd hTick (by simp [hWindow])⟩
          · rw [if_neg hPulse] at hWindow
            simp only [nextTsStart_kept hEnable (Bool.eq_false_iff.mpr hPulse)
              (.inl (Bool.eq_false_iff.mpr hHigh))] at hFlag hStart
            refine ⟨fun hEmpty => ?_, fun tick hTick => ?_⟩
            · rw [hWindow] at hEmpty
              refine ⟨hFlag.trans (ih.empty hEmpty).1, fun hTriggered => ?_⟩
              rw [hStart]
              exact (ih.empty hEmpty).2
                ((triggered_succ clock hTriggered).resolve_left hPulse)
            · rw [hWindow] at hTick
              rw [hFlag, hStart, hWindow]
              exact ih.first tick hTick
      · rw [if_pos (Bool.eq_false_iff.mpr hEnable)] at hWindow
        rw [nextTsStart, if_pos (by simp [hEnable])] at hFlag
        refine ⟨fun _ => ⟨hFlag, fun hTriggered => ?_⟩,
          fun tick hTick => absurd hTick (by simp [hWindow])⟩
        obtain ⟨earlier, hBefore, -, hEnabled⟩ := hTriggered
        exact absurd (hEnabled clock (by omega) (Nat.lt_succ_self clock)) hEnable

/-- What the register of the end holds once the gate has fallen in a window. -/
def EndHeld (run : Run (step stdDev)) (clock : Nat) : Prop :=
  ∀ tick ∈ window run clock, (∀ other ∈ window run clock, other ≤ tick) → tick + 1 < clock →
    (run.state clock).tsEndEnable = true ∧ (run.state clock).tsEnd = timeAt run (tick + 1)

theorem gate_of_mem_window {clock tick : Nat} (hTick : tick ∈ window run clock) :
    tick < clock ∧ gateAt run tick = true := by
  obtain ⟨hRange, hHigh, -⟩ := Finset.mem_filter.mp hTick
  exact ⟨Finset.mem_range.mp hRange, hHigh⟩

theorem endHeld (hGate : ∀ clock, gateAt run clock = true → (run.input clock).enable = true)
    (clock : Nat) : EndHeld run clock := by
  induction clock with
  | zero => exact fun tick hTick => absurd hTick (by simp [window])
  | succ clock ih =>
      intro tick hTick hLast hLess
      have hFlag : (run.state (clock + 1)).tsEndEnable =
          (nextTsEnd (run.state clock) (run.input clock)).1 := by rw [run.edge]; rfl
      have hEnd : (run.state (clock + 1)).tsEnd =
          (nextTsEnd (run.state clock) (run.input clock)).2 := by rw [run.edge]; rfl
      have hWindow := window_succ run clock
      split_ifs at hWindow with hEnable hHigh hPulse hPulse
      · exact absurd hTick (by simp [hWindow])
      · rw [hWindow, Finset.mem_singleton] at hTick
        omega
      · have hLe := hLast clock (hWindow ▸ Finset.mem_insert_self _ _)
        omega
      · exact absurd hTick (by simp [hWindow])
      · rw [hWindow] at hTick hLast
        have hEnable : (run.input clock).enable = true := by simpa using hEnable
        have hLow : (run.input clock).gate = false := Bool.eq_false_iff.mpr hHigh
        have hTrig : trigPulse (run.state clock) (run.input clock) = false :=
          Bool.eq_false_iff.mpr hPulse
        obtain ⟨hBefore, hGated⟩ := gate_of_mem_window hTick
        rcases Nat.eq_or_lt_of_le (Nat.succ_le_of_lt hBefore) with rfl | hLess
        · have hFall : gateFall (run.state (tick + 1)) (run.input (tick + 1)) = true := by
            rw [gateFall, gatePrev_eq, hGated, hLow]
            rfl
          simp only [nextTsEnd, hEnable, hFall, hTrig] at hFlag hEnd
          exact ⟨hFlag.trans (Bool.or_true _), hEnd⟩
        · have hFall : gateFall (run.state clock) (run.input clock) = false := by
            obtain ⟨before, rfl⟩ : ∃ before, clock = before + 1 := ⟨clock - 1, by omega⟩
            rw [gateFall, gatePrev_eq, Bool.and_eq_false_iff]
            left
            rw [Bool.eq_false_iff]
            intro hPrev
            have := hLast before (last_mem_window hGate hPrev)
            omega
          obtain ⟨hSet, hTime⟩ := ih tick hTick hLast hLess
          simp only [nextTsEnd, hEnable, hFall, hTrig] at hFlag hEnd
          exact ⟨hFlag.trans hSet, hEnd.trans hTime⟩

theorem append_time (time : BitVec 64) :
    time.extractLsb' 32 32 ++ time.extractLsb' 0 32 = time := by
  rw [BitVec.extractLsb'_append_extractLsb'_eq_extractLsb' (show 32 = 0 + 32 from rfl)]
  exact BitVec.extractLsb'_eq_self

theorem tsEnd_after (hBoot : run.state 0 = .boot)
    (hGate : ∀ clock, gateAt run clock = true → (run.input clock).enable = true) {trigger : Nat}
    (hPulse : pulse run trigger = true) (hEnable : (run.input trigger).enable = true)
    (hRegular : TimesRegular run trigger) :
    (∀ tick ∈ window run trigger, (∀ other ∈ window run trigger, other ≤ tick) →
      (run.state (trigger + 1)).tsEnd = timeAt run (tick + 1)) ∧
    (window run trigger = ∅ → (run.state (trigger + 1)).tsEnd = -1) := by
  have hTrig : trigPulse (run.state trigger) (run.input trigger) = true := hPulse
  have hEnd : (run.state (trigger + 1)).tsEnd =
      (nextTsEnd (run.state trigger) (run.input trigger)).2 := by rw [run.edge]; rfl
  -- a gate that was high at the tick before ends with the trigger
  have hBefore : ∀ before, trigger = before + 1 → gateAt run before = true →
      (∀ tick ∈ window run trigger, (∀ other ∈ window run trigger, other ≤ tick) →
        tick + 1 = trigger) ∧ window run trigger ≠ ∅ := by
    rintro before rfl hHigh
    have hMem := last_mem_window hGate hHigh
    refine ⟨fun tick hTick hLast => ?_, Finset.ne_empty_of_mem hMem⟩
    have := hLast before hMem
    have := (gate_of_mem_window hTick).1
    omega
  by_cases hHigh : gateAt run trigger = true
  · obtain ⟨before, hTrigger, hPrev⟩ := hRegular.noRise hHigh
    obtain ⟨hLast, hFilled⟩ := hBefore before hTrigger hPrev
    have hNow : (run.input trigger).gate = true := hHigh
    simp only [nextTsEnd, hEnable, gateFall, hNow, hTrig, Bool.not_true, Bool.and_false,
      Bool.false_eq_true, if_false, Bool.and_true, if_true] at hEnd
    refine ⟨fun tick hTick hTop => ?_, fun hEmpty => absurd hEmpty hFilled⟩
    rw [hLast tick hTick hTop]
    exact hEnd
  · have hNow : (run.input trigger).gate = false := Bool.eq_false_iff.mpr hHigh
    by_cases hPrev : (run.state trigger).gatePrev = true
    · obtain ⟨before, rfl⟩ : ∃ before, trigger = before + 1 := by
        cases trigger with
        | zero => rw [hBoot] at hPrev; exact absurd hPrev Bool.false_ne_true
        | succ before => exact ⟨before, rfl⟩
      obtain ⟨hLast, hFilled⟩ := hBefore before rfl (by rwa [gatePrev_eq] at hPrev)
      simp only [nextTsEnd, hEnable, gateFall, hNow, hPrev, Bool.not_true, Bool.not_false,
        Bool.and_true, Bool.false_eq_true, if_false, if_true] at hEnd
      refine ⟨fun tick hTick hTop => ?_, fun hEmpty => absurd hEmpty hFilled⟩
      rw [hLast tick hTick hTop]
      exact hEnd
    · simp only [nextTsEnd, hEnable, gateFall, hNow, hPrev, hTrig, Bool.not_true, Bool.false_and,
        Bool.and_false, Bool.false_eq_true, if_false, if_true] at hEnd
      refine ⟨fun tick hTick hTop => ?_, fun hEmpty => ?_⟩
      · obtain ⟨hLess, hGated⟩ := gate_of_mem_window hTick
        have hGap : tick + 1 < trigger := by
          refine lt_of_le_of_ne hLess fun hEq => hPrev ?_
          rw [← hEq, gatePrev_eq]
          exact hGated
        obtain ⟨hFlag, hTime⟩ := endHeld hGate trigger tick hTick hTop hGap
        rw [hEnd, if_pos hFlag, hTime]
      · rw [hEnd, if_neg (by simp [hRegular.finish hEmpty])]

theorem latchedRow_timestamps (hBoot : run.state 0 = .boot)
    (hGate : ∀ clock, gateAt run clock = true → (run.input clock).enable = true) {trigger : Nat}
    (hPulse : pulse run trigger = true) (hEnable : (run.input trigger).enable = true)
    (hApart : pulse run (trigger + 1) = false)
    (hNext : (run.input (trigger + 1)).enable = true) (hRegular : TimesRegular run trigger) :
    Timestamps run trigger (latchedRow run trigger) := by
  have hTrig : trigPulse (run.state trigger) (run.input trigger) = true := hPulse
  have hLatched : (run.state (trigger + 1)).tsStartDly = (run.state trigger).tsStart ∧
      (run.state (trigger + 1)).tsTrig = timeAt run trigger := by
    rw [run.edge]
    exact ⟨if_pos hTrig, if_pos hTrig⟩
  have hKept : (run.state (trigger + 2)).tsEnd = (run.state (trigger + 1)).tsEnd := by
    have hFall : gateFall (run.state (trigger + 1)) (run.input (trigger + 1)) = false := by
      rw [gateFall, gatePrev_eq]
      cases hHigh : gateAt run trigger with
      | false => rfl
      | true =>
          have hStays : (run.input (trigger + 1)).gate = true := hRegular.noFall hHigh
          rw [hStays]
          rfl
    rw [run.edge (trigger + 1)]
    exact tsEnd_step hApart hNext hFall
  have hHeld := startHeld hBoot hGate trigger
  obtain ⟨hFinish, hNoFinish⟩ := tsEnd_after hBoot hGate hPulse hEnable hRegular
  have hTs : (latchedRow run trigger).ts =
      ![(run.state trigger).tsStart.extractLsb' 0 32, (run.state trigger).tsStart.extractLsb' 32 32,
        (run.state (trigger + 1)).tsEnd.extractLsb' 0 32,
        (run.state (trigger + 1)).tsEnd.extractLsb' 32 32,
        (timeAt run trigger).extractLsb' 0 32, (timeAt run trigger).extractLsb' 32 32,
        (run.state (trigger + 1)).samples] := by
    rw [latchedRow, hKept, hLatched.1, hLatched.2]
  rw [latchedRow] at hTs
  refine ⟨?_, fun tick hTick hLeast => ?_, fun hEmpty => ?_, fun tick hTick hTop => ?_,
    fun hEmpty => ?_⟩ <;> rw [latchedRow, hTs]
  · exact append_time _
  · exact (append_time _).trans ((hHeld.first tick hTick).2 hLeast)
  · refine (append_time _).trans ?_
    rcases hRegular.start hEmpty with hTriggered | hOld
    · exact (hHeld.empty hEmpty).2 hTriggered
    · exact hOld
  · exact (append_time _).trans (hFinish tick hTick hTop)
  · exact (append_time _).trans (hNoFinish hEmpty)

end PcapFrame

namespace PcapCore

open Clocked PcapFrame

variable {stdDev : Bool}

/-- In every run each row whose gate and whose registers are regular has the timestamps of its
window. -/
theorem row_timestamps (run : Run (step stdDev)) (hBoot : run.state 0 = .boot)
    {trigger clock : Nat} (hRow : RowAt run trigger clock)
    (hApart : PcapFrame.pulse (frameRun run) (trigger + 1) = false)
    (hRegular : TimesRegular (frameRun run) trigger) :
    Timestamps (frameRun run) trigger (run.state clock).frame.modeTsBits := by
  have hFrame : (frameRun run).state 0 = .boot := congrArg State.frame hBoot
  rw [hRow.latched hApart]
  exact latchedRow_timestamps hFrame (frame_gate run) hRow.pulse hRow.enabled hApart
    hRow.enabled_next hRegular

theorem row_timestamps_one_trigger :
    Timestamps (frameRun (oneTrigger true enabledGate)) 5
      ((oneTrigger true enabledGate).state 9).frame.modeTsBits := by
  have hWindow : window (frameRun (oneTrigger true enabledGate)) 5 ≠ ∅ := by decide
  exact row_timestamps (oneTrigger true enabledGate) rfl (oneTrigger_row true enabledGate) rfl
    ⟨fun _ => ⟨4, rfl, rfl⟩, fun _ => rfl, fun hEmpty => absurd hEmpty hWindow,
      fun hEmpty => absurd hEmpty hWindow⟩

/-- GATE falls in the clock after the trigger. -/
def fallingGate (clock : Nat) : Bool := decide (2 ≤ clock ∧ clock ≤ 5)

/-- The gate that is still high at the trigger ends with the clock after it. -/
theorem late_end_one_trigger :
    let run := oneTrigger true fallingGate
    run.state 0 = .boot ∧
      (∀ clock, PcapFrame.pulse (frameRun run) clock = true →
        PcapFrame.pulse (frameRun run) (clock + 1) = false) ∧
      RowAt run 5 9 ∧ ¬ Timestamps (frameRun run) 5 (run.state 9).frame.modeTsBits := by
  refine ⟨rfl, oneTrigger_apart true fallingGate, oneTrigger_row true fallingGate, fun hTimes => ?_⟩
  have hLast := hTimes.finish 4 (by decide) (by decide)
  exact absurd hLast (by decide)

end PcapCore

end Fpga
