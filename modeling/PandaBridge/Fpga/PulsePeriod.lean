import PandaBridge.Fpga.PulseShape
import Mathlib.Data.Finset.Card
import Mathlib.Data.Finset.Range

/-! The pulses, the dropped triggers and the queue of the PULSE block over an enabled period. -/
namespace Fpga.Pulse

open Clocked

instance (run : Run step) (start trigger : Nat) : Decidable (Triggers run start trigger) :=
  inferInstanceAs (Decidable (_ ∧ _))

/-- The triggers accepted before a clock whose trains are not finished after it. -/
def unfinished (run : Run step) (p : Params) (start clock : Nat) : Finset Nat :=
  (Finset.range clock).filter fun trigger =>
    Triggers run start trigger ∧ clock < trigger + p.delay + p.busy

section
variable {run : Run step} {p : Params} {start clock : Nat} {pending : List Nat}

namespace Shape

theorem out_iff (h : Shape run p start clock pending) (hTimed : p.Timed) :
    out (run.state clock) = true ↔ ∃ trigger pulse, Triggers run start trigger ∧
      pulse < p.count ∧ p.riseAt trigger pulse < clock ∧ clock ≤ p.fallAt trigger pulse := by
  have hWide := hTimed.width_ge
  have hCount := p.count_pos
  obtain ⟨hFour, hLead, hLead', hSame⟩ := p.lead_bounds
  have hMaking := h.making
  have hOverride := h.override
  have hSorted := h.sorted
  have hMem := h.mem
  rw [out, Bool.or_eq_true]
  constructor
  · rintro (hOn | hPulse)
    · obtain ⟨hDelay, trigger, hTrigger, hPast, hSoon⟩ := hOverride.mp hOn
      have hFirst : p.riseAt trigger 0 = trigger := by
        rw [Params.riseAt, hDelay, Nat.zero_mul]
        rfl
      refine ⟨trigger, 0, hTrigger, hCount, by omega, ?_⟩
      rw [Params.fallAt]
      omega
    · cases pending with
      | nil => exact absurd (hMaking.2.symm.trans hPulse) Bool.false_ne_true
      | cons head rest =>
          have hHead := ((hMem head).mp List.mem_cons_self).1
          cases (hMaking : Making p start head clock _) with
          | waiting _ _ hLow => exact absurd (hLow.symm.trans hPulse) Bool.false_ne_true
          | low _ _ _ _ _ hLow => exact absurd (hLow.symm.trans hPulse) Bool.false_ne_true
          | @high pulse hLess _ hRisen hBefore => exact ⟨head, pulse, hHead, hLess, hRisen, hBefore⟩
  · rintro ⟨trigger, pulse, hTrigger, hLess, hRisen, hBefore⟩
    have hMost := @Params.fallAt_le p trigger pulse hLess
    have hStart : trigger + p.delay ≤ p.riseAt trigger pulse := Nat.le_add_right _ _
    have hIn := (hMem trigger).mpr ⟨hTrigger, by omega, by omega⟩
    cases pending with
    | nil => exact absurd hIn List.not_mem_nil
    | cons head rest =>
        obtain ⟨hHead, hPast, hOpen⟩ := (hMem head).mp List.mem_cons_self
        -- the train of a later trigger has not begun while the first one is unfinished
        have hFirst : trigger = head := by
          rcases List.mem_cons.mp hIn with hSame | hRest
          · exact hSame
          · have := h.spaced head trigger hHead hTrigger
              ((List.pairwise_cons.mp hSorted).1 trigger hRest) (by omega)
            omega
        subst hFirst
        cases (hMaking : Making p start trigger clock _) with
        | waiting hEarly =>
            have hDelay : p.delay = 0 := by
              by_contra hSome
              have := hSame hSome
              omega
            exact .inl (hOverride.mpr ⟨hDelay, trigger, hTrigger, by omega, by omega⟩)
        | high _ _ _ _ _ _ hHigh => exact .inr hHigh
        | @low other _ hFallen hSoon =>
            rcases Nat.lt_or_ge other pulse with hLater | hEarlier
            · have : p.riseAt trigger (other + 1) ≤ p.riseAt trigger pulse :=
                Params.riseAt_mono hLater
              omega
            · have : p.riseAt trigger pulse ≤ p.riseAt trigger other := Params.riseAt_mono hEarlier
              rw [Params.fallAt] at hFallen hBefore
              omega

/-- The queue holds the triggers that were accepted before the last clock. -/
theorem queued_eq (h : Shape run p start (clock + 1) pending) (hTimed : p.Timed) :
    queued (run.state (clock + 1)) = (unfinished run p start clock).card := by
  have hBusy := hTimed.width_ge.trans p.width_le_busy
  obtain ⟨q, hHolds, hEntries, _⟩ := h.queue
  have hNodup : pending.Nodup := h.sorted.imp fun hLess => hLess.ne
  have hWritten := h.written
  rw [Nat.add_sub_cancel] at hWritten
  have hLength := congrArg List.length hEntries
  rw [List.length_append, List.length_map] at hLength
  have hAll : pending.toFinset = if (run.state (clock + 1)).fill.pulseQueuedWstb then
      insert clock (unfinished run p start clock) else unfinished run p start clock := by
    ext trigger
    have hMem := h.mem trigger
    rw [List.mem_toFinset, hMem]
    split_ifs with hNow
    · have hClock := hWritten.mp hNow
      rw [Finset.mem_insert, unfinished, Finset.mem_filter, Finset.mem_range]
      constructor
      · rintro ⟨hTrigger, hPast, hOpen⟩
        rcases Nat.lt_succ_iff_lt_or_eq.mp hPast with hLess | hSame
        · exact .inr ⟨hLess, hTrigger, by omega⟩
        · exact .inl hSame
      · rintro (rfl | ⟨hLess, hTrigger, hOpen⟩)
        · exact ⟨hClock, Nat.lt_succ_self _, by omega⟩
        · exact ⟨hTrigger, by omega, by omega⟩
    · have hNone := mt hWritten.mpr hNow
      rw [unfinished, Finset.mem_filter, Finset.mem_range]
      constructor
      · rintro ⟨hTrigger, hPast, hOpen⟩
        rcases Nat.lt_succ_iff_lt_or_eq.mp hPast with hLess | rfl
        · exact ⟨hLess, hTrigger, by omega⟩
        · exact absurd hTrigger hNone
      · rintro ⟨hLess, hTrigger, hOpen⟩
        exact ⟨hTrigger, by omega, by omega⟩
  have hCard := List.toFinset_card_of_nodup hNodup
  rw [queued, hHolds.depth_eq (by decide)]
  rw [hAll] at hCard
  split_ifs at hCard hLength with hNow
  · rw [Finset.card_insert_of_notMem] at hCard
    · simp only [List.length_singleton] at hLength
      omega
    · rw [unfinished, Finset.mem_filter, Finset.mem_range]
      exact fun hIn => Nat.lt_irrefl _ hIn.1
  · simp only [List.length_nil] at hLength
    omega

/-- There is room in the queue as long as it is not full. -/
theorem ready_iff (h : Shape run p start clock pending) (hTimed : p.Timed) :
    (run.state clock).queue.writeReadyO = true ↔ queued (run.state clock) < 257 := by
  have hBusy := hTimed.width_ge.trans p.width_le_busy
  obtain ⟨q, hHolds, hEntries, hShow, hReady⟩ := h.queue
  have hMem := h.mem
  have hSorted := h.sorted
  have hLength := congrArg List.length hEntries
  rw [List.length_append, List.length_map] at hLength
  rw [hReady, queued, hHolds.depth_eq (by decide), Fifo.Queue.entries, List.length_append]
  cases hShown : q.shown with
  | some entry =>
      show q.stored.length < 256 ↔ 1 + q.stored.length < 257
      omega
  | none =>
      have hFew : pending.length ≤ 1 := by
        rcases pending with _ | ⟨head, _ | ⟨other, rest⟩⟩
        · exact Nat.zero_le _
        · exact le_rfl
        · have hLate := hShow hShown head List.mem_cons_self
          obtain ⟨hHead, _⟩ := (hMem head).mp List.mem_cons_self
          obtain ⟨hOther, hPast, _⟩ :=
            (hMem other).mp (List.mem_cons_of_mem head List.mem_cons_self)
          have := h.spaced head other hHead hOther
            ((List.pairwise_cons.mp hSorted).1 other List.mem_cons_self) hPast
          omega
      rw [Fifo.Queue.entries, hShown, List.length_append] at hLength
      show q.stored.length < 256 ↔ 0 + q.stored.length < 257
      have hNone : (Option.toList (none : Option Entry)).length = 0 := rfl
      omega

theorem dropped_next (h : Shape run p start clock pending) (hTimed : p.Timed)
    (hStart : start < clock) (hEnabled : isEnabled (run.input clock) = true)
    (hShort : clock - start < 2 ^ 48) : dropped (run.state (clock + 1)) =
      if gotTrigger (run.state clock) (run.input clock) = true ∧
          accepts (run.state clock) (run.input clock) = false then
        dropped (run.state clock) + 1
      else dropped (run.state clock) := by
  by_cases hTrigger : Triggers run start clock
  · rw [if_neg fun hBoth => absurd (hBoth.2.symm.trans hTrigger.2) Bool.false_ne_true, dropped,
      h.fill_accepted hTimed hStart hEnabled hShort hTrigger]
    rfl
  · have hNone : accepts (run.state clock) (run.input clock) = false :=
      Bool.eq_false_iff.mpr fun hAccepts => hTrigger ⟨hStart, hAccepts⟩
    rw [dropped, h.fill_next ⟨fun hNow => hNow.2, fun hNow => ⟨hStart, hNow⟩⟩ hEnabled hTrigger]
    simp only [hNone, and_true]
    rfl

end Shape

/-- What a period is to make of its triggers. -/
structure Shaped (run : Run step) (p : Params) (start last : Nat) : Prop where
  accepted : ∀ clock, start < clock → clock ≤ last →
    gotTrigger (run.state clock) (run.input clock) = true →
    (accepts (run.state clock) (run.input clock) = true ↔
      (∀ trigger, Triggers run start trigger → trigger < clock → trigger + p.busy + 1 ≤ clock) ∧
        queued (run.state clock) < 257)
  dropped : ∀ clock, start < clock → clock ≤ last → dropped (run.state (clock + 1)) =
    if gotTrigger (run.state clock) (run.input clock) = true ∧
        accepts (run.state clock) (run.input clock) = false then
      dropped (run.state clock) + 1
    else dropped (run.state clock)
  pulses : ∀ clock, start ≤ clock → clock ≤ last → (out (run.state (clock + 1)) = true ↔
    ∃ trigger pulse, Triggers run start trigger ∧ pulse < p.count ∧
      p.riseAt trigger pulse ≤ clock ∧ clock < p.riseAt trigger pulse + p.width)
  apart : ∀ trigger later, Triggers run start trigger → Triggers run start later → later ≤ last →
    trigger < later → ∀ pulse other, pulse < p.count → other < p.count →
      p.riseAt trigger pulse + p.width < p.riseAt later other
  queued : ∀ clock, start ≤ clock → clock ≤ last →
    queued (run.state (clock + 1)) = (unfinished run p start clock).card

end

/-- PULSE makes its trains in every period in which the output register of the queue is not
compared while stale and the time of a train fits its register. -/
theorem pulse_trains (run : Run step) (hBoot : run.state 0 = .boot) (hParams : ParamsStrobed run)
    (start last : Nat) (hPeriod : Period run start last) (hShort : last - start < 2 ^ 48)
    (hSettled : Settled run start) (hTimed : (run.input start).params.Timed)
    (hFresh : ∀ clock, start < clock → clock ≤ last →
      staleMatch (run.state clock) (run.input clock) = false) :
    Shaped run (run.input start).params start last := by
  have hPart : ∀ clock, start ≤ clock → clock ≤ last → Period run start clock :=
    fun clock hFrom hTo => ⟨hPeriod.rise, hFrom,
      fun tick hFirst hLast => hPeriod.enabled tick hFirst (hLast.trans hTo)⟩
  have hShape : ∀ clock, start ≤ clock → clock ≤ last →
      ∃ pending, Shape run (run.input start).params start (clock + 1) pending :=
    fun clock hFrom hTo => Shape.of_period hBoot hParams hSettled hTimed (hPart clock hFrom hTo)
      (Nat.lt_of_le_of_lt (Nat.sub_le_sub_right hTo start) hShort)
      fun tick hFirst hLast => hFresh tick hFirst (hLast.trans hTo)
  have hBefore : ∀ clock, start < clock → clock ≤ last →
      ∃ pending, Shape run (run.input start).params start clock pending := by
    intro clock hFrom hTo
    obtain ⟨prior, rfl⟩ : ∃ prior, clock = prior + 1 := ⟨clock - 1, by omega⟩
    exact hShape prior (Nat.le_of_lt_succ hFrom) (Nat.le_of_lt hTo)
  constructor
  case accepted =>
    intro clock hFrom hTo hTrigger
    obtain ⟨pending, h⟩ := hBefore clock hFrom hTo
    have hIff := h.triggers_iff hFrom (hPeriod.enabled clock hFrom.le hTo)
    rw [h.ready_iff hTimed] at hIff
    constructor
    · exact fun hAccepts => (hIff.mp ⟨hFrom, hAccepts⟩).2
    · exact fun hAll => (hIff.mpr ⟨hTrigger, hAll⟩).2
  case dropped =>
    intro clock hFrom hTo
    obtain ⟨pending, h⟩ := hBefore clock hFrom hTo
    exact h.dropped_next hTimed hFrom (hPeriod.enabled clock hFrom.le hTo) (by omega)
  case pulses =>
    intro clock hFrom hTo
    obtain ⟨pending, h⟩ := hShape clock hFrom hTo
    rw [h.out_iff hTimed]
    simp only [Nat.lt_succ_iff, Nat.succ_le_iff, Params.fallAt]
  case apart =>
    intro trigger later hTrigger hLater hTo hLess pulse other hPulse hOther
    obtain ⟨pending, h⟩ := hShape last hPeriod.le le_rfl
    have hSpaced := h.spaced trigger later hTrigger hLater hLess (Nat.lt_succ_of_le hTo)
    have hMost := @Params.fallAt_le _ trigger _ hPulse
    have hStart : later + (run.input start).params.delay ≤
      (run.input start).params.riseAt later other := Nat.le_add_right _ _
    rw [Params.fallAt] at hMost
    omega
  case queued =>
    intro clock hFrom hTo
    obtain ⟨pending, h⟩ := hShape clock hFrom hTo
    exact h.queued_eq hTimed

theorem triggeredRun_period {enable : Nat → Bool} {start last : Nat}
    (hRise : enabledRise ((triggeredRun enable).state start) ((triggeredRun enable).input start) =
      true) (hLe : start ≤ last)
    (hEnable : ∀ clock, start ≤ clock → clock ≤ last → enable clock = true) :
    Period (triggeredRun enable) start last := by
  refine ⟨hRise, hLe, fun clock hFrom hTo => ?_⟩
  simp [isEnabled, triggeredRun, Run.ofInputs, strobed, hEnable clock hFrom hTo]

/-- The trigger at clock 2 has its pulse after clock 7. -/
theorem pulse_trains_once :
    out ((triggeredRun fun clock => decide (1 ≤ clock)).state 10) = true := by
  have hAll : ∀ clock ≤ 12, 1 < clock → staleMatch
      ((triggeredRun fun clock => decide (1 ≤ clock)).state clock)
      ((triggeredRun fun clock => decide (1 ≤ clock)).input clock) = false := by
    decide +kernel
  refine ((pulse_trains (triggeredRun fun clock => decide (1 ≤ clock)) rfl
    (fun _ hChange => absurd rfl hChange) 1 12
    (triggeredRun_period (by decide +kernel) (by decide) fun clock hFrom _ => decide_eq_true hFrom)
    (by decide) ⟨by decide +kernel, by decide +kernel⟩
    ⟨by decide +kernel, by decide +kernel, by decide +kernel⟩
    fun clock hFrom hTo => hAll clock hTo hFrom).pulses 9 (by decide) (by decide)).mpr ?_
  exact ⟨2, 0, ⟨by decide, by decide +kernel⟩, by decide +kernel, by decide +kernel,
    by decide +kernel⟩

/-- A run with three pulses at a distance of 2^47 and triggers at clocks 3 and 9. -/
def longTrains : Run step := .ofInputs step .boot fun clock => {
  trig := clock == 3 || clock == 9
  enable := decide (1 ≤ clock)
  params := ⟨0, 5, 0, 5, 0, 3, 0, 0x8000⟩ }

/-- The claim without a condition on the output register of the queue, or without one on the time
of a train, fails: an entry of an earlier period makes a pulse, and a trigger in the middle of a
train is accepted. -/
theorem pulse_trains_fail :
    (¬ ∀ run : Run step, run.state 0 = .boot → ParamsStrobed run → ∀ start last,
      Period run start last → last - start < 2 ^ 48 → Settled run start →
      (run.input start).params.Timed → Shaped run (run.input start).params start last) ∧
    ¬ ∀ run : Run step, run.state 0 = .boot → ParamsStrobed run → ∀ start last,
      Period run start last → last - start < 2 ^ 48 → Settled run start →
      0 < (run.input start).params.width → 2 * (run.input start).params.count - 1 < 2 ^ 32 →
      (∀ clock, start < clock → clock ≤ last →
        staleMatch (run.state clock) (run.input clock) = false) →
      Shaped run (run.input start).params start last := by
  constructor
  · intro hAll
    have hShaped := hAll (triggeredRun fun clock => clock != 20) rfl
      (fun _ hChange => absurd rfl hChange) 21 28
      (triggeredRun_period (by decide +kernel) (by decide) fun clock hFrom hTo => by
        simp
        omega)
      (by decide) ⟨by decide +kernel, by decide +kernel⟩
      ⟨by decide +kernel, by decide +kernel, by decide +kernel⟩
    obtain ⟨trigger, pulse, hTrigger, _, hRise, _⟩ :=
      (hShaped.pulses 28 (by decide) (by decide)).mp (by decide +kernel)
    have hNone : ∀ trigger ≤ 28, ¬ Triggers (triggeredRun fun clock => clock != 20) 21 trigger := by
      decide +kernel
    refine hNone trigger (le_trans ?_ hRise) hTrigger
    rw [Params.riseAt]
    omega
  · intro hAll
    have hStale : ∀ clock ≤ 9, 1 < clock → staleMatch (longTrains.state clock)
        (longTrains.input clock) = false := by
      decide +kernel
    have hShaped := hAll longTrains rfl (fun _ hChange => absurd rfl hChange) 1 9
      ⟨by decide +kernel, by decide, fun clock hFrom _ => by
        simp [isEnabled, longTrains, Run.ofInputs, strobed]
        omega⟩
      (by decide) ⟨by decide +kernel, by decide +kernel⟩ (by decide +kernel) (by decide +kernel)
      fun clock hFrom hTo => hStale clock hTo hFrom
    have hAccepted := (hShaped.accepted 9 (by decide) (by decide) (by decide +kernel)).mp
      (by decide +kernel)
    exact absurd (hAccepted.1 3 ⟨by decide, by decide +kernel⟩ (by decide)) (by decide +kernel)

end Fpga.Pulse
