import PandaBridge.Fpga.PulseTrain
import Mathlib.Data.Nat.Count

/-! What the PULSE block makes of the triggers of an enabled period. -/
namespace Fpga.Pulse

open Clocked

/-! ### The process that fills the queue -/

section
variable {p : Params} {s : State} {i : Input}

theorem accepts_iff (hEnabled : isEnabled i = true) (hRise : enabledRise s i = false) :
    accepts s i = true ↔
      gotTrigger s i = true ∧ s.fill.dropFor = 0 ∧ s.queue.writeReadyO = true := by
  simp [accepts, hEnabled, hRise, canProcess]

theorem fillQueue_of_rejects (hEnabled : isEnabled i = true) (hRise : enabledRise s i = false)
    (hNone : accepts s i = false) : fillQueue s i =
      { idle s with
        missedPulses := if gotTrigger s i then s.fill.missedPulses + 1 else s.fill.missedPulses
        pulseOverride := if s.timestamp = s.fill.overrideEndsTs then false
          else s.fill.pulseOverride } := by
  cases hTrigger : gotTrigger s i with
  | false =>
      simp only [fillQueue, hEnabled, hRise, hTrigger, Bool.and_false, Bool.false_eq_true,
        Bool.true_eq_false, if_false, false_or]
      split_ifs <;> rfl
  | true =>
      have hFull : canProcess s = false := by
        simpa [accepts, hEnabled, hRise, hTrigger] using hNone
      simp only [fillQueue, hEnabled, hRise, hTrigger, hFull, Bool.and_true, Bool.false_eq_true,
        Bool.true_eq_false, if_false, if_true, false_or]
      split_ifs <;> rfl

theorem fillQueue_of_wide (hWidth : s.widthI ≠ 0) (hAccepts : accepts s i = true)
    (hEnds : s.timestamp ≠ s.fill.overrideEndsTs) : fillQueue s i =
      { idle s with
        pulseOverride := if s.delayI = 0 then true else s.fill.pulseOverride
        overrideEndsTs := if s.delayI = 0 then s.timestamp + 4 else s.fill.overrideEndsTs
        pulseQueuedDin := ⟨true, s.timestamp + queueDelay s.widthI s.delayI⟩
        pulseQueuedWstb := true
        dropFor := s.stepTimesPulses - s.stepI + s.widthI } := by
  rw [fillQueue_of_accepts hAccepts, if_neg hEnds, processTrigger, if_neg hWidth]
  by_cases hDelay : s.delayI = 0
  · have hSum : s.timestamp + s.delayI + 4 = s.timestamp + queueDelay s.widthI s.delayI := by
      rw [queueDelay, if_pos ⟨hWidth, hDelay⟩, hDelay]
      exact congrArg (· + 4) (BitVec.add_zero _)
    simp only [if_pos hDelay, hSum]
  · have hSum : queueDelay s.widthI s.delayI = s.delayI := by
      rw [queueDelay, if_neg fun hBoth => hDelay hBoth.2]
    simp only [if_neg hDelay, hSum]
    rfl

/-- How long triggers are dropped after one of these parameters. -/
theorem dropFor_eq (hSteps : s.stepTimesPulses = BitVec.ofNat 48 (p.spacing * p.count)) (hStep : s.stepI = p.stepInteger)
    (hWidth : s.widthI = p.widthInteger) :
    s.stepTimesPulses - s.stepI + s.widthI = BitVec.ofNat 48 p.busy := by
  have hCount : p.spacing * p.count = p.spacing * (p.count - 1) + p.spacing := by
    rw [← Nat.mul_succ, Nat.succ_eq_add_one, Nat.sub_add_cancel p.count_pos]
  rw [hSteps, hStep, hWidth, p.stepInteger_eq, p.widthInteger_eq, hCount, BitVec.ofNat_add,
    BitVec.add_sub_cancel, ← BitVec.ofNat_add]
  rfl

end

/-! ### The triggers of a period -/

/-- The entry that a trigger puts on the queue. -/
def entryOf (p : Params) (start trigger : Nat) : Entry := ⟨true, stampAt start (trigger + p.lead)⟩

/-- The registers of an enabled period, with the accepted triggers that are not yet finished. -/
structure Shape (run : Run step) (p : Params) (start clock : Nat) (pending : List Nat) : Prop where
  timing : Timing p start clock (run.state clock)
  settled : (run.state clock).stepTimesPulses = BitVec.ofNat 48 (p.spacing * p.count)
  spaced : ∀ trigger later, Triggers run start trigger → Triggers run start later →
    trigger < later → later < clock → trigger + p.busy + 1 ≤ later
  mem : ∀ trigger, trigger ∈ pending ↔ Triggers run start trigger ∧ trigger < clock ∧
    clock ≤ trigger + p.delay + p.busy
  sorted : pending.Pairwise (· < ·)
  drop : ∀ more, (run.state clock).fill.dropFor.toNat ≤ more ↔
    ∀ trigger, Triggers run start trigger → trigger < clock → trigger + p.busy + 1 ≤ clock + more
  override : (run.state clock).fill.pulseOverride = true ↔
    p.delay = 0 ∧ ∃ trigger, Triggers run start trigger ∧ trigger < clock ∧ clock ≤ trigger + 4
  ends : ∃ ending, (run.state clock).fill.overrideEndsTs = stampAt start ending ∧
    (ending = start ∨ ∃ trigger, Triggers run start trigger ∧ trigger < clock ∧
      ending = trigger + 4) ∧
    (p.delay = 0 → ∀ trigger, Triggers run start trigger → trigger < clock →
      clock ≤ trigger + 4 → ending = trigger + 4)
  queue : ∃ q, Fifo.Holds 8 (run.state clock).queue q ∧
    (q.entries ++ if (run.state clock).fill.pulseQueuedWstb then
      [(run.state clock).fill.pulseQueuedDin] else []) = pending.map (entryOf p start) ∧
    (q.shown = none → ∀ trigger ∈ pending, clock ≤ trigger + 2) ∧
    ((run.state clock).queue.writeReadyO = true ↔ q.stored.length < 2 ^ 8)
  written : (run.state clock).fill.pulseQueuedWstb = true ↔ Triggers run start (clock - 1)
  ready : (run.state clock).fill.pulseQueuedWstb = true → (run.state clock).queue.writeReadyO = true
  making : match pending.head? with
    | none => (run.state clock).edges.edgesRemaining = 0 ∧ (run.state clock).edges.pulse = false
    | some trigger => Making p start trigger clock (run.state clock).edges

/-- The parameters are in the registers when the period starts. -/
def Settled (run : Run step) (start : Nat) : Prop :=
  (run.state start).stepI = (run.input start).params.stepInteger ∧
    (run.state start).pulsesI = (run.input start).params.pulsesInteger

section
variable {run : Run step} {start clock : Nat}

theorem stepTimesPulses_next {p : Params} (hStep : (run.state clock).stepI = p.stepInteger)
    (hPulses : (run.state clock).pulsesI = p.pulsesInteger) :
    (run.state (clock + 1)).stepTimesPulses = BitVec.ofNat 48 (p.spacing * p.count) := by
  rw [run.edge]
  show ((run.state clock).stepI.setWidth 80 * (run.state clock).pulsesI.setWidth 80).setWidth 48 = _
  rw [hStep, hPulses, p.stepInteger_eq]
  apply BitVec.eq_of_toNat_eq
  have hCount : p.pulsesInteger.toNat < 2 ^ 32 := p.pulsesInteger.isLt
  have hProduct : p.spacing % 2 ^ 48 * p.pulsesInteger.toNat < 2 ^ 48 * 2 ^ 32 :=
    Nat.mul_lt_mul'' (Nat.mod_lt _ (by decide)) hCount
  rw [show 2 ^ 48 * 2 ^ 32 = 2 ^ 80 from rfl] at hProduct
  simp only [BitVec.toNat_setWidth, BitVec.toNat_mul, BitVec.toNat_ofNat]
  rw [Nat.mod_eq_of_lt (show p.spacing % 2 ^ 48 < 2 ^ 80 by omega),
    Nat.mod_eq_of_lt (show p.pulsesInteger.toNat < 2 ^ 80 by omega), Nat.mod_eq_of_lt hProduct,
    Nat.mod_mul_mod]
  rfl

/-- The parameter registers and the timestamp at the clock after a clock of the period. -/
theorem timing_next (hPeriod : Period run start clock) (hParams : ParamsStrobed run)
    (hStamp : (run.state clock).timestamp = stampAt start clock) :
    Timing (run.input start).params start (clock + 1) (run.state (clock + 1)) := by
  obtain ⟨hPrev, hWidth, hDelay, hStep, hPulses, hNext⟩ := registers_step hPeriod hParams
  refine ⟨hPrev, hWidth, hDelay, hStep, hPulses, ?_⟩
  rw [hNext, hStamp]
  exact stampAt_add hPeriod.le 1

theorem Shape.first (hBoot : run.state 0 = .boot) (hParams : ParamsStrobed run)
    (hPeriod : Period run start start) (hSettled : Settled run start) :
    Shape run (run.input start).params start (start + 1) [] := by
  have hRise := hPeriod.rise
  have hEnabled := hPeriod.enabled start Nat.le.refl Nat.le.refl
  have hQuiet : Quiet (run.state start) := by
    refine quiet_of_not_prev run hBoot start ?_
    simpa [enabledRise, hEnabled] using hRise
  have hLow := hQuiet.low
  simp only [out, Bool.or_eq_false_iff] at hLow
  have hNone : ∀ trigger, Triggers run start trigger → ¬ trigger < start + 1 := by
    intro trigger hTrigger
    have := hTrigger.1
    omega
  have hFill : (run.state (start + 1)).fill =
      { idle (run.state start) with
        missedPulses := 0
        dropFor := 0
        overrideEndsTs := 0
        pulseOverride := false } := by
    rw [run.edge]
    show fillQueue _ _ = _
    simp only [fillQueue, hRise, hEnabled, Bool.true_eq_false, false_or, if_true]
    split_ifs
    · rfl
    · simp only [idle, hLow.1]
  have hEdges : (run.state (start + 1)).edges = { (run.state start).edges with edgeTs := 0 } := by
    rw [run.edge]
    show passEdges _ _ = _
    simp only [passEdges, hRise, if_true]
  have hHolds := hQuiet.queue.step (queuePorts (run.state start) (run.input start))
  have hReset : (queuePorts (run.state start) (run.input start)).resetFifo = false := by
    simp [queuePorts, hEnabled]
  have hEmpty : Fifo.Queue.step .empty (run.state start).queue
      (queuePorts (run.state start) (run.input start)) = .empty := by
    have hNoWrite : Fifo.accepted (run.state start).queue
        (queuePorts (run.state start) (run.input start)) = none := by
      simp [Fifo.accepted, queuePorts, hQuiet.din]
    rw [Fifo.Queue.step, hReset, hNoWrite]
    cases (queuePorts (run.state start) (run.input start)).readReady <;> rfl
  have hReady := hQuiet.queue.writeReady_step hReset
  rw [hEmpty] at hHolds hReady
  have hQueue : (run.state (start + 1)).queue =
      Fifo.step 8 (run.state start).queue (queuePorts (run.state start) (run.input start)) := by
    rw [run.edge]
    rfl
  constructor
  case timing =>
    refine timing_next hPeriod hParams ?_
    rw [hQuiet.stamp, stampAt, Nat.sub_self]
    rfl
  case settled => exact stepTimesPulses_next hSettled.1 hSettled.2
  case spaced => exact fun _ later _ hLater _ hBefore => absurd hBefore (hNone later hLater)
  case mem =>
    intro trigger
    refine ⟨fun hMem => absurd hMem List.not_mem_nil, fun hTrigger => ?_⟩
    exact absurd hTrigger.2.1 (hNone trigger hTrigger.1)
  case sorted => exact .nil
  case drop =>
    intro more
    rw [hFill]
    exact ⟨fun _ trigger hTrigger hBefore => absurd hBefore (hNone trigger hTrigger),
      fun _ => Nat.zero_le _⟩
  case override =>
    rw [hFill]
    refine ⟨fun hOn => absurd hOn Bool.false_ne_true, fun hOn => ?_⟩
    obtain ⟨_, trigger, hTrigger, hBefore, _⟩ := hOn
    exact absurd hBefore (hNone trigger hTrigger)
  case ends =>
    refine ⟨start, ?_, .inl rfl, fun _ trigger hTrigger hBefore => absurd hBefore
      (hNone trigger hTrigger)⟩
    rw [hFill, stampAt, Nat.sub_self]
    rfl
  case queue =>
    refine ⟨.empty, hQueue ▸ hHolds, ?_, fun _ trigger hMem => absurd hMem List.not_mem_nil,
      hQueue ▸ hReady⟩
    rw [hFill]
    rfl
  case written =>
    rw [hFill]
    refine ⟨fun hOn => absurd hOn Bool.false_ne_true, fun hTrigger => ?_⟩
    have := hTrigger.1
    omega
  case ready =>
    rw [hFill]
    exact fun hOn => absurd hOn Bool.false_ne_true
  case making =>
    show (run.state (start + 1)).edges.edgesRemaining = 0 ∧
      (run.state (start + 1)).edges.pulse = false
    rw [hEdges]
    exact ⟨hQuiet.edges, hLow.2⟩

/-! ### One clock of a period -/

namespace Shape

variable {p : Params} {pending : List Nat}

theorem rise_false (h : Shape run p start clock pending) :
    enabledRise (run.state clock) (run.input clock) = false := by
  simp [enabledRise, h.timing.prev]

theorem triggers_iff (h : Shape run p start clock pending) (hStart : start < clock)
    (hEnabled : isEnabled (run.input clock) = true) : Triggers run start clock ↔
      gotTrigger (run.state clock) (run.input clock) = true ∧
        (∀ trigger, Triggers run start trigger → trigger < clock → trigger + p.busy + 1 ≤ clock) ∧
        (run.state clock).queue.writeReadyO = true := by
  have hDrop : (run.state clock).fill.dropFor = 0 ↔
      ∀ trigger, Triggers run start trigger → trigger < clock → trigger + p.busy + 1 ≤ clock := by
    rw [← BitVec.toNat_inj]
    exact Nat.le_zero.symm.trans (h.drop 0)
  rw [Triggers, accepts_iff hEnabled h.rise_false, hDrop]
  exact ⟨fun hAll => hAll.2, fun hAll => ⟨hStart, hAll⟩⟩

theorem spaced_next (h : Shape run p start clock pending) (hStart : start < clock)
    (hEnabled : isEnabled (run.input clock) = true) (trigger later : Nat)
    (hTrigger : Triggers run start trigger) (hLater : Triggers run start later)
    (hLess : trigger < later) (hBefore : later < clock + 1) : trigger + p.busy + 1 ≤ later := by
  rcases Nat.lt_succ_iff_lt_or_eq.mp hBefore with hEarly | rfl
  · exact h.spaced trigger later hTrigger hLater hLess hEarly
  · exact ((h.triggers_iff hStart hEnabled).mp hLater).2.1 trigger hTrigger hLess

theorem fill_next (hAccepts : Triggers run start clock ↔
      accepts (run.state clock) (run.input clock) = true) (hEnabled : isEnabled (run.input clock) = true)
    (h : Shape run p start clock pending) (hNone : ¬ Triggers run start clock) :
    (run.state (clock + 1)).fill = { idle (run.state clock) with
      missedPulses := if gotTrigger (run.state clock) (run.input clock) then
        (run.state clock).fill.missedPulses + 1 else (run.state clock).fill.missedPulses
      pulseOverride := if (run.state clock).timestamp = (run.state clock).fill.overrideEndsTs
        then false else (run.state clock).fill.pulseOverride } := by
  rw [run.edge]
  exact fillQueue_of_rejects hEnabled h.rise_false
    (Bool.eq_false_iff.mpr fun hAll => hNone (hAccepts.mpr hAll))

theorem ends_past (h : Shape run p start clock pending) (hTimed : p.Timed) (hStart : start < clock)
    (hEnabled : isEnabled (run.input clock) = true) (hShort : clock - start < 2 ^ 48)
    (hTrigger : Triggers run start clock) :
    (run.state clock).timestamp ≠ (run.state clock).fill.overrideEndsTs := by
  have hWide := hTimed.width_ge
  have hBusy := p.width_le_busy
  obtain ⟨ending, hEnds, hWhich, _⟩ := h.ends
  have hPast : start ≤ ending ∧ ending < clock := by
    rcases hWhich with rfl | ⟨trigger, hEarlier, hBefore, rfl⟩
    · exact ⟨le_rfl, hStart⟩
    · have hApart := ((h.triggers_iff hStart hEnabled).mp hTrigger).2.1 trigger hEarlier hBefore
      have hLater := hEarlier.1
      omega
  have hSoon : clock - ending < 2 ^ 48 := Nat.lt_of_le_of_lt (Nat.sub_le_sub_left hPast.1 _) hShort
  rw [h.timing.stamp, hEnds]
  intro hSame
  exact absurd ((stampAt_eq_iff hPast.1 hPast.2.le hSoon).mp hSame.symm) hPast.2.ne

theorem fill_accepted (h : Shape run p start clock pending) (hTimed : p.Timed)
    (hStart : start < clock) (hEnabled : isEnabled (run.input clock) = true)
    (hShort : clock - start < 2 ^ 48) (hTrigger : Triggers run start clock) :
    (run.state (clock + 1)).fill = { idle (run.state clock) with
      pulseOverride := if p.delay = 0 then true else (run.state clock).fill.pulseOverride
      overrideEndsTs := if p.delay = 0 then stampAt start (clock + 4)
        else (run.state clock).fill.overrideEndsTs
      pulseQueuedDin := entryOf p start clock
      pulseQueuedWstb := true
      dropFor := BitVec.ofNat 48 p.busy } := by
  have hWidth : (run.state clock).widthI ≠ 0 := h.timing.width ▸ hTimed.widthInteger_ne
  have hDelay : (run.state clock).delayI = 0 ↔ p.delay = 0 := by
    rw [h.timing.delay]
    exact p.delayInteger_iff
  have hLead : queueDelay p.widthInteger p.delayInteger = BitVec.ofNat 48 p.lead := by
    rw [queueDelay, Params.lead]
    by_cases hNone : p.delay = 0
    · rw [if_pos hNone, if_pos ⟨hTimed.widthInteger_ne, p.delayInteger_iff.mpr hNone⟩]
      rfl
    · rw [if_neg hNone, if_neg fun hBoth => hNone (p.delayInteger_iff.mp hBoth.2)]
      exact p.delayInteger_eq
  have hDue : stampAt start clock + BitVec.ofNat 48 p.lead = stampAt start (clock + p.lead) :=
    stampAt_add hStart.le _
  have hEnds : stampAt start clock + 4 = stampAt start (clock + 4) := stampAt_add hStart.le 4
  rw [run.edge]
  show fillQueue _ _ = _
  rw [fillQueue_of_wide hWidth hTrigger.2 (h.ends_past hTimed hStart hEnabled hShort hTrigger),
    dropFor_eq h.settled h.timing.spacing h.timing.width, h.timing.stamp, h.timing.width,
    h.timing.delay, hLead, hDue, hEnds, entryOf]
  simp only [p.delayInteger_iff]

theorem drop_next (h : Shape run p start clock pending) (hTimed : p.Timed) (hStart : start < clock)
    (hEnabled : isEnabled (run.input clock) = true) (hShort : clock - start < 2 ^ 48)
    (more : Nat) : (run.state (clock + 1)).fill.dropFor.toNat ≤ more ↔
      ∀ trigger, Triggers run start trigger → trigger < clock + 1 →
        trigger + p.busy + 1 ≤ clock + 1 + more := by
  by_cases hTrigger : Triggers run start clock
  · rw [h.fill_accepted hTimed hStart hEnabled hShort hTrigger]
    show (BitVec.ofNat 48 p.busy).toNat ≤ more ↔ _
    rw [BitVec.toNat_ofNat, Nat.mod_eq_of_lt hTimed.busy]
    constructor
    · intro hMore trigger hEarlier hBefore
      rcases Nat.lt_succ_iff_lt_or_eq.mp hBefore with hLess | rfl
      · have := ((h.triggers_iff hStart hEnabled).mp hTrigger).2.1 trigger hEarlier hLess
        omega
      · omega
    · intro hAll
      have := hAll clock hTrigger (Nat.lt_succ_self clock)
      omega
  · rw [h.fill_next (by simp [Triggers, hStart]) hEnabled hTrigger]
    have hOld := h.drop (more + 1)
    have hIdle : (idle (run.state clock)).dropFor.toNat ≤ more ↔
        (run.state clock).fill.dropFor.toNat ≤ more + 1 := by
      rw [idle]
      split_ifs <;> bv_omega
    rw [hIdle, hOld]
    constructor
    · intro hAll trigger hEarlier hBefore
      rcases Nat.lt_succ_iff_lt_or_eq.mp hBefore with hLess | rfl
      · have := hAll trigger hEarlier hLess
        omega
      · exact absurd hEarlier hTrigger
    · intro hAll trigger hEarlier hBefore
      have := hAll trigger hEarlier (Nat.lt_succ_of_lt hBefore)
      omega

theorem override_next (h : Shape run p start clock pending) (hTimed : p.Timed)
    (hStart : start < clock) (hEnabled : isEnabled (run.input clock) = true)
    (hShort : clock - start < 2 ^ 48) : (run.state (clock + 1)).fill.pulseOverride = true ↔
      p.delay = 0 ∧ ∃ trigger, Triggers run start trigger ∧ trigger < clock + 1 ∧
        clock + 1 ≤ trigger + 4 := by
  have hOld := h.override
  by_cases hTrigger : Triggers run start clock
  · rw [h.fill_accepted hTimed hStart hEnabled hShort hTrigger]
    show (if p.delay = 0 then true else _) = true ↔ _
    split_ifs with hDelay
    · exact ⟨fun _ => ⟨hDelay, clock, hTrigger, Nat.lt_succ_self clock, by omega⟩, fun _ => rfl⟩
    · exact ⟨fun hOn => absurd (hOld.mp hOn).1 hDelay, fun hOn => absurd hOn.1 hDelay⟩
  · rw [h.fill_next (by simp [Triggers, hStart]) hEnabled hTrigger]
    obtain ⟨ending, hEnds, _, hLast⟩ := h.ends
    show (if (run.state clock).timestamp = (run.state clock).fill.overrideEndsTs then false
      else (run.state clock).fill.pulseOverride) = true ↔ _
    rw [h.timing.stamp, hEnds]
    constructor
    · intro hOn
      split_ifs at hOn with hSame
      obtain ⟨hDelay, trigger, hEarlier, hBefore, hSoon⟩ := hOld.mp hOn
      have hEnding := hLast hDelay trigger hEarlier hBefore hSoon
      have hNot : clock ≠ ending := fun hEq => hSame (by rw [hEq])
      exact ⟨hDelay, trigger, hEarlier, Nat.lt_succ_of_lt hBefore, by omega⟩
    · rintro ⟨hDelay, trigger, hEarlier, hBefore, hSoon⟩
      have hLess : trigger < clock := by
        rcases Nat.lt_succ_iff_lt_or_eq.mp hBefore with hLess | rfl
        · exact hLess
        · exact absurd hEarlier hTrigger
      have hEnding := hLast hDelay trigger hEarlier hLess (by omega)
      have hLater := hEarlier.1
      have hNot : stampAt start clock ≠ stampAt start ending := by
        intro hSame
        have := (stampAt_eq_iff hStart.le (by omega : clock ≤ ending) (by omega)).mp hSame
        omega
      rw [if_neg hNot]
      exact hOld.mpr ⟨hDelay, trigger, hEarlier, hLess, by omega⟩

theorem ends_next (h : Shape run p start clock pending) (hTimed : p.Timed) (hStart : start < clock)
    (hEnabled : isEnabled (run.input clock) = true) (hShort : clock - start < 2 ^ 48) :
    ∃ ending, (run.state (clock + 1)).fill.overrideEndsTs = stampAt start ending ∧
      (ending = start ∨ ∃ trigger, Triggers run start trigger ∧ trigger < clock + 1 ∧
        ending = trigger + 4) ∧
      (p.delay = 0 → ∀ trigger, Triggers run start trigger → trigger < clock + 1 →
        clock + 1 ≤ trigger + 4 → ending = trigger + 4) := by
  have hWide := hTimed.width_ge
  have hBusy := p.width_le_busy
  obtain ⟨ending, hEnds, hWhich, hLast⟩ := h.ends
  have hWhich' : ending = start ∨ ∃ trigger, Triggers run start trigger ∧ trigger < clock + 1 ∧
      ending = trigger + 4 := by
    refine hWhich.imp_right ?_
    rintro ⟨trigger, hEarlier, hBefore, hEq⟩
    exact ⟨trigger, hEarlier, Nat.lt_succ_of_lt hBefore, hEq⟩
  by_cases hTrigger : Triggers run start clock
  · rw [h.fill_accepted hTimed hStart hEnabled hShort hTrigger]
    show ∃ ending, (if p.delay = 0 then stampAt start (clock + 4) else _) = _ ∧ _
    split_ifs with hDelay
    · refine ⟨clock + 4, rfl, .inr ⟨clock, hTrigger, Nat.lt_succ_self clock, rfl⟩, ?_⟩
      intro _ trigger hEarlier hBefore hSoon
      rcases Nat.lt_succ_iff_lt_or_eq.mp hBefore with hLess | rfl
      · have := ((h.triggers_iff hStart hEnabled).mp hTrigger).2.1 trigger hEarlier hLess
        omega
      · rfl
    · exact ⟨ending, hEnds, hWhich', fun hNone => absurd hNone hDelay⟩
  · rw [h.fill_next (by simp [Triggers, hStart]) hEnabled hTrigger]
    refine ⟨ending, hEnds, hWhich', fun hDelay trigger hEarlier hBefore hSoon => ?_⟩
    rcases Nat.lt_succ_iff_lt_or_eq.mp hBefore with hLess | rfl
    · exact hLast hDelay trigger hEarlier hLess (by omega)
    · exact absurd hEarlier hTrigger

/-- The output register of the queue is not compared while it is stale. -/
theorem stale_ne (h : Shape run p start clock pending) (hTimed : p.Timed)
    (hEnabled : isEnabled (run.input clock) = true)
    (hFresh : staleMatch (run.state clock) (run.input clock) = false)
    (hNone : (run.state clock).edges.edgesRemaining = 0)
    (hInvalid : (run.state clock).queue.readValidO = false) :
    (run.state clock).timestamp ≠ queuePulseTs (run.state clock) := by
  have hWidth : ((run.state clock).widthI != 0) = true := by
    rw [bne_iff_ne]
    exact h.timing.width ▸ hTimed.widthInteger_ne
  intro hMatch
  have hStale : staleMatch (run.state clock) (run.input clock) = true := by
    simp only [staleMatch, hEnabled, h.rise_false, hNone, hInvalid, hMatch, hWidth, beq_self_eq_true,
      Bool.not_false, Bool.and_true, Bool.true_or]
  exact absurd (hFresh.symm.trans hStale) Bool.false_ne_true

/-- The comparison with the queue is met when the entry of the first pending trigger is due. -/
theorem match_iff {trigger : Nat} {rest : List Nat}
    (h : Shape run p start clock (trigger :: rest)) (hTimed : p.Timed)
    (hEnabled : isEnabled (run.input clock) = true)
    (hFresh : staleMatch (run.state clock) (run.input clock) = false) (hStart : start < clock)
    (hNone : (run.state clock).edges.edgesRemaining = 0) (hBefore : clock ≤ trigger + p.lead) :
    (run.state clock).timestamp = queuePulseTs (run.state clock) ↔ clock = trigger + p.lead := by
  obtain ⟨hFour, _, hLead, _⟩ := p.lead_bounds
  obtain ⟨q, hHolds, hEntries, hShow, _⟩ := h.queue
  obtain ⟨_, hPast, _⟩ := (h.mem trigger).mp List.mem_cons_self
  have hBusy := hTimed.busy
  have hDelay : p.delay < 2 ^ 48 := p.delayInteger.isLt
  have hSoon : trigger + p.lead - clock < 2 ^ 48 := by
    rw [Params.lead] at hBefore ⊢
    split_ifs at hBefore ⊢ <;> omega
  have hShown := hHolds.shown
  cases hValid : (run.state clock).queue.readValidO with
  | false =>
      rw [hValid] at hShown
      have hLate := hShow hShown trigger List.mem_cons_self
      exact ⟨fun hMatch => absurd hMatch (h.stale_ne hTimed hEnabled hFresh hNone hValid),
        fun hDue => by omega⟩
  | true =>
      rw [hValid, if_pos rfl] at hShown
      have hHead : (run.state clock).queue.readDataO = entryOf p start trigger := by
        rw [Fifo.Queue.entries, hShown] at hEntries
        exact (List.cons.inj hEntries).1
      rw [h.timing.stamp, queuePulseTs, hHead]
      exact stampAt_eq_iff hStart.le hBefore hSoon

/-- The entry at the output of the queue is taken when the train of its trigger is finished. -/
theorem rstb_next (h : Shape run p start clock pending) (hTimed : p.Timed) (hStart : start < clock)
    (hEnabled : isEnabled (run.input clock) = true)
    (hFresh : staleMatch (run.state clock) (run.input clock) = false) :
    match pending.head? with
    | none => pulseQueuedRstb (run.state clock) = false ∧
        (run.state (clock + 1)).edges.edgesRemaining = 0 ∧
        (run.state (clock + 1)).edges.pulse = false
    | some trigger =>
        (clock < trigger + p.delay + p.busy →
          Making p start trigger (clock + 1) (run.state (clock + 1)).edges) ∧
        (clock = trigger + p.delay + p.busy →
          (run.state (clock + 1)).edges.edgesRemaining = 0 ∧
          (run.state (clock + 1)).edges.pulse = false) ∧
        (pulseQueuedRstb (run.state clock) = true ↔ clock = trigger + p.delay + p.busy) := by
  have hWidth : (run.state clock).widthI ≠ 0 := h.timing.width ▸ hTimed.widthInteger_ne
  have hEdges : (run.state (clock + 1)).edges = passEdges (run.state clock) (run.input clock) := by
    rw [run.edge]
    rfl
  have hMaking := h.making
  rw [hEdges]
  cases pending with
  | nil =>
      obtain ⟨hNone, hLow⟩ : (run.state clock).edges.edgesRemaining = 0 ∧
        (run.state clock).edges.pulse = false := hMaking
      obtain ⟨q, hHolds, hEntries, _⟩ := h.queue
      have hEmpty : q.entries = [] := (List.append_eq_nil_iff.mp hEntries).1
      have hShown : q.shown = none := by
        rw [Fifo.Queue.entries] at hEmpty
        exact Option.toList_eq_nil_iff.mp (List.append_eq_nil_iff.mp hEmpty).1
      have hInvalid : (run.state clock).queue.readValidO = false := by
        have hValid := hHolds.shown
        rw [hShown] at hValid
        by_contra hNot
        rw [if_pos (Bool.not_eq_false _ ▸ hNot)] at hValid
        exact absurd hValid.symm (Option.some_ne_none _)
      have hNe := h.stale_ne hTimed hEnabled hFresh hNone hInvalid
      refine ⟨Bool.eq_false_iff.mpr fun hReady => ?_, ?_⟩
      · obtain ⟨hOne, _⟩ := (rstb_iff hWidth).mp hReady
        exact absurd (hNone.symm.trans hOne) (by decide)
      · rw [passEdges_idle hEnabled h.rise_false hNone hWidth, if_neg hNe]
        exact ⟨hNone, hLow⟩
  | cons trigger rest =>
      obtain ⟨hTrigger, hPast, _⟩ := (h.mem trigger).mp List.mem_cons_self
      exact hMaking.goes hTimed h.timing hEnabled hTrigger.1 hPast
        (h.match_iff hTimed hEnabled hFresh hStart)

/-- The pending triggers without the one that is finished. -/
def left (run : Run step) (clock : Nat) (pending : List Nat) : List Nat :=
  if pulseQueuedRstb (run.state clock) then pending.tail else pending

theorem mem_left (h : Shape run p start clock pending) (hTimed : p.Timed) (hStart : start < clock)
    (hEnabled : isEnabled (run.input clock) = true)
    (hFresh : staleMatch (run.state clock) (run.input clock) = false) (trigger : Nat) :
    trigger ∈ left run clock pending ↔ Triggers run start trigger ∧ trigger < clock ∧
      clock + 1 ≤ trigger + p.delay + p.busy := by
  have hReads := h.rstb_next hTimed hStart hEnabled hFresh
  have hMem := h.mem
  have hSorted := h.sorted
  cases pending with
  | nil =>
      obtain ⟨hNot, _⟩ := hReads
      rw [left, hNot, if_neg Bool.false_ne_true]
      refine ⟨fun hIn => absurd hIn List.not_mem_nil, fun hAll => ?_⟩
      exact absurd ((hMem trigger).mpr ⟨hAll.1, hAll.2.1, by omega⟩) List.not_mem_nil
  | cons head rest =>
      obtain ⟨_, _, hReady⟩ := hReads
      obtain ⟨hHead, hHeadPast, hHeadOpen⟩ := (hMem head).mp List.mem_cons_self
      have hRest : ∀ later ∈ rest, clock + 1 ≤ later + p.delay + p.busy := by
        intro later hLater
        obtain ⟨hTrigger, hPast, _⟩ := (hMem later).mp (List.mem_cons_of_mem head hLater)
        have := h.spaced head later hHead hTrigger ((List.pairwise_cons.mp hSorted).1 later hLater)
          hPast
        omega
      have hTail : ∀ later ∈ rest, later ≠ head := fun later hLater =>
        ((List.pairwise_cons.mp hSorted).1 later hLater).ne'
      rw [left]
      split_ifs with hNow
      · have hEnd := hReady.mp hNow
        constructor
        · intro hIn
          obtain ⟨hTrigger, hPast, _⟩ := (hMem trigger).mp (List.mem_cons_of_mem head hIn)
          exact ⟨hTrigger, hPast, hRest trigger hIn⟩
        · rintro ⟨hTrigger, hPast, hOpen⟩
          rcases List.mem_cons.mp ((hMem trigger).mpr ⟨hTrigger, hPast, by omega⟩) with rfl | hIn
          · omega
          · exact hIn
      · have hEnd := mt hReady.mpr hNow
        rw [hMem trigger]
        constructor
        · rintro ⟨hTrigger, hPast, hOpen⟩
          refine ⟨hTrigger, hPast, ?_⟩
          rcases List.mem_cons.mp ((hMem trigger).mpr ⟨hTrigger, hPast, hOpen⟩) with rfl | hIn
          · omega
          · exact hRest trigger hIn
        · rintro ⟨hTrigger, hPast, hOpen⟩
          exact ⟨hTrigger, hPast, by omega⟩

theorem sorted_left (h : Shape run p start clock pending) :
    (left run clock pending).Pairwise (· < ·) := by
  rw [left]
  split_ifs
  · exact h.sorted.tail
  · exact h.sorted

/-- The process that passes edges goes on with the first trigger that is left. -/
theorem making_left (h : Shape run p start clock pending) (hTimed : p.Timed) (hStart : start < clock)
    (hEnabled : isEnabled (run.input clock) = true)
    (hFresh : staleMatch (run.state clock) (run.input clock) = false) :
    match (left run clock pending).head? with
    | none => (run.state (clock + 1)).edges.edgesRemaining = 0 ∧
        (run.state (clock + 1)).edges.pulse = false
    | some trigger => Making p start trigger (clock + 1) (run.state (clock + 1)).edges := by
  have hReads := h.rstb_next hTimed hStart hEnabled hFresh
  have hLeads := p.lead_bounds
  have hMem := h.mem
  have hSorted := h.sorted
  cases pending with
  | nil =>
      obtain ⟨hNot, hIdle⟩ := hReads
      rw [left, hNot, if_neg Bool.false_ne_true]
      exact hIdle
  | cons head rest =>
      obtain ⟨hGoes, hEnds, hReady⟩ := hReads
      obtain ⟨hHead, _, hHeadOpen⟩ := (hMem head).mp List.mem_cons_self
      rw [left]
      split_ifs with hNow
      · have hEnd := hReady.mp hNow
        obtain ⟨hNone, hLow⟩ := hEnds hEnd
        cases rest with
        | nil => exact ⟨hNone, hLow⟩
        | cons next rest =>
            obtain ⟨hNext, hPast, _⟩ :=
              (hMem next).mp (List.mem_cons_of_mem head List.mem_cons_self)
            have hApart := h.spaced head next hHead hNext
              ((List.pairwise_cons.mp hSorted).1 next List.mem_cons_self) hPast
            exact .waiting (by omega) hNone hLow
      · have hEnd := mt hReady.mpr hNow
        exact hGoes (by omega)

theorem queue_left (h : Shape run p start clock pending) (hTimed : p.Timed) (hStart : start < clock)
    (hEnabled : isEnabled (run.input clock) = true)
    (hFresh : staleMatch (run.state clock) (run.input clock) = false) :
    ∃ q, Fifo.Holds 8 (run.state (clock + 1)).queue q ∧
      q.entries = (left run clock pending).map (entryOf p start) ∧
      (q.shown = none → ∀ trigger ∈ left run clock pending, clock + 1 ≤ trigger + 2) ∧
      ((run.state (clock + 1)).queue.writeReadyO = true ↔ q.stored.length < 2 ^ 8) ∧
      ((run.state clock).queue.writeReadyO = true →
        (run.state clock).fill.pulseQueuedWstb = false → q.stored.length < 2 ^ 8) := by
  have hLeft := h.mem_left hTimed hStart hEnabled hFresh
  have hReads := h.rstb_next hTimed hStart hEnabled hFresh
  have hBusy := hTimed.width_ge.trans p.width_le_busy
  have hMem := h.mem
  obtain ⟨q, hHolds, hEntries, hShow, hRoom⟩ := h.queue
  have hReset : (queuePorts (run.state clock) (run.input clock)).resetFifo = false := by
    simp [queuePorts, hEnabled]
  have hQueue : (run.state (clock + 1)).queue =
      Fifo.step 8 (run.state clock).queue (queuePorts (run.state clock) (run.input clock)) := by
    rw [run.edge]
    rfl
  have hStep : q.step (run.state clock).queue (queuePorts (run.state clock) (run.input clock)) =
      (q.advance (pulseQueuedRstb (run.state clock))).push
        (if (run.state clock).fill.pulseQueuedWstb then
          some (run.state clock).fill.pulseQueuedDin else none) := by
    rw [Fifo.Queue.step, hReset, if_neg Bool.false_ne_true, Fifo.accepted]
    cases hWritten : (run.state clock).fill.pulseQueuedWstb with
    | false => simp [queuePorts, hWritten]
    | true => simp [queuePorts, hWritten, h.ready hWritten]
  have hDins : (if (run.state clock).fill.pulseQueuedWstb then
      some (run.state clock).fill.pulseQueuedDin else none).toList =
      if (run.state clock).fill.pulseQueuedWstb then [(run.state clock).fill.pulseQueuedDin]
      else [] := by
    split_ifs <;> rfl
  have hRest : (q.advance (pulseQueuedRstb (run.state clock))).entries ++
      (if (run.state clock).fill.pulseQueuedWstb then [(run.state clock).fill.pulseQueuedDin]
        else []) = (left run clock pending).map (entryOf p start) := by
    have hSplit := q.entries_advance (pulseQueuedRstb (run.state clock))
    rw [left]
    cases hReady : pulseQueuedRstb (run.state clock) with
    | false =>
        rw [hReady, if_neg Bool.false_ne_true, List.nil_append] at hSplit
        rw [if_neg Bool.false_ne_true, ← hSplit]
        exact hEntries
    | true =>
        rw [hReady, if_pos rfl] at hSplit
        rw [if_pos rfl]
        cases pending with
        | nil => exact absurd (hReads.1.symm.trans hReady) Bool.false_ne_true
        | cons head rest =>
            have hEnd := hReads.2.2.mp hReady
            obtain ⟨entry, hShown⟩ : ∃ entry, q.shown = some entry := by
              rw [← Option.ne_none_iff_exists']
              intro hHidden
              have := hShow hHidden head List.mem_cons_self
              omega
            rw [hSplit, hShown, List.append_assoc] at hEntries
            exact (List.cons.inj hEntries).2
  have hNext := hHolds.step (queuePorts (run.state clock) (run.input clock))
  have hReadyNext := hHolds.writeReady_step hReset
  rw [hStep, ← hQueue] at hNext
  rw [hStep, ← hQueue] at hReadyNext
  refine ⟨_, hNext, ?_, fun hHidden trigger hIn => ?_, hReadyNext, fun hReady hUnwritten => ?_⟩
  · rw [Fifo.Queue.entries_push, hDins]
    exact hRest
  · rw [Fifo.Queue.entries_advance_of_hidden hHidden, List.nil_append] at hRest
    cases hWritten : (run.state clock).fill.pulseQueuedWstb with
    | false =>
        rw [hWritten, if_neg Bool.false_ne_true] at hRest
        rw [List.map_eq_nil_iff.mp hRest.symm] at hIn
        exact absurd hIn List.not_mem_nil
    | true =>
        have hLast := h.written.mp hWritten
        have hLater := hLast.1
        have hIn' := (hLeft (clock - 1)).mpr ⟨hLast, by omega, by omega⟩
        have hOne : (left run clock pending).length = 1 := by
          rw [hWritten, if_pos rfl] at hRest
          rw [← List.length_map (entryOf p start), ← hRest]
          rfl
        obtain ⟨only, hOnly⟩ := List.length_eq_one_iff.mp hOne
        rw [hOnly, List.mem_singleton] at hIn hIn'
        omega
  · rw [hUnwritten, if_neg Bool.false_ne_true]
    show ((q.advance _).stored ++ []).length < 2 ^ 8
    rw [List.append_nil]
    exact Nat.lt_of_le_of_lt (q.stored_advance_le _) (hRoom.mp hReady)

/-- The pending triggers with one that is accepted now. -/
def next (run : Run step) (clock : Nat) (pending : List Nat) : List Nat :=
  left run clock pending ++
    if accepts (run.state clock) (run.input clock) then [clock] else []

theorem goes (h : Shape run (run.input start).params start clock pending)
    (hTimed : (run.input start).params.Timed) (hParams : ParamsStrobed run) (hStart : start < clock)
    (hPeriod : Period run start clock) (hShort : clock - start < 2 ^ 48)
    (hFresh : staleMatch (run.state clock) (run.input clock) = false) :
    Shape run (run.input start).params start (clock + 1) (next run clock pending) := by
  have hEnabled := hPeriod.enabled clock hPeriod.le Nat.le.refl
  have hWide := hTimed.width_ge
  have hBusy := (run.input start).params.width_le_busy
  have hLead := (run.input start).params.lead_bounds
  have hMem := h.mem_left hTimed hStart hEnabled hFresh
  have hTriggers : Triggers run start clock ↔ accepts (run.state clock) (run.input clock) = true :=
    ⟨fun hTrigger => hTrigger.2, fun hAccepts => ⟨hStart, hAccepts⟩⟩
  constructor
  case timing => exact timing_next hPeriod hParams h.timing.stamp
  case settled => exact stepTimesPulses_next h.timing.spacing h.timing.pulses
  case spaced => exact h.spaced_next hStart hEnabled
  case mem =>
    intro trigger
    rw [next, List.mem_append, hMem trigger]
    constructor
    · rintro (⟨hTrigger, hPast, hOpen⟩ | hNow)
      · exact ⟨hTrigger, by omega, hOpen⟩
      · split_ifs at hNow with hAccepts
        · rw [List.mem_singleton] at hNow
          exact ⟨hNow ▸ hTriggers.mpr hAccepts, by omega, by omega⟩
        · exact absurd hNow List.not_mem_nil
    · rintro ⟨hTrigger, hPast, hOpen⟩
      rcases Nat.lt_succ_iff_lt_or_eq.mp hPast with hLess | rfl
      · exact .inl ⟨hTrigger, hLess, hOpen⟩
      · rw [if_pos hTrigger.2]
        exact .inr List.mem_cons_self
  case sorted =>
    rw [next, List.pairwise_append]
    refine ⟨h.sorted_left, ?_, fun trigger hIn now hNow => ?_⟩
    · split_ifs
      · exact List.pairwise_singleton _ _
      · exact .nil
    · split_ifs at hNow
      · rw [List.mem_singleton] at hNow
        have := ((hMem trigger).mp hIn).2.1
        omega
      · exact absurd hNow List.not_mem_nil
  case drop => exact h.drop_next hTimed hStart hEnabled hShort
  case override => exact h.override_next hTimed hStart hEnabled hShort
  case ends => exact h.ends_next hTimed hStart hEnabled hShort
  case queue =>
    obtain ⟨q, hHolds, hEntries, hShow, hReady, _⟩ := h.queue_left hTimed hStart hEnabled hFresh
    refine ⟨q, hHolds, ?_, fun hHidden trigger hIn => ?_, hReady⟩
    · rw [hEntries, next, List.map_append]
      congr 1
      by_cases hTrigger : Triggers run start clock
      · rw [h.fill_accepted hTimed hStart hEnabled hShort hTrigger, if_pos hTrigger.2]
        rfl
      · rw [h.fill_next hTriggers hEnabled hTrigger, if_neg (mt hTriggers.mpr hTrigger)]
        rfl
    · rw [next, List.mem_append] at hIn
      rcases hIn with hOld | hNow
      · exact hShow hHidden trigger hOld
      · split_ifs at hNow
        · rw [List.mem_singleton] at hNow
          omega
        · exact absurd hNow List.not_mem_nil
  case written =>
    rw [Nat.add_sub_cancel]
    by_cases hTrigger : Triggers run start clock
    · rw [h.fill_accepted hTimed hStart hEnabled hShort hTrigger]
      exact ⟨fun _ => hTrigger, fun _ => rfl⟩
    · rw [h.fill_next hTriggers hEnabled hTrigger]
      exact ⟨fun hOn => absurd hOn Bool.false_ne_true, fun hNow => absurd hNow hTrigger⟩
  case ready =>
    intro hWritten
    obtain ⟨q, _, _, _, hReady, hRoom⟩ := h.queue_left hTimed hStart hEnabled hFresh
    by_cases hTrigger : Triggers run start clock
    · have hNow := (h.triggers_iff hStart hEnabled).mp hTrigger
      refine hReady.mpr (hRoom hNow.2.2 (Bool.eq_false_iff.mpr fun hBusyWrite => ?_))
      have hLast := h.written.mp hBusyWrite
      have hApart := hNow.2.1 (clock - 1) hLast (by omega)
      omega
    · rw [h.fill_next hTriggers hEnabled hTrigger] at hWritten
      exact absurd hWritten Bool.false_ne_true
  case making =>
    have hLeft := h.making_left hTimed hStart hEnabled hFresh
    rw [next]
    cases hCase : left run clock pending with
    | cons head rest =>
        rw [hCase] at hLeft
        exact hLeft
    | nil =>
        rw [hCase] at hLeft
        obtain ⟨hNone, hLow⟩ : _ ∧ _ := hLeft
        by_cases hAccepts : accepts (run.state clock) (run.input clock) = true
        · rw [if_pos hAccepts]
          exact .waiting (by omega) hNone hLow
        · rw [if_neg hAccepts]
          exact ⟨hNone, hLow⟩

theorem of_period (hBoot : run.state 0 = .boot) (hParams : ParamsStrobed run)
    (hSettled : Settled run start) (hTimed : (run.input start).params.Timed)
    (hPeriod : Period run start clock) (hShort : clock - start < 2 ^ 48)
    (hFresh : ∀ tick, start < tick → tick ≤ clock →
      staleMatch (run.state tick) (run.input tick) = false) :
    ∃ pending, Shape run (run.input start).params start (clock + 1) pending := by
  obtain ⟨hRise, hLe, hEnabled⟩ := hPeriod
  induction clock, hLe using Nat.le_induction with
  | base => exact ⟨[], Shape.first hBoot hParams ⟨hRise, Nat.le.refl, hEnabled⟩ hSettled⟩
  | succ clock hStart ih =>
      have hPeriod : Period run start (clock + 1) := ⟨hRise, Nat.le_succ_of_le hStart, hEnabled⟩
      obtain ⟨pending, hBefore⟩ := ih (by omega) (fun tick hFrom hTo => hFresh tick hFrom (by omega))
        (hPeriod.prior hStart).enabled
      exact ⟨_, hBefore.goes hTimed hParams (Nat.lt_succ_of_le hStart) hPeriod hShort
        (hFresh _ (Nat.lt_succ_of_le hStart) le_rfl)⟩

end Shape

end

end Fpga.Pulse
