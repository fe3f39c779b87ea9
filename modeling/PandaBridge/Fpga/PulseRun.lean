import PandaBridge.Fpga.Pulse

/-! Whole runs of the PULSE block: every pulse in an enabled period goes back to a trigger of
that period, as long as the output register of the queue is not compared while stale. -/
namespace Fpga.Pulse

open Clocked

/-- The block has been enabled at every clock since `start`, and was not before. -/
structure Period (run : Run step) (start clock : Nat) : Prop where
  rise : enabledRise (run.state start) (run.input start) = true
  le : start ≤ clock
  enabled : ∀ c, start ≤ c → c ≤ clock → isEnabled (run.input c) = true

/-- A parameter register changes only together with its write strobe. -/
def ParamsStrobed (run : Run step) : Prop :=
  ∀ clock, (run.input (clock + 1)).params ≠ (run.input clock).params →
    strobed (run.input (clock + 1)) = true

/-- The output rises at this clock edge. -/
def Rises (run : Run step) (clock : Nat) : Prop :=
  out (run.state clock) = false ∧ out (run.state (clock + 1)) = true

/-- A trigger of the period, accepted at its clock. -/
def Triggers (run : Run step) (start trigger : Nat) : Prop :=
  start < trigger ∧ accepts (run.state trigger) (run.input trigger) = true

/-- The output should rise at this clock for that trigger: once after the delay for a rising
input without a width, else when its entry of the queue is due and for each pulse of its
train. -/
def Causes (run : Run step) (start trigger clock : Nat) : Prop :=
  Triggers run start trigger ∧ trigger ≤ clock ∧
    let p := (run.input start).params
    if p.widthInteger = 0 then
      trigRise (run.state trigger) (run.input trigger) = true ∧
        clock = trigger + p.delayInteger.toNat
    else
      clock = trigger + (queueDelay p.widthInteger p.delayInteger).toNat ∨
        ∃ k < p.pulsesInteger.toNat,
          clock = trigger + (p.delayInteger + BitVec.ofNat 48 k * p.stepInteger).toNat

namespace Period

variable {run : Run step} {start clock : Nat}

theorem prior (h : Period run start (clock + 1)) (hStart : start ≤ clock) :
    Period run start clock :=
  ⟨h.rise, hStart, fun c hFirst hLast => h.enabled c hFirst (Nat.le_succ_of_le hLast)⟩

theorem params_eq (h : Period run start clock) (hParams : ParamsStrobed run) :
    (run.input clock).params = (run.input start).params := by
  refine stable_of_kept (fun c => (run.input c).params) start clock ?_ h.le Nat.le.refl
  intro c hFirst hLast
  by_contra hChanged
  have hEnabled := h.enabled (c + 1) (by omega) hLast
  simp [isEnabled, hParams c hChanged] at hEnabled

end Period

/-- Nothing is under way. -/
structure Quiet (s : State) : Prop where
  stamp : s.timestamp = 0
  queue : Fifo.Holds 8 s.queue .empty
  din : s.fill.pulseQueuedWstb = false
  edges : s.edges.edgesRemaining = 0
  low : out s = false

theorem quiet_boot : Quiet State.boot :=
  ⟨rfl, Fifo.holds_boot _, rfl, rfl, rfl⟩

theorem quiet_of_disabled {s : State} {i : Input} (h : isEnabled i = false) : Quiet (step s i) where
  stamp := by simp [step, h]
  queue := Fifo.holds_of_reset (by simp [queuePorts, h])
  din := (fillQueue_of_not_accepts (by simp [accepts, h])).1
  edges := by simp [step, passEdges, enabledRise, h]
  low := out_step_of_disabled h

theorem quiet_of_not_prev (run : Run step) (hBoot : run.state 0 = .boot) (clock : Nat)
    (hPrev : (run.state clock).isEnabledPrev = false) : Quiet (run.state clock) := by
  refine run.invariant (fun s => s.isEnabledPrev = false → Quiet s) ?_ ?_ clock hPrev
  · intro _
    rw [hBoot]
    exact quiet_boot
  · intro s i _ hDisabled
    exact quiet_of_disabled hDisabled

/-- An entry of the queue goes back to a trigger of the period. -/
def Scheduled (run : Run step) (start clock : Nat) (entry : Entry) : Prop :=
  ∃ trigger, Triggers run start trigger ∧ trigger < clock ∧
    let p := (run.input start).params
    entry.ts = BitVec.ofNat 48 (trigger - start) + queueDelay p.widthInteger p.delayInteger ∧
      (p.widthInteger = 0 → entry.value = trigRise (run.state trigger) (run.input trigger))

/-- A train goes back to a trigger of the period: pulse `k` is to end next, or it has ended
and the next one is to start. -/
def InTrain (run : Run step) (start clock : Nat) (e : Edges) : Prop :=
  let p := (run.input start).params
  let total := (p.pulsesInteger + p.pulsesInteger - 1).toNat
  p.widthInteger ≠ 0 ∧ ∃ trigger k, Triggers run start trigger ∧ trigger < clock ∧
    let first := BitVec.ofNat 48 (trigger - start) + p.delayInteger
    (e.edgesRemaining.toNat + 2 * k = total ∧
        e.edgeTs = first + BitVec.ofNat 48 k * p.stepInteger + p.widthInteger ∨
      e.edgesRemaining.toNat + (2 * k + 1) = total ∧
        e.edgeTs = first + BitVec.ofNat 48 (k + 1) * p.stepInteger)

/-- The state of an enabled period after its first clock. -/
structure Tracks (run : Run step) (start clock : Nat) : Prop where
  prev : (run.state clock).isEnabledPrev = true
  width : (run.state clock).widthI = (run.input start).params.widthInteger
  delay : (run.state clock).delayI = (run.input start).params.delayInteger
  spacing : (run.state clock).stepI = (run.input start).params.stepInteger
  pulses : (run.state clock).pulsesI = (run.input start).params.pulsesInteger
  stamp : (run.state clock).timestamp = BitVec.ofNat 48 (clock - start)
  queue : ∃ q, Fifo.Holds 8 (run.state clock).queue q ∧
    ∀ entry ∈ q.entries, Scheduled run start clock entry
  din : (run.state clock).fill.pulseQueuedWstb = true →
    Scheduled run start clock (run.state clock).fill.pulseQueuedDin
  train : (run.state clock).edges.edgesRemaining ≠ 0 →
    InTrain run start clock (run.state clock).edges

theorem Scheduled.later {run : Run step} {start clock : Nat} {entry : Entry}
    (h : Scheduled run start clock entry) : Scheduled run start (clock + 1) entry := by
  obtain ⟨trigger, hTrigger, hBefore, hEntry⟩ := h
  exact ⟨trigger, hTrigger, by omega, hEntry⟩

theorem InTrain.later {run : Run step} {start clock : Nat} {e : Edges}
    (h : InTrain run start clock e) : InTrain run start (clock + 1) e := by
  obtain ⟨hWidth, trigger, k, hTrigger, hBefore, hEdges⟩ := h
  exact ⟨hWidth, trigger, k, hTrigger, by omega, hEdges⟩

theorem total_odd {pulses : BitVec 32} (hPulses : 0 < pulses.toNat) :
    (pulses + pulses - 1).toNat % 2 = 1 ∧ (pulses + pulses - 1).toNat + 1 ≤ 2 * pulses.toNat := by
  constructor <;> bv_omega

section Steps

variable {run : Run step} {start clock : Nat}

/-- The parts of a clock of the period that do not depend on what is under way. -/
theorem registers_step (hPeriod : Period run start clock) (hParams : ParamsStrobed run) :
    (run.state (clock + 1)).isEnabledPrev = true ∧
      (run.state (clock + 1)).widthI = (run.input start).params.widthInteger ∧
      (run.state (clock + 1)).delayI = (run.input start).params.delayInteger ∧
      (run.state (clock + 1)).stepI = (run.input start).params.stepInteger ∧
      (run.state (clock + 1)).pulsesI = (run.input start).params.pulsesInteger ∧
      (run.state (clock + 1)).timestamp = (run.state clock).timestamp + 1 := by
  have hEnabled := hPeriod.enabled clock hPeriod.le Nat.le.refl
  rw [run.edge, ← hPeriod.params_eq hParams]
  simp [step, hEnabled]

/-- At the first clock of a period everything starts from nothing. -/
theorem Tracks.first (hBoot : run.state 0 = .boot) (hParams : ParamsStrobed run)
    (hPeriod : Period run start start) : Tracks run start (start + 1) := by
  have hRise := hPeriod.rise
  have hEnabled := hPeriod.enabled start Nat.le.refl Nat.le.refl
  obtain ⟨hPrev, hWidth, hDelay, hStep, hPulses, hStamp⟩ := registers_step hPeriod hParams
  have hQuiet : Quiet (run.state start) := by
    refine quiet_of_not_prev run hBoot start ?_
    simpa [enabledRise, hEnabled] using hRise
  have hNoTrigger : accepts (run.state start) (run.input start) = false := by
    simp [accepts, hRise]
  refine ⟨hPrev, hWidth, hDelay, hStep, hPulses, ?_, ?_, ?_, ?_⟩
  · rw [hStamp, hQuiet.stamp]
    simp
  · have hHolds := hQuiet.queue.step (queuePorts (run.state start) (run.input start))
    refine ⟨_, by rw [run.edge]; exact hHolds, fun entry hEntry => ?_⟩
    rcases Fifo.Queue.mem_step hEntry with hOld | ⟨hNew, _⟩
    · simp at hOld
    · simp [queuePorts, hQuiet.din] at hNew
  · intro hDin
    rw [run.edge] at hDin
    have := (fillQueue_of_not_accepts hNoTrigger).1
    simp [step, this] at hDin
  · intro hEdges
    rw [run.edge] at hEdges
    simp [step, passEdges, hRise, hQuiet.edges] at hEdges

theorem Tracks.queue_next (h : Tracks run start clock) :
    ∃ q, Fifo.Holds 8 (run.state (clock + 1)).queue q ∧
      ∀ entry ∈ q.entries, Scheduled run start (clock + 1) entry := by
  obtain ⟨q, hHolds, hEntries⟩ := h.queue
  have hNext := hHolds.step (queuePorts (run.state clock) (run.input clock))
  refine ⟨_, by rw [run.edge]; exact hNext, fun entry hEntry => ?_⟩
  rcases Fifo.Queue.mem_step hEntry with hOld | ⟨hNew, rfl⟩
  · exact (hEntries entry hOld).later
  · exact (h.din hNew).later

theorem Tracks.din_next (h : Tracks run start clock) (hStart : start < clock)
    (hDin : (run.state (clock + 1)).fill.pulseQueuedWstb = true) :
    Scheduled run start (clock + 1) (run.state (clock + 1)).fill.pulseQueuedDin := by
  rw [run.edge] at hDin ⊢
  cases hAccepts : accepts (run.state clock) (run.input clock) with
  | false =>
      rw [show (step (run.state clock) (run.input clock)).fill.pulseQueuedWstb = false from
        (fillQueue_of_not_accepts hAccepts).1] at hDin
      exact absurd hDin Bool.false_ne_true
  | true =>
      obtain ⟨hTs, hValue⟩ := din_of_accepts hAccepts hDin
      rw [h.stamp, h.width, h.delay] at hTs
      rw [h.width] at hValue
      exact ⟨clock, ⟨hStart, hAccepts⟩, Nat.lt_succ_self clock, hTs, hValue⟩

/-- Without a stale comparison a match with the output of the queue goes back to a trigger. -/
theorem Tracks.match_scheduled (h : Tracks run start clock) (hPeriod : Period run start clock)
    (hFresh : staleMatch (run.state clock) (run.input clock) = false)
    (hEdges : (run.state clock).edges.edgesRemaining = 0)
    (hMatch : (run.state clock).timestamp = queuePulseTs (run.state clock))
    (hHigh : (run.state clock).widthI ≠ 0 ∨ queuePulseValue (run.state clock) = true) :
    Scheduled run start clock (run.state clock).queue.readDataO := by
  have hEnabled := hPeriod.enabled clock hPeriod.le Nat.le.refl
  have hValid : (run.state clock).queue.readValidO = true := by
    by_contra hInvalid
    have hHigh' : ((run.state clock).widthI != 0 || queuePulseValue (run.state clock)) = true := by
      simpa using hHigh
    simp [staleMatch, enabledRise, hEnabled, h.prev, hEdges, hMatch] at hFresh hHigh'
    simp_all
  obtain ⟨q, hHolds, hEntries⟩ := h.queue
  have hShown : q.shown = some (run.state clock).queue.readDataO := by
    rw [hHolds.shown, if_pos hValid]
  refine hEntries _ ?_
  simp [Fifo.Queue.entries, hShown]

theorem ofNat_succ_mul (k : Nat) (step : BitVec 48) :
    BitVec.ofNat 48 (k + 1) * step = BitVec.ofNat 48 k * step + step := by
  rw [BitVec.ofNat_add, BitVec.add_mul, BitVec.one_mul]

theorem toNat_pred {edges : BitVec 32} (h : edges ≠ 0) : (edges - 1).toNat + 1 = edges.toNat := by
  bv_omega

theorem first_fall (stamp width delay : BitVec 48) (hWidth : width ≠ 0) :
    (if delay = 0 then stamp + queueDelay width delay + width - 4
      else stamp + queueDelay width delay + width) = stamp + delay + width := by
  by_cases hDelay : delay = 0
  · simp only [hDelay, queueDelay, hWidth, ne_eq, not_false_eq_true, and_self, if_true]
    grind
  · simp only [hDelay, queueDelay, and_false, if_false]

/-- A train is started only for a trigger, and then counts its pulses. -/
theorem Tracks.train_next (h : Tracks run start clock) (hPeriod : Period run start clock)
    (hFresh : staleMatch (run.state clock) (run.input clock) = false)
    (hEdges : (run.state (clock + 1)).edges.edgesRemaining ≠ 0) :
    InTrain run start (clock + 1) (run.state (clock + 1)).edges := by
  have hEnabled := hPeriod.enabled clock hPeriod.le Nat.le.refl
  have hRise : enabledRise (run.state clock) (run.input clock) = false := by
    simp [enabledRise, h.prev]
  obtain ⟨hOdd, _⟩ := total_odd (run.input start).params.pulsesInteger_pos
  have hNext : (run.state (clock + 1)).edges = passEdges (run.state clock) (run.input clock) := by
    rw [run.edge, step]
  rw [hNext] at hEdges ⊢
  rcases passEdges_cases hEnabled hRise with hKeep | ⟨hRemaining, hMatch, hParity, hFall⟩ |
    ⟨hRemaining, hMatch, hParity, hStart⟩ | ⟨hRemaining, _, _, hLevel⟩ |
    ⟨hRemaining, hMatch, hWidth, hBegin⟩
  · rw [hKeep] at hEdges ⊢
    exact (h.train hEdges).later
  · obtain ⟨hWidth, trigger, k, hTrigger, hBefore, ⟨hCount, hTs⟩ | ⟨hCount, _⟩⟩ :=
      h.train hRemaining
    · refine ⟨hWidth, trigger, k, hTrigger, by omega, .inr ⟨?_, ?_⟩⟩
      · have hPred := toNat_pred hRemaining
        rw [hFall]
        dsimp only
        omega
      · rw [hFall, hMatch, hTs, h.spacing, h.width, ofNat_succ_mul]
        grind
    · omega
  · obtain ⟨hWidth, trigger, k, hTrigger, hBefore, ⟨hCount, _⟩ | ⟨hCount, hTs⟩⟩ :=
      h.train hRemaining
    · omega
    · refine ⟨hWidth, trigger, k + 1, hTrigger, by omega, .inl ⟨?_, ?_⟩⟩
      · have hPred := toNat_pred hRemaining
        rw [hStart]
        dsimp only
        omega
      · rw [hStart, hMatch, hTs, h.width]
  · rw [hLevel] at hEdges
    exact absurd hRemaining hEdges
  · obtain ⟨trigger, hTrigger, hBefore, hTs, _⟩ :=
      h.match_scheduled hPeriod hFresh hRemaining hMatch (.inl hWidth)
    have hWidth' := hWidth
    rw [h.width] at hWidth'
    refine ⟨hWidth', trigger, 0, hTrigger, by omega, .inl ⟨?_, ?_⟩⟩
    · simp only [hBegin, h.pulses, Nat.mul_zero, Nat.add_zero]
    · have hFirst := first_fall (BitVec.ofNat 48 (trigger - start)) _
        (run.input start).params.delayInteger hWidth'
      simp only [hBegin, hMatch, queuePulseTs, hTs, h.width, h.delay, hFirst]
      simp

theorem Tracks.next (h : Tracks run start clock) (hStart : start < clock)
    (hPeriod : Period run start clock) (hParams : ParamsStrobed run)
    (hFresh : staleMatch (run.state clock) (run.input clock) = false) :
    Tracks run start (clock + 1) := by
  obtain ⟨hPrev, hWidth, hDelay, hStep, hPulses, hStamp⟩ := registers_step hPeriod hParams
  refine ⟨hPrev, hWidth, hDelay, hStep, hPulses, ?_, h.queue_next, h.din_next hStart,
    h.train_next hPeriod hFresh⟩
  rw [hStamp, h.stamp, Nat.sub_add_comm hStart.le, BitVec.ofNat_add]
  rfl

theorem Tracks.of_period (hBoot : run.state 0 = .boot) (hParams : ParamsStrobed run)
    (hFresh : ∀ clock, staleMatch (run.state clock) (run.input clock) = false)
    (hPeriod : Period run start clock) : Tracks run start (clock + 1) := by
  obtain ⟨hRise, hLe, hEnabled⟩ := hPeriod
  induction clock, hLe using Nat.le_induction with
  | base => exact Tracks.first hBoot hParams ⟨hRise, Nat.le.refl, hEnabled⟩
  | succ clock hStart ih =>
      have hPeriod : Period run start (clock + 1) := ⟨hRise, Nat.le_succ_of_le hStart, hEnabled⟩
      have hBefore := ih (hPeriod.prior hStart).enabled
      exact hBefore.next (Nat.lt_succ_of_le hStart) hPeriod hParams (hFresh _)

/-- Two clocks of a short period are as far apart as their timestamps. -/
theorem clock_eq {trigger : Nat} {wait : BitVec 48} (hStart : start ≤ trigger)
    (hTrigger : trigger ≤ clock) (hShort : clock - start < 2 ^ 48)
    (hStamp : BitVec.ofNat 48 (clock - start) = BitVec.ofNat 48 (trigger - start) + wait) :
    clock = trigger + wait.toNat := by
  have hNat := congrArg BitVec.toNat hStamp
  rw [BitVec.toNat_ofNat, BitVec.toNat_add, BitVec.toNat_ofNat] at hNat
  have hWait := wait.isLt
  omega

theorem Tracks.override_caused (h : Tracks run start clock) (hStart : start < clock)
    (hLow : out (run.state clock) = false)
    (hOn : (run.state (clock + 1)).fill.pulseOverride = true) :
    ∃ trigger, Causes run start trigger clock := by
  have hOff : (run.state clock).fill.pulseOverride = false := by
    simp only [out, Bool.or_eq_false_iff] at hLow
    exact hLow.1
  rw [run.edge] at hOn
  cases hAccepts : accepts (run.state clock) (run.input clock) with
  | false =>
      have := (fillQueue_of_not_accepts hAccepts).2 hOn
      rw [hOff] at this
      exact absurd this Bool.false_ne_true
  | true =>
      obtain hBefore | ⟨hDelay, hTrig⟩ := override_of_accepts hAccepts hOn
      · rw [hOff] at hBefore
        exact absurd hBefore Bool.false_ne_true
      · rw [h.delay] at hDelay
        refine ⟨clock, ⟨hStart, hAccepts⟩, Nat.le.refl, ?_⟩
        dsimp only
        split
        · rename_i hWidth
          have hWidthI := h.width.trans hWidth
          exact ⟨trigRise_of_accepts hAccepts hWidthI (hTrig hWidthI), by simp [hDelay]⟩
        · exact .inr ⟨0, Params.pulsesInteger_pos _, by simp [hDelay]⟩

theorem Tracks.pulse_caused (h : Tracks run start clock) (hPeriod : Period run start clock)
    (hShort : clock - start < 2 ^ 48)
    (hFresh : staleMatch (run.state clock) (run.input clock) = false)
    (hLow : (run.state clock).edges.pulse = false)
    (hHigh : (run.state (clock + 1)).edges.pulse = true) :
    ∃ trigger, Causes run start trigger clock := by
  have hEnabled := hPeriod.enabled clock hPeriod.le Nat.le.refl
  have hRise : enabledRise (run.state clock) (run.input clock) = false := by
    simp [enabledRise, h.prev]
  obtain ⟨_, hTotal⟩ := total_odd (run.input start).params.pulsesInteger_pos
  rw [run.edge] at hHigh
  change (passEdges (run.state clock) (run.input clock)).pulse = true at hHigh
  rcases passEdges_cases hEnabled hRise with hKeep | ⟨_, _, _, hFall⟩ |
    ⟨hRemaining, hMatch, hParity, _⟩ | ⟨hRemaining, hMatch, hWidth, hLevel⟩ |
    ⟨hRemaining, hMatch, hWidth, _⟩
  · rw [hKeep, hLow] at hHigh
    exact absurd hHigh Bool.false_ne_true
  · rw [hFall] at hHigh
    exact absurd hHigh Bool.false_ne_true
  · obtain ⟨hWidth, trigger, k, hTrigger, hBefore, ⟨hCount, _⟩ | ⟨hCount, hTs⟩⟩ :=
      h.train hRemaining
    · have hOdd := total_odd (run.input start).params.pulsesInteger_pos
      omega
    · have hPred := toNat_pred hRemaining
      rw [h.stamp, hTs, BitVec.add_assoc] at hMatch
      refine ⟨trigger, hTrigger, hBefore.le, ?_⟩
      simp only [if_neg hWidth]
      exact .inr ⟨k + 1, by omega, clock_eq hTrigger.1.le hBefore.le hShort hMatch⟩
  · rw [hLevel] at hHigh
    obtain ⟨trigger, hTrigger, hBefore, hTs, hValue⟩ :=
      h.match_scheduled hPeriod hFresh hRemaining hMatch (.inr hHigh)
    have hZero := h.width.symm.trans hWidth
    rw [h.stamp, queuePulseTs, hTs] at hMatch
    refine ⟨trigger, hTrigger, hBefore.le, ?_⟩
    simp only [if_pos hZero]
    refine ⟨(hValue hZero).symm.trans hHigh, ?_⟩
    have hClock := clock_eq hTrigger.1.le hBefore.le hShort hMatch
    simpa [queueDelay, hZero] using hClock
  · obtain ⟨trigger, hTrigger, hBefore, hTs, _⟩ :=
      h.match_scheduled hPeriod hFresh hRemaining hMatch (.inl hWidth)
    rw [h.width] at hWidth
    rw [h.stamp, queuePulseTs, hTs] at hMatch
    refine ⟨trigger, hTrigger, hBefore.le, ?_⟩
    simp only [if_neg hWidth]
    exact .inl (clock_eq hTrigger.1.le hBefore.le hShort hMatch)

/-- Nothing is queued by the end of a part of a period that has had no trigger. -/
theorem Tracks.queued_eq_zero (h : Tracks run start clock)
    (hNone : ∀ trigger, trigger < clock → ¬ Triggers run start trigger) :
    queued (run.state clock) = 0 := by
  obtain ⟨q, hHolds, hEntries⟩ := h.queue
  have hEmpty : q.entries = [] := by
    refine List.eq_nil_iff_forall_not_mem.mpr fun entry hEntry => ?_
    obtain ⟨trigger, hTrigger, hBefore, _⟩ := hEntries entry hEntry
    exact hNone trigger hBefore hTrigger
  exact hHolds.depth_eq_zero hEmpty

/-- The first clock of a period changes nothing that can be seen. -/
theorem quiet_start (hBoot : run.state 0 = .boot) (hPeriod : Period run start clock) :
    Quiet (run.state start) := by
  refine quiet_of_not_prev run hBoot start ?_
  have hRise := hPeriod.rise
  simp only [enabledRise, Bool.and_eq_true, Bool.not_eq_true'] at hRise
  exact hRise.2

theorem low_after_start (hBoot : run.state 0 = .boot) (hPeriod : Period run start clock) :
    out (run.state (start + 1)) = false := by
  have hLow := (quiet_start hBoot hPeriod).low
  simp only [out, Bool.or_eq_false_iff] at hLow
  have hNoTrigger : accepts (run.state start) (run.input start) = false := by
    simp [accepts, hPeriod.rise]
  have hOff : (fillQueue (run.state start) (run.input start)).pulseOverride = false := by
    refine Bool.eq_false_iff.mpr fun hOn => ?_
    exact absurd ((fillQueue_of_not_accepts hNoTrigger).2 hOn) (Bool.eq_false_iff.mp hLow.1)
  rw [run.edge, out, step]
  simp [hOff, passEdges, hPeriod.rise, hLow.2]

theorem Tracks.rise_caused (h : Tracks run start clock) (hStart : start < clock)
    (hPeriod : Period run start clock) (hShort : clock - start < 2 ^ 48)
    (hFresh : staleMatch (run.state clock) (run.input clock) = false)
    (hRises : Rises run clock) : ∃ trigger, Causes run start trigger clock := by
  obtain ⟨hLow, hHigh⟩ := hRises
  have hBoth := hLow
  simp only [out, Bool.or_eq_false_iff] at hBoth
  rcases (Bool.or_eq_true _ _).mp hHigh with hOverride | hPulse
  · exact h.override_caused hStart hLow hOverride
  · exact h.pulse_caused hPeriod hShort hFresh hBoth.2 hPulse

end Steps

section Runs

variable {run : Run step} (hBoot : run.state 0 = .boot) (hParams : ParamsStrobed run)
  (hShort : ∀ start clock, Period run start clock → clock - start < 2 ^ 48)
  (hFresh : ∀ clock, staleMatch (run.state clock) (run.input clock) = false)
include hBoot hParams hShort hFresh

theorem rise_has_trigger {start clock : Nat} (hPeriod : Period run start clock)
    (hRises : Rises run clock) : ∃ trigger, Causes run start trigger clock := by
  rcases Nat.eq_or_lt_of_le hPeriod.le with rfl | hStart
  · exact absurd hRises.2 (Bool.eq_false_iff.mp (low_after_start hBoot hPeriod))
  · obtain ⟨prior, rfl⟩ : ∃ prior, clock = prior + 1 := ⟨clock - 1, by omega⟩
    have hTracks := Tracks.of_period hBoot hParams hFresh (hPeriod.prior (by omega))
    exact hTracks.rise_caused hStart hPeriod (hShort _ _ hPeriod) (hFresh _) hRises

/-- A period without a trigger leaves the output low and the queue empty. -/
theorem quiet_period {start clock : Nat} (hPeriod : Period run start clock)
    (hNone : ∀ trigger, trigger ≤ clock → ¬ Triggers run start trigger) {visited : Nat}
    (hFirst : start ≤ visited) (hLast : visited ≤ clock + 1) :
    out (run.state visited) = false ∧ queued (run.state visited) = 0 := by
  have hQuiet := quiet_start hBoot hPeriod
  induction visited, hFirst using Nat.le_induction with
  | base => exact ⟨hQuiet.low, hQuiet.queue.depth_eq_zero rfl⟩
  | succ visited hFirst ih =>
      have hPart : Period run start visited :=
        ⟨hPeriod.rise, hFirst, fun c hc hLe => hPeriod.enabled c hc (by omega)⟩
      have hTracks := Tracks.of_period hBoot hParams hFresh hPart
      refine ⟨Bool.eq_false_iff.mpr fun hHigh => ?_, hTracks.queued_eq_zero ?_⟩
      · have hRises : Rises run visited := ⟨(ih (by omega)).1, hHigh⟩
        obtain ⟨trigger, hTrigger, hLe, _⟩ :=
          rise_has_trigger hBoot hParams hShort hFresh hPart hRises
        exact hNone trigger (by omega) hTrigger
      · exact fun trigger hLe => hNone trigger (by omega)

/-- PULSE produces nothing without a trigger of the same period, as long as the timestamp
does not reach what an earlier period has left in the output register of the queue. -/
theorem output_needs_trigger :
    (∀ start clock, Period run start clock → Rises run clock →
        ∃ trigger, Causes run start trigger clock) ∧
      (∀ clock, isEnabled (run.input clock) = false → out (run.state (clock + 1)) = false) ∧
      (∀ start clock, Period run start clock →
        (∀ trigger, trigger ≤ clock → ¬ Triggers run start trigger) →
        ∀ visited, start ≤ visited → visited ≤ clock + 1 →
          out (run.state visited) = false ∧ queued (run.state visited) = 0) := by
  refine ⟨fun start clock hPeriod hRises => ?_, fun clock hDisabled => ?_,
    fun start clock hPeriod hNone visited hFirst hLast => ?_⟩
  · exact rise_has_trigger hBoot hParams hShort hFresh hPeriod hRises
  · rw [run.edge]
    exact out_step_of_disabled hDisabled
  · exact quiet_period hBoot hParams hShort hFresh hPeriod hNone hFirst hLast

end Runs

/-- A run with DELAY and WIDTH 5, a trigger at clock 2 and the input ENABLE given. -/
def triggeredRun (enable : Nat → Bool) : Run step :=
  .ofInputs step .boot fun clock => {
    trig := clock == 2
    enable := enable clock
    params := ⟨0, 5, 0, 5, 0, 0, 0, 0⟩ }

theorem triggeredRun_short {enable : Nat → Bool} (hEnd : ∀ clock, 40 ≤ clock → enable clock = false)
    (start clock : Nat) (hPeriod : Period (triggeredRun enable) start clock) :
    clock - start < 2 ^ 48 := by
  have hEnabled := hPeriod.enabled clock hPeriod.le Nat.le.refl
  have hInput : enable clock = true := by simp_all [isEnabled, triggeredRun, Run.ofInputs, strobed]
  by_contra hLong
  rw [hEnd clock (by omega)] at hInput
  exact absurd hInput Bool.false_ne_true

/-- One period: the pulse at clock 7 goes back to the trigger. -/
theorem output_needs_trigger_once :
    ∃ trigger, Causes (triggeredRun (· < 10)) 0 trigger 7 := by
  refine (output_needs_trigger rfl (fun _ h => absurd rfl h)
    (triggeredRun_short fun clock h => by simp; omega) ?_).1 0 7 ?_ ?_
  · intro clock
    by_cases hEnabled : clock < 10
    · have hAll : ∀ c < 10, staleMatch ((triggeredRun (· < 10)).state c)
          ((triggeredRun (· < 10)).input c) = false := by decide +kernel
      exact hAll clock hEnabled
    · have hOff : isEnabled ((triggeredRun (· < 10)).input clock) = false := by
        simp [isEnabled, triggeredRun, Run.ofInputs, hEnabled]
      simp [staleMatch, hOff]
  · refine ⟨by decide +kernel, Nat.zero_le 7, fun c _ hc => ?_⟩
    simp [isEnabled, triggeredRun, Run.ofInputs, strobed]
    omega
  · constructor <;> decide +kernel

/-- The second of two periods has no trigger, and its timestamp reaches the entry that the
first one has left in the output register of the queue. -/
theorem stale_entry_makes_pulse :
    ∃ run : Run step, run.state 0 = .boot ∧ ParamsStrobed run ∧
      (∀ start clock, Period run start clock → clock - start < 2 ^ 48) ∧
      ∃ start clock, Period run start clock ∧
        (∀ trigger, trigger ≤ clock → ¬ Triggers run start trigger) ∧ Rises run clock := by
  refine ⟨triggeredRun fun clock => clock != 20 && decide (clock < 40), rfl,
    fun _ h => absurd rfl h, triggeredRun_short (by intro clock h; simp; omega), 21, 28, ?_, ?_, ?_⟩
  · refine ⟨by decide +kernel, by decide, fun c hFirst hLast => ?_⟩
    simp [isEnabled, triggeredRun, Run.ofInputs, strobed]
    omega
  · have hAll : ∀ trigger ≤ 28, 21 < trigger → accepts
        ((triggeredRun fun clock => clock != 20 && decide (clock < 40)).state trigger)
        ((triggeredRun fun clock => clock != 20 && decide (clock < 40)).input trigger) = false := by
      decide +kernel
    intro trigger hLe hTrigger
    exact absurd hTrigger.2 (Bool.eq_false_iff.mp (hAll trigger hLe hTrigger.1))
  · constructor <;> decide +kernel

end Fpga.Pulse
