import PandaBridge.Fpga.PulseRun

/-! The trains of the PULSE block by the clocks of their triggers, and how the process that passes
edges makes them. -/
namespace Fpga.Pulse

open Clocked

/-! ### The shape of a train -/

def Params.width (p : Params) : Nat := p.widthInteger.toNat

def Params.delay (p : Params) : Nat := p.delayInteger.toNat

def Params.count (p : Params) : Nat := p.pulsesInteger.toNat

/-- The distance of the rising edges, before it is cut to its register. -/
def Params.spacing (p : Params) : Nat :=
  if p.width < p.stepVector.toNat then p.stepVector.toNat else p.width + 1

/-- How long a train takes. -/
def Params.busy (p : Params) : Nat := p.spacing * (p.count - 1) + p.width

/-- How long after a trigger its entry of the queue is due. -/
def Params.lead (p : Params) : Nat := if p.delay = 0 then 4 else p.delay

def Params.riseAt (p : Params) (trigger pulse : Nat) : Nat :=
  trigger + p.delay + pulse * p.spacing

def Params.fallAt (p : Params) (trigger pulse : Nat) : Nat := p.riseAt trigger pulse + p.width

/-- The parameters of a train with a width that the registers can time. -/
structure Params.Timed (p : Params) : Prop where
  wide : 0 < p.width
  pulses : 2 * p.count - 1 < 2 ^ 32
  busy : p.busy < 2 ^ 48

section
variable {p : Params} {trigger pulse : Nat}

theorem Params.count_pos (p : Params) : 0 < p.count := p.pulsesInteger_pos

theorem Params.width_lt_spacing (p : Params) : p.width < p.spacing := by
  rw [spacing]
  split_ifs with hStep
  · exact hStep
  · exact Nat.lt_succ_self _

theorem Params.Timed.width_ge (h : p.Timed) : 5 ≤ p.width := by
  have hSome := h.wide
  rw [Params.width, widthInteger] at hSome ⊢
  split_ifs with hSmall
  · decide
  · rw [if_neg hSmall] at hSome
    by_contra hLess
    refine hSmall ⟨fun hNone => ?_, ?_⟩
    · rw [hNone] at hSome
      exact absurd hSome (by decide)
    · exact BitVec.lt_def.mpr (by simpa using hLess)

theorem Params.delay_zero_or (p : Params) : p.delay = 0 ∨ 5 ≤ p.delay := by
  rw [delay, delayInteger]
  split_ifs with hSmall
  · exact .inr (by decide)
  · by_cases hNone : p.delayVector = 0
    · exact .inl (by rw [hNone]; rfl)
    · refine .inr (not_lt.mp fun hLess => hSmall ⟨hNone, ?_⟩)
      exact BitVec.lt_def.mpr (by simpa using hLess)

theorem Params.lead_bounds (p : Params) :
    4 ≤ p.lead ∧ p.delay ≤ p.lead ∧ p.lead ≤ p.delay + 4 ∧ (p.delay ≠ 0 → p.lead = p.delay) := by
  rcases p.delay_zero_or with hNone | hSome
  · rw [lead, if_pos hNone]
    omega
  · rw [lead, if_neg (by omega)]
    omega

theorem Params.riseAt_succ (p : Params) (trigger pulse : Nat) :
    p.riseAt trigger (pulse + 1) = p.riseAt trigger pulse + p.spacing := by
  rw [riseAt, riseAt, Nat.succ_mul]
  omega

theorem Params.riseAt_mono {other : Nat} (hLe : pulse ≤ other) :
    p.riseAt trigger pulse ≤ p.riseAt trigger other :=
  Nat.add_le_add_left (Nat.mul_le_mul_right _ hLe) _

theorem Params.fallAt_last (p : Params) (trigger : Nat) :
    p.fallAt trigger (p.count - 1) = trigger + p.delay + p.busy := by
  rw [fallAt, riseAt, busy, Nat.mul_comm, Nat.add_assoc]

theorem Params.fallAt_le (hPulse : pulse < p.count) :
    p.fallAt trigger pulse ≤ trigger + p.delay + p.busy := by
  rw [← p.fallAt_last]
  exact Nat.add_le_add_right (riseAt_mono (by omega)) _

theorem Params.pulse_last (hPulse : pulse < p.count)
    (hEnd : p.fallAt trigger pulse = trigger + p.delay + p.busy) : pulse = p.count - 1 := by
  by_contra hNot
  have hLast := p.fallAt_last trigger
  have hSpacing := p.width_lt_spacing
  have hNext : p.riseAt trigger (pulse + 1) ≤ p.riseAt trigger (p.count - 1) := riseAt_mono (by omega)
  have hStep : p.riseAt trigger (pulse + 1) = p.riseAt trigger pulse + p.spacing := by
    rw [riseAt, riseAt, Nat.succ_mul]
    omega
  rw [fallAt] at hEnd hLast
  omega

theorem Params.fallAt_lt_riseAt {later : Nat} (hLess : pulse < later) :
    p.fallAt trigger pulse < p.riseAt trigger later := by
  have hNext := p.riseAt_succ trigger pulse
  have hSpacing := p.width_lt_spacing
  have hLater : p.riseAt trigger (pulse + 1) ≤ p.riseAt trigger later := riseAt_mono hLess
  rw [fallAt]
  omega

theorem Params.width_le_busy (p : Params) : p.width ≤ p.busy := Nat.le_add_left _ _

/-! The registers of the parameters. -/

theorem ofNat_toNat_self (x : BitVec 48) : BitVec.ofNat 48 x.toNat = x := by
  rw [BitVec.ofNat_toNat, BitVec.setWidth_eq]

theorem Params.widthInteger_eq (p : Params) : p.widthInteger = BitVec.ofNat 48 p.width :=
  (ofNat_toNat_self _).symm

theorem Params.delayInteger_eq (p : Params) : p.delayInteger = BitVec.ofNat 48 p.delay :=
  (ofNat_toNat_self _).symm

theorem Params.stepInteger_eq (p : Params) : p.stepInteger = BitVec.ofNat 48 p.spacing := by
  have hIff : p.widthInteger < p.stepVector ↔ p.width < p.stepVector.toNat := BitVec.lt_def
  rw [stepInteger, spacing]
  by_cases hStep : p.width < p.stepVector.toNat
  · rw [if_pos hStep, if_pos (hIff.mpr hStep)]
    exact (ofNat_toNat_self _).symm
  · rw [if_neg hStep, if_neg (mt hIff.mp hStep), BitVec.ofNat_add, ← p.widthInteger_eq]
    rfl

theorem Params.Timed.widthInteger_ne (h : p.Timed) : p.widthInteger ≠ 0 := by
  intro hNone
  have hSome := h.wide
  rw [Params.width, hNone] at hSome
  exact absurd hSome (by decide)

theorem Params.delayInteger_iff (p : Params) : p.delayInteger = 0 ↔ p.delay = 0 := by
  rw [delay, ← BitVec.toNat_inj]
  rfl

end

/-! ### The process that passes edges -/

/-- The timestamp of a clock of the period. -/
def stampAt (start clock : Nat) : BitVec 48 := BitVec.ofNat 48 (clock - start)

theorem stampAt_add {start clock : Nat} (hStart : start ≤ clock) (wait : Nat) :
    stampAt start clock + BitVec.ofNat 48 wait = stampAt start (clock + wait) := by
  rw [stampAt, stampAt, ← BitVec.ofNat_add, Nat.sub_add_comm hStart]

theorem stampAt_sub {start clock : Nat} (wait : Nat) (hStart : start + wait ≤ clock) :
    stampAt start clock - BitVec.ofNat 48 wait = stampAt start (clock - wait) := by
  rw [BitVec.sub_eq_iff_eq_add, stampAt_add (by omega), Nat.sub_add_cancel (by omega)]

/-- A timestamp ahead is reached at its clock only. -/
theorem stampAt_eq_iff {start clock due : Nat} (hStart : start ≤ clock) (hDue : clock ≤ due)
    (hSoon : due - clock < 2 ^ 48) : stampAt start clock = stampAt start due ↔ clock = due := by
  refine ⟨fun hSame => ?_, fun hSame => by rw [hSame]⟩
  have hNat := congrArg BitVec.toNat hSame
  simp only [stampAt, BitVec.toNat_ofNat] at hNat
  omega

/-- The registers in an enabled period with settled parameters. -/
structure Timing (p : Params) (start clock : Nat) (s : State) : Prop where
  prev : s.isEnabledPrev = true
  width : s.widthI = p.widthInteger
  delay : s.delayI = p.delayInteger
  spacing : s.stepI = p.stepInteger
  pulses : s.pulsesI = p.pulsesInteger
  stamp : s.timestamp = stampAt start clock

/-- How far the train of a trigger has come. -/
inductive Making (p : Params) (start trigger clock : Nat) (e : Edges) : Prop where
  | waiting (hBefore : clock ≤ trigger + p.lead) (hNone : e.edgesRemaining = 0)
      (hLow : e.pulse = false)
  | high {pulse : Nat} (hPulse : pulse < p.count) (hLead : trigger + p.lead < clock)
      (hRisen : p.riseAt trigger pulse < clock) (hBefore : clock ≤ p.fallAt trigger pulse)
      (hLeft : e.edgesRemaining.toNat = 2 * (p.count - pulse) - 1)
      (hTs : e.edgeTs = stampAt start (p.fallAt trigger pulse)) (hHigh : e.pulse = true)
  | low {pulse : Nat} (hPulse : pulse + 1 < p.count) (hFallen : p.fallAt trigger pulse < clock)
      (hBefore : clock ≤ p.riseAt trigger (pulse + 1))
      (hLeft : e.edgesRemaining.toNat = 2 * (p.count - pulse - 1))
      (hTs : e.edgeTs = stampAt start (p.riseAt trigger (pulse + 1))) (hLow : e.pulse = false)

section
variable {p : Params} {start trigger clock : Nat} {s : State} {i : Input}

theorem passEdges_busy (hEnabled : isEnabled i = true) (hRise : enabledRise s i = false)
    (hLeft : s.edges.edgesRemaining ≠ 0) : passEdges s i =
      if s.timestamp = s.edges.edgeTs then
        if s.edges.edgesRemaining.toNat % 2 = 1 then
          ⟨false, s.timestamp + s.stepI - s.widthI, s.edges.edgesRemaining - 1⟩
        else ⟨true, s.timestamp + s.widthI, s.edges.edgesRemaining - 1⟩
      else s.edges := by
  have hMany : (isEnabled i && s.edges.edgesRemaining != 0) = true := by
    rw [hEnabled, Bool.true_and, bne_iff_ne]
    exact hLeft
  simp only [passEdges, hRise, hMany, Bool.false_eq_true, if_false, if_true]

theorem passEdges_idle (hEnabled : isEnabled i = true) (hRise : enabledRise s i = false)
    (hNone : s.edges.edgesRemaining = 0) (hWidth : s.widthI ≠ 0) : passEdges s i =
      if s.timestamp = queuePulseTs s then
        ⟨true, if s.delayI = 0 then s.timestamp + s.widthI - 4 else s.timestamp + s.widthI,
          s.pulsesI + s.pulsesI - 1⟩
      else s.edges := by
  simp only [passEdges, hRise, hEnabled, hNone, Bool.true_and, bne_self_eq_false, beq_iff_eq,
    Bool.false_eq_true, if_false, if_neg hWidth, if_true]

theorem rstb_iff (hWidth : s.widthI ≠ 0) : pulseQueuedRstb s = true ↔
    s.edges.edgesRemaining = 1 ∧ s.timestamp = s.edges.edgeTs := by
  have hNot : (s.widthI == 0) = false := beq_eq_false_iff_ne.mpr hWidth
  rw [pulseQueuedRstb, hNot, Bool.false_and, Bool.false_or, Bool.and_eq_true, beq_iff_eq, beq_iff_eq]

theorem stampAt_fall (hStart : start ≤ trigger) (pulse : Nat) :
    stampAt start (p.fallAt trigger pulse) + p.stepInteger - p.widthInteger =
      stampAt start (p.riseAt trigger (pulse + 1)) := by
  have hNext := p.riseAt_succ trigger pulse
  have hSpacing := p.width_lt_spacing
  have hRise : trigger ≤ p.riseAt trigger pulse := by
    rw [Params.riseAt]
    omega
  rw [p.stepInteger_eq, stampAt_add (by rw [Params.fallAt]; omega), p.widthInteger_eq,
    stampAt_sub _ (by rw [Params.fallAt]; omega), hNext, Params.fallAt]
  congr 1
  omega

/-- One clock of the process that passes edges, with the train of a trigger at the output of the
queue. -/
theorem Making.goes (h : Making p start trigger clock s.edges) (hTimed : p.Timed)
    (hTiming : Timing p start clock s) (hEnabled : isEnabled i = true) (hStart : start < trigger)
    (hTrigger : trigger < clock)
    (hShown : s.edges.edgesRemaining = 0 → clock ≤ trigger + p.lead →
      (s.timestamp = queuePulseTs s ↔ clock = trigger + p.lead)) :
    (clock < trigger + p.delay + p.busy → Making p start trigger (clock + 1) (passEdges s i)) ∧
    (clock = trigger + p.delay + p.busy →
      (passEdges s i).edgesRemaining = 0 ∧ (passEdges s i).pulse = false) ∧
    (pulseQueuedRstb s = true ↔ clock = trigger + p.delay + p.busy) := by
  have hRise : enabledRise s i = false := by simp [enabledRise, hTiming.prev]
  have hWidth : s.widthI ≠ 0 := hTiming.width ▸ hTimed.widthInteger_ne
  have hWide := hTimed.width_ge
  have hShort := hTimed.busy
  have hPulses := hTimed.pulses
  have hCount := p.count_pos
  have hBusy := p.width_le_busy
  obtain ⟨hFour, hLead, hLead', hSame⟩ := p.lead_bounds
  have hReads := rstb_iff hWidth
  cases h with
  | waiting hBefore hNone hLow =>
      have hFirst : p.riseAt trigger 0 = trigger + p.delay := by
        rw [Params.riseAt, Nat.zero_mul, Nat.add_zero]
      have hFall : p.fallAt trigger 0 = trigger + p.delay + p.width := by
        rw [Params.fallAt, hFirst]
      have hIdle := passEdges_idle hEnabled hRise hNone hWidth
      have hLeft : (s.pulsesI + s.pulsesI - 1).toNat = 2 * (p.count - 0) - 1 := by
        have hNat : s.pulsesI.toNat = p.count := congrArg BitVec.toNat hTiming.pulses
        clear * - hNat hCount hPulses
        bv_omega
      refine ⟨fun hLess => ?_, fun hEnd => by omega, ?_⟩
      · rw [hIdle]
        split_ifs with hMatch hDelay
        · have hNow := (hShown hNone hBefore).mp hMatch
          have hZero : p.delay = 0 := p.delayInteger_iff.mp (hTiming.delay.symm.trans hDelay)
          refine .high hCount (by omega) (by omega) (by omega) hLeft ?_ rfl
          show s.timestamp + s.widthI - 4 = stampAt start (p.fallAt trigger 0)
          rw [hTiming.stamp, hTiming.width, p.widthInteger_eq, stampAt_add (by omega),
            show (4 : BitVec 48) = BitVec.ofNat 48 4 from rfl, stampAt_sub _ (by omega), hFall]
          congr 1
          rw [Params.lead, if_pos hZero] at hNow
          omega
        · have hNow := (hShown hNone hBefore).mp hMatch
          have hSome : p.delay ≠ 0 := fun hZero =>
            hDelay (hTiming.delay.trans (p.delayInteger_iff.mpr hZero))
          refine .high hCount (by omega) (by omega) (by omega) hLeft ?_ rfl
          show s.timestamp + s.widthI = stampAt start (p.fallAt trigger 0)
          rw [hTiming.stamp, hTiming.width, p.widthInteger_eq, stampAt_add (by omega), hFall]
          congr 1
          have := hSame hSome
          omega
        · have hNow := mt (hShown hNone hBefore).mpr hMatch
          exact .waiting (by omega) hNone hLow
      · rw [hReads, hNone]
        constructor
        · rintro ⟨hOne, _⟩
          exact absurd hOne (by decide)
        · omega
  | @high pulse hPulse hLate hRisen hBefore hLeft hTs hHigh =>
      have hFall : p.fallAt trigger pulse = p.riseAt trigger pulse + p.width := rfl
      have hLast := p.fallAt_last trigger
      have hMost := @Params.fallAt_le p trigger _ hPulse
      have hSome : s.edges.edgesRemaining ≠ 0 := by
        intro hNone
        rw [hNone] at hLeft
        have hZero : (0 : Nat) = 2 * (p.count - pulse) - 1 := hLeft
        omega
      have hPred := toNat_pred hSome
      have hMatch : s.timestamp = s.edges.edgeTs ↔ clock = p.fallAt trigger pulse := by
        rw [hTiming.stamp, hTs]
        exact stampAt_eq_iff (by omega) hBefore (by omega)
      have hOdd : s.edges.edgesRemaining.toNat % 2 = 1 := by omega
      have hEdges := passEdges_busy hEnabled hRise hSome
      rw [if_pos hOdd] at hEdges
      refine ⟨fun hLess => ?_, fun hEnd => ?_, ?_⟩
      · rw [hEdges]
        split_ifs with hNow
        · have hClock := hMatch.mp hNow
          have hMore : pulse + 1 < p.count := by
            by_contra hNot
            obtain rfl : pulse = p.count - 1 := by omega
            omega
          have hNext := @Params.fallAt_lt_riseAt p trigger _ _ (Nat.lt_add_one pulse)
          refine .low hMore (by omega) (by omega) ?_ ?_ rfl
          · show (s.edges.edgesRemaining - 1).toNat = _
            omega
          · show s.timestamp + s.stepI - s.widthI = _
            rw [hNow, hTs, hTiming.spacing, hTiming.width]
            exact stampAt_fall hStart.le pulse
        · have hClock := mt hMatch.mpr hNow
          exact .high hPulse (by omega) (by omega) (by omega) hLeft hTs hHigh
      · have hClock : clock = p.fallAt trigger pulse := by omega
        have hPulse' := Params.pulse_last hPulse (hClock.symm.trans hEnd)
        rw [hEdges, if_pos (hMatch.mpr hClock)]
        refine ⟨BitVec.eq_of_toNat_eq ?_, rfl⟩
        show (s.edges.edgesRemaining - 1).toNat = 0
        omega
      · rw [hReads, hMatch]
        constructor
        · rintro ⟨hOne, hClock⟩
          rw [hOne] at hLeft
          have hZero : (1 : Nat) = 2 * (p.count - pulse) - 1 := hLeft
          obtain rfl : pulse = p.count - 1 := by omega
          omega
        · intro hEnd
          have hClock : clock = p.fallAt trigger pulse := by omega
          refine ⟨BitVec.eq_of_toNat_eq ?_, hClock⟩
          have hPulse' := Params.pulse_last hPulse (hClock.symm.trans hEnd)
          rw [hLeft]
          show _ = 1
          omega
  | @low pulse hPulse hFallen hBefore hLeft hTs hLow =>
      have hNext := p.riseAt_succ trigger pulse
      have hSpacing := p.width_lt_spacing
      have hFall : p.fallAt trigger pulse = p.riseAt trigger pulse + p.width := rfl
      have hFall' : p.fallAt trigger (pulse + 1) = p.riseAt trigger (pulse + 1) + p.width := rfl
      have hMost := @Params.fallAt_le p trigger _ hPulse
      have hSome : s.edges.edgesRemaining ≠ 0 := by
        intro hNone
        rw [hNone] at hLeft
        have hZero : (0 : Nat) = 2 * (p.count - pulse - 1) := hLeft
        omega
      have hPred := toNat_pred hSome
      have hFirst : trigger + p.delay ≤ p.riseAt trigger pulse := Nat.le_add_right _ _
      have hMatch : s.timestamp = s.edges.edgeTs ↔ clock = p.riseAt trigger (pulse + 1) := by
        rw [hTiming.stamp, hTs]
        exact stampAt_eq_iff (by omega) hBefore (by omega)
      have hEven : ¬ s.edges.edgesRemaining.toNat % 2 = 1 := by omega
      have hEdges := passEdges_busy hEnabled hRise hSome
      rw [if_neg hEven] at hEdges
      refine ⟨fun hLess => ?_, fun hEnd => by omega, ?_⟩
      · rw [hEdges]
        split_ifs with hNow
        · have hClock := hMatch.mp hNow
          refine .high hPulse (by omega) (by omega) (by omega) ?_ ?_ rfl
          · show (s.edges.edgesRemaining - 1).toNat = _
            omega
          · show s.timestamp + s.widthI = _
            rw [hTiming.stamp, hTiming.width, p.widthInteger_eq, stampAt_add (by omega), hClock]
            rfl
        · have hClock := mt hMatch.mpr hNow
          exact .low hPulse (by omega) (by omega) hLeft hTs hLow
      · rw [hReads, hMatch]
        constructor
        · rintro ⟨hOne, _⟩
          rw [hOne] at hLeft
          have hZero : (1 : Nat) = 2 * (p.count - pulse - 1) := hLeft
          omega
        · omega

end

end Fpga.Pulse
