import PandaBridge.Lqr.LqrTop

/-! The control law over whole runs. Every tick adds a sample; the samples alone say
what history, setpoint register, feedback and raw results must hold, and the clocked
processes keep up with them while the engine is at rest at every tick. -/
namespace Lqr

open FixedPoint Clocked

/-- What a tick takes in, and the gains of the pass that it starts. -/
structure Sample where
  pos : Nat → BitVec laneAW
  sp : Nat → BitVec laneAW
  gains : Nat → BitVec laneBW

namespace Sample

/-- The positions of past ticks, the newest first, and zero before there were any. -/
def history (samples : List Sample) (ax t : Nat) : BitVec laneAW :=
  match samples[t]? with
  | some sample => sample.pos ax
  | none => 0

def setpoints : List Sample → Nat → BitVec laneAW
  | [], _ => 0
  | now :: _, r => now.sp r

/-- The raw results after the newest tick: the lane's sums over the assembled features,
with the feedback of the results before. -/
def raw (config : TopConfig) : List Sample → Nat → BitVec laneAccW
  | [], _ => 0
  | now :: past, r =>
      if past.length + 1 < config.histDepth then 0
      else
        laneSum
          (config.lqr.xEng (condX config.cond (history (now :: past))) now.sp
            fun r => feedback (raw config past r))
          (fun c => now.gains (r * config.lqr.nInt + c)) laneAccW config.lqr.nInt

theorem raw_of_lt {config : TopConfig} {samples : List Sample}
    (hFew : samples.length < config.histDepth) (r : Nat) : raw config samples r = 0 := by
  cases samples with
  | nil => rfl
  | cons now past =>
      rw [List.length_cons] at hFew
      rw [raw, if_pos hFew]

end Sample

open Sample

variable {config : TopConfig} (run : Run (LqrTop.step : LqrTop config → LqrTop.Input → LqrTop config))

/-- Positions and setpoints of a tick come from the raw inputs of three clocks before;
the gains are the active bank once the pass has begun. -/
def sampleAt (clock : Nat) : Sample where
  pos ax := toNm config.pvScale ((run.input (clock - 3)).pos ax)
  sp r := toNm config.pvScale ((run.input (clock - 3)).sp r)
  gains := (run.state (clock + 3)).controller.engine.store.activeBank

/-- The samples of the ticks after a reset and before a clock, the newest first. -/
def samples (reset : Nat) : Nat → List Sample
  | 0 => []
  | clock + 1 =>
      if reset < clock ∧ (run.input clock).tick = true then sampleAt run clock :: samples reset clock
      else samples reset clock

/-- A run of the controller after its reset. A tick finds the conversions filled, the
pass of a tick is over before the next one, and nobody writes gains in the clock of
a swap. -/
structure Serves (reset : Nat) : Prop where
  init : (run.input reset).init = true
  init_low : ∀ clock, reset < clock → (run.input clock).init = false
  converted : ∀ tick, reset < tick → (run.input tick).tick = true → 3 ≤ tick
  spaced : ∀ tick next, reset < tick → tick < next → (run.input tick).tick = true →
    (run.input next).tick = true → config.histDepth ≤ (samples run reset (tick + 1)).length →
    tick + 1 + MacEngine.passLatency config.lqr.dims ≤ next
  quiet_swap : ∀ clock, reset < clock → (run.state clock).controller.engine.passStart = true →
    (run.state clock).controller.engine.store.pending = true → (run.input clock).wrEn = false

/-! ## The conditioned inputs -/

theorem pos_nm {clock : Nat} (hClock : 3 ≤ clock) (ax : Nat) :
    ((run.state clock).cond.posScale ax).nm =
      toNm config.pvScale ((run.input (clock - 3)).pos ax) := by
  let conversion : Run (NmConversion.step :
      NmConversion laneAW config.pvScale → BitVec laneAW → NmConversion laneAW config.pvScale) :=
    run.component NmConversion.step (fun top => top.cond.posScale ax) (fun _ input => input.pos ax)
      fun _ _ => rfl
  have hLatency := NmConversion.nm_latency conversion (clock - 3)
  rw [Nat.sub_add_cancel hClock] at hLatency
  exact hLatency

theorem sp_nm {clock : Nat} (hClock : 3 ≤ clock) (r : Nat) :
    ((run.state clock).spScale r).nm = toNm config.pvScale ((run.input (clock - 3)).sp r) := by
  let conversion : Run (NmConversion.step :
      NmConversion laneAW config.pvScale → BitVec laneAW → NmConversion laneAW config.pvScale) :=
    run.component NmConversion.step (fun top => top.spScale r) (fun _ input => input.sp r)
      fun _ _ => rfl
  have hLatency := NmConversion.nm_latency conversion (clock - 3)
  rw [Nat.sub_add_cancel hClock] at hLatency
  exact hLatency

variable {run} {reset : Nat}

theorem samples_of_tick {clock : Nat} (hAfter : reset < clock)
    (hTick : (run.input clock).tick = true) :
    samples run reset (clock + 1) = sampleAt run clock :: samples run reset clock := by
  rw [samples, if_pos ⟨hAfter, hTick⟩]

theorem samples_of_not_tick {clock : Nat} (hTick : (run.input clock).tick = false) :
    samples run reset (clock + 1) = samples run reset clock := by
  rw [samples, if_neg (by simp [hTick])]

theorem samples_reset : samples run reset (reset + 1) = [] := by
  have hNone : ∀ clock ≤ reset + 1, samples run reset clock = [] := by
    intro clock hClock
    induction clock with
    | zero => rfl
    | succ clock ih =>
        rw [samples, if_neg (by omega)]
        exact ih (by omega)
  exact hNone (reset + 1) (Nat.le_refl _)

/-- The registers of the conditioning agree with the samples. -/
structure Conditioned (run : Run (LqrTop.step : LqrTop config → LqrTop.Input → LqrTop config))
    (reset clock : Nat) : Prop where
  poshist : ∀ ax, ∀ t < config.histDepth,
    (run.state clock).cond.poshist ax t = history (samples run reset clock) ax t
  warm : (run.state clock).cond.warm = min (samples run reset clock).length config.histDepth
  spReg : (run.state clock).spReg = setpoints (samples run reset clock)

theorem Conditioned.of_reset (h : Serves run reset) : Conditioned run reset (reset + 1) := by
  have hInit := h.init
  constructor
  · intro ax t _
    rw [run.edge, samples_reset]
    simp [LqrTop.step, LqrTop.condInput, CondInput.step, hInit, history]
  · rw [run.edge, samples_reset]
    simp [LqrTop.step, LqrTop.condInput, CondInput.step, hInit]
  · rw [run.edge, samples_reset]
    funext r
    simp [LqrTop.step, hInit, setpoints]

theorem Conditioned.step (h : Serves run reset) {clock : Nat} (hAfter : reset < clock)
    (hNow : Conditioned run reset clock) : Conditioned run reset (clock + 1) := by
  have hInit := h.init_low clock hAfter
  have hCond : (LqrTop.condInput (run.input clock)).init = false := hInit
  cases hTick : (run.input clock).tick with
  | false =>
      obtain ⟨hHist, hWarm, -⟩ := (run.state clock).cond.step_of_not_tick
        hCond hTick
      constructor
      · intro ax t hDepth
        rw [run.edge, samples_of_not_tick hTick, ← hNow.poshist ax t hDepth]
        exact congrFun (congrFun hHist ax) t
      · rw [run.edge, samples_of_not_tick hTick, ← hNow.warm]
        exact hWarm
      · rw [run.edge, samples_of_not_tick hTick, ← hNow.spReg]
        simp [LqrTop.step, hInit, hTick]
  | true =>
      have hFilled := h.converted clock hAfter hTick
      obtain ⟨hFirst, hShift, hWarm, -⟩ := (run.state clock).cond.step_of_tick
        hCond hTick
      constructor
      · intro ax t hDepth
        rw [run.edge, samples_of_tick hAfter hTick]
        cases t with
        | zero => exact (hFirst ax).trans (pos_nm run hFilled ax)
        | succ t => exact (hShift ax t hDepth).trans (hNow.poshist ax t (by omega))
      · rw [run.edge, samples_of_tick hAfter hTick, List.length_cons]
        have hCount := hNow.warm
        refine hWarm.trans ?_
        rw [hCount]
        show (if _ < config.histDepth then _ else _) = _
        split_ifs <;> omega
      · rw [run.edge, samples_of_tick hAfter hTick]
        funext r
        simp only [LqrTop.step, hInit, hTick, if_true, if_neg Bool.false_ne_true, setpoints]
        exact sp_nm run hFilled r

theorem conditioned (h : Serves run reset) {clock : Nat} (hAfter : reset < clock) :
    Conditioned run reset clock := by
  induction clock, hAfter using Nat.le_induction with
  | base => exact Conditioned.of_reset h
  | succ clock hAfter ih => exact ih.step h hAfter

/-- A pass is asked for in the clock after a tick, once there are samples enough. -/
theorem valid_succ (h : Serves run reset) {clock : Nat} (hAfter : reset < clock) :
    (run.state (clock + 1)).cond.valid =
      ((run.input clock).tick && decide (config.histDepth ≤ (samples run reset (clock + 1)).length)) := by
  have hCond : (LqrTop.condInput (run.input clock)).init = false := h.init_low clock hAfter
  have hDepth := config.histDepth_pos
  rw [run.edge]
  cases hTick : (run.input clock).tick with
  | false =>
      exact ((run.state clock).cond.step_of_not_tick
        hCond hTick).2.2
  | true =>
      have hValid := ((run.state clock).cond.step_of_tick
        hCond hTick).2.2.2
      rw [samples_of_tick hAfter hTick, List.length_cons, Bool.true_and]
      refine hValid.trans ?_
      rw [(conditioned h hAfter).warm]
      apply decide_eq_decide.mpr
      show config.histDepth - 1 ≤ _ ↔ _
      omega

/-! ## The engine at rest -/

/-- The engine inside the controller. -/
def engineRun (run : Run (LqrTop.step : LqrTop config → LqrTop.Input → LqrTop config)) :
    Run (MacEngine.step config.lqr.dims) :=
  run.component (MacEngine.step config.lqr.dims) (fun top => top.controller.engine)
    (fun top input => top.controller.engineInput (top.controllerInput input)) fun _ _ => rfl

/-- No pass is running or asked for, and the feedback register has, or gets at this
edge, the feedback of the newest results. -/
structure Rest (run : Run (LqrTop.step : LqrTop config → LqrTop.Input → LqrTop config))
    (reset clock : Nat) : Prop where
  settled : (run.state clock).controller.engine.Settled
  idle : (run.state clock).controller.engine.state = .idle
  valid : (run.state clock).cond.valid = false
  fed : ∀ r < config.m,
    (if (run.state clock).controller.engine.done then
        feedback ((run.state clock).controller.engine.u r)
      else (run.state clock).controller.uPrev r) =
      feedback (raw config (samples run reset clock) r)

theorem feedback_zero : feedback 0 = 0 := by
  decide

section Rest

variable (h : Serves run reset) (hUprev : config.gUprev = true)

include h

theorem engine_reset :
    (run.state (reset + 1)).controller.engine =
      ((run.state reset).controller.engine.instances config.lqr.dims
        ((engineRun run).input reset)).reset := by
  have hInit : ((engineRun run).input reset).init = true := h.init
  rw [run.edge]
  show MacEngine.step _ _ ((engineRun run).input reset) = _
  rw [MacEngine.step, if_pos hInit]

theorem settled_after {clock : Nat} (hAfter : reset < clock) :
    (run.state clock).controller.engine.Settled := by
  induction clock, hAfter using Nat.le_induction with
  | base =>
      rw [engine_reset h]
      exact ⟨fun _ => rfl, fun _ => rfl⟩
  | succ clock hAfter ih =>
      rw [run.edge]
      exact ih.step _

include hUprev

theorem uPrev_succ {clock : Nat} (hAfter : reset < clock) (r : Nat) :
    (run.state (clock + 1)).controller.uPrev r =
      if (run.state clock).controller.engine.done then
        feedback ((run.state clock).controller.engine.u r)
      else (run.state clock).controller.uPrev r := by
  have hInit : ((run.state clock).controllerInput (run.input clock)).init = false :=
    h.init_low clock hAfter
  have hGeneric : config.lqr.gUprev = true := hUprev
  rw [run.edge]
  show (Controller.step _ _).uPrev r = _
  rw [Controller.step]
  simp only [hGeneric, hInit, if_true, if_neg Bool.false_ne_true]
  split_ifs <;> rfl

theorem Rest.of_reset : Rest run reset (reset + 1) := by
  have hInit : ((run.state reset).controllerInput (run.input reset)).init = true := h.init
  have hCond : (LqrTop.condInput (run.input reset)).init = true := h.init
  have hGeneric : config.lqr.gUprev = true := hUprev
  constructor
  · exact settled_after h (by omega)
  · rw [engine_reset h]
    rfl
  · rw [run.edge]
    show (CondInput.step _ _).valid = false
    simp [CondInput.step, hCond]
  · intro r _
    have hZero : (run.state (reset + 1)).controller.uPrev r = 0 := by
      rw [run.edge]
      show (Controller.step _ _).uPrev r = 0
      simp [Controller.step, hGeneric, hInit]
    have hDone : (run.state (reset + 1)).controller.engine.done = false := by
      rw [engine_reset h]
      rfl
    rw [hDone, if_neg Bool.false_ne_true, hZero, samples_reset, raw, feedback_zero]

theorem Rest.quiet {clock : Nat} (hAfter : reset < clock) (hRest : Rest run reset clock)
    (hQuiet : (run.state (clock + 1)).cond.valid = false) : Rest run reset (clock + 1) := by
  have hInit : ((engineRun run).input clock).init = false := h.init_low clock hAfter
  have hStart : ((engineRun run).input clock).start = false := hRest.valid
  have hNext := MacEngine.step_idle config.lqr.dims hInit (hRest.settled.at_idle hRest.idle)
  rw [hStart, if_neg Bool.false_ne_true, if_neg Bool.false_ne_true] at hNext
  have hDone : (run.state (clock + 1)).controller.engine.done = false := by
    rw [run.edge]
    refine (MacEngine.step_done config.lqr.dims _ hInit (.inl hRest.idle)).trans ?_
    exact decide_eq_false (by rw [hRest.idle]; exact nofun)
  have hRaw : ∀ r, raw config (samples run reset (clock + 1)) r =
      raw config (samples run reset clock) r := by
    intro r
    rw [valid_succ h hAfter] at hQuiet
    cases hTick : (run.input clock).tick with
    | false => rw [samples_of_not_tick hTick]
    | true =>
        rw [hTick, Bool.true_and, decide_eq_false_iff_not, Nat.not_le] at hQuiet
        rw [raw_of_lt hQuiet]
        rw [samples_of_tick hAfter hTick, List.length_cons] at hQuiet
        rw [raw_of_lt (by omega)]
  constructor
  · exact settled_after h (by omega)
  · rw [run.edge]
    exact hNext.state_eq
  · exact hQuiet
  · intro r hr
    rw [hDone, if_neg Bool.false_ne_true, uPrev_succ h hUprev hAfter, hRest.fed r hr, hRaw]

end Rest

/-! ## The pass of a tick -/

section Pass

variable (h : Serves run reset) (hUprev : config.gUprev = true) (hDepth : 2 ≤ config.histDepth)
  {tick : Nat} (hAfter : reset < tick) (hRest : Rest run reset tick)
  (hTick : (run.input tick).tick = true)
  (hFull : config.histDepth ≤ (samples run reset (tick + 1)).length)

include h hAfter

theorem pass_init (clock : Nat) (hFrom : tick + 1 ≤ clock)
    (_hTo : clock < tick + 1 + MacEngine.passLatency config.lqr.dims) :
    ((engineRun run).input clock).init = false := h.init_low clock (by omega)

include hTick hFull

theorem pass_tick {clock : Nat} (hFrom : tick + 1 ≤ clock)
    (hTo : clock < tick + 1 + MacEngine.passLatency config.lqr.dims) :
    (run.input clock).tick = false := by
  by_contra hNext
  have hOver := h.spaced tick clock hAfter hFrom hTick (by simpa using hNext) hFull
  omega

theorem pass_samples {clock : Nat} (hFrom : tick + 1 ≤ clock)
    (hTo : clock ≤ tick + 1 + MacEngine.passLatency config.lqr.dims) :
    samples run reset clock = samples run reset (tick + 1) :=
  stable_of_kept (samples run reset) (tick + 1) (tick + 1 + MacEngine.passLatency config.lqr.dims)
    (fun _ hFirst hLast =>
      samples_of_not_tick (pass_tick h hAfter hTick hFull hFirst hLast)) hFrom hTo

include hRest

/-- The tick finds the engine idle and asks for a pass in the next clock. -/
theorem tick_starts :
    (∃ row, ((engineRun run).state (tick + 1)).At .idle row 0 0) ∧
      ((engineRun run).input (tick + 1)).start = true ∧
      ((engineRun run).state (tick + 1)).done = false := by
  have hInit : ((engineRun run).input tick).init = false := h.init_low tick hAfter
  have hStart : ((engineRun run).input tick).start = false := hRest.valid
  have hNext := MacEngine.step_idle config.lqr.dims hInit (hRest.settled.at_idle hRest.idle)
  rw [hStart, if_neg Bool.false_ne_true, if_neg Bool.false_ne_true] at hNext
  constructor
  · refine ⟨(run.state tick).controller.engine.row, ?_⟩
    rw [(engineRun run).edge]
    exact hNext
  · constructor
    · show (run.state (tick + 1)).cond.valid = true
      rw [valid_succ h hAfter, hTick, Bool.true_and]
      exact decide_eq_true hFull
    · rw [(engineRun run).edge]
      refine (MacEngine.step_done config.lqr.dims _ hInit (.inl hRest.idle)).trans ?_
      apply decide_eq_false
      show (run.state tick).controller.engine.state ≠ .done
      rw [hRest.idle]
      exact nofun

include hUprev

/-- The feedback register holds the results before through the whole pass. -/
theorem pass_uPrev {clock : Nat} (hFrom : tick + 1 ≤ clock)
    (hTo : clock ≤ tick + 1 + MacEngine.passLatency config.lqr.dims) {r : Nat} (hr : r < config.m) :
    (run.state clock).controller.uPrev r = feedback (raw config (samples run reset tick) r) := by
  obtain ⟨⟨row, hAt⟩, hStart, hLow⟩ := tick_starts h hAfter hRest hTick hFull
  have hKept : (run.state clock).controller.uPrev r =
      (run.state (tick + 1)).controller.uPrev r := by
    apply stable_of_kept (fun clock => (run.state clock).controller.uPrev r) (tick + 1)
      (tick + 1 + MacEngine.passLatency config.lqr.dims) _ hFrom hTo
    intro later hFirst hLast
    have hDone : (run.state later).controller.engine.done = false := by
      rcases Nat.eq_or_lt_of_le hFirst with hSame | hLater
      · rw [← hSame]
        exact hLow
      · exact MacEngine.pass_done (pass_init h hAfter) hAt hStart hLater hLast
    rw [uPrev_succ h hUprev (by omega), hDone, if_neg Bool.false_ne_true]
  rw [hKept, uPrev_succ h hUprev hAfter, hRest.fed r hr]

include hDepth

/-- The engine sees the features of the samples in every clock of the pass. -/
theorem pass_x {clock : Nat} (hFrom : tick + 1 ≤ clock)
    (hTo : clock ≤ tick + 1 + MacEngine.passLatency config.lqr.dims) :
    ((engineRun run).input clock).x =
      config.lqr.xEng (condX config.cond (history (samples run reset (tick + 1))))
        (setpoints (samples run reset (tick + 1)))
        fun r => feedback (raw config (samples run reset tick) r) := by
  have hNow := conditioned h (show reset < clock by omega)
  have hSame := pass_samples h hAfter hTick hFull hFrom hTo
  have hState : condX config.cond (run.state clock).cond.poshist =
      condX config.cond (history (samples run reset (tick + 1))) := by
    apply condX_congr
    intro ax t hNewest
    rw [hNow.poshist ax t (by omega), hSame]
  show config.lqr.xEng (condX config.cond (run.state clock).cond.poshist) (run.state clock).spReg
    (run.state clock).controller.uPrev = _
  rw [hState, hNow.spReg, hSame]
  apply LqrConfig.xEng_congr
  intro r hr
  exact pass_uPrev h hUprev hAfter hRest hTick hFull hFrom hTo hr

theorem pass_raw {r : Nat} (hr : r < config.m) :
    (run.state (tick + 1 + MacEngine.passLatency config.lqr.dims)).controller.engine.u r =
      raw config (samples run reset (tick + 1)) r := by
  obtain ⟨⟨row, hAt⟩, hStart, -⟩ := tick_starts h hAfter hRest hTick hFull
  have hInit := pass_init h hAfter
  have hResult := MacEngine.pass_result hInit hAt hStart _
    (fun clock hFrom hTo c _ => congrFun
      (pass_x h hUprev hDepth hAfter hRest hTick hFull hFrom (by omega)) c)
    (h.quiet_swap (tick + 2) (by omega) (MacEngine.pass_begins hInit hAt hStart)) hr
  have hLength := hFull
  rw [samples_of_tick hAfter hTick, List.length_cons] at hLength
  refine hResult.trans ?_
  rw [samples_of_tick hAfter hTick, raw, if_neg (by omega)]
  rfl

theorem Rest.pass :
    Rest run reset (tick + 1 + MacEngine.passLatency config.lqr.dims) := by
  obtain ⟨⟨row, hAt⟩, hStart, -⟩ := tick_starts h hAfter hRest hTick hFull
  have hEnd := MacEngine.pass_end (pass_init h hAfter) hAt hStart
  constructor
  · exact settled_after h (by omega)
  · exact hEnd.1.state_eq
  · obtain ⟨last, hLast⟩ : ∃ last, tick + 1 + MacEngine.passLatency config.lqr.dims = last + 1 :=
      ⟨_, rfl⟩
    have hFrom : tick + 1 ≤ last := by
      unfold MacEngine.passLatency at hLast
      omega
    have hLow := pass_tick h hAfter hTick hFull hFrom (by omega)
    rw [hLast, valid_succ h (by omega), hLow, Bool.false_and]
  · intro r hr
    have hDone : (run.state (tick + 1 + MacEngine.passLatency config.lqr.dims)).controller.engine.done
        = true := hEnd.2.1
    rw [hDone, if_pos rfl, pass_raw h hUprev hDepth hAfter hRest hTick hFull hr,
      pass_samples h hAfter hTick hFull (by omega) (Nat.le_refl _)]

end Pass

/-! ## Whole runs -/

section Runs

variable (h : Serves run reset) (hUprev : config.gUprev = true) (hDepth : 2 ≤ config.histDepth)

include h hUprev hDepth

theorem rest_or_pass {clock : Nat} (hAfter : reset < clock) :
    Rest run reset clock ∨ ∃ tick, reset < tick ∧ Rest run reset tick ∧
      (run.input tick).tick = true ∧
      config.histDepth ≤ (samples run reset (tick + 1)).length ∧ tick + 1 ≤ clock ∧
      clock < tick + 1 + MacEngine.passLatency config.lqr.dims := by
  induction clock, hAfter using Nat.le_induction with
  | base => exact .inl (Rest.of_reset h hUprev)
  | succ clock hAfter ih =>
      rcases ih with hRest | ⟨tick, hTickAfter, hRest, hTick, hFull, hFrom, hTo⟩
      · cases hValid : (run.state (clock + 1)).cond.valid with
        | false => exact .inl (Rest.quiet h hUprev hAfter hRest hValid)
        | true =>
            rw [valid_succ h hAfter, Bool.and_eq_true, decide_eq_true_eq] at hValid
            refine .inr ⟨clock, hAfter, hRest, hValid.1, hValid.2, Nat.le_refl _, ?_⟩
            unfold MacEngine.passLatency
            omega
      · by_cases hLast : clock + 1 < tick + 1 + MacEngine.passLatency config.lqr.dims
        · exact .inr ⟨tick, hTickAfter, hRest, hTick, hFull, by omega, hLast⟩
        · obtain hEnd : clock + 1 = tick + 1 + MacEngine.passLatency config.lqr.dims := by omega
          rw [hEnd]
          exact .inl (Rest.pass h hUprev hDepth hTickAfter hRest hTick hFull)

theorem rest_of_tick {tick : Nat} (hAfter : reset < tick) (hTick : (run.input tick).tick = true) :
    Rest run reset tick := by
  rcases rest_or_pass h hUprev hDepth hAfter with hRest | ⟨past, hPast, hRest, hFirst, hFull, hFrom, hTo⟩
  · exact hRest
  · rw [pass_tick h hPast hFirst hFull hFrom hTo] at hTick
    exact absurd hTick Bool.false_ne_true

/-- With fewer samples than the history is deep the engine stays idle. -/
theorem idle_of_lt {clock : Nat} (hAfter : reset < clock)
    (hFew : (samples run reset clock).length < config.histDepth) :
    (run.state clock).controller.engine.state = .idle ∧ (run.state clock).cond.valid = false := by
  rcases rest_or_pass h hUprev hDepth hAfter with hRest | ⟨past, hPast, hRest, hFirst, hFull, hFrom, hTo⟩
  · exact ⟨hRest.idle, hRest.valid⟩
  · rw [pass_samples h hPast hFirst hFull hFrom (by omega)] at hFew
    omega

theorem output_of_tick {tick : Nat} (hAfter : reset < tick)
    (hTick : (run.input tick).tick = true)
    (hFull : config.histDepth ≤ (samples run reset (tick + 1)).length) :
    (run.state (tick + 1 + MacEngine.passLatency config.lqr.dims)).uValid = true ∧
      ∀ r < config.m, (run.state (tick + 1 + MacEngine.passLatency config.lqr.dims)).u r =
        outStage (raw config (samples run reset (tick + 1)) r) := by
  have hRest := rest_of_tick h hUprev hDepth hAfter hTick
  obtain ⟨⟨row, hAt⟩, hStart, -⟩ := tick_starts h hAfter hRest hTick hFull
  constructor
  · exact (MacEngine.pass_end (pass_init h hAfter) hAt hStart).2.1
  · intro r hr
    rw [LqrTop.u, Controller.u, pass_raw h hUprev hDepth hAfter hRest hTick hFull hr]

end Runs

end Lqr
