import PandaBridge.Lqr.ClosedLoop

/-! The law that the controller implements, over exact integers: gains times features,
with the previous result fed back. The clocked controller gives it for every
configuration whose rows the lane can add without overflow. -/
namespace Lqr

open FixedPoint Clocked Sample

/-- Every optional block of the feature vector is on. -/
structure TopConfig.AllBlocks (config : TopConfig) : Prop where
  velocity : config.gVelocity = true
  prev : config.gPrev = true
  uprev : config.gUprev = true
  setpoint : config.gSetpoint = true
  affine : config.gAffine = true

/-- One column of `[pos | vel | prev | u_prev | setpoint | 1.0]`. -/
def feature (config : TopConfig) (pos prev uprev sp : Nat → Int) (col : Nat) : Int :=
  if col < config.axes then pos col
  else if col < 2 * config.axes then
    clamp laneAW (pos (col - config.axes) - prev (col - config.axes))
  else if col < 3 * config.axes then prev (col - 2 * config.axes)
  else if col < 3 * config.axes + config.m then uprev (col - 3 * config.axes)
  else if col < 3 * config.axes + config.m + config.lqr.ref then
    sp (col - (3 * config.axes + config.m))
  else 2 ^ stateF

/-- The exact results of the pass of the newest sample. Before the history is full
there was no pass, and the previous outputs of the first one are zero. -/
def law (config : TopConfig) : List Sample → Nat → Int
  | [], _ => 0
  | now :: past, r =>
      if past.length + 1 < config.histDepth then 0
      else
        ∑ c ∈ Finset.range config.lqr.nInt,
          (now.gains (r * config.lqr.nInt + c)).toInt *
            feature config (fun ax => (now.pos ax).toInt) (fun ax => (history past ax 0).toInt)
              (fun r => clamp laneAW (nearestQuot (law config past r) (prodF - stateF)))
              (fun r => (now.sp r).toInt) c

theorem toInt_gDiff (a b : BitVec laneAW) :
    (gDiff a b).toInt = clamp laneAW (a.toInt - b.toInt) := by
  have hA := inRange_toInt a
  have hB := inRange_toInt b
  rw [gDiff, toInt_saturate _ (by decide), BitVec.toInt_sub,
    toInt_resize (hA.mono (by decide)) (by decide), toInt_resize (hB.mono (by decide)) (by decide)]
  congr 1
  unfold InRange at hA hB
  norm_num at hA hB
  apply Int.bmod_eq_of_le
  · norm_num
    omega
  · norm_num
    omega

theorem toInt_feedback (word : BitVec laneAccW) :
    (feedback word).toInt = clamp laneAW (nearestQuot word.toInt (prodF - stateF)) :=
  toInt_requantise word (by decide) (by decide)

theorem toInt_outStage (word : BitVec laneAccW) :
    (outStage word).toInt = clamp outW (nearestQuot word.toInt (prodF - outF)) :=
  toInt_requantise word (by decide) (by decide)

section Features

variable {config : TopConfig} (hBlocks : config.AllBlocks)

include hBlocks

theorem TopConfig.AllBlocks.n_eq : config.lqr.n = 3 * config.axes := by
  show condWidth config.axes true config.gVelocity config.gPrev = _
  rw [hBlocks.velocity, hBlocks.prev]
  exact Nat.mul_comm _ _

theorem TopConfig.AllBlocks.nInt_eq :
    config.lqr.nInt = 3 * config.axes + config.m + config.lqr.ref + 1 := by
  have hUprev : config.lqr.gUprev = true := hBlocks.uprev
  have hSetpoint : config.lqr.gSetpoint = true := hBlocks.setpoint
  have hAffine : config.lqr.gAffine = true := hBlocks.affine
  rw [LqrConfig.nInt, nInt, hBlocks.n_eq, hUprev, hSetpoint, hAffine]
  show 3 * config.axes + 0 + config.m * 1 + config.lqr.ref * 1 + 1 = _
  omega

theorem condX_column (poshist : Nat → Nat → BitVec laneAW) {col : Nat}
    (hCol : col < 3 * config.axes) :
    condX config.cond poshist col =
      if col < config.axes then poshist col 0
      else if col < 2 * config.axes then
        gDiff (poshist (col - config.axes) 0) (poshist (col - config.axes) 1)
      else poshist (col - 2 * config.axes) 1 := by
  have hState : config.cond.gState = true := rfl
  have hVelocity : config.cond.gVelocity = true := hBlocks.velocity
  have hPrev : config.cond.gPrev = true := hBlocks.prev
  have hAxes : config.cond.axes = config.axes := rfl
  rw [condX, hState, hVelocity, hPrev, hAxes]
  simp only [if_true, List.cons_append, List.nil_append, assemble_cons, Bool.toNat_true,
    Nat.mul_one, Nat.zero_add, Nat.zero_le, true_and, Nat.sub_zero]
  by_cases hPos : col < config.axes
  · rw [if_pos hPos, if_pos hPos]
  · rw [if_neg hPos, if_neg hPos]
    by_cases hVel : col < 2 * config.axes
    · rw [if_pos (by omega), if_pos hVel]
    · rw [if_neg (by omega), if_neg hVel, if_pos (by omega), Nat.mul_comm config.axes]

theorem xEng_column (x sp uPrev : Nat → BitVec laneAW) {col : Nat}
    (hCol : col < config.lqr.nInt) :
    config.lqr.xEng x sp uPrev col =
      if col < 3 * config.axes then x col
      else if col < 3 * config.axes + config.m then uPrev (col - 3 * config.axes)
      else if col < 3 * config.axes + config.m + config.lqr.ref then
        sp (col - (3 * config.axes + config.m))
      else oneFx := by
  have hUprev : config.lqr.gUprev = true := hBlocks.uprev
  have hSetpoint : config.lqr.gSetpoint = true := hBlocks.setpoint
  have hAffine : config.lqr.gAffine = true := hBlocks.affine
  have hPhi : config.lqr.gPhi = 0 := rfl
  have hM : config.lqr.m = config.m := rfl
  rw [hBlocks.nInt_eq] at hCol
  rw [LqrConfig.xEng, hUprev, hSetpoint, hAffine, hBlocks.n_eq, hBlocks.nInt_eq, hPhi,
    hM]
  simp only [if_true, List.cons_append, List.nil_append, assemble_cons, Bool.toNat_true,
    Nat.mul_one, Nat.zero_add, Nat.zero_le, true_and, Nat.sub_zero, Nat.add_zero]
  by_cases hState : col < 3 * config.axes
  · rw [if_pos hState, if_pos hState]
  · rw [if_neg hState, if_neg (by omega), if_neg hState]
    by_cases hPrev : col < 3 * config.axes + config.m
    · rw [if_neg (by omega), if_neg (by omega), if_pos (by omega), if_pos hPrev]
    · rw [if_neg hPrev]
      by_cases hRef : col < 3 * config.axes + config.m + config.lqr.ref
      · rw [if_pos (by omega), if_pos hRef]
      · rw [if_neg (by omega), if_pos (by omega), if_neg hRef]

/-- The assembled vector holds the features. -/
theorem toInt_xEng (poshist : Nat → Nat → BitVec laneAW) (sp uPrev : Nat → BitVec laneAW)
    {col : Nat} (hCol : col < config.lqr.nInt) :
    (config.lqr.xEng (condX config.cond poshist) sp uPrev col).toInt =
      feature config (fun ax => (poshist ax 0).toInt) (fun ax => (poshist ax 1).toInt)
        (fun r => (uPrev r).toInt) (fun r => (sp r).toInt) col := by
  rw [xEng_column hBlocks _ _ _ hCol, feature]
  by_cases hState : col < 3 * config.axes
  · rw [if_pos hState, condX_column hBlocks poshist hState]
    by_cases hPos : col < config.axes
    · rw [if_pos hPos, if_pos hPos]
    · rw [if_neg hPos, if_neg hPos]
      by_cases hVel : col < 2 * config.axes
      · rw [if_pos hVel, if_pos hVel, toInt_gDiff]
      · rw [if_neg hVel, if_neg hVel, if_pos hState]
  · have hPos : ¬col < config.axes := by omega
    have hVel : ¬col < 2 * config.axes := by omega
    rw [if_neg hState, if_neg hPos, if_neg hVel, if_neg hState]
    split_ifs
    · rfl
    · rfl
    · decide

end Features

/-- Where a row has at most 64 columns, the lane's results are the exact ones. -/
theorem toInt_raw {config : TopConfig} (hBlocks : config.AllBlocks)
    (hColumns : config.lqr.nInt ≤ 64) (samples : List Sample) (r : Nat) :
    (raw config samples r).toInt = law config samples r := by
  induction samples generalizing r with
  | nil => rfl
  | cons now past ih =>
      rw [raw, law]
      split_ifs with hFew
      · rfl
      · rw [toInt_laneSum_of_le hColumns]
        apply Finset.sum_congr rfl
        intro c hMem
        rw [Finset.mem_range] at hMem
        rw [toInt_xEng hBlocks _ _ _ hMem, Int.mul_comm]
        simp only [toInt_feedback, ih]
        rfl

/-- No pass starts before the history is full, and the outputs of every pass are the
rounded and saturated results of the law. -/
theorem control_law_of_ticks {config : TopConfig}
    (run : Run (LqrTop.step : LqrTop config → LqrTop.Input → LqrTop config)) (reset : Nat)
    (hBlocks : config.AllBlocks) (hDepth : 2 ≤ config.histDepth)
    (hColumns : config.lqr.nInt ≤ 64) (h : Serves run reset) :
    (∀ clock, reset < clock → (samples run reset clock).length < config.histDepth →
        (run.state clock).controller.engine.state = .idle ∧
          (run.state clock).cond.valid = false) ∧
      ∀ tick, reset < tick → (run.input tick).tick = true →
        config.histDepth ≤ (samples run reset (tick + 1)).length →
        (run.state (tick + 1 + MacEngine.passLatency config.lqr.dims)).uValid = true ∧
          ∀ r < config.m,
            ((run.state (tick + 1 + MacEngine.passLatency config.lqr.dims)).u r).toInt =
              clamp outW (nearestQuot (law config (samples run reset (tick + 1)) r)
                (prodF - outF)) := by
  constructor
  · intro clock hAfter hFew
    exact idle_of_lt h hBlocks.uprev hDepth hAfter hFew
  · intro tick hAfter hTick hFull
    obtain ⟨hValid, hOut⟩ := output_of_tick h hBlocks.uprev hDepth hAfter hTick hFull
    constructor
    · exact hValid
    · intro r hr
      rw [hOut r hr, toInt_outStage, toInt_raw hBlocks hColumns]

/-! ## A bench -/

/-- One axis and one output, every block on, and a setpoint block of some width. -/
def benchConfig (gRef : Nat) : TopConfig where
  axes := 1
  m := 1
  histDepth := 2
  pvScale := 8389
  gRef := gRef
  gVelocity := true
  gPrev := true
  gUprev := true
  gSetpoint := true
  gAffine := true
  axes_pos := Nat.one_pos
  m_pos := Nat.one_pos
  histDepth_pos := Nat.two_pos

/-- Every register is zero and every gain is the same. -/
def benchBoot (gRef : Nat) (gain : BitVec laneBW) : LqrTop (benchConfig gRef) where
  cond :=
    { posScale := fun _ => ⟨0, 0, 0⟩
      poshist := fun _ _ => 0
      warm := 0
      valid := false }
  spScale _ := ⟨0, 0, 0⟩
  spReg _ := 0
  controller :=
    { uPrev := fun _ => 0
      engine :=
        { committedEngine with
          store :=
            { stores := fun _ => ⟨fun _ => gain, 0, 0⟩
              activeBuf := 1
              pending := false
              gen := 0 } } }

/-- A reset in the third clock, ticks of a divider by 100, and inputs that stand still. -/
def benchInput (clock : Nat) : LqrTop.Input where
  init := clock = 2
  tick := 3 < clock ∧ clock % 100 = 3
  pos _ := 63990
  sp _ := 63990
  wrAddr := 0
  wrData := 0
  wrEn := false
  commit := false

def benchRun (gRef : Nat) (gain : BitVec laneBW) :
    Run (LqrTop.step : LqrTop (benchConfig gRef) → LqrTop.Input → LqrTop (benchConfig gRef)) :=
  Run.ofInputs LqrTop.step (benchBoot gRef gain) benchInput

def benchSample (gain : BitVec laneBW) : Sample where
  pos _ := toNm 8389 (63990 : BitVec laneAW)
  sp _ := toNm 8389 (63990 : BitVec laneAW)
  gains _ := gain

section Bench

variable (gRef : Nat) (gain : BitVec laneBW)

theorem benchConfig_allBlocks : (benchConfig gRef).AllBlocks := ⟨rfl, rfl, rfl, rfl, rfl⟩

theorem benchRun_ram (clock bank : Nat) :
    (((benchRun gRef gain).state clock).controller.engine.store.stores bank).ram = fun _ => gain := by
  induction clock with
  | zero => rfl
  | succ clock ih =>
      rw [← ih, (benchRun gRef gain).edge]
      show ((MacEngine.step _ _ _).store.stores bank).ram = _
      rw [MacEngine.step_store]
      exact BramBuffer.step_ram_of_not_wrEn engineBuffers _ _ rfl bank

theorem benchRun_sampleAt (clock : Nat) : sampleAt (benchRun gRef gain) clock = benchSample gain := by
  rw [sampleAt, BramBuffer.activeBank, benchRun_ram]
  rfl

theorem benchRun_samples :
    samples (benchRun gRef gain) 2 204 = [benchSample gain, benchSample gain] := by
  have hQuiet : ∀ clock, ¬(3 < clock ∧ clock % 100 = 3) →
      samples (benchRun gRef gain) 2 (clock + 1) = samples (benchRun gRef gain) 2 clock := by
    intro clock hClock
    exact samples_of_not_tick (decide_eq_false hClock)
  have hFirst : samples (benchRun gRef gain) 2 103 = [] := by
    rw [stable_of_kept (samples (benchRun gRef gain) 2) 3 103
      (fun clock _ _ => hQuiet clock (by omega)) (by decide) (by decide)]
    exact samples_reset
  have hSecond : samples (benchRun gRef gain) 2 203 = [benchSample gain] := by
    rw [stable_of_kept (samples (benchRun gRef gain) 2) 104 203
      (fun clock _ _ => hQuiet clock (by omega)) (by decide) (by decide),
      samples_of_tick (by decide) rfl, benchRun_sampleAt, hFirst]
  rw [samples_of_tick (by decide) rfl, benchRun_sampleAt, hSecond]

theorem benchRun_serves (hPos : 0 < gRef) (hWidth : gRef ≤ 70) : Serves (benchRun gRef gain) 2 := by
  have hRef : (benchConfig gRef).lqr.ref = gRef := by
    show resolveRef 3 gRef = gRef
    rw [resolveRef, if_neg (by omega)]
  have hLatency : MacEngine.passLatency (benchConfig gRef).lqr.dims = gRef + 12 := by
    show 1 * ((benchConfig gRef).lqr.nInt + 5) + 2 = gRef + 12
    rw [(benchConfig_allBlocks gRef).nInt_eq, hRef]
    show 1 * (3 * 1 + 1 + gRef + 1 + 5) + 2 = gRef + 12
    omega
  constructor
  · rfl
  · intro clock hAfter
    exact decide_eq_false (by omega)
  · intro tick _ hTick
    have hClock : 3 < tick ∧ tick % 100 = 3 := of_decide_eq_true hTick
    omega
  · intro tick next _ hNext hTick hLater _
    have hClock : 3 < tick ∧ tick % 100 = 3 := of_decide_eq_true hTick
    have hOther : 3 < next ∧ next % 100 = 3 := of_decide_eq_true hLater
    rw [hLatency]
    omega
  · intro clock _ _ _
    rfl

end Bench

/-- The law at work: three equal positions and setpoints, no motion, no feedback yet. -/
theorem control_law_of_ticks_bench :
    let run := benchRun 1 16384
    (run.state 217).uValid = true ∧ ((run.state 217).u 0).toInt = 24 := by
  intro run
  have hLaw := (control_law_of_ticks run 2 (benchConfig_allBlocks 1) (by decide) (by decide)
    (benchRun_serves 1 16384 (by decide) (by decide))).2 203 (by decide) rfl
    (by rw [benchRun_samples]; decide)
  constructor
  · exact hLaw.1
  · have hOut := hLaw.2 0 (by decide)
    rw [benchRun_samples] at hOut
    exact hOut.trans (by decide +kernel)

/-- With 75 columns the accumulators of the lane overflow: all terms are positive, the
law saturates high, and the controller puts out the most negative value. -/
theorem wide_row_overflows :
    let run := benchRun 70 131071
    Serves run 2 ∧ (benchConfig 70).AllBlocks ∧ 2 ≤ (benchConfig 70).histDepth ∧
      (run.input 203).tick = true ∧ (benchConfig 70).histDepth ≤ (samples run 2 204).length ∧
      ((run.state 286).u 0).toInt = -64 ∧
      clamp outW (nearestQuot (law (benchConfig 70) (samples run 2 204) 0) (prodF - outF)) = 63 := by
  intro run
  have hServes := benchRun_serves 70 131071 (by decide) (by decide)
  have hOut := (output_of_tick hServes rfl (by decide) (show 2 < 203 by decide) rfl
    (by rw [benchRun_samples]; decide)).2 0 (by decide)
  rw [benchRun_samples] at hOut
  refine ⟨hServes, benchConfig_allBlocks 70, by decide, rfl, ?_, ?_, ?_⟩
  · rw [benchRun_samples]
    decide
  · exact (congrArg BitVec.toInt hOut).trans (by decide +kernel)
  · rw [benchRun_samples]
    decide +kernel

end Lqr
