import PandaBridge.Lqr.ClosedLoop
import PandaBridge.Lqr.GainWorld

/-! Which gain meets which column. The number of columns is worked out from the same
generics for the ports of `lqr_top`, in `lqr_block` and in `lqr`; here the gain port is put in
front of the controller and a frame is followed from the bus to the products it takes part
in. -/
namespace Lqr

open FixedPoint Clocked

/-! ### The columns of the controller -/

/-- The blocks of `x_eng`. -/
inductive ColumnBlock
  | state
  | features
  | uPrev
  | setpoint
  | affine
  deriving DecidableEq

/-- What drives the columns of a block. -/
def ColumnBlock.value (x sp uPrev : Nat → BitVec laneAW) : ColumnBlock → Nat → BitVec laneAW
  | .state => x
  | .features => fun _ => 0
  | .uPrev => uPrev
  | .setpoint => sp
  | .affine => fun _ => oneFx

/-- The columns that a `generate` of `lqr` drives. -/
structure ColumnSpan where
  block : ColumnBlock
  base : Nat
  width : Nat

/-- The driver of a column in this span, with its place in the block. -/
def ColumnSpan.drivers (col : Nat) (span : ColumnSpan) : List (ColumnBlock × Nat) :=
  if span.base ≤ col ∧ col < span.base + span.width then [(span.block, col - span.base)] else []

theorem ColumnSpan.drivers_empty {span : ColumnSpan} (col : Nat) (hEmpty : span.width = 0) :
    span.drivers col = [] := by
  apply if_neg
  omega

namespace LqrConfig

variable (config : LqrConfig)

/-- The assignments to `x_eng`, in the order of the source. -/
def spans : List ColumnSpan :=
  let uprevBase := config.n + config.gPhi
  let spBase := config.n + config.gPhi + config.m * config.gUprev.toNat
  [⟨.state, 0, config.n⟩, ⟨.features, config.n, config.gPhi⟩] ++
    (if config.gSetpoint then [⟨.setpoint, spBase, config.ref⟩] else []) ++
    (if config.gAffine then [⟨.affine, config.nInt - 1, 1⟩] else []) ++
    (if config.gUprev then [⟨.uPrev, uprevBase, config.m⟩] else [])

/-- All drivers of a column. -/
def drivers (col : Nat) : List (ColumnBlock × Nat) := config.spans.flatMap (ColumnSpan.drivers col)

/-- The widths that `n_int` adds up. -/
def width : ColumnBlock → Nat
  | .state => config.n
  | .features => config.gPhi
  | .uPrev => config.m * config.gUprev.toNat
  | .setpoint => config.ref * config.gSetpoint.toNat
  | .affine => config.gAffine.toNat

/-- Where a block begins in the order state, features, previous outputs, setpoints, affine. -/
def base : ColumnBlock → Nat
  | .state => 0
  | .features => config.width .state
  | .uPrev => config.width .state + config.width .features
  | .setpoint => config.width .state + config.width .features + config.width .uPrev
  | .affine =>
      config.width .state + config.width .features + config.width .uPrev + config.width .setpoint

theorem xEng_eq_spans (x sp uPrev : Nat → BitVec laneAW) :
    config.xEng x sp uPrev = assemble (config.spans.map fun span =>
      ⟨span.base, span.width, span.block.value x sp uPrev⟩) := by
  unfold xEng spans
  cases config.gSetpoint <;> cases config.gAffine <;> cases config.gUprev <;> rfl

/-- The value of a column is that of its first driver. -/
theorem assemble_spans (x sp uPrev : Nat → BitVec laneAW) (spans : List ColumnSpan) (col : Nat) :
    assemble (spans.map fun span => ⟨span.base, span.width, span.block.value x sp uPrev⟩) col =
      ((spans.flatMap (ColumnSpan.drivers col)).head?.map fun driver =>
        driver.1.value x sp uPrev driver.2).getD 0 := by
  induction spans with
  | nil => rfl
  | cons span rest ih =>
      rw [List.map_cons, assemble_cons, List.flatMap_cons, ColumnSpan.drivers]
      split_ifs with hDrives
      · rfl
      · rw [ih, List.nil_append]

theorem nInt_eq_base : config.nInt = config.base .affine + config.width .affine := rfl

/-- A span that is there under a flag drives as one that is empty without it. -/
theorem drivers_if (flag : Bool) (block : ColumnBlock) (base width col : Nat) :
    (if flag then [(⟨block, base, width⟩ : ColumnSpan)] else []).flatMap (ColumnSpan.drivers col) =
      ColumnSpan.drivers col ⟨block, base, width * flag.toNat⟩ := by
  cases flag with
  | false =>
      rw [ColumnSpan.drivers_empty _ (Nat.mul_zero width)]
      rfl
  | true => rw [if_pos rfl, List.flatMap_singleton, Bool.toNat_true, Nat.mul_one]

/-- The drivers of a column, with the spans where the order of the blocks puts them. -/
theorem drivers_eq (col : Nat) :
    config.drivers col =
      ColumnSpan.drivers col ⟨.state, config.base .state, config.width .state⟩ ++
        ColumnSpan.drivers col ⟨.features, config.base .features, config.width .features⟩ ++
        ColumnSpan.drivers col ⟨.setpoint, config.base .setpoint, config.width .setpoint⟩ ++
        ColumnSpan.drivers col ⟨.affine, config.base .affine, config.width .affine⟩ ++
        ColumnSpan.drivers col ⟨.uPrev, config.base .uPrev, config.width .uPrev⟩ := by
  have hAffine : ColumnSpan.drivers col ⟨.affine, config.nInt - 1, 1 * config.gAffine.toNat⟩ =
      ColumnSpan.drivers col ⟨.affine, config.base .affine, config.width .affine⟩ := by
    cases hFlag : config.gAffine with
    | false =>
        rw [ColumnSpan.drivers_empty _ rfl, ColumnSpan.drivers_empty _ (by rw [width, hFlag]; rfl)]
    | true =>
        congr 2
        · simp [nInt, Lqr.nInt, base, width, hFlag]
        · simp [width, hFlag]
  unfold drivers spans
  simp only [List.flatMap_append, drivers_if, hAffine, List.flatMap_cons, List.flatMap_nil,
    List.append_nil]
  rfl

theorem column {col : Nat} (hCol : col < config.nInt) :
    ∃ block offset, offset < config.width block ∧ col = config.base block + offset ∧
      config.drivers col = [(block, offset)] := by
  have hBefore : config.base .features = config.base .state + config.width .state :=
    (Nat.zero_add _).symm
  rw [nInt_eq_base] at hCol
  have hUprev : config.base .uPrev = config.base .features + config.width .features := rfl
  have hSetpoint : config.base .setpoint = config.base .uPrev + config.width .uPrev := rfl
  have hAffine : config.base .affine = config.base .setpoint + config.width .setpoint := rfl
  obtain ⟨block, hFrom, hTo⟩ : ∃ block, config.base block ≤ col ∧
      col < config.base block + config.width block := by
    rcases Nat.lt_or_ge col (config.base .features) with hState | hState
    · exact ⟨.state, Nat.zero_le _, by omega⟩
    rcases Nat.lt_or_ge col (config.base .uPrev) with hFeature | hFeature
    · exact ⟨.features, hState, by omega⟩
    rcases Nat.lt_or_ge col (config.base .setpoint) with hOut | hOut
    · exact ⟨.uPrev, hFeature, by omega⟩
    rcases Nat.lt_or_ge col (config.base .affine) with hSet | hSet
    · exact ⟨.setpoint, hOut, by omega⟩
    · exact ⟨.affine, hSet, by omega⟩
  refine ⟨block, col - config.base block, by omega, by omega, ?_⟩
  rw [drivers_eq]
  -- The spans of the other blocks end before the column or begin after it.
  have hOther : ∀ other, other ≠ block →
      ColumnSpan.drivers col ⟨other, config.base other, config.width other⟩ = [] := by
    intro other hOther
    apply if_neg
    cases other <;> cases block <;> first | exact absurd rfl hOther | (simp only; omega)
  have hHere : ColumnSpan.drivers col ⟨block, config.base block, config.width block⟩ =
      [(block, col - config.base block)] := if_pos ⟨hFrom, hTo⟩
  cases block with
  | state => simp [hHere, hOther]
  | features => simp [hHere, hOther]
  | uPrev => simp [hHere, hOther]
  | setpoint => simp [hHere, hOther]
  | affine => simp [hHere, hOther]

theorem drivers_beyond {col : Nat} (hCol : config.nInt ≤ col) : config.drivers col = [] := by
  rw [nInt_eq_base] at hCol
  have hNone : ∀ block, ColumnSpan.drivers col ⟨block, config.base block, config.width block⟩ = [] := by
    intro block
    apply if_neg
    cases block <;> simp only [base] at * <;> omega
  simp [drivers_eq, hNone]

theorem xEng_of_drivers {col offset : Nat} {block : ColumnBlock}
    (hDrivers : config.drivers col = [(block, offset)]) (x sp uPrev : Nat → BitVec laneAW) :
    config.xEng x sp uPrev col = block.value x sp uPrev offset := by
  rw [xEng_eq_spans, assemble_spans, ← drivers, hDrivers]
  rfl

end LqrConfig

/-! ### The gain port in front of the controller -/

/-- The generics of `lqr_top`, with the one that its controller does not get. -/
structure BlockConfig extends TopConfig where
  gPhi : Nat

namespace BlockConfig

variable (config : BlockConfig)

/-- The controller that `lqr_block` and the ports of `lqr_top` reckon with. -/
def reckoned : LqrConfig := { config.lqr with gPhi := config.gPhi }

/-- `n_int`, as `lqr_block` and the ports of `lqr_top` have it. -/
def nInt : Nat := config.reckoned.nInt

/-- `GAIN_CNT`. -/
def gainCnt : Nat := config.m * config.nInt

/-- The generics with which the design elaborates: the write address has the width that the
controller's port has, and the exporter finds a setpoint for every axis. -/
structure Accepted : Prop where
  addrW : ceilLog2 config.gainCnt = ceilLog2 (config.m * config.lqr.nInt)
  setpoints : config.axes ≤ config.lqr.ref

theorem nInt_eq : config.nInt = config.lqr.nInt + config.gPhi := by
  simp only [nInt, LqrConfig.nInt, Lqr.nInt, reckoned, LqrConfig.ref, TopConfig.lqr]
  omega

end BlockConfig

structure LqrBlock.Input where
  init : Bool
  tick : Bool
  pos : Nat → BitVec laneAW
  sp : Nat → BitVec laneAW
  startWstb : Bool
  dataWstb : Bool
  data : Word
  commitWstb : Bool

/-- `lqr_block`: the fill process and the controller. -/
structure LqrBlock (config : BlockConfig) where
  fill : GainFill
  top : LqrTop config.toTopConfig

namespace LqrBlock

variable {config : BlockConfig}

def topInput (block : LqrBlock config) (input : Input) : LqrTop.Input where
  init := input.init
  tick := input.tick
  pos := input.pos
  sp := input.sp
  wrAddr := block.fill.wrAddr
  wrData := block.fill.wrData
  wrEn := block.fill.wrEn
  commit := input.commitWstb

def step (block : LqrBlock config) (input : Input) : LqrBlock config where
  fill := block.fill.step (ceilLog2 config.gainCnt) input.init input.startWstb input.dataWstb
    input.data
  top := block.top.step (block.topInput input)

def engine (block : LqrBlock config) : MacEngine := block.top.controller.engine

/-- The gain port with the store inside the engine. -/
def port (block : LqrBlock config) : GainPort where
  fill := block.fill
  buffer := block.engine.store

def portInput (block : LqrBlock config) (input : Input) : GainPort.Input where
  init := input.init
  startWstb := input.startWstb
  dataWstb := input.dataWstb
  data := input.data
  commitWstb := input.commitWstb
  passStart := block.engine.passStart
  rdAddr := block.engine.gainAddr config.lqr.dims

theorem step_port (block : LqrBlock config) (input : Input) :
    (block.step input).port = block.port.step config.gainCnt (block.portInput input) := by
  unfold port
  congr 1
  exact MacEngine.step_store _ _

/-- The words that were strobed after one clock and before another. -/
def streamed (inputs : Nat → Input) (first : Nat) : Nat → List Word
  | 0 => []
  | clock + 1 =>
      if first < clock ∧ (inputs clock).dataWstb then
        streamed inputs first clock ++ [(inputs clock).data]
      else streamed inputs first clock

/-- The controller's engine. -/
def engineRun (run : Run (step : LqrBlock config → Input → LqrBlock config)) :
    Run (MacEngine.step config.lqr.dims) :=
  Lqr.engineRun (run.component LqrTop.step top topInput fun _ _ => rfl)

/-- A frame is strobed in, committed, and used by a pass: it starts at `first`, its commit is
at `last`, and the next pass starts at `start`. Nothing else is strobed, and no other frame is
armed meanwhile. -/
structure Publishes (run : Run (step : LqrBlock config → Input → LqrBlock config))
    (first last start : Nat) : Prop where
  power : (run.state 0).engine.PowerUp
  init : ∀ clock, first < clock → clock < start + MacEngine.passLatency config.lqr.dims →
    (run.input clock).init = false
  begins : (run.input first).startWstb = true
  alone : ∀ clock, first < clock → clock ≤ start → (run.input clock).startWstb = false
  words : (streamed run.input first last).length = config.gainCnt
  free : ∀ clock, first < clock → clock ≤ last → (run.state clock).engine.store.pending = false
  commits : (run.input last).commitWstb = true
  whole : ∀ clock, last ≤ clock → clock ≤ start → (run.input clock).dataWstb = false
  waits : ∀ clock, last < clock → clock ≤ start → (run.state clock).engine.passStart = false
  order : first < last ∧ last < start
  idle : (run.state start).engine.state = .idle
  starts : (run.state start).top.cond.valid = true

end LqrBlock

/-! ### From the bus to the bank -/

namespace GainPort

/-- The words so far are in the bank under fill, or on their way to it. -/
structure Filled (n : Nat) (words : List Word) (port : GainPort) : Prop where
  cnt : port.fill.cnt = words.length % 2 ^ ceilLog2 n
  bank : ∀ w < words.length, port.landedBank w = words.getD w 0

/-- All words are in the bank under fill, and it is armed. -/
structure Staged (words : List Word) (port : GainPort) : Prop where
  pending : port.buffer.pending = true
  wrEn : port.fill.wrEn = false
  bank : ∀ w < words.length, port.buffer.fillBank engineBuffers w = words.getD w 0

variable {n : Nat} {port : GainPort} {input : Input} {words : List Word}

theorem Filled.start (hStart : input.startWstb = true) : Filled n [] (port.step n input) := by
  refine ⟨?_, fun w hw => absurd hw (Nat.not_lt_zero w)⟩
  rw [step, GainFill.step, hStart, Bool.or_true, if_pos rfl, List.length_nil, Nat.zero_mod]

variable (hInit : input.init = false) (hStart : input.startWstb = false)

include hInit hStart

theorem Filled.keep (h : Filled n words port) (hPending : port.buffer.pending = false)
    (hData : input.dataWstb = false) : Filled n words (port.step n input) := by
  have hBank := port.step_landedBank n input hInit hStart (by rw [hPending, Bool.and_false])
  rw [hData, if_neg Bool.false_ne_true] at hBank
  refine ⟨?_, ?_⟩
  · rw [step, hInit, hStart, hData]
    exact h.cnt
  · rw [hBank]
    exact h.bank

/-- A word goes to the place of its number. -/
theorem Filled.data (h : Filled n words port) (hPending : port.buffer.pending = false)
    (hData : input.dataWstb = true) (hRoom : words.length < n) :
    Filled n (words ++ [input.data]) (port.step n input) := by
  have hBank := port.step_landedBank n input hInit hStart (by rw [hPending, Bool.and_false])
  have hPlace : port.fill.cnt = words.length := by
    rw [h.cnt, Nat.mod_eq_of_lt (Nat.lt_of_lt_of_le hRoom (le_two_pow_ceilLog2 n))]
  rw [hData, if_pos rfl, hPlace] at hBank
  refine ⟨?_, ?_⟩
  · rw [step, hInit, hStart, hData, List.length_append, List.length_singleton, ← hPlace]
    rfl
  · intro w hw
    rw [List.length_append, List.length_singleton] at hw
    rw [hBank]
    by_cases hLast : w = words.length
    · rw [hLast, Function.update_self]
      simp
    · rw [Function.update_of_ne hLast, h.bank w (by omega), List.getD_eq_getElem?_getD,
        List.getD_eq_getElem?_getD, List.getElem?_append_left (by omega)]

theorem Filled.commit (h : Filled n words port) (hPending : port.buffer.pending = false)
    (hData : input.dataWstb = false) (hCommit : input.commitWstb = true) :
    Staged words (port.step n input) := by
  obtain ⟨hNext, _, _, hBank⟩ := port.step_keep n input hInit (by rw [hPending, Bool.and_false])
  refine ⟨?_, ?_, ?_⟩
  · rw [hNext, hCommit, Bool.true_or]
  · rw [step, hInit, hStart, hData]
    rfl
  · rw [hBank]
    exact h.bank

theorem Staged.keep (h : Staged words port) (hPass : input.passStart = false)
    (hData : input.dataWstb = false) : Staged words (port.step n input) := by
  obtain ⟨hNext, _, _, hBank⟩ := port.step_keep n input hInit (by rw [hPass, Bool.false_and])
  refine ⟨?_, ?_, ?_⟩
  · rw [hNext, h.pending, Bool.or_true]
  · rw [step, hInit, hStart, hData]
    rfl
  · rw [hBank, landedBank, h.wrEn, if_neg Bool.false_ne_true]
    exact h.bank

end GainPort

namespace LqrBlock

variable {config : BlockConfig}
variable {run : Run (step : LqrBlock config → Input → LqrBlock config)} {first last start : Nat}

theorem streamed_length_mono (first : Nat) (inputs : Nat → Input) {clock later : Nat}
    (hLater : clock ≤ later) :
    (streamed inputs first clock).length ≤ (streamed inputs first later).length := by
  induction later, hLater using Nat.le_induction with
  | base => exact Nat.le_refl _
  | succ later _ ih =>
      rw [streamed]
      split_ifs
      · rw [List.length_append]
        omega
      · exact ih

theorem streamed_start (inputs : Nat → Input) {clock : Nat} (hClock : clock ≤ first + 1) :
    streamed inputs first clock = [] := by
  induction clock with
  | zero => rfl
  | succ clock ih =>
      rw [streamed, if_neg (by omega)]
      exact ih (by omega)

variable (h : Publishes run first last start)

include h

/-- While the frame is strobed, its words go to their places. -/
theorem Publishes.filled {clock : Nat} (hFrom : first < clock) (hTo : clock ≤ last) :
    (run.state clock).port.Filled config.gainCnt (streamed run.input first clock) := by
  induction clock, hFrom using Nat.le_induction with
  | base =>
      rw [run.edge, step_port, streamed_start _ (Nat.le_refl _)]
      exact GainPort.Filled.start h.begins
  | succ clock hFrom ih =>
      have hFilled := ih (by omega)
      have hInit : ((run.state clock).portInput (run.input clock)).init = false :=
        h.init clock hFrom (by have := h.order; omega)
      have hStart := h.alone clock hFrom (by have := h.order; omega)
      have hPending := h.free clock hFrom (by omega)
      rw [run.edge, step_port, streamed]
      cases hData : (run.input clock).dataWstb with
      | false =>
          rw [if_neg (by simp)]
          exact hFilled.keep hInit hStart hPending hData
      | true =>
          rw [if_pos ⟨hFrom, rfl⟩]
          have hMono := streamed_length_mono first run.input hTo
          rw [streamed, if_pos ⟨hFrom, hData⟩, List.length_append, List.length_singleton,
            h.words] at hMono
          exact hFilled.data hInit hStart hPending hData hMono

/-- From the commit on they wait for the pass. -/
theorem Publishes.staged {clock : Nat} (hFrom : last < clock) (hTo : clock ≤ start + 1) :
    (run.state clock).port.Staged (streamed run.input first last) := by
  have hOrder := h.order
  induction clock, hFrom using Nat.le_induction with
  | base =>
      rw [run.edge, step_port]
      exact (h.filled hOrder.1 (Nat.le_refl _)).commit (h.init last hOrder.1 (by omega))
        (h.alone last hOrder.1 (by omega)) (h.free last hOrder.1 (Nat.le_refl _))
        (h.whole last (Nat.le_refl _) (by omega)) h.commits
  | succ clock hFrom ih =>
      rw [run.edge, step_port]
      exact (ih (by omega)).keep (h.init clock (by omega) (by unfold MacEngine.passLatency; omega))
        (h.alone clock (by omega) (by omega)) (h.waits clock hFrom (by omega))
        (h.whole clock (by omega) (by omega))

/-- The pass multiplies every column with the word that the controller's own column count
gives it. -/
theorem Publishes.products {r : Nat} (hr : r < config.m) :
    ((engineRun run).state (start + MacEngine.passLatency config.lqr.dims)).u r =
      laneSum (fun c => ((engineRun run).input
          (MacEngine.rowClock config.lqr.dims start r + c)).x c)
        (fun c => (streamed run.input first last).getD (r * config.lqr.nInt + c) 0) laneAccW
        config.lqr.nInt := by
  have hOrder := h.order
  have hStaged := h.staged (Nat.lt_succ_of_lt hOrder.2) (Nat.le_refl _)
  have hInit : ∀ clock, start ≤ clock → clock < start + MacEngine.passLatency config.lqr.dims →
      ((engineRun run).input clock).init = false :=
    fun clock hFrom hTo => h.init clock (by omega) hTo
  have hSettled := (engineRun run).invariant MacEngine.Settled h.power.settled
    (fun _ input hEngine => hEngine.step input) start
  have hAt := hSettled.at_idle h.idle
  have hWrite : ((engineRun run).state (start + 1)).store.pending = true →
      ((engineRun run).input (start + 1)).wrEn = false := fun _ => hStaged.wrEn
  have hGains := MacEngine.activeBank_eq_passGains hInit hAt h.starts hWrite
  have hBank : MacEngine.passGains (engineRun run) start =
      (run.state (start + 1)).port.buffer.fillBank engineBuffers := if_pos hStaged.pending
  rw [(MacEngine.pass_end hInit hAt h.starts).2.2,
    MacEngine.pass_u hInit hAt h.starts (Nat.le_refl _) hr]
  apply laneSum_congr
  · exact fun c _ => rfl
  · intro c hc
    rw [MacEngine.pass_gain hInit hAt h.starts hWrite hr hc, hGains, hBank]
    apply hStaged.bank
    have hRows : (r + 1) * config.lqr.nInt ≤ config.m * config.lqr.nInt :=
      Nat.mul_le_mul_right _ hr
    have hCount : config.m * config.lqr.nInt ≤ config.m * config.nInt := by
      rw [config.nInt_eq]
      exact Nat.mul_le_mul_left _ (Nat.le_add_right _ _)
    have hColumn : c < config.lqr.nInt := hc
    rw [h.words, BlockConfig.gainCnt]
    rw [Nat.succ_mul] at hRows
    change r * config.lqr.nInt + c < _
    omega

end LqrBlock

/-! ### The layout -/

/-- The layout that a gain frame relies on: every column has one driver, the blocks are in
order with the widths that `n_int` adds up, and word `r * n_int + c` of a frame multiplies
column `c` in row `r`. -/
structure GainLayout (config : BlockConfig) : Prop where
  columns : ∀ col < config.nInt, ∃ block offset,
    offset < config.reckoned.width block ∧ col = config.reckoned.base block + offset ∧
      config.lqr.drivers col = [(block, offset)] ∧
      ∀ x sp uPrev, config.lqr.xEng x sp uPrev col = block.value x sp uPrev offset
  coefficients : ∀ (run : Run (LqrBlock.step : LqrBlock config → LqrBlock.Input → LqrBlock config))
    (first last start : Nat), LqrBlock.Publishes run first last start → ∀ r < config.m,
    ((LqrBlock.engineRun run).state (start + MacEngine.passLatency config.lqr.dims)).u r =
      laneSum (fun c => ((LqrBlock.engineRun run).input
          (MacEngine.rowClock config.lqr.dims start r + c)).x c)
        (fun c => (LqrBlock.streamed run.input first last).getD (r * config.nInt + c) 0) laneAccW
        config.nInt

/-- A feature column is reckoned with, but nothing drives it. -/
theorem GainLayout.gPhi_eq_zero {config : BlockConfig} (h : GainLayout config) :
    config.gPhi = 0 := by
  by_contra hPhi
  have hCount := config.nInt_eq
  obtain ⟨block, offset, _, _, hDrivers, _⟩ := h.columns (config.nInt - 1) (by omega)
  rw [config.lqr.drivers_beyond (by omega)] at hDrivers
  exact List.cons_ne_nil _ _ hDrivers.symm

theorem gain_layout_iff (config : BlockConfig) : GainLayout config ↔ config.gPhi = 0 := by
  constructor
  · exact GainLayout.gPhi_eq_zero
  · intro hPhi
    have hCount : config.nInt = config.lqr.nInt := by rw [config.nInt_eq, hPhi, Nat.add_zero]
    have hReckoned : config.reckoned = config.lqr := by
      rw [BlockConfig.reckoned, hPhi]
      rfl
    refine ⟨?_, ?_⟩
    · intro col hCol
      rw [hCount] at hCol
      rw [hReckoned]
      obtain ⟨block, offset, hOffset, hPlace, hDrivers⟩ := config.lqr.column hCol
      exact ⟨block, offset, hOffset, hPlace, hDrivers, config.lqr.xEng_of_drivers hDrivers⟩
    · intro run first last start hPublishes r hr
      rw [hCount]
      exact hPublishes.products hr

/-! ### One feature column -/

/-- Three axes and three outputs with nothing but positions, and one feature column. -/
def featureBlock : BlockConfig where
  axes := 3
  m := 3
  histDepth := 1
  pvScale := 8389
  gRef := 0
  gVelocity := false
  gPrev := false
  gUprev := false
  gSetpoint := false
  gAffine := false
  axes_pos := by decide
  m_pos := by decide
  histDepth_pos := Nat.one_pos
  gPhi := 1

def featureBoot : LqrBlock featureBlock where
  fill := ⟨0, 0, 0, false⟩
  top :=
    { cond :=
        { posScale := fun _ => ⟨0, 0, 0⟩
          poshist := fun _ _ => 0
          warm := 0
          valid := false }
      spScale := fun _ => ⟨0, 0, 0⟩
      spReg := fun _ => 0
      controller :=
        { uPrev := fun _ => 0
          engine :=
            { committedEngine with
              store :=
                { stores := fun _ => ⟨fun _ => 0, 0, 0⟩
                  activeBuf := 1
                  pending := false
                  gen := 0 } } } }

/-- A frame of twelve words, its commit, and a tick. -/
def featureInput (clock : Nat) : LqrBlock.Input where
  init := false
  tick := clock = 13
  pos _ := 32
  sp _ := 0
  startWstb := clock = 0
  dataWstb := 0 < clock ∧ clock ≤ 12
  data := BitVec.ofNat 32 clock
  commitWstb := clock = 13

def featureRun :
    Run (LqrBlock.step : LqrBlock featureBlock → LqrBlock.Input → LqrBlock featureBlock) :=
  Run.ofInputs LqrBlock.step featureBoot featureInput

theorem featureRun_publishes : LqrBlock.Publishes featureRun 0 13 14 where
  power := ⟨rfl, rfl, rfl, rfl, rfl, fun _ => rfl⟩
  init _ _ _ := rfl
  begins := rfl
  alone clock hFrom _ := by
    change decide (clock = 0) = false
    exact decide_eq_false (by omega)
  words := by decide
  free := by
    intro clock hFrom hTo
    have hAll : ∀ clock < 14, (featureRun.state clock).engine.store.pending = false := by
      decide
    exact hAll clock (by omega)
  commits := rfl
  whole clock hFrom _ := by
    change decide (0 < clock ∧ clock ≤ 12) = false
    exact decide_eq_false (by omega)
  waits clock hFrom hTo := by
    obtain rfl : clock = 14 := by omega
    decide
  order := by decide
  idle := by decide
  starts := by decide

/-- Nine and twelve words have addresses of the same width, so the design elaborates. The
second row starts with the fourth word, which was meant for the feature of the first. -/
theorem feature_column_shifts_rows :
    featureBlock.Accepted ∧ LqrBlock.Publishes featureRun 0 13 14 ∧
      LqrBlock.streamed featureRun.input 0 13 = [1, 2, 3, 4, 5, 6, 7, 8, 9, 10, 11, 12] ∧
      (∀ c < 3, ((LqrBlock.engineRun featureRun).input
        (MacEngine.rowClock featureBlock.lqr.dims 14 1 + c)).x c = 8389) ∧
      (((LqrBlock.engineRun featureRun).state 40).u 1).toInt = 8389 * (4 + 5 + 6) ∧
      ¬ GainLayout featureBlock := by
  refine ⟨⟨by decide, by decide⟩, featureRun_publishes, by decide, by decide, ?_, ?_⟩
  · have hRow := featureRun_publishes.products (show 1 < featureBlock.m by decide)
    rw [show 40 = 14 + MacEngine.passLatency featureBlock.lqr.dims by decide, hRow]
    decide
  · intro hLayout
    exact absurd hLayout.gPhi_eq_zero (by decide)

end Lqr
