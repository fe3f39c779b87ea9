import PandaBridge.Lqr.GainBuffer
import PandaBridge.Lqr.MacLane

/-! The engine that drives the lane over a matrix and a vector: the operand
pipeline, the state machine over rows and columns, and the gain store it reads.
One pass leaves the product of one gain bank with the vector. -/
namespace Lqr

open FixedPoint Clocked

/-- `LANE_A_W`, `LANE_B_W` and `LANE_ACC_W`. -/
abbrev laneAW : Nat := 42

abbrev laneBW : Nat := 32

abbrev laneAccW : Nat := 82

inductive EngineState
  | idle
  | feed
  | drain
  | capture
  | done
  deriving DecidableEq

/-- The generics `M` and `N` of the engine, both `positive`. -/
structure EngineDims where
  m : Nat
  n : Nat
  m_pos : 0 < m
  n_pos : 0 < n

structure MacEngine.Input where
  init : Bool
  wrAddr : Nat
  wrData : Word
  wrEn : Bool
  commit : Bool
  x : Nat → BitVec laneAW
  start : Bool

/-- The registers of `mac_engine` with its lane and its store. -/
structure MacEngine where
  state : EngineState
  row : Nat
  col : Nat
  drainCnt : Nat
  xaP1 : BitVec laneAW
  enP1 : Bool
  ldP1 : Bool
  passStart : Bool
  laneA : BitVec laneAW
  laneLoad : Bool
  laneEn : Bool
  done : Bool
  u : Nat → BitVec laneAccW
  lane : MacLane
  store : BramBuffer laneBW

namespace MacEngine

variable (dims : EngineDims)

/-- `gain_addr`, in the address width of the store. -/
def gainAddr (engine : MacEngine) : Nat :=
  (engine.row * dims.n + engine.col) % 2 ^ ceilLog2 (dims.m * dims.n)

def laneInput (engine : MacEngine) (input : Input) : MacLane.Input laneAW laneBW where
  init := input.init
  a := engine.laneA
  b := engine.store.rdData
  load := engine.laneLoad
  en := engine.laneEn

def storeInput (engine : MacEngine) (input : Input) : BramBuffer.Input laneBW where
  init := input.init
  wrAddr := input.wrAddr
  wrData := input.wrData
  wrEn := input.wrEn
  commit := input.commit
  rdAddr := engine.gainAddr dims
  passStart := engine.passStart

/-- `lane_acc`. -/
def laneAcc (engine : MacEngine) : BitVec laneAccW := engine.lane.acc laneAW laneBW laneAccW

/-- The clock edge of the lane and of the store. -/
def instances (engine : MacEngine) (input : Input) : MacEngine :=
  { engine with
    lane := engine.lane.step (engine.laneInput input)
    store := engine.store.step engineBuffers (engine.storeInput dims input) }

def reset (next : MacEngine) : MacEngine :=
  { next with
    state := .idle
    done := false
    row := 0
    col := 0
    drainCnt := 0
    enP1 := false
    ldP1 := false
    laneEn := false
    laneLoad := false
    passStart := false
    u := fun _ => 0 }

/-- The two stages that carry operand, enable and load to the lane. -/
def pipeline (engine next : MacEngine) (input : Input) : MacEngine :=
  { next with
    xaP1 := if engine.state = .feed then input.x engine.col else engine.xaP1
    enP1 := engine.state = .feed
    ldP1 := engine.state = .feed ∧ engine.col = 0
    passStart := false
    laneA := engine.xaP1
    laneEn := engine.enP1
    laneLoad := engine.ldP1 }

/-- The `case` of the process: it reads the signals and schedules onto `next`. -/
def fsm (engine next : MacEngine) (input : Input) : MacEngine :=
  match engine.state with
  | .idle =>
      if input.start then { next with done := false, row := 0, state := .feed, passStart := true }
      else { next with done := false }
  | .feed =>
      if engine.col = dims.n - 1 then { next with col := 0, state := .drain }
      else { next with col := engine.col + 1 }
  | .drain =>
      if engine.drainCnt = 3 then { next with state := .capture, drainCnt := 0 }
      else { next with drainCnt := engine.drainCnt + 1 }
  | .capture =>
      let captured := { next with u := Function.update engine.u engine.row engine.laneAcc }
      if engine.row < dims.m - 1 then { captured with row := engine.row + 1, state := .feed }
      else { captured with state := .done }
  | .done => { next with done := true, state := .idle }

/-- One rising clock edge. -/
def step (engine : MacEngine) (input : Input) : MacEngine :=
  let next := engine.instances dims input
  if input.init then next.reset else engine.fsm dims (engine.pipeline next input) input

/-- The declared initial values. -/
structure PowerUp (engine : MacEngine) : Prop where
  state : engine.state = .idle
  row : engine.row = 0
  col : engine.col = 0
  drainCnt : engine.drainCnt = 0
  done : engine.done = false
  u : ∀ r, engine.u r = 0

private theorem fsm_frame (engine : MacEngine) (input : Input) (next : MacEngine) :
    (engine.fsm dims next input).lane = next.lane ∧
      (engine.fsm dims next input).store = next.store ∧
      (engine.fsm dims next input).xaP1 = next.xaP1 ∧
      (engine.fsm dims next input).enP1 = next.enP1 ∧
      (engine.fsm dims next input).ldP1 = next.ldP1 ∧
      (engine.fsm dims next input).laneA = next.laneA ∧
      (engine.fsm dims next input).laneEn = next.laneEn ∧
      (engine.fsm dims next input).laneLoad = next.laneLoad := by
  unfold fsm
  cases engine.state with
  | done => exact ⟨rfl, rfl, rfl, rfl, rfl, rfl, rfl, rfl⟩
  | _ =>
      simp only
      split_ifs <;> exact ⟨rfl, rfl, rfl, rfl, rfl, rfl, rfl, rfl⟩

variable {dims} (engine : MacEngine) (input : Input)

theorem step_lane :
    (engine.step dims input).lane = engine.lane.step (engine.laneInput input) := by
  unfold step
  split_ifs
  · rfl
  · exact (fsm_frame dims engine input _).1

theorem step_store :
    (engine.step dims input).store =
      engine.store.step engineBuffers (engine.storeInput dims input) := by
  unfold step
  split_ifs
  · rfl
  · exact (fsm_frame dims engine input _).2.1

/-! ## One clock edge -/

/-- Where the state machine stands. -/
structure At (engine : MacEngine) (state : EngineState) (row col drainCnt : Nat) : Prop where
  state_eq : engine.state = state
  row_eq : engine.row = row
  col_eq : engine.col = col
  drainCnt_eq : engine.drainCnt = drainCnt

section Edge

variable (dims) (engine : MacEngine) {input : Input} (hInit : input.init = false)

include hInit

theorem step_of_not_init :
    engine.step dims input =
      engine.fsm dims (engine.pipeline (engine.instances dims input) input) input := by
  rw [step, hInit, if_neg Bool.false_ne_true]

theorem step_stage1 :
    (engine.step dims input).xaP1 =
        (if engine.state = .feed then input.x engine.col else engine.xaP1) ∧
      (engine.step dims input).enP1 = decide (engine.state = .feed) ∧
      (engine.step dims input).ldP1 = decide (engine.state = .feed ∧ engine.col = 0) := by
  rw [step_of_not_init dims engine hInit]
  obtain ⟨-, -, hXa, hEn, hLd, -⟩ := fsm_frame dims engine input
    (engine.pipeline (engine.instances dims input) input)
  exact ⟨hXa, hEn, hLd⟩

theorem step_stage2 :
    (engine.step dims input).laneA = engine.xaP1 ∧
      (engine.step dims input).laneEn = engine.enP1 ∧
      (engine.step dims input).laneLoad = engine.ldP1 := by
  rw [step_of_not_init dims engine hInit]
  obtain ⟨-, -, -, -, -, hA, hEn, hLoad⟩ := fsm_frame dims engine input
    (engine.pipeline (engine.instances dims input) input)
  exact ⟨hA, hEn, hLoad⟩

theorem step_passStart :
    (engine.step dims input).passStart = (decide (engine.state = .idle) && input.start) := by
  rw [step_of_not_init dims engine hInit, fsm]
  cases hState : engine.state with
  | idle => cases hStart : input.start <;> simp [pipeline]
  | feed =>
      simp only
      split_ifs <;> rfl
  | drain =>
      simp only
      split_ifs <;> rfl
  | capture =>
      simp only
      split_ifs <;> rfl
  | done => rfl

theorem step_u (hState : engine.state ≠ .capture) :
    (engine.step dims input).u = engine.u := by
  rw [step_of_not_init dims engine hInit, fsm]
  cases hCase : engine.state with
  | capture => exact absurd hCase hState
  | done => rfl
  | _ =>
      simp only
      split_ifs <;> rfl

theorem step_done (hState : engine.state = .idle ∨ engine.done = false) :
    (engine.step dims input).done = decide (engine.state = .done) := by
  rw [step_of_not_init dims engine hInit, fsm]
  cases hCase : engine.state with
  | idle =>
      simp only
      split_ifs <;> rfl
  | done => rfl
  | _ =>
      have hLow : engine.done = false := hState.resolve_left (by simp [hCase])
      simp only
      split_ifs <;> exact hLow

variable {engine}

theorem step_idle {row : Nat} (hAt : engine.At .idle row 0 0) :
    (engine.step dims input).At (if input.start then .feed else .idle)
      (if input.start then 0 else row) 0 0 := by
  rw [step_of_not_init dims engine hInit, fsm, hAt.state_eq]
  cases hStart : input.start with
  | false => exact ⟨hAt.state_eq, hAt.row_eq, hAt.col_eq, hAt.drainCnt_eq⟩
  | true => exact ⟨rfl, rfl, hAt.col_eq, hAt.drainCnt_eq⟩

theorem step_feed {row col : Nat} (hAt : engine.At .feed row col 0) :
    (engine.step dims input).At (if col = dims.n - 1 then .drain else .feed) row
      (if col = dims.n - 1 then 0 else col + 1) 0 := by
  rw [step_of_not_init dims engine hInit, fsm, hAt.state_eq, hAt.col_eq]
  simp only
  split_ifs
  · exact ⟨rfl, hAt.row_eq, rfl, hAt.drainCnt_eq⟩
  · exact ⟨hAt.state_eq, hAt.row_eq, rfl, hAt.drainCnt_eq⟩

theorem step_drain {row drainCnt : Nat} (hAt : engine.At .drain row 0 drainCnt) :
    (engine.step dims input).At (if drainCnt = 3 then .capture else .drain) row 0
      (if drainCnt = 3 then 0 else drainCnt + 1) := by
  rw [step_of_not_init dims engine hInit, fsm, hAt.state_eq, hAt.drainCnt_eq]
  simp only
  split_ifs
  · exact ⟨rfl, hAt.row_eq, hAt.col_eq, rfl⟩
  · exact ⟨hAt.state_eq, hAt.row_eq, hAt.col_eq, rfl⟩

theorem step_capture {row : Nat} (hAt : engine.At .capture row 0 0) :
    (engine.step dims input).At (if row < dims.m - 1 then .feed else .done)
        (if row < dims.m - 1 then row + 1 else row) 0 0 ∧
      (engine.step dims input).u = Function.update engine.u row engine.laneAcc := by
  rw [step_of_not_init dims engine hInit, fsm, hAt.state_eq, hAt.row_eq]
  simp only
  split_ifs
  · exact ⟨⟨rfl, rfl, hAt.col_eq, hAt.drainCnt_eq⟩, rfl⟩
  · exact ⟨⟨rfl, hAt.row_eq, hAt.col_eq, hAt.drainCnt_eq⟩, rfl⟩

theorem step_finish {row : Nat} (hAt : engine.At .done row 0 0) :
    (engine.step dims input).At .idle row 0 0 := by
  rw [step_of_not_init dims engine hInit, fsm, hAt.state_eq]
  exact ⟨rfl, hAt.row_eq, hAt.col_eq, hAt.drainCnt_eq⟩

end Edge

end MacEngine

end Lqr
