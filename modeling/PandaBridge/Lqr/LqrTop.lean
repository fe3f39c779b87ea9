import PandaBridge.Lqr.CondInput
import PandaBridge.Lqr.MacPass

/-! The controller and its top level: the feature vector in front of the engine, the
requantised outputs, the feedback register, and the conditioning of positions and
setpoints at the servo rate. -/
namespace Lqr

open FixedPoint Clocked

/-- `STATE_F`, `PROD_F`, `OUT_F` and `OUT_W` of `lqr_consts`. -/
abbrev stateF : Nat := 10

abbrev prodF : Nat := 35

abbrev outF : Nat := 0

abbrev outW : Nat := 7

/-- `ONE_FX`: 1.0 in the state format. -/
def oneFx : BitVec laneAW := BitVec.ofNat laneAW (2 ^ stateF)

/-- `resolve_ref`. -/
def resolveRef (defaultN gRef : Nat) : Nat := if gRef = 0 then defaultN else gRef

/-- `n_int`. -/
def nInt (n m ref feats : Nat) (uprev setpoint affine : Bool) : Nat :=
  n + feats + m * uprev.toNat + ref * setpoint.toNat + affine.toNat

/-- The generics of `lqr`. -/
structure LqrConfig where
  m : Nat
  n : Nat
  gPhi : Nat
  gRef : Nat
  gUprev : Bool
  gSetpoint : Bool
  gAffine : Bool
  m_pos : 0 < m
  n_pos : 0 < n

namespace LqrConfig

variable (config : LqrConfig)

def ref : Nat := resolveRef config.n config.gRef

def nInt : Nat :=
  Lqr.nInt config.n config.m config.ref config.gPhi config.gUprev config.gSetpoint config.gAffine

def dims : EngineDims where
  m := config.m
  n := config.nInt
  m_pos := config.m_pos
  n_pos := by
    have := config.n_pos
    unfold nInt Lqr.nInt
    omega

/-- `x_eng`: state, features, previous outputs, setpoints and the affine one. -/
def xEng (x sp uPrev : Nat → BitVec laneAW) : Nat → BitVec laneAW :=
  let uprevBase := config.n + config.gPhi
  let spBase := config.n + config.gPhi + config.m * config.gUprev.toNat
  assemble
    ([⟨0, config.n, x⟩, ⟨config.n, config.gPhi, fun _ => 0⟩] ++
      (if config.gSetpoint then [⟨spBase, config.ref, sp⟩] else []) ++
      (if config.gAffine then [⟨config.nInt - 1, 1, fun _ => oneFx⟩] else []) ++
      (if config.gUprev then [⟨uprevBase, config.m, uPrev⟩] else []))

/-- Of the previous outputs only the controller's own count. -/
theorem xEng_congr (x sp : Nat → BitVec laneAW) {uPrev uPrev' : Nat → BitVec laneAW}
    (h : ∀ r < config.m, uPrev r = uPrev' r) :
    config.xEng x sp uPrev = config.xEng x sp uPrev' := by
  apply assemble_append
  cases config.gUprev with
  | false => rfl
  | true =>
      funext col
      rw [if_pos rfl, if_pos rfl, assemble_cons, assemble_cons]
      split_ifs with hDrives
      · exact h _ (Nat.sub_lt_left_of_lt_add hDrives.1 hDrives.2)
      · rfl

end LqrConfig

/-- The output stage. -/
def outStage (raw : BitVec laneAccW) : BitVec outW := requantise raw (prodF - outF) outW .halfAway

/-- The feedback of a raw result in the state format. -/
def feedback (raw : BitVec laneAccW) : BitVec laneAW :=
  requantise raw (prodF - stateF) laneAW .halfAway

structure Controller.Input where
  init : Bool
  sp : Nat → BitVec laneAW
  wrAddr : Nat
  wrData : Word
  wrEn : Bool
  commit : Bool
  x : Nat → BitVec laneAW
  start : Bool

/-- `lqr`: the engine and the register of the previous outputs. -/
structure Controller (config : LqrConfig) where
  engine : MacEngine
  uPrev : Nat → BitVec laneAW

namespace Controller

variable {config : LqrConfig}

def engineInput (controller : Controller config) (input : Input) : MacEngine.Input where
  init := input.init
  wrAddr := input.wrAddr
  wrData := input.wrData
  wrEn := input.wrEn
  commit := input.commit
  x := config.xEng input.x input.sp controller.uPrev
  start := input.start

def step (controller : Controller config) (input : Input) : Controller config where
  engine := controller.engine.step config.dims (controller.engineInput input)
  uPrev :=
    if config.gUprev then
      if input.init then fun _ => 0
      else if controller.engine.done then fun r => feedback (controller.engine.u r)
      else controller.uPrev
    else controller.uPrev

/-- `u_o`. -/
def u (controller : Controller config) (r : Nat) : BitVec outW :=
  outStage (controller.engine.u r)

end Controller

/-- The generics of `lqr_top` that shape the datapath. -/
structure TopConfig where
  axes : Nat
  m : Nat
  histDepth : Nat
  pvScale : Nat
  gRef : Nat
  gVelocity : Bool
  gPrev : Bool
  gUprev : Bool
  gSetpoint : Bool
  gAffine : Bool
  axes_pos : 0 < axes
  m_pos : 0 < m
  histDepth_pos : 0 < histDepth

namespace TopConfig

variable (config : TopConfig)

def cond : CondConfig where
  axes := config.axes
  histDepth := config.histDepth
  pvScale := config.pvScale
  gState := true
  gVelocity := config.gVelocity
  gPrev := config.gPrev
  axes_pos := config.axes_pos
  histDepth_pos := config.histDepth_pos

/-- The controller gets no feature columns, whatever `G_PHI` of the top level is. -/
def lqr : LqrConfig where
  m := config.m
  n := condWidth config.axes true config.gVelocity config.gPrev
  gPhi := 0
  gRef := config.gRef
  gUprev := config.gUprev
  gSetpoint := config.gSetpoint
  gAffine := config.gAffine
  m_pos := config.m_pos
  n_pos := Nat.mul_pos config.axes_pos (by unfold nChannels; simp only [Bool.toNat_true]; omega)

end TopConfig

structure LqrTop.Input where
  init : Bool
  tick : Bool
  pos : Nat → BitVec laneAW
  sp : Nat → BitVec laneAW
  wrAddr : Nat
  wrData : Word
  wrEn : Bool
  commit : Bool

/-- `lqr_top` behind its servo divider, whose tick is an input here. -/
structure LqrTop (config : TopConfig) where
  cond : CondInput config.cond
  spScale : Nat → NmConversion laneAW config.pvScale
  spReg : Nat → BitVec laneAW
  controller : Controller config.lqr

namespace LqrTop

variable {config : TopConfig}

def condInput (input : Input) : CondInput.Input where
  init := input.init
  tick := input.tick
  pos := input.pos

def controllerInput (top : LqrTop config) (input : Input) : Controller.Input where
  init := input.init
  sp := top.spReg
  wrAddr := input.wrAddr
  wrData := input.wrData
  wrEn := input.wrEn
  commit := input.commit
  x := condX config.cond top.cond.poshist
  start := top.cond.valid

def step (top : LqrTop config) (input : Input) : LqrTop config where
  cond := top.cond.step (condInput input)
  spScale r := (top.spScale r).step (input.sp r)
  spReg :=
    if input.init then fun _ => 0
    else if input.tick then fun r => (top.spScale r).nm
    else top.spReg
  controller := top.controller.step (top.controllerInput input)

/-- `u_valid_o` and `u_o`. -/
def uValid (top : LqrTop config) : Bool := top.controller.engine.done

def u (top : LqrTop config) (r : Nat) : BitVec outW := top.controller.u r

end LqrTop

end Lqr
