import PandaBridge.Lqr.MacEngine

/-! Input conditioning: the conversion of counts to nanometres and the history of
positions from which the controller's state vector is taken. -/
namespace Lqr

open FixedPoint Clocked

/-- `FRAC_DIFF` of `cond_consts`: `PV_FRAC - DES_FRAC`. -/
abbrev nmFracDiff : Nat := 5

/-- `PV_SCALE_LEN`, with one bit for the sign. -/
def pvScaleLen (pvScale : Nat) : Nat := ceilLog2 pvScale + 1

/-- The product of a count with the scale constant, in the sum of their widths. -/
def nmProduct {cW : Nat} (pvScale : Nat) (c : BitVec cW) : BitVec (cW + pvScaleLen pvScale) :=
  BitVec.ofInt (cW + pvScaleLen pvScale)
    (c.toInt * (BitVec.ofNat (pvScaleLen pvScale) pvScale).toInt)

/-- `to_nm`. -/
def toNm {cW : Nat} (pvScale : Nat) (c : BitVec cW) : BitVec laneAW :=
  requantise (nmProduct pvScale c) nmFracDiff laneAW .halfAway

/-- `nm_conversion`: input register, product register, output register. -/
structure NmConversion (cW pvScale : Nat) where
  cR : BitVec cW
  prodR : BitVec (cW + pvScaleLen pvScale)
  nm : BitVec laneAW

namespace NmConversion

variable {cW pvScale : Nat}

def step (conversion : NmConversion cW pvScale) (c : BitVec cW) : NmConversion cW pvScale where
  cR := c
  prodR := nmProduct pvScale conversion.cR
  nm := requantise conversion.prodR nmFracDiff laneAW .halfAway

theorem nm_latency (run : Run (step : NmConversion cW pvScale → BitVec cW → NmConversion cW pvScale))
    (clock : Nat) : (run.state (clock + 3)).nm = toNm pvScale (run.input clock) := by
  rw [run.edge (clock + 2), step, run.edge (clock + 1), step, run.edge clock]
  rfl

end NmConversion

/-- A `generate` that drives a range of a vector. -/
structure Block where
  base : Nat
  width : Nat
  value : Nat → BitVec laneAW

/-- The vector that blocks drive together. -/
def assemble (blocks : List Block) (i : Nat) : BitVec laneAW :=
  match blocks.find? fun block => block.base ≤ i && i < block.base + block.width with
  | some block => block.value (i - block.base)
  | none => 0

theorem assemble_cons (block : Block) (blocks : List Block) (i : Nat) :
    assemble (block :: blocks) i =
      if block.base ≤ i ∧ i < block.base + block.width then block.value (i - block.base)
      else assemble blocks i := by
  unfold assemble
  by_cases hDrives : block.base ≤ i ∧ i < block.base + block.width
  · rw [if_pos hDrives, List.find?_cons_of_pos (by simpa using hDrives)]
  · rw [if_neg hDrives, List.find?_cons_of_neg (by simpa using hDrives)]

theorem assemble_append (first : List Block) {blocks blocks' : List Block}
    (h : assemble blocks = assemble blocks') :
    assemble (first ++ blocks) = assemble (first ++ blocks') := by
  induction first with
  | nil => exact h
  | cons block first ih =>
      funext i
      rw [List.cons_append, List.cons_append, assemble_cons, assemble_cons, ih]

/-- `n_channels`. -/
def nChannels (gState gVelocity gPrev : Bool) : Nat :=
  gState.toNat + gVelocity.toNat + gPrev.toNat

/-- `cond_width`. -/
def condWidth (axes : Nat) (gState gVelocity gPrev : Bool) : Nat :=
  axes * nChannels gState gVelocity gPrev

/-- The generics of `cond_input`; the scale is the constant that `pv_scale` makes of
`INTER_SCALE`. -/
structure CondConfig where
  axes : Nat
  histDepth : Nat
  pvScale : Nat
  gState : Bool
  gVelocity : Bool
  gPrev : Bool
  axes_pos : 0 < axes
  histDepth_pos : 0 < histDepth

structure CondInput.Input where
  init : Bool
  tick : Bool
  pos : Nat → BitVec laneAW

structure CondInput (config : CondConfig) where
  posScale : Nat → NmConversion laneAW config.pvScale
  poshist : Nat → Nat → BitVec laneAW
  warm : Nat
  valid : Bool

/-- `g_diff`: the difference with a guard bit, saturated. -/
def gDiff (a b : BitVec laneAW) : BitVec laneAW :=
  saturate (resize (laneAW + 1) a - resize (laneAW + 1) b) laneAW

/-- `x_o`: the channels of the history, one after the other. -/
def condX (config : CondConfig) (poshist : Nat → Nat → BitVec laneAW) : Nat → BitVec laneAW :=
  let velBase := config.axes * config.gState.toNat
  let prevBase := config.axes * (config.gState.toNat + config.gVelocity.toNat)
  assemble
    ((if config.gState then [⟨0, config.axes, fun ax => poshist ax 0⟩] else []) ++
      (if config.gVelocity then
        [⟨velBase, config.axes, fun ax => gDiff (poshist ax 0) (poshist ax 1)⟩] else []) ++
      (if config.gPrev then [⟨prevBase, config.axes, fun ax => poshist ax 1⟩] else []))

/-- The channels read the two newest positions only. -/
theorem condX_congr (config : CondConfig) {poshist poshist' : Nat → Nat → BitVec laneAW}
    (h : ∀ ax, ∀ t < 2, poshist ax t = poshist' ax t) :
    condX config poshist = condX config poshist' := by
  have hNow : (fun ax => poshist ax 0) = fun ax => poshist' ax 0 := by
    funext ax
    exact h ax 0 (by decide)
  have hPrev : (fun ax => poshist ax 1) = fun ax => poshist' ax 1 := by
    funext ax
    exact h ax 1 (by decide)
  have hDiff : (fun ax => gDiff (poshist ax 0) (poshist ax 1)) =
      fun ax => gDiff (poshist' ax 0) (poshist' ax 1) := by
    funext ax
    rw [h ax 0 (by decide), h ax 1 (by decide)]
  rw [condX, condX, hNow, hPrev, hDiff]

namespace CondInput

variable {config : CondConfig}

def step (cond : CondInput config) (input : Input) : CondInput config where
  posScale ax := (cond.posScale ax).step (input.pos ax)
  poshist ax t :=
    if input.init then 0
    else if input.tick then
      if t = 0 then (cond.posScale ax).nm
      else if t < config.histDepth then cond.poshist ax (t - 1)
      else cond.poshist ax t
    else cond.poshist ax t
  warm :=
    if input.init then 0
    else if input.tick && decide (cond.warm < config.histDepth) then cond.warm + 1
    else cond.warm
  valid := !input.init && input.tick && decide (config.histDepth - 1 ≤ cond.warm)

section Edge

variable (cond : CondInput config) {input : Input} (hInit : input.init = false)

include hInit

theorem step_of_not_tick (hTick : input.tick = false) :
    (cond.step input).poshist = cond.poshist ∧ (cond.step input).warm = cond.warm ∧
      (cond.step input).valid = false := by
  simp [step, hInit, hTick]

/-- A tick shifts the history, counts, and shows the vector once the history is full. -/
theorem step_of_tick (hTick : input.tick = true) :
    (∀ ax, (cond.step input).poshist ax 0 = (cond.posScale ax).nm) ∧
      (∀ ax t, t + 1 < config.histDepth →
        (cond.step input).poshist ax (t + 1) = cond.poshist ax t) ∧
      (cond.step input).warm =
        (if cond.warm < config.histDepth then cond.warm + 1 else cond.warm) ∧
      (cond.step input).valid = decide (config.histDepth - 1 ≤ cond.warm) := by
  constructor
  · intro ax
    simp [step, hInit, hTick]
  · constructor
    · intro ax t hDepth
      simp [step, hInit, hTick, hDepth]
    · simp [step, hInit, hTick]

end Edge

end CondInput

end Lqr
