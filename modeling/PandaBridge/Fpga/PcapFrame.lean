import Mathlib.Data.Fin.VecNotation

/-! The frame of position capture. Every trigger ends one capture: the values of the position bus
since the trigger before it, its timestamps and the bit bus go to the output in three clocks. -/
namespace Fpga

namespace PcapFrameMode

/-- The inputs of one position at one clock edge. -/
structure Input where
  enable : Bool
  gate : Bool
  trig : Bool
  value : BitVec 32
  shiftSum : BitVec 6

structure State where
  enableR1 : Bool
  gateR1 : Bool
  gateR2 : Bool
  trigR1 : Bool
  valueR1 : BitVec 32
  valueSqR1 : BitVec 64
  startVal : BitVec 32
  diffSum : BitVec 32
  sumData : BitVec 72
  sumDataSq : BitVec 104
  minVal : BitVec 32
  maxVal : BitVec 32
  valueO : BitVec 32
  diffO : BitVec 32
  sumLO : BitVec 32
  sumHO : BitVec 32
  minO : BitVec 32
  maxO : BitVec 32
  sumSq0O : BitVec 32
  sumSq1O : BitVec 32
  sumSq2O : BitVec 32
  trigO : Bool

/-- The signals before the first clock edge. -/
def State.boot : State :=
  ⟨false, false, false, false, 0, 0, 0, 0, 0, 0, 0, 0, 0, 0, 0, 0, 0, 0, 0, 0, 0, false⟩

/-- Mode 1: the start value is latched on a rising gate or on a capture. -/
def nextStartVal (s : State) : BitVec 32 :=
  if s.gateR1 && !s.gateR2 || s.trigR1 && s.gateR1 then s.valueR1 else s.startVal

/-- The variable `diff_sum` before it is put out. -/
def addedDiff (s : State) : BitVec 32 :=
  if !s.enableR1 then 0
  else if s.gateR2 && (!s.gateR1 || s.trigR1) then s.diffSum + s.valueR1 - s.startVal
  else s.diffSum

/-- An accumulator: cleared on disable or on a trigger without gate, set to the current value on a
trigger with gate, extended while the gate is high. -/
def accumulate {Value : Type} (s : State) (clear set extended kept : Value) : Value :=
  if !s.enableR1 || s.trigR1 && !s.gateR1 then clear
  else if s.trigR1 && s.gateR1 then set
  else if s.gateR1 then extended
  else kept

/-- One rising clock edge. Without the standard deviation option the squares stay zero. -/
def step (stdDev : Bool) (s : State) (i : Input) : State where
  enableR1 := i.enable
  gateR1 := i.gate
  gateR2 := s.gateR1
  trigR1 := i.trig
  valueR1 := i.value
  valueSqR1 := i.value.signExtend 64 * i.value.signExtend 64
  startVal := nextStartVal s
  diffSum := if s.trigR1 then 0 else addedDiff s
  sumData :=
    accumulate s 0 (s.valueR1.signExtend 72) (s.sumData + s.valueR1.signExtend 72) s.sumData
  sumDataSq :=
    if stdDev then
      accumulate s 0 (s.valueSqR1.setWidth 104) (s.sumDataSq + s.valueSqR1.setWidth 104)
        s.sumDataSq
    else 0
  minVal :=
    accumulate s 0x7FFFFFFF s.valueR1 (if s.valueR1.slt s.minVal then s.valueR1 else s.minVal)
      s.minVal
  maxVal :=
    accumulate s 0x80000000 s.valueR1 (if s.maxVal.slt s.valueR1 then s.valueR1 else s.maxVal)
      s.maxVal
  valueO := if s.trigR1 then s.valueR1 else s.valueO
  diffO := if s.trigR1 then addedDiff s else s.diffO
  sumLO :=
    if s.trigR1 then (s.sumData.sshiftRight i.shiftSum.toNat).extractLsb' 0 32 else s.sumLO
  sumHO :=
    if s.trigR1 then (s.sumData.sshiftRight i.shiftSum.toNat).extractLsb' 32 32 else s.sumHO
  minO := if s.trigR1 then s.minVal else s.minO
  maxO := if s.trigR1 then s.maxVal else s.maxO
  sumSq0O :=
    if !stdDev then 0
    else if s.trigR1 then (s.sumDataSq >>> i.shiftSum.toNat).extractLsb' 0 32 else s.sumSq0O
  sumSq1O :=
    if !stdDev then 0
    else if s.trigR1 then (s.sumDataSq >>> i.shiftSum.toNat).extractLsb' 32 32 else s.sumSq1O
  sumSq2O :=
    if !stdDev then 0
    else if s.trigR1 then (s.sumDataSq >>> i.shiftSum.toNat).extractLsb' 64 32 else s.sumSq2O
  trigO := s.trigR1

/-- The nine outputs in the order of the modes. -/
def State.outputs (s : State) : Fin 9 → BitVec 32 :=
  ![s.valueO, s.diffO, s.sumLO, s.sumHO, s.minO, s.maxO, s.sumSq0O, s.sumSq1O, s.sumSq2O]

end PcapFrameMode

namespace PcapFrame

/-- `t_mode_ts_bits`: all that a capture can contain. -/
@[ext] structure ModeTsBits where
  mode : Fin 32 → Fin 9 → BitVec 32
  ts : Fin 7 → BitVec 32
  bits : Fin 4 → BitVec 32

structure Input where
  reset : Bool
  shiftSum : BitVec 6
  trigEdge : BitVec 2
  bitBus : BitVec 128
  posBus : Fin 32 → BitVec 32
  enable : Bool
  gate : Bool
  trig : Bool
  timestamp : BitVec 64

structure State where
  gatePrev : Bool
  trigPrev : Bool
  trigDly : Bool
  trigO : Bool
  tsStartEnable : Bool
  tsStart : BitVec 64
  tsStartDly : BitVec 64
  tsEndEnable : Bool
  tsEnd : BitVec 64
  tsTrig : BitVec 64
  cntSamples : BitVec 40
  samples : BitVec 32
  bitBus : Fin 4 → BitVec 32
  modes : Fin 32 → PcapFrameMode.State
  samplesO : BitVec 32
  tsStartO : BitVec 64
  tsTrigO : BitVec 64
  tsEndO : BitVec 64
  bits : Fin 4 → BitVec 32
  modeTsBits : ModeTsBits

/-- The signals before the first clock edge. -/
def State.boot : State where
  gatePrev := false
  trigPrev := false
  trigDly := false
  trigO := false
  tsStartEnable := false
  tsStart := 0
  tsStartDly := 0
  tsEndEnable := false
  tsEnd := 0
  tsTrig := 0
  cntSamples := 0
  samples := 0
  bitBus _ := 0
  modes _ := .boot
  samplesO := 0
  tsStartO := 0
  tsTrigO := 0
  tsEndO := 0
  bits _ := 0
  modeTsBits := ⟨fun _ _ => 0, fun _ => 0, fun _ => 0⟩

/-- A change of a signal from one clock to the next, in a direction that `TRIG_EDGE` selects. -/
def selectedEdge (trigEdge : BitVec 2) (before now : Bool) : Bool :=
  !before && now && (trigEdge == 0 || trigEdge == 2) ||
    before && !now && (trigEdge == 1 || trigEdge == 2)

def trigPulse (s : State) (i : Input) : Bool := selectedEdge i.trigEdge s.trigPrev i.trig

def gateRise (s : State) (i : Input) : Bool := !s.gatePrev && i.gate

def gateFall (s : State) (i : Input) : Bool := s.gatePrev && !i.gate

/-- `trig_pulse` delayed by two clocks. -/
def trigInt (s : State) : Bool := (s.modes 0).trigO

def modeInput (s : State) (i : Input) (position : Fin 32) : PcapFrameMode.Input where
  enable := i.enable
  gate := i.gate
  trig := trigPulse s i
  value := i.posBus position
  shiftSum := i.shiftSum

/-- `ts_start` and its flag. -/
def nextTsStart (s : State) (i : Input) : Bool × BitVec 64 :=
  if !i.enable then (false, s.tsStart)
  else if !s.tsStartEnable && gateRise s i then (true, i.timestamp)
  else if trigPulse s i && i.gate then (true, i.timestamp)
  else if trigPulse s i then (false, -1)
  else (s.tsStartEnable, s.tsStart)

/-- `ts_end` and its flag. -/
def nextTsEnd (s : State) (i : Input) : Bool × BitVec 64 :=
  if !i.enable then (false, s.tsEnd)
  else if gateFall s i then (s.tsEndEnable || !trigPulse s i, i.timestamp)
  else if trigPulse s i && i.gate then (false, i.timestamp)
  else if trigPulse s i then (false, if s.tsEndEnable then s.tsEnd else -1)
  else (s.tsEndEnable, s.tsEnd)

/-- What goes to the output once the trigger has been delayed by three clocks. -/
def nextModeTsBits (s : State) : ModeTsBits where
  mode position := (s.modes position).outputs
  ts := ![s.tsStartO.extractLsb' 0 32, s.tsStartO.extractLsb' 32 32, s.tsEndO.extractLsb' 0 32,
    s.tsEndO.extractLsb' 32 32, s.tsTrigO.extractLsb' 0 32, s.tsTrigO.extractLsb' 32 32,
    s.samplesO]
  bits := s.bits

/-- One rising clock edge. -/
def step (stdDev : Bool) (s : State) (i : Input) : State where
  gatePrev := i.gate
  trigPrev := i.trig
  trigDly := !i.reset && trigInt s
  trigO := !i.reset && trigInt s
  tsStartEnable := (nextTsStart s i).1
  tsStart := (nextTsStart s i).2
  tsStartDly := if trigPulse s i then s.tsStart else s.tsStartDly
  tsEndEnable := (nextTsEnd s i).1
  tsEnd := (nextTsEnd s i).2
  tsTrig := if trigPulse s i then i.timestamp else s.tsTrig
  cntSamples :=
    if trigPulse s i || !i.enable then if i.gate then 1 else 0
    else if i.gate then s.cntSamples + 1
    else s.cntSamples
  samples :=
    if trigPulse s i || !i.enable then (s.cntSamples >>> i.shiftSum.toNat).extractLsb' 0 32
    else s.samples
  bitBus :=
    if trigPulse s i then fun quarter => i.bitBus.extractLsb' (32 * quarter.val) 32 else s.bitBus
  modes position := PcapFrameMode.step stdDev (s.modes position) (modeInput s i position)
  samplesO := if trigInt s then s.samples else s.samplesO
  tsStartO := if trigInt s then s.tsStartDly else s.tsStartO
  tsTrigO := if trigInt s then s.tsTrig else s.tsTrigO
  tsEndO := if trigInt s then s.tsEnd else s.tsEndO
  bits := if trigInt s then s.bitBus else s.bits
  modeTsBits := if s.trigDly then nextModeTsBits s else s.modeTsBits

end PcapFrame

end Fpga
