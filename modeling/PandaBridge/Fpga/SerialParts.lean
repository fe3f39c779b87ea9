import PandaBridge.Clocked.Run
import PandaBridge.Coding.Crc

/-! The parts that the serial encoder links share. -/
namespace Fpga

/-- A word by its bits. -/
def ofBits {width : Nat} (bits : Fin width → Bool) : BitVec width :=
  (BitVec.ofBoolListLE (List.ofFn bits)).cast List.length_ofFn

theorem ofBits_getLsbD {width : Nat} (bits : Fin width → Bool) (place : Fin width) :
    (ofBits bits).getLsbD place.val = bits place := by
  rw [ofBits, BitVec.getLsbD_cast, BitVec.getLsbD_ofBoolListLE, List.getD_eq_getElem?_getD,
    List.getElem?_ofFn, dif_pos place.isLt, Option.getD_some]

/-- The encodings of a position. -/
inductive Encoding
  | unsignedBinary
  | unsignedGray
  | signedBinary
  | signedGray
  deriving DecidableEq

namespace Encoding

/-- `c_UNSIGNED_BINARY_ENCODING` or `c_SIGNED_BINARY_ENCODING`. -/
def isBinary : Encoding → Bool
  | unsignedBinary | signedBinary => true
  | unsignedGray | signedGray => false

end Encoding

/-! ### Prescaler -/

namespace Prescaler

structure State where
  pulse : Bool
  clkCnt : BitVec 32

/-- One rising clock edge. -/
def step (s : State) (reset : Bool) (period : BitVec 32) : State :=
  if reset then ⟨false, 0⟩
  else if s.clkCnt = period - 1 then ⟨true, 0⟩
  else ⟨false, s.clkCnt + 1⟩

end Prescaler

/-! ### Check code -/

namespace BissCrc

/-- One rising clock edge of the register. -/
def step (crc : BitVec 6) (reset bitval bitstrb : Bool) : BitVec 6 :=
  if reset then 0
  else if bitstrb then
    let inv := bitval ^^ crc.getLsbD 5
    ofBits fun place =>
      match place with
      | 5 => crc.getLsbD 4
      | 4 => crc.getLsbD 3
      | 3 => crc.getLsbD 2
      | 2 => crc.getLsbD 1
      | 1 => crc.getLsbD 0 ^^ inv
      | 0 => inv
  else crc

/-- The output is inverted. -/
def out (crc : BitVec 6) : BitVec 6 := ~~~crc

/-- A bit of the code as it is sent, the highest one first. -/
def checkBit (code : BitVec 6) (place : Nat) : Bool := (out code).getLsbD (5 - place)

theorem step_strobe (crc : BitVec 6) (bitval : Bool) :
    step crc false bitval true = Coding.shiftBit 3 crc bitval := by
  revert crc bitval
  decide

end BissCrc

/-! ### Shift register -/

namespace ShifterIn

structure State (width : Nat) where
  smplHold : BitVec width
  validPrev : Bool
  dataO : BitVec width
  dataValid : Bool

structure Input where
  reset : Bool
  encoding : Encoding
  enable : Bool
  clock : Bool
  data : Bool

variable {width : Nat}

/-- A bit comes in at the low end. -/
def shiftIn (word : BitVec width) (bit : Bool) : BitVec width :=
  word <<< 1 ||| (BitVec.ofBool bit).setWidth width

/-- The bit that is shifted in: a Gray code is decoded with the bit before it. -/
def decoded (encoding : Encoding) (word : BitVec width) (data : Bool) : Bool :=
  if encoding.isBinary then data else data ^^ word.getLsbD 0

/-- One rising clock edge. -/
def step (s : State width) (i : Input) : State width :=
  if i.reset then { s with smplHold := 0, dataO := 0, dataValid := false }
  else if !i.enable && s.validPrev then
    { smplHold := 0, validPrev := i.enable, dataO := s.smplHold, dataValid := true }
  else
    { smplHold :=
        if i.enable && i.clock then shiftIn s.smplHold (decoded i.encoding s.smplHold i.data)
        else s.smplHold
      validPrev := i.enable
      dataO := s.dataO
      dataValid := false }

end ShifterIn

/-! ### Link detection -/

namespace SerialLinkDetect

structure State where
  linkUp : Bool
  syncCounter : Nat
  clockPrev : Bool

/-- One rising clock edge. -/
def step (syncPeriod : Nat) (s : State) (reset clock active : Bool) : State :=
  if reset then { linkUp := false, syncCounter := 0, clockPrev := false }
  else if !s.linkUp then
    if s.syncCounter = syncPeriod - 1 then
      { linkUp := true, syncCounter := 0, clockPrev := clock }
    else { s with syncCounter := if clock then s.syncCounter + 1 else 0, clockPrev := clock }
  else if active then
    if s.syncCounter = syncPeriod - 1 then
      { linkUp := false, syncCounter := 0, clockPrev := clock }
    else
      { s with
        syncCounter := if clock && !s.clockPrev then 0 else s.syncCounter + 1
        clockPrev := clock }
  else { s with syncCounter := 0, clockPrev := clock }

end SerialLinkDetect

/-! ### Clock generator -/

namespace BissClockGen

inductive Fsm
  | waitStart
  | syncToClk
  | genMclk
  | deadtime
  deriving DecidableEq

structure State where
  fsm : Fsm
  prescaler : Prescaler.State
  serialClk : Bool
  clockCounter : Nat
  deadCounter : Nat

structure Input where
  reset : Bool
  n : BitVec 8
  clkPeriod : BitVec 32
  start : Bool
  enableCnt : Bool

/-- `ssi_fsm_gen`. -/
def fsmStep (deadPeriod : Nat) (s : State) (i : Input) : State :=
  if i.reset then { s with serialClk := true, clockCounter := 0, deadCounter := 0, fsm := .waitStart }
  else
    match s.fsm with
    | .waitStart =>
      { s with
        serialClk := true
        clockCounter := 0
        deadCounter := 0
        fsm := if i.start then .syncToClk else .waitStart }
    | .syncToClk =>
      if s.prescaler.pulse then { s with fsm := .genMclk, serialClk := false } else s
    | .genMclk =>
      { s with
        serialClk := if s.prescaler.pulse then !s.serialClk else s.serialClk
        clockCounter :=
          if s.prescaler.pulse && !s.serialClk && i.enableCnt then s.clockCounter + 1
          else s.clockCounter
        fsm :=
          if s.prescaler.pulse && !s.serialClk && decide (s.clockCounter = i.n.toNat) then .deadtime
          else .genMclk }
    | .deadtime =>
      { s with
        deadCounter := s.deadCounter + 1
        fsm := if s.deadCounter = deadPeriod - 1 then .waitStart else .deadtime }

/-- One rising clock edge. -/
def step (deadPeriod : Nat) (s : State) (i : Input) : State :=
  { fsmStep deadPeriod s i with
    prescaler := Prescaler.step s.prescaler i.reset (i.clkPeriod >>> 1) }

end BissClockGen

end Fpga
