import Mathlib.Logic.Function.Basic
import Mathlib.Data.Fintype.Pi
import PandaBridge.Lqr.NumUtils

/-! The gain storage of the controller: one BRAM, the double buffer with its
deferred swap, and the fill process of `lqr_block` that turns the register
stream into addressed writes. Every `step` is one rising clock edge. -/
namespace Lqr

abbrev Word := BitVec 32

/-- The stream version tag, of `GEN_W` bits. -/
abbrev Gen := BitVec 16

/-- `bram_store`: a read-first memory behind a read and an output register. -/
structure BramStore (dataW : Nat) where
  ram : Nat → BitVec dataW
  rdM : BitVec dataW
  rdR : BitVec dataW

namespace BramStore

variable {dataW : Nat}

def step (store : BramStore dataW) (wrAddr : Nat) (wrData : BitVec dataW) (wrEn : Bool)
    (rdAddr : Nat) : BramStore dataW where
  ram := if wrEn then Function.update store.ram wrAddr wrData else store.ram
  rdM := store.ram rdAddr
  rdR := store.rdM

@[simp] theorem step_ram_of_not_wrEn (store : BramStore dataW) (wrAddr rdAddr : Nat)
    (wrData : BitVec dataW) : (store.step wrAddr wrData false rdAddr).ram = store.ram := rfl

@[simp] theorem step_ram_of_wrEn (store : BramStore dataW) (wrAddr rdAddr : Nat)
    (wrData : BitVec dataW) :
    (store.step wrAddr wrData true rdAddr).ram = Function.update store.ram wrAddr wrData := rfl

end BramStore

/-- `bram_buffer`: the writer fills the buffer after the active one; a commit
arms the swap and the next pass start performs it. -/
structure BramBuffer (dataW : Nat) where
  stores : Nat → BramStore dataW
  activeBuf : Nat
  pending : Bool
  gen : Gen

structure BramBuffer.Input (dataW : Nat) where
  init : Bool
  wrAddr : Nat
  wrData : BitVec dataW
  wrEn : Bool
  commit : Bool
  rdAddr : Nat
  passStart : Bool

namespace BramBuffer

variable {dataW : Nat} (numBuffers : Nat)

def writeBuff (buffer : BramBuffer dataW) : Nat := (buffer.activeBuf + 1) % numBuffers

/-- The swap branch of the clocked process is taken in this cycle. -/
def swaps (buffer : BramBuffer dataW) (input : Input dataW) : Bool :=
  !input.init && input.passStart && buffer.pending

/-- One clock edge. A swap overrides a commit of the same cycle, because its
assignment to `pending` comes later in the process. -/
def step (buffer : BramBuffer dataW) (input : Input dataW) : BramBuffer dataW where
  stores i := (buffer.stores i).step input.wrAddr input.wrData
    (input.wrEn && i == buffer.writeBuff numBuffers) input.rdAddr
  activeBuf :=
    if input.init then numBuffers - 1
    else if input.passStart && buffer.pending then buffer.writeBuff numBuffers
    else buffer.activeBuf
  pending :=
    if input.init then false
    else if input.passStart && buffer.pending then false
    else if input.commit then true
    else buffer.pending
  gen :=
    if input.init then 0
    else if input.passStart && buffer.pending then buffer.gen + 1
    else buffer.gen

/-- `rd_data_o`: the output register of the active buffer. -/
def rdData (buffer : BramBuffer dataW) : BitVec dataW := (buffer.stores buffer.activeBuf).rdR

/-- The words the reader sees, and those the writer fills. -/
def activeBank (buffer : BramBuffer dataW) : Nat → BitVec dataW :=
  (buffer.stores buffer.activeBuf).ram

def fillBank (buffer : BramBuffer dataW) : Nat → BitVec dataW :=
  (buffer.stores (buffer.writeBuff numBuffers)).ram

variable (buffer : BramBuffer dataW) (input : Input dataW)

/-- A clock edge that does not swap and sees no reset. -/
theorem step_keep (hInit : input.init = false)
    (hSwap : (input.passStart && buffer.pending) = false) :
    (buffer.step numBuffers input).activeBuf = buffer.activeBuf ∧
      (buffer.step numBuffers input).pending = (input.commit || buffer.pending) ∧
      (buffer.step numBuffers input).gen = buffer.gen := by
  cases hCommit : input.commit <;> simp [step, hInit, hSwap, hCommit]

theorem step_swap (hInit : input.init = false) (hPass : input.passStart = true)
    (hPending : buffer.pending = true) :
    (buffer.step numBuffers input).activeBuf = buffer.writeBuff numBuffers ∧
      (buffer.step numBuffers input).pending = false ∧
      (buffer.step numBuffers input).gen = buffer.gen + 1 := by
  simp [step, hInit, hPass, hPending]

theorem step_ram_of_not_wrEn (hWrite : input.wrEn = false) (i : Nat) :
    ((buffer.step numBuffers input).stores i).ram = (buffer.stores i).ram := by
  simp [step, BramStore.step, hWrite]

theorem step_ram_of_ne_writeBuff {i : Nat} (hOther : i ≠ buffer.writeBuff numBuffers) :
    ((buffer.step numBuffers input).stores i).ram = (buffer.stores i).ram := by
  simp [step, BramStore.step, hOther]

theorem step_ram_writeBuff (hWrite : input.wrEn = true) :
    ((buffer.step numBuffers input).stores (buffer.writeBuff numBuffers)).ram =
      Function.update (buffer.fillBank numBuffers) input.wrAddr input.wrData := by
  simp [step, BramStore.step, hWrite, fillBank]

theorem writeBuff_ne_activeBuf (hTwo : 2 ≤ numBuffers) :
    buffer.activeBuf ≠ buffer.writeBuff numBuffers := by
  intro hSame
  have hRange : buffer.activeBuf < numBuffers := by
    rw [hSame]
    exact Nat.mod_lt _ (by omega)
  unfold writeBuff at hSame
  rcases Nat.lt_or_ge (buffer.activeBuf + 1) numBuffers with hLess | hMore
  · rw [Nat.mod_eq_of_lt hLess] at hSame
    omega
  · obtain hLast : buffer.activeBuf + 1 = numBuffers := by omega
    rw [hLast, Nat.mod_self] at hSame
    omega

end BramBuffer

/-- The fill process of `lqr_block`: the write port registers and the pointer. -/
structure GainFill where
  cnt : Nat
  wrAddr : Nat
  wrData : Word
  wrEn : Bool

/-- One clock edge of the fill process. The pointer wraps at the address width. -/
def GainFill.step (addrW : Nat) (fill : GainFill) (init fillStart fillValid : Bool)
    (fillData : Word) : GainFill :=
  if init || fillStart then { fill with cnt := 0, wrEn := false }
  else if fillValid then
    { cnt := (fill.cnt + 1) % 2 ^ addrW, wrAddr := fill.cnt, wrData := fillData, wrEn := true }
  else { fill with wrEn := false }

/-- `NUM_BUFFERS` of the engine's gain store. -/
abbrev engineBuffers : Nat := 2

/-- The gain side of `lqr_block`: the fill process feeding the double buffer. -/
structure GainPort where
  fill : GainFill
  buffer : BramBuffer 32

structure GainPort.Input where
  init : Bool
  startWstb : Bool
  dataWstb : Bool
  data : Word
  commitWstb : Bool
  passStart : Bool
  rdAddr : Nat

namespace GainPort

/-- What the buffer's ports see in this cycle. -/
def bufferInput (port : GainPort) (input : Input) : BramBuffer.Input 32 where
  init := input.init
  wrAddr := port.fill.wrAddr
  wrData := port.fill.wrData
  wrEn := port.fill.wrEn
  commit := input.commitWstb
  rdAddr := input.rdAddr
  passStart := input.passStart

def step (gainCnt : Nat) (port : GainPort) (input : Input) : GainPort where
  fill := port.fill.step (ceilLog2 gainCnt) input.init input.startWstb input.dataWstb input.data
  buffer := port.buffer.step engineBuffers (port.bufferInput input)

/-- The `GEN` readback register: the tag, zero extended. -/
def genReg (port : GainPort) : Word := port.buffer.gen.zeroExtend 32

end GainPort

end Lqr
