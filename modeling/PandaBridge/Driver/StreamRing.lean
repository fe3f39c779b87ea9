import PandaBridge.Driver.PandaStream
import PandaBridge.Ring.Index

/-! Who has which block. The blocks are numbered in the order in which they are used: those that
the reader has not given back come first, then those that the engine has, then the free ones, and
a lap of the ring has each block once. -/
namespace Driver

variable {Byte : Type}

/-- The handler has a block that it has not handed over. -/
def Isr.serving : Isr → Nat
  | .idle => 0
  | _ => 1

/-- The engine has a block that is not marked yet. -/
def Isr.marking : Isr → Nat
  | .mark _ _ _ => 1
  | _ => 0

/-- The length of the block in the handler is set. -/
def Isr.sized : Isr → Nat
  | .hand _ => 1
  | _ => 0

namespace World

/-- The last block is handed over. -/
def Ended (world : World Byte) : Prop :=
  world.device.streamActive = false ∧ world.isr = .idle

instance (world : World Byte) : Decidable world.Ended :=
  inferInstanceAs (Decidable (_ ∧ _))

/-- The block with this number has data of this length. -/
def Sized (world : World Byte) (number length : Nat) : Prop :=
  ∃ data, world.completed[number]? = some data ∧ data.length = length

/-- The state of a block, from its number. -/
def expected (world : World Byte) (marked number : Nat) : BlockState :=
  if number < world.handed then
    if world.Ended ∧ number + 1 = world.handed then .dataEnd else .data
  else if number < marked then .dma
  else .free

/-- The states of the blocks, where the blocks before `marked` are marked for the engine. -/
structure Placed (blockCount marked : Nat) (world : World Byte) : Prop where
  freed : world.freed ≤ world.handed
  lap : marked + world.isr.marking ≤ world.freed + blockCount
  states : ∀ number, world.freed ≤ number → number < world.freed + blockCount →
    (world.device.blocks (number % blockCount)).state = world.expected marked number

/-- Where the handler is. -/
def Serves (blockCount marked : Nat) (world : World Byte) : Prop :=
  match world.isr with
  | .idle =>
      (world.device.streamActive = true → world.device.isrBlockIndex = world.handed % blockCount ∧
        world.handed < marked ∧ marked ≤ world.handed + 2) ∧
      (world.device.streamActive = false → world.freed < world.handed ∧ world.handed ≤ marked)
  | .advance block length =>
      world.device.streamActive = true ∧
      world.device.isrBlockIndex = world.handed % blockCount ∧ marked = world.handed + 2 ∧
      block = world.handed % blockCount ∧ world.Sized world.handed length
  | .assign block length next =>
      world.device.streamActive = true ∧
      world.device.isrBlockIndex = (world.handed + 1) % blockCount ∧ marked = world.handed + 2 ∧
      block = world.handed % blockCount ∧ world.Sized world.handed length ∧
      next = (world.handed + 2) % blockCount ∧ world.handed + 2 < world.freed + blockCount
  | .mark block length next =>
      world.device.streamActive = true ∧
      world.device.isrBlockIndex = (world.handed + 1) % blockCount ∧ marked = world.handed + 2 ∧
      block = world.handed % blockCount ∧ world.Sized world.handed length ∧
      next = (world.handed + 2) % blockCount
  | .receive block length =>
      (world.device.streamActive = true →
        world.device.isrBlockIndex = (world.handed + 1) % blockCount ∧
        world.handed + 2 ≤ marked ∧ marked ≤ world.handed + 3) ∧
      world.handed < marked ∧
      block = world.handed % blockCount ∧ world.Sized world.handed length
  | .hand block =>
      (world.device.streamActive = true →
        world.device.isrBlockIndex = (world.handed + 1) % blockCount ∧
        world.handed + 2 ≤ marked ∧ marked ≤ world.handed + 3) ∧
      world.handed < marked ∧
      block = world.handed % blockCount ∧ ∃ length, world.Sized world.handed length

/-- An interrupt for a block that the handler has not looked at. -/
def Raised (world : World Byte) (status : IrqStatus) : Prop :=
  world.engine.status = some status ∧ status.newBuffer = true

/-- Where the engine is: it is at the block after those it has completed. -/
structure Runs (blockCount marked : Nat) (world : World Byte) : Prop where
  quiet : (∀ status, ¬ world.Raised status) →
    world.completed.length = world.handed + world.isr.serving
  raised : ∀ status, world.Raised status →
    world.completed.length = world.handed + world.isr.serving + 1 ∧
    world.Sized (world.handed + world.isr.serving) status.length ∧
    (status.done = true ↔ world.engine.current = none)
  running : world.device.streamActive = true → (∀ status, ¬ world.Raised status) →
    world.engine.current ≠ none
  stopped : world.device.streamActive = false →
    world.engine.current = none ∧ world.engine.status = none
  within : world.completed.length ≤ marked + world.isr.marking
  current : ∀ block, world.engine.current = some block →
    block = world.completed.length % blockCount ∧
    world.completed.length < marked + world.isr.marking
  next : ∀ block, world.engine.next = some block → ∃ number, block = number % blockCount ∧
    world.completed.length ≤ number ∧ number < marked + world.isr.marking ∧
    (world.engine.current ≠ none → number = world.completed.length + 1)

/-- What is in the blocks. -/
structure Stored (blockCount : Nat) (world : World Byte) : Prop where
  memory : ∀ number data, world.freed ≤ number → world.completed[number]? = some data →
    data = (List.range data.length).map (world.device.blocks (number % blockCount)).memory
  length : ∀ number data, world.freed ≤ number → number < world.handed + world.isr.sized →
    world.completed[number]? = some data →
    (world.device.blocks (number % blockCount)).length = data.length

end World

/-! ### Blocks by number -/

theorem stepIndex_mod {blockCount : Nat} (hCount : 0 < blockCount) (number : Nat) :
    stepIndex blockCount (number % blockCount) = (number + 1) % blockCount := by
  have hSlot := Nat.mod_lt number hCount
  unfold stepIndex
  by_cases hLast : number % blockCount + 1 ≥ blockCount
  · rw [if_pos hLast, (Ring.step_wrap hCount hLast).1]
    omega
  · rw [if_neg hLast, (Ring.step_next (by omega)).1]

/-- Numbers of one lap are at one block only if they are the same. -/
theorem mod_eq_iff {blockCount first number other : Nat} (hNumber : first ≤ number)
    (hNear : number < first + blockCount) (hOther : first ≤ other)
    (hOtherNear : other < first + blockCount) :
    number % blockCount = other % blockCount ↔ number = other := by
  refine ⟨fun hSame => ?_, fun hSame => by rw [hSame]⟩
  rcases Nat.lt_trichotomy number other with hLess | hEq | hMore
  · exact absurd hSame (Ring.slot_ne hLess (by omega))
  · exact hEq
  · exact absurd hSame.symm (Ring.slot_ne hMore (by omega))

end Driver
