import Mathlib.Logic.Function.Basic
import PandaBridge.Transition.System

/-! The stream device: a ring of blocks that the interrupt handler gives to the DMA engine and
then to the reader. Neither side takes a lock, so their accesses to the states of the blocks are
steps of their own. -/
namespace Driver

/-- `enum block_state`. -/
inductive BlockState
  | free
  | dma
  | data
  | dataEnd
  deriving DecidableEq

structure Block (Byte : Type) where
  memory : Nat → Byte
  state : BlockState
  length : Nat

structure StreamOpen (Byte : Type) where
  isrBlockIndex : Nat
  streamActive : Bool
  completion : Nat
  startTsValid : Bool
  readBlockIndex : Nat
  readOffset : Nat
  blocks : Nat → Block Byte

/-- The interrupt status register. The length is in bytes. -/
structure IrqStatus where
  done : Bool
  completion : Nat
  timeout : Bool
  complete : Bool
  startEvent : Bool
  length : Nat

/-- `IRQ_STATUS_NEW_BUFFER`. -/
def IrqStatus.newBuffer (status : IrqStatus) : Bool :=
  status.done || status.timeout || status.complete

/-- The engine: the block that it writes, the one it was given for then, how far it has come, and
an interrupt that the handler has not looked at. -/
structure DmaEngine where
  current : Option Nat
  next : Option Nat
  filled : Nat
  status : Option IrqStatus

/-- How far `stream_isr` has come. -/
inductive Isr
  | idle
  | advance (block length : Nat)
  | assign (block length next : Nat)
  | mark (block length next : Nat)
  | receive (block length : Nat)
  | hand (block : Nat)
  deriving DecidableEq

/-- A call of `panda_stream_read`: its size, what is left of it, and what was copied so far. -/
structure ReadCall (Byte : Type) where
  size : Nat
  count : Nat
  copied : List Byte

/-- How far `panda_stream_read` has come. -/
inductive Reader (Byte : Type)
  | idle
  | waiting (size : Nat)
  | test (call : ReadCall Byte)
  | copy (call : ReadCall Byte)
  | check (call : ReadCall Byte)
  | finish (call : ReadCall Byte)

/-- What `panda_stream_read` returns: a count, zero, or an error. -/
inductive ReadReturn
  | bytes (count : Nat)
  | zero
  | again
  | restart
  | fault
  deriving DecidableEq

/-- The device with its two users, and what has happened: the data of the blocks that the engine
completed, how many of them were handed to the reader and how many it gave back, and what the
reads returned, the last one first. -/
structure World (Byte : Type) where
  device : StreamOpen Byte
  engine : DmaEngine
  isr : Isr
  reader : Reader Byte
  completed : List (List Byte)
  handed : Nat
  freed : Nat
  returned : List Byte
  results : List (Nat × ReadReturn)

inductive Event (Byte : Type)
  | dmaWrite (byte : Byte)
  | interrupt (last timeout complete startEvent : Bool) (completion : Nat)
  | isr
  | read (size : Nat)
  | wake
  | giveUp (signal : Bool)
  | reader
  | copyToUser (moved : Nat)

variable {Byte : Type}

def StreamOpen.setBlock (device : StreamOpen Byte) (block : Nat) (value : Block Byte) :
    StreamOpen Byte :=
  { device with blocks := Function.update device.blocks block value }

def StreamOpen.setState (device : StreamOpen Byte) (block : Nat) (state : BlockState) :
    StreamOpen Byte :=
  device.setBlock block { device.blocks block with state }

/-- The block that the reader is at. -/
def StreamOpen.readBlock (device : StreamOpen Byte) : Block Byte :=
  device.blocks device.readBlockIndex

/-- `step_index`. -/
def stepIndex (blockCount ix : Nat) : Nat :=
  if ix + 1 ≥ blockCount then ix + 1 - blockCount else ix + 1

/-- `start_hardware`, before any reader or interrupt. The contents and the lengths of the blocks
are left from before. -/
def startHardware (device : StreamOpen Byte) : World Byte where
  device :=
    { isrBlockIndex := 0
      streamActive := true
      completion := device.completion
      startTsValid := false
      readBlockIndex := 0
      readOffset := 0
      blocks := fun block =>
        { device.blocks block with state := if block < 2 then .dma else .free } }
  engine := { current := some 0, next := some 1, filled := 0, status := none }
  isr := .idle
  reader := .idle
  completed := []
  handed := 0
  freed := 0
  returned := []
  results := []

/-! ### The engine -/

/-- The engine writes one byte. -/
def dmaWrite (world : World Byte) (byte : Byte) : Option (World Byte) :=
  world.engine.current.map fun block =>
    { world with
      device := world.device.setBlock block
        { world.device.blocks block with
          memory := Function.update (world.device.blocks block).memory world.engine.filled byte }
      engine := { world.engine with filled := world.engine.filled + 1 } }

/-- The engine raises an interrupt. Without a next address it is done in any case. It changes to
the next block for all but a mere start event. -/
def raiseInterrupt (world : World Byte) (last timeout complete startEvent : Bool)
    (completion : Nat) : Option (World Byte) :=
  match world.engine.status, world.engine.current with
  | none, some block =>
      let status : IrqStatus :=
        { done := last || world.engine.next.isNone
          completion, timeout, complete, startEvent
          length := world.engine.filled }
      if status.newBuffer then
        some { world with
          engine :=
            { current := if status.done then none else world.engine.next
              next := none
              filled := 0
              status := some status }
          completed := world.completed ++
            [(List.range world.engine.filled).map (world.device.blocks block).memory] }
      else some { world with engine := { world.engine with status := some status } }
  | _, _ => none

/-! ### The interrupt handler -/

/-- `stream_isr` up to the block: the status is read. -/
def enterIsr (world : World Byte) (status : IrqStatus) : World Byte :=
  let taken := { world with engine := { world.engine with status := none } }
  if world.device.streamActive then
    let device :=
      { world.device with startTsValid := world.device.startTsValid || status.startEvent }
    if status.newBuffer then
      if status.done then
        { taken with
          device := { device with streamActive := false, completion := status.completion }
          isr := .receive device.isrBlockIndex status.length }
      else { taken with device, isr := .advance device.isrBlockIndex status.length }
    else { taken with device }
  else taken

/-- `advance_isr_block` up to the test. -/
def advanceIsrBlock (blockCount : Nat) (world : World Byte) (block length : Nat) : World Byte :=
  let index := stepIndex blockCount world.device.isrBlockIndex
  let next := stepIndex blockCount index
  { world with
    device := { world.device with isrBlockIndex := index }
    isr :=
      if (world.device.blocks next).state = .free then .assign block length next
      else .receive block length }

/-- The next step of the handler. -/
def isrStep (blockCount : Nat) (world : World Byte) : Option (World Byte) :=
  match world.isr with
  | .idle => world.engine.status.map (enterIsr world)
  | .advance block length => some (advanceIsrBlock blockCount world block length)
  | .assign block length next =>
      some { world with
        engine := { world.engine with next := some next }
        isr := .mark block length next }
  | .mark block length next =>
      some { world with
        device := world.device.setState next .dma
        isr := .receive block length }
  | .receive block length =>
      some { world with
        device := world.device.setBlock block { world.device.blocks block with length }
        isr := .hand block }
  | .hand block =>
      some { world with
        device := world.device.setState block
          (if world.device.streamActive then .data else .dataEnd)
        isr := .idle
        handed := world.handed + 1 }

/-! ### The reader -/

/-- A read returns. The bytes of one that fails are not returned. -/
def returnRead (world : World Byte) (size : Nat) (bytes : List Byte) (result : ReadReturn) :
    World Byte :=
  { world with
    reader := .idle
    returned := world.returned ++ bytes
    results := (size, result) :: world.results }

/-- The condition that `wait_for_block` waits for. -/
def StreamOpen.blockReady (device : StreamOpen Byte) : Bool :=
  device.readBlock.state = .data || device.readBlock.state = .dataEnd

/-- `advance_block`. -/
def advanceBlock (blockCount : Nat) (device : StreamOpen Byte) : StreamOpen Byte :=
  { device.setState device.readBlockIndex .free with
    readOffset := 0
    readBlockIndex := stepIndex blockCount device.readBlockIndex }

/-- The next step of the loop of `panda_stream_read`, where it is not a copy. -/
def readerStep (blockCount : Nat) (world : World Byte) : Option (World Byte) :=
  let block := world.device.readBlock
  match world.reader with
  | .test call =>
      some { world with
        reader := if call.count > 0 ∧ block.state ≠ .dma then .copy call else .finish call }
  | .copy call =>
      if block.length > world.device.readOffset then none
      else some { world with reader := .check call }
  | .check call =>
      if world.device.readOffset ≥ block.length then
        if block.state = .dataEnd then some { world with reader := .finish call }
        else
          some { world with
            device := advanceBlock blockCount world.device
            reader := .test call
            freed := world.freed + 1 }
      else some { world with reader := .test call }
  | .finish call =>
      if call.copied.length > 0 then
        some (returnRead world call.size call.copied (.bytes call.copied.length))
      else if block.state = .dataEnd then some (returnRead world call.size [] .zero)
      else some (returnRead world call.size [] .again)
  | _ => none

/-- The copy of `read_one_block`: `copy_to_user` moves all that it is asked for, or less of it
where the buffer cannot be written. -/
def copyStep (world : World Byte) (moved : Nat) : Option (World Byte) :=
  let block := world.device.readBlock
  match world.reader with
  | .copy call =>
      if block.length > world.device.readOffset ∧
          moved ≤ min (block.length - world.device.readOffset) call.count then
        if moved = 0 then some (returnRead world call.size [] .fault)
        else
          some { world with
            device := { world.device with readOffset := world.device.readOffset + moved }
            reader := .check
              { call with
                count := call.count - moved
                copied := call.copied ++
                  (List.range' world.device.readOffset moved).map block.memory } }
      else none
  | _ => none

def streamSystem (blockCount : Nat) : Transition.System (World Byte) (Event Byte)
  | world, .dmaWrite byte => dmaWrite world byte
  | world, .interrupt last timeout complete startEvent completion =>
      raiseInterrupt world last timeout complete startEvent completion
  | world, .isr => isrStep blockCount world
  | world, .read size =>
      match world.reader with
      | .idle => some { world with reader := .waiting size }
      | _ => none
  | world, .wake =>
      match world.reader with
      | .waiting size =>
          if world.device.blockReady then
            some { world with reader := .test { size, count := size, copied := [] } }
          else none
      | _ => none
  | world, .giveUp signal =>
      match world.reader with
      | .waiting size =>
          if world.device.blockReady then none
          else some (returnRead world size [] (if signal then .restart else .again))
      | _ => none
  | world, .reader => readerStep blockCount world
  | world, .copyToUser moved => copyStep world moved

end Driver
