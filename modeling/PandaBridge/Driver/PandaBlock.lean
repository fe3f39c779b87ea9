import Mathlib.Algebra.Group.Nat.Defs
import Mathlib.Logic.Function.Basic
import PandaBridge.Transition.System

/-! The table device: a channel whose buffers go from the free list through a request, the queue
and the hardware back to the free list. Requests hold no lock while they copy their data, so
interrupts and other requests come between their two parts. -/
namespace Driver

/-- A configured channel: the bits of `size_t`, the bytes of a buffer and the number of buffers,
all of them in memory at once. -/
structure BlockSetup where
  width : Nat
  blockSize : Nat
  nbuffers : Nat
  wide : 32 ≤ width
  inMemory : nbuffers * blockSize ≤ 2 ^ width

/-- `buffer_info`, without its addresses. -/
structure BufferInfo where
  length : Nat
  more : Bool
  deriving DecidableEq

/-- `panda_block_send_request`, without its data. -/
structure SendRequest where
  length : Nat
  more : Bool
  deriving DecidableEq

/-- What is written to the two registers of the channel: the buffer, its length and the flag. -/
structure HandedBlock where
  buffer : Nat
  length : Nat
  more : Bool
  deriving DecidableEq

/-- `block_channel`, with its buffers by number. -/
structure BlockChannel where
  free : List Nat
  queue : List Nat
  currentBuffer : Option Nat
  nextBuffer : Option Nat
  nwords : Nat
  completed : Bool
  deriving DecidableEq

/-- The channel with its buffers, the buffers of requests that are under way, and the record of
what was sent and handed since the channel was last emptied and before. -/
structure BlockDevice where
  channel : BlockChannel
  info : Nat → BufferInfo
  calls : List Nat
  sent : List HandedBlock
  handed : List HandedBlock
  earlier : List (List HandedBlock × List HandedBlock)

inductive SendError
  | fault
  | tooLong
  | noBuffer
  | wasCompleted
  deriving DecidableEq

namespace BlockChannel

/-- `free_buffer_locked`. -/
def freeBuffer (channel : BlockChannel) (buffer : Nat) : BlockChannel :=
  { channel with free := buffer :: channel.free }

/-- `block_channel_free_buffers_locked`: the queue, the current and the next buffer. -/
def freeBuffers (channel : BlockChannel) : BlockChannel :=
  let emptied := channel.queue.foldl freeBuffer { channel with queue := [] }
  let current := channel.currentBuffer.toList.foldl freeBuffer { emptied with currentBuffer := none }
  let next := channel.nextBuffer.toList.foldl freeBuffer { current with nextBuffer := none }
  { next with nwords := 0 }

end BlockChannel

namespace BlockDevice

variable (setup : BlockSetup)

/-- A buffer as the hardware sees it. -/
def block (device : BlockDevice) (buffer : Nat) : HandedBlock :=
  ⟨buffer, (device.info buffer).length, (device.info buffer).more⟩

/-- The channel is emptied; what was sent until then is over. -/
def flush (device : BlockDevice) (completed : Bool) : BlockDevice :=
  { device with
    channel := { device.channel.freeBuffers with completed := completed }
    sent := []
    handed := []
    earlier := device.earlier ++ [(device.sent, device.handed)] }

/-- `push_buffer_locked`: nothing when both places are taken. -/
def pushBuffer (device : BlockDevice) (buffer : Nat) : Option BlockDevice :=
  let handed := device.handed ++ [device.block buffer]
  match device.channel.currentBuffer, device.channel.nextBuffer with
  | none, _ =>
      some { device with
        channel := { device.channel with currentBuffer := some buffer }, handed := handed }
  | some _, none =>
      some { device with
        channel := { device.channel with nextBuffer := some buffer }, handed := handed }
  | some _, some _ => none

/-- `send_block` until it copies the data: refused, a reset, or on with a buffer. -/
def sendStart (device : BlockDevice) (copied : Bool) (request : SendRequest) :
    BlockDevice × Except SendError (Option Nat) :=
  if ¬ copied then (device, .error .fault)
  else if ¬ request.length * 4 % 2 ^ setup.width ≤ setup.blockSize then (device, .error .tooLong)
  else if request.length = 0 then (device.flush false, .ok none)
  else
    match device.channel.free with
    | [] => (device, .error .noBuffer)
    | buffer :: free =>
        ({ device with
            channel := { device.channel with free := free }
            info := Function.update device.info buffer ⟨request.length, request.more⟩
            calls := buffer :: device.calls }, .ok (some buffer))

/-- `send_block` from the copy of the data on. -/
def sendFinish (device : BlockDevice) (buffer : Nat) (copied : Bool) :
    BlockDevice × Option SendError :=
  let returned := { device with calls := device.calls.erase buffer }
  if ¬ copied then (returned, some .fault)
  else if device.channel.completed then
    ({ returned with channel := device.channel.freeBuffer buffer }, some .wasCompleted)
  else
    let counted := { returned with
      channel := { device.channel with
        nwords := (device.channel.nwords + (device.info buffer).length) % 2 ^ setup.width
        completed := !(device.info buffer).more }
      sent := device.sent ++ [device.block buffer] }
    match counted.pushBuffer buffer with
    | some pushed => (pushed, none)
    | none =>
        ({ counted with
            channel := { counted.channel with queue := buffer :: counted.channel.queue } }, none)

/-- The first part of the ready branch of `block_isr`: the current block is released. -/
def releaseCurrent (device : BlockDevice) : BlockDevice :=
  match device.channel.currentBuffer, device.channel.nextBuffer with
  | some buffer, some next =>
      { device with
        channel := { device.channel with
          currentBuffer := some next
          nextBuffer := none
          nwords := (device.channel.nwords + (2 ^ setup.width - (device.info buffer).length)) %
            2 ^ setup.width
          free := buffer :: device.channel.free } }
  | _, _ => device

/-- The second part: the oldest queued block goes to the hardware. -/
def pushQueued (device : BlockDevice) : BlockDevice :=
  match device.channel.queue.getLast? with
  | none => device
  | some buffer =>
      let popped := { device with
        channel := { device.channel with queue := device.channel.queue.dropLast } }
      (popped.pushBuffer buffer).getD { popped with channel := popped.channel.freeBuffer buffer }

/-- `block_isr` on this channel, by its two bits of the status. -/
def blockIsr (device : BlockDevice) (completed ready : Bool) : BlockDevice :=
  if completed then device.flush true
  else if ready then (device.releaseCurrent setup).pushQueued
  else device

end BlockDevice

/-- A request starts, a request goes on with its copy done or failed, or an interrupt. -/
inductive BlockEvent
  | send (copied : Bool) (request : SendRequest)
  | finish (buffer : Nat) (copied : Bool)
  | irq (completed ready : Bool)
  deriving DecidableEq

/-- The channel under requests and interrupts. -/
def blockSystem (setup : BlockSetup) : Transition.System BlockDevice BlockEvent :=
  fun device event =>
    match event with
    | .send copied request => some (device.sendStart setup copied request).1
    | .finish buffer copied =>
        if buffer ∈ device.calls then some (device.sendFinish setup buffer copied).1 else none
    | .irq completed ready => some (device.blockIsr setup completed ready)

/-- The channel after `config_block`. -/
def BlockSetup.start (setup : BlockSetup) (info : Nat → BufferInfo) : BlockDevice where
  channel :=
    { free := (List.range setup.nbuffers).reverse
      queue := []
      currentBuffer := none
      nextBuffer := none
      nwords := 0
      completed := false }
  info := info
  calls := []
  sent := []
  handed := []
  earlier := []

end Driver
