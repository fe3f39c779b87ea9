import Mathlib.Data.BitVec

/-! The driver's side of a long table: a DMA channel with its buffers, the request that sends
a block to it or resets it, and the two interrupts of the hardware. -/
namespace Server

abbrev Word := BitVec 32

/-- `buffer_info`: the words of one block and whether more blocks follow. -/
structure BufferInfo where
  data : List Word
  more : Bool
  deriving DecidableEq

/-- The writes to the hardware registers of a table. The address stands for the block it
points to. -/
inductive RegisterWrite
  | address (block : List Word)
  | length (words : Nat) (more : Bool)
  | shortReset
  | shortFill (word : Word)
  | shortLength (words : Nat)
  deriving DecidableEq

/-- `block_channel`; of the free buffers only their number counts. -/
structure BlockChannel where
  free : Nat
  queue : List BufferInfo
  currentBuffer : Option BufferInfo
  nextBuffer : Option BufferInfo
  nwords : Nat
  completed : Bool
  registers : List RegisterWrite
  deriving DecidableEq

inductive SendError
  | tooLong
  | noFreeBuffer
  | wasCompleted
  deriving DecidableEq

namespace BlockChannel

/-- `block_channel_free_buffers_locked`. -/
def freeBuffers (channel : BlockChannel) : BlockChannel :=
  { channel with
    free := channel.free + channel.queue.length + channel.currentBuffer.toList.length +
      channel.nextBuffer.toList.length
    queue := []
    currentBuffer := none
    nextBuffer := none
    nwords := 0 }

/-- `reset_dma_locked`. -/
def reset (channel : BlockChannel) : BlockChannel :=
  { channel.freeBuffers with
    completed := false
    registers := channel.registers ++ [.length 0 false] }

/-- `push_buffer_locked`: the hardware is told of the current and of the next block. -/
def pushBuffer (channel : BlockChannel) (buffer : BufferInfo) : Option BlockChannel :=
  let registers := channel.registers ++ [.address buffer.data, .length buffer.data.length buffer.more]
  match channel.currentBuffer, channel.nextBuffer with
  | none, _ => some { channel with currentBuffer := some buffer, registers }
  | some _, none => some { channel with nextBuffer := some buffer, registers }
  | some _, some _ => none

/-- `send_block`. A request without data resets the channel. -/
def sendBlock (blockSize : Nat) (channel : BlockChannel) (data : List Word) (more : Bool) :
    BlockChannel × Option SendError :=
  if blockSize < data.length * 4 then (channel, some .tooLong)
  else if data.length = 0 then (channel.reset, none)
  else if channel.free = 0 then (channel, some .noFreeBuffer)
  else if channel.completed then (channel, some .wasCompleted)
  else
    let buffer : BufferInfo := ⟨data, more⟩
    let taken :=
      { channel with
        free := channel.free - 1
        nwords := channel.nwords + data.length
        completed := channel.completed || !more }
    match taken.pushBuffer buffer with
    | some pushed => (pushed, none)
    | none => ({ taken with queue := buffer :: taken.queue }, none)

/-- The completion branch of `block_isr`. -/
def completeIrq (channel : BlockChannel) : BlockChannel :=
  { channel.freeBuffers with completed := true }

/-- The ready branch of `block_isr`: the current block is done, and the oldest queued one is
pushed. -/
def readyIrq (channel : BlockChannel) : BlockChannel :=
  let advanced :=
    match channel.currentBuffer, channel.nextBuffer with
    | some done, some next =>
        { channel with
          currentBuffer := some next
          nextBuffer := none
          nwords := channel.nwords - done.data.length
          free := channel.free + 1 }
    | _, _ => channel
  match advanced.queue.getLast? with
  | none => advanced
  | some buffer =>
      let popped := { advanced with queue := advanced.queue.dropLast }
      (popped.pushBuffer buffer).getD { popped with free := popped.free + 1 }

variable (blockSize : Nat) (channel : BlockChannel) (data : List Word) (more : Bool)

theorem sendBlock_refused (hRefused : (channel.sendBlock blockSize data more).2 ≠ none) :
    (channel.sendBlock blockSize data more).1 = channel := by
  unfold sendBlock at hRefused ⊢
  simp only at hRefused ⊢
  split_ifs at hRefused ⊢ with hLong hEmpty hFree hCompleted
  · rfl
  · exact absurd rfl hRefused
  · rfl
  · rfl
  · split at hRefused
    · exact absurd rfl hRefused
    · exact absurd rfl hRefused

theorem sendBlock_accepted (hData : data ≠ [])
    (hAccepted : (channel.sendBlock blockSize data more).2 = none) :
    channel.completed = false ∧ (channel.sendBlock blockSize data more).1.completed = !more := by
  unfold sendBlock at hAccepted ⊢
  simp only at hAccepted ⊢
  split_ifs at hAccepted ⊢ with hLong hEmpty hFree hCompleted
  · exact absurd (List.length_eq_zero_iff.mp hEmpty) hData
  · refine ⟨by simpa using hCompleted, ?_⟩
    unfold pushBuffer
    cases channel.currentBuffer <;> cases channel.nextBuffer <;> simp [hCompleted]

theorem sendBlock_refused_iff (hData : data ≠ []) (hFits : data.length * 4 ≤ blockSize)
    (hFree : channel.free ≠ 0) :
    (channel.sendBlock blockSize data more).2 ≠ none ↔ channel.completed = true := by
  have hLength : data.length ≠ 0 := mt List.length_eq_zero_iff.mp hData
  unfold sendBlock
  simp only [if_neg (Nat.not_lt.mpr hFits), if_neg hLength, if_neg hFree]
  split_ifs with hCompleted
  · exact ⟨fun _ => hCompleted, fun _ => nofun⟩
  · constructor
    · intro hRefused
      split at hRefused
      · exact absurd rfl hRefused
      · exact absurd rfl hRefused
    · intro h
      exact absurd h hCompleted

theorem readyIrq_completed : channel.readyIrq.completed = channel.completed := by
  obtain ⟨free, queue, current, next, nwords, completed, registers⟩ := channel
  unfold readyIrq pushBuffer
  cases hLast : queue.getLast? with
  | none => cases current <;> cases next <;> simp [hLast]
  | some buffer => cases current <;> cases next <;> simp [hLast]

end BlockChannel

end Server
