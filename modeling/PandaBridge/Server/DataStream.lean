import PandaBridge.Concurrent.Thread
import PandaBridge.Server.CaptureBuffer

/-! The thread that sends captured data to one client. Its accesses to the ring, to the
memory of a block and to the socket are requests; all the rest is its own state. Bytes are
loaded from a block one at a time, so that the writer may come in between. -/
namespace Server

open Concurrent

/-- `NET_BUF_SIZE`. -/
def netBufSize : Nat := 65536

/-- `DATA_BLOCK_SIZE`. -/
def dataBlockSize : Nat := 2 ^ 21

/-- What a connection's conversion is: the lengths of a raw and of a converted sample, the
bytes of the header in front of the output, and the conversion of one sample as the offsets
it loads and what it makes of the bytes. -/
structure StreamConfig where
  blockCount : Nat
  raw : Nat
  binary : Nat
  header : Nat
  loads : List Nat
  emit : List UInt8 → List UInt8
  raw_pos : 0 < raw
  binary_pos : 0 < binary
  fits : header + binary ≤ netBufSize
  loads_inside : ∀ offset ∈ loads, offset < raw
  emit_length : ∀ bytes, bytes.length = loads.length → (emit bytes).length = binary

/-- The conversion of a sample that is at hand as a whole. -/
def StreamConfig.convert (config : StreamConfig) (sample : List UInt8) : List UInt8 :=
  config.emit (config.loads.map fun offset => sample.getD offset 0)

/-- A transmission: the count that goes into a frame header, and the bytes behind it. -/
structure Frame where
  length : Nat
  payload : List UInt8
  deriving DecidableEq

/-- `data_capture_state` with the reader and the progress of the stream. `index` counts the
blocks that the reader has stepped over; the code does not have it. -/
structure StreamState where
  reader : ReaderState
  index : Nat
  skipBytes : Nat
  sampleBuffer : List UInt8
  outputBuffer : List UInt8
  frames : List Frame
  sentSamples : Nat
  deriving DecidableEq

/-- Everything sent so far, without the headers. -/
def StreamState.payload (state : StreamState) : List UInt8 := state.frames.flatMap Frame.payload

/-- The accesses of the thread. A byte that is `kept` goes into `sample_buffer` and stays
there when the block is given up. -/
inductive StreamRequest
  | lock
  | measure (slot : Nat)
  | load (kept : Bool) (slot offset : Nat)
  | socket
  deriving DecidableEq

/-- Under the mutex the thread reads the ring; the socket answers whether it is still good. -/
def StreamAnswer : StreamRequest → Type
  | .lock => CaptureBuffer
  | .measure _ => Nat
  | .load _ _ _ => UInt8
  | .socket => Bool

abbrev StreamCode := Code StreamState StreamRequest StreamAnswer

def lockRing : StreamCode CaptureBuffer := Code.ask StreamRequest.lock

def readWritten (slot : Nat) : StreamCode Nat := Code.ask (StreamRequest.measure slot)

def loadByte (kept : Bool) (slot offset : Nat) : StreamCode UInt8 :=
  Code.ask (StreamRequest.load kept slot offset)

def askSocket : StreamCode Bool := Code.ask StreamRequest.socket

/-- `memcpy` from a block. -/
def copyBytes (kept : Bool) (slot offset count : Nat) : StreamCode (List UInt8) :=
  Code.forEach (fun i => loadByte kept slot (offset + i)) (List.range count)

section Blocks

variable (config : StreamConfig)

/-- A look at the ring under its mutex, which may set the reader's status. -/
def lookAtRing (check : ReaderState → CaptureBuffer → ReaderState × Bool) : StreamCode Bool := do
  let ring ← lockRing
  let state ← Code.get
  Code.modify fun state => { state with reader := (check state.reader ring).1 }
  pure (check state.reader ring).2

def checkBlockStatus (cycle : BitVec 32) (outPtr : Nat) : StreamCode Bool :=
  lookAtRing fun reader ring => reader.checkBlockStatus ring cycle outPtr

/-- `check_read_block`: the check of the reader's current block. -/
def checkReadBlock : StreamCode Bool :=
  lookAtRing fun reader ring => reader.checkReadBlock config.blockCount ring

/-- The conversion of one sample behind a pointer. -/
def convertSample (fetch : Nat → StreamCode UInt8) (start : Nat) : StreamCode (List UInt8) := do
  let bytes ← Code.forEach (fun offset => fetch (start + offset)) config.loads
  pure (config.emit bytes)

/-- `process_samples`: as many of the `length` bytes behind a pointer as fit into the output
buffer. Returns the number of samples. -/
def processSamples (fetch : Nat → StreamCode UInt8) (length : Nat) : StreamCode Nat := do
  let state ← Code.get
  let freeSpace := netBufSize - (config.header + state.outputBuffer.length)
  let sampleCount := min (length / config.raw) (freeSpace / config.binary)
  let converted ←
    Code.forEach (fun i => convertSample config fetch (config.raw * i)) (List.range sampleCount)
  Code.modify fun state => { state with outputBuffer := state.outputBuffer ++ converted.flatten }
  pure sampleCount

/-- A pointer into the sample buffer. -/
def fetchSample (sample : List UInt8) (offset : Nat) : StreamCode UInt8 :=
  pure (sample.getD offset 0)

/-- `process_single_sample`: the samples made and the bytes taken from the block. -/
def processSingleSample (slot offset length : Nat) : StreamCode (Nat × Nat) := do
  let state ← Code.get
  if 0 < state.sampleBuffer.length then
    let toCopy := min length (config.raw - state.sampleBuffer.length)
    let kept := decide (state.sampleBuffer.length + toCopy < config.raw)
    let copied ← copyBytes kept slot offset toCopy
    let sample := state.sampleBuffer ++ copied
    Code.modify fun state => { state with sampleBuffer := sample }
    if config.raw ≤ state.sampleBuffer.length + toCopy then
      let samples ← processSamples config (fetchSample sample) sample.length
      Code.modify fun state =>
        { state with sampleBuffer := state.sampleBuffer.drop (samples * config.raw) }
      pure (samples, toCopy)
    else pure (0, toCopy)
  else pure (0, 0)

/-- `update_single_sample_buffer`. -/
def updateSingleSampleBuffer (slot offset length : Nat) : StreamCode Unit := do
  let copied ← copyBytes true slot offset length
  Code.modify fun state => { state with sampleBuffer := state.sampleBuffer ++ copied }

/-- `prepare_output_buffer`: the header is in front of the buffer here. -/
def prepareOutputBuffer : StreamCode Unit :=
  Code.modify fun state => { state with outputBuffer := [] }

/-- `send_output_buffer`. -/
def sendOutputBuffer : StreamCode Bool := do
  let sent ← askSocket
  Code.modify fun state =>
    if sent then
      { state with
        frames := state.frames ++
          [{ length := config.header + state.outputBuffer.length, payload := state.outputBuffer }] }
    else state
  pure sent

/-- How a call of `process_capture_block` ends: with the block used up, with an overrun, with
a dead connection, or, as a loop cannot go on forever here, with its fuel spent. -/
inductive BlockOutcome
  | done
  | overrun
  | disconnected
  | exhausted
  deriving DecidableEq

/-- The loop of `process_capture_block` and what follows it. -/
def processLoop (slot : Nat) : (fuel offset length samples : Nat) → StreamCode BlockOutcome
  | 0, _, _, _ => pure .exhausted
  | fuel + 1, offset, length, samples => do
      let count ← processSamples config (fun i => loadByte false slot (offset + i)) length
      let offset := offset + config.raw * count
      let length := length - config.raw * count
      let samples := samples + count
      if 0 < samples then
        let ok ← checkReadBlock config
        if ok then
          let sent ← sendOutputBuffer config
          if sent then
            prepareOutputBuffer
            Code.modify fun state => { state with sentSamples := state.sentSamples + samples }
            if config.raw ≤ length then processLoop slot fuel offset length 0
            else do
              updateSingleSampleBuffer slot offset length
              pure .done
          else pure .disconnected
        else pure .overrun
      else if config.raw ≤ length then processLoop slot fuel offset length 0
      else do
        updateSingleSampleBuffer slot offset length
        pure .done

/-- `process_capture_block`, on `length` bytes at `offset` in a block. -/
def processCaptureBlock (slot offset length : Nat) : StreamCode BlockOutcome := do
  prepareOutputBuffer
  let (samples, taken) ← processSingleSample config slot offset length
  processLoop config slot (length + 2) (offset + taken) (length - taken) samples

/-- `get_read_block`. The wait for a block ends when there is one, at the end of the capture,
or with a timeout. -/
def getReadBlock : StreamCode ReadResult := do
  let state ← Code.get
  if state.reader.status = .closed then
    let ring ← lockRing
    if state.reader.waiting ring then
      if ring.state = .clearing then
        Code.modify fun state => { state with reader := { state.reader with status := .allRead } }
        pure .null
      else pure .timeout
    else
      Code.modify fun state =>
        { state with reader := state.reader.advance config.blockCount, index := state.index + 1 }
      let ok ← checkBlockStatus state.reader.bufferCycle state.reader.outPtr
      if ok then
        let length ← readWritten state.reader.outPtr
        pure (.block state.reader.outPtr length)
      else pure .null
  else pure .null

/-- What `send_data_stream` does with a block. The result says whether it goes on. -/
def sendBlockData (slot length : Nat) : StreamCode Bool := do
  let state ← Code.get
  let skipped := min state.skipBytes length
  Code.modify fun state => { state with skipBytes := state.skipBytes - skipped }
  if 0 < length - skipped then
    let outcome ← processCaptureBlock config slot skipped (length - skipped)
    match outcome with
    | .done => askSocket
    | .overrun => do
        let _ ← askSocket
        pure false
    | .disconnected => pure false
    | .exhausted => pure false
  else askSocket

/-- One turn of the loop of `send_data_stream`: the block, the connection, the data. -/
def sendRound : StreamCode Bool := do
  let result ← getReadBlock config
  match result with
  | .null => pure false
  | .timeout => do
      let connected ← askSocket
      if connected then askSocket else pure false
  | .block slot length => do
      let connected ← askSocket
      if connected then sendBlockData config slot length else pure false

/-- `send_data_stream`, for as many turns as there is time. -/
def sendDataStream : (rounds : Nat) → StreamCode Unit
  | 0 => pure ()
  | rounds + 1 => do
      let goOn ← sendRound config
      if goOn then sendDataStream rounds else pure ()

end Blocks

/-! ### Batches of samples -/

/-- The frame that `send_output_buffer` sends. -/
def StreamConfig.frame (config : StreamConfig) (output : List UInt8) : Frame where
  length := config.header + output.length
  payload := output

/-- The rest of an iteration that has samples: the check, the transmission, the reset. -/
def StreamState.afterSend (config : StreamConfig) (state : StreamState) (samples : Nat) :
    StreamState :=
  { state with
    outputBuffer := []
    frames := state.frames ++ [config.frame state.outputBuffer]
    sentSamples := state.sentSamples + samples }

/-- The number of samples that `process_samples` converts. -/
def StreamConfig.batch (config : StreamConfig) (output : List UInt8) (length : Nat) : Nat :=
  min (length / config.raw) ((netBufSize - (config.header + output.length)) / config.binary)

theorem StreamConfig.convert_piece (config : StreamConfig) (data : List UInt8) (i : Nat) :
    config.emit (config.loads.map fun offset => data.getD (config.raw * i + offset) 0) =
      config.convert ((data.drop (config.raw * i)).take config.raw) := by
  rw [StreamConfig.convert]
  congr 1
  apply List.map_congr_left
  intro offset hOffset
  rw [List.getD_eq_getElem?_getD, List.getD_eq_getElem?_getD,
    List.getElem?_take_of_lt (config.loads_inside offset hOffset), List.getElem?_drop]

/-- A sample always fits into an empty output buffer. -/
theorem StreamConfig.batch_pos (config : StreamConfig) {length : Nat}
    (hSample : config.raw ≤ length) : 0 < config.batch [] length := by
  have hRoom : 0 < (netBufSize - (config.header + ([] : List UInt8).length)) / config.binary := by
    apply Nat.div_pos _ config.binary_pos
    have := config.fits
    rw [List.length_nil]
    omega
  exact Nat.lt_min.mpr ⟨Nat.div_pos hSample config.raw_pos, hRoom⟩

theorem StreamConfig.raw_mul_batch (config : StreamConfig) (output : List UInt8) (length : Nat) :
    config.raw * config.batch output length ≤ length :=
  (Nat.mul_le_mul_left _ (Nat.min_le_left _ _)).trans (Nat.mul_div_le length config.raw)

/-- A single sample in an empty output buffer. -/
theorem StreamConfig.batch_one (config : StreamConfig) : config.batch [] config.raw = 1 := by
  have hPos := config.batch_pos (Nat.le_refl config.raw)
  have hLe : config.batch [] config.raw ≤ config.raw / config.raw := Nat.min_le_left _ _
  rw [Nat.div_self config.raw_pos] at hLe
  omega

end Server
