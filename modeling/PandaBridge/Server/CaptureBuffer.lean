import Mathlib.Data.BitVec
import Mathlib.Logic.Function.Basic

/-! The ring of captured blocks: what the writer and the readers do to it under its mutex.
The two cycle counters wrap as `unsigned int` does, the count of lost bytes as `uint64_t`. -/
namespace Server

inductive BufferState
  | idle
  | active
  | clearing
  deriving DecidableEq

/-- `capture_buffer`, without its block memory. -/
structure CaptureBuffer where
  releasedOnce : Bool
  captureCycle : BitVec 32
  bufferCycle : BitVec 32
  state : BufferState
  readerCount : Nat
  activeCount : Nat
  inPtr : Nat
  lostBytes : Nat
  written : Nat → Nat

inductive ReaderStatus
  | allRead
  | closed
  | overrun
  deriving DecidableEq

/-- `reader_state`. -/
structure ReaderState where
  captureCycle : BitVec 32
  bufferCycle : BitVec 32
  outPtr : Nat
  status : ReaderStatus
  deriving DecidableEq

namespace CaptureBuffer

variable (blockCount : Nat)

/-- `create_buffer`. -/
def createBuffer : CaptureBuffer where
  releasedOnce := false
  captureCycle := 0
  bufferCycle := 0
  state := .idle
  readerCount := 0
  activeCount := 0
  inPtr := 0
  lostBytes := 0
  written _ := 0

/-! ### The writer -/

def startWrite (buffer : CaptureBuffer) : CaptureBuffer :=
  { buffer with
    bufferCycle := 0
    activeCount := buffer.readerCount
    state := .active
    inPtr := 0
    lostBytes := 0
    releasedOnce := false
    written := fun _ => 0 }

def releaseWriteBlock (buffer : CaptureBuffer) (written : Nat) : CaptureBuffer :=
  { buffer with
    releasedOnce := true
    lostBytes := (buffer.lostBytes + buffer.written buffer.inPtr) % 2 ^ 64
    written := Function.update buffer.written buffer.inPtr written
    inPtr := if blockCount ≤ buffer.inPtr + 1 then 0 else buffer.inPtr + 1
    bufferCycle :=
      if blockCount ≤ buffer.inPtr + 1 then buffer.bufferCycle + 1 else buffer.bufferCycle }

def advanceCapture (buffer : CaptureBuffer) : CaptureBuffer :=
  { buffer with state := .idle, captureCycle := buffer.captureCycle + 1 }

def endWrite (buffer : CaptureBuffer) : CaptureBuffer :=
  if 0 < buffer.activeCount then { buffer with state := .clearing } else buffer.advanceCapture

/-! ### The readers -/

def completeCapture (buffer : CaptureBuffer) : CaptureBuffer :=
  let counted := { buffer with activeCount := buffer.activeCount - 1 }
  if counted.activeCount = 0 ∧ counted.state = .clearing then counted.advanceCapture else counted

def addReader (buffer : CaptureBuffer) : CaptureBuffer :=
  { buffer with
    readerCount := buffer.readerCount + 1
    activeCount := if buffer.state ≠ .idle then buffer.activeCount + 1 else buffer.activeCount }

def removeReader (buffer : CaptureBuffer) (cycle : BitVec 32) : CaptureBuffer :=
  let counted := { buffer with readerCount := buffer.readerCount - 1 }
  if counted.state ≠ .idle ∧ counted.captureCycle = cycle then counted.completeCapture else counted

/-- `read_buffer_status`: busy, and the number of active readers. -/
def readBufferStatus (buffer : CaptureBuffer) : Bool × Nat :=
  (buffer.state ≠ .idle, buffer.activeCount)

/-- The loop of `count_lost_bytes`, at most once around the ring. -/
def countLostFrom (buffer : CaptureBuffer) (outPtr : Nat) : (fuel ix : Nat) → Nat
  | 0, _ => 0
  | fuel + 1, ix =>
      if ix = outPtr then 0
      else
        buffer.written ix +
          buffer.countLostFrom outPtr fuel (if blockCount ≤ ix + 1 then 0 else ix + 1)

def countLostBytes (buffer : CaptureBuffer) (outPtr : Nat) : Nat :=
  (buffer.lostBytes + buffer.countLostFrom blockCount outPtr blockCount buffer.inPtr) % 2 ^ 64

/-- `compute_reader_start`: the cycle, the pointer and the missed bytes. -/
def computeReaderStart (buffer : CaptureBuffer) (readMargin : Nat) : BitVec 32 × Nat × Nat :=
  if buffer.bufferCycle = 0 ∧ buffer.inPtr + readMargin + 1 < blockCount then (0, 0, 0)
  else
    let outPtr := buffer.inPtr + readMargin + 1
    if blockCount ≤ outPtr then
      (buffer.bufferCycle, outPtr - blockCount,
        buffer.countLostBytes blockCount (outPtr - blockCount))
    else (buffer.bufferCycle - 1, outPtr, buffer.countLostBytes blockCount outPtr)

end CaptureBuffer

namespace ReaderState

variable (blockCount : Nat)

/-- `create_reader`, with the cycle that `add_reader` returns. -/
def createReader (cycle : BitVec 32) : ReaderState where
  captureCycle := cycle
  bufferCycle := 0
  outPtr := 0
  status := .allRead

/-- A new capture is there for the reader, and it has data. -/
def ready (reader : ReaderState) (buffer : CaptureBuffer) : Bool :=
  buffer.state ≠ .idle && buffer.captureCycle == reader.captureCycle && buffer.releasedOnce

/-- `open_reader` at the moment its wait ends, with the missed bytes if it succeeds. -/
def openReader (reader : ReaderState) (buffer : CaptureBuffer) (readMargin : Nat) :
    Option (ReaderState × Nat) :=
  if reader.ready buffer then
    let start := buffer.computeReaderStart blockCount readMargin
    some ({ captureCycle := buffer.captureCycle
            bufferCycle := start.1
            outPtr := start.2.1
            status := .closed }, start.2.2)
  else none

/-- The reader's side of `close_reader`. -/
def closeReader (reader : ReaderState) : ReaderState :=
  { reader with captureCycle := reader.captureCycle + 1 }

end ReaderState

/-- `check_overrun_ok`. -/
def checkOverrunOk (bufferCycle readerBufferCycle : BitVec 32) (inPtr outPtr : Nat) : Bool :=
  if inPtr = outPtr then false
  else if outPtr < inPtr then bufferCycle == readerBufferCycle
  else bufferCycle == readerBufferCycle + 1

namespace ReaderState

variable (blockCount : Nat)

/-- `check_block_status`. -/
def checkBlockStatus (reader : ReaderState) (buffer : CaptureBuffer) (cycle : BitVec 32)
    (outPtr : Nat) : ReaderState × Bool :=
  if checkOverrunOk buffer.bufferCycle cycle buffer.inPtr outPtr then (reader, true)
  else ({ reader with status := .overrun }, false)

/-- `check_read_block`: the status of the block before the reader's next one. -/
def checkReadBlock (reader : ReaderState) (buffer : CaptureBuffer) : ReaderState × Bool :=
  if 0 < reader.outPtr then
    reader.checkBlockStatus buffer reader.bufferCycle (reader.outPtr - 1)
  else reader.checkBlockStatus buffer (reader.bufferCycle - 1) (blockCount - 1)

/-- The reader has caught up with the writer. -/
def waiting (reader : ReaderState) (buffer : CaptureBuffer) : Bool :=
  buffer.bufferCycle == reader.bufferCycle && buffer.inPtr == reader.outPtr

/-- The step of `get_read_block` to the next block. -/
def advance (reader : ReaderState) : ReaderState :=
  if blockCount ≤ reader.outPtr + 1 then
    { reader with outPtr := 0, bufferCycle := reader.bufferCycle + 1 }
  else { reader with outPtr := reader.outPtr + 1 }

end ReaderState

/-- What a call of `get_read_block` returns: a slot with a length, the empty dummy block
of a timeout, or nothing. -/
inductive ReadResult
  | block (slot length : Nat)
  | timeout
  | null
  deriving DecidableEq

end Server
