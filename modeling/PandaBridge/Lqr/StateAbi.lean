import PandaBridge.Lqr.GainBuffer

/-! The layout of the exported state window, once as the package of the HDL has
it and once as the C++ reader has it. The two are kept by hand in the source;
here their agreement is a theorem. -/
namespace Lqr

/-! The VHDL package `state_abi`. -/
namespace StateAbiPackage

def wordBytes : Nat := 4
def beatBytes : Nat := 8
def lineBytes : Nat := 32
def wordsPerBeat : Nat := beatBytes / wordBytes
def beatsPerLine : Nat := lineBytes / beatBytes
def seqOff : Nat := 0
def seqBeats : Nat := beatsPerLine
def payloadOff : Nat := lineBytes

/-- The stamp and four words for each axis. -/
def payloadWords (axes : Nat) : Nat := 1 + 4 * axes

/-- The payload in beats, rounded up to whole cache lines. -/
def payloadBeats (axes : Nat) : Nat :=
  let raw := (payloadWords axes + wordsPerBeat - 1) / wordsPerBeat
  let lines := (raw + beatsPerLine - 1) / beatsPerLine
  lines * beatsPerLine

end StateAbiPackage

/-! The C++ `StateAbi`. -/
namespace StateAbi

def wordBytes : Nat := 4
def beatBytes : Nat := 8
def lineBytes : Nat := 32
def seqOff : Nat := 0
def payloadOff : Nat := lineBytes
def stampOff : Nat := payloadOff
def axis0Off : Nat := payloadOff + beatBytes
def axisStride : Nat := 16
def posOff : Nat := 0
def velOff : Nat := 4
def setpOff : Nat := 8
def setvOff : Nat := 12

def axisOff (k : Nat) : Nat := axis0Off + k * axisStride

def bufferBytes (axes : Nat) : Nat :=
  let used := axis0Off + axes * axisStride
  (used + lineBytes - 1) / lineBytes * lineBytes

/-- The word index of a field of axis `k` in the window. -/
def axisWord (k fieldOff : Nat) : Nat := axisOff k / wordBytes + fieldOff / wordBytes

theorem wordBytes_mul_axisWord (k : Nat) {fieldOff : Nat} (hAligned : fieldOff % 4 = 0) :
    wordBytes * axisWord k fieldOff = 40 + 16 * k + fieldOff := by
  simp only [wordBytes, axisWord, axisOff, axis0Off, payloadOff, lineBytes, beatBytes, axisStride]
  omega

def seqWord : Nat := seqOff / wordBytes

def stampWord : Nat := stampOff / wordBytes

theorem axisWord_ne_stampWord (k : Nat) {fieldOff : Nat} (hAligned : fieldOff % 4 = 0) :
    axisWord k fieldOff ≠ stampWord := by
  intro hSame
  have hBytes := wordBytes_mul_axisWord k hAligned
  rw [hSame, show wordBytes * stampWord = 32 from rfl] at hBytes
  omega

end StateAbi

open StateAbiPackage in
/-- Both sides describe the same footprint. -/
theorem payloadOff_add_payloadBeats (axes : Nat) :
    payloadOff + payloadBeats axes * beatBytes = StateAbi.bufferBytes axes := by
  simp only [payloadOff, payloadBeats, payloadWords, wordsPerBeat, beatsPerLine, beatBytes,
    wordBytes, lineBytes, StateAbi.bufferBytes, StateAbi.axis0Off, StateAbi.payloadOff,
    StateAbi.axisStride, StateAbi.lineBytes, StateAbi.beatBytes]
  omega

theorem payload_lt_payloadBeats (axes : Nat) :
    2 * axes < StateAbiPackage.payloadBeats axes := by
  simp only [StateAbiPackage.payloadBeats, StateAbiPackage.payloadWords,
    StateAbiPackage.wordsPerBeat, StateAbiPackage.beatsPerLine, StateAbiPackage.beatBytes,
    StateAbiPackage.wordBytes, StateAbiPackage.lineBytes]
  omega

/-- Memory by the byte address of its 32-bit words. -/
abbrev Memory := Nat → Word

namespace Memory

/-- A 64-bit beat puts its low word first. -/
def writeBeat (mem : Memory) (addr : Nat) (data : BitVec 64) : Memory :=
  Function.update (Function.update mem addr (data.extractLsb' 0 32)) (addr + 4)
    (data.extractLsb' 32 32)

/-- The word of index `i` in the window at `base`. -/
def window (base : Nat) (mem : Memory) (i : Nat) : Word := mem (base + StateAbi.wordBytes * i)

variable (mem : Memory) (addr : Nat) (data : BitVec 64)

@[simp] theorem writeBeat_low : mem.writeBeat addr data addr = data.extractLsb' 0 32 := by
  simp [writeBeat]

@[simp] theorem writeBeat_high : mem.writeBeat addr data (addr + 4) = data.extractLsb' 32 32 := by
  simp [writeBeat]

theorem writeBeat_of_ne {other : Nat} (hLow : other ≠ addr) (hHigh : other ≠ addr + 4) :
    mem.writeBeat addr data other = mem other := by
  simp [writeBeat, hLow, hHigh]

end Memory

end Lqr
