import PandaBridge.Fpga.PcapDriver

/-! Where every pushed word is: in a buffer given back, in the buffer in use, with the slave, or
still in the FIFO. One predicate for each state of the engine says so. -/
namespace Fpga.PcapDma

variable {Word : Type} {blockSize : BitVec 32}

section Memory

variable {memory : Address → Word} {base : Address}

theorem wordsAt_succ (count : Nat) :
    wordsAt memory base (count + 1) =
      wordsAt memory base count ++ [memory (base + BitVec.ofNat 32 (4 * count))] := by
  simp [wordsAt, List.range_succ]

theorem wordsAt_update {count offset : Nat} (word : Word) (hCount : count ≤ offset)
    (hOffset : offset < 2 ^ 30) :
    wordsAt (Function.update memory (base + BitVec.ofNat 32 (4 * offset)) word) base count =
      wordsAt memory base count := by
  refine List.map_congr_left fun i hi => Function.update_of_ne ?_ _ _
  have hIndex : i < count := List.mem_range.mp hi
  intro hSame
  have hNat := congrArg BitVec.toNat ((BitVec.add_right_inj base).mp hSame)
  rw [BitVec.toNat_ofNat, BitVec.toNat_ofNat, Nat.mod_eq_of_lt (by omega),
    Nat.mod_eq_of_lt (by omega)] at hNat
  omega

theorem wordsAt_landBeats (beats : List Word) {count : Nat} (hCount : count + beats.length ≤ 2 ^ 30) :
    wordsAt (landBeats memory (base + BitVec.ofNat 32 (4 * count)) beats) base
        (count + beats.length) =
      wordsAt memory base count ++ beats := by
  induction beats generalizing memory count with
  | nil => simp [landBeats]
  | cons word rest ih =>
      rw [List.length_cons] at hCount
      have hNext : base + BitVec.ofNat 32 (4 * count) + BitVec.ofNat 32 4 =
          base + BitVec.ofNat 32 (4 * (count + 1)) := by
        rw [BitVec.add_assoc, ← BitVec.ofNat_add, Nat.mul_succ]
      have hLength : count + (word :: rest).length = count + 1 + rest.length := by
        rw [List.length_cons]
        omega
      rw [landBeats, hNext, hLength, ih (by omega), wordsAt_succ,
        wordsAt_update word Nat.le.refl (by omega), Function.update_self]
      simp

end Memory

namespace World

/-- The bursts that fill a buffer. -/
def blocks (blockSize : BitVec 32) : Nat := blockSize.toNat / burstBytes

/-- Sizes of buffers that the counters of the engine can hold. -/
structure Sized (blockSize : BitVec 32) : Prop where
  pos : 0 < blocks blockSize
  lt : blocks blockSize < 2 ^ 19

/-- No burst is under way. -/
structure Idle (w : World Word) : Prop where
  master : w.dma.master = .idle
  slave : w.slave = .idle
  start : w.dma.control.dmaStart = false

/-- Every pushed word is in a buffer given back, among the first words of the buffer in use,
with the slave or in the FIFO. -/
structure Placed (w : World Word) (q : Fifo.Queue Word) (filled : List Word) : Prop where
  pushed : w.pushed = w.delivered ++ filled ++ w.slave.beats ++ q.entries
  landed : wordsAt w.memory w.inUse filled.length = filled

/-- The engine waits for data. -/
structure Waiting (blockSize : BitVec 32) (w : World Word) (q : Fifo.Queue Word)
    (filled : List Word) : Prop where
  count : w.dma.control.sampleCount = filled.length
  room : w.dma.control.tlpCount < blocks blockSize
  length : filled.length ≤ 16 * w.dma.control.tlpCount
  full : w.dma.control.lastTlp = false → filled.length = 16 * w.dma.control.tlpCount
  address : w.dma.control.axiAwaddr = w.inUse + BitVec.ofNat 32 (64 * w.dma.control.tlpCount)
  last : w.dma.control.lastTlp = true → w.dma.pcapCompleted = true ∧ q.entries = []

/-- The address of the burst has been offered and perhaps taken. -/
def AddressOffered (w : World Word) (beats : Nat) : Prop :=
  w.dma.master.awvalid = true ∧ w.slave.address = none ∨
    w.dma.master.awvalid = false ∧ w.slave.address = some (w.dma.control.axiAwaddr, beats - 1)

/-- Some beats have been taken, or all of them. -/
def DataOffered (w : World Word) (beats : Nat) : Prop :=
  w.dma.master.wvalid = true ∧ w.dma.master.wlenCount = w.slave.beats.length ∧
      w.slave.beats.length < beats ∧ w.slave.last = false ∨
    w.dma.master.wvalid = false ∧ w.dma.master.wlenCount = 0 ∧
      w.slave.beats.length = beats ∧ w.slave.last = true

/-- A burst of some beats is under way. -/
structure Bursting (blockSize : BitVec 32) (w : World Word) (q : Fifo.Queue Word)
    (filled : List Word) (beats : Nat) : Prop where
  beats_pos : 0 < beats
  beats_le : beats ≤ 16
  burstLen : w.dma.control.burstLen = beats
  count : w.dma.control.sampleCount = filled.length + beats
  room : w.dma.control.tlpCount < blocks blockSize
  length : filled.length = 16 * w.dma.control.tlpCount
  address : w.dma.control.axiAwaddr = w.inUse + BitVec.ofNat 32 (64 * w.dma.control.tlpCount)
  partly : beats < 16 → w.dma.timeout.pcapTimeoutLatch = true ∨ w.dma.control.lastTlp = true
  last : w.dma.control.lastTlp = true →
    w.dma.pcapCompleted = true ∧ w.slave.beats.length + q.entries.length = beats
  enough : beats ≤ w.slave.beats.length + q.entries.length
  shown : w.slave.beats.length < beats → q.shown.isSome = true
  stage : w.dma.control.dmaStart = true ∧ w.dma.master = .idle ∧ w.slave = .idle ∨
    w.dma.control.dmaStart = false ∧ w.AddressOffered beats ∧ w.DataOffered beats

/-- A burst has landed. -/
structure Finished (blockSize : BitVec 32) (w : World Word) (q : Fifo.Queue Word)
    (filled : List Word) : Prop where
  count : w.dma.control.sampleCount = filled.length
  some : 0 < w.dma.control.tlpCount
  room : w.dma.control.tlpCount ≤ blocks blockSize
  length : filled.length ≤ 16 * w.dma.control.tlpCount
  full : w.dma.timeout.pcapTimeoutLatch = false → w.dma.control.lastTlp = false →
    filled.length = 16 * w.dma.control.tlpCount
  address : w.dma.control.axiAwaddr =
    w.inUse + BitVec.ofNat 32 (64 * (w.dma.control.tlpCount - 1))
  last : w.dma.control.lastTlp = true → w.dma.pcapCompleted = true ∧ q.entries = []

/-- The engine interrupts. Only after an error are there words left for the last time. -/
structure Interrupting (blockSize : BitVec 32) (w : World Word) (q : Fifo.Queue Word)
    (filled : List Word) : Prop where
  count : w.dma.control.sampleCount = filled.length
  room : w.dma.control.tlpCount ≤ blocks blockSize
  length : filled.length ≤ 16 * w.dma.control.tlpCount
  goes : w.dma.timeout.pcapTimeoutLatch = false → w.dma.control.lastTlp = false →
    filled.length = 16 * w.dma.control.tlpCount
  address : w.dma.timeout.pcapTimeoutLatch = false →
    w.dma.control.tlpCount < blocks blockSize → w.dma.control.axiAwaddr =
      w.inUse + BitVec.ofNat 32 (64 * w.dma.control.tlpCount)
  last : w.dma.control.lastTlp = true →
    w.dma.pcapCompleted = true ∧ (q.entries = [] ∨ (w.status.dma || w.status.framing) = true)

/-- Where the words are, in each state of the engine. -/
def Phase (blockSize : BitVec 32) (w : World Word) (q : Fifo.Queue Word) : Prop :=
  match w.dma.control.fsm with
  | .init => w.Idle ∧ w.Placed q [] ∧ w.pushed = [] ∧ w.dma.control.sampleCount = 0 ∧
      w.dma.control.tlpCount = 0 ∧ w.dma.control.lastTlp = false
  | .actv => ∃ filled, w.Idle ∧ w.Placed q filled ∧ w.Waiting blockSize q filled
  | .doDma => ∃ filled beats, w.Placed q filled ∧ w.Bursting blockSize q filled beats
  | .isFinished => ∃ filled, w.Idle ∧ w.Placed q filled ∧ w.Finished blockSize q filled
  | .irq => ∃ filled, w.Idle ∧ w.Placed q filled ∧ w.Interrupting blockSize q filled
  | .completed => w.Idle ∧ ∃ rest, w.pushed = w.delivered ++ rest

/-! What a clock does to the FIFO, to the slave and to the memory. -/
section Edge

variable {w : World Word} {e : Env Word} {q : Fifo.Queue Word} {filled : List Word}

/-- The queue after a clock. -/
def nextQueue (blockSize : BitVec 32) (w : World Word) (e : Env Word) (q : Fifo.Queue Word) :
    Fifo.Queue Word :=
  q.step w.dma.fifo (fifoPorts w.dma (w.input blockSize e))

/-- The word pushed at this clock, if any. -/
def pushes (e : Env Word) : List Word := if e.wstb then [e.dat] else []

/-- A beat is taken at this clock. -/
def beatTaken (blockSize : BitVec 32) (w : World Word) (e : Env Word) : Bool :=
  AxiWriteMaster.wnext w.dma.master (masterPorts w.dma (w.input blockSize e))

theorem pushed_step (w : World Word) (e : Env Word) :
    (w.step blockSize e).pushed = w.pushed ++ pushes e := by
  cases hPush : e.wstb <;> simp [pushes, hPush]

theorem nextQueue_eq (hLegal : w.Legal e) :
    (w.nextQueue blockSize e q).shown = (q.advance (w.beatTaken blockSize e)).shown ∧
      (w.nextQueue blockSize e q).entries =
        (q.advance (w.beatTaken blockSize e)).entries ++ pushes e := by
  have hQueue : w.nextQueue blockSize e q = (q.advance (w.beatTaken blockSize e)).push
      (Fifo.accepted w.dma.fifo (fifoPorts w.dma (w.input blockSize e))) := rfl
  rw [hQueue, Fifo.Queue.entries_push]
  refine ⟨rfl, ?_⟩
  cases hPush : e.wstb with
  | false => simp [pushes, Fifo.accepted, fifoPorts, hPush]
  | true => simp [pushes, Fifo.accepted, fifoPorts, hPush, (hLegal.push hPush).1]

theorem entries_still (hLegal : w.Legal e) (hStill : w.beatTaken blockSize e = false) :
    (w.nextQueue blockSize e q).entries = q.entries ++ pushes e := by
  rw [(nextQueue_eq hLegal).2, hStill, q.entries_advance false]
  rfl

theorem entries_beat (hLegal : w.Legal e) (hHolds : Fifo.Holds 10 w.dma.fifo q)
    (hBeat : w.beatTaken blockSize e = true) (hShown : q.shown.isSome = true) :
    ∃ rest, q.entries = w.dma.fifo.readDataO :: rest ∧
      (w.nextQueue blockSize e q).entries = rest ++ pushes e := by
  have hData : q.shown = some w.dma.fifo.readDataO := by
    have hRegister := hHolds.shown
    split at hRegister
    · exact hRegister
    · simp [hRegister] at hShown
  refine ⟨(q.advance true).entries, ?_, ?_⟩
  · have hSplit := q.entries_advance true
    rw [hData] at hSplit
    exact hSplit
  · rw [(nextQueue_eq hLegal).2, hBeat]

theorem delivered_keep (hKeep : w.givesBack blockSize e = false) :
    (w.step blockSize e).delivered = w.delivered := by
  rw [delivered, switches_keep hKeep, delivered]

namespace Idle

variable (h : w.Idle)
include h

theorem still : w.beatTaken blockSize e = false := by
  simp [beatTaken, AxiWriteMaster.wnext, h.master, AxiWriteMaster.State.idle]

theorem no_answer (hLegal : w.Legal e) : e.answer = false := by
  refine Bool.eq_false_iff.mpr fun hAnswer => ?_
  have hTaken := (hLegal.answer hAnswer).2
  simp [h.slave, Slave.idle] at hTaken

theorem memory_step (hLegal : w.Legal e) : (w.step blockSize e).memory = w.memory := by
  change w.nextMemory e = w.memory
  simp [nextMemory, h.no_answer hLegal]

theorem slave_step (hLegal : w.Legal e) : (w.step blockSize e).slave = .idle := by
  simp [nextSlave, h.no_answer hLegal, h.master, h.slave, AxiWriteMaster.wnext,
    AxiWriteMaster.wlast, AxiWriteMaster.State.idle, Slave.idle]

theorem master_step : (w.step blockSize e).dma.master = .idle := by
  simp [PcapDma.step, AxiWriteMaster.step, masterPorts, h.master, h.start, AxiWriteMaster.wnext,
    AxiWriteMaster.wlast, AxiWriteMaster.State.idle]

theorem step (hLegal : w.Legal e) (hStart : (w.step blockSize e).dma.control.dmaStart = false) :
    (w.step blockSize e).Idle :=
  ⟨h.master_step, h.slave_step hLegal, hStart⟩

theorem placed_step (hLegal : w.Legal e) (hPlaced : w.Placed q filled)
    (hKeep : w.givesBack blockSize e = false)
    (hBase : filled = [] ∨ (w.step blockSize e).inUse = w.inUse) :
    (w.step blockSize e).Placed (w.nextQueue blockSize e q) filled := by
  constructor
  · rw [pushed_step, delivered_keep hKeep, h.slave_step hLegal, entries_still hLegal h.still,
      hPlaced.pushed, h.slave]
    simp [Slave.idle]
  · rw [h.memory_step hLegal]
    rcases hBase with rfl | hSame
    · rfl
    · rw [hSame]
      exact hPlaced.landed

end Idle

theorem fifoCount_eq (hHolds : Fifo.Holds 10 w.dma.fifo q) :
    fifoCount w.dma = q.entries.length := hHolds.depth_eq (by decide)

theorem transferSize_eq (hHolds : Fifo.Holds 10 w.dma.fifo q) :
    transferSize w.dma = min 16 q.entries.length := by
  have hCount := fifoCount_eq hHolds
  rw [transferSize, hCount, axiBurstMax]
  split <;> omega

end Edge

end World

end Fpga.PcapDma
