import PandaBridge.Ring.Index
import PandaBridge.Server.CaptureBuffer
import PandaBridge.Transition.System

/-! One reader of the ring during one capture. The writer and the reader's calls are cut
at the critical sections of the buffer's mutex; `get_read_block` reads the length of its
block after the last of them. -/
namespace Server

open Transition

/-- The ring after the blocks of these lengths were released. -/
structure Holds (blockCount : Nat) (buffer : CaptureBuffer) (lengths : List Nat) : Prop where
  inPtr : buffer.inPtr = lengths.length % blockCount
  cycle : buffer.bufferCycle = BitVec.ofNat 32 (lengths.length / blockCount)
  written : ∀ b length, lengths[b]? = some length → lengths.length ≤ b + blockCount →
    buffer.written (b % blockCount) = length

/-- A cycle and a pointer that stand for an absolute block index. -/
structure Points (blockCount : Nat) (cycle : BitVec 32) (outPtr index : Nat) : Prop where
  outPtr : outPtr = index % blockCount
  cycle : cycle = BitVec.ofNat 32 (index / blockCount)

/-- Fewer than `2 ^ 32` buffer cycles. -/
def InCycles (blockCount index : Nat) : Prop := index < blockCount * 2 ^ 32

/-- The writer is fewer than `2 ^ 32` buffer cycles ahead of a block. -/
def WithinCycles (blockCount written index : Nat) : Prop :=
  written / blockCount < index / blockCount + 2 ^ 32

/-- Where `open_reader` starts: with the writer's lap while there is room, else with the
margin left before the writer. -/
def readerStart (blockCount readMargin released : Nat) : Nat :=
  if BitVec.ofNat 32 (released / blockCount) = 0 ∧
      released % blockCount + readMargin + 1 < blockCount then
    released / blockCount * blockCount
  else released + readMargin + 1 - blockCount

section Ring

variable {blockCount : Nat} (hCount : 0 < blockCount)

theorem InCycles.lap {index : Nat} (h : InCycles blockCount index) : index / blockCount < 2 ^ 32 :=
  Nat.div_lt_of_lt_mul h

theorem InCycles.within {written : Nat} (h : InCycles blockCount written) (index : Nat) :
    WithinCycles blockCount written index :=
  h.lap.trans_le (Nat.le_add_left _ _)

/-- Laps that are less than `2 ^ 32` apart are told apart by the counters. -/
theorem lap_inj {i j : Nat} (hLe : j ≤ i) (hNear : i < j + 2 ^ 32)
    (hSame : BitVec.ofNat 32 i = BitVec.ofNat 32 j) : i = j := by
  have hNat := congrArg BitVec.toNat hSame
  rw [BitVec.toNat_ofNat, BitVec.toNat_ofNat] at hNat
  omega

theorem lap_succ (lap : Nat) : BitVec.ofNat 32 lap + 1 = BitVec.ofNat 32 (lap + 1) := by
  rw [BitVec.ofNat_add]
  rfl

theorem Holds.startWrite (buffer : CaptureBuffer) : Holds blockCount buffer.startWrite [] :=
  ⟨(Nat.zero_mod _).symm, by simp [CaptureBuffer.startWrite], by simp⟩

theorem waiting_iff {buffer : CaptureBuffer} {lengths : List Nat}
    (h : Holds blockCount buffer lengths) {reader : ReaderState} {index : Nat}
    (hCycles : WithinCycles blockCount lengths.length index)
    (hPoints : Points blockCount reader.bufferCycle reader.outPtr index)
    (hLe : index ≤ lengths.length) :
    reader.waiting buffer = true ↔ index = lengths.length := by
  have hLapLe : index / blockCount ≤ lengths.length / blockCount := Nat.div_le_div_right hLe
  rw [ReaderState.waiting, Bool.and_eq_true, beq_iff_eq, beq_iff_eq, h.cycle, h.inPtr,
    hPoints.cycle, hPoints.outPtr]
  constructor
  · rintro ⟨hCycle, hSlot⟩
    exact Ring.eq_of_slot_lap hSlot.symm (lap_inj hLapLe hCycles hCycle).symm
  · rintro rfl
    exact ⟨rfl, rfl⟩

include hCount

theorem Holds.release {buffer : CaptureBuffer} {lengths : List Nat}
    (h : Holds blockCount buffer lengths) (written : Nat) :
    Holds blockCount (buffer.releaseWriteBlock blockCount written) (lengths ++ [written]) := by
  have hWritten : ∀ b length, (lengths ++ [written])[b]? = some length →
      (lengths ++ [written]).length ≤ b + blockCount →
      Function.update buffer.written buffer.inPtr written (b % blockCount) = length := by
    intro b length hBlock hNear
    rw [List.length_append, List.length_singleton] at hNear
    rcases Nat.lt_or_ge b lengths.length with hOld | hNew
    · rw [List.getElem?_append_left hOld] at hBlock
      rw [Function.update_of_ne, h.written b length hBlock (by omega)]
      rw [h.inPtr]
      exact Ring.slot_ne hOld (by omega)
    · obtain rfl : b = lengths.length := by
        have := (List.getElem?_eq_some_iff.mp hBlock).1
        rw [List.length_append, List.length_singleton] at this
        omega
      rw [← h.inPtr, Function.update_self]
      simpa using hBlock
  rw [CaptureBuffer.releaseWriteBlock]
  rcases Nat.lt_or_ge (lengths.length % blockCount + 1) blockCount with hNext | hLast
  · obtain ⟨hSlot, hLap⟩ := Ring.step_next hNext
    refine ⟨?_, ?_, hWritten⟩
    · simp only [h.inPtr, List.length_append, List.length_singleton]
      rw [if_neg (by omega), hSlot]
    · simp only [h.inPtr, List.length_append, List.length_singleton]
      rw [if_neg (by omega), hLap, h.cycle]
  · obtain ⟨hSlot, hLap⟩ := Ring.step_wrap hCount hLast
    refine ⟨?_, ?_, hWritten⟩
    · simp only [h.inPtr, List.length_append, List.length_singleton]
      rw [if_pos hLast, hSlot]
    · simp only [h.inPtr, List.length_append, List.length_singleton]
      rw [if_pos hLast, hLap, h.cycle, lap_succ]

theorem checkOverrunOk_iff {buffer : CaptureBuffer} {lengths : List Nat}
    (h : Holds blockCount buffer lengths) {cycle : BitVec 32} {outPtr index : Nat}
    (hCycles : WithinCycles blockCount lengths.length index)
    (hPoints : Points blockCount cycle outPtr index)
    (hLess : index < lengths.length) :
    checkOverrunOk buffer.bufferCycle cycle buffer.inPtr outPtr = true ↔
      lengths.length < index + blockCount := by
  rw [Ring.near_iff hCount hLess, h.inPtr, h.cycle, hPoints.outPtr, hPoints.cycle, checkOverrunOk]
  have hLapLe : index / blockCount ≤ lengths.length / blockCount :=
    Nat.div_le_div_right hLess.le
  split_ifs with hSame hAhead
  · simp [hSame]
  · rw [beq_iff_eq]
    constructor
    · intro hCycle
      exact .inl ⟨hAhead, lap_inj hLapLe hCycles hCycle⟩
    · rintro (⟨_, hCycle⟩ | ⟨hBehind, _⟩)
      · rw [hCycle]
      · omega
  · rw [beq_iff_eq, lap_succ]
    constructor
    · intro hCycle
      have hStrict : index / blockCount ≠ lengths.length / blockCount := by
        intro hEq
        have hIndex := Nat.mod_add_div index blockCount
        have hLength := Nat.mod_add_div lengths.length blockCount
        rw [hEq] at hIndex
        omega
      have hBefore : lengths.length / blockCount < index / blockCount + 1 + 2 ^ 32 :=
        hCycles.trans (by omega)
      exact .inr ⟨by omega, lap_inj (by omega) hBefore hCycle⟩
    · rintro (⟨hAhead', _⟩ | ⟨_, hCycle⟩)
      · omega
      · rw [hCycle]

theorem Points.advance {reader : ReaderState} {index : Nat}
    (h : Points blockCount reader.bufferCycle reader.outPtr index) :
    Points blockCount (reader.advance blockCount).bufferCycle (reader.advance blockCount).outPtr
      (index + 1) := by
  unfold ReaderState.advance
  rcases Nat.lt_or_ge (index % blockCount + 1) blockCount with hNext | hLast
  · obtain ⟨hSlot, hLap⟩ := Ring.step_next hNext
    rw [if_neg (by rw [h.outPtr]; omega)]
    exact ⟨by rw [hSlot, h.outPtr], by rw [hLap, h.cycle]⟩
  · obtain ⟨hSlot, hLap⟩ := Ring.step_wrap hCount hLast
    rw [if_pos (by rw [h.outPtr]; omega)]
    exact ⟨hSlot.symm, by rw [hLap, h.cycle, lap_succ]⟩

theorem checkReadBlock_eq {reader : ReaderState} {index : Nat}
    (h : Points blockCount reader.bufferCycle reader.outPtr (index + 1)) (buffer : CaptureBuffer) :
    ∃ cycle outPtr, Points blockCount cycle outPtr index ∧
      reader.checkReadBlock blockCount buffer = reader.checkBlockStatus buffer cycle outPtr := by
  unfold ReaderState.checkReadBlock
  rcases Nat.lt_or_ge (index % blockCount + 1) blockCount with hNext | hLast
  · obtain ⟨hSlot, hLap⟩ := Ring.step_next hNext
    refine ⟨reader.bufferCycle, reader.outPtr - 1, ⟨?_, ?_⟩, ?_⟩
    · rw [h.outPtr, hSlot]
      rfl
    · rw [h.cycle, hLap]
    · rw [if_pos (by rw [h.outPtr, hSlot]; omega)]
  · obtain ⟨hSlot, hLap⟩ := Ring.step_wrap hCount hLast
    refine ⟨reader.bufferCycle - 1, blockCount - 1, ⟨?_, ?_⟩, ?_⟩
    · have := Nat.mod_lt index hCount
      omega
    · rw [h.cycle, hLap, ← lap_succ, BitVec.add_sub_cancel]
    · rw [if_neg (by rw [h.outPtr, hSlot]; omega)]

omit hCount in
theorem readerStart_le {readMargin : Nat} (hMargin : readMargin < blockCount) (released : Nat) :
    readerStart blockCount readMargin released ≤ released := by
  unfold readerStart
  split_ifs
  · exact Nat.div_mul_le_self _ _
  · omega

theorem computeReaderStart_points {buffer : CaptureBuffer} {lengths : List Nat}
    (h : Holds blockCount buffer lengths)
    {readMargin : Nat} (hMargin : readMargin < blockCount) :
    Points blockCount (buffer.computeReaderStart blockCount readMargin).1
      (buffer.computeReaderStart blockCount readMargin).2.1
      (readerStart blockCount readMargin lengths.length) := by
  have hSplit := Nat.mod_add_div lengths.length blockCount
  have hSlot := Nat.mod_lt lengths.length hCount
  unfold CaptureBuffer.computeReaderStart readerStart
  simp only [h.inPtr, h.cycle]
  split_ifs with hRoom hWrap
  · refine ⟨?_, ?_⟩
    · rw [Nat.mul_mod_left]
    · rw [Nat.mul_div_cancel _ hCount]
      exact hRoom.1.symm
  · have hOut : lengths.length % blockCount + readMargin + 1 - blockCount < blockCount := by omega
    obtain ⟨hPtr, hLap⟩ := Ring.of_slot_lap (lengths.length / blockCount) hOut
    have hIndex : lengths.length + readMargin + 1 - blockCount =
        lengths.length % blockCount + readMargin + 1 - blockCount +
          blockCount * (lengths.length / blockCount) := by omega
    rw [hIndex]
    exact ⟨hPtr.symm, by rw [hLap]⟩
  · have hOut : lengths.length % blockCount + readMargin + 1 < blockCount := by omega
    obtain ⟨lap, hLapEq⟩ : ∃ lap, lengths.length / blockCount = lap + 1 := by
      apply Nat.exists_eq_succ_of_ne_zero
      intro hZero
      exact hRoom ⟨by rw [hZero]; rfl, hOut⟩
    obtain ⟨hPtr, hLap⟩ := Ring.of_slot_lap lap hOut
    have hIndex : lengths.length + readMargin + 1 - blockCount =
        lengths.length % blockCount + readMargin + 1 + blockCount * lap := by
      rw [hLapEq, Nat.mul_succ] at hSplit
      omega
    rw [hIndex]
    exact ⟨hPtr.symm, by rw [hLap, hLapEq, ← lap_succ, BitVec.add_sub_cancel]⟩

end Ring

end Server
