import PandaBridge.Server.StreamSession

/-! What a client that joins late is told it has missed. The bytes before its first block are
counted by the writer as it overwrites blocks, and by the reader over the blocks that remain; the
client then skips to the next whole sample. -/
namespace Server

variable (blockCount : Nat)

/-- The ring after blocks of these lengths were released into a new capture. -/
def releaseBlocks (buffer : CaptureBuffer) (lengths : List Nat) : CaptureBuffer :=
  lengths.foldl (fun buffer written => buffer.releaseWriteBlock blockCount written)
    buffer.startWrite

/-- The count of samples in `wait_for_capture`, with its 64-bit sum. -/
def lostSamples (sampleSize lostBytes : Nat) : Nat :=
  (lostBytes + sampleSize - 1) % 2 ^ 64 / sampleSize

/-- The bytes to skip in `wait_for_capture`. -/
def skipBytes (sampleSize lostBytes : Nat) : Nat :=
  if 0 < lostBytes % sampleSize then sampleSize - lostBytes % sampleSize else 0

/-- What `send_data_stream` makes of the results of `get_read_block` before it first processes
data: the block, counted from the first, and the offset in it. -/
def firstProcessed : (skipBytes : Nat) → List ReadResult → Option (Nat × Nat)
  | _, [] => none
  | _, .null :: _ => none
  | skipBytes, .timeout :: results => firstProcessed skipBytes results
  | skipBytes, .block _ inLength :: results =>
      let skipped := min skipBytes inLength
      if 0 < inLength - skipped then some (0, skipped)
      else (firstProcessed (skipBytes - skipped) results).map fun (block, offset) =>
        (block + 1, offset)

/-- The lengths of the blocks among the results. -/
def blockLengths (results : List ReadResult) : List Nat :=
  results.filterMap fun
    | .block _ length => some length
    | .timeout => none
    | .null => none

/-- The bytes of the blocks before `index`. -/
def bytesBefore (lengths : List Nat) (index : Nat) : Nat := (lengths.take index).sum

/-- The accounting of a reader that opened after these blocks: its first block is in the ring, the
bytes before it are the lost bytes, and what it processes begins with the first sample it has not
reported as lost, whatever is released later. -/
structure MissedExactly (readMargin sampleSize : Nat) (lengths : List Nat) (reader : ReaderState)
    (lostBytes start : Nat) : Prop where
  points : Points blockCount reader.bufferCycle reader.outPtr start
  inRing : lengths.length < start + blockCount
  released : start ≤ lengths.length
  zero : lengths.length + readMargin + 1 ≤ blockCount → start = 0
  lost : lostBytes = bytesBefore lengths start
  aligned : ∀ (later : List Nat) (results : List ReadResult) (block offset : Nat),
    blockLengths results <+: (lengths ++ later).drop start →
      firstProcessed (skipBytes sampleSize lostBytes) results = some (block, offset) →
        bytesBefore (lengths ++ later) (start + block) + offset =
          lostSamples sampleSize lostBytes * sampleSize
  fewest : lostSamples sampleSize lostBytes * sampleSize < bytesBefore lengths start + sampleSize

section Skipping

/-- The bytes that are passed over are the bytes to skip. -/
theorem firstProcessed_offset {skip : Nat} {results : List ReadResult} {block offset : Nat}
    (hFirst : firstProcessed skip results = some (block, offset)) :
    block < (blockLengths results).length ∧
      ((blockLengths results).take block).sum + offset = skip := by
  induction results generalizing skip block with
  | nil => exact absurd hFirst nofun
  | cons result results ih =>
      cases result with
      | null => exact absurd hFirst nofun
      | timeout => exact ih hFirst
      | block slot inLength =>
          simp only [firstProcessed] at hFirst
          have hLengths : blockLengths (.block slot inLength :: results) =
              inLength :: blockLengths results := rfl
          split_ifs at hFirst with hData
          · obtain ⟨rfl, rfl⟩ := Prod.mk.inj (Option.some.inj hFirst)
            rw [hLengths]
            exact ⟨Nat.succ_pos _, by rw [List.take_zero, List.sum_nil]; omega⟩
          · obtain ⟨⟨inner, within⟩, hInner, hPair⟩ := Option.map_eq_some_iff.mp hFirst
            obtain ⟨rfl, rfl⟩ := Prod.mk.inj hPair
            obtain ⟨hLess, hSum⟩ := ih hInner
            rw [hLengths]
            refine ⟨Nat.succ_lt_succ hLess, ?_⟩
            dsimp only at hSum ⊢
            rw [List.take_succ_cons, List.sum_cons]
            omega

theorem firstProcessed_isSome {skip : Nat} {lengths : List Nat} (hEnough : skip < lengths.sum) :
    ∃ first, firstProcessed skip (lengths.map (ReadResult.block 0)) = some first := by
  induction lengths generalizing skip with
  | nil => exact absurd hEnough (Nat.not_lt_zero _)
  | cons inLength lengths ih =>
      rw [List.map_cons, firstProcessed]
      split_ifs with hData
      · exact ⟨_, rfl⟩
      · rw [List.sum_cons] at hEnough
        obtain ⟨first, hFirst⟩ := ih (show skip - min skip inLength < lengths.sum by omega)
        rw [hFirst]
        exact ⟨_, rfl⟩

theorem blockLengths_blocks (lengths : List Nat) :
    blockLengths (lengths.map (ReadResult.block 0)) = lengths := by
  rw [blockLengths, List.filterMap_map]
  exact List.filterMap_some

theorem firstProcessed_stream {skip start : Nat} {lengths : List Nat} {results : List ReadResult}
    {block offset : Nat} (hResults : blockLengths results <+: lengths.drop start)
    (hFirst : firstProcessed skip results = some (block, offset)) :
    bytesBefore lengths (start + block) + offset = bytesBefore lengths start + skip := by
  obtain ⟨hLess, hSum⟩ := firstProcessed_offset hFirst
  obtain ⟨rest, hRest⟩ := hResults
  have hTake : lengths.take (start + block) =
      lengths.take start ++ (blockLengths results).take block := by
    rw [List.take_add, ← hRest, List.take_append_of_le_length hLess.le]
  rw [bytesBefore, hTake, List.sum_append, bytesBefore]
  omega

theorem skipBytes_eq {sampleSize lostBytes : Nat} (hSample : 0 < sampleSize)
    (hRoom : lostBytes + sampleSize ≤ 2 ^ 64) :
    lostBytes + skipBytes sampleSize lostBytes = lostSamples sampleSize lostBytes * sampleSize := by
  have hSplit := Nat.div_add_mod lostBytes sampleSize
  have hLess := Nat.mod_lt lostBytes hSample
  have hSum : (lostBytes + sampleSize - 1) % 2 ^ 64 = lostBytes + sampleSize - 1 :=
    Nat.mod_eq_of_lt (by omega)
  rw [lostSamples, skipBytes, hSum, Nat.mul_comm]
  split_ifs with hExtra
  · have hUp : lostBytes + sampleSize - 1 =
        (lostBytes % sampleSize - 1) + sampleSize * (lostBytes / sampleSize + 1) := by
      rw [Nat.mul_succ]
      omega
    rw [hUp, Nat.add_mul_div_left _ _ hSample, Nat.div_eq_of_lt (by omega), Nat.zero_add,
      Nat.mul_succ]
    omega
  · have hUp : lostBytes + sampleSize - 1 =
        (sampleSize - 1) + sampleSize * (lostBytes / sampleSize) := by omega
    rw [hUp, Nat.add_mul_div_left _ _ hSample, Nat.div_eq_of_lt (by omega), Nat.zero_add]
    omega

theorem skipBytes_lt {sampleSize : Nat} (lostBytes : Nat) (hSample : 0 < sampleSize) :
    skipBytes sampleSize lostBytes < sampleSize := by
  unfold skipBytes
  split_ifs <;> omega

theorem lostSamples_of_wrap {sampleSize lostBytes : Nat} (hWord : sampleSize < 2 ^ 64)
    (hBytes : lostBytes < 2 ^ 64) (hWrap : 2 ^ 64 < lostBytes + sampleSize) :
    lostSamples sampleSize lostBytes * sampleSize < lostBytes := by
  have hSum : (lostBytes + sampleSize - 1) % 2 ^ 64 = lostBytes + sampleSize - 1 - 2 ^ 64 := by
    rw [Nat.mod_eq_sub_mod (by omega), Nat.mod_eq_of_lt (by omega)]
  have hLe := Nat.div_mul_le_self ((lostBytes + sampleSize - 1) % 2 ^ 64) sampleSize
  rw [lostSamples]
  omega

end Skipping

section Counting

theorem bytesBefore_append {lengths : List Nat} {index : Nat} (hIndex : index ≤ lengths.length)
    (more : List Nat) : bytesBefore (lengths ++ more) index = bytesBefore lengths index := by
  rw [bytesBefore, bytesBefore, List.take_append_of_le_length hIndex]

theorem bytesBefore_succ {lengths : List Nat} {index length : Nat}
    (hBlock : lengths[index]? = some length) :
    bytesBefore lengths (index + 1) = bytesBefore lengths index + length := by
  rw [bytesBefore, List.take_add_one, hBlock, List.sum_append, bytesBefore]
  simp

/-- The ring with its counts: slots that were never released are empty, and the lost bytes are
those of the blocks that were overwritten. -/
structure Accounted (buffer : CaptureBuffer) (lengths : List Nat) : Prop where
  holds : Holds blockCount buffer lengths
  unwritten : ∀ slot, lengths.length ≤ slot → buffer.written slot = 0
  lost : buffer.lostBytes = bytesBefore lengths (lengths.length - blockCount) % 2 ^ 64

variable {blockCount}

/-- What a slot holds is the difference that its block makes: nothing for a slot that was not yet
released. -/
theorem Accounted.resident {buffer : CaptureBuffer} {lengths : List Nat}
    (h : Accounted blockCount buffer lengths) {i : Nat} (hSlot : i < blockCount) :
    bytesBefore lengths (lengths.length + i - blockCount) +
        buffer.written ((lengths.length + i) % blockCount) =
      bytesBefore lengths (lengths.length + (i + 1) - blockCount) := by
  rcases Nat.lt_or_ge (lengths.length + i) blockCount with hFirst | hLater
  · rw [Nat.mod_eq_of_lt hFirst, h.unwritten _ (Nat.le_add_right _ _),
      Nat.sub_eq_zero_of_le hFirst.le, Nat.sub_eq_zero_of_le (by omega), Nat.add_zero]
  · have hLess : lengths.length + i - blockCount < lengths.length := by omega
    have hBlock := List.getElem?_eq_getElem hLess
    have hNext : lengths.length + (i + 1) - blockCount =
        lengths.length + i - blockCount + 1 := by omega
    rw [hNext, bytesBefore_succ hBlock, ← h.holds.written _ _ hBlock (by omega),
      Nat.mod_eq_sub_mod hLater]

theorem Accounted.startWrite (buffer : CaptureBuffer) :
    Accounted blockCount buffer.startWrite [] :=
  ⟨Holds.startWrite buffer, fun _ _ => rfl, by simp [bytesBefore, CaptureBuffer.startWrite]⟩

theorem Accounted.release (hCount : 0 < blockCount) {buffer : CaptureBuffer} {lengths : List Nat}
    (h : Accounted blockCount buffer lengths) (written : Nat) :
    Accounted blockCount (buffer.releaseWriteBlock blockCount written) (lengths ++ [written]) := by
  refine ⟨h.holds.release hCount written, fun slot hSlot => ?_, ?_⟩
  · rw [List.length_append, List.length_singleton] at hSlot
    have hIn : buffer.inPtr ≤ lengths.length := by
      rw [h.holds.inPtr]
      exact Nat.mod_le _ _
    rw [CaptureBuffer.releaseWriteBlock]
    dsimp only
    rw [Function.update_of_ne (by omega)]
    exact h.unwritten slot (by omega)
  · have hResident := h.resident hCount
    rw [Nat.add_zero, Nat.zero_add] at hResident
    rw [CaptureBuffer.releaseWriteBlock, List.length_append, List.length_singleton,
      bytesBefore_append (by omega), ← hResident, h.holds.inPtr]
    dsimp only
    rw [h.lost, Nat.mod_add_mod]

theorem accounted_releaseBlocks (hCount : 0 < blockCount) (buffer : CaptureBuffer)
    (lengths : List Nat) :
    Accounted blockCount (releaseBlocks blockCount buffer lengths) lengths := by
  induction lengths using List.reverseRecOn with
  | nil => exact Accounted.startWrite buffer
  | append_singleton lengths written ih =>
      rw [releaseBlocks, List.foldl_append]
      exact ih.release hCount written

theorem next_slot (hCount : 0 < blockCount) (index : Nat) :
    (if blockCount ≤ index % blockCount + 1 then 0 else index % blockCount + 1) =
      (index + 1) % blockCount := by
  split_ifs with hLast
  · exact (Ring.step_wrap hCount hLast).1.symm
  · exact (Ring.step_next (not_le.mp hLast)).1.symm

/-- The loop of `count_lost_bytes` walks from the slot of the writer to the slot `n` on. -/
theorem Accounted.countLostFrom {buffer : CaptureBuffer} {lengths : List Nat}
    (h : Accounted blockCount buffer lengths) {n fuel i : Nat} (hn : n < blockCount) (hi : i ≤ n)
    (hFuel : n < i + fuel) :
    bytesBefore lengths (lengths.length + i - blockCount) +
        buffer.countLostFrom blockCount ((lengths.length + n) % blockCount) fuel
          ((lengths.length + i) % blockCount) =
      bytesBefore lengths (lengths.length + n - blockCount) := by
  induction fuel generalizing i with
  | zero => exact absurd hFuel (by omega)
  | succ fuel ih =>
      rw [CaptureBuffer.countLostFrom]
      rcases Nat.eq_or_lt_of_le hi with rfl | hLess
      · rw [if_pos rfl, Nat.add_zero]
      · have hNe : (lengths.length + i) % blockCount ≠ (lengths.length + n) % blockCount :=
          Ring.slot_ne (by omega) (by omega)
        have hNext := ih (i := i + 1) hLess (by omega)
        rw [if_neg hNe, next_slot (Nat.zero_lt_of_lt hn), ← Nat.add_assoc,
          h.resident (hLess.trans hn)]
        exact hNext

/-- Both parts of the count together, for a start that is less than a ring behind. -/
theorem Accounted.countLostBytes {buffer : CaptureBuffer} {lengths : List Nat}
    (h : Accounted blockCount buffer lengths) {n : Nat} (hn : n < blockCount) :
    buffer.countLostBytes blockCount ((lengths.length + n) % blockCount) =
      bytesBefore lengths (lengths.length + n - blockCount) % 2 ^ 64 := by
  have hWalk := h.countLostFrom hn (Nat.zero_le n) (show n < 0 + blockCount by omega)
  rw [Nat.add_zero] at hWalk
  rw [CaptureBuffer.countLostBytes, h.lost, h.holds.inPtr, Nat.mod_add_mod, hWalk]

/-- The 32-bit count of cycles came back to 0 and the writer is not far into this cycle: the ring
looks as if nothing was overwritten yet. -/
def LooksFresh (blockCount readMargin released : Nat) : Prop :=
  0 < released / blockCount ∧ 2 ^ 32 ∣ released / blockCount ∧
    released % blockCount + readMargin + 1 < blockCount

theorem cycle_eq_zero_iff (lap : Nat) : BitVec.ofNat 32 lap = 0 ↔ 2 ^ 32 ∣ lap := by
  constructor
  · intro hZero
    have hNat := congrArg BitVec.toNat hZero
    rw [BitVec.toNat_ofNat] at hNat
    exact Nat.dvd_of_mod_eq_zero hNat
  · intro hDvd
    apply BitVec.eq_of_toNat_eq
    rw [BitVec.toNat_ofNat]
    exact Nat.mod_eq_zero_of_dvd hDvd

theorem Accounted.reported {buffer : CaptureBuffer} {lengths : List Nat}
    (h : Accounted blockCount buffer lengths) {readMargin : Nat}
    (hMargin : readMargin + 1 < blockCount) :
    (LooksFresh blockCount readMargin lengths.length →
        (buffer.computeReaderStart blockCount readMargin).2.2 = 0) ∧
      (¬LooksFresh blockCount readMargin lengths.length →
        readerStart blockCount readMargin lengths.length =
            lengths.length + (readMargin + 1) - blockCount ∧
          (buffer.computeReaderStart blockCount readMargin).2.2 =
            bytesBefore lengths (readerStart blockCount readMargin lengths.length) % 2 ^ 64) := by
  have hSplit := Nat.mod_add_div lengths.length blockCount
  have hPoints := computeReaderStart_points (by omega) h.holds
    (show readMargin < blockCount by omega)
  have hCount := h.countLostBytes hMargin
  by_cases hRoom : BitVec.ofNat 32 (lengths.length / blockCount) = 0 ∧
      lengths.length % blockCount + readMargin + 1 < blockCount
  · have hReport : (buffer.computeReaderStart blockCount readMargin).2.2 = 0 := by
      rw [CaptureBuffer.computeReaderStart, h.holds.cycle, h.holds.inPtr, if_pos hRoom]
    refine ⟨fun _ => hReport, fun hNot => ?_⟩
    have hLap : lengths.length / blockCount = 0 := by
      by_contra hLap
      exact hNot ⟨Nat.pos_of_ne_zero hLap, (cycle_eq_zero_iff _).mp hRoom.1, hRoom.2⟩
    have hStart : readerStart blockCount readMargin lengths.length = 0 := by
      rw [readerStart, if_pos hRoom, hLap, Nat.zero_mul]
    rw [hLap, Nat.mul_zero] at hSplit
    rw [hReport, hStart]
    exact ⟨by omega, rfl⟩
  · have hNot : ¬LooksFresh blockCount readMargin lengths.length := fun hFresh =>
      hRoom ⟨(cycle_eq_zero_iff _).mpr hFresh.2.1, hFresh.2.2⟩
    have hStart : readerStart blockCount readMargin lengths.length =
        lengths.length + (readMargin + 1) - blockCount := by
      rw [readerStart, if_neg hRoom, Nat.add_assoc]
    refine ⟨fun hFresh => absurd hFresh hNot, fun _ => ⟨hStart, ?_⟩⟩
    have hFull : blockCount ≤ lengths.length + (readMargin + 1) := by
      by_contra hFew
      refine hRoom ⟨?_, ?_⟩
      · rw [Nat.div_eq_of_lt (by omega)]
        rfl
      · have := Nat.mod_le lengths.length blockCount
        omega
    have hWalked : (buffer.computeReaderStart blockCount readMargin).2.2 =
        buffer.countLostBytes blockCount
          (buffer.computeReaderStart blockCount readMargin).2.1 := by
      rw [CaptureBuffer.computeReaderStart, h.holds.cycle, h.holds.inPtr, if_neg hRoom]
      dsimp only
      split_ifs <;> rfl
    rw [hWalked, hPoints.outPtr, hStart, ← Nat.mod_eq_sub_mod hFull, hCount]

end Counting

section Accounting

variable {blockCount}

/-- The slot and the window determine the block. -/
theorem start_unique {released i j slot : Nat} (hi : slot = i % blockCount)
    (hj : slot = j % blockCount) (hiNear : released < i + blockCount) (hiLe : i ≤ released)
    (hjNear : released < j + blockCount) (hjLe : j ≤ released) : i = j := by
  by_contra hNe
  rcases Nat.lt_or_gt_of_ne hNe with hLess | hGreater
  · exact Ring.slot_ne hLess (by omega) (hi.symm.trans hj)
  · exact Ring.slot_ne hGreater (by omega) (hj.symm.trans hi)

theorem readerStart_near {readMargin : Nat} (hMargin : readMargin + 1 < blockCount)
    (released : Nat) : released < readerStart blockCount readMargin released + blockCount := by
  unfold readerStart
  split_ifs
  · have hSplit := Nat.mod_add_div released blockCount
    have hSlot := Nat.mod_lt released (Nat.zero_lt_of_lt hMargin)
    rw [Nat.mul_comm]
    omega
  · omega

theorem readerStart_eq_zero {readMargin released : Nat}
    (hRoom : released + readMargin + 1 ≤ blockCount) :
    readerStart blockCount readMargin released = 0 := by
  unfold readerStart
  split_ifs
  · rw [Nat.div_eq_of_lt (by omega), Nat.zero_mul]
  · omega

/-- Reported and true bytes agree, and the sum of `wait_for_capture` does not wrap: the accounting
is exact. -/
theorem missedExactly_of_reported {readMargin sampleSize : Nat}
    (hMargin : readMargin + 1 < blockCount) (hSample : 0 < sampleSize) {lengths : List Nat}
    {reader : ReaderState} {lostBytes : Nat}
    (hPoints : Points blockCount reader.bufferCycle reader.outPtr
      (readerStart blockCount readMargin lengths.length))
    (hLost : lostBytes =
      bytesBefore lengths (readerStart blockCount readMargin lengths.length))
    (hRoom : lostBytes + sampleSize ≤ 2 ^ 64) :
    MissedExactly blockCount readMargin sampleSize lengths reader lostBytes
      (readerStart blockCount readMargin lengths.length) := by
  have hSkip := skipBytes_eq hSample hRoom
  have hStart := readerStart_le (by omega : readMargin < blockCount) lengths.length
  refine ⟨hPoints, readerStart_near hMargin _, hStart, readerStart_eq_zero, hLost, ?_, ?_⟩
  · intro later results block offset hResults hFirst
    have hStream := firstProcessed_stream hResults hFirst
    rw [bytesBefore_append hStart, ← hLost, hSkip] at hStream
    exact hStream
  · have := skipBytes_lt lostBytes hSample
    omega

/-- The accounting of late joiners is exact exactly where the bytes and the samples fit into 64
bits and the cycle counter has not made the ring look fresh again, or no byte was lost. -/
theorem missed_exactly_iff (blockCount readMargin sampleSize : Nat)
    (hMargin : readMargin + 1 < blockCount) (hSample : 0 < sampleSize)
    (hWord : sampleSize < 2 ^ 64) (buffer : CaptureBuffer) (lengths : List Nat)
    (reader opened : ReaderState) (lostBytes : Nat)
    (hOpen : reader.openReader blockCount (releaseBlocks blockCount buffer lengths) readMargin =
      some (opened, lostBytes)) :
    (∃ start, MissedExactly blockCount readMargin sampleSize lengths opened lostBytes start) ↔
      bytesBefore lengths (readerStart blockCount readMargin lengths.length) + sampleSize ≤ 2 ^ 64 ∧
        (LooksFresh blockCount readMargin lengths.length →
          bytesBefore lengths (readerStart blockCount readMargin lengths.length) = 0) := by
  have hAccounted := accounted_releaseBlocks (by omega : 0 < blockCount) buffer lengths
  obtain ⟨hFresh, hCounted⟩ := hAccounted.reported hMargin
  have hPoints := computeReaderStart_points (by omega) hAccounted.holds
    (show readMargin < blockCount by omega)
  have hStart := readerStart_le (by omega : readMargin < blockCount) lengths.length
  unfold ReaderState.openReader at hOpen
  split_ifs at hOpen
  obtain ⟨rfl, rfl⟩ := Prod.mk.inj (Option.some.inj hOpen)
  constructor
  · rintro ⟨start, hExact⟩
    obtain rfl : start = readerStart blockCount readMargin lengths.length :=
      start_unique hExact.points.outPtr hPoints.outPtr hExact.inRing hExact.released
        (readerStart_near hMargin _) hStart
    by_cases hLooks : LooksFresh blockCount readMargin lengths.length
    · have hZero := hExact.lost.symm.trans (hFresh hLooks)
      exact ⟨by omega, fun _ => hZero⟩
    · refine ⟨?_, fun hFalse => absurd hFalse hLooks⟩
      have hBytes := hExact.lost
      obtain ⟨-, hReport⟩ := hCounted hLooks
      have hLess : bytesBefore lengths (readerStart blockCount readMargin lengths.length) <
          2 ^ 64 := by
        rw [← hBytes, hReport]
        exact Nat.mod_lt _ (by decide)
      by_contra hWrap
      -- One more block with enough data shows where processing begins.
      have hEnough : skipBytes sampleSize
          (bytesBefore lengths (readerStart blockCount readMargin lengths.length)) <
            ((lengths ++ [sampleSize]).drop
              (readerStart blockCount readMargin lengths.length)).sum := by
        rw [List.drop_append_of_le_length hStart, List.sum_append, List.sum_singleton]
        exact (skipBytes_lt _ hSample).trans_le (Nat.le_add_left _ _)
      obtain ⟨⟨block, offset⟩, hFirst⟩ := firstProcessed_isSome hEnough
      have hResults : blockLengths (((lengths ++ [sampleSize]).drop
          (readerStart blockCount readMargin lengths.length)).map (ReadResult.block 0)) <+:
            (lengths ++ [sampleSize]).drop (readerStart blockCount readMargin lengths.length) := by
        rw [blockLengths_blocks]
      have hStream := firstProcessed_stream hResults hFirst
      rw [bytesBefore_append hStart] at hStream
      have hAligned := hExact.aligned [sampleSize] _ block offset hResults (by
        rw [hBytes]
        exact hFirst)
      rw [hStream, hBytes] at hAligned
      have hBehind := lostSamples_of_wrap hWord hLess (by omega)
      omega
  · rintro ⟨hRoom, hNone⟩
    refine ⟨_, missedExactly_of_reported hMargin hSample hPoints ?_ ?_⟩
    · by_cases hLooks : LooksFresh blockCount readMargin lengths.length
      · rw [hNone hLooks]
        exact hFresh hLooks
      · rw [(hCounted hLooks).2]
        exact Nat.mod_eq_of_lt (by omega)
    · by_cases hLooks : LooksFresh blockCount readMargin lengths.length
      · rw [hFresh hLooks]
        omega
      · rw [(hCounted hLooks).2, Nat.mod_eq_of_lt (by omega)]
        exact hRoom

/-- A buffer with one reader connected. -/
def newBuffer : CaptureBuffer := CaptureBuffer.createBuffer.addReader

/-- Late joiners of a ring of two blocks, with samples of four bytes. -/
theorem missed_exactly_two_blocks :
    ∃ opened, (ReaderState.createReader 0).openReader 2 (releaseBlocks 2 newBuffer [3, 3, 3]) 0 =
        some (opened, 6) ∧ ∃ start, MissedExactly 2 0 4 [3, 3, 3] opened 6 start := by
  refine ⟨⟨0, 1, 0, .closed⟩, by decide, ?_⟩
  refine (missed_exactly_iff 2 0 4 (by decide) (by decide) (by decide) newBuffer [3, 3, 3]
    (.createReader 0) ⟨0, 1, 0, .closed⟩ 6 (by decide)).mpr ⟨by decide, fun hFresh => ?_⟩
  exact absurd hFresh.2.2 (by decide)

theorem ready_releaseBlocks (buffer : CaptureBuffer) {lengths : List Nat} (hData : lengths ≠ []) :
    (ReaderState.createReader buffer.captureCycle).ready
      (releaseBlocks blockCount buffer lengths) = true := by
  have hKept : ∀ lengths : List Nat,
      (releaseBlocks blockCount buffer lengths).state = .active ∧
        (releaseBlocks blockCount buffer lengths).captureCycle = buffer.captureCycle := by
    intro lengths
    induction lengths using List.reverseRecOn with
    | nil => exact ⟨rfl, rfl⟩
    | append_singleton lengths written ih =>
        rw [releaseBlocks, List.foldl_append]
        exact ih
  have hReleased : (releaseBlocks blockCount buffer lengths).releasedOnce = true := by
    rw [← List.dropLast_append_getLast hData, releaseBlocks, List.foldl_append]
    rfl
  obtain ⟨hState, hCycle⟩ := hKept lengths
  simp [ReaderState.ready, ReaderState.createReader, hState, hCycle, hReleased]

/-- After `2 ^ 32` cycles of a ring of two blocks a late joiner is told that nothing is lost. -/
theorem missed_nothing_after_wrap :
    ¬∀ (blockCount readMargin sampleSize : Nat) (buffer : CaptureBuffer) (lengths : List Nat)
      (reader opened : ReaderState) (lostBytes : Nat),
      readMargin + 1 < blockCount → 0 < sampleSize → sampleSize < 2 ^ 64 →
        reader.openReader blockCount (releaseBlocks blockCount buffer lengths) readMargin =
          some (opened, lostBytes) →
        ∃ start, MissedExactly blockCount readMargin sampleSize lengths opened lostBytes start := by
  intro hAll
  obtain ⟨lengths, hLengths⟩ : ∃ lengths, lengths = List.replicate (2 * 2 ^ 32) 1 := ⟨_, rfl⟩
  have hCount : lengths.length = 2 * 2 ^ 32 := by rw [hLengths, List.length_replicate]
  have hReady : (ReaderState.createReader newBuffer.captureCycle).ready
      (releaseBlocks 2 newBuffer lengths) = true :=
    ready_releaseBlocks newBuffer fun hNil => by
      rw [hNil, List.length_nil] at hCount
      omega
  have hFresh : LooksFresh 2 0 lengths.length := by
    rw [hCount]
    exact ⟨by decide, by decide, by decide⟩
  have hReport := ((accounted_releaseBlocks (by decide : 0 < 2) newBuffer lengths).reported
    (show 0 + 1 < 2 by decide)).1 hFresh
  obtain ⟨start, hExact⟩ := hAll 2 0 1 newBuffer lengths _ _ _ (by decide) (by decide) (by decide)
    (if_pos hReady)
  have hLost := hExact.lost
  have hNear := hExact.inRing
  have hLe := hExact.released
  rw [hReport, bytesBefore, hLengths, List.take_replicate, List.sum_replicate_nat] at hLost
  rw [hCount] at hNear hLe
  omega

end Accounting

end Server
