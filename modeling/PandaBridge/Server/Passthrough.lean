import PandaBridge.Server.StreamEval

/-! The fast path for framed raw data, against the general path on the same blocks. -/
namespace Server

open Concurrent

/-- A block as the hardware fills it. -/
structure DataBlock where
  bytes : List UInt8
  fits : bytes.length ≤ dataBlockSize

/-- The bytes of a capture. -/
def streamOf (blocks : List DataBlock) : List UInt8 := blocks.flatMap DataBlock.bytes

/-- The part of `data_capture_state` that the fast path uses: what it keeps stands in the
output buffer, behind the room for the header. -/
structure PassthroughState where
  outputBuffer : List UInt8
  frames : List Frame
  sentSamples : Nat
  deriving DecidableEq

/-- `passthrough_capture_block`, with `size_t` of `sizeBits` bits. It is undefined when the
frame length fails its assertion, and when more is sent than the block has. -/
def passthroughCaptureBlock (sizeBits raw : Nat) (state : PassthroughState) (block : List UInt8) :
    Option PassthroughState :=
  let count := state.outputBuffer.length
  let samples := (count + block.length) / raw
  let bufferToSend := (samples * raw + 2 ^ sizeBits - count) % 2 ^ sizeBits
  let residual := 8 + count
  let frameLength := (residual + bufferToSend) % 2 ^ sizeBits
  if 2 ^ 32 ≤ frameLength then none
  else if block.length < bufferToSend then none
  else
    some {
      outputBuffer := block.drop bufferToSend
      frames := state.frames ++
        [{ length := frameLength, payload := state.outputBuffer ++ block.take bufferToSend }]
      sentSamples := state.sentSamples + samples }

/-- The blocks of a capture, one after the other; `send_data_stream` passes no empty ones. -/
def passthroughBlocks (sizeBits raw : Nat) :
    List DataBlock → PassthroughState → Option PassthroughState
  | [], state => some state
  | block :: rest, state =>
      if 0 < block.bytes.length then
        (passthroughCaptureBlock sizeBits raw state block.bytes).bind
          (passthroughBlocks sizeBits raw rest)
      else passthroughBlocks sizeBits raw rest state

/-- The same blocks through the general path, in a ring that nobody disturbs. -/
def processBlocks (config : StreamConfig) (ring : CaptureBuffer) :
    List DataBlock → StreamState → Option StreamState
  | [], state => some state
  | block :: rest, state =>
      if 0 < block.bytes.length then
        match (processCaptureBlock config 0 0 block.bytes.length).eval (quiet ring block.bytes)
          state with
        | (last, .done) => processBlocks config ring rest last
        | _ => none
      else processBlocks config ring rest state

/-- The conversion of framed raw data: a sample is copied. -/
def framedRaw (blockCount raw : Nat) (hRaw : 4 ≤ raw) (hMax : raw ≤ 252) : StreamConfig where
  blockCount := blockCount
  raw := raw
  binary := raw
  header := 8
  loads := List.range raw
  emit := id
  raw_pos := by omega
  binary_pos := by omega
  fits := by unfold netBufSize; omega
  loads_inside _ hOffset := List.mem_range.mp hOffset
  emit_length bytes hLength := by rw [id, hLength, List.length_range]

/-! ### The general path -/

/-- The whole samples of a stream, and the rest. -/
theorem processBlocks_processed (config : StreamConfig) (ring : CaptureBuffer)
    (blocks : List DataBlock) (state : StreamState)
    (hOk : state.reader.checkReadBlock config.blockCount ring = (state.reader, true))
    (hKept : state.sampleBuffer.length < config.raw) :
    ∃ last samples, processBlocks config ring blocks state = some last ∧
      samples = (state.sampleBuffer ++ streamOf blocks).length / config.raw ∧
      Processed config state last
        ((Chunk.pieces config.raw samples (state.sampleBuffer ++ streamOf blocks)).flatMap
          config.convert)
        samples ((state.sampleBuffer ++ streamOf blocks).drop (config.raw * samples)) := by
  induction blocks generalizing state with
  | nil =>
      refine ⟨state, 0, rfl, ?_, rfl, ?_, rfl, ?_, fun frame hFrame => .inl hFrame⟩
      · rw [streamOf, List.flatMap_nil, List.append_nil, Nat.div_eq_of_lt hKept]
      · simp
      · simp [streamOf]
  | cons block rest ih =>
      have hStream : streamOf (block :: rest) = block.bytes ++ streamOf rest := rfl
      rw [processBlocks]
      by_cases hSome : 0 < block.bytes.length
      · obtain ⟨middle, count, hEval, hCount, hMiddle⟩ :=
          processCaptureBlock_processed block.bytes 0 hOk hKept
        have hFits : config.raw * count ≤ (state.sampleBuffer ++ block.bytes).length :=
          hCount ▸ Nat.mul_div_le _ _
        have hLeft : middle.sampleBuffer.length < config.raw := by
          rw [hMiddle.sampleBuffer, Chunk.length_drop_whole hCount]
          exact Nat.mod_lt _ config.raw_pos
        obtain ⟨last, more, hLast, hMore, hProcessed⟩ := ih middle
          (by rw [hMiddle.reader]; exact hOk) hLeft
        have hJoin : middle.sampleBuffer ++ streamOf rest =
            (state.sampleBuffer ++ streamOf (block :: rest)).drop (config.raw * count) := by
          rw [hMiddle.sampleBuffer, hStream, ← List.append_assoc,
            List.drop_append_of_le_length hFits]
        rw [if_pos hSome, hEval]
        refine ⟨last, count + more, hLast, ?_, ?_⟩
        · rw [hMore, hMiddle.sampleBuffer, hStream, ← List.append_assoc, Chunk.whole_append hCount]
        · have hBoth := hMiddle.trans hProcessed
          rw [hJoin] at hBoth
          rw [Chunk.pieces_add, List.flatMap_append, Nat.mul_add, ← List.drop_drop]
          rwa [hStream, ← List.append_assoc, Chunk.pieces_append hFits, List.append_assoc, ← hStream]
      · have hNil : block.bytes = [] := List.length_eq_zero_iff.mp (by omega)
        rw [if_neg hSome, hStream, hNil, List.nil_append]
        exact ih state hOk hKept

/-! ### The fast path -/

section FastPath

variable {sizeBits raw : Nat} (hBits : 32 ≤ sizeBits) (hRaw : 4 ≤ raw) (hMax : raw ≤ 252)

/-- The block at hand leaves no gap: nothing is kept from before it, or it completes the kept
sample. -/
def Completes (raw kept length : Nat) : Prop := kept = 0 ∨ raw ≤ kept + length

include hBits hRaw hMax

/-- A block that completes the kept sample: the whole samples go into one frame. -/
theorem passthroughCaptureBlock_eq {state : PassthroughState} {block : DataBlock}
    (hKept : state.outputBuffer.length < raw)
    (hCompletes : Completes raw state.outputBuffer.length block.bytes.length) :
    ∃ samples, samples = (state.outputBuffer ++ block.bytes).length / raw ∧
      passthroughCaptureBlock sizeBits raw state block.bytes =
        some {
          outputBuffer := (state.outputBuffer ++ block.bytes).drop (raw * samples)
          frames := state.frames ++
            [{ length := 8 + raw * samples
               payload := (state.outputBuffer ++ block.bytes).take (raw * samples) }]
          sentSamples := state.sentSamples + samples } := by
  refine ⟨_, rfl, ?_⟩
  rw [List.length_append]
  obtain ⟨count, hCount⟩ : ∃ count, state.outputBuffer.length = count := ⟨_, rfl⟩
  obtain ⟨samples, hSamples⟩ : ∃ samples,
      (count + block.bytes.length) / raw = samples := ⟨_, rfl⟩
  have hPower : 2 ^ 32 ≤ 2 ^ sizeBits := Nat.pow_le_pow_right Nat.two_pos hBits
  have hBlock : block.bytes.length ≤ 2 ^ 21 := block.fits
  have hMul : raw * samples ≤ count + block.bytes.length := hSamples ▸ Nat.mul_div_le _ _
  have hEnough : count ≤ raw * samples := by
    rcases hCompletes with hNone | hFull
    · omega
    · have hOne : 1 ≤ samples := by
        rw [← hSamples, ← hCount]
        exact Nat.div_pos hFull (by omega)
      calc count ≤ raw := by omega
        _ = raw * 1 := (Nat.mul_one raw).symm
        _ ≤ raw * samples := Nat.mul_le_mul_left raw hOne
  have hSend : (samples * raw + 2 ^ sizeBits - count) % 2 ^ sizeBits = raw * samples - count := by
    rw [Nat.mul_comm samples raw, Nat.sub_add_comm hEnough, Nat.add_mod_right]
    exact Nat.mod_eq_of_lt (by omega)
  have hFrame : (8 + count + (raw * samples - count)) % 2 ^ sizeBits = 8 + raw * samples := by
    rw [show 8 + count + (raw * samples - count) = 8 + raw * samples by omega]
    exact Nat.mod_eq_of_lt (by omega)
  unfold passthroughCaptureBlock
  simp only [hCount, hSamples, hSend, hFrame]
  rw [if_neg (by omega), if_neg (by omega)]
  have hTake : (state.outputBuffer ++ block.bytes).take (raw * samples) =
      state.outputBuffer ++ block.bytes.take (raw * samples - count) := by
    rw [List.take_append, List.take_of_length_le (by omega), hCount]
  have hDrop : (state.outputBuffer ++ block.bytes).drop (raw * samples) =
      block.bytes.drop (raw * samples - count) := by
    rw [List.drop_append, List.drop_of_length_le (by omega), List.nil_append, hCount]
  rw [hTake, hDrop]

/-- A block that leaves the kept sample incomplete makes `buffer_to_send` wrap around. -/
theorem passthroughCaptureBlock_none {state : PassthroughState} {block : DataBlock}
    (hOpen : ¬Completes raw state.outputBuffer.length block.bytes.length) :
    passthroughCaptureBlock sizeBits raw state block.bytes = none := by
  obtain ⟨hSome, hShort⟩ := not_or.mp hOpen
  obtain ⟨count, hCount⟩ : ∃ count, state.outputBuffer.length = count := ⟨_, rfl⟩
  rw [hCount] at hSome hShort
  have hPower : 2 ^ 32 ≤ 2 ^ sizeBits := Nat.pow_le_pow_right Nat.two_pos hBits
  have hSamples : (count + block.bytes.length) / raw = 0 := Nat.div_eq_of_lt (by omega)
  have hSend : (0 * raw + 2 ^ sizeBits - count) % 2 ^ sizeBits = 2 ^ sizeBits - count := by
    rw [Nat.zero_mul, Nat.zero_add]
    exact Nat.mod_eq_of_lt (by omega)
  unfold passthroughCaptureBlock
  simp only [hCount, hSamples, hSend]
  rw [if_pos (show block.bytes.length < 2 ^ sizeBits - count by omega), ite_self]

end FastPath

/-- Every block completes the sample that the blocks before it leave open. -/
def Continuous (raw : Nat) : (kept : Nat) → List DataBlock → Prop
  | _, [] => True
  | kept, block :: rest =>
      (0 < block.bytes.length → Completes raw kept block.bytes.length) ∧
        Continuous raw ((kept + block.bytes.length) % raw) rest

/-- The same, by the bytes before each block. -/
theorem continuous_iff {raw kept : Nat} (hKept : kept < raw) (blocks : List DataBlock) :
    Continuous raw kept blocks ↔ ∀ before block after, blocks = before ++ block :: after →
      0 < block.bytes.length →
      Completes raw ((kept + (streamOf before).length) % raw) block.bytes.length := by
  induction blocks generalizing kept with
  | nil => simp [Continuous]
  | cons head rest ih =>
      rw [Continuous, ih (Nat.mod_lt _ (by omega))]
      constructor
      · rintro ⟨hHead, hRest⟩ before block after hBlocks hSome
        cases before with
        | nil =>
            obtain ⟨rfl, rfl⟩ : head = block ∧ rest = after := by simpa using hBlocks
            rw [streamOf, List.flatMap_nil, List.length_nil, Nat.add_zero, Nat.mod_eq_of_lt hKept]
            exact hHead hSome
        | cons first before =>
            obtain ⟨rfl, hTail⟩ : head = first ∧ rest = before ++ block :: after := by
              simpa using hBlocks
            have hLater := hRest before block after hTail hSome
            rw [Nat.mod_add_mod] at hLater
            rwa [streamOf, List.flatMap_cons, List.length_append, ← Nat.add_assoc]
      · intro h
        constructor
        · intro hSome
          have hHead := h [] head rest rfl hSome
          rwa [streamOf, List.flatMap_nil, List.length_nil, Nat.add_zero,
            Nat.mod_eq_of_lt hKept] at hHead
        · intro before block after hTail hSome
          have hLater := h (head :: before) block after (by rw [hTail]; rfl) hSome
          rw [streamOf, List.flatMap_cons, List.length_append, ← Nat.add_assoc] at hLater
          rwa [Nat.mod_add_mod]

section FastRun

variable {sizeBits raw : Nat} (hBits : 32 ≤ sizeBits) (hRaw : 4 ≤ raw) (hMax : raw ≤ 252)

include hBits hRaw hMax

/-- The fast path over blocks without a gap: the whole samples of the stream. -/
theorem passthroughBlocks_eq (blocks : List DataBlock) {state : PassthroughState}
    (hKept : state.outputBuffer.length < raw)
    (hContinuous : Continuous raw state.outputBuffer.length blocks) :
    ∃ last samples, passthroughBlocks sizeBits raw blocks state = some last ∧
      samples = (state.outputBuffer ++ streamOf blocks).length / raw ∧
      last.frames.flatMap Frame.payload = state.frames.flatMap Frame.payload ++
        (state.outputBuffer ++ streamOf blocks).take (raw * samples) ∧
      last.sentSamples = state.sentSamples + samples ∧
      ∀ frame ∈ last.frames, frame ∈ state.frames ∨ frame.length = 8 + frame.payload.length := by
  induction blocks generalizing state with
  | nil =>
      refine ⟨state, 0, rfl, ?_, ?_, rfl, fun frame hFrame => .inl hFrame⟩
      · rw [streamOf, List.flatMap_nil, List.append_nil, Nat.div_eq_of_lt hKept]
      · simp
  | cons block rest ih =>
      have hStream : streamOf (block :: rest) = block.bytes ++ streamOf rest := rfl
      obtain ⟨hHead, hRest⟩ := hContinuous
      rw [passthroughBlocks]
      by_cases hSome : 0 < block.bytes.length
      · obtain ⟨count, hCount, hEval⟩ :=
          passthroughCaptureBlock_eq hBits hRaw hMax hKept (hHead hSome)
        have hFits : raw * count ≤ (state.outputBuffer ++ block.bytes).length :=
          hCount ▸ Nat.mul_div_le _ _
        have hLeft := Chunk.length_drop_whole hCount
        rw [List.length_append] at hLeft
        rw [if_pos hSome, hEval, Option.bind_some]
        obtain ⟨last, more, hLast, hMore, hPayload, hSent, hFrames⟩ := @ih
          { outputBuffer := (state.outputBuffer ++ block.bytes).drop (raw * count)
            frames := state.frames ++
              [{ length := 8 + raw * count
                 payload := (state.outputBuffer ++ block.bytes).take (raw * count) }]
            sentSamples := state.sentSamples + count }
          (by rw [hLeft]; exact Nat.mod_lt _ (by omega)) (by rw [hLeft]; exact hRest)
        have hJoin : (state.outputBuffer ++ block.bytes).drop (raw * count) ++ streamOf rest =
            (state.outputBuffer ++ streamOf (block :: rest)).drop (raw * count) := by
          rw [hStream, ← List.append_assoc, List.drop_append_of_le_length hFits]
        have hFirst : (state.outputBuffer ++ block.bytes).take (raw * count) =
            (state.outputBuffer ++ streamOf (block :: rest)).take (raw * count) := by
          rw [hStream, ← List.append_assoc, List.take_append_of_le_length hFits]
        refine ⟨last, count + more, hLast, ?_, ?_, ?_, ?_⟩
        · rw [hMore, hStream, ← List.append_assoc, Chunk.whole_append hCount]
        · rw [hPayload, hJoin, hFirst, Nat.mul_add, List.take_add]
          simp
        · rw [hSent, Nat.add_assoc]
        · intro frame hFrame
          rcases hFrames frame hFrame with hOld | hFormed
          · rcases List.mem_append.mp hOld with hBefore | hNew
            · exact .inl hBefore
            · rw [List.mem_singleton.mp hNew]
              exact .inr (by rw [List.length_take, Nat.min_eq_left hFits])
          · exact .inr hFormed
      · have hNil : block.bytes = [] := List.length_eq_zero_iff.mp (by omega)
        rw [hNil, List.length_nil, Nat.add_zero, Nat.mod_eq_of_lt hKept] at hRest
        rw [if_neg hSome, hStream, hNil, List.nil_append]
        exact ih hKept hRest

/-- A gap anywhere makes the fast path undefined. -/
theorem continuous_of_passthroughBlocks (blocks : List DataBlock) {state last : PassthroughState}
    (hKept : state.outputBuffer.length < raw)
    (hLast : passthroughBlocks sizeBits raw blocks state = some last) :
    Continuous raw state.outputBuffer.length blocks := by
  induction blocks generalizing state with
  | nil => trivial
  | cons block rest ih =>
      rw [passthroughBlocks] at hLast
      by_cases hSome : 0 < block.bytes.length
      · rw [if_pos hSome] at hLast
        by_cases hCompletes : Completes raw state.outputBuffer.length block.bytes.length
        · obtain ⟨count, hCount, hEval⟩ :=
            passthroughCaptureBlock_eq hBits hRaw hMax hKept hCompletes
          have hLeft := Chunk.length_drop_whole hCount
          rw [List.length_append] at hLeft
          rw [hEval, Option.bind_some] at hLast
          have hRest := ih (by rw [hLeft]; exact Nat.mod_lt _ (by omega)) hLast
          rw [hLeft] at hRest
          exact ⟨fun _ => hCompletes, hRest⟩
        · rw [passthroughCaptureBlock_none hBits hRaw hMax hCompletes] at hLast
          cases hLast
      · rw [if_neg hSome] at hLast
        have hLength : block.bytes.length = 0 := by omega
        refine ⟨fun h => absurd h hSome, ?_⟩
        rw [hLength, Nat.add_zero, Nat.mod_eq_of_lt hKept]
        exact ih hKept hLast

end FastRun

/-! ### The two paths -/

/-- A ring in which the reader's block is not overwritten. -/
structure QuietRing where
  blockCount : Nat
  ring : CaptureBuffer
  reader : ReaderState
  ok : reader.checkReadBlock blockCount ring = (reader, true)

/-- The state at the start of `send_data_stream`, with nothing to skip. -/
def startStream (reader : ReaderState) : StreamState where
  reader := reader
  index := 0
  skipBytes := 0
  sampleBuffer := []
  outputBuffer := []
  frames := []
  sentSamples := 0

def startPassthrough : PassthroughState where
  outputBuffer := []
  frames := []
  sentSamples := 0

/-- The fast path stays inside its blocks, its frames are well formed, and it sends what the
general path sends: the longest whole-sample prefix of the stream. -/
def PassthroughAgrees (sizeBits raw : Nat) (hRaw : 4 ≤ raw) (hMax : raw ≤ 252) (quietRing : QuietRing)
    (blocks : List DataBlock) : Prop :=
  ∃ fast general,
    passthroughBlocks sizeBits raw blocks startPassthrough = some fast ∧
    processBlocks (framedRaw quietRing.blockCount raw hRaw hMax) quietRing.ring blocks
      (startStream quietRing.reader) = some general ∧
    (∀ frame ∈ fast.frames, frame.length = 8 + frame.payload.length) ∧
    fast.frames.flatMap Frame.payload = general.payload ∧
    fast.sentSamples = general.sentSamples ∧
    general.payload = (streamOf blocks).take (raw * ((streamOf blocks).length / raw)) ∧
    general.sentSamples = (streamOf blocks).length / raw

theorem framedRaw_convert {blockCount raw : Nat} (hRaw : 4 ≤ raw) (hMax : raw ≤ 252)
    {sample : List UInt8} (hLength : sample.length = raw) :
    (framedRaw blockCount raw hRaw hMax).convert sample = sample := by
  apply List.ext_getElem
  · simp [StreamConfig.convert, framedRaw, hLength]
  · intro i hLeft hRight
    simp [StreamConfig.convert, framedRaw, List.getD_eq_getElem?_getD,
      List.getElem?_eq_getElem hRight]

theorem framedRaw_pieces {blockCount raw count : Nat} (hRaw : 4 ≤ raw) (hMax : raw ≤ 252)
    {stream : List UInt8} (hFits : raw * count ≤ stream.length) :
    (Chunk.pieces raw count stream).flatMap (framedRaw blockCount raw hRaw hMax).convert =
      stream.take (raw * count) := by
  rw [← Chunk.flatten_pieces, List.flatMap_def]
  congr 1
  refine (List.map_congr_left fun piece hPiece => ?_).trans (List.map_id _)
  exact framedRaw_convert hRaw hMax (Chunk.length_of_mem_pieces hFits hPiece)

/-- The fast path does what the general path does exactly if every block with bytes starts at
a sample boundary or completes the sample that is open before it. -/
theorem passthrough_agrees_iff {sizeBits raw : Nat} (hBits : 32 ≤ sizeBits) (hRaw : 4 ≤ raw)
    (hMax : raw ≤ 252) (quietRing : QuietRing) (blocks : List DataBlock) :
    PassthroughAgrees sizeBits raw hRaw hMax quietRing blocks ↔
      ∀ before block after, blocks = before ++ block :: after → 0 < block.bytes.length →
        (streamOf before).length % raw = 0 ∨
          raw ≤ (streamOf before).length % raw + block.bytes.length := by
  have hIff := continuous_iff (show 0 < raw by omega) blocks
  have hEmpty : startPassthrough.outputBuffer.length < raw := by
    rw [startPassthrough, List.length_nil]
    omega
  simp only [Nat.zero_add] at hIff
  constructor
  · rintro ⟨fast, general, hFast, _⟩
    exact hIff.mp (continuous_of_passthroughBlocks hBits hRaw hMax blocks hEmpty hFast)
  · intro h
    obtain ⟨fast, count, hFast, hCount, hPayload, hSent, hFrames⟩ :=
      passthroughBlocks_eq hBits hRaw hMax blocks hEmpty (hIff.mpr h)
    obtain ⟨general, samples, hGeneral, hSamples, hProcessed⟩ :=
      processBlocks_processed (framedRaw quietRing.blockCount raw hRaw hMax) quietRing.ring blocks
        (startStream quietRing.reader) quietRing.ok (show 0 < raw by omega)
    have hWhole : samples = (streamOf blocks).length / raw := hSamples
    have hSame : count = (streamOf blocks).length / raw := hCount
    have hGeneralPayload : general.payload = (streamOf blocks).take (raw * samples) := by
      rw [hProcessed.payload]
      exact framedRaw_pieces hRaw hMax (hWhole ▸ Nat.mul_div_le _ _)
    have hGeneralSent : general.sentSamples = samples :=
      hProcessed.sentSamples.trans (Nat.zero_add samples)
    refine ⟨fast, general, hFast, hGeneral, ?_, ?_, ?_, ?_, ?_⟩
    · intro frame hFrame
      exact (hFrames frame hFrame).resolve_left List.not_mem_nil
    · rw [hPayload, hGeneralPayload, hWhole, hSame]
      rfl
    · rw [hSent, hGeneralSent, hWhole, hSame]
      exact Nat.zero_add _
    · rw [hGeneralPayload, hWhole]
    · rw [hGeneralSent, hWhole]

/-- A ring of two blocks whose first one is being read. -/
def secondBlockFilling : QuietRing where
  blockCount := 2
  ring := { CaptureBuffer.createBuffer with state := .active, inPtr := 1 }
  reader := { captureCycle := 0, bufferCycle := 0, outPtr := 1, status := .closed }
  ok := by decide

/-- Samples of four bytes in a block of five and one of three. -/
theorem passthrough_agrees_split :
    32 ≤ 32 ∧ 4 ≤ 4 ∧ 4 ≤ 252 ∧
      PassthroughAgrees 32 4 (by decide) (by decide) secondBlockFilling
        [⟨[1, 2, 3, 4, 5], by decide⟩, ⟨[6, 7, 8], by decide⟩] := by
  refine ⟨by decide, by decide, by decide,
    (passthrough_agrees_iff (by decide) (by decide) (by decide) _ _).mpr ?_⟩
  intro before block after hBlocks hSome
  match before, hBlocks with
  | [], hBlocks => exact .inl rfl
  | [first], hBlocks =>
      obtain ⟨rfl, rfl, _⟩ := by simpa using hBlocks
      exact .inr (by decide)
  | first :: second :: rest, hBlocks =>
      simp at hBlocks

/-- Samples of four bytes in blocks of two and of one: the second block leaves the sample
open, and the number of bytes to send wraps around. -/
theorem short_blocks_underflow :
    ¬PassthroughAgrees 32 4 (by decide) (by decide) secondBlockFilling
      [⟨[1, 2], by decide⟩, ⟨[3], by decide⟩] := by
  rintro ⟨fast, general, hFast, _⟩
  have hNone : passthroughBlocks 32 4 [⟨[1, 2], by decide⟩, ⟨[3], by decide⟩] startPassthrough =
      none := by decide
  rw [hNone] at hFast
  cases hFast

end Server
