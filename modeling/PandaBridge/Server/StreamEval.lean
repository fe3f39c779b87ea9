import PandaBridge.Chunk.Pieces
import PandaBridge.Concurrent.Eval
import PandaBridge.Server.DataStream

/-! `process_capture_block` when nothing interferes: the block keeps its bytes, the check
succeeds and the socket takes everything. -/
namespace Server

open Concurrent

/-- The answers of a block that is not overwritten and of a client that stays. -/
def quiet (ring : CaptureBuffer) (block : List UInt8) :
    (request : StreamRequest) → StreamAnswer request
  | .lock => ring
  | .measure _ => block.length
  | .load _ _ offset => block.getD offset 0
  | .socket => true

section Block

variable {ring : CaptureBuffer} {block : List UInt8} {config : StreamConfig} {state : StreamState}

theorem eval_copyBytes (ring : CaptureBuffer) (kept : Bool) (slot : Nat) {offset count : Nat}
    (hInside : offset + count ≤ block.length) (state : StreamState) :
    (copyBytes kept slot offset count).eval (quiet ring block) state =
      (state, (block.drop offset).take count) := by
  have hEval : (copyBytes kept slot offset count).eval (quiet ring block) state =
      (state, (List.range count).map fun i => block.getD (offset + i) 0) :=
    Code.eval_forEach (quiet ring block) (fun _ => rfl) (List.range count)
  rw [hEval, Chunk.map_range_getD hInside]

theorem eval_processSamples {oracle : (request : StreamRequest) → StreamAnswer request}
    {fetch : Nat → StreamCode UInt8} {data : List UInt8}
    (hFetch : ∀ i state, (fetch i).eval oracle state = (state, data.getD i 0)) (length : Nat)
    (state : StreamState) :
    (processSamples config fetch length).eval oracle state =
      ({ state with
          outputBuffer := state.outputBuffer ++
            (Chunk.pieces config.raw (config.batch state.outputBuffer length) data).flatMap
              config.convert },
        config.batch state.outputBuffer length) := by
  have hConvert : ∀ i, (convertSample config fetch (config.raw * i)).eval oracle state =
      (state, config.convert ((data.drop (config.raw * i)).take config.raw)) := by
    intro i
    have hLoads : (Code.forEach (fun offset => fetch (config.raw * i + offset)) config.loads).eval
        oracle state = _ :=
      Code.eval_forEach oracle (fun offset => hFetch (config.raw * i + offset) state) config.loads
    rw [convertSample, Code.eval_bind_of oracle hLoads, Code.eval_pure, config.convert_piece]
  have hAll := Code.eval_forEach oracle hConvert
    (List.range (config.batch state.outputBuffer length))
  rw [processSamples, Code.eval_bind_of oracle (Code.eval_get oracle state)]
  change ((Code.forEach _ (List.range (config.batch state.outputBuffer length))) >>= _).eval
    oracle state = _
  rw [Code.eval_bind_of oracle hAll, Code.eval_bind_of oracle (Code.eval_modify oracle _ _)]
  rw [Code.eval_pure, Chunk.pieces, List.flatMap_def, List.map_map]
  rfl

theorem eval_checkReadBlock
    (hOk : state.reader.checkReadBlock config.blockCount ring = (state.reader, true)) :
    (checkReadBlock config).eval (quiet ring block) state = (state, true) := by
  have hEval : (checkReadBlock config).eval (quiet ring block) state =
      ({ state with reader := (state.reader.checkReadBlock config.blockCount ring).1 },
        (state.reader.checkReadBlock config.blockCount ring).2) := rfl
  rw [hEval, hOk]

theorem eval_sendOutputBuffer (state : StreamState) :
    (sendOutputBuffer config).eval (quiet ring block) state =
      ({ state with frames := state.frames ++ [config.frame state.outputBuffer] }, true) := rfl

theorem eval_prepareOutputBuffer (state : StreamState) :
    prepareOutputBuffer.eval (quiet ring block) state = ({ state with outputBuffer := [] }, ()) :=
  rfl

theorem eval_updateSingleSampleBuffer (slot : Nat) {offset length : Nat}
    (hInside : offset + length ≤ block.length) (state : StreamState) :
    (updateSingleSampleBuffer slot offset length).eval (quiet ring block) state =
      ({ state with sampleBuffer := state.sampleBuffer ++ (block.drop offset).take length }, ()) := by
  rw [updateSingleSampleBuffer,
    Code.eval_bind_of (quiet ring block) (eval_copyBytes ring true slot hInside state)]
  rfl

/-- What follows the conversions of an iteration. -/
theorem eval_processLoop (config : StreamConfig) (ring : CaptureBuffer) (block : List UInt8)
    (slot fuel offset length samples : Nat) (state : StreamState)
    (hOk : state.reader.checkReadBlock config.blockCount ring = (state.reader, true)) :
    let count := config.batch state.outputBuffer length
    let converted : StreamState :=
      { state with
        outputBuffer := state.outputBuffer ++
          (Chunk.pieces config.raw count (block.drop offset)).flatMap config.convert }
    let next := if 0 < samples + count then converted.afterSend config (samples + count)
      else converted
    (processLoop config slot (fuel + 1) offset length samples).eval (quiet ring block) state =
      if config.raw ≤ length - config.raw * count then
        (processLoop config slot fuel (offset + config.raw * count) (length - config.raw * count)
          0).eval (quiet ring block) next
      else
        ((updateSingleSampleBuffer slot (offset + config.raw * count)
          (length - config.raw * count) >>= fun _ => pure BlockOutcome.done).eval (quiet ring block)
            next) := by
  intro count converted next
  have hFetch : ∀ i state, (loadByte false slot (offset + i)).eval (quiet ring block) state =
      (state, (block.drop offset).getD i 0) := by
    intro i state
    change (state, block.getD (offset + i) 0) = _
    rw [List.getD_eq_getElem?_getD, List.getD_eq_getElem?_getD, List.getElem?_drop]
  rw [processLoop, Code.eval_bind_of (quiet ring block)
    (eval_processSamples hFetch length state)]
  change (if 0 < samples + count then _ else _ : StreamCode BlockOutcome).eval (quiet ring block)
    converted = _
  by_cases hSome : 0 < samples + count
  · have hCheck : (checkReadBlock config).eval (quiet ring block) converted = (converted, true) :=
      eval_checkReadBlock hOk
    rw [if_pos hSome, Code.eval_bind_of (quiet ring block) hCheck, if_pos rfl,
      Code.eval_bind_of (quiet ring block) (eval_sendOutputBuffer converted), if_pos rfl,
      Code.eval_bind_of (quiet ring block) (eval_prepareOutputBuffer _),
      Code.eval_bind_of (quiet ring block) (Code.eval_modify _ _ _)]
    have hNext : next = converted.afterSend config (samples + count) := if_pos hSome
    rw [hNext]
    split_ifs <;> rfl
  · have hNext : next = converted := if_neg hSome
    rw [if_neg hSome, hNext]
    split_ifs <;> rfl

/-- What a part of `process_capture_block` has sent and kept. -/
structure Processed (config : StreamConfig) (state last : StreamState) (sent : List UInt8)
    (samples : Nat) (kept : List UInt8) : Prop where
  reader : last.reader = state.reader
  payload : last.payload = state.payload ++ sent
  sentSamples : last.sentSamples = state.sentSamples + samples
  sampleBuffer : last.sampleBuffer = kept
  frames : ∀ frame ∈ last.frames,
    frame ∈ state.frames ∨ frame.length = config.header + frame.payload.length

theorem Processed.afterSend (config : StreamConfig) (state : StreamState) (samples : Nat) :
    Processed config state (state.afterSend config samples) state.outputBuffer samples
      state.sampleBuffer where
  reader := rfl
  payload := by simp [StreamState.payload, StreamState.afterSend, StreamConfig.frame]
  sentSamples := rfl
  sampleBuffer := rfl
  frames frame hFrame := by
    rcases List.mem_append.mp hFrame with hOld | hNew
    · exact .inl hOld
    · rw [List.mem_singleton.mp hNew]
      exact .inr rfl

theorem Processed.trans {state middle last : StreamState} {first second kept kept' : List UInt8}
    {samples more : Nat} (h : Processed config state middle first samples kept)
    (h' : Processed config middle last second more kept') :
    Processed config state last (first ++ second) (samples + more) kept' where
  reader := h'.reader.trans h.reader
  payload := by rw [h'.payload, h.payload, List.append_assoc]
  sentSamples := by rw [h'.sentSamples, h.sentSamples, Nat.add_assoc]
  sampleBuffer := h'.sampleBuffer
  frames frame hFrame := by
    rcases h'.frames frame hFrame with hMiddle | hFormed
    · exact h.frames frame hMiddle
    · exact .inr hFormed

/-- The two buffers of the state before do not show in what is sent and kept. -/
theorem Processed.of_start {start last : StreamState} {sent kept : List UInt8} {samples : Nat}
    (h : Processed config start last sent samples kept) (state : StreamState)
    (hReader : start.reader = state.reader) (hFrames : start.frames = state.frames)
    (hSent : start.sentSamples = state.sentSamples) :
    Processed config state last sent samples kept where
  reader := h.reader.trans hReader
  payload := by rw [h.payload, StreamState.payload, hFrames, StreamState.payload]
  sentSamples := by rw [h.sentSamples, hSent]
  sampleBuffer := h.sampleBuffer
  frames := hFrames ▸ h.frames

/-- The whole loop: every whole sample of the block is sent, the rest is kept. -/
theorem processLoop_processed (slot fuel offset length samples : Nat) {state : StreamState}
    (hOk : state.reader.checkReadBlock config.blockCount ring = (state.reader, true))
    (hLength : offset + length = block.length)
    (hOutput : samples = 0 → state.outputBuffer = [])
    (hFuel : length / config.raw + (if samples = 0 then 1 else 2) ≤ fuel) :
    ∃ last,
      (processLoop config slot fuel offset length samples).eval (quiet ring block) state =
        (last, .done) ∧
      Processed config state last
        (state.outputBuffer ++
          (Chunk.pieces config.raw (length / config.raw) (block.drop offset)).flatMap
            config.convert)
        (samples + length / config.raw)
        (state.sampleBuffer ++ block.drop (offset + config.raw * (length / config.raw))) := by
  induction fuel generalizing offset length samples state with
  | zero =>
      have hPos : 0 < if samples = 0 then 1 else 2 := by split_ifs <;> decide
      have hZero := (Nat.le_add_left _ _).trans hFuel
      omega
  | succ fuel ih =>
      rw [eval_processLoop config ring block slot fuel offset length samples state hOk]
      obtain ⟨count, hCount⟩ : ∃ count, config.batch state.outputBuffer length = count := ⟨_, rfl⟩
      obtain ⟨rest, hWhole⟩ : ∃ rest, length / config.raw = count + rest :=
        Nat.exists_eq_add_of_le (hCount ▸ Nat.min_le_left _ _)
      have hMul : config.raw * count ≤ length := hCount ▸ config.raw_mul_batch _ _
      have hRest : (length - config.raw * count) / config.raw = rest := by
        rw [Nat.sub_mul_div, hWhole, Nat.add_sub_cancel_left]
      rw [hWhole] at hFuel ⊢
      simp only [hCount]
      obtain ⟨converted, hConverted⟩ : ∃ converted : StreamState, converted =
        { state with
          outputBuffer := state.outputBuffer ++
            (Chunk.pieces config.raw count (block.drop offset)).flatMap config.convert } := ⟨_, rfl⟩
      have hSent : Processed config state (converted.afterSend config (samples + count))
          (state.outputBuffer ++
            (Chunk.pieces config.raw count (block.drop offset)).flatMap config.convert)
          (samples + count) state.sampleBuffer := by
        subst hConverted
        exact (Processed.afterSend config _ (samples + count)).of_start state rfl rfl rfl
      rw [← hConverted]
      by_cases hMore : config.raw ≤ length - config.raw * count
      · have hLess : 0 < rest := hRest ▸ Nat.div_pos hMore config.raw_pos
        have hSome : 0 < samples + count := by
          rcases Nat.eq_zero_or_pos samples with hZero | hPos
          · have hBatch := config.batch_pos (show config.raw ≤ length by omega)
            rw [hOutput hZero] at hCount
            omega
          · omega
        rw [if_pos hMore, if_pos hSome]
        obtain ⟨last, hLast, hProcessed⟩ := ih (offset + config.raw * count)
          (length - config.raw * count) 0
          (by rw [hSent.reader]; exact hOk) (by omega) (fun _ => rfl) (by
            rw [hRest, if_pos rfl]
            split_ifs at hFuel with hZero <;> omega)
        refine ⟨last, hLast, ?_⟩
        have hBoth := hSent.trans hProcessed
        rw [hRest] at hBoth
        rw [Chunk.pieces_add, List.flatMap_append, List.drop_drop, ← List.append_assoc,
          ← Nat.add_assoc samples, Nat.mul_add, ← Nat.add_assoc offset]
        simpa [StreamState.afterSend, hConverted] using hBoth
      · have hNone : rest = 0 := by
          rw [← hRest]
          exact Nat.div_eq_of_lt (by omega)
        subst hNone
        have hEnd : offset + config.raw * count + (length - config.raw * count) = block.length := by
          omega
        have hTake : (block.drop (offset + config.raw * count)).take (length - config.raw * count) =
            block.drop (offset + config.raw * count) := by
          apply List.take_of_length_le
          rw [List.length_drop]
          omega
        rw [if_neg hMore, Code.eval_bind_of (quiet ring block)
          (eval_updateSingleSampleBuffer slot (Nat.le_of_eq hEnd) _), Code.eval_pure, hTake]
        refine ⟨_, rfl, ?_⟩
        rw [Nat.add_zero]
        by_cases hSome : 0 < samples + count
        · rw [if_pos hSome]
          exact ⟨hSent.reader, hSent.payload, hSent.sentSamples,
            congrArg (· ++ _) hSent.sampleBuffer, hSent.frames⟩
        · obtain ⟨rfl, rfl⟩ : samples = 0 ∧ count = 0 := by omega
          rw [if_neg hSome, hConverted]
          refine ⟨rfl, ?_, rfl, rfl, fun frame hFrame => .inl hFrame⟩
          simp [StreamState.payload, hOutput rfl]

theorem eval_processSingleSample_empty (slot offset length : Nat) (hEmpty : state.sampleBuffer = []) :
    (processSingleSample config slot offset length).eval (quiet ring block) state =
      (state, (0, 0)) := by
  rw [processSingleSample, Code.eval_bind_of (quiet ring block) (Code.eval_get _ state),
    if_neg (by rw [hEmpty]; exact Nat.lt_irrefl 0)]
  rfl

theorem eval_processSingleSample_short (slot : Nat) (hKept : 0 < state.sampleBuffer.length)
    (hShort : state.sampleBuffer.length + block.length < config.raw) :
    (processSingleSample config slot 0 block.length).eval (quiet ring block) state =
      ({ state with sampleBuffer := state.sampleBuffer ++ block }, (0, block.length)) := by
  have hCopy : min block.length (config.raw - state.sampleBuffer.length) = block.length := by omega
  have hBytes := eval_copyBytes ring
    (decide (state.sampleBuffer.length + block.length < config.raw)) slot
    (show 0 + block.length ≤ block.length by omega) state
  rw [List.drop_zero, List.take_length] at hBytes
  rw [processSingleSample, Code.eval_bind_of (quiet ring block) (Code.eval_get _ state),
    if_pos hKept]
  simp only [hCopy]
  rw [Code.eval_bind_of (quiet ring block) hBytes,
    Code.eval_bind_of (quiet ring block) (Code.eval_modify _ _ state),
    if_neg (by omega), Code.eval_pure]

/-- The block completes the sample, which goes to the output buffer. -/
theorem eval_processSingleSample_full (slot : Nat) {toCopy : Nat}
    (hKept : 0 < state.sampleBuffer.length) (hOutput : state.outputBuffer = [])
    (hFull : state.sampleBuffer.length + toCopy = config.raw) (hInside : toCopy ≤ block.length) :
    (processSingleSample config slot 0 block.length).eval (quiet ring block) state =
      ({ state with
          sampleBuffer := []
          outputBuffer := config.convert (state.sampleBuffer ++ block.take toCopy) },
        (1, toCopy)) := by
  have hCopy : min block.length (config.raw - state.sampleBuffer.length) = toCopy := by omega
  have hBytes := eval_copyBytes ring
    (decide (state.sampleBuffer.length + toCopy < config.raw)) slot
    (show 0 + toCopy ≤ block.length by omega) state
  rw [List.drop_zero] at hBytes
  have hLength : (state.sampleBuffer ++ block.take toCopy).length = config.raw := by
    rw [List.length_append, List.length_take]
    omega
  rw [processSingleSample, Code.eval_bind_of (quiet ring block) (Code.eval_get _ state),
    if_pos hKept]
  simp only [hCopy]
  rw [Code.eval_bind_of (quiet ring block) hBytes,
    Code.eval_bind_of (quiet ring block) (Code.eval_modify _ _ state),
    if_pos (by omega),
    Code.eval_bind_of (quiet ring block) (eval_processSamples (fun i state => rfl) _ _),
    Code.eval_bind_of (quiet ring block) (Code.eval_modify _ _ _), Code.eval_pure]
  simp only [hLength, hOutput, config.batch_one, Chunk.pieces_one hLength, Nat.one_mul,
    List.nil_append, List.flatMap_singleton]
  rw [← hLength, List.drop_length]

/-- `process_capture_block` on a block that stands still, behind a kept part of a sample: it
sends the whole samples and keeps the rest. -/
theorem processCaptureBlock_processed (block : List UInt8) (slot : Nat) {state : StreamState}
    (hOk : state.reader.checkReadBlock config.blockCount ring = (state.reader, true))
    (hKept : state.sampleBuffer.length < config.raw) :
    ∃ last samples,
      (processCaptureBlock config slot 0 block.length).eval (quiet ring block) state =
        (last, .done) ∧
      samples = (state.sampleBuffer ++ block).length / config.raw ∧
      Processed config state last
        ((Chunk.pieces config.raw samples (state.sampleBuffer ++ block)).flatMap config.convert)
        samples ((state.sampleBuffer ++ block).drop (config.raw * samples)) := by
  obtain ⟨start, hStart⟩ : ∃ start : StreamState, start = { state with outputBuffer := [] } :=
    ⟨_, rfl⟩
  have hOkStart : start.reader.checkReadBlock config.blockCount ring = (start.reader, true) := by
    rw [hStart]
    exact hOk
  have hBuffer : start.sampleBuffer = state.sampleBuffer := by rw [hStart]
  have hOutput : start.outputBuffer = [] := by rw [hStart]
  have hSame : ∀ {last : StreamState} {sent kept : List UInt8} {samples : Nat},
      Processed config start last sent samples kept →
      Processed config state last sent samples kept :=
    fun h => h.of_start state (by rw [hStart]) (by rw [hStart]) (by rw [hStart])
  rw [processCaptureBlock, Code.eval_bind_of (quiet ring block) (eval_prepareOutputBuffer state),
    ← hStart]
  rw [← hBuffer] at hKept ⊢
  rcases Nat.eq_zero_or_pos start.sampleBuffer.length with hEmpty | hPos
  · have hNil := List.length_eq_zero_iff.mp hEmpty
    rw [Code.eval_bind_of (quiet ring block) (eval_processSingleSample_empty slot 0 _ hNil)]
    obtain ⟨last, hLast, hProcessed⟩ := processLoop_processed slot (block.length + 2) 0 block.length 0
      hOkStart (Nat.zero_add _) (fun _ => hOutput) (by
        have := Nat.div_le_self block.length config.raw
        rw [if_pos rfl]
        omega)
    refine ⟨last, _, hLast, rfl, hSame ?_⟩
    simpa [hNil, hOutput] using hProcessed
  · rcases Nat.lt_or_ge (start.sampleBuffer.length + block.length) config.raw with hShort | hLong
    · rw [Code.eval_bind_of (quiet ring block) (eval_processSingleSample_short slot hPos hShort)]
      obtain ⟨short, hEq⟩ : ∃ short : StreamState, short =
          { start with sampleBuffer := start.sampleBuffer ++ block } := ⟨_, rfl⟩
      rw [← hEq]
      obtain ⟨last, hLast, hProcessed⟩ := processLoop_processed slot (block.length + 2)
        (0 + block.length) (block.length - block.length) 0
        (show short.reader.checkReadBlock config.blockCount ring = (short.reader, true) by
          rw [hEq]; exact hOkStart)
        (show 0 + block.length + (block.length - block.length) = block.length by omega)
        (fun _ => by rw [hEq]; exact hOutput) (by
          rw [Nat.sub_self, Nat.zero_div, if_pos rfl]
          omega)
      have hNone : (start.sampleBuffer ++ block).length / config.raw = 0 := by
        rw [List.length_append]
        exact Nat.div_eq_of_lt hShort
      refine ⟨last, 0, hLast, hNone.symm, hSame ?_⟩
      subst hEq
      have hKeep := hProcessed.of_start start rfl rfl rfl
      simpa [hOutput] using hKeep
    · obtain ⟨toCopy, hFull⟩ : ∃ toCopy, start.sampleBuffer.length + toCopy = config.raw :=
        ⟨config.raw - start.sampleBuffer.length, by omega⟩
      rw [Code.eval_bind_of (quiet ring block)
        (eval_processSingleSample_full slot hPos hOutput hFull (by omega))]
      obtain ⟨full, hEq⟩ : ∃ full : StreamState, full =
          { start with
            sampleBuffer := []
            outputBuffer := config.convert (start.sampleBuffer ++ block.take toCopy) } := ⟨_, rfl⟩
      rw [← hEq]
      obtain ⟨last, hLast, hProcessed⟩ := processLoop_processed slot (block.length + 2)
        (0 + toCopy) (block.length - toCopy) 1
        (show full.reader.checkReadBlock config.blockCount ring = (full.reader, true) by
          rw [hEq]; exact hOkStart)
        (show 0 + toCopy + (block.length - toCopy) = block.length by omega)
        (fun h => absurd h Nat.one_ne_zero) (by
          have := Nat.div_le_self (block.length - toCopy) config.raw
          rw [if_neg Nat.one_ne_zero]
          omega)
      have hCount : 1 + (block.length - toCopy) / config.raw =
          (start.sampleBuffer ++ block).length / config.raw := by
        rw [List.length_append, show start.sampleBuffer.length + block.length =
          config.raw + (block.length - toCopy) by omega, Nat.add_div_left _ config.raw_pos,
          Nat.add_comm]
      refine ⟨last, _, hLast, hCount, hSame ?_⟩
      have hTake : (start.sampleBuffer ++ block).take config.raw =
          start.sampleBuffer ++ block.take toCopy := by
        rw [← hFull, List.take_length_add_append]
      have hDrop : (start.sampleBuffer ++ block).drop config.raw = block.drop toCopy := by
        rw [← hFull, List.drop_length_add_append]
      have hFirst : Chunk.pieces config.raw 1 (start.sampleBuffer ++ block) =
          [start.sampleBuffer ++ block.take toCopy] := by
        rw [← hTake]
        simp [Chunk.pieces]
      rw [Chunk.pieces_add, Nat.mul_one, hDrop, hFirst, List.flatMap_append,
        List.flatMap_singleton, Nat.mul_add, Nat.mul_one, ← List.drop_drop, hDrop, List.drop_drop]
      subst hEq
      have hSent := hProcessed.of_start start rfl rfl rfl
      simpa using hSent

end Block

end Server
