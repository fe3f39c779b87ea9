import PandaBridge.Server.StreamRules

/-! A reader is never deceived about what it sends. What it takes from a block is right as
long as the writer has not come round to the block: until then for what is checked before it
is sent, and until one block later for what is kept, because the check of the next block
notices that. -/
namespace Server

open Concurrent

section Block

variable (config : StreamConfig) (origin : StreamStart)
variable (b skip : Nat) (bytes before data : List UInt8)

/-- The reader stands behind block `b`. -/
structure AtBlock (state : StreamState) : Prop where
  index : state.index = b + 1
  points : Points config.blockCount state.reader.bufferCycle state.reader.outPtr (b + 1)
  status : state.reader.status = .closed
  skip : state.skipBytes = skip

/-- Block `b` holds `bytes`, of which `data` continues the `before` bytes of the stream, and
`skip` bytes are still to be skipped after it. -/
structure InBlock (blocks : List (List UInt8)) : Prop where
  start : origin.start ≤ b
  block : blocks[b]? = some bytes
  used : origin.used blocks (b + 1) = before ++ data
  left : blocks.length < b + 1 + config.blockCount → origin.left blocks (b + 1) = skip

/-- The places of the reader: `samples` samples are in the output buffer, the sample buffer
and the `length` bytes at `offset` are next. -/
structure Shape (state : StreamState) (offset length samples : Nat) : Prop where
  inside : offset + length = bytes.length
  rest : state.sampleBuffer ++ bytes.drop offset =
    (before ++ data).drop (config.raw * (state.sentSamples + samples))
  aligned : state.sampleBuffer = [] ∨ length = 0
  short : state.sampleBuffer.length < config.raw
  whole : config.raw * (state.sentSamples + samples) ≤ (before ++ data).length

/-- What the thread knows in the loop of `process_capture_block`. -/
structure InLoop (state : StreamState) (offset length samples : Nat)
    (blocks : List (List UInt8)) : Prop where
  block : InBlock config origin b skip bytes before data blocks
  sent : SentRight config origin state blocks
  shape : blocks.length < b + 1 + config.blockCount →
    Shape config bytes before data state offset length samples
  output : blocks.length < b + config.blockCount →
    state.outputBuffer =
      (Chunk.pieces config.raw samples
        ((before ++ data).drop (config.raw * state.sentSamples))).flatMap config.convert

/-- The same after a successful check: for sure. -/
structure Checked (state : StreamState) (offset length samples : Nat)
    (blocks : List (List UInt8)) : Prop where
  block : InBlock config origin b skip bytes before data blocks
  sent : SentRight config origin state blocks
  shape : Shape config bytes before data state offset length samples
  output : state.outputBuffer =
    (Chunk.pieces config.raw samples
      ((before ++ data).drop (config.raw * state.sentSamples))).flatMap config.convert

/-- The sample buffer between two blocks: what is over of the `used` bytes. -/
structure Kept (used : List UInt8) (state : StreamState) : Prop where
  rest : state.sampleBuffer = used.drop (config.raw * state.sentSamples)
  short : state.sampleBuffer.length < config.raw
  whole : config.raw * state.sentSamples ≤ used.length

/-- What the thread knows when it starts with the `length` bytes at `offset`. -/
structure InStart (state : StreamState) (offset length : Nat) (blocks : List (List UInt8)) :
    Prop where
  block : InBlock config origin b skip bytes before data blocks
  sent : SentRight config origin state blocks
  shape : blocks.length < b + 1 + config.blockCount →
    offset + length = bytes.length ∧ bytes.drop offset = data ∧ Kept config before state

/-- How `process_capture_block` ends. -/
def BlockEnd : BlockOutcome → StreamState → List (List UInt8) → Prop
  | .done, state, blocks =>
      AtBlock config b skip state ∧ InBlock config origin b skip bytes before data blocks ∧
        SentRight config origin state blocks ∧
        (blocks.length < b + 1 + config.blockCount → Kept config (before ++ data) state)
  | .exhausted, _, _ => False
  | _, state, blocks => SentRight config origin state blocks ∧ state.reader.status ≠ .allRead

variable {config origin b skip bytes before data}

theorem InBlock.append {blocks : List (List UInt8)}
    (h : InBlock config origin b skip bytes before data blocks)
    (more : List (List UInt8)) : InBlock config origin b skip bytes before data (blocks ++ more) := by
  have hLess : b < blocks.length := (List.getElem?_eq_some_iff.mp h.block).1
  refine ⟨h.start, ?_, ?_, ?_⟩
  · rw [List.getElem?_append_left hLess]
    exact h.block
  · rw [StreamStart.used_append hLess]
    exact h.used
  · intro hNear
    rw [List.length_append] at hNear
    rw [StreamStart.left_append hLess]
    exact h.left (by omega)

theorem InBlock.prefix {blocks : List (List UInt8)}
    (h : InBlock config origin b skip bytes before data blocks) :
    before ++ data <+: origin.stream blocks := by
  have hLess : b < blocks.length := (List.getElem?_eq_some_iff.mp h.block).1
  have hStart := h.start
  rw [← h.used]
  exact StreamStart.used_prefix (by omega) hLess

theorem InLoop.grows (state : StreamState) (offset length samples : Nat) :
    Grows (InLoop config origin b skip bytes before data state offset length samples) := by
  intro blocks more h
  have hLength : blocks.length ≤ (blocks ++ more).length := by
    rw [List.length_append]
    exact Nat.le_add_right _ _
  exact ⟨h.block.append more, h.sent.append more, fun hNear => h.shape (by omega),
    fun hNear => h.output (by omega)⟩

theorem AtBlock.rest {state : StreamState} (h : AtBlock config b skip state)
    (offset length samples : Nat) :
    Rest config origin state (InLoop config origin b skip bytes before data state offset length samples) :=
  ⟨InLoop.grows state offset length samples, fun blocks hLoop => hLoop.sent, by
    rw [h.status]
    decide⟩

variable (hCount : 0 < config.blockCount)

include hCount

theorem update_runs {state : StreamState} (hAt : AtBlock config b skip state) (offset length : Nat) :
    Runs config origin state (InLoop config origin b skip bytes before data state offset length 0)
      (updateSingleSampleBuffer (b % config.blockCount) offset length)
      fun _ after => Known config fun blocks => ∃ copied,
        after = { state with sampleBuffer := state.sampleBuffer ++ copied } ∧
        InLoop config origin b skip bytes before data state offset length 0 blocks ∧
        (blocks.length < b + 1 + config.blockCount → offset + length ≤ bytes.length →
          copied = (bytes.drop offset).take length) := by
  refine Runs.bind (Runs.copy hCount hAt.index (fun blocks h => h.block.block) true offset length
    (hAt.rest offset length 0)) ?_
  intro copied after
  refine Runs.assume fun hAfter => ?_
  subst hAfter
  exact Runs.pure fun shared h => ⟨h.1, copied, rfl, h.2.1, h.2.2.2⟩

theorem loop_end_runs {state : StreamState} (hAt : AtBlock config b skip state) {offset length : Nat}
    (hShort : length < config.raw) :
    Runs config origin state (InLoop config origin b skip bytes before data state offset length 0)
      (updateSingleSampleBuffer (b % config.blockCount) offset length >>= fun _ =>
        pure BlockOutcome.done)
      fun outcome after =>
        Known config (BlockEnd config origin b skip bytes before data outcome after) := by
  refine Runs.bind (update_runs hCount hAt offset length) ?_
  intro _ after
  refine Runs.choose fun copied => Runs.assume fun hAfter => ?_
  subst hAfter
  refine Runs.pure fun shared h =>
    ⟨h.1, ⟨hAt.index, hAt.points, hAt.status, hAt.skip⟩, h.2.1.block, ?_, ?_⟩
  · exact ⟨h.2.1.sent.started, h.2.1.sent.whole, h.2.1.sent.payload⟩
  · intro hNear
    obtain ⟨hInside, hRest, hAligned, hBuffer, hWhole⟩ := h.2.1.shape hNear
    have hCopied := h.2.2 hNear hInside.le
    have hAll : (bytes.drop offset).take length = bytes.drop offset := by
      apply List.take_of_length_le
      rw [List.length_drop]
      omega
    rw [Nat.add_zero] at hRest hWhole
    refine ⟨?_, ?_, hWhole⟩
    · rw [hCopied, hAll]
      exact hRest
    · have hLength : copied.length = length := by
        rw [hCopied, hAll, List.length_drop]
        omega
      rw [List.length_append, hLength]
      rcases hAligned with hNil | hZero
      · rw [hNil, List.length_nil]
        omega
      · omega

omit hCount in
theorem InLoop.convert {state : StreamState} {offset length samples count : Nat}
    {converted : List UInt8} {blocks : List (List UInt8)}
    (h : InLoop config origin b skip bytes before data state offset length samples blocks)
    (hBatch : config.raw * count ≤ length)
    (hConverted : blocks.length < b + config.blockCount → offset + length ≤ bytes.length →
      converted = (Chunk.pieces config.raw count (bytes.drop offset)).flatMap config.convert) :
    InLoop config origin b skip bytes before data
      { state with outputBuffer := state.outputBuffer ++ converted }
      (offset + config.raw * count) (length - config.raw * count) (samples + count) blocks := by
  have hEnd : ∀ shape : Shape config bytes before data state offset length samples,
      0 < count → state.sampleBuffer = [] := by
    intro shape hPos
    have := Nat.mul_pos config.raw_pos hPos
    exact shape.aligned.resolve_right (by omega)
  have hDrop : (before ++ data).drop (config.raw * (state.sentSamples + (samples + count))) =
      ((before ++ data).drop (config.raw * (state.sentSamples + samples))).drop
        (config.raw * count) := by
    rw [List.drop_drop, ← Nat.mul_add, Nat.add_assoc]
  refine ⟨h.block, ⟨h.sent.started, h.sent.whole, h.sent.payload⟩, ?_, ?_⟩
  · intro hNear
    have hShape := h.shape hNear
    have hInside := hShape.inside
    refine ⟨by omega, ?_, ?_, hShape.short, ?_⟩
    · rw [hDrop, ← hShape.rest]
      rcases Nat.eq_zero_or_pos count with hZero | hPos
      · rw [hZero, Nat.mul_zero, Nat.add_zero, List.drop_zero]
      · simp only [hEnd hShape hPos, List.nil_append]
        rw [List.drop_drop]
    · rcases hShape.aligned with hNil | hZero
      · exact .inl hNil
      · exact .inr (by omega)
    · have hLength := congrArg List.length hShape.rest
      have hWhole := hShape.whole
      rw [List.length_append, List.length_drop, List.length_drop] at hLength
      have hMul := Nat.mul_add config.raw (state.sentSamples + samples) count
      rw [Nat.add_assoc] at hMul
      rcases Nat.eq_zero_or_pos count with hZero | hPos
      · rw [hZero]
        exact hWhole
      · rw [hEnd hShape hPos, List.length_nil] at hLength
        simp only
        omega
  · intro hNear
    have hShape := h.shape (by omega)
    rw [h.output hNear, hConverted hNear hShape.inside.le, Chunk.pieces_add, List.flatMap_append]
    rcases Nat.eq_zero_or_pos count with hZero | hPos
    · rw [hZero, Chunk.pieces_zero, Chunk.pieces_zero]
    · rw [List.drop_drop, ← Nat.mul_add, ← hShape.rest, hEnd hShape hPos, List.nil_append]

omit hCount in
theorem Checked.rest {state : StreamState} (hAt : AtBlock config b skip state)
    (offset length samples : Nat) :
    Rest config origin state
      (Checked config origin b skip bytes before data state offset length samples) :=
  ⟨fun blocks more h => ⟨h.block.append more, h.sent.append more, h.shape, h.output⟩,
    fun blocks h => h.sent, by rw [hAt.status]; decide⟩

omit hCount in
theorem Checked.send {state : StreamState} {offset length samples : Nat}
    {blocks : List (List UInt8)}
    (h : Checked config origin b skip bytes before data state offset length samples blocks) :
    InLoop config origin b skip bytes before data (state.afterSend config samples) offset length 0
      blocks := by
  have hSent : SentRight config origin (state.afterSend config samples) blocks := by
    refine h.sent.send h.block.prefix h.shape.whole ?_ rfl
    rw [← h.output]
    simp [StreamState.payload, StreamState.afterSend, StreamConfig.frame]
  refine ⟨h.block, hSent, fun _ => ?_, fun _ => ?_⟩
  · exact ⟨h.shape.inside, h.shape.rest, h.shape.aligned, h.shape.short, h.shape.whole⟩
  · rfl

theorem send_runs {state : StreamState} (hAt : AtBlock config b skip state)
    (offset length samples : Nat) :
    Runs config origin state
      (Checked config origin b skip bytes before data state offset length samples)
      (sendOutputBuffer config)
      fun sent after => Known config fun blocks =>
        after = (if sent then
          { state with frames := state.frames ++ [config.frame state.outputBuffer] } else state) ∧
        Checked config origin b skip bytes before data state offset length samples blocks :=
  Runs.socketBind hCount (Checked.rest hAt offset length samples) fun _ =>
    Runs.pure fun _ h => ⟨h.1, rfl, h.2⟩

/-- The loop of `process_capture_block`, by induction on its fuel. Every iteration uses up a
sample of the block, except for one that has to make room in the output buffer first. -/
theorem loop_runs (fuel : Nat) {state : StreamState} (hAt : AtBlock config b skip state)
    (offset length samples : Nat) (hEmpty : samples = 0 → state.outputBuffer = [])
    (hFuel : length + min samples 1 < fuel) :
    Runs config origin state
      (InLoop config origin b skip bytes before data state offset length samples)
      (processLoop config (b % config.blockCount) fuel offset length samples)
      fun outcome after =>
        Known config (BlockEnd config origin b skip bytes before data outcome after) := by
  induction fuel generalizing state offset length samples with
  | zero => exact absurd hFuel (Nat.not_lt_zero _)
  | succ fuel ih =>
      refine Runs.bind (Runs.processSamples hCount hAt.index (fun blocks h => h.block.block) offset
        length (hAt.rest offset length samples)) ?_
      intro count after
      refine Runs.choose fun converted => Runs.assume fun hEq => ?_
      obtain ⟨hBatch, rfl⟩ := hEq
      have hMul : config.raw * count ≤ length := hBatch ▸ config.raw_mul_batch _ _
      have hLess : config.raw ≤ length - config.raw * count →
          length - config.raw * count + min 0 1 < fuel := by
        intro hMore
        rcases Nat.eq_zero_or_pos count with hZero | hPos
        · have hSamples : samples ≠ 0 := by
            intro hNone
            rw [hEmpty hNone] at hBatch
            have := config.batch_pos (hMore.trans (Nat.sub_le _ _))
            omega
          omega
        · have := Nat.mul_pos config.raw_pos hPos
          omega
      refine Runs.weaken ?_ fun blocks h => h.1.convert hMul h.2
      obtain ⟨next, hNext⟩ : ∃ next : StreamState, next =
        { state with outputBuffer := state.outputBuffer ++ converted } := ⟨_, rfl⟩
      have hAtNext : AtBlock config b skip next := by
        rw [hNext]
        exact ⟨hAt.index, hAt.points, hAt.status, hAt.skip⟩
      rw [← hNext]
      -- What follows when there is nothing more to send from this iteration.
      have hRest : ∀ {last : StreamState}, AtBlock config b skip last →
          (config.raw ≤ length - config.raw * count → last.outputBuffer = []) →
          Runs config origin last
            (InLoop config origin b skip bytes before data last (offset + config.raw * count)
              (length - config.raw * count) 0)
            (if config.raw ≤ length - config.raw * count then
              processLoop config (b % config.blockCount) fuel (offset + config.raw * count)
                (length - config.raw * count) 0
            else do
              updateSingleSampleBuffer (b % config.blockCount) (offset + config.raw * count)
                (length - config.raw * count)
              pure BlockOutcome.done)
            fun outcome after =>
              Known config (BlockEnd config origin b skip bytes before data outcome after) := by
        intro last hLast hNone
        split_ifs with hMore
        · exact ih hLast _ _ 0 (fun _ => hNone hMore) (hLess hMore)
        · exact loop_end_runs hCount hLast (by omega)
      by_cases hSome : 0 < samples + count
      · rw [if_pos hSome]
        refine Runs.bind (Runs.lookAtRing hCount hAtNext.index
          (fun ring => checkReadBlock_eq hCount hAtNext.points ring)
          (fun blocks h => (List.getElem?_eq_some_iff.mp h.block.block).1)
          (hAtNext.rest _ _ _)) ?_
        intro ok after
        refine Runs.split (Runs.assume fun hOk => ?_) (Runs.assume fun hFailed => ?_)
        · obtain ⟨rfl, rfl⟩ := hOk
          rw [if_pos rfl]
          -- The writer is less than a ring ahead at this moment, so all that was read is right.
          refine Runs.weaken (Runs.bind (send_runs hCount hAtNext _ _ _) ?_) fun blocks h =>
            ⟨h.1.block, h.1.sent, h.1.shape (by omega), h.1.output h.2⟩
          intro sent after
          refine Runs.assume fun hAfter => ?_
          cases sent with
          | true =>
              rw [if_pos rfl]
              rw [if_pos rfl] at hAfter
              subst hAfter
              exact Runs.weaken
                (hRest ⟨hAtNext.index, hAtNext.points, hAtNext.status, hAtNext.skip⟩ fun _ => rfl)
                fun blocks h => h.send
          | false =>
              rw [if_neg Bool.false_ne_true]
              rw [if_neg Bool.false_ne_true] at hAfter
              subst hAfter
              refine Runs.pure fun shared h => ⟨h.1, h.2.sent, ?_⟩
              rw [hAtNext.status]
              decide
        · obtain ⟨rfl, rfl⟩ := hFailed
          rw [if_neg Bool.false_ne_true]
          refine Runs.pure fun shared h => ⟨h.1, ?_, nofun⟩
          exact ⟨h.2.sent.started, h.2.sent.whole, h.2.sent.payload⟩
      · obtain ⟨rfl, rfl⟩ : samples = 0 ∧ count = 0 := by omega
        rw [if_neg hSome]
        refine hRest hAtNext fun hMore => ?_
        rw [hEmpty rfl] at hBatch
        have := config.batch_pos (hMore.trans (Nat.sub_le _ _))
        omega

omit hCount in
theorem InStart.rest {state : StreamState} (hAt : AtBlock config b skip state) (offset length : Nat) :
    Rest config origin state (InStart config origin b skip bytes before data state offset length) := by
  refine ⟨?_, fun blocks h => h.sent, by rw [hAt.status]; decide⟩
  intro blocks more h
  refine ⟨h.block.append more, h.sent.append more, fun hNear => h.shape ?_⟩
  rw [List.length_append] at hNear
  omega

omit hCount in
theorem Kept.append {state : StreamState} (h : Kept config before state) :
    (before ++ data).drop (config.raw * state.sentSamples) = state.sampleBuffer ++ data := by
  rw [List.drop_append_of_le_length h.whole, h.rest]

omit hCount in
theorem InStart.loop {state : StreamState} {offset length : Nat} {blocks : List (List UInt8)}
    (h : InStart config origin b skip bytes before data state offset length blocks)
    (hEmpty : state.sampleBuffer = []) (hOutput : state.outputBuffer = []) :
    InLoop config origin b skip bytes before data state offset length 0 blocks := by
  refine ⟨h.block, h.sent, ?_, fun _ => hOutput⟩
  intro hNear
  obtain ⟨hInside, hData, hKept⟩ := h.shape hNear
  refine ⟨hInside, ?_, .inl hEmpty, hKept.short, ?_⟩
  · rw [Nat.add_zero, hKept.append, hData]
  · rw [Nat.add_zero, List.length_append]
    exact hKept.whole.trans (Nat.le_add_right _ _)

omit hCount in
/-- The block does not complete the sample: all of it is kept. -/
theorem InStart.short {state : StreamState} {offset length toCopy : Nat} {copied : List UInt8}
    {blocks : List (List UInt8)}
    (h : InStart config origin b skip bytes before data state offset length blocks)
    (hOutput : state.outputBuffer = [])
    (hToCopy : toCopy = min length (config.raw - state.sampleBuffer.length))
    (hShort : state.sampleBuffer.length + toCopy < config.raw)
    (hCopied : blocks.length < b + 1 + config.blockCount → offset + toCopy ≤ bytes.length →
      copied = (bytes.drop offset).take toCopy) :
    InLoop config origin b skip bytes before data
      { state with sampleBuffer := state.sampleBuffer ++ copied } (offset + toCopy)
      (length - toCopy) 0 blocks := by
  refine ⟨h.block, ⟨h.sent.started, h.sent.whole, h.sent.payload⟩, ?_, fun _ => hOutput⟩
  intro hNear
  obtain ⟨hInside, hData, hKept⟩ := h.shape hNear
  have hAll : toCopy = length := by omega
  have hBytes : copied = data := by
    rw [hCopied hNear (by omega), hData, List.take_of_length_le]
    rw [← hData, List.length_drop]
    omega
  have hLength : data.length = length := by
    rw [← hData, List.length_drop]
    omega
  refine ⟨by omega, ?_, .inr (by omega), ?_, ?_⟩
  · rw [Nat.add_zero, hKept.append, hBytes, List.drop_of_length_le (show bytes.length ≤ offset + toCopy
      by omega), List.append_nil]
  · rw [List.length_append, hBytes]
    omega
  · rw [Nat.add_zero, List.length_append]
    exact hKept.whole.trans (Nat.le_add_right _ _)

omit hCount in
/-- The block completes the sample, which goes into the output buffer. -/
theorem InStart.full {state : StreamState} {offset length toCopy : Nat} {copied : List UInt8}
    {blocks : List (List UInt8)}
    (h : InStart config origin b skip bytes before data state offset length blocks)
    (hLength : copied.length = toCopy)
    (hToCopy : toCopy = min length (config.raw - state.sampleBuffer.length))
    (hFull : config.raw ≤ state.sampleBuffer.length + toCopy)
    (hCopied : blocks.length < b + config.blockCount → offset + toCopy ≤ bytes.length →
      copied = (bytes.drop offset).take toCopy) :
    let sample := state.sampleBuffer ++ copied
    let samples := config.batch [] sample.length
    InLoop config origin b skip bytes before data
      { state with
        sampleBuffer := sample.drop (samples * config.raw)
        outputBuffer := (Chunk.pieces config.raw samples sample).flatMap config.convert }
      (offset + toCopy) (length - toCopy) samples blocks := by
  intro sample samples
  have hSample : blocks.length < b + 1 + config.blockCount →
      sample.length = config.raw ∧ samples = 1 := by
    intro hNear
    have hShort := (h.shape hNear).2.2.short
    have hWhole : sample.length = config.raw := by
      rw [List.length_append]
      omega
    exact ⟨hWhole, by rw [← config.batch_one, ← hWhole]⟩
  refine ⟨h.block, ⟨h.sent.started, h.sent.whole, h.sent.payload⟩, ?_, ?_⟩
  · intro hNear
    obtain ⟨hInside, hData, hKept⟩ := h.shape hNear
    obtain ⟨hWhole, hOne⟩ := hSample hNear
    have hShort := hKept.short
    have hDataLength : data.length = length := by
      rw [← hData, List.length_drop]
      omega
    have hNil : sample.drop (samples * config.raw) = [] := by
      rw [hOne, Nat.one_mul, ← hWhole, List.drop_length]
    have hMul : config.raw * (state.sentSamples + 1) = config.raw * state.sentSamples + config.raw :=
      Nat.mul_succ _ _
    have hTail : (before ++ data).drop (config.raw * (state.sentSamples + 1)) =
        bytes.drop (offset + toCopy) := by
      rw [hMul, ← List.drop_drop, hKept.append,
        show config.raw = state.sampleBuffer.length + toCopy by omega, List.drop_length_add_append,
        ← hData, List.drop_drop]
    refine ⟨by omega, ?_, .inl hNil, ?_, ?_⟩
    · change sample.drop (samples * config.raw) ++ bytes.drop (offset + toCopy) =
        (before ++ data).drop (config.raw * (state.sentSamples + samples))
      rw [hNil, hOne, hTail, List.nil_append]
    · change (sample.drop (samples * config.raw)).length < config.raw
      rw [hNil]
      exact config.raw_pos
    · have hKeptLength := congrArg List.length hKept.rest
      have hKeptWhole := hKept.whole
      rw [List.length_drop] at hKeptLength
      change config.raw * (state.sentSamples + samples) ≤ (before ++ data).length
      rw [hOne, hMul, List.length_append]
      omega
  · intro hNear
    obtain ⟨hInside, hData, hKept⟩ := h.shape (by omega)
    obtain ⟨hWhole, hOne⟩ := hSample (by omega)
    have hShort := hKept.short
    have hTake : ((before ++ data).drop (config.raw * state.sentSamples)).take config.raw =
        sample := by
      rw [hKept.append, show config.raw = state.sampleBuffer.length + toCopy by omega,
        List.take_length_add_append, ← hData, ← hCopied hNear (by omega)]
    simp only [hOne]
    rw [Chunk.pieces_one hWhole]
    simp [Chunk.pieces, hTake]

omit hCount in
theorem forEach_pure {Item Value : Type} (value : Item → Value) (items : List Item)
    (state : StreamState) :
    (Code.forEach (fun item => (pure (value item) : StreamCode Value)) items) state =
      .done state (items.map value) := by
  induction items with
  | nil => rfl
  | cons item rest ih =>
      change ((Code.forEach _ rest) state).bind _ = _
      rw [ih]
      rfl

omit hCount in
theorem processSamples_fetchSample (sample : List UInt8) (length : Nat) (state : StreamState) :
    processSamples config (fetchSample sample) length state =
      .done
        { state with
          outputBuffer := state.outputBuffer ++
            (Chunk.pieces config.raw (config.batch state.outputBuffer length) sample).flatMap
              config.convert }
        (config.batch state.outputBuffer length) := by
  have hConvert : ∀ i, convertSample config (fetchSample sample) (config.raw * i) =
      (pure (config.convert ((sample.drop (config.raw * i)).take config.raw)) :
        StreamCode (List UInt8)) := by
    intro i
    funext state
    change (Code.forEach (fun offset => (pure (sample.getD (config.raw * i + offset) 0) :
      StreamCode UInt8)) config.loads state).bind _ = _
    rw [forEach_pure, Thread.bind_done, ← config.convert_piece]
  change (Code.forEach (fun i => convertSample config (fetchSample sample) (config.raw * i))
    (List.range (config.batch state.outputBuffer length)) state).bind _ = _
  simp only [hConvert]
  rw [forEach_pure, Thread.bind_done, Chunk.pieces, List.flatMap_def, List.map_map]
  rfl

theorem single_runs {state : StreamState} (hAt : AtBlock config b skip state)
    (hOutput : state.outputBuffer = []) (offset length : Nat) :
    Runs config origin state (InStart config origin b skip bytes before data state offset length)
      (processSingleSample config (b % config.blockCount) offset length)
      fun result after => Known config fun blocks =>
        (AtBlock config b skip after ∧ (result.1 = 0 → after.outputBuffer = [])) ∧
        InLoop config origin b skip bytes before data after (offset + result.2) (length - result.2)
          result.1 blocks := by
  refine Runs.getBind ?_
  by_cases hSome : 0 < state.sampleBuffer.length
  · rw [if_pos hSome]
    refine Runs.bind (Runs.copy hCount hAt.index (fun blocks h => h.block.block) _ offset _
      (InStart.rest hAt offset length)) ?_
    intro copied after
    refine Runs.assume fun hAfter => ?_
    subst hAfter
    refine Runs.modifyBind ?_
    by_cases hFull : config.raw ≤ after.sampleBuffer.length +
        min length (config.raw - after.sampleBuffer.length)
    · rw [if_pos hFull]
      refine Runs.doneBind (processSamples_fetchSample _ _ _)
        (Runs.modifyBind (Runs.pure fun shared h => ?_))
      obtain ⟨hCaptured, hStart, hLength, hCopied⟩ := h
      have hKept : decide (after.sampleBuffer.length +
          min length (config.raw - after.sampleBuffer.length) < config.raw) = false := by
        rw [decide_eq_false_iff_not]
        omega
      rw [hKept] at hCopied
      have hLoop := hStart.full hLength rfl hFull hCopied
      simp only [hOutput, List.nil_append]
      refine ⟨hCaptured, ⟨⟨hAt.index, hAt.points, hAt.status, hAt.skip⟩, fun hNone => ?_⟩, hLoop⟩
      rw [hNone, Chunk.pieces_zero, List.flatMap_nil]
    · rw [if_neg hFull]
      refine Runs.pure fun shared h => ?_
      obtain ⟨hCaptured, hStart, hLength, hCopied⟩ := h
      have hKept : decide (after.sampleBuffer.length +
          min length (config.raw - after.sampleBuffer.length) < config.raw) = true := by
        rw [decide_eq_true_iff]
        omega
      rw [hKept] at hCopied
      exact ⟨hCaptured, ⟨⟨hAt.index, hAt.points, hAt.status, hAt.skip⟩, fun _ => hOutput⟩,
        hStart.short hOutput rfl (by omega) hCopied⟩
  · rw [if_neg hSome]
    have hEmpty : state.sampleBuffer = [] := List.length_eq_zero_iff.mp (by omega)
    exact Runs.pure fun shared h => ⟨h.1, ⟨hAt, fun _ => hOutput⟩, h.2.loop hEmpty hOutput⟩

theorem block_runs {state : StreamState} (hAt : AtBlock config b skip state) (offset length : Nat) :
    Runs config origin state (InStart config origin b skip bytes before data state offset length)
      (processCaptureBlock config (b % config.blockCount) offset length)
      fun outcome after =>
        Known config (BlockEnd config origin b skip bytes before data outcome after) := by
  refine Runs.modifyBind ?_
  have hAtStart : AtBlock config b skip { state with outputBuffer := [] } :=
    ⟨hAt.index, hAt.points, hAt.status, hAt.skip⟩
  refine Runs.weaken (Runs.bind (single_runs hCount hAtStart rfl offset length) ?_) fun blocks h =>
    ⟨h.block, ⟨h.sent.started, h.sent.whole, h.sent.payload⟩, fun hNear =>
      ⟨(h.shape hNear).1, (h.shape hNear).2.1, (h.shape hNear).2.2.rest,
        (h.shape hNear).2.2.short, (h.shape hNear).2.2.whole⟩⟩
  rintro ⟨samples, taken⟩ after
  exact Runs.assume fun hAfter =>
    loop_runs hCount (length + 2) hAfter.1 _ _ _ hAfter.2 (by omega)

end Block

end Server
