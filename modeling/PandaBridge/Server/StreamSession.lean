import PandaBridge.Server.StreamSafety

/-! `send_data_stream` as a whole, from the moment the reader is opened, against a writer
that does what it likes. -/
namespace Server

open Concurrent

section Session

variable (config : StreamConfig) (origin : StreamStart)

/-- The reader is about to ask for its next block. -/
structure Awaits (state : StreamState) : Prop where
  points : Points config.blockCount state.reader.bufferCycle state.reader.outPtr state.index
  status : state.reader.status = .closed

/-- What the thread knows between two blocks. What it keeps is right, or the writer is so far
ahead that the next check fails. -/
structure Between (state : StreamState) (blocks : List (List UInt8)) : Prop where
  start : origin.start ≤ state.index
  index : state.index ≤ blocks.length
  sent : SentRight config origin state blocks
  kept : blocks.length < state.index + config.blockCount →
    Kept config (origin.used blocks state.index) state ∧
      state.skipBytes = origin.left blocks state.index

/-- The reader's block, behind `before` bytes of the stream. What is kept from them is right
until the writer has released `limit` blocks. -/
structure Located (b : Nat) (bytes before : List UInt8) (limit : Nat) (state : StreamState)
    (blocks : List (List UInt8)) : Prop where
  start : origin.start ≤ b
  block : blocks[b]? = some bytes
  used : origin.used blocks b = before
  sent : SentRight config origin state blocks
  kept : blocks.length < limit →
    Kept config before state ∧ state.skipBytes = origin.left blocks b

/-- A block that `get_read_block` delivered, with the length it has read. -/
def Delivered (b : Nat) (bytes before : List UInt8) (state : StreamState) (length : Nat)
    (blocks : List (List UInt8)) : Prop :=
  Located config origin b bytes before (b + 1 + config.blockCount) state blocks ∧
    (blocks.length < b + 1 + config.blockCount → length = bytes.length)

/-- How `get_read_block` ends. -/
def ReadEnd : ReadResult → StreamState → StreamShared → Prop
  | .null, state, shared => StreamInv config origin shared state
  | .timeout, state, shared =>
      Awaits config state ∧ Known config (Between config origin state) shared
  | .block slot length, state, shared => ∃ b bytes before,
      slot = b % config.blockCount ∧ AtBlock config b state.skipBytes state ∧
        Known config (Delivered config origin b bytes before state length) shared

/-- How a turn of `send_data_stream` ends. -/
def RoundEnd (goOn : Bool) (state : StreamState) (shared : StreamShared) : Prop :=
  StreamInv config origin shared state ∧
    (goOn = true → Awaits config state ∧ Known config (Between config origin state) shared)

variable {config origin} {state : StreamState}

theorem Between.rest (hAwaits : Awaits config state) :
    Rest config origin state (Between config origin state) := by
  refine ⟨?_, fun blocks h => h.sent, by rw [hAwaits.status]; decide⟩
  intro blocks more h
  refine ⟨h.start, ?_, h.sent.append more, ?_⟩
  · rw [List.length_append]
    exact h.index.trans (Nat.le_add_right _ _)
  · intro hNear
    rw [List.length_append] at hNear
    rw [StreamStart.used_append h.index, StreamStart.left_append h.index]
    exact h.kept (by omega)

theorem Located.rest {b limit : Nat} {bytes before : List UInt8}
    (hStatus : state.reader.status ≠ .allRead) :
    Rest config origin state (Located config origin b bytes before limit state) := by
  refine ⟨?_, fun blocks h => h.sent, hStatus⟩
  intro blocks more h
  have hLess : b < blocks.length := (List.getElem?_eq_some_iff.mp h.block).1
  refine ⟨h.start, ?_, ?_, h.sent.append more, ?_⟩
  · rw [List.getElem?_append_left hLess]
    exact h.block
  · rw [StreamStart.used_append hLess.le]
    exact h.used
  · intro hNear
    rw [List.length_append] at hNear
    rw [StreamStart.left_append hLess.le]
    exact h.kept (by omega)

theorem Delivered.rest {b length : Nat} {bytes before : List UInt8}
    (hStatus : state.reader.status ≠ .allRead) :
    Rest config origin state (Delivered config origin b bytes before state length) :=
  ⟨fun blocks more h => ⟨(Located.rest hStatus).grows blocks more h.1,
    grows_of_limit blocks more h.2⟩, fun _ h => h.1.sent, hStatus⟩

theorem StreamInv.of_known {shared : StreamShared} {known : List (List UInt8) → Prop}
    (hRest : Rest config origin state known) (h : Known config known shared) :
    StreamInv config origin shared state :=
  ⟨h.1, hRest.sent _ h.2, fun hStatus => absurd hStatus hRest.status⟩

/-- Everything was read: the whole samples of the capture are the samples sent. -/
theorem Between.complete (hCount : 0 < config.blockCount) {blocks : List (List UInt8)}
    (h : Between config origin state blocks) (hAll : state.index = blocks.length) :
    state.sentSamples = (origin.stream blocks).length / config.raw := by
  obtain ⟨hKept, _⟩ := h.kept (by omega)
  rw [StreamStart.used_all hAll] at hKept
  have hLength := congrArg List.length hKept.rest
  have hShort := hKept.short
  have hWhole := hKept.whole
  rw [List.length_drop] at hLength
  symm
  apply Nat.div_eq_of_lt_le
  · rw [Nat.mul_comm]
    exact hWhole
  · rw [Nat.mul_comm, Nat.mul_succ]
    omega

/-- The length of the block is read after the check, outside the mutex. -/
theorem measure_runs (hCount : 0 < config.blockCount) {b : Nat} {bytes before : List UInt8}
    (hAt : AtBlock config b state.skipBytes state) {slot : Nat}
    (hSlot : slot = b % config.blockCount) :
    Runs config origin state
      (fun blocks => Located config origin b bytes before (b + config.blockCount) state blocks ∧
        blocks.length < b + config.blockCount)
      (readWritten slot >>= fun length => pure (ReadResult.block slot length))
      (ReadEnd config origin) := by
  have hStatus : state.reader.status ≠ .allRead := by
    rw [hAt.status]
    decide
  -- At the moment of the check what is kept is right, whatever the writer does from now on.
  have hRuns : Runs config origin state
      (Located config origin b bytes before (b + 1 + config.blockCount) state)
      (readWritten slot >>= fun length => pure (ReadResult.block slot length))
      (ReadEnd config origin) := by
    refine Runs.askBind hCount (fun length blocks => blocks.length < b + 1 + config.blockCount →
      length = bytes.length) (Located.rest hStatus) ?_ fun length =>
        Runs.pure fun shared h => ⟨b, bytes, before, hSlot, hAt, h⟩
    intro shared choice hKnown _ hNear
    change shared.ring.written slot = bytes.length
    rw [hSlot]
    refine hKnown.1.holds.written b bytes.length ?_ ?_
    · rw [List.getElem?_map, hKnown.2.block, Option.map_some]
    · rw [List.length_map]
      omega
  exact hRuns.weaken fun blocks h =>
    ⟨h.1.start, h.1.block, h.1.used, h.1.sent, fun _ => h.1.kept h.2⟩

theorem read_runs (hCount : 0 < config.blockCount) (hAwaits : Awaits config state) :
    Runs config origin state (Between config origin state) (getReadBlock config)
      (ReadEnd config origin) := by
  refine Runs.getBind ?_
  rw [if_pos hAwaits.status]
  refine Runs.askSafe hCount (Between.rest hAwaits) ?_
  intro shared choice hKnown hGuard
  have hCycles : WithinCycles config.blockCount (shared.blocks.map List.length).length
      state.index := by
    have hBefore : WithinCycles config.blockCount shared.blocks.length (state.index - 1) := hGuard
    have hLap : (state.index - 1) / config.blockCount ≤ state.index / config.blockCount :=
      Nat.div_le_div_right (Nat.sub_le _ _)
    rw [List.length_map]
    exact Nat.lt_of_lt_of_le hBefore (Nat.add_le_add_right hLap _)
  have hWaiting := waiting_iff hKnown.1.holds hCycles hAwaits.points
    (by rw [List.length_map]; exact hKnown.2.index)
  rw [List.length_map] at hWaiting
  change Safe _ _ _ _ ((if state.reader.waiting shared.ring then _ else _ : StreamCode ReadResult)
    state) shared
  by_cases hWait : state.reader.waiting shared.ring = true
  · rw [if_pos hWait]
    have hAll := hWaiting.mp hWait
    change Safe _ _ _ _ ((if shared.ring.state = .clearing then _ else _ : StreamCode ReadResult)
      state) shared
    by_cases hClearing : shared.ring.state = .clearing
    · rw [if_pos hClearing]
      refine ⟨hKnown.1, ?_, fun _ => ⟨?_, hKnown.2.complete hCount hAll⟩⟩
      · exact ⟨hKnown.2.sent.started, hKnown.2.sent.whole, hKnown.2.sent.payload⟩
      · rw [hClearing]
        decide
    · rw [if_neg hClearing]
      exact ⟨hAwaits, hKnown⟩
  · rw [if_neg hWait]
    have hLess : state.index < shared.blocks.length :=
      Nat.lt_of_le_of_ne hKnown.2.index (mt hWaiting.mpr hWait)
    obtain ⟨bytes, hBlock⟩ : ∃ bytes, shared.blocks[state.index]? = some bytes :=
      ⟨_, List.getElem?_eq_getElem hLess⟩
    have hAt : AtBlock config state.index state.skipBytes
        { state with
          reader := state.reader.advance config.blockCount
          index := state.index + 1 } := by
      refine ⟨rfl, hAwaits.points.advance hCount, ?_, rfl⟩
      rw [← hAwaits.status]
      unfold ReaderState.advance
      split_ifs <;> rfl
    refine Runs.modifyBind (Runs.bind (Runs.lookAtRing hCount hAt.index
      (fun ring => ⟨_, _, hAwaits.points, rfl⟩)
      (fun blocks h => (List.getElem?_eq_some_iff.mp h.block).1)
      (Located.rest (by rw [hAt.status]; decide))) ?_) shared
      ⟨hKnown.1, hKnown.2.start, hBlock, rfl,
        ⟨hKnown.2.sent.started, hKnown.2.sent.whole, hKnown.2.sent.payload⟩, fun hNear =>
          ⟨⟨(hKnown.2.kept hNear).1.rest, (hKnown.2.kept hNear).1.short,
            (hKnown.2.kept hNear).1.whole⟩, (hKnown.2.kept hNear).2⟩⟩
    intro ok after
    refine Runs.split (Runs.assume fun hOk => ?_) (Runs.assume fun hFailed => ?_)
    · obtain ⟨rfl, rfl⟩ := hOk
      rw [if_pos rfl]
      exact measure_runs hCount hAt hAwaits.points.outPtr
    · obtain ⟨rfl, rfl⟩ := hFailed
      rw [if_neg Bool.false_ne_true]
      refine Runs.pure fun last h => ⟨h.1, ?_, nofun⟩
      exact ⟨h.2.sent.started, h.2.sent.whole, h.2.sent.payload⟩

theorem flush_runs (hCount : 0 < config.blockCount) (hAwaits : Awaits config state) :
    Runs config origin state (Between config origin state) askSocket (RoundEnd config origin) := by
  change Runs config origin state _ (askSocket >>= fun ok => pure ok) _
  refine Runs.socketBind hCount (Between.rest hAwaits) fun ok => Runs.pure fun shared h => ?_
  exact ⟨StreamInv.of_known (Between.rest hAwaits) h, fun _ => ⟨hAwaits, h⟩⟩

/-- The rest of a delivered block behind the bytes that are skipped. -/
theorem Delivered.start {b length : Nat} {bytes before : List UInt8} {blocks : List (List UInt8)}
    (h : Delivered config origin b bytes before state length blocks) :
    InStart config origin b (state.skipBytes - min state.skipBytes length) bytes before
      (bytes.drop (origin.left blocks b))
      { state with skipBytes := state.skipBytes - min state.skipBytes length }
      (min state.skipBytes length) (length - min state.skipBytes length) blocks := by
  obtain ⟨hLocated, hLength⟩ := h
  refine ⟨⟨hLocated.start, hLocated.block, ?_, ?_⟩, ?_, ?_⟩
  · rw [StreamStart.used_succ hLocated.start hLocated.block, hLocated.used]
  · intro hNear
    rw [StreamStart.left_succ hLocated.start hLocated.block, (hLocated.kept hNear).2, hLength hNear]
  · exact ⟨hLocated.sent.started, hLocated.sent.whole, hLocated.sent.payload⟩
  · intro hNear
    obtain ⟨hKept, hSkip⟩ := hLocated.kept hNear
    have hAll := hLength hNear
    refine ⟨by omega, ?_, hKept.rest, hKept.short, hKept.whole⟩
    rw [hSkip, hAll]
    rcases Nat.le_total (origin.left blocks b) bytes.length with hSome | hNone
    · rw [Nat.min_eq_left hSome]
    · rw [Nat.min_eq_right hNone, List.drop_length, List.drop_of_length_le hNone]

theorem InBlock.between {b skip : Nat} {bytes before data : List UInt8}
    {blocks : List (List UInt8)} (hAt : AtBlock config b skip state)
    (h : InBlock config origin b skip bytes before data blocks)
    (hSent : SentRight config origin state blocks)
    (hKept : blocks.length < b + 1 + config.blockCount → Kept config (before ++ data) state) :
    Between config origin state blocks := by
  have hLess : b < blocks.length := (List.getElem?_eq_some_iff.mp h.block).1
  refine ⟨?_, ?_, hSent, ?_⟩
  · rw [hAt.index]
    exact h.start.trans (Nat.le_succ b)
  · rw [hAt.index]
    exact hLess
  · rw [hAt.index]
    intro hNear
    rw [h.used, h.left hNear]
    exact ⟨hKept hNear, hAt.skip⟩

theorem AtBlock.awaits {b skip : Nat} (h : AtBlock config b skip state) : Awaits config state :=
  ⟨by rw [h.index]; exact h.points, h.status⟩

theorem send_block_runs (hCount : 0 < config.blockCount) {b length : Nat}
    {bytes before : List UInt8} (hAt : AtBlock config b state.skipBytes state) :
    Runs config origin state (Delivered config origin b bytes before state length)
      (sendBlockData config (b % config.blockCount) length) (RoundEnd config origin) := by
  refine Runs.getBind (Runs.modifyBind ?_)
  obtain ⟨skip, hSkip⟩ : ∃ skip, skip = state.skipBytes - min state.skipBytes length := ⟨_, rfl⟩
  obtain ⟨next, hNext⟩ : ∃ next : StreamState, next = { state with skipBytes := skip } := ⟨_, rfl⟩
  have hAtNext : AtBlock config b skip next := by
    rw [hNext]
    exact ⟨hAt.index, hAt.points, hAt.status, rfl⟩
  rw [← hSkip, ← hNext]
  -- The bytes that belong to the stream are fixed from here on.
  suffices hRuns : ∀ data, Runs config origin next
      (InStart config origin b skip bytes before data next (min state.skipBytes length)
        (length - min state.skipBytes length)) _ (RoundEnd config origin) by
    refine Runs.weaken (Runs.choose hRuns) fun blocks h => ⟨bytes.drop (origin.left blocks b), ?_⟩
    rw [hNext, hSkip]
    exact h.start
  intro data
  split_ifs with hSome
  · refine Runs.bind (block_runs hCount hAtNext _ _) ?_
    intro outcome after
    have hEnded : Runs config origin after
        (fun blocks => SentRight config origin after blocks ∧ after.reader.status ≠ .allRead)
        (pure false) (RoundEnd config origin) :=
      Runs.pure fun shared h => ⟨⟨h.1, h.2.1, fun hAll => absurd hAll h.2.2⟩, nofun⟩
    cases outcome with
    | done =>
        refine Runs.assume fun hAtAfter => ?_
        exact (flush_runs hCount hAtAfter.awaits).weaken fun blocks h => h.1.between hAtAfter h.2.1 h.2.2
    | overrun =>
        intro shared h
        refine Runs.socketBind hCount ⟨?_, fun blocks hSent => hSent.1, h.2.2⟩ (fun _ => hEnded) shared h
        exact fun blocks more hSent => ⟨hSent.1.append more, hSent.2⟩
    | disconnected => exact hEnded
    | exhausted => exact fun shared h => h.2.elim
  · refine (flush_runs hCount hAtNext.awaits).weaken fun blocks h => ?_
    refine h.block.between hAtNext h.sent fun hNear => ?_
    obtain ⟨hInside, hData, hKept⟩ := h.shape hNear
    have hNil : data = [] := by
      rw [← hData]
      exact List.drop_of_length_le (by omega)
    rw [hNil, List.append_nil]
    exact hKept

theorem round_runs (hCount : 0 < config.blockCount) (hAwaits : Awaits config state) :
    Runs config origin state (Between config origin state) (sendRound config)
      (RoundEnd config origin) := by
  intro shared hShared
  refine (read_runs hCount hAwaits shared hShared).bind ?_
  intro result after now hRead
  have hStop : ∀ {known : List (List UInt8) → Prop}, Rest config origin after known →
      Runs config origin after known (pure false) (RoundEnd config origin) :=
    fun hRest => Runs.pure fun last h => ⟨StreamInv.of_known hRest h, nofun⟩
  cases result with
  | null => exact ⟨hRead, nofun⟩
  | timeout =>
      obtain ⟨hAwaitsAfter, hKnown⟩ := hRead
      refine Runs.socketBind hCount (Between.rest hAwaitsAfter) (fun connected => ?_) now hKnown
      split_ifs
      · exact flush_runs hCount hAwaitsAfter
      · exact hStop (Between.rest hAwaitsAfter)
  | block slot length =>
      obtain ⟨b, bytes, before, rfl, hAt, hKnown⟩ := hRead
      have hStatus : after.reader.status ≠ .allRead := by
        rw [hAt.status]
        decide
      refine Runs.socketBind hCount (Delivered.rest hStatus) (fun connected => ?_) now hKnown
      split_ifs
      · exact send_block_runs hCount hAt
      · exact hStop (Delivered.rest hStatus)

theorem stream_runs (hCount : 0 < config.blockCount) (rounds : Nat)
    (hAwaits : Awaits config state) :
    Runs config origin state (Between config origin state) (sendDataStream config rounds)
      fun _ after shared => StreamInv config origin shared after := by
  induction rounds generalizing state with
  | zero => exact Runs.pure fun shared h => StreamInv.of_known (Between.rest hAwaits) h
  | succ rounds ih =>
      intro shared hShared
      refine (round_runs hCount hAwaits shared hShared).bind ?_
      intro goOn after now hRound
      cases goOn with
      | false => exact hRound.1
      | true =>
          obtain ⟨hAwaitsAfter, hKnown⟩ := hRound.2 rfl
          exact ih hAwaitsAfter now hKnown

/-- The writer does not disturb what was sent, and after the end it does nothing. -/
theorem StreamInv.idle (hCount : 0 < config.blockCount) {shared : StreamShared}
    (h : StreamInv config origin shared state) (choice : StreamChoice) :
    StreamInv config origin ((streamWorld config.blockCount).idle choice shared) state := by
  obtain ⟨hCaptured, hSent, hAll⟩ := h
  obtain ⟨hNext, more, hMore⟩ := hCaptured.idle hCount choice
  refine ⟨hNext, ?_, ?_⟩
  · rw [hMore]
    exact hSent.append more
  · intro hStatus
    rw [idle_of_inactive (hAll hStatus).1 choice]
    exact hAll hStatus

end Session

/-! ### From the opening of the reader on -/

/-- A new capture, after these steps of its writer. -/
def capturing (blockCount : Nat) (ring : CaptureBuffer) (memory : Nat → Nat → UInt8)
    (writes : List StreamChoice) : StreamShared :=
  writes.foldl (fun shared choice => (streamWorld blockCount).idle choice shared)
    { ring := ring.startWrite, memory := memory, blocks := [] }

theorem captured_capturing {blockCount : Nat} (hCount : 0 < blockCount) (ring : CaptureBuffer)
    (memory : Nat → Nat → UInt8) (writes : List StreamChoice) :
    Captured blockCount (capturing blockCount ring memory writes) := by
  suffices hFold : ∀ shared, Captured blockCount shared → Captured blockCount
      (writes.foldl (fun shared choice => (streamWorld blockCount).idle choice shared) shared) from
    hFold _ (Captured.startWrite ring memory)
  induction writes with
  | nil => exact fun _ h => h
  | cons choice rest ih => exact fun shared h => ih _ (h.idle hCount choice).1

/-- What `send_data_stream` starts with: the opened reader and the bytes it has to skip. -/
def openedStream (reader : ReaderState) (start skip : Nat) : StreamState where
  reader := reader
  index := start
  skipBytes := skip
  sampleBuffer := []
  outputBuffer := []
  frames := []
  sentSamples := 0

theorem between_openedStream (config : StreamConfig) (reader : ReaderState) {start : Nat}
    (skip : Nat) {blocks : List (List UInt8)} (hStart : start ≤ blocks.length) :
    Between config ⟨start, skip⟩ (openedStream reader start skip) blocks := by
  have hNone : (blocks.take start).drop start = [] := by
    apply List.drop_of_length_le
    rw [List.length_take]
    exact Nat.min_le_left _ _
  refine ⟨Nat.le_refl _, hStart, ⟨hStart, ?_, ?_⟩, fun _ => ⟨⟨?_, config.raw_pos, ?_⟩, ?_⟩⟩
  · exact Nat.zero_le _
  · simp [openedStream, StreamState.payload, Chunk.pieces_zero]
  · simp [openedStream, StreamStart.used, hNone]
  · exact Nat.zero_le _
  · simp [openedStream, StreamStart.left, hNone]

section Opened

variable {config : StreamConfig} {readMargin : Nat} (hMargin : readMargin < config.blockCount)
variable (ring : CaptureBuffer) (memory : Nat → Nat → UInt8) (writes : List StreamChoice)
variable {reader opened : ReaderState} {lost : Nat}

include hMargin

/-- Every guarded run of a client, from any moment at which its reader is opened: what has been
transmitted is the conversion of consecutive samples from the reader's start offset on, and
when the reader is told that all is read, these are all the whole samples of the capture. -/
theorem stream_sends_captured_samples
    (hOpen : reader.openReader config.blockCount
      (capturing config.blockCount ring memory writes).ring readMargin = some (opened, lost))
    (skip rounds : Nat) (schedule : List (Move StreamChoice)) :
    let shared := capturing config.blockCount ring memory writes
    let start := readerStart config.blockCount readMargin shared.blocks.length
    let first : Config StreamShared StreamState StreamRequest StreamAnswer Unit :=
      ⟨shared, sendDataStream config rounds (openedStream opened start skip)⟩
    let last := (streamWorld config.blockCount).run schedule first
    (streamWorld config.blockCount).Guarded (streamGuard config.blockCount) schedule first →
      SentRight config ⟨start, skip⟩ last.thread.fields last.shared.blocks ∧
      (last.thread.fields.reader.status = .allRead →
        last.thread.fields.sentSamples =
          (StreamStart.stream ⟨start, skip⟩ last.shared.blocks).length / config.raw) := by
  intro shared start first last hGuarded
  have hCount : 0 < config.blockCount := Nat.lt_of_le_of_lt (Nat.zero_le _) hMargin
  have hCaptured := captured_capturing hCount ring memory writes
  have hPoints := computeReaderStart_points hCount hCaptured.holds hMargin
  rw [List.length_map] at hPoints
  unfold ReaderState.openReader at hOpen
  split_ifs at hOpen
  obtain ⟨rfl, rfl⟩ := Prod.mk.inj (Option.some.inj hOpen)
  have hBetween := between_openedStream config
    { captureCycle := shared.ring.captureCycle
      bufferCycle := (shared.ring.computeReaderStart config.blockCount readMargin).1
      outPtr := (shared.ring.computeReaderStart config.blockCount readMargin).2.1
      status := .closed } skip (readerStart_le hMargin shared.blocks.length)
  have hSafe := stream_runs hCount rounds ⟨hPoints, rfl⟩ shared ⟨hCaptured, hBetween⟩
  have hEnd := Safe.run (fun _ after now choice h _ => StreamInv.idle hCount h choice) hGuarded hSafe
  have hInv : StreamInv config ⟨start, skip⟩ last.shared last.thread.fields := by
    refine hEnd.inv_fields ?_
    exact fun _ _ _ h => h
  exact ⟨hInv.2.1, fun hStatus => (hInv.2.2 hStatus).2⟩

end Opened

/-! ### A ring of two blocks -/

/-- Samples of two bytes that are sent as they are. -/
def pairSamples : StreamConfig where
  blockCount := 2
  raw := 2
  binary := 2
  header := 0
  loads := [0, 1]
  emit bytes := bytes
  raw_pos := Nat.two_pos
  binary_pos := Nat.two_pos
  fits := by decide
  loads_inside := by decide
  emit_length _ h := h

/-- A first block of one and a half samples is there when the client opens its reader. -/
def pairWrites : List StreamChoice := [.fill 0 1, .fill 1 2, .fill 2 3, .release 3]

def pairShared : StreamShared :=
  capturing pairSamples.blockCount CaptureBuffer.createBuffer.addReader (fun _ _ => 0) pairWrites

def pairReader : ReaderState where
  captureCycle := 0
  bufferCycle := 0
  outPtr := 0
  status := .closed

def pairStart : Nat := readerStart pairSamples.blockCount 0 pairShared.blocks.length

def pairClient : Config StreamShared StreamState StreamRequest StreamAnswer Unit :=
  ⟨pairShared, sendDataStream pairSamples 4 (openedStream pairReader pairStart 0)⟩

/-- The writer completes the second block and fills the first slot anew. -/
def pairOverwrite : List (Move StreamChoice) :=
  [.idle (.fill 0 4), .idle (.release 1), .idle (.fill 0 7), .idle (.fill 1 8), .idle (.fill 2 9)]

/-- It releases that block too, and the capture ends. -/
def pairFinish : List (Move StreamChoice) := [.idle (.release 3), .idle .endWrite]

/-- The client makes some accesses, with a good socket. -/
def pairServe (count : Nat) : List (Move StreamChoice) :=
  List.replicate count (.serve (.socket true))

/-- The writer moves on after the client has kept the third byte. -/
def pairSchedule : List (Move StreamChoice) :=
  pairServe 10 ++ pairOverwrite ++ pairServe 8 ++ pairFinish ++ pairServe 11

theorem stream_sends_captured_pairs :
    (streamWorld pairSamples.blockCount).Guarded (streamGuard pairSamples.blockCount)
        pairSchedule pairClient ∧
      SentRight pairSamples ⟨pairStart, 0⟩
        ((streamWorld pairSamples.blockCount).run pairSchedule pairClient).thread.fields
        ((streamWorld pairSamples.blockCount).run pairSchedule pairClient).shared.blocks ∧
      ((streamWorld pairSamples.blockCount).run pairSchedule pairClient).thread.fields.payload =
        [1, 2, 3, 4, 7, 8] := by
  have hGuarded : (streamWorld pairSamples.blockCount).Guarded
      (streamGuard pairSamples.blockCount) pairSchedule pairClient := by
    decide +kernel
  have hOpen : (ReaderState.createReader 0).openReader pairSamples.blockCount pairShared.ring 0 =
      some (pairReader, 0) := by decide +kernel
  have hMargin : 0 < pairSamples.blockCount := by decide
  have hRight := stream_sends_captured_samples hMargin CaptureBuffer.createBuffer.addReader
    (fun _ _ => 0) pairWrites hOpen 0 4 pairSchedule hGuarded
  refine ⟨hGuarded, ?_, by decide +kernel⟩
  unfold pairClient pairStart pairShared
  exact hRight.1

/-- The writer moves on before the client keeps the third byte, which it takes from the new
block then. Every check succeeds, and everything is read. -/
theorem overwritten_residue_sent :
    let last := (streamWorld pairSamples.blockCount).run
      (pairServe 8 ++ pairOverwrite ++ pairServe 10 ++ pairFinish ++ pairServe 11) pairClient
    last.thread.result? = some () ∧ last.thread.fields.reader.status = .allRead ∧
      StreamStart.stream ⟨pairStart, 0⟩ last.shared.blocks = [1, 2, 3, 4, 7, 8, 9] ∧
      last.thread.fields.payload = [1, 2, 9, 4, 7, 8] ∧
      ¬ SentRight pairSamples ⟨pairStart, 0⟩ last.thread.fields last.shared.blocks := by
  intro last
  have hPayload : last.thread.fields.payload = [1, 2, 9, 4, 7, 8] := by decide +kernel
  have hSamples : last.thread.fields.sentSamples = 3 := by decide +kernel
  have hStream : StreamStart.stream ⟨pairStart, 0⟩ last.shared.blocks = [1, 2, 3, 4, 7, 8, 9] := by
    decide +kernel
  refine ⟨by decide +kernel, by decide +kernel, hStream, hPayload, fun hSent => ?_⟩
  have hRight := hSent.payload
  rw [hPayload, hSamples, hStream] at hRight
  exact absurd hRight (by decide +kernel)

end Server
