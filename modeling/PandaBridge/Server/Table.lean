import PandaBridge.Server.BlockChannel
import PandaBridge.Server.Parse

/-! Table writes: the mode machine of a table block, the hand over to the hardware or to the
driver's channel, and the command that collects the lines of a table. The flags and the
data of a write live only until it completes, so they are arguments here. -/
namespace Server

inductive TableMode
  | init
  | fixed
  | streaming
  | streamingLast
  deriving DecidableEq

inductive TableType
  | short
  | long
  deriving DecidableEq

inductive TableError
  | badFormat
  | readOnly
  | beingWritten
  | badLine
  | unexpectedEof
  | partialRows
  | noStreaming
  | noData
  | inStreamingMode
  | lastWasSent
  | driver (error : SendError)
  deriving DecidableEq

/-- `table_state` and `hw_table`, as far as they are fixed at start up. The line converters
are those of `table.c`: the words of a line, if it is well formed and fits the room. -/
structure TableConfig (Line : Type) where
  tableType : TableType
  rowWords : Nat
  maxLength : Nat
  blockSize : Nat
  readOnly : Bool
  convert : (binary : Bool) → (room : Nat) → Line → Option (List Word)

/-- `table_block` with the block's part of `hw_table`. -/
structure TableBlock where
  mode : TableMode
  resetRequired : Bool
  length : Nat
  data : List Word
  channel : BlockChannel
  /-- How often `hw_reset_table` was called. -/
  resetCalls : Nat
  deriving DecidableEq

namespace TableBlock

variable {Line : Type} (config : TableConfig Line)

/-- What a client reads back. -/
def readable (block : TableBlock) : List Word := block.data.take block.length

/-- `hw_reset_table`. -/
def hwResetTable (block : TableBlock) : TableBlock :=
  match config.tableType with
  | .long =>
      { block with
        channel := (block.channel.sendBlock config.blockSize [] false).1
        resetCalls := block.resetCalls + 1 }
  | .short => { block with resetCalls := block.resetCalls + 1 }

/-- `write_short_table`. -/
def writeShortTable (channel : BlockChannel) (data : List Word) : BlockChannel :=
  { channel with
    registers := channel.registers ++ .shortReset :: data.map .shortFill ++
      [.shortLength data.length] }

/-- `memcpy` into the table's data area. -/
def copyData (block : TableBlock) (words : List Word) : TableBlock :=
  { block with data := words ++ block.data.drop words.length }

/-- `hw_write_table` and, for a long table, `hw_long_table_write`. -/
def hwWriteTable (block : TableBlock) (words : List Word) (streaming last : Bool) :
    TableBlock × Option TableError :=
  match config.tableType with
  | .short =>
      let copied := block.copyData words
      ({ copied with channel := writeShortTable copied.channel words }, none)
  | .long =>
      if 0 < words.length then
        let copied := if streaming then block else block.copyData words
        let sent := copied.channel.sendBlock config.blockSize words (streaming && !last)
        ({ copied with channel := sent.1 }, sent.2.map .driver)
      else (block, none)

/-- The switch of `update_table_mode`, for a write with data. -/
def switchMode (block : TableBlock) (streaming last : Bool) : TableBlock × Option TableError :=
  match block.mode with
  | .init =>
      let mode := if streaming then if last then .streamingLast else .streaming else .fixed
      ({ block with resetRequired := false, mode }, none)
  | .fixed =>
      let mode := if streaming then .streaming else .fixed
      ({ block with resetRequired := true, mode }, none)
  | .streaming =>
      if streaming then
        let mode := if last then .streamingLast else .streaming
        ({ block with resetRequired := false, mode }, none)
      else ({ block with resetRequired := false }, some .inStreamingMode)
  | .streamingLast => ({ block with resetRequired := false }, some .lastWasSent)

/-- `update_table_mode`. -/
def updateTableMode (block : TableBlock) (streaming last : Bool) (writeLength : Nat) :
    TableBlock × Option TableError :=
  if streaming = true ∧ config.tableType ≠ .long then (block, some .noStreaming)
  else if writeLength = 0 then
    if streaming then (block, some .noData)
    else ({ block with resetRequired := true, mode := .init }, none)
  else block.switchMode streaming last

/-- The critical section of `complete_table_write`: the mode, the reset, the data. -/
def applyTableWrite (block : TableBlock) (words : List Word) (streaming last : Bool) :
    TableBlock × Option TableError :=
  let updated := block.updateTableMode config streaming last words.length
  let reset := if updated.1.resetRequired then updated.1.hwResetTable config else updated.1
  match updated.2 with
  | some error => (reset, some error)
  | none =>
      let written := reset.hwWriteTable config words streaming last
      let length := if written.1.mode = .fixed then words.length else 0
      ({ written.1 with length }, written.2)

/-- `complete_table_write` after lines that could all be converted. -/
def completeTableWrite (block : TableBlock) (words : List Word) (streaming last : Bool) :
    TableBlock × Option TableError :=
  if words.length % config.rowWords = 0 then block.applyTableWrite config words streaming last
  else (block, some .partialRows)

section Frames

variable (block : TableBlock) (words : List Word) (streaming last : Bool) (writeLength : Nat)

theorem switchMode_frame :
    (block.switchMode streaming last).1 =
      { block with
        mode := (block.switchMode streaming last).1.mode
        resetRequired := (block.switchMode streaming last).1.resetRequired } := by
  unfold switchMode
  cases block.mode with
  | init => rfl
  | fixed => rfl
  | streaming => cases streaming <;> rfl
  | streamingLast => rfl

theorem updateTableMode_frame :
    (block.updateTableMode config streaming last writeLength).1 =
      { block with
        mode := (block.updateTableMode config streaming last writeLength).1.mode
        resetRequired :=
          (block.updateTableMode config streaming last writeLength).1.resetRequired } := by
  unfold updateTableMode
  split_ifs with hShort hEmpty hStreaming
  · rfl
  · rfl
  · rfl
  · exact switchMode_frame block streaming last

theorem switchMode_refused (hRefused : (block.switchMode streaming last).2 ≠ none) :
    (block.switchMode streaming last).1 = { block with resetRequired := false } ∧
      (block.mode = .streamingLast ∨ block.mode = .streaming ∧ streaming = false) := by
  unfold switchMode at hRefused ⊢
  cases hMode : block.mode with
  | init => simp [hMode] at hRefused
  | fixed => simp [hMode] at hRefused
  | streaming => cases streaming <;> simp_all
  | streamingLast => simp

theorem switchMode_accepted (hAccepted : (block.switchMode streaming last).2 = none) :
    block.mode = .init ∧ (block.switchMode streaming last).1 =
        { block with
          resetRequired := false
          mode := if streaming then if last then .streamingLast else .streaming else .fixed } ∨
      block.mode = .fixed ∧ (block.switchMode streaming last).1 =
        { block with resetRequired := true, mode := if streaming then .streaming else .fixed } ∨
      block.mode = .streaming ∧ streaming = true ∧ (block.switchMode streaming last).1 =
        { block with
          resetRequired := false
          mode := if last then .streamingLast else .streaming } := by
  unfold switchMode at hAccepted ⊢
  cases hMode : block.mode with
  | init => exact .inl ⟨rfl, rfl⟩
  | fixed => exact .inr (.inl ⟨rfl, rfl⟩)
  | streaming => cases streaming <;> simp_all
  | streamingLast => simp [hMode] at hAccepted

theorem updateTableMode_refused
    (hRefused : (block.updateTableMode config streaming last writeLength).2 ≠ none) :
    (block.updateTableMode config streaming last writeLength).1.mode = block.mode := by
  unfold updateTableMode at hRefused ⊢
  split_ifs at hRefused ⊢ with hShort hEmpty hStreaming
  · rfl
  · rfl
  · exact absurd rfl hRefused
  · rw [(switchMode_refused block streaming last hRefused).1]

theorem hwResetTable_frame :
    block.hwResetTable config =
      { block with
        channel := (block.hwResetTable config).channel
        resetCalls := block.resetCalls + 1 } := by
  unfold hwResetTable
  cases config.tableType with
  | short => rfl
  | long => rfl

theorem hwWriteTable_frame :
    (block.hwWriteTable config words streaming last).1 =
      { block with
        data := (block.hwWriteTable config words streaming last).1.data
        channel := (block.hwWriteTable config words streaming last).1.channel } := by
  unfold hwWriteTable copyData
  cases config.tableType with
  | short => rfl
  | long =>
      simp only
      split_ifs
      · rfl
      · rfl
      · rfl

/-- Only the driver refuses data: the channel stays as it was, and so do the data of a
block that is written in streaming mode. -/
theorem hwWriteTable_refused
    (hRefused : (block.hwWriteTable config words streaming last).2 ≠ none) :
    config.tableType = .long ∧ 0 < words.length ∧
      (block.hwWriteTable config words streaming last).1.channel = block.channel ∧
      (streaming = true → (block.hwWriteTable config words streaming last).1.data = block.data) := by
  unfold hwWriteTable at hRefused ⊢
  cases hType : config.tableType with
  | short => simp [hType] at hRefused
  | long =>
      simp only [hType] at hRefused ⊢
      split_ifs at hRefused ⊢ with hWords hStreaming
      · have hSent := BlockChannel.sendBlock_refused config.blockSize block.channel words
          (streaming && !last) (by intro hNone; simp [hNone] at hRefused)
        exact ⟨trivial, hWords, hSent, fun _ => rfl⟩
      · have hSent := BlockChannel.sendBlock_refused config.blockSize (block.copyData words).channel
          words (streaming && !last) (by intro hNone; simp [hNone] at hRefused)
        exact ⟨trivial, hWords, hSent, fun h => absurd h hStreaming⟩
      · exact absurd rfl hRefused

theorem applyTableWrite_mode :
    (block.applyTableWrite config words streaming last).1.mode =
      (block.updateTableMode config streaming last words.length).1.mode := by
  unfold applyTableWrite
  simp only
  cases (block.updateTableMode config streaming last words.length).2 with
  | none =>
      simp only
      rw [hwWriteTable_frame]
      split_ifs
      · rw [hwResetTable_frame]
      · rfl
  | some error =>
      simp only
      split_ifs
      · rw [hwResetTable_frame]
      · rfl

theorem applyTableWrite_resetCalls :
    (block.applyTableWrite config words streaming last).1.resetCalls =
      block.resetCalls +
        (block.updateTableMode config streaming last words.length).1.resetRequired.toNat := by
  have hCalls : (block.updateTableMode config streaming last words.length).1.resetCalls =
      block.resetCalls := by
    rw [updateTableMode_frame]
  unfold applyTableWrite
  simp only
  cases (block.updateTableMode config streaming last words.length).2 with
  | none =>
      simp only
      rw [hwWriteTable_frame]
      split_ifs with hReset
      · rw [hwResetTable_frame, hReset, hCalls]
        rfl
      · rw [Bool.eq_false_of_not_eq_true hReset, hCalls]
        rfl
  | some error =>
      simp only
      split_ifs with hReset
      · rw [hwResetTable_frame, hReset, hCalls]
        rfl
      · rw [Bool.eq_false_of_not_eq_true hReset, hCalls]
        rfl

/-- A block outside fixed mode shows no data after the write, if it showed none before. -/
theorem applyTableWrite_length (hBlock : block.mode ≠ .fixed → block.length = 0) :
    (block.applyTableWrite config words streaming last).1.mode ≠ .fixed →
      (block.applyTableWrite config words streaming last).1.length = 0 := by
  unfold applyTableWrite
  simp only
  cases hUpdate : (block.updateTableMode config streaming last words.length).2 with
  | none =>
      intro hMode
      exact if_neg hMode
  | some error =>
      have hFrame := updateTableMode_frame config block streaming last words.length
      have hKept := updateTableMode_refused config block streaming last words.length
        (by rw [hUpdate]; exact nofun)
      simp only
      split_ifs with hReset
      · rw [hwResetTable_frame, hFrame, hKept]
        exact hBlock
      · rw [hFrame, hKept]
        exact hBlock

end Frames

end TableBlock

/-- The flags of a table write. -/
structure TableFormat where
  streaming : Bool
  last : Bool
  binary : Bool
  deriving DecidableEq

/-- The format of `parse_table_command`, after its first character. The mark of a last
table is only looked for in streaming mode. -/
def parseTableFormat (format : List Char) : Option TableFormat :=
  let streaming := readChar '<' format
  let last := if streaming.1 then readChar '|' streaming.2 else (true, streaming.2)
  let binary := readChar 'B' last.2
  if binary.2 = [] then some ⟨streaming.1, last.1, binary.1⟩ else none

/-- A table command: its format and its lines up to the blank one, or to the end of the
input. The table may be locked by another writer. -/
structure TableWrite (Line : Type) where
  format : List Char
  lines : List Line
  eof : Bool
  locked : Bool

/-- `write_table_line` on every line, up to the first error. -/
def writeTableLines {Line : Type} (config : TableConfig Line) (binary : Bool) :
    List Line → (written : List Word) → Option (List Word)
  | [], written => some written
  | line :: rest, written =>
      match config.convert binary (config.maxLength - written.length) line with
      | none => none
      | some words => writeTableLines config binary rest (written ++ words)

/-- `process_put_table_command`. -/
def putTable {Line : Type} (config : TableConfig Line) (block : TableBlock)
    (write : TableWrite Line) : TableBlock × Option TableError :=
  match parseTableFormat write.format with
  | none => (block, some .badFormat)
  | some format =>
      if config.readOnly then (block, some .readOnly)
      else if write.locked then (block, some .beingWritten)
      else
        match writeTableLines config format.binary write.lines [] with
        | none => (block, some .badLine)
        | some words =>
            if write.eof then (block, some .unexpectedEof)
            else block.completeTableWrite config words format.streaming format.last

end Server
