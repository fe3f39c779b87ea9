import PandaBridge.Server.Table
import PandaBridge.Transition.System

/-! What a table write that ends in an error leaves behind: which failures keep the block,
its data and the table in the hardware, and which do not. -/
namespace Server

open Transition

variable {Line : Type} (config : TableConfig Line)

/-- What happens to a table: the writes of clients and the interrupts of its channel. -/
inductive TableEvent (Line : Type)
  | put (write : TableWrite Line)
  | ready
  | complete

def tableSystem : System TableBlock (TableEvent Line)
  | block, .put write => some (putTable config block write).1
  | block, .ready => some { block with channel := block.channel.readyIrq }
  | block, .complete => some { block with channel := block.channel.completeIrq }

/-- A table at start up: `config_block` has reset the channel of a long one. -/
def initialTable (nbuffers : Nat) (data : List Word) : TableBlock where
  mode := .init
  resetRequired := false
  length := 0
  data := data
  channel :=
    { free := nbuffers
      queue := []
      currentBuffer := none
      nextBuffer := none
      nwords := 0
      completed := false
      registers := if config.tableType = .long then [.length 0 false] else [] }
  resetCalls := 0

/-- The mode, what clients read and the table in the hardware are the same, and no reset
was issued. -/
structure Unchanged (before after : TableBlock) : Prop where
  mode : after.mode = before.mode
  length : after.length = before.length
  readable : after.readable = before.readable
  channel : after.channel = before.channel
  resetCalls : after.resetCalls = before.resetCalls

/-- The flags and words of a write that gets as far as the mode update. -/
def collected (write : TableWrite Line) : Option (TableFormat × List Word) :=
  match parseTableFormat write.format with
  | none => none
  | some format =>
      if config.readOnly || write.locked || write.eof then none
      else
        match writeTableLines config format.binary write.lines [] with
        | none => none
        | some words => if words.length % config.rowWords = 0 then some (format, words) else none

/-- When the write fails, its failure does no harm: it comes before the mode update, or
the update refuses a streaming write outright while no reset is due, or the block is
streaming and does not get its last table. -/
def FailsCleanly (block : TableBlock) (write : TableWrite Line) : Prop :=
  match collected config write with
  | none => True
  | some (format, words) =>
      if format.streaming = true ∧ (config.tableType = .short ∨ words = []) then
        block.resetRequired = false
      else
        block.mode = .streamingLast ∨
          block.mode = .streaming ∧ ¬(format.streaming = true ∧ format.last = true)

variable {config}

theorem putTable_of_collected {block : TableBlock} {write : TableWrite Line} {format : TableFormat}
    {words : List Word} (hCollected : collected config write = some (format, words)) :
    putTable config block write =
      block.applyTableWrite config words format.streaming format.last := by
  unfold collected at hCollected
  unfold putTable
  cases hFormat : parseTableFormat write.format with
  | none => simp [hFormat] at hCollected
  | some parsed =>
      simp only [hFormat] at hCollected ⊢
      split_ifs at hCollected with hOff
      simp only [Bool.or_eq_true, not_or] at hOff
      rw [if_neg hOff.1.1, if_neg hOff.1.2]
      cases hLines : writeTableLines config parsed.binary write.lines [] with
      | none => simp [hLines] at hCollected
      | some collectedWords =>
          simp only [hLines] at hCollected ⊢
          split_ifs at hCollected with hRows
          obtain ⟨rfl, rfl⟩ : parsed = format ∧ collectedWords = words := by
            simpa using hCollected
          rw [if_neg hOff.2, TableBlock.completeTableWrite, if_pos hRows]

theorem putTable_of_not_collected {block : TableBlock} {write : TableWrite Line}
    (hCollected : collected config write = none) :
    (putTable config block write).1 = block ∧ (putTable config block write).2 ≠ none := by
  unfold collected at hCollected
  unfold putTable
  cases hFormat : parseTableFormat write.format with
  | none => exact ⟨rfl, by simp⟩
  | some parsed =>
      simp only [hFormat] at hCollected ⊢
      by_cases hReadOnly : config.readOnly = true
      · rw [if_pos hReadOnly]
        exact ⟨rfl, by simp⟩
      · by_cases hLocked : write.locked = true
        · rw [if_neg hReadOnly, if_pos hLocked]
          exact ⟨rfl, by simp⟩
        · rw [if_neg hReadOnly, if_neg hLocked]
          cases hLines : writeTableLines config parsed.binary write.lines [] with
          | none => exact ⟨rfl, by simp⟩
          | some words =>
              by_cases hEof : write.eof = true
              · simp only [if_pos hEof]
                exact ⟨trivial, by simp⟩
              · have hRows : words.length % config.rowWords ≠ 0 := by
                  simpa [hReadOnly, hLocked, hEof, hLines] using hCollected
                simp only [if_neg hEof, TableBlock.completeTableWrite, if_neg hRows]
                exact ⟨trivial, by simp⟩

theorem length_of_reachable {initial block : TableBlock} (hInitial : initial.length = 0)
    (hReachable : (tableSystem config).Reachable initial block) (hMode : block.mode ≠ .fixed) :
    block.length = 0 := by
  have hInv := hReachable.invariant (fun block => block.mode ≠ .fixed → block.length = 0)
    (fun _ => hInitial) ?_
  · exact hInv hMode
  · intro before event after hBefore hStep
    cases event with
    | ready =>
        obtain rfl : _ = after := by simpa [tableSystem] using hStep
        exact hBefore
    | complete =>
        obtain rfl : _ = after := by simpa [tableSystem] using hStep
        exact hBefore
    | put write =>
        obtain rfl : _ = after := by simpa [tableSystem] using hStep
        cases hCollected : collected config write with
        | none =>
            rw [(putTable_of_not_collected hCollected).1]
            exact hBefore
        | some request =>
            rw [putTable_of_collected hCollected]
            exact TableBlock.applyTableWrite_length config before request.2 _ _ hBefore

/-- A refusal by the mode update is clean exactly if it issues no reset. -/
theorem unchanged_of_refused (block : TableBlock) (words : List Word) (streaming last : Bool)
    (hRefused : (block.updateTableMode config streaming last words.length).2 ≠ none) :
    Unchanged block (block.applyTableWrite config words streaming last).1 ↔
      (block.updateTableMode config streaming last words.length).1.resetRequired = false := by
  constructor
  · intro h
    have hCalls := h.resetCalls
    rw [TableBlock.applyTableWrite_resetCalls] at hCalls
    exact Bool.toNat_eq_zero.mp (by omega)
  · intro hReset
    have hMode := TableBlock.updateTableMode_refused config block streaming last words.length hRefused
    obtain ⟨error, hError⟩ := Option.ne_none_iff_exists'.mp hRefused
    simp only [TableBlock.applyTableWrite, hError]
    rw [hReset, if_neg Bool.false_ne_true, TableBlock.updateTableMode_frame, hMode]
    exact ⟨rfl, rfl, rfl, rfl, rfl⟩

theorem updateTableMode_eq_switchMode (block : TableBlock) {words : List Word}
    (streaming last : Bool) (hLong : config.tableType = .long) (hWords : 0 < words.length) :
    block.updateTableMode config streaming last words.length = block.switchMode streaming last := by
  rw [TableBlock.updateTableMode, if_neg (by simp [hLong]), if_neg (by omega)]

theorem refused_by_driver (block : TableBlock) (words : List Word) (streaming last : Bool)
    (hAccepted : (block.updateTableMode config streaming last words.length).2 = none)
    (hRefused : (block.applyTableWrite config words streaming last).2 ≠ none) :
    config.tableType = .long ∧ words ≠ [] ∧ block.mode ≠ .streamingLast := by
  simp only [TableBlock.applyTableWrite, hAccepted] at hRefused
  obtain ⟨hLong, hWords, _⟩ := TableBlock.hwWriteTable_refused config _ words streaming last hRefused
  refine ⟨hLong, List.ne_nil_of_length_pos hWords, fun hMode => ?_⟩
  rw [updateTableMode_eq_switchMode block streaming last hLong hWords] at hAccepted
  simp [TableBlock.switchMode, hMode] at hAccepted

/-- A refusal by the driver is clean exactly if the block goes on streaming. -/
theorem unchanged_of_driver (block : TableBlock) (words : List Word) (streaming last : Bool)
    (hLength : block.mode ≠ .fixed → block.length = 0)
    (hAccepted : (block.updateTableMode config streaming last words.length).2 = none)
    (hRefused : (block.applyTableWrite config words streaming last).2 ≠ none) :
    Unchanged block (block.applyTableWrite config words streaming last).1 ↔
      block.mode = .streaming ∧ ¬(streaming = true ∧ last = true) := by
  have hSend := hRefused
  simp only [TableBlock.applyTableWrite, hAccepted] at hSend
  obtain ⟨hLong, hWords, hChannel, hData⟩ :=
    TableBlock.hwWriteTable_refused config _ words streaming last hSend
  have hSwitch := updateTableMode_eq_switchMode block streaming last hLong hWords
  rw [hSwitch] at hAccepted hChannel hData
  obtain ⟨hMode, hNext⟩ | ⟨hMode, hNext⟩ | ⟨hMode, rfl, hNext⟩ :=
    block.switchMode_accepted streaming last hAccepted
  · constructor
    · intro h
      have hKept := h.mode
      rw [TableBlock.applyTableWrite_mode, hSwitch, hNext, hMode] at hKept
      simp only at hKept
      split_ifs at hKept
    · intro h
      exact absurd (hMode.symm.trans h.1) nofun
  · constructor
    · intro h
      have hCalls := h.resetCalls
      rw [TableBlock.applyTableWrite_resetCalls, hSwitch, hNext] at hCalls
      exact absurd hCalls (Nat.succ_ne_self _)
    · intro h
      exact absurd (hMode.symm.trans h.1) nofun
  · constructor
    · intro h
      refine ⟨hMode, fun hLast => ?_⟩
      have hKept := h.mode
      rw [TableBlock.applyTableWrite_mode, hSwitch, hNext, hMode, hLast.2] at hKept
      exact absurd hKept nofun
    · intro h
      have hZero := hLength (by rw [hMode]; exact nofun)
      have hLast : last = false := by simpa using h.2
      rw [hNext, hLast] at hChannel hData
      simp only [TableBlock.applyTableWrite, hSwitch, hAccepted]
      rw [hNext, hLast]
      simp only [Bool.false_eq_true, if_false] at hChannel hData ⊢
      rw [TableBlock.hwWriteTable_frame, hChannel, hData trivial]
      exact ⟨hMode.symm, hZero.symm, by simp [TableBlock.readable, hZero], rfl, rfl⟩

theorem reset_of_refused (block : TableBlock) (words : List Word) (streaming last : Bool)
    (hRefused : (block.updateTableMode config streaming last words.length).2 ≠ none) :
    if streaming = true ∧ (config.tableType = .short ∨ words = []) then
      (block.updateTableMode config streaming last words.length).1.resetRequired =
        block.resetRequired
    else
      (block.updateTableMode config streaming last words.length).1.resetRequired = false ∧
        (block.mode = .streamingLast ∨
          block.mode = .streaming ∧ ¬(streaming = true ∧ last = true)) := by
  unfold TableBlock.updateTableMode at hRefused ⊢
  by_cases hShort : streaming = true ∧ config.tableType ≠ .long
  · have hType : config.tableType = .short := by
      cases hType : config.tableType with
      | short => rfl
      | long => exact absurd hType hShort.2
    rw [if_pos ⟨hShort.1, .inl hType⟩, if_pos hShort]
  · rw [if_neg hShort] at hRefused ⊢
    have hType : streaming = true → config.tableType ≠ .short := by
      intro hStreaming hType
      exact hShort ⟨hStreaming, by rw [hType]; exact nofun⟩
    by_cases hEmpty : words = []
    · rw [if_pos (List.length_eq_zero_iff.mpr hEmpty)] at hRefused ⊢
      cases streaming with
      | true => rw [if_pos ⟨rfl, .inr hEmpty⟩, if_pos rfl]
      | false => exact absurd rfl hRefused
    · rw [if_neg (mt List.length_eq_zero_iff.mp hEmpty)] at hRefused ⊢
      rw [if_neg (fun h => h.2.elim (hType h.1) hEmpty)]
      obtain ⟨hBlock, hWhy⟩ := TableBlock.switchMode_refused block streaming last hRefused
      rw [hBlock]
      refine ⟨rfl, hWhy.imp id fun h => ⟨h.1, fun hLast => ?_⟩⟩
      exact absurd (h.2.symm.trans hLast.1) Bool.false_ne_true

/-- In every state a table can reach, a write that ends in an error leaves the mode, the
readable data and the table in the hardware alone exactly if it fails cleanly. -/
theorem failed_write_unchanged_iff (config : TableConfig Line) (nbuffers : Nat) (data : List Word)
    (block : TableBlock)
    (hReachable : (tableSystem config).Reachable (initialTable config nbuffers data) block)
    (write : TableWrite Line) (hFails : (putTable config block write).2 ≠ none) :
    Unchanged block (putTable config block write).1 ↔ FailsCleanly config block write := by
  have hLength := fun hMode => length_of_reachable rfl hReachable hMode
  unfold FailsCleanly
  cases hCollected : collected config write with
  | none =>
      rw [(putTable_of_not_collected hCollected).1]
      exact ⟨fun _ => trivial, fun _ => ⟨rfl, rfl, rfl, rfl, rfl⟩⟩
  | some request =>
      obtain ⟨format, words⟩ := request
      rw [putTable_of_collected hCollected] at hFails ⊢
      by_cases hUpdate : (block.updateTableMode config format.streaming format.last words.length).2 =
          none
      · rw [unchanged_of_driver block words format.streaming format.last hLength hUpdate hFails]
        obtain ⟨hLong, hWords, hMode⟩ :=
          refused_by_driver block words format.streaming format.last hUpdate hFails
        simp [hLong, hWords, hMode]
      · have hReset := reset_of_refused block words format.streaming format.last hUpdate
        rw [unchanged_of_refused block words format.streaming format.last hUpdate]
        simp only
        split_ifs at hReset ⊢
        · rw [hReset]
        · exact ⟨fun _ => hReset.2, fun _ => hReset.1⟩

/-- A long table of one page whose lines hold the number one. -/
def onesTable : TableConfig (List Char) where
  tableType := .long
  rowWords := 1
  maxLength := 1024
  blockSize := 4096
  readOnly := false
  convert binary room line := if !binary && 0 < room && line = ['1'] then some [1] else none

/-- A table of one line in fixed mode, and the same line or none in streaming mode. -/
def fixedOne : TableWrite (List Char) := ⟨[], [['1']], false, false⟩

def streamOne : TableWrite (List Char) := ⟨['<'], [['1']], false, false⟩

def streamNothing : TableWrite (List Char) := ⟨['<'], [], false, false⟩

theorem failed_write_unchanged_no_buffer :
    let block := (putTable onesTable (initialTable onesTable 1 []) streamOne).1
    (putTable onesTable block streamOne).2 = some (.driver .noFreeBuffer) ∧
      Unchanged block (putTable onesTable block streamOne).1 := by
  intro block
  constructor
  · decide
  · have hClean : FailsCleanly onesTable block streamOne := Or.inr ⟨by decide, by decide⟩
    exact (failed_write_unchanged_iff onesTable 1 [] block ⟨[.put streamOne], rfl⟩ streamOne
      (by decide)).mpr hClean

/-- After two fixed tables a streaming write without data is refused, and takes the table
away from the hardware. -/
theorem refused_write_drops_table :
    let block := (putTable onesTable (putTable onesTable (initialTable onesTable 1 []) fixedOne).1
      fixedOne).1
    (tableSystem onesTable).Reachable (initialTable onesTable 1 []) block ∧
      block.channel.currentBuffer = some ⟨[1], false⟩ ∧
      (putTable onesTable block streamNothing).2 = some .noData ∧
      (putTable onesTable block streamNothing).1.channel.currentBuffer = none ∧
      ¬Unchanged block (putTable onesTable block streamNothing).1 := by
  intro block
  refine ⟨⟨[.put fixedOne, .put fixedOne], rfl⟩, by decide, by decide, by decide, fun h => ?_⟩
  exact absurd h.resetCalls (by decide)

end Server
