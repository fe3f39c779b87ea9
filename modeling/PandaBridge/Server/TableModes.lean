import PandaBridge.Server.TableFailure

/-! Two state machines for one long table: the mode of the block in the server and the
channel in the driver, over every sequence of writes that succeed. -/
namespace Server

open Transition

variable {Line : Type} (config : TableConfig Line)

/-- A table with the flags of the last write that sent data to the channel since it was
last emptied. -/
structure TableHistory where
  block : TableBlock
  sent : Option TableFormat

/-- The flags that stand after a write: a write without data empties the table. -/
def sentAfter (write : TableWrite Line) (sent : Option TableFormat) : Option TableFormat :=
  match collected config write with
  | none => sent
  | some (format, words) => if words = [] then none else some format

/-- Writes that succeed, and interrupts: the hardware completes only a channel whose last
block was sent. -/
def writeSystem : System TableHistory (TableEvent Line)
  | history, .put write =>
      if (putTable config history.block write).2 = none then
        some ⟨(putTable config history.block write).1, sentAfter config write history.sent⟩
      else none
  | history, .ready =>
      some { history with
        block := { history.block with channel := history.block.channel.readyIrq } }
  | history, .complete =>
      if history.block.channel.completed then
        some { history with
          block := { history.block with channel := history.block.channel.completeIrq } }
      else none

def initialHistory (nbuffers : Nat) (data : List Word) : TableHistory :=
  ⟨initialTable config nbuffers data, none⟩

/-- The channel that a streaming write with data would meet, after the reset that the mode
update asks for. -/
def channelMet (block : TableBlock) (last : Bool) (words : List Word) : BlockChannel :=
  let updated := (block.updateTableMode config true last words.length).1
  if updated.resetRequired then (updated.hwResetTable config).channel else updated.channel

/-- With a buffer to take, the driver refuses the streaming write. -/
def DriverRefuses (block : TableBlock) (last : Bool) (words : List Word) : Prop :=
  let channel := channelMet config block last words
  ({ channel with free := channel.free + 1 }.sendBlock config.blockSize words !last).2 ≠ none

/-- The mode of the block tells the state of the channel. -/
structure Agrees (history : TableHistory) : Prop where
  streamingLast : history.block.mode = .streamingLast ↔
    (∃ format ∈ history.sent, format.streaming = true ∧ format.last = true) ∧
      history.block.channel.completed = true
  streaming : history.block.mode = .streaming ↔
    (∃ format ∈ history.sent, format.streaming = true ∧ format.last = false) ∧
      history.block.channel.completed = false
  refused : ∀ last words, words ≠ [] → words.length * 4 ≤ config.blockSize →
    ((history.block.updateTableMode config true last words.length).2 ≠ none ↔
      DriverRefuses config history.block last words)

/-- The write is not a last streaming table right after a fixed one. -/
def NotLastAfterFixed (history : TableHistory) : TableEvent Line → Prop
  | .put write => ∀ format words, collected config write = some (format, words) → words ≠ [] →
      ¬(history.block.mode = .fixed ∧ format.streaming = true ∧ format.last = true)
  | .ready => True
  | .complete => True

/-- What each mode says of the last write and of the channel. -/
def InStep (history : TableHistory) : Prop :=
  match history.block.mode with
  | .init => history.sent = none ∧ history.block.channel.completed = false
  | .fixed => ∃ format ∈ history.sent, format.streaming = false
  | .streaming => (∃ format ∈ history.sent, format.streaming = true ∧ format.last = false) ∧
      history.block.channel.completed = false
  | .streamingLast => (∃ format ∈ history.sent, format.streaming = true ∧ format.last = true) ∧
      history.block.channel.completed = true

variable {config}

theorem update_of_success {block : TableBlock} {words : List Word} {streaming last : Bool}
    (hSuccess : (block.applyTableWrite config words streaming last).2 = none) :
    (block.updateTableMode config streaming last words.length).2 = none := by
  unfold TableBlock.applyTableWrite at hSuccess
  simp only at hSuccess
  cases hUpdate : (block.updateTableMode config streaming last words.length).2 with
  | none => rfl
  | some error => simp [hUpdate] at hSuccess

section Long

variable (hLong : config.tableType = .long) {block : TableBlock} {words : List Word}
variable {streaming last : Bool}
variable (hSuccess : (block.applyTableWrite config words streaming last).2 = none)

include hLong hSuccess

theorem completed_of_data (hWords : words ≠ []) :
    (block.applyTableWrite config words streaming last).1.channel.completed =
      !(streaming && !last) := by
  have hUpdate := update_of_success hSuccess
  simp only [TableBlock.applyTableWrite, hUpdate, TableBlock.hwWriteTable, hLong,
    List.length_pos_iff.mpr hWords, if_true] at hSuccess ⊢
  exact (BlockChannel.sendBlock_accepted config.blockSize _ words _ hWords
    (by simpa using hSuccess)).2

theorem opened_of_empty (hWords : words = []) :
    (block.applyTableWrite config words streaming last).1.mode = .init ∧
      (block.applyTableWrite config words streaming last).1.channel.completed = false := by
  have hUpdate := update_of_success hSuccess
  cases streaming with
  | true => simp [TableBlock.updateTableMode, hLong, hWords] at hUpdate
  | false =>
      subst hWords
      simp [TableBlock.applyTableWrite, TableBlock.updateTableMode, TableBlock.hwWriteTable,
        TableBlock.hwResetTable, hLong, BlockChannel.sendBlock, BlockChannel.reset]

end Long

/-- One step that is not a last streaming table after a fixed one keeps the two machines in
step. -/
theorem InStep.step (hLong : config.tableType = .long) {history next : TableHistory}
    {event : TableEvent Line} (h : InStep history) (hGuard : NotLastAfterFixed config history event)
    (hStep : writeSystem config history event = some next) : InStep next := by
  cases event with
  | ready =>
      obtain rfl : _ = next := by simpa [writeSystem] using hStep
      simpa [InStep, BlockChannel.readyIrq_completed] using h
  | complete =>
      by_cases hCompleted : history.block.channel.completed = true
      · obtain rfl : _ = next := by simpa [writeSystem, hCompleted] using hStep
        unfold InStep at h ⊢
        cases hMode : history.block.mode with
        | init => simp [hMode, hCompleted] at h
        | fixed => simpa [hMode] using h
        | streaming => simp [hMode, hCompleted] at h
        | streamingLast => simpa [hMode, hCompleted, BlockChannel.completeIrq] using h
      · simp [writeSystem, hCompleted] at hStep
  | put write =>
      by_cases hSuccess : (putTable config history.block write).2 = none
      · obtain rfl : _ = next := by simpa [writeSystem, hSuccess] using hStep
        cases hCollected : collected config write with
        | none => exact absurd hSuccess (putTable_of_not_collected hCollected).2
        | some request =>
            obtain ⟨format, words⟩ := request
            rw [putTable_of_collected hCollected] at hSuccess
            unfold InStep
            simp only [putTable_of_collected hCollected, sentAfter, hCollected]
            by_cases hWords : words = []
            · obtain ⟨hMode, hOpen⟩ := opened_of_empty hLong hSuccess hWords
              rw [hMode, if_pos hWords]
              exact ⟨rfl, hOpen⟩
            · have hCompleted := completed_of_data hLong hSuccess hWords
              have hUpdate := update_of_success hSuccess
              have hNot := hGuard format words hCollected hWords
              rw [TableBlock.applyTableWrite_mode, hCompleted, if_neg hWords]
              rw [updateTableMode_eq_switchMode _ _ _ hLong (List.length_pos_iff.mpr hWords)] at hUpdate ⊢
              obtain ⟨hMode, hNext⟩ | ⟨hMode, hNext⟩ | ⟨hMode, hStreaming, hNext⟩ :=
                history.block.switchMode_accepted format.streaming format.last hUpdate
              · rw [hNext]
                cases hStreaming : format.streaming <;> cases hLast : format.last <;> simp_all
              · rw [hNext]
                cases hStreaming : format.streaming <;> cases hLast : format.last <;> simp_all
              · rw [hNext]
                cases hLast : format.last <;> simp_all
      · simp [writeSystem, hSuccess] at hStep

theorem driverRefuses_iff (block : TableBlock) (last : Bool) {words : List Word}
    (hWords : words ≠ []) (hFits : words.length * 4 ≤ config.blockSize) :
    DriverRefuses config block last words ↔ (channelMet config block last words).completed = true :=
  BlockChannel.sendBlock_refused_iff config.blockSize _ words (!last) hWords hFits (Nat.succ_ne_zero _)

theorem InStep.refused (hLong : config.tableType = .long) {history : TableHistory}
    (h : InStep history) (last : Bool) {words : List Word} (hWords : words ≠ [])
    (hFits : words.length * 4 ≤ config.blockSize) :
    (history.block.updateTableMode config true last words.length).2 ≠ none ↔
      DriverRefuses config history.block last words := by
  rw [driverRefuses_iff history.block last hWords hFits, channelMet,
    updateTableMode_eq_switchMode _ true last hLong (List.length_pos_iff.mpr hWords)]
  unfold InStep at h
  unfold TableBlock.switchMode
  cases hMode : history.block.mode with
  | init =>
      simp only [hMode] at h
      simp [h.2]
  | fixed =>
      simp [TableBlock.hwResetTable, hLong, BlockChannel.sendBlock, BlockChannel.reset]
  | streaming =>
      simp only [hMode] at h
      simp [h.2]
  | streamingLast =>
      simp only [hMode] at h
      simp [h.2]

theorem InStep.agrees (hLong : config.tableType = .long) {history : TableHistory}
    (h : InStep history) : Agrees config history := by
  refine ⟨?_, ?_, fun last words hWords hFits => h.refused hLong last hWords hFits⟩
  · unfold InStep at h
    cases hMode : history.block.mode with
    | init =>
        simp only [hMode] at h
        simp [h.1]
    | fixed =>
        simp only [hMode] at h
        obtain ⟨format, hSent, hStreaming⟩ := h
        simp [Option.mem_def.mp hSent, hStreaming]
    | streaming =>
        simp only [hMode] at h
        simp [h.2]
    | streamingLast =>
        simp only [hMode] at h
        exact ⟨fun _ => h, fun _ => rfl⟩
  · unfold InStep at h
    cases hMode : history.block.mode with
    | init =>
        simp only [hMode] at h
        simp [h.1]
    | fixed =>
        simp only [hMode] at h
        obtain ⟨format, hSent, hStreaming⟩ := h
        simp [Option.mem_def.mp hSent, hStreaming]
    | streaming =>
        simp only [hMode] at h
        exact ⟨fun _ => h, fun _ => rfl⟩
    | streamingLast =>
        simp only [hMode] at h
        simp [h.2]

theorem not_agrees_of_last_after_fixed (hLong : config.tableType = .long)
    {history next : TableHistory} {event : TableEvent Line}
    (hBad : ¬NotLastAfterFixed config history event)
    (hStep : writeSystem config history event = some next) : ¬Agrees config next := by
  cases event with
  | ready => exact absurd trivial hBad
  | complete => exact absurd trivial hBad
  | put write =>
      simp only [NotLastAfterFixed, not_forall, not_not] at hBad
      obtain ⟨format, words, hCollected, hWords, hMode, hStreaming, hLast⟩ := hBad
      by_cases hSuccess : (putTable config history.block write).2 = none
      · obtain rfl : _ = next := by simpa [writeSystem, hSuccess] using hStep
        intro h
        have hNext := h.streaming
        simp only [putTable_of_collected hCollected, sentAfter, hCollected, if_neg hWords,
          TableBlock.applyTableWrite_mode,
          updateTableMode_eq_switchMode _ _ _ hLong (List.length_pos_iff.mpr hWords)] at hNext
        simp [TableBlock.switchMode, hMode, hStreaming, hLast] at hNext
      · simp [writeSystem, hSuccess] at hStep

/-- Along every sequence of successful writes to a long table the mode of the block and the
channel of the driver agree in every state, exactly if no last streaming table is sent
right after a fixed one. -/
theorem table_modes_agree_iff (config : TableConfig Line) (hLong : config.tableType = .long)
    (nbuffers : Nat) (data : List Word) (events : List (TableEvent Line))
    (hRuns : (writeSystem config).run events (initialHistory config nbuffers data) ≠ none) :
    (∀ first rest history, events = first ++ rest →
        (writeSystem config).run first (initialHistory config nbuffers data) = some history →
        Agrees config history) ↔
      (writeSystem config).Guarded (NotLastAfterFixed config) events
        (initialHistory config nbuffers data) := by
  rw [System.guarded_iff]
  constructor
  · intro hAgrees first event rest middle hEvents hRun
    by_contra hBad
    cases hStep : writeSystem config middle event with
    | none =>
        rw [hEvents, System.run_append, hRun] at hRuns
        simp [hStep] at hRuns
    | some next =>
        refine not_agrees_of_last_after_fixed hLong hBad hStep ?_
        apply hAgrees (first ++ [event]) rest next (by rw [hEvents, List.append_assoc]; rfl)
        rw [System.run_append, hRun, Option.bind_some, System.run_cons, hStep]
        rfl
  · intro hGuard first rest history hEvents hRun
    have hFirst : (writeSystem config).Guarded (NotLastAfterFixed config) first
        (initialHistory config nbuffers data) := by
      rw [System.guarded_iff]
      intro start event between middle hFirst hStart
      exact hGuard start event (between ++ rest) middle (by rw [hEvents, hFirst]; simp) hStart
    exact (System.run_invariant InStep (fun _ _ _ h => h.step hLong) hFirst ⟨rfl, rfl⟩ hRun).agrees
      hLong

theorem table_modes_agree_streaming :
    Agrees onesTable ⟨(putTable onesTable (initialTable onesTable 2 []) streamOne).1,
      some ⟨true, false, false⟩⟩ := by
  have hGuard : (writeSystem onesTable).Guarded (NotLastAfterFixed onesTable) [.put streamOne]
      (initialHistory onesTable 2 []) := by
    refine ⟨?_, fun _ _ => trivial⟩
    intro format words _ _ h
    exact absurd h.1 (by decide)
  exact (table_modes_agree_iff onesTable rfl 2 [] [.put streamOne] nofun).mpr hGuard
    [.put streamOne] [] _ rfl rfl

/-- A last streaming table of one line. -/
def streamLastOne : TableWrite (List Char) := ⟨['<', '|'], [['1']], false, false⟩

/-- A fixed table and then a last streaming one: the channel is completed, but the block is
in streaming mode, and its next streaming write is refused by the driver alone. -/
theorem last_after_fixed_disagrees :
    ∃ history, (writeSystem onesTable).run [.put fixedOne, .put streamLastOne]
        (initialHistory onesTable 2 []) = some history ∧
      history.block.mode = .streaming ∧ history.block.channel.completed = true ∧
      (putTable onesTable history.block streamOne).2 = some (.driver .wasCompleted) ∧
      ¬Agrees onesTable history := by
  refine ⟨⟨(putTable onesTable (putTable onesTable (initialTable onesTable 2 []) fixedOne).1
    streamLastOne).1, some ⟨true, true, false⟩⟩, rfl, by decide, by decide, by decide, fun h => ?_⟩
  exact absurd (h.streaming.mp (by decide)).2 (by decide)

end Server
