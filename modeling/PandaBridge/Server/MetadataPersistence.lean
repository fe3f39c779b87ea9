import PandaBridge.Server.MetadataState

/-! Metadata in the state file. What a restarted server reads back is compared with what was
there when the file was written. -/
namespace Server

/-- `snprintf` into a buffer of this size: what does not fit is cut off. -/
def snprintf (length : Nat) (text : Text) : Text := text.take (length - 1)

namespace Metadata

/-- The lines that `generate_metadata_change_set` writes for a key. -/
def keyLines (reportIndex : Nat) (printTable : Bool) (key : Text) (value : MetadataValue) :
    List Text :=
  if value.updateIndex > reportIndex then
    match value.type with
    | .multiline =>
        snprintf maxResultLength ("*METADATA.".toList ++ key ++ ['<']) ::
          if printTable then contents value ++ [[]] else []
    | .string =>
        [snprintf maxResultLength
          ("*METADATA.".toList ++ key ++ '=' :: cString (value.value.getD []))]
    | .constant => []
  else []

/-- `generate_metadata_change_set`, where `hash_table_walk` gives the keys in this order. -/
def generateMetadataChangeSet (metadata : Metadata) (walk : List Text) (reportIndex : Nat)
    (printTable : Bool) : List Text :=
  walk.flatMap fun key =>
    match metadata.map key with
    | none => []
    | some value => keyLines reportIndex printTable key value

/-- `write_changed_state`: the entries for attributes, fields and tables come first. -/
def writeChangedState (entries : List Entry) (metadata : Metadata) (walk : List Text) : Text :=
  linesText (entries.flatMap Entry.lines ++ metadata.generateMetadataChangeSet walk 0 true)

/-! ### Values in memory -/

theorem cString_terminated {text : Text} (hString : '\x00' ∉ text) (rest : Text) :
    cString (text ++ '\x00' :: rest) = text := by
  have hAll : ∀ ch ∈ text, decide (ch ≠ '\x00') = true :=
    fun ch hMem => decide_eq_true fun h => hString (h ▸ hMem)
  rw [cString, List.takeWhile_append_of_pos hAll, List.takeWhile_cons_of_neg (by simp),
    List.append_nil]

theorem memoryStrings_joined {lines : List InputLine} (hLines : ∀ line ∈ lines, line.Writable) :
    memoryStrings (joined lines ++ ['\x00']) = lines.map InputLine.chars := by
  induction lines with
  | nil =>
      rw [memoryStrings]
      rfl
  | cons line lines ih =>
      have hMemory : joined (line :: lines) ++ ['\x00'] =
          line.chars ++ '\x00' :: (joined lines ++ ['\x00']) := by
        simp [joined]
      rw [memoryStrings, hMemory]
      simp only [cString_terminated line.string]
      rw [if_neg (hLines line List.mem_cons_self).filled, List.drop_append,
        List.drop_eq_nil_of_le (Nat.le_succ _), Nat.add_sub_cancel_left, List.drop_one,
        List.tail_cons, List.nil_append,
        ih fun other hOther => hLines other (List.mem_cons_of_mem _ hOther)]
      rfl

theorem memoryStrings_nil : memoryStrings [] = [] := by
  rw [memoryStrings]
  rfl

theorem Stored.exists_lines {value : MetadataValue} (hStored : Stored value)
    (hType : value.type = .multiline) : ∃ lines : List InputLine, (∀ line ∈ lines, line.Writable) ∧
      contents value = lines.map InputLine.chars := by
  cases hStored with
  | unset hNot hIndex =>
      obtain rfl := hType
      exact ⟨[], fun line hLine => absurd hLine List.not_mem_nil, memoryStrings_nil⟩
  | string hUtf8 hIndex => exact absurd hType nofun
  | @multiline lines updateIndex hLines hIndex => exact ⟨lines, hLines, memoryStrings_joined hLines⟩
  | constant => exact absurd hType nofun

theorem Stored.exists_string {value : MetadataValue} (hStored : Stored value)
    (hType : value.type = .string) : ∃ line : InputLine, utf8Check line.chars = [] ∧
      cString (value.value.getD []) = line.chars := by
  cases hStored with
  | unset hNot hIndex => exact ⟨⟨[], by simp, by simp, by decide⟩, rfl, rfl⟩
  | @string line updateIndex hUtf8 hIndex =>
      exact ⟨line, hUtf8, cString_terminated line.string []⟩
  | multiline hLines hIndex => exact absurd hType nofun
  | constant => exact absurd hType nofun

theorem Stored.updateIndex_pos {value : MetadataValue} (hStored : Stored value) :
    value.type = .constant ∨ 0 < value.updateIndex := by
  cases hStored with
  | unset hNot hIndex => exact .inr hIndex
  | string hUtf8 hIndex => exact .inr hIndex
  | multiline hLines hIndex => exact .inr hIndex
  | constant => exact .inl rfl

/-! ### The command of a key -/

/-- The command for a key, without its mark for the command set. -/
def keyCommand (key : Text) : Text := "METADATA".toList ++ '.' :: key

/-- A line about a key. -/
def keyLine (key : Text) (action : Char) (text : Text) : Text :=
  ('*' :: keyCommand key) ++ action :: text

theorem commandKey_of_isName {key : Text} (hName : IsName key) :
    commandKey ('.' :: key) = .ok key := by
  have hRest : parseAlphanumName maxNameLength key = .ok (key, []) := hName.parseAlphanumName
  simp only [commandKey, parseChar, readChar, if_true, bind, Except.bind, hRest, parseEos]

theorem parseSystemCommand_key {Rest : Type} (others : Text → Option (CommandEntry Rest))
    (key : Text) : parseSystemCommand (commandTable others) (keyCommand key) =
      .ok ('.' :: key, metadataEntry) := by
  have hName : parseName maxNameLength (keyCommand key) = .ok ("METADATA".toList, '.' :: key) :=
    parseFilteredName_append (by decide) (by decide) (List.all_eq_true.mp rfl) (by simp; decide)
  simp only [parseSystemCommand, hName, bind, Except.bind, commandTable, if_true, parseArg,
    metadataEntry]

section Line

variable {key : Text} (hName : IsName key) {action : Char} (hAction : action = '=' ∨ action = '<')
  (text : Text)

include hName hAction

theorem entryName_keyLine : entryName (keyLine key action text) = '*' :: keyCommand key := by
  have hChars : ∀ ch ∈ '*' :: keyCommand key, (!(ch == '=' || ch == '<')) = true := by
    intro ch hMem
    rcases List.mem_cons.mp hMem with rfl | hMem
    · decide
    · rcases List.mem_append.mp hMem with hWord | hRest
      · have hAll : ∀ ch ∈ "METADATA".toList, (!(ch == '=' || ch == '<')) = true :=
          List.all_eq_true.mp rfl
        exact hAll ch hWord
      · rcases List.mem_cons.mp hRest with rfl | hKey
        · decide
        · obtain ⟨-, hEquals, hLess⟩ := validAlphanumChar_bounds (hName.chars ch hKey)
          simp [hEquals, hLess]
  rw [entryName, keyLine, List.takeWhile_append_of_pos hChars, List.takeWhile_cons_of_neg,
    List.append_nil]
  rcases hAction with rfl | rfl
  · decide
  · decide

theorem entryRest_keyLine : entryRest (keyLine key action text) = action :: text := by
  rw [entryRest, entryName_keyLine hName hAction, keyLine, List.drop_left]

end Line

theorem keyLine_length (key : Text) (action : Char) (text : Text) :
    (keyLine key action text).length = 11 + key.length + text.length := by
  have hWord : "METADATA".toList.length = 8 := rfl
  unfold keyLine keyCommand
  rw [List.length_append, List.length_cons, List.length_append, List.length_cons,
    List.length_cons, hWord]
  omega

theorem not_mem_keyLine {key : Text} (hName : IsName key) {action ch : Char} {text : Text}
    (hAction : ch ≠ action) (hLow : ch.toNat < 42) (hText : ch ∉ text) :
    ch ∉ keyLine key action text := by
  have hAll : ('*' :: ("METADATA".toList ++ ['.'])).all (fun other => 42 ≤ other.toNat) := rfl
  have hWord : ∀ other ∈ '*' :: ("METADATA".toList ++ ['.']), 42 ≤ other.toNat :=
    fun other hMem => of_decide_eq_true (List.all_eq_true.mp hAll other hMem)
  intro hMem
  rcases List.mem_append.mp hMem with hCommand | hRest
  · have hSplit : '*' :: keyCommand key = '*' :: ("METADATA".toList ++ ['.']) ++ key := by
      unfold keyCommand
      rw [List.cons_append, List.append_assoc, List.singleton_append]
    rw [hSplit] at hCommand
    rcases List.mem_append.mp hCommand with hFirst | hKey
    · exact absurd (hWord ch hFirst) (Nat.not_le.mpr hLow)
    · exact hName.not_mem (by omega) hKey
  · rcases List.mem_cons.mp hRest with hEq | hMember
    · exact hAction hEq
    · exact hText hMember

theorem exists_keyLine {key : Text} (hName : IsName key) {action : Char}
    (hAction : action = '=' ∨ action = '<') (text : InputLine)
    (hShort : key.length + text.chars.length ≤ 244) :
    ∃ input : InputLine, input.chars = keyLine key action text.chars := by
  have hNotEnd : ∀ ch, ch.toNat < 42 → ch ≠ action := by
    rintro ch hLow rfl
    rcases hAction with rfl | rfl
    · exact absurd hLow (by decide)
    · exact absurd hLow (by decide)
  refine ⟨⟨keyLine key action text.chars, ?_, ?_, ?_⟩, rfl⟩
  · exact not_mem_keyLine hName (hNotEnd _ (by decide)) (by decide) text.plain
  · exact not_mem_keyLine hName (hNotEnd _ (by decide)) (by decide) text.string
  · rw [keyLine_length]
    unfold maxLineLength
    omega

/-! ### Loading the entry of a key -/

section Loading

variable {Rest : Type} (others : Text → Option (CommandEntry Rest)) (entity : CommandSet Rest)

theorem loadEntry_string {key : Text} (hName : IsName key) {host : Host Rest}
    {found : MetadataValue} (hFound : host.metadata.map key = some found)
    (hType : found.type = .string) {input : InputLine} {text : Text}
    (hInput : input.chars = keyLine key '=' text) (hValue) :
    loadEntry (hostCommands others entity) host (.value input hValue) =
      if utf8Check text = [] then
        ({ host with metadata := host.metadata.store key found (text ++ ['\x00']) }, none)
      else (host, some (.ofText "Malformed UTF-8 encoding".toList)) := by
  have hSet : commandSet (hostCommands others entity) ('*' :: keyCommand key) =
      (systemCommands (commandTable others), keyCommand key) := rfl
  simp only [loadEntry, hInput, entryName_keyLine hName (.inl rfl),
    entryRest_keyLine hName (.inl rfl), hSet]
  change processSystemPut (commandTable others) (keyCommand key) text host = _
  simp only [processSystemPut, parseSystemCommand_key, metadataEntry]
  by_cases hUtf8 : utf8Check text = []
  · have hPut : host.metadata.putMetadata ('.' :: key) text =
        .ok (host.metadata.store key found (text ++ ['\x00'])) := by
      simp only [putMetadata, commandKey_of_isName hName, parseUtf8String, hUtf8, if_true, bind,
        Except.bind, putMetadataValue, hFound, hType]
    rw [if_pos hUtf8, hPut]
  · have hPut : host.metadata.putMetadata ('.' :: key) text = .error "Malformed UTF-8 encoding" := by
      simp only [putMetadata, commandKey_of_isName hName, parseUtf8String, hUtf8, if_false, bind,
        Except.bind]
    rw [if_neg hUtf8, hPut]

theorem context_lt {metadata : Metadata} {index : Nat} {writer : MultilineWriter}
    (hContext : metadata.context index = some writer) : index < metadata.contexts.length := by
  by_contra hOutside
  rw [context, List.getElem?_eq_none (Nat.le_of_not_lt hOutside)] at hContext
  cases hContext

theorem writeLines_multiline {lines : List InputLine} (hLines : ∀ line ∈ lines, line.Writable)
    {host : Host Rest} (hSound : host.metadata.Sound) {index : Nat} {writer : MultilineWriter}
    (hContext : host.metadata.context index = some writer) :
    ∃ next maxLength, writeLines (multilineWriter index).onMetadata lines host none = (next, none) ∧
      next.metadata.Sound ∧ next.metadata.map = host.metadata.map ∧
      next.metadata.context index =
        some { writer with text := writer.text ++ joined lines, maxLength } := by
  induction lines generalizing host writer with
  | nil =>
      refine ⟨host, writer.maxLength, rfl, hSound, rfl, ?_⟩
      rw [hContext]
      simp [joined]
  | cons line lines ih =>
      obtain ⟨hFilled, hUtf8⟩ := hLines line List.mem_cons_self
      have hWrite : Metadata.writeMultilinePut index host.metadata line.chars =
          ({ host.metadata with
              contexts := host.metadata.contexts.set index (some (appendString writer line.chars))
              overrun := host.metadata.overrun || overruns (appendString writer line.chars) },
            none) := by
        simp only [Metadata.writeMultilinePut, parseUtf8String, hUtf8, if_true, hContext]
      have hNextSound := hSound.writeMultilinePut index hFilled
      have hNextContext : (Metadata.writeMultilinePut index host.metadata line.chars).1.context index =
          some (appendString writer line.chars) := by
        rw [hWrite, context, List.getElem?_set_self (context_lt hContext)]
        rfl
      obtain ⟨next, maxLength, hRest, hLast, hMap, hText⟩ :=
        @ih (fun other hOther => hLines other (List.mem_cons_of_mem _ hOther))
          { host with metadata := (Metadata.writeMultilinePut index host.metadata line.chars).1 }
          hNextSound _ hNextContext
      refine ⟨next, maxLength, ?_, hLast, ?_, ?_⟩
      · have hError : (Metadata.writeMultilinePut index host.metadata line.chars).2 = none := by
          rw [hWrite]
        simp only [writeLines, PutTableWriter.onMetadata, multilineWriter, hError, Option.map_none]
        exact hRest
      · rw [hMap]
        change (Metadata.writeMultilinePut index host.metadata line.chars).1.map = _
        rw [hWrite]
      · rw [hText]
        simp [appendString, joined]

/-- A section with lines is a table write of these lines. -/
theorem loadEntry_multiline {key : Text} (hName : IsName key) {host : Host Rest}
    (hSound : host.metadata.Sound) {found : MetadataValue}
    (hFound : host.metadata.map key = some found) (hType : found.type = .multiline)
    {header : InputLine} (hHeader : header.chars = keyLine key '<' []) {lines : List InputLine}
    (hLines : ∀ line ∈ lines, line.Writable) (hTable) (hFilled) :
    ∃ metadata value,
      (loadEntry (hostCommands others entity) host (.table header hTable lines hFilled)).1.metadata =
        metadata ∧
      (loadEntry (hostCommands others entity) host (.table header hTable lines hFilled)).2 = none ∧
      metadata.Sound ∧ (∀ other, other ≠ key → metadata.map other =
          host.metadata.map other) ∧ metadata.map key = some value ∧
      value.type = .multiline ∧ contents value = lines.map InputLine.chars := by
  have hSet : commandSet (hostCommands others entity) ('*' :: keyCommand key) =
      (systemCommands (commandTable others), keyCommand key) := rfl
  have hPut : host.metadata.putTableMetadata ('.' :: key) =
      .ok ({ host.metadata with
          contexts := host.metadata.contexts ++ [some { key, text := [], maxLength := 0 }] },
        host.metadata.contexts.length) := by
    simp only [putTableMetadata, commandKey_of_isName hName, bind, Except.bind, putMetadataTable,
      hFound, hType, if_true]
  have hOpened := hSound.putTableMetadata hPut
  generalize hOpen : ({ host.metadata with
      contexts := host.metadata.contexts ++ [some { key, text := [], maxLength := 0 }] } :
      Metadata) = opened at hPut hOpened
  have hParse : parseTableCommand (systemCommands (commandTable others)) (keyCommand key) [] host =
      ({ host with metadata := opened },
        (multilineWriter host.metadata.contexts.length).onMetadata, none) := by
    simp only [parseTableCommand, parseTableFormat, readChar, systemCommands,
      processSystemPutTable, parseSystemCommand_key, metadataEntry, hPut]
    rfl
  have hContext : opened.context host.metadata.contexts.length =
      some { key, text := [], maxLength := 0 } := by
    rw [← hOpen, context, List.getElem?_concat_length]
    rfl
  obtain ⟨next, maxLength, hWritten, hNext, hMap, hText⟩ := @writeLines_multiline Rest lines hLines
    { host with metadata := opened } hOpened _ _ hContext
  have hMaps : next.metadata.map = host.metadata.map := by
    rw [hMap]
    change opened.map = _
    rw [← hOpen]
  have hClosed := hNext.closeMultilinePut host.metadata.contexts.length true
  refine ⟨Metadata.closeMultilinePut host.metadata.contexts.length next.metadata true,
    ⟨.multiline, some (joined lines ++ ['\x00']), next.metadata.changeIndex + 1⟩, ?_, ?_, hClosed, ?_, ?_,
    rfl, memoryStrings_joined hLines⟩
  · simp only [loadEntry, hHeader, entryName_keyLine hName (.inr rfl),
      entryRest_keyLine hName (.inr rfl), hSet, List.tail_cons, hParse, hWritten]
    rfl
  · simp only [loadEntry, hHeader, entryName_keyLine hName (.inr rfl),
      entryRest_keyLine hName (.inr rfl), hSet, List.tail_cons, hParse, hWritten]
    rfl
  · intro other hOther
    have hTarget : next.metadata.map key = some found := by rw [hMaps, hFound]
    simp only [Metadata.closeMultilinePut, hText, if_true, hTarget]
    rw [store_map_of_ne _ hOther]
    exact congrFun hMaps other
  · have hTarget : next.metadata.map key = some found := by rw [hMaps, hFound]
    simp only [Metadata.closeMultilinePut, hText, if_true, hTarget]
    rw [store_map_self, hType]
    rfl

/-! ### One key, saved and loaded -/

/-- The string of a value. -/
def stringOf (value : MetadataValue) : Text := cString (value.value.getD [])

/-- A string that is saved in full: its line fits the buffer of a result. -/
def Fits (key : Text) (value : MetadataValue) : Prop :=
  value.type = .string → key.length + (stringOf value).length ≤ 244

/-- What is saved of a string is well formed, also if it is cut off. -/
def Readable (key : Text) (value : MetadataValue) : Prop :=
  value.type = .string → utf8Check ((stringOf value).take (244 - key.length)) = []

/-- A key of a server that has just started: unset, or a constant. -/
structure Fresh (found value : MetadataValue) : Prop where
  type : found.type = value.type
  unset : value.type ≠ .constant → found.value = none
  constant : value.type = .constant → found = value

/-- What loading the entries of a key does. -/
structure Restores (key : Text) (value : MetadataValue) (before after : Metadata) : Prop where
  sound : after.Sound
  others : ∀ other, other ≠ key → after.map other = before.map other
  restored : ∃ next, after.map key = some next ∧ next.type = value.type ∧
    (contents next = contents value ↔ Fits key value)

theorem contents_of_string {value : MetadataValue} (hType : value.type = .string) :
    contents value = [stringOf value] := by
  unfold contents
  rw [hType]
  rfl

theorem snprintf_keyLine {key : Text} (hName : IsName key) {action : Char} (text : Text) :
    snprintf maxResultLength ("*METADATA.".toList ++ key ++ action :: text) =
      keyLine key action (text.take (244 - key.length)) := by
  have hKey : key.length < 32 := hName.short
  have hLine : "*METADATA.".toList ++ key ++ action :: text =
      ('*' :: keyCommand key) ++ action :: text := rfl
  have hCommand : ('*' :: keyCommand key).length = 10 + key.length := by
    have hWord : "METADATA".toList.length = 8 := rfl
    unfold keyCommand
    rw [List.length_cons, List.length_append, List.length_cons, hWord]
    omega
  have hRoom : maxResultLength - 1 - (10 + key.length) = 244 - key.length + 1 := by
    unfold maxResultLength
    omega
  unfold snprintf keyLine
  rw [hLine, List.take_append, List.take_of_length_le, hCommand, hRoom, List.take_succ_cons]
  rw [hCommand]
  unfold maxResultLength
  omega

theorem restores_string {key : Text} (hName : IsName key) {value : MetadataValue}
    (hStored : Stored value) (hType : value.type = .string) : ∃ entry : Entry,
      entry.lines = keyLines 0 true key value ∧ ∀ (host : Host Rest) (found : MetadataValue),
        host.metadata.Sound → host.metadata.map key = some found → Fresh found value →
          Restores key value host.metadata
            (loadEntry (hostCommands others entity) host entry).1.metadata ∧
          ((loadEntry (hostCommands others entity) host entry).2 = none ↔ Readable key value) := by
  obtain ⟨line, hUtf8, hString⟩ := hStored.exists_string hType
  have hKeyShort : key.length < 32 := hName.short
  have hLength : (line.take (244 - key.length)).chars.length ≤ 244 - key.length := by
    exact List.length_take_le _ _
  obtain ⟨input, hInput⟩ := exists_keyLine hName (.inl rfl) (line.take (244 - key.length)) (by omega)
  have hNotTable : (entryRest input.chars).head? ≠ some '<' := by
    rw [hInput, entryRest_keyLine hName (.inl rfl), List.head?_cons]
    decide
  have hFoundString : stringOf value = line.chars := hString
  have hFits : Fits key value ↔ line.chars.length ≤ 244 - key.length := by
    unfold Fits
    rw [hFoundString]
    exact ⟨fun h => by have hFit := h hType; omega, fun h _ => by omega⟩
  refine ⟨.value input hNotTable, ?_, fun host found hSound hFound hFresh => ?_⟩
  · have hIndex : value.updateIndex > 0 :=
      hStored.updateIndex_pos.resolve_left (by rw [hType]; decide)
    unfold keyLines
    rw [if_pos hIndex, hType]
    simp only [Entry.lines]
    rw [hInput, hString, snprintf_keyLine hName]
    rfl
  · have hFoundType : found.type = .string := hFresh.type.trans hType
    rw [loadEntry_string others entity hName hFound hFoundType hInput]
    by_cases hCut : utf8Check (line.take (244 - key.length)).chars = []
    · rw [if_pos hCut]
      refine ⟨⟨hSound.store hFound ?_, fun other hOther => store_map_of_ne _ hOther,
        _, store_map_self _, hFresh.type, ?_⟩, iff_of_true rfl fun _ => ?_⟩
      · rw [hFoundType]
        exact .string hCut (Nat.succ_pos _)
      · have hNext : contents ⟨found.type, some ((line.take (244 - key.length)).chars ++ ['\x00']),
            host.metadata.changeIndex + 1⟩ = [line.chars.take (244 - key.length)] := by
          unfold contents
          simp only [hFoundType]
          exact congrArg (fun text => [text])
            (cString_terminated (line.take (244 - key.length)).string [])
        rw [hNext, contents_of_string hType, hFits, hFoundString, List.singleton_inj,
          List.take_eq_self_iff]
      · rw [hFoundString]
        exact hCut
    · rw [if_neg hCut]
      refine ⟨⟨hSound, fun other _ => rfl, found, hFound, hFresh.type, ?_⟩,
        iff_of_false (Option.some_ne_none _) fun hReadable => ?_⟩
      rotate_left
      · have hRead := hReadable hType
        rw [hFoundString] at hRead
        exact hCut hRead
      have hUnset : found.value = none := hFresh.unset (by rw [hType]; decide)
      have hEmpty : stringOf found = [] := by
        rw [stringOf, hUnset]
        rfl
      rw [contents_of_string hFoundType, contents_of_string hType, hFits, hFoundString, hEmpty,
        List.singleton_inj]
      -- a string that is not cut off is well formed
      have hWhole : ¬ line.chars.length ≤ 244 - key.length := by
        intro hShort
        apply hCut
        change utf8Check (line.chars.take (244 - key.length)) = []
        rw [List.take_of_length_le hShort]
        exact hUtf8
      refine ⟨fun hNil => ?_, fun hShort => absurd hShort hWhole⟩
      rw [← hNil] at hWhole
      exact absurd (Nat.zero_le _) hWhole

theorem restores_multiline {key : Text} (hName : IsName key) {value : MetadataValue}
    (hStored : Stored value) (hType : value.type = .multiline) : ∃ entry : Entry,
      entry.lines = keyLines 0 true key value ∧ ∀ (host : Host Rest) (found : MetadataValue),
        host.metadata.Sound → host.metadata.map key = some found → Fresh found value →
          Restores key value host.metadata
            (loadEntry (hostCommands others entity) host entry).1.metadata ∧
          ((loadEntry (hostCommands others entity) host entry).2 = none ↔ Readable key value) := by
  obtain ⟨lines, hLines, hContents⟩ := hStored.exists_lines hType
  have hKeyShort : key.length < 32 := hName.short
  obtain ⟨header, hHeader⟩ := exists_keyLine hName (.inr rfl)
    ⟨[], by simp, by simp, by decide⟩ (by simp only [List.length_nil]; omega)
  have hTable : (entryRest header.chars).head? = some '<' := by
    rw [hHeader, entryRest_keyLine hName (.inr rfl), List.head?_cons]
  refine ⟨.table header hTable lines fun line hLine => (hLines line hLine).filled, ?_,
    fun host found hSound hFound hFresh => ?_⟩
  · have hIndex : value.updateIndex > 0 :=
      hStored.updateIndex_pos.resolve_left (by rw [hType]; decide)
    unfold keyLines
    rw [if_pos hIndex, hType]
    simp only [Entry.lines, if_true]
    rw [hHeader, hContents, snprintf_keyLine hName, List.take_nil]
  · obtain ⟨metadata, next, hLoaded, hError, hNext, hOthers, hMap, hNextType, hNextContents⟩ :=
      loadEntry_multiline others entity hName hSound hFound (hFresh.type.trans hType) hHeader
        hLines hTable fun line hLine => (hLines line hLine).filled
    rw [hLoaded]
    refine ⟨⟨hNext, hOthers, next, hMap, hNextType.trans hType.symm, ?_⟩,
      iff_of_true hError fun hString => absurd (hType.symm.trans hString) (by decide)⟩
    rw [hNextContents, hContents]
    exact ⟨fun _ hString => absurd (hType.symm.trans hString) (by decide), fun _ => rfl⟩

theorem restores_key {key : Text} (hName : IsName key) {value : MetadataValue}
    (hStored : Stored value) : ∃ entries : List Entry,
      entries.flatMap Entry.lines = keyLines 0 true key value ∧
      ∀ (host : Host Rest) (found : MetadataValue) (errorCount : Nat),
        host.metadata.Sound → host.metadata.map key = some found → Fresh found value →
          Restores key value host.metadata
            (loadEntries (hostCommands others entity) entries host errorCount).1.metadata ∧
          ((loadEntries (hostCommands others entity) entries host errorCount).2 = errorCount ↔
            Readable key value) := by
  have hSingle : ∀ (entry : Entry) (host : Host Rest) (errorCount : Nat),
      (loadEntries (hostCommands others entity) [entry] host errorCount).2 = errorCount ↔
        (loadEntry (hostCommands others entity) host entry).2 = none := by
    intro entry host errorCount
    simp only [loadEntries]
    cases (loadEntry (hostCommands others entity) host entry).2 with
    | none => simp
    | some message => simp
  cases hType : value.type with
  | string =>
      obtain ⟨entry, hLines, hLoad⟩ := restores_string others entity hName hStored hType
      refine ⟨[entry], by rw [List.flatMap_singleton, hLines],
        fun host found errorCount hSound hFound hFresh => ?_⟩
      obtain ⟨hRestores, hError⟩ := hLoad host found hSound hFound hFresh
      exact ⟨hRestores, (hSingle entry host errorCount).trans hError⟩
  | multiline =>
      obtain ⟨entry, hLines, hLoad⟩ := restores_multiline others entity hName hStored hType
      refine ⟨[entry], by rw [List.flatMap_singleton, hLines],
        fun host found errorCount hSound hFound hFresh => ?_⟩
      obtain ⟨hRestores, hError⟩ := hLoad host found hSound hFound hFresh
      exact ⟨hRestores, (hSingle entry host errorCount).trans hError⟩
  | constant =>
      refine ⟨[], ?_, fun host found errorCount hSound hFound hFresh => ?_⟩
      · unfold keyLines
        rw [hType]
        simp
      · obtain rfl := hFresh.constant hType
        have hNotString : found.type ≠ .string := by
          rw [hType]
          decide
        exact ⟨⟨hSound, fun other _ => rfl, found, hFound, rfl,
          fun _ hString => absurd hString hNotString, fun _ => rfl⟩,
          iff_of_true rfl fun hString => absurd hString hNotString⟩

/-! ### All keys -/

/-- The entries of all keys are loaded one after the other, and none disturbs another. -/
theorem restores_walk {metadata : Metadata} (hSaved : metadata.Sound) {walk : List Text}
    (hNodup : walk.Nodup) (hKeys : ∀ key ∈ walk, key ∈ metadata.keys) : ∃ entries : List Entry,
      entries.flatMap Entry.lines = metadata.generateMetadataChangeSet walk 0 true ∧
      ∀ (host : Host Rest) (errorCount : Nat), host.metadata.Sound →
        (∀ key ∈ walk, ∀ value, metadata.map key = some value →
          ∃ found, host.metadata.map key = some found ∧ Fresh found value) →
        (loadEntries (hostCommands others entity) entries host errorCount).1.metadata.Sound ∧
        (∀ other, other ∉ walk →
          (loadEntries (hostCommands others entity) entries host errorCount).1.metadata.map other =
            host.metadata.map other) ∧
        (∀ key ∈ walk, ∀ value, metadata.map key = some value → ∃ next,
          (loadEntries (hostCommands others entity) entries host errorCount).1.metadata.map key =
            some next ∧ next.type = value.type ∧
          (contents next = contents value ↔ Fits key value)) ∧
        ((loadEntries (hostCommands others entity) entries host errorCount).2 = errorCount ↔
          ∀ key ∈ walk, ∀ value, metadata.map key = some value → Readable key value) := by
  induction walk with
  | nil =>
      exact ⟨[], rfl, fun host errorCount hSound _ =>
        ⟨hSound, fun _ _ => rfl, fun key hKey => absurd hKey List.not_mem_nil,
          iff_of_true rfl fun key hKey => absurd hKey List.not_mem_nil⟩⟩
  | cons key walk ih =>
      obtain ⟨hNew, hRestNodup⟩ := List.nodup_cons.mp hNodup
      have hMember := hKeys key List.mem_cons_self
      obtain ⟨value, hValue⟩ := Option.isSome_iff_exists.mp ((hSaved.mem_keys key).mp hMember)
      obtain ⟨first, hFirstLines, hFirst⟩ := restores_key others entity (hSaved.named key hMember)
        (hSaved.stored key value hValue)
      obtain ⟨rest, hRestLines, hRest⟩ := ih hRestNodup fun other hOther =>
        hKeys other (List.mem_cons_of_mem _ hOther)
      refine ⟨first ++ rest, ?_, fun host errorCount hSound hFresh => ?_⟩
      · rw [List.flatMap_append, hFirstLines, hRestLines]
        simp only [generateMetadataChangeSet, List.flatMap_cons, hValue]
      · rw [loadEntries_append]
        obtain ⟨found, hFound, hFoundFresh⟩ := hFresh key List.mem_cons_self value hValue
        obtain ⟨⟨hMiddle, hKept, next, hNext, hType, hContents⟩, hFirstError⟩ :=
          hFirst host found errorCount hSound hFound hFoundFresh
        have hFirstCount := loadEntries_le (hostCommands others entity) first host errorCount
        generalize loadEntries (hostCommands others entity) first host errorCount = middle at *
        have hRestCount := loadEntries_le (hostCommands others entity) rest middle.1 middle.2
        obtain ⟨hLast, hOthers, hRestored, hRestError⟩ := hRest middle.1 middle.2 hMiddle
          fun other hOther saved hSavedValue => by
            obtain ⟨before, hBefore, hBeforeFresh⟩ :=
              hFresh other (List.mem_cons_of_mem _ hOther) saved hSavedValue
            exact ⟨before, (hKept other fun h => hNew (h ▸ hOther)).trans hBefore, hBeforeFresh⟩
        refine ⟨hLast, fun other hOther => ?_, fun other hOther saved hSavedValue => ?_, ?_⟩
        · obtain ⟨hNe, hNotRest⟩ := not_or.mp fun h => hOther (List.mem_cons.mpr h)
          rw [hOthers other hNotRest, hKept other hNe]
        · rcases List.mem_cons.mp hOther with rfl | hRestKey
          · obtain rfl : value = saved := Option.some.inj (hValue.symm.trans hSavedValue)
            exact ⟨next, (hOthers other hNew).trans hNext, hType, hContents⟩
          · exact hRestored other hRestKey saved hSavedValue
        · have hHead : Readable key value ↔
              ∀ saved, metadata.map key = some saved → Readable key saved :=
            ⟨fun hReadable saved hSavedValue => by
                rw [← Option.some.inj (hValue.symm.trans hSavedValue)]
                exact hReadable,
              fun hAll => hAll value hValue⟩
          rw [List.forall_mem_cons, ← hHead, ← hFirstError, ← hRestError]
          omega

/-! ### The other entries -/

/-- A writer that leaves the metadata alone. -/
structure KeepsMetadata (writer : PutTableWriter (Host Rest)) : Prop where
  write : ∀ host line, (writer.write host line).1.metadata = host.metadata
  close : ∀ host writeOk, (writer.close host writeOk).1.metadata = host.metadata

theorem writeLines_kept {writer : PutTableWriter (Host Rest)} (hWriter : KeepsMetadata writer)
    (lines : List InputLine) (host : Host Rest) (error : Option LineText) :
    (writeLines writer lines host error).1.metadata = host.metadata := by
  induction lines generalizing host error with
  | nil => cases error <;> rfl
  | cons line lines ih =>
      cases error with
      | some message => rfl
      | none => exact (ih _ _).trans (hWriter.write host line.chars)

theorem parseTableCommand_entity (name format : Text) (host : Host Rest) :
    (parseTableCommand entity.onRest name format host).1.metadata = host.metadata ∧
      KeepsMetadata (parseTableCommand entity.onRest name format host).2.1 := by
  have hDummy : KeepsMetadata (dummyTableWriter : PutTableWriter (Host Rest)) :=
    ⟨fun _ _ => rfl, fun _ _ => rfl⟩
  unfold parseTableCommand
  split
  · exact ⟨rfl, hDummy⟩
  · next flags hFlags =>
      simp only [CommandSet.onRest]
      cases (entity.putTable name flags host.rest).2 with
      | error message => exact ⟨rfl, hDummy⟩
      | ok writer => exact ⟨rfl, fun _ _ => rfl, fun _ _ => rfl⟩

end Loading

end Metadata

/-- The line that an entry starts with. -/
def Entry.first : Entry → Text
  | .value line _ => line.chars
  | .table header _ _ _ => header.chars

/-- An entry for a field or an attribute is named by its block. -/
def Entry.OfEntity (entry : Entry) : Prop := entry.first.head? ≠ some '*'

namespace Metadata

section Loading

variable {Rest : Type} (others : Text → Option (CommandEntry Rest)) (entity : CommandSet Rest)

theorem commandSet_entity {line : Text} (hLine : line.head? ≠ some '*') :
    (commandSet (hostCommands others entity) (entryName line)).1 = entity.onRest := by
  unfold commandSet
  split
  · next rest hName =>
      have hInitial : entryName line <+: line := List.takeWhile_prefix _
      obtain ⟨after, hAfter⟩ := hInitial
      rw [hName] at hAfter
      exact absurd (by rw [← hAfter]; rfl) hLine
  · rfl

theorem loadEntry_entity {entry : Entry} (hEntity : entry.OfEntity) (host : Host Rest) :
    (loadEntry (hostCommands others entity) host entry).1.metadata = host.metadata := by
  cases entry with
  | value line hValue =>
      change line.chars.head? ≠ some '*' at hEntity
      simp only [loadEntry]
      rw [commandSet_entity others entity hEntity]
      split
      · rfl
      · rfl
  | table header hTable lines hLines =>
      change header.chars.head? ≠ some '*' at hEntity
      simp only [loadEntry]
      rw [commandSet_entity others entity hEntity]
      obtain ⟨hParsed, hWriter⟩ := parseTableCommand_entity entity
        (commandSet (hostCommands others entity) (entryName header.chars)).2
        (entryRest header.chars).tail host
      rw [hWriter.close, writeLines_kept hWriter, hParsed]

theorem loadEntries_entity {entries : List Entry} (hEntity : ∀ entry ∈ entries, entry.OfEntity)
    (host : Host Rest) (errorCount : Nat) :
    (loadEntries (hostCommands others entity) entries host errorCount).1.metadata =
      host.metadata := by
  induction entries generalizing host errorCount with
  | nil => rfl
  | cons entry entries ih =>
      have hRest := ih (fun other hOther => hEntity other (List.mem_cons_of_mem _ hOther))
      exact (hRest _ _).trans (loadEntry_entity others entity (hEntity entry List.mem_cons_self) host)

end Loading

end Metadata

/-- The keys of a run are those that the server started with. -/
theorem Metadata.Evolved.fresh {fresh metadata : Metadata} (hEvolved : fresh.Evolved metadata)
    (hStarted : fresh.Started) {walk : List Text} (hWalk : walk.Perm metadata.keys) :
    ∀ key ∈ walk, ∀ value, metadata.map key = some value →
      ∃ found, fresh.map key = some found ∧ Metadata.Fresh found value := by
  intro key hKey value hValue
  have hMember : key ∈ fresh.keys := hEvolved.keys ▸ hWalk.subset hKey
  obtain ⟨found, hFound⟩ :=
    Option.isSome_iff_exists.mp ((hStarted.sound.mem_keys key).mp hMember)
  obtain ⟨next, hNext, hType, hConstant⟩ := hEvolved.values key found hFound
  obtain rfl : next = value := Option.some.inj (hNext.symm.trans hValue)
  exact ⟨found, hFound, hType.symm, fun hNot => hStarted.unset key found hFound (hType ▸ hNot),
    fun hIs => (hConstant (hType ▸ hIs)).symm⟩

/-- For every configuration of keys, every run of the server and every other content of the state
file: no buffer is ever overrun, the file is loaded to its end, and a key gets its value back if
and only if it is not a string whose line was cut off at 255 bytes. -/
theorem metadata_survives_iff {Rest : Type} (others : Text → Option (CommandEntry Rest))
    (entity : CommandSet Rest) {config : List Text} {fresh : Metadata}
    (hConfig : Metadata.configured config .initial = .ok fresh) (rest restarted : Rest)
    {host : Host Rest}
    (hReachable : (hostSystem others entity).Reachable { metadata := fresh, rest } host)
    {entries : List Entry} (hEntity : ∀ entry ∈ entries, entry.OfEntity)
    {walk : List Text} (hWalk : walk.Perm host.metadata.keys) :
    host.metadata.overrun = false ∧ ∃ loaded errorCount,
      loadPersistentState (hostCommands others entity) (host.metadata.writeChangedState entries walk)
        { metadata := fresh, rest := restarted } = some (loaded, errorCount) ∧
      loaded.metadata.overrun = false ∧
      ∀ key value, host.metadata.map key = some value →
        ((∃ next, loaded.metadata.map key = some next ∧ next.type = value.type ∧
            Metadata.contents next = Metadata.contents value) ↔
          (value.type = .string → key.length + (Metadata.stringOf value).length ≤ 244)) := by
  have hStarted := Metadata.Started.initial.configured hConfig
  obtain ⟨hSound, hEvolved⟩ := host_reachable hStarted.sound hReachable
  obtain ⟨saved, hLines, hLoad⟩ := Metadata.restores_walk others entity hSound
    (hWalk.nodup_iff.mpr hSound.nodup) fun key hKey => hWalk.subset hKey
  have hText : host.metadata.writeChangedState entries walk = entriesText (entries ++ saved) := by
    unfold Metadata.writeChangedState entriesText
    rw [List.flatMap_append, hLines]
  have hFirst := Metadata.loadEntries_entity others entity hEntity
    { metadata := fresh, rest := restarted } 0
  have hFresh := hEvolved.fresh hStarted hWalk
  have hWhole := loadPersistentState_entries (hostCommands others entity) (entries ++ saved)
    { metadata := fresh, rest := restarted }
  rw [loadEntries_append] at hWhole
  generalize loadEntries (hostCommands others entity) entries
    { metadata := fresh, rest := restarted } 0 = middle at hFirst hWhole
  obtain ⟨hLoaded, -, hRestored, -⟩ := hLoad middle.1 middle.2 (by rw [hFirst]; exact hStarted.sound)
    (by rw [hFirst]; exact hFresh)
  refine ⟨hSound.bounded, _, _, by rw [hText, hWhole], hLoaded.bounded, fun key value hValue => ?_⟩
  have hMember : key ∈ walk :=
    hWalk.mem_iff.mpr ((hSound.mem_keys key).mpr (by rw [hValue]; rfl))
  obtain ⟨next, hNext, hType, hContents⟩ := hRestored key hMember value hValue
  constructor
  · rintro ⟨other, hOther, -, hSame⟩
    obtain rfl : next = other := Option.some.inj (hNext.symm.trans hOther)
    exact hContents.mp hSame
  · exact fun hFits => ⟨next, hNext, hType, hContents.mpr hFits⟩

/-! ### A server with one label -/

/-- The rest of a server of which only the metadata is of interest. -/
def plainEntities : CommandSet Unit where
  get := fun _ world => (world, { many := [], outcome := .ok none })
  put := fun _ _ world => (world, none)
  putTable := fun _ _ world => (world, .error unknownCommand)

def labelServer : Host Unit where
  metadata := (Metadata.configured ["LABEL string".toList] .initial).toOption.getD .initial
  rest := ()

/-- A line that sets the label to so many letters. -/
def labelLine (count : Nat) (hCount : count ≤ 900) : InputLine where
  chars := "*METADATA.LABEL=".toList ++ List.replicate count 'a'
  plain := by
    intro hMem
    rcases List.mem_append.mp hMem with hWord | hLetter
    · exact absurd hWord (by decide)
    · exact absurd (List.eq_of_mem_replicate hLetter) (by decide)
  string := by
    intro hMem
    rcases List.mem_append.mp hMem with hWord | hLetter
    · exact absurd hWord (by decide)
    · exact absurd (List.eq_of_mem_replicate hLetter) (by decide)
  short := by
    have hWord : "*METADATA.LABEL=".toList.length = 16 := rfl
    rw [List.length_append, List.length_replicate, hWord]
    unfold maxLineLength
    omega

/-- The server after its label was set to so many letters. -/
def labelled (count : Nat) (hCount : count ≤ 900) : Host Unit :=
  ((hostSystem (fun _ => none) plainEntities).run [.put (labelLine count hCount)]
    labelServer).getD labelServer

theorem short_label_survives : ∃ loaded errorCount,
    loadPersistentState (hostCommands (fun _ => none) plainEntities)
      ((labelled 3 (by decide)).metadata.writeChangedState [] ["LABEL".toList]) labelServer =
        some (loaded, errorCount) ∧
    ∃ next, loaded.metadata.map "LABEL".toList = some next ∧
      Metadata.contents next = ["aaa".toList] := by
  obtain ⟨-, loaded, errorCount, hLoad, -, hKeys⟩ :=
    @metadata_survives_iff Unit (fun _ => none) plainEntities ["LABEL string".toList]
      labelServer.metadata rfl () () (labelled 3 (by decide))
      ⟨[.put (labelLine 3 (by decide))], rfl⟩ [] (by simp) ["LABEL".toList] (List.Perm.refl _)
  obtain ⟨next, hNext, -, hContents⟩ :=
    (hKeys "LABEL".toList ⟨.string, some "aaa\x00".toList, 1⟩ rfl).mpr (by decide)
  exact ⟨loaded, errorCount, hLoad, next, hNext, hContents⟩

/-- A longer label is accepted and saved without its end. -/
theorem long_label_lost :
    (hostSystem (fun _ => none) plainEntities).Reachable labelServer (labelled 250 (by decide)) ∧
    ((labelled 250 (by decide)).metadata.map "LABEL".toList).map Metadata.contents =
      some [List.replicate 250 'a'] ∧
    ((loadPersistentState (hostCommands (fun _ => none) plainEntities)
      ((labelled 250 (by decide)).metadata.writeChangedState [] ["LABEL".toList])
      labelServer).bind fun loaded =>
        (loaded.1.metadata.map "LABEL".toList).map Metadata.contents) =
      some [List.replicate 239 'a'] := by
  refine ⟨⟨[.put (labelLine 250 (by decide))], rfl⟩, ?_⟩
  decide +kernel

end Server
