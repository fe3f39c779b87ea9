import PandaBridge.Server.SystemCommand
import PandaBridge.Transition.System

/-! What the metadata of a server can be: every value is a string or a list of lines that a client
has sent, and no buffer has been overrun on the way. -/
namespace Server

/-! ### Values that the server accepts -/

/-- A line that `write_multiline_put` accepts. -/
structure InputLine.Writable (line : InputLine) : Prop where
  filled : line.chars ≠ []
  utf8 : utf8Check line.chars = []

/-- Lines as they are kept in memory. -/
def joined (lines : List InputLine) : Text := lines.flatMap fun line => line.chars ++ ['\x00']

/-- The part of a line after its first characters is a line again. -/
def InputLine.drop (line : InputLine) (count : Nat) : InputLine where
  chars := line.chars.drop count
  plain := fun hMem => line.plain (List.mem_of_mem_drop hMem)
  string := fun hMem => line.string (List.mem_of_mem_drop hMem)
  short := by
    have hLine := line.short
    rw [List.length_drop]
    omega

def InputLine.take (line : InputLine) (count : Nat) : InputLine where
  chars := line.chars.take count
  plain := fun hMem => line.plain (List.mem_of_mem_take hMem)
  string := fun hMem => line.string (List.mem_of_mem_take hMem)
  short := by
    have hLine := line.short
    rw [List.length_take]
    omega

namespace Metadata

/-- The values that can be stored. Only a constant is never reported as changed. -/
inductive Stored : MetadataValue → Prop
  | unset {type : MetadataType} {updateIndex : Nat} (hType : type ≠ .constant)
      (hIndex : 0 < updateIndex) : Stored ⟨type, none, updateIndex⟩
  | string {line : InputLine} {updateIndex : Nat} (hUtf8 : utf8Check line.chars = [])
      (hIndex : 0 < updateIndex) : Stored ⟨.string, some (line.chars ++ ['\x00']), updateIndex⟩
  | multiline {lines : List InputLine} {updateIndex : Nat}
      (hLines : ∀ line ∈ lines, line.Writable) (hIndex : 0 < updateIndex) :
      Stored ⟨.multiline, some (joined lines ++ ['\x00']), updateIndex⟩
  | constant {value : Option Text} : Stored ⟨.constant, value, 0⟩

/-- A buffer has room for what is in it, and is empty or large enough to grow by doubling. -/
structure Roomy (writer : MultilineWriter) : Prop where
  fits : writer.text.length ≤ writer.maxLength
  sized : writer.maxLength = 0 ∨ minLength ≤ writer.maxLength

/-- A table write that is open. -/
structure Growing (metadata : Metadata) (writer : MultilineWriter) : Prop where
  roomy : Roomy writer
  lines : ∃ lines : List InputLine, (∀ line ∈ lines, line.Writable) ∧ writer.text = joined lines
  target : ∃ value, metadata.map writer.key = some value ∧ value.type = .multiline

/-- Metadata in good order. -/
structure Sound (metadata : Metadata) : Prop where
  nodup : metadata.keys.Nodup
  mem_keys : ∀ key, key ∈ metadata.keys ↔ (metadata.map key).isSome = true
  named : ∀ key ∈ metadata.keys, IsName key
  stored : ∀ key value, metadata.map key = some value → Stored value
  growing : ∀ index writer, metadata.context index = some writer → metadata.Growing writer
  bounded : metadata.overrun = false

/-! ### Buffers -/

/-- One doubling is enough for a line, since no line is longer than the first buffer. -/
theorem Roomy.appendString {writer : MultilineWriter} (hRoomy : Roomy writer) {string : Text}
    (hShort : string.length + 1 ≤ minLength) : Roomy (appendString writer string) := by
  obtain ⟨hFits, hSized⟩ := hRoomy
  have hLength : (Metadata.appendString writer string).text.length =
      writer.text.length + (string.length + 1) := by
    simp [Metadata.appendString]
  have hMax : (Metadata.appendString writer string).maxLength =
      if writer.text.length + (string.length + 1) > writer.maxLength
      then max minLength (2 * writer.maxLength) else writer.maxLength := rfl
  constructor
  · rw [hLength, hMax]
    split_ifs with hGrow
    · rcases hSized with hEmpty | hLarge
      · omega
      · omega
    · omega
  · rw [hMax]
    split_ifs with hGrow
    · exact .inr (le_max_left _ _)
    · exact hSized

theorem Roomy.not_overruns {writer : MultilineWriter} (hRoomy : Roomy writer) :
    overruns writer = false :=
  decide_eq_false (Nat.not_lt.mpr hRoomy.fits)

theorem InputLine.short_le (line : InputLine) : line.chars.length + 1 ≤ minLength := by
  have hLine := line.short
  unfold maxLineLength at hLine
  unfold minLength
  omega

theorem joined_append (lines : List InputLine) (line : InputLine) :
    joined (lines ++ [line]) = joined lines ++ (line.chars ++ ['\x00']) := by
  simp [joined]

/-! ### Storing a value -/

section Store

variable {metadata : Metadata} {key : Text} {value : MetadataValue} (memory : Text)

theorem store_map_self : (metadata.store key value memory).map key =
    some ⟨value.type, some memory, metadata.changeIndex + 1⟩ :=
  Function.update_self _ _ _

theorem store_map_of_ne {other : Text} (hOther : other ≠ key) :
    (metadata.store key value memory).map other = metadata.map other :=
  Function.update_of_ne hOther _ _

theorem store_type (hKey : metadata.map key = some value) {other : Text} {found : MetadataValue}
    (hOther : metadata.map other = some found) :
    ∃ next, (metadata.store key value memory).map other = some next ∧ next.type = found.type := by
  by_cases hSame : other = key
  · subst hSame
    obtain rfl : value = found := Option.some.inj (hKey.symm.trans hOther)
    exact ⟨_, store_map_self memory, rfl⟩
  · exact ⟨found, (store_map_of_ne memory hSame).trans hOther, rfl⟩

theorem store_isSome (hKey : metadata.map key = some value) (other : Text) :
    ((metadata.store key value memory).map other).isSome = (metadata.map other).isSome := by
  by_cases hSame : other = key
  · subst hSame
    rw [hKey, store_map_self]
    rfl
  · rw [store_map_of_ne memory hSame]

variable {memory}

theorem Sound.store (hSound : metadata.Sound) (hKey : metadata.map key = some value)
    (hMemory : Stored ⟨value.type, some memory, metadata.changeIndex + 1⟩) :
    (metadata.store key value memory).Sound where
  nodup := hSound.nodup
  mem_keys := fun other => by
    rw [store_isSome memory hKey]
    exact hSound.mem_keys other
  named := hSound.named
  stored := fun other found hFound => by
    by_cases hSame : other = key
    · subst hSame
      obtain rfl := Option.some.inj ((store_map_self memory).symm.trans hFound)
      exact hMemory
    · exact hSound.stored other found ((store_map_of_ne memory hSame).symm.trans hFound)
  growing := fun index writer hWriter => by
    obtain ⟨hRoomy, hLines, target, hTarget, hType⟩ := hSound.growing index writer hWriter
    obtain ⟨next, hNext, hSameType⟩ := store_type memory hKey hTarget
    exact ⟨hRoomy, hLines, next, hNext, hSameType.trans hType⟩
  bounded := hSound.bounded

end Store

/-! ### Operations -/

theorem Sound.initial : Metadata.initial.Sound where
  nodup := List.nodup_nil
  mem_keys := fun key => by simp [Metadata.initial]
  named := fun key hKey => absurd hKey List.not_mem_nil
  stored := fun key value hValue => absurd hValue nofun
  growing := fun index writer hWriter => by simp [context, Metadata.initial] at hWriter
  bounded := rfl

/-- A value that was never written. -/
def Unset (value : MetadataValue) : Prop := value.type ≠ .constant → value.value = none

/-- The metadata of a server that has just started. -/
structure Started (metadata : Metadata) : Prop where
  sound : metadata.Sound
  closed : metadata.contexts = []
  unset : ∀ key value, metadata.map key = some value → Unset value

theorem newValue_ok {type : MetadataType} {line : Text} {value : MetadataValue}
    (h : newValue type line = .ok value) : Stored value ∧ Unset value := by
  unfold newValue at h
  split_ifs at h with hConstant
  · unfold parseMetadataConstant at h
    obtain ⟨_, -, h⟩ := exists_of_bind_eq_ok h
    obtain ⟨_, -, h⟩ := exists_of_bind_eq_ok h
    obtain ⟨_, -, h⟩ := exists_of_bind_eq_ok h
    obtain rfl := Except.ok.inj h
    exact ⟨.constant, fun hNot => absurd rfl hNot⟩
  · obtain rfl := Except.ok.inj h
    exact ⟨.unset hConstant Nat.one_pos, fun _ => rfl⟩

theorem Started.insertKey {metadata next : Metadata} {key : Text} {value : MetadataValue}
    (hStarted : metadata.Started) (hName : IsName key) (hValue : Stored value ∧ Unset value)
    (h : metadata.insertKey key value = .ok next) : next.Started := by
  obtain ⟨hSound, hClosed, hUnset⟩ := hStarted
  unfold Metadata.insertKey at h
  split_ifs at h with hOld
  obtain rfl := Except.ok.inj h
  have hNew : key ∉ metadata.keys := fun hMem => hOld ((hSound.mem_keys key).mp hMem)
  -- what is found is the new value or was there before
  have hFind : ∀ other found, Function.update metadata.map key (some value) other = some found →
      found = value ∨ metadata.map other = some found := by
    intro other found hFound
    by_cases hSame : other = key
    · subst hSame
      exact .inl (by simpa using hFound.symm)
    · exact .inr (by simpa [hSame] using hFound)
  refine ⟨⟨List.nodup_cons.mpr ⟨hNew, hSound.nodup⟩, fun other => ?_, fun other hOther => ?_,
    fun other found hFound => ?_, fun index writer hWriter => ?_, hSound.bounded⟩, hClosed,
    fun other found hFound => ?_⟩
  · by_cases hSame : other = key
    · subst hSame
      simp
    · simp [hSame, hSound.mem_keys]
  · rcases List.mem_cons.mp hOther with rfl | hMem
    · exact hName
    · exact hSound.named other hMem
  · rcases hFind other found hFound with rfl | hOther
    · exact hValue.1
    · exact hSound.stored other found hOther
  · simp [context, hClosed] at hWriter
  · rcases hFind other found hFound with rfl | hOther
    · exact hValue.2
    · exact hUnset other found hOther

theorem Started.initial : Metadata.initial.Started where
  sound := .initial
  closed := rfl
  unset := fun _ _ hValue => absurd hValue nofun

theorem Started.configured {lines : List Text} {metadata next : Metadata}
    (hStarted : metadata.Started) (h : configured lines metadata = .ok next) : next.Started := by
  induction lines generalizing metadata with
  | nil =>
      obtain rfl := Except.ok.inj h
      exact hStarted
  | cons line lines ih =>
      obtain ⟨middle, hLine, hRest⟩ := exists_of_bind_eq_ok h
      obtain ⟨⟨key, rest⟩, hKey, hLine⟩ := exists_of_bind_eq_ok hLine
      obtain ⟨_, -, hLine⟩ := exists_of_bind_eq_ok hLine
      obtain ⟨_, -, hLine⟩ := exists_of_bind_eq_ok hLine
      obtain ⟨_, -, hLine⟩ := exists_of_bind_eq_ok hLine
      obtain ⟨value, hValue, hInsert⟩ := exists_of_bind_eq_ok hLine
      exact ih (hStarted.insertKey (parseAlphanumName_ok hKey).1 (newValue_ok hValue) hInsert) hRest

theorem Sound.putMetadata {metadata next : Metadata} {command : Text} {value : InputLine}
    (hSound : metadata.Sound) (h : metadata.putMetadata command value.chars = .ok next) :
    next.Sound := by
  obtain ⟨key, -, h⟩ := exists_of_bind_eq_ok h
  obtain ⟨⟨string, rest⟩, hString, h⟩ := exists_of_bind_eq_ok h
  unfold parseUtf8String at hString
  split_ifs at hString with hUtf8
  obtain ⟨rfl, rfl⟩ := Prod.mk.inj (Except.ok.inj hString)
  change metadata.putMetadataValue key value.chars = .ok next at h
  unfold putMetadataValue at h
  split at h
  · exact absurd h nofun
  · next found hFound =>
      split_ifs at h with hType
      obtain rfl := Except.ok.inj h
      refine hSound.store hFound ?_
      rw [hType]
      exact .string hUtf8 (Nat.succ_pos _)

theorem context_set {metadata : Metadata} {index other : Nat} {writer : MultilineWriter}
    (replaced : Option MultilineWriter)
    (h : (metadata.contexts.set index replaced)[other]?.join = some writer) :
    replaced = some writer ∨ metadata.context other = some writer := by
  rw [List.getElem?_set] at h
  split_ifs at h with hSame hInside
  · exact .inl h
  · exact absurd h nofun
  · exact .inr h

theorem Sound.writeMultilinePut {metadata : Metadata} (hSound : metadata.Sound) (index : Nat)
    {line : InputLine} (hFilled : line.chars ≠ []) :
    (writeMultilinePut index metadata line.chars).1.Sound := by
  unfold Metadata.writeMultilinePut parseUtf8String
  by_cases hUtf8 : utf8Check line.chars = []
  · rw [if_pos hUtf8]
    simp only
    cases hContext : metadata.context index with
    | none => exact hSound
    | some writer =>
        obtain ⟨hRoomy, ⟨lines, hLines, hText⟩, hTarget⟩ := hSound.growing index writer hContext
        have hAppended := hRoomy.appendString (InputLine.short_le line)
        refine ⟨hSound.nodup, hSound.mem_keys, hSound.named, hSound.stored,
          fun other found hFound => ?_, ?_⟩
        · rcases context_set _ hFound with hNew | hOld
          · obtain rfl := Option.some.inj hNew
            refine ⟨hAppended, ⟨lines ++ [line], fun member hMember => ?_, ?_⟩, hTarget⟩
            · rcases List.mem_append.mp hMember with hBefore | hLast
              · exact hLines member hBefore
              · obtain rfl := List.mem_singleton.mp hLast
                exact ⟨hFilled, hUtf8⟩
            · rw [joined_append, ← hText]
              rfl
          · obtain ⟨hOtherRoomy, hOtherLines, hOtherTarget⟩ := hSound.growing other found hOld
            exact ⟨hOtherRoomy, hOtherLines, hOtherTarget⟩
        · simp only [hSound.bounded, hAppended.not_overruns, Bool.or_false]
  · rw [if_neg hUtf8]
    exact hSound

/-- A context that is given up leaves the others as they are. -/
theorem Sound.release {metadata : Metadata} (hSound : metadata.Sound) (index : Nat) :
    ({ metadata with contexts := metadata.contexts.set index none } : Metadata).Sound where
  nodup := hSound.nodup
  mem_keys := hSound.mem_keys
  named := hSound.named
  stored := hSound.stored
  growing := fun other writer hWriter => by
    obtain ⟨hRoomy, hLines, hTarget⟩ :=
      hSound.growing other writer ((context_set none hWriter).resolve_left nofun)
    exact ⟨hRoomy, hLines, hTarget⟩
  bounded := hSound.bounded

theorem Sound.closeMultilinePut {metadata : Metadata} (hSound : metadata.Sound) (index : Nat)
    (writeOk : Bool) : (closeMultilinePut index metadata writeOk).Sound := by
  unfold Metadata.closeMultilinePut
  cases hContext : metadata.context index with
  | none => exact hSound
  | some writer =>
      have hReleased := hSound.release index
      cases writeOk with
      | false => exact hReleased
      | true =>
          obtain ⟨hRoomy, ⟨lines, hLines, hText⟩, value, hValue, hType⟩ :=
            hSound.growing index writer hContext
          have hAppended := hRoomy.appendString (show ([] : Text).length + 1 ≤ minLength by decide)
          simp only [if_true, hValue, hSound.bounded, hAppended.not_overruns, Bool.or_false]
          have hSame : ({ metadata with contexts := metadata.contexts.set index none } : Metadata) =
              { metadata with contexts := metadata.contexts.set index none, overrun := false } := by
            rw [← hSound.bounded]
          rw [hSame] at hReleased
          refine hReleased.store hValue ?_
          rw [hType, appendString, hText]
          exact .multiline hLines (Nat.succ_pos _)

theorem Sound.putTableMetadata {metadata next : Metadata} {command : Text} {index : Nat}
    (hSound : metadata.Sound) (h : metadata.putTableMetadata command = .ok (next, index)) :
    next.Sound := by
  obtain ⟨key, -, h⟩ := exists_of_bind_eq_ok h
  unfold putMetadataTable at h
  split at h
  · exact absurd h nofun
  · next value hValue =>
      split_ifs at h with hType
      obtain ⟨rfl, -⟩ := Prod.mk.inj (Except.ok.inj h)
      refine ⟨hSound.nodup, hSound.mem_keys, hSound.named, hSound.stored,
        fun other writer hWriter => ?_, hSound.bounded⟩
      simp only [context] at hWriter
      rw [List.getElem?_append] at hWriter
      split_ifs at hWriter with hOld
      · obtain ⟨hRoomy, hLines, hTarget⟩ := hSound.growing other writer hWriter
        exact ⟨hRoomy, hLines, hTarget⟩
      · rw [List.getElem?_singleton] at hWriter
        split_ifs at hWriter with hFirst
        · obtain rfl := Option.some.inj hWriter
          exact ⟨⟨le_refl 0, .inl rfl⟩, ⟨[], fun line hLine => absurd hLine List.not_mem_nil, rfl⟩,
            value, hValue, hType⟩
        · exact absurd hWriter nofun

end Metadata

/-! ### Runs of a server -/

/-- What clients and the rest of the server can do. A table write is opened, given lines and
closed by one connection while others go on. -/
inductive HostEvent (Rest : Type)
  | put (line : InputLine)
  | beginTable (line : InputLine)
  | writeTable (index : Nat) (line : InputLine)
  | closeTable (index : Nat) (writeOk : Bool)
  | other (rest : Rest)

section Runs

variable {Rest : Type} (others : Text → Option (CommandEntry Rest)) (entity : CommandSet Rest)

/-- `process_config_command` by its parts, as they change the server. Blank lines are never given
to a writer. -/
def hostSystem : Transition.System (Host Rest) (HostEvent Rest)
  | host, .put line =>
      let (set, command) := commandSet (hostCommands others entity) line.chars
      match commandRest command with
      | '=' :: value => some (set.put (commandName command) value host).1
      | _ => none
  | host, .beginTable line =>
      let (set, command) := commandSet (hostCommands others entity) line.chars
      match commandRest command with
      | '<' :: format => some (parseTableCommand set (commandName command) format host).1
      | _ => none
  | host, .writeTable index line =>
      if line.chars = [] then none
      else some { host with metadata := (Metadata.writeMultilinePut index host.metadata line.chars).1 }
  | host, .closeTable index writeOk =>
      some { host with metadata := Metadata.closeMultilinePut index host.metadata writeOk }
  | host, .other rest =>
      some { metadata := { host.metadata with changeIndex := host.metadata.changeIndex + 1 }, rest }

theorem parseSystemCommand_entry {World : Type} {table : Text → Option (CommandEntry World)}
    {command rest : Text} {entry : CommandEntry World}
    (h : parseSystemCommand table command = .ok (rest, entry)) :
    ∃ name, table name = some entry := by
  obtain ⟨⟨name, after⟩, -, h⟩ := exists_of_bind_eq_ok h
  simp only at h
  split at h
  · exact absurd h nofun
  · next found hFound =>
      obtain ⟨_, -, h⟩ := exists_of_bind_eq_ok h
      obtain ⟨-, rfl⟩ := Prod.mk.inj (Except.ok.inj h)
      exact ⟨name, hFound⟩

theorem commandTable_cases {name : Text} {entry : CommandEntry (Host Rest)}
    (h : commandTable others name = some entry) :
    entry = metadataEntry ∨ ∃ other : CommandEntry Rest, entry = other.onRest := by
  unfold commandTable at h
  split_ifs at h with hName
  · exact .inl (Option.some.inj h).symm
  · obtain ⟨other, -, hOther⟩ := Option.map_eq_some_iff.mp h
    exact .inr ⟨other, hOther.symm⟩

/-- What a step of the server can do to its metadata. -/
inductive MetadataStep (metadata : Metadata) : Metadata → Prop
  | kept : MetadataStep metadata metadata
  | put {command : Text} {value : InputLine} {next : Metadata}
      (h : metadata.putMetadata command value.chars = .ok next) : MetadataStep metadata next
  | opened {command : Text} {index : Nat} {next : Metadata}
      (h : metadata.putTableMetadata command = .ok (next, index)) : MetadataStep metadata next
  | written {index : Nat} {line : InputLine} (hFilled : line.chars ≠ []) :
      MetadataStep metadata (Metadata.writeMultilinePut index metadata line.chars).1
  | closed {index : Nat} {writeOk : Bool} :
      MetadataStep metadata (Metadata.closeMultilinePut index metadata writeOk)
  | counted : MetadataStep metadata { metadata with changeIndex := metadata.changeIndex + 1 }

variable (host : Host Rest)

theorem processSystemPut_step (command : Text) (value : InputLine) : MetadataStep host.metadata
    (processSystemPut (commandTable others) command value.chars host).1.metadata := by
  unfold processSystemPut
  split
  · exact .kept
  · next rest entry hParse =>
      obtain ⟨name, hName⟩ := parseSystemCommand_entry hParse
      rcases commandTable_cases others hName with rfl | ⟨other, rfl⟩
      · simp only [metadataEntry]
        split
        · exact .kept
        · next metadata hPut => exact .put hPut
      · cases hOther : other.put with
        | none =>
            simp only [CommandEntry.onRest, hOther, Option.map_none]
            exact .kept
        | some put =>
            simp only [CommandEntry.onRest, hOther, Option.map_some]
            exact .kept

theorem processSystemPutTable_step (command : Text) (format : TableFormat) :
    MetadataStep host.metadata
      (processSystemPutTable (commandTable others) command format host).1.metadata := by
  unfold processSystemPutTable
  split
  · exact .kept
  · next rest entry hParse =>
      obtain ⟨name, hName⟩ := parseSystemCommand_entry hParse
      rcases commandTable_cases others hName with rfl | ⟨other, rfl⟩
      · simp only [metadataEntry]
        split_ifs
        · exact .kept
        · exact .kept
        · split
          · exact .kept
          · next metadata index hPut => exact .opened hPut
      · cases hOther : other.putTable with
        | none =>
            simp only [CommandEntry.onRest, hOther, Option.map_none]
            exact .kept
        | some putTable =>
            simp only [CommandEntry.onRest, hOther, Option.map_some]
            split_ifs
            · exact .kept
            · exact .kept
            · exact .kept

theorem parseTableCommand_step (line name format : Text) : MetadataStep host.metadata
    (parseTableCommand (commandSet (hostCommands others entity) line).1 name format
      host).1.metadata := by
  unfold parseTableCommand
  split
  · exact .kept
  · next flags hFlags =>
      have hTable : MetadataStep host.metadata
          ((commandSet (hostCommands others entity) line).1.putTable name flags
            host).1.metadata := by
        unfold commandSet
        split
        · exact processSystemPutTable_step others host name flags
        · exact .kept
      split
      · next message hPut =>
          rw [hPut] at hTable
          exact hTable
      · next writer hPut =>
          rw [hPut] at hTable
          exact hTable

theorem exists_value {line : InputLine} {sets : CommandSets (Host Rest)} {action : Char}
    {value : Text} (h : commandRest (commandSet sets line.chars).2 = action :: value) :
    ∃ part : InputLine, part.chars = value := by
  obtain ⟨count, hCount⟩ : ∃ count, (commandSet sets line.chars).2 = line.chars.drop count := by
    unfold commandSet
    split
    · next rest hLine => exact ⟨1, by rw [hLine]; rfl⟩
    · exact ⟨0, rfl⟩
  rw [commandRest, hCount, List.drop_drop] at h
  refine ⟨line.drop (count + (commandName (line.chars.drop count)).length + 1), ?_⟩
  change line.chars.drop _ = value
  rw [← List.drop_drop, h]
  rfl

theorem hostSystem_step {host next : Host Rest} {event : HostEvent Rest}
    (hStep : hostSystem others entity host event = some next) :
    MetadataStep host.metadata next.metadata := by
  cases event with
  | put line =>
      simp only [hostSystem] at hStep
      split at hStep
      · next value hRest =>
          obtain rfl := Option.some.inj hStep
          obtain ⟨part, rfl⟩ := exists_value hRest
          generalize hName : commandName (commandSet (hostCommands others entity) line.chars).2 = name
          unfold commandSet
          split
          · exact processSystemPut_step others host name part
          · exact .kept
      · exact absurd hStep nofun
  | beginTable line =>
      simp only [hostSystem] at hStep
      split at hStep
      · obtain rfl := Option.some.inj hStep
        exact parseTableCommand_step others entity host _ _ _
      · exact absurd hStep nofun
  | writeTable index line =>
      simp only [hostSystem] at hStep
      split_ifs at hStep with hBlank
      obtain rfl := Option.some.inj hStep
      exact .written hBlank
  | closeTable index writeOk =>
      obtain rfl := Option.some.inj hStep
      exact .closed
  | other rest =>
      obtain rfl := Option.some.inj hStep
      exact .counted

end Runs

namespace Metadata

theorem Sound.step {metadata next : Metadata} (hSound : metadata.Sound)
    (hStep : MetadataStep metadata next) : next.Sound := by
  cases hStep with
  | kept => exact hSound
  | put h => exact hSound.putMetadata h
  | opened h => exact hSound.putTableMetadata h
  | written hFilled => exact hSound.writeMultilinePut _ hFilled
  | closed => exact hSound.closeMultilinePut _ _
  | counted =>
      obtain ⟨hNodup, hKeys, hNamed, hStored, hGrowing, hBounded⟩ := hSound
      refine ⟨hNodup, hKeys, hNamed, hStored, fun index writer hWriter => ?_, hBounded⟩
      obtain ⟨hRoomy, hLines, hTarget⟩ := hGrowing index writer hWriter
      exact ⟨hRoomy, hLines, hTarget⟩

/-- A server keeps its keys, their types, and its constants. -/
structure Evolved (before after : Metadata) : Prop where
  keys : after.keys = before.keys
  values : ∀ key value, before.map key = some value → ∃ next, after.map key = some next ∧
    next.type = value.type ∧ (value.type = .constant → next = value)

theorem Evolved.refl (metadata : Metadata) : metadata.Evolved metadata where
  keys := rfl
  values := fun _ value hValue => ⟨value, hValue, rfl, fun _ => rfl⟩

theorem Evolved.of_map_eq {before after : Metadata} (hKeys : after.keys = before.keys)
    (hMap : after.map = before.map) : before.Evolved after where
  keys := hKeys
  values := fun key value hValue => ⟨value, by rw [hMap, hValue], rfl, fun _ => rfl⟩

theorem Evolved.trans {first second third : Metadata} (hFirst : first.Evolved second)
    (hSecond : second.Evolved third) : first.Evolved third where
  keys := hSecond.keys.trans hFirst.keys
  values := fun key value hValue => by
    obtain ⟨middle, hMiddle, hType, hConstant⟩ := hFirst.values key value hValue
    obtain ⟨last, hLast, hLastType, hLastConstant⟩ := hSecond.values key middle hMiddle
    refine ⟨last, hLast, hLastType.trans hType, fun hIs => ?_⟩
    rw [hLastConstant (hType.trans hIs), hConstant hIs]

theorem Evolved.store {metadata : Metadata} {key : Text} {value : MetadataValue}
    (hKey : metadata.map key = some value) (hType : value.type ≠ .constant) (memory : Text) :
    metadata.Evolved (metadata.store key value memory) where
  keys := rfl
  values := fun other found hFound => by
    by_cases hSame : other = key
    · subst hSame
      obtain rfl : value = found := Option.some.inj (hKey.symm.trans hFound)
      exact ⟨_, store_map_self memory, rfl, fun hConstant => absurd hConstant hType⟩
    · exact ⟨found, (store_map_of_ne memory hSame).trans hFound, rfl, fun _ => rfl⟩

theorem Evolved.step {metadata next : Metadata} (hSound : metadata.Sound)
    (hStep : MetadataStep metadata next) : metadata.Evolved next := by
  cases hStep with
  | kept => exact .refl metadata
  | @put command value next h =>
      obtain ⟨key, -, h⟩ := exists_of_bind_eq_ok h
      obtain ⟨⟨string, rest⟩, -, h⟩ := exists_of_bind_eq_ok h
      change metadata.putMetadataValue key string = .ok next at h
      unfold putMetadataValue at h
      split at h
      · exact absurd h nofun
      · next found hFound =>
          split_ifs at h with hType
          obtain rfl := Except.ok.inj h
          exact .store hFound (by rw [hType]; decide) _
  | @opened command index next h =>
      obtain ⟨key, -, h⟩ := exists_of_bind_eq_ok h
      unfold putMetadataTable at h
      split at h
      · exact absurd h nofun
      · split_ifs at h
        obtain ⟨rfl, -⟩ := Prod.mk.inj (Except.ok.inj h)
        exact .of_map_eq rfl rfl
  | @written index line hFilled =>
      unfold writeMultilinePut
      split
      · exact .refl metadata
      · split
        · exact .refl metadata
        · exact .of_map_eq rfl rfl
  | @closed index writeOk =>
      unfold closeMultilinePut
      split
      · exact .refl metadata
      · next writer hContext =>
          obtain ⟨-, -, value, hValue, hType⟩ := hSound.growing index writer hContext
          cases writeOk with
          | false => exact .of_map_eq rfl rfl
          | true =>
              simp only [if_true, hValue]
              have hMiddle : metadata.Evolved { metadata with
                  contexts := metadata.contexts.set index none
                  overrun := metadata.overrun || overruns (appendString writer []) } :=
                .of_map_eq rfl rfl
              refine hMiddle.trans (Evolved.store ?_ ?_ _)
              · exact hValue
              · rw [hType]
                decide
  | counted => exact .of_map_eq rfl rfl

end Metadata

theorem host_reachable {Rest : Type} {others : Text → Option (CommandEntry Rest)}
    {entity : CommandSet Rest} {initial host : Host Rest} (hInitial : initial.metadata.Sound)
    (hReachable : (hostSystem others entity).Reachable initial host) :
    host.metadata.Sound ∧ initial.metadata.Evolved host.metadata := by
  refine Transition.System.Reachable.invariant
    (fun host => host.metadata.Sound ∧ initial.metadata.Evolved host.metadata)
    ⟨hInitial, .refl _⟩ ?_ hReachable
  rintro state event next ⟨hSound, hEvolved⟩ hStep
  have hMetadata := hostSystem_step others entity hStep
  exact ⟨hSound.step hMetadata, hEvolved.trans (.step hSound hMetadata)⟩

end Server
