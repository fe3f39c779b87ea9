import Mathlib.Logic.Function.Basic
import PandaBridge.Server.Names
import PandaBridge.Server.StateFile

/-! Metadata keys. The hash table of the keys is a map with the list of its keys; a string in
memory is kept with the NUL bytes that end it. -/
namespace Server

inductive MetadataType
  | string
  | multiline
  | constant
  deriving DecidableEq

/-- `metadata_value`: the memory that `value` points to, and when it was last written. -/
structure MetadataValue where
  type : MetadataType
  value : Option Text
  updateIndex : Nat

/-- `multiline_writer`: the bytes written so far and the size of their buffer. -/
structure MultilineWriter where
  key : Text
  text : Text
  maxLength : Nat

/-- The metadata of a server, the contexts of table writes that were opened, the global change
index, and whether `append_string` has ever written beyond its buffer. -/
structure Metadata where
  keys : List Text
  map : Text → Option MetadataValue
  contexts : List (Option MultilineWriter)
  changeIndex : Nat
  overrun : Bool

/-- A text of the server as one line of an answer. No text that it answers with has a newline. -/
def LineText.ofText (text : Text) : LineText := ⟨text.filter (· ≠ '\n'), by simp⟩

/-- `MAX_RESULT_LENGTH`. -/
def maxResultLength : Nat := 256

namespace Metadata

/-- `initialise_metadata`. -/
def initial : Metadata where
  keys := []
  map := fun _ => none
  contexts := []
  changeIndex := 0
  overrun := false

/-! ### The configuration -/

def lookupType (typeName : Text) : Except String MetadataType :=
  if typeName = "string".toList then .ok .string
  else if typeName = "multiline".toList then .ok .multiline
  else if typeName = "constant".toList then .ok .constant
  else .error "Invalid metadata type"

def parseMetadataConstant (line : Text) : Except String MetadataValue := do
  let (_, line) ← parseWhitespace line
  let (_, line) ← parseChar '=' line
  let (string, _) ← parseUtf8String line
  .ok { type := .constant, value := some (string ++ ['\x00']), updateIndex := 0 }

def newValue (type : MetadataType) (line : Text) : Except String MetadataValue :=
  if type = .constant then parseMetadataConstant line
  else .ok { type, value := none, updateIndex := 1 }

/-- `hash_table_insert` of a key that must be new. -/
def insertKey (metadata : Metadata) (key : Text) (value : MetadataValue) : Except String Metadata :=
  if (metadata.map key).isSome then .error ("Metadata key " ++ String.ofList key ++ " repeated")
  else .ok { metadata with
    keys := key :: metadata.keys
    map := Function.update metadata.map key (some value) }

def addMetadataKey (key line : Text) (metadata : Metadata) : Except String Metadata := do
  let (typeName, line) ← parseName maxNameLength line
  let type ← lookupType typeName
  let value ← newValue type line
  metadata.insertKey key value

def configParseMetadataField (line : Text) (metadata : Metadata) : Except String Metadata := do
  let (key, line) ← parseAlphanumName maxNameLength line
  let (_, line) ← parseWhitespace line
  addMetadataKey key line metadata

/-- The lines of the metadata block, in a server that has started. -/
def configured : List Text → Metadata → Except String Metadata
  | [], metadata => .ok metadata
  | line :: rest, metadata => do
      let metadata ← configParseMetadataField line metadata
      configured rest metadata

/-! ### Writing values -/

def notFound (key : Text) : String := "Metadata key " ++ String.ofList key ++ " not found"

/-- A key is given a new value, with a fresh change index. -/
def store (metadata : Metadata) (key : Text) (value : MetadataValue) (memory : Text) : Metadata :=
  { metadata with
    map := Function.update metadata.map key
      (some { value with value := some memory, updateIndex := metadata.changeIndex + 1 })
    changeIndex := metadata.changeIndex + 1 }

def putMetadataValue (key string : Text) (metadata : Metadata) : Except String Metadata :=
  match metadata.map key with
  | none => .error (notFound key)
  | some value =>
      if value.type = .string then .ok (metadata.store key value (string ++ ['\x00']))
      else .error "Cannot write to this field"

/-- `MIN_LENGTH`. -/
def minLength : Nat := 1024

/-- `append_string`: the buffer is grown at most once for a string. -/
def appendString (writer : MultilineWriter) (string : Text) : MultilineWriter :=
  let lineLength := string.length + 1
  { writer with
    text := writer.text ++ (string ++ ['\x00'])
    maxLength :=
      if writer.text.length + lineLength > writer.maxLength then max minLength (2 * writer.maxLength)
      else writer.maxLength }

/-- More was written than the buffer holds. -/
def overruns (writer : MultilineWriter) : Bool := decide (writer.maxLength < writer.text.length)

def context (metadata : Metadata) (index : Nat) : Option MultilineWriter :=
  metadata.contexts[index]?.join

def writeMultilinePut (index : Nat) (metadata : Metadata) (line : Text) :
    Metadata × Option String :=
  match parseUtf8String line with
  | .error message => (metadata, some message)
  | .ok (string, _) =>
      match metadata.context index with
      | none => (metadata, none)
      | some writer =>
          let appended := appendString writer string
          ({ metadata with
              contexts := metadata.contexts.set index (some appended)
              overrun := metadata.overrun || overruns appended }, none)

def closeMultilinePut (index : Nat) (metadata : Metadata) (writeOk : Bool) : Metadata :=
  match metadata.context index with
  | none => metadata
  | some writer =>
      let closed := { metadata with contexts := metadata.contexts.set index none }
      if writeOk then
        let appended := appendString writer []
        let checked := { closed with overrun := metadata.overrun || overruns appended }
        match metadata.map writer.key with
        | none => checked
        | some value => checked.store writer.key value appended.text
      else closed

/-- `put_metadata_table`: the context of the new writer. -/
def putMetadataTable (key : Text) (metadata : Metadata) : Except String (Metadata × Nat) :=
  match metadata.map key with
  | none => .error (notFound key)
  | some value =>
      if value.type = .multiline then
        .ok
          ({ metadata with
              contexts := metadata.contexts ++ [some { key, text := [], maxLength := 0 }] },
            metadata.contexts.length)
      else .error "Not a multi-line field"

/-! ### Reading values -/

/-- The loop of `format_value` over the memory of a multi-line value: strings up to an empty
one. -/
def memoryStrings (memory : Text) : List Text :=
  let string := cString memory
  if string = [] then []
  else string :: memoryStrings (memory.drop (string.length + 1))
termination_by memory.length
decreasing_by
  rename_i hString
  have hMemory : memory ≠ [] := by
    rintro rfl
    exact hString rfl
  rw [List.length_drop]
  have hPos := List.length_pos_iff.mpr hMemory
  omega

/-- The lines of a value: a string that was never written is empty, and a multi-line value that
was never written has no lines. -/
def contents (value : MetadataValue) : List Text :=
  match value.type with
  | .multiline => memoryStrings (value.value.getD [])
  | .string | .constant => [cString (value.value.getD [])]

/-- `format_value`. A string that does not fit the result is an error. -/
def formatValue (value : MetadataValue) : GetResult :=
  match value.type with
  | .multiline => { many := (contents value).map LineText.ofText, outcome := .ok none }
  | .string | .constant =>
      let string := cString (value.value.getD [])
      { many := []
        outcome :=
          if string.length < maxResultLength then .ok (some (.ofText string))
          else .error (.ofText "Result too long".toList) }

def getMetadataValue (key : Text) (metadata : Metadata) : GetResult :=
  match metadata.map key with
  | none => { many := [], outcome := .error (.ofText (notFound key).toList) }
  | some value => formatValue value

def getMetadataKeys (metadata : Metadata) : GetResult :=
  { many := metadata.keys.map LineText.ofText, outcome := .ok none }

/-! ### Commands -/

/-- The key of a command: `.key` and nothing after it. -/
def commandKey (command : Text) : Except String Text := do
  let (_, command) ← parseChar '.' command
  let (key, command) ← parseAlphanumName maxNameLength command
  let _ ← parseEos command
  .ok key

def getMetadata (command : Text) (metadata : Metadata) : Except String GetResult := do
  let (_, command) ← parseChar '.' command
  if (readChar '*' command).1 then
    let _ ← parseEos (readChar '*' command).2
    .ok metadata.getMetadataKeys
  else
    let (key, command) ← parseAlphanumName maxNameLength command
    let _ ← parseEos command
    .ok (metadata.getMetadataValue key)

def putMetadata (command value : Text) (metadata : Metadata) : Except String Metadata := do
  let key ← commandKey command
  let (string, _) ← parseUtf8String value
  metadata.putMetadataValue key string

def putTableMetadata (command : Text) (metadata : Metadata) : Except String (Metadata × Nat) := do
  let key ← commandKey command
  metadata.putMetadataTable key

/-- The methods of a `put_table_writer` for a multi-line value. -/
def multilineWriter (index : Nat) : PutTableWriter Metadata where
  write := fun metadata line =>
    let written := writeMultilinePut index metadata line
    (written.1, written.2.map fun message => .ofText message.toList)
  close := fun metadata writeOk => (closeMultilinePut index metadata writeOk, none)

end Metadata

end Server
