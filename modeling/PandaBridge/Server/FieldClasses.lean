import PandaBridge.Server.FieldTypes
import PandaBridge.Server.TableText

/-! The classes of fields: what they keep for one instance of a field, and how its value and its
attributes are put and reported. Registers are written but not modelled, except that an extension
may refuse a value. An attribute is left out if it is in no change set and cannot be put. -/
namespace Server.Fields

variable {platform : Platform}

def posBusZero : Nat := 32

def maxBitMuxDelay : Nat := 31

def maxClockValue : Nat := 2 ^ 48 - 1

inductive RegisterKind
  | param
  | read
  | write
  deriving DecidableEq

/-- The answer of an extension to a value for a register of an instance. -/
abbrev Extension := Nat → Nat → Option String

/-- Units from the configuration. -/
structure UnitsText where
  chars : Text
  utf8 : utf8Check chars = []
  plain : '\n' ∉ chars
  string : '\x00' ∉ chars

/-- What is fixed for a table. -/
structure TableShape where
  tableType : TableType
  rowWords : Nat
  maxLength : Nat
  blockSize : Nat
  buffers : Nat

/-- The classes of `classes_table`, with what their `init` reads. -/
inductive FieldClass (platform : Platform)
  | register (kind : RegisterKind) (type : FieldType platform) (default : Fin (2 ^ 32))
      (extension : Option Extension)
  | time
  | bitOut
  | posOut (scale offset : platform.Double) (units : Option UnitsText)
  | extOut
  | bitMux (default : Fin (2 ^ 32))
  | posMux
  | table (shape : TableShape)

/-! ### What is kept for an instance -/

/-- `simple_field`, with the state of its type. -/
structure RegisterField (type : FieldType platform) where
  value : Nat
  state : TypeState type

structure TimeField where
  unit : TimeUnit
  value : Nat

structure PosOutput (platform : Platform) where
  scale : platform.Double
  offset : platform.Double
  units : Option Text
  captureMask : Nat

structure BitMuxValue where
  value : Nat
  delay : Nat

/-- `table_block`: the write is there while the write lock is held, and the queued words are the
hardware's. -/
structure TableField where
  block : TableBlock
  write : Option (TableFormat × List Word)
  queuedWords : Nat

abbrev Values : FieldClass platform → Type
  | .register _ type _ _ => RegisterField type
  | .time => TimeField
  | .bitOut => Unit
  | .posOut _ _ _ => PosOutput platform
  | .extOut => Bool
  | .bitMux _ => BitMuxValue
  | .posMux => Nat
  | .table _ => TableField

def Values.initial : (cls : FieldClass platform) → Values cls
  | .register _ type default _ => { value := default, state := .initial type }
  | .time => { unit := .seconds, value := 0 }
  | .bitOut => ()
  | .posOut scale offset units =>
      { scale, offset, units := units.map UnitsText.chars, captureMask := 0 }
  | .extOut => false
  | .bitMux default => { value := default, delay := 0 }
  | .posMux => posBusZero
  | .table shape =>
      { block :=
          { mode := .init
            resetRequired := false
            length := 0
            data := List.replicate shape.maxLength 0
            channel :=
              { free := shape.buffers, queue := [], currentBuffer := none, nextBuffer := none,
                nwords := 0, completed := false, registers := [] }
            resetCalls := 0 }
        write := none
        queuedWords := 0 }

/-! ### Lookups that all fields share -/

/-- The names that a mux knows, as `add_mux_indices` formats them. -/
structure MuxLookup where
  names : Enumeration
  short : ∀ entry ∈ names.entries, entry.2.length < maxNameLength

structure Lookups where
  bitMux : MuxLookup
  posMux : MuxLookup
  zero : posMux.names.indexToName posBusZero = some "ZERO".toList
  /-- Whether the hardware can compute a standard deviation. -/
  stdDev : Bool

/-! ### Capture options -/

/-- The names of `capture_option_info`, by the bit of the option. -/
def captureOptions : List (Nat × Text) :=
  [(0, "Value".toList), (1, "Diff".toList), (2, "Sum".toList), (3, "Min".toList),
    (4, "Max".toList), (5, "Mean".toList), (6, "StdDev".toList)]

/-- The loop of `format_capture_string`. -/
def formatCaptures (room mask : Nat) : List (Nat × Text) → (formatted : Text) → Except String Text
  | [], formatted => .ok (if formatted = [] then "No".toList else formatted)
  | (place, option) :: rest, formatted =>
      if mask.testBit place then
        let separator : Text := if formatted = [] then [] else [' ']
        if formatted.length + separator.length + option.length + 1 < room then
          formatCaptures room mask rest (formatted ++ separator ++ option)
        else .error "Unexpected buffer overflow in pos_out format"
      else formatCaptures room mask rest formatted

def formatCaptureString (room mask : Nat) : Except String Text :=
  formatCaptures room mask captureOptions []

/-- `lookup_capture_option`. -/
def lookupCaptureOption (stdDev : Bool) (option : Text) : Except String Nat :=
  match captureOptions.find? fun entry => entry.2 == option && (stdDev || entry.1 != 6) with
  | none => .error ("Unknown capture option \"" ++ String.ofList option ++ "\"")
  | some entry => .ok entry.1

/-- The loop of `pos_out_capture_put`. Every round reads a character at least, so that as many
rounds as there are characters are enough. -/
def parseCaptures (stdDev : Bool) : (rounds : Nat) → Text → (mask : Nat) → Except String Nat
  | _, [], mask => .ok mask
  | 0, _ :: _, _ => .error "No name found"
  | rounds + 1, ch :: value, mask => do
      let (option, rest) ← parseName maxNameLength (ch :: value)
      let index ← lookupCaptureOption stdDev option
      parseCaptures stdDev rounds (skipWhitespace rest) (mask ||| 2 ^ index)

def posOutCapturePut (stdDev : Bool) (value : Text) : Except String Nat :=
  if value = "No".toList then .ok 0 else parseCaptures stdDev value.length value 0

/-- The names of `ext_out_capture_enum_set`. -/
def extOutCaptureName (capture : Bool) : Text := if capture then "Value".toList else "No".toList

def extOutCapturePut (value : Text) : Except String Bool :=
  if value = "No".toList then .ok false
  else if value = "Value".toList then .ok true
  else .error "Invalid capture option"

/-! ### Values of fields -/

/-- `write_register`. -/
def writeRegister (extension : Option Extension) (number value : Nat) : Option String :=
  match extension with
  | none => none
  | some write => write number value

/-- `write_type_register`. -/
def writeTypeRegister (kind : RegisterKind) (extension : Option Extension) (number value : Nat)
    {type : FieldType platform} (field : RegisterField type) :
    RegisterField type × Option String :=
  match kind with
  | .read => (field, some "Register cannot be written")
  | .write => (field, writeRegister extension number value)
  | .param =>
      match writeRegister extension number value with
      | some message => (field, some message)
      | none => ({ field with value }, none)

/-- `base_put`. -/
def basePut (readOnly : Bool) (kind : RegisterKind) (extension : Option Extension) (number : Nat)
    {type : FieldType platform} (field : RegisterField type) (string : Text) :
    RegisterField type × Option String :=
  if readOnly then (field, some "Field is bridge-owned (client writes refused)")
  else
    match typePut type field.state string with
    | (state, .error message) => ({ field with state }, some message)
    | (state, .ok value) => writeTypeRegister kind extension number value { field with state }

/-- What follows a number on its line is an error. -/
def parseWhole {Value : Type} (parser : Parser Value) (string : Text) : Except String Value := do
  let (value, rest) ← parser string
  let _ ← parseEos rest
  .ok value

def timePut (field : TimeField) (string : Text) : TimeField × Option String :=
  match parseWhole (timeClassParse platform field.unit maxClockValue) string with
  | .error message => (field, some message)
  | .ok value => ({ field with value }, none)

/-- The put of a class, for those that have one. -/
def classPut (lookups : Lookups) (readOnly : Bool) (number : Nat) : (cls : FieldClass platform) →
    Values cls → Text → Values cls × Option String
  | .register .param _ _ extension, field, string =>
      basePut readOnly .param extension number field string
  | .register .write _ _ extension, field, string =>
      basePut readOnly .write extension number field string
  | .time, field, string => @timePut platform field string
  | .bitMux _, field, string =>
      match lookups.bitMux.names.nameToIndex string with
      | none => (field, some "Invalid bit bus selection")
      | some value => ({ field with value }, none)
  | .posMux, field, string =>
      match lookups.posMux.names.nameToIndex string with
      | none => (field, some "Invalid position selection")
      | some value => (value, none)
  | .register .read _ _ _, field, _ => (field, some "Field not writeable")
  | .bitOut, field, _ => (field, some "Field not writeable")
  | .posOut _ _ _, field, _ => (field, some "Field not writeable")
  | .extOut, field, _ => (field, some "Field not writeable")
  | .table _, field, _ => (field, some "Field not writeable")

/-- The value of a field that is in the change set of the configuration. -/
def classReport (lookups : Lookups) (room : Nat) : (cls : FieldClass platform) → Values cls →
    Option (Except String Text)
  | .register .param type _ _, field => some (typeFormat room type field.state field.value)
  | .time, field => some (timeClassFormat platform room field.value field.unit)
  | .bitMux _, field => some (lookups.bitMux.names.format room field.value)
  | .posMux, value => some (lookups.posMux.names.format room value)
  | .register .read _ _ _, _ | .register .write _ _ _, _ | .bitOut, _ | .posOut _ _ _, _
  | .extOut, _ | .table _, _ => none

/-! ### Attributes -/

inductive AttrName
  | raw
  | units
  | delay
  | scale
  | offset
  | capture
  | mode
  | queuedLines
  deriving DecidableEq

/-- The attributes of a class and, for a register, of its type. -/
def classAttrs : FieldClass platform → List AttrName
  | .register _ (.scalar _ _) _ _ => [.raw]
  | .register _ .time _ _ => [.raw, .units]
  | .register _ (.uint _) _ _ | .register _ .int _ _ | .register _ .bit _ _
  | .register _ .action _ _ | .register _ .lut _ _ | .register _ (.enum _) _ _ => []
  | .time => [.raw, .units]
  | .bitOut => []
  | .posOut _ _ _ => [.scale, .offset, .units, .capture]
  | .extOut => [.capture]
  | .bitMux _ => [.delay]
  | .posMux => []
  | .table _ => [.mode, .queuedLines]

def tableModeName : TableMode → Text
  | .init => "INIT".toList
  | .fixed => "FIXED".toList
  | .streaming => "STREAMING".toList
  | .streamingLast => "STREAMING_LAST".toList

/-- What is kept is replaced, or there is an error. -/
def stored {State Value : Type} (state : State) (update : Value → State) :
    Except String Value → State × Option String
  | .error message => (state, some message)
  | .ok value => (update value, none)

/-- What is accepted is put, or nothing changes. -/
theorem stored_keeps {State Value : Type} (keeps : State → Prop) {state : State}
    {update : Value → State} {parsed : Except String Value} (hState : keeps state)
    (hUpdate : ∀ value, parsed = .ok value → keeps (update value)) :
    keeps (stored state update parsed).1 := by
  cases parsed with
  | error message => exact hState
  | ok value => exact hUpdate value rfl

/-- `RAW` of a type. -/
def rawPut (kind : RegisterKind) (extension : Option Extension) (number : Nat)
    {type : FieldType platform} (parser : Parser Nat) (field : RegisterField type)
    (string : Text) : RegisterField type × Option String :=
  match parseWhole parser string with
  | .error message => (field, some message)
  | .ok value => writeTypeRegister kind extension number value field

def attrNotWriteable : String := "Attribute not writeable"

def posOutAttrPut (stdDev : Bool) (field : PosOutput platform) (string : Text) :
    AttrName → PosOutput platform × Option String
  | .scale => stored field (fun scale => { field with scale })
      (parseWhole platform.parseDouble string)
  | .offset => stored field (fun offset => { field with offset })
      (parseWhole platform.parseDouble string)
  | .units => stored field (fun units => { field with units := some units })
      ((parseUtf8String string).map Prod.fst)
  | .capture => stored field (fun captureMask => { field with captureMask })
      (posOutCapturePut stdDev string)
  | .raw | .delay | .mode | .queuedLines => (field, some attrNotWriteable)

def bitMuxDelayPut (width : Nat) (field : BitMuxValue) (string : Text) :
    BitMuxValue × Option String :=
  match parseWhole (parseUint width) string with
  | .error message => (field, some message)
  | .ok delay =>
      if delay ≤ maxBitMuxDelay then ({ field with delay }, none) else (field, some "Delay too long")

def typeAttrPut (kind : RegisterKind) (extension : Option Extension) (number : Nat) :
    (type : FieldType platform) → RegisterField type → Text → AttrName →
      RegisterField type × Option String
  | .scalar _ _, field, string, .raw =>
      rawPut kind extension number (parseInt platform.width) field string
  | .time, field, string, .raw =>
      rawPut kind extension number (parseUint platform.width) field string
  | .time, field, string, .units =>
      stored field (fun unit => { field with state := unit }) (sharedUnitsParse string)
  | _, field, _, _ => (field, some attrNotWriteable)

/-- The put of an attribute, for those that have one. -/
def attrPut (lookups : Lookups) (number : Nat) : (cls : FieldClass platform) → Values cls → Text →
    AttrName → Values cls × Option String
  | .register kind type _ extension, field, string, attr =>
      typeAttrPut kind extension number type field string attr
  | .time, field, string, .raw =>
      stored field (fun value => { field with value }) (parseWhole parseUint64 string)
  | .time, field, string, .units =>
      stored field (fun unit => { field with unit }) (sharedUnitsParse string)
  | .posOut _ _ _, field, string, attr => posOutAttrPut lookups.stdDev field string attr
  | .extOut, field, string, .capture =>
      stored field (fun capture => capture) (extOutCapturePut string)
  | .bitMux _, field, string, .delay => bitMuxDelayPut platform.width field string
  | _, field, _, _ => (field, some attrNotWriteable)

def posOutAttrReport (room : Nat) (field : PosOutput platform) :
    AttrName → Option (Except String Text)
  | .scale => some (platform.formatDouble room field.scale)
  | .offset => some (platform.formatDouble room field.offset)
  | .units => some (formatString room (field.units.getD []))
  | .capture => some (formatCaptureString room field.captureMask)
  | .raw | .delay | .mode | .queuedLines => none

def typeAttrReport (room : Nat) : (type : FieldType platform) → TypeState type → AttrName →
    Option (Except String Text)
  | .time, unit, .units => some (sharedUnitsFormat room unit)
  | _, _, _ => none

/-- The text of an attribute that is in the change set of attributes. -/
def attrReport (room : Nat) : (cls : FieldClass platform) → Values cls → AttrName →
    Option (Except String Text)
  | .register _ type _ _, field, attr => typeAttrReport room type field.state attr
  | .time, field, .units => some (sharedUnitsFormat room field.unit)
  | .posOut _ _ _, field, attr => posOutAttrReport room field attr
  | .extOut, capture, .capture => some (formatString room (extOutCaptureName capture))
  | .bitMux _, field, .delay => some (formatString room (formatUint field.delay))
  | .table _, field, .mode => some (formatString room (tableModeName field.block.mode))
  | .table shape, field, .queuedLines =>
      some (formatString room (formatUint (field.queuedWords / shape.rowWords)))
  | _, _, _ => none

end Server.Fields
