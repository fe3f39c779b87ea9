import PandaBridge.Server.Metadata

/-! The types of fields: how the value of a register is read from a text and written as one.
What the C library and the compiler decide is a parameter, and so is the parser of lookup table
expressions. -/
namespace Server.Fields

/-- `time_units_enum_set`. -/
inductive TimeUnit
  | minutes
  | seconds
  | milliseconds
  | microseconds
  deriving DecidableEq

/-- The width of `long`, the arithmetic of `double` with its texts, and `parse_lut`. A number is
printed by `"%.10g"`, which takes seventeen characters at most. -/
structure Platform where
  width : Nat
  wide : 32 ≤ width
  Double : Type
  strtod : Text → Option (Double × Bool × Text)
  printDouble : Double → Text
  print_plain : ∀ number, '\n' ∉ printDouble number ∧ '\x00' ∉ printDouble number
  print_short : ∀ number, (printDouble number).length ≤ 17
  ofInt : Int → Double
  add : Double → Double → Double
  sub : Double → Double → Double
  mul : Double → Double → Double
  div : Double → Double → Double
  round : Double → Double
  le : Double → Double → Bool
  /-- `llround`. -/
  llround : Double → Nat
  /-- The conversion to `unsigned int`. -/
  toUnsigned : Double → Nat
  timeConversion : TimeUnit → Double
  nominalClock : Double
  parseLut : Text → Except String Nat

/-! ### Texts -/

/-- `format_string`, for a buffer of this size. -/
def formatString (room : Nat) (text : Text) : Except String Text :=
  if text.length < room then .ok text else .error "Result too long"

/-- What a parser reads from a line of which it leaves nothing. -/
def wholeLine {Value : Type} (parser : Parser Value) (line : Text) : Option Value :=
  match parser line with
  | .ok (value, []) => some value
  | _ => none

namespace Platform

variable (platform : Platform)

def parseDouble : Parser platform.Double := fun line =>
  match platform.strtod line with
  | none => .error "Number missing"
  | some (_, false, _) => .error "Error converting number"
  | some (number, true, rest) => .ok (number, rest)

def formatDouble (room : Nat) (number : platform.Double) : Except String Text :=
  (formatString room (platform.printDouble number)).map skipWhitespace

/-- What a number has become when its text is read again, if that text is a number. -/
def reread (number : platform.Double) : Option platform.Double :=
  wholeLine platform.parseDouble (skipWhitespace (platform.printDouble number))

/-- A number that is read as a `double` and then converted, if it is in range. -/
def parseScaled (convert : platform.Double → Option Nat) (outOfRange : String) : Parser Nat :=
  fun line =>
    match platform.parseDouble line with
    | .error message => .error message
    | .ok (number, rest) =>
        match convert number with
        | none => .error outOfRange
        | some value => .ok (value, rest)

end Platform

/-- `"0x%08X"` of 32 bits. -/
def hexDigit (digit : Nat) : Char := "0123456789ABCDEF".toList.getD digit '0'

def formatHex (value : Nat) : Text :=
  '0' :: 'x' :: [7, 6, 5, 4, 3, 2, 1, 0].map fun place => hexDigit (value / 16 ^ place % 16)

/-! ### Enumerations -/

/-- `enumeration`: its entries by increasing values, with names of their own. -/
structure Enumeration where
  entries : List (Nat × Text)
  sorted : entries.Pairwise fun first second => first.1 < second.1
  distinct : (entries.map Prod.snd).Nodup
  plain : ∀ entry ∈ entries, '\n' ∉ entry.2 ∧ '\x00' ∉ entry.2

namespace Enumeration

variable (enumeration : Enumeration)

/-- `enum_index_to_name`. -/
def indexToName (value : Nat) : Option Text :=
  (enumeration.entries.find? fun entry => entry.1 == value).map Prod.snd

/-- `enum_name_to_index`. -/
def nameToIndex (name : Text) : Option Nat :=
  (enumeration.entries.find? fun entry => entry.2 == name).map Prod.fst

/-- `format_enumeration`. -/
def format (room value : Nat) : Except String Text :=
  match enumeration.indexToName value with
  | none => .error "No label for value"
  | some label => formatString room label

end Enumeration

/-! ### Time -/

def TimeUnit.name : TimeUnit → Text
  | .minutes => "min".toList
  | .seconds => "s".toList
  | .milliseconds => "ms".toList
  | .microseconds => "us".toList

/-- `shared_units_parse`. -/
def sharedUnitsParse (string : Text) : Except String TimeUnit :=
  match [TimeUnit.minutes, .seconds, .milliseconds, .microseconds].find?
    fun unit => unit.name == string with
  | none => .error "Invalid time units"
  | some unit => .ok unit

/-- `shared_units_format`. -/
def sharedUnitsFormat (room : Nat) (unit : TimeUnit) : Except String Text :=
  formatString room unit.name

section Time

variable (platform : Platform)

/-- A number of ticks in this unit. -/
def scaledTime (value : Nat) (unit : TimeUnit) : platform.Double :=
  platform.div (platform.div (platform.ofInt value) (platform.timeConversion unit))
    platform.nominalClock

def timeClassFormat (room value : Nat) (unit : TimeUnit) : Except String Text :=
  platform.formatDouble room (scaledTime platform value unit)

/-- The number of ticks for a time in this unit, if it is in range. -/
def ticksOf (unit : TimeUnit) (maxValue : Nat) (scaled : platform.Double) : Option Nat :=
  let value := platform.mul (platform.mul scaled (platform.timeConversion unit)) platform.nominalClock
  if platform.le (platform.ofInt 0) value && platform.le value (platform.ofInt maxValue) then
    some (platform.llround value)
  else none

def timeClassParse (unit : TimeUnit) (maxValue : Nat) : Parser Nat :=
  platform.parseScaled (ticksOf platform unit maxValue) "Time setting out of range"

end Time

/-! ### Types -/

/-- The types of `types_table`, with what their `init` reads. -/
inductive FieldType (platform : Platform)
  | uint (maxValue : Nat)
  | int
  | scalar (scale offset : platform.Double)
  | bit
  | action
  | lut
  | time
  | enum (enumeration : Enumeration)

structure LutField where
  value : Nat
  string : Option Text

variable {platform : Platform}

/-- What a type keeps for one instance of a field. -/
abbrev TypeState : FieldType platform → Type
  | .lut => LutField
  | .time => TimeUnit
  | _ => Unit

def TypeState.initial : (type : FieldType platform) → TypeState type
  | .lut => { value := 0, string := none }
  | .time => .seconds
  | .uint _ | .int | .scalar _ _ | .bit | .action | .enum _ => ()

/-- The value of a scalar. -/
def scaledValue (scale offset : platform.Double) (value : Nat) : platform.Double :=
  let signed : Int := if value < 2 ^ 31 then value else value - 2 ^ 32
  platform.add (platform.mul scale (platform.ofInt signed)) offset

/-- The register value for a scalar, if it is in range. -/
def scalarRaw (scale offset number : platform.Double) : Option Nat :=
  let result := platform.round (platform.div (platform.sub number offset) scale)
  if platform.le (platform.ofInt (-2 ^ 31)) result && platform.le result (platform.ofInt (2 ^ 31 - 1))
  then some (platform.toUnsigned result % 2 ^ 32)
  else none

def scalarParse (scale offset : platform.Double) : Parser Nat :=
  platform.parseScaled (scalarRaw scale offset) "Value out of range"

/-- `strtoul` with base 16 on a text that starts with `0x`. Its errors are not looked at. -/
def parseHex (platform : Platform) (string : Text) : Except String Nat :=
  let digits := (string.drop 2).takeWhile (isDigitOf 16)
  let value := min (ofDigitText 16 digits) (2 ^ platform.width - 1)
  if digits ≠ [] ∧ string.drop 2 = digits then .ok (value % 2 ^ 32) else .error "Bad LUT number"

def doParseLut (platform : Platform) (string : Text) : Except String Nat :=
  if "0x".toList.isPrefixOf string then parseHex platform string
  else (platform.parseLut string).map (· % 2 ^ 32)

def uintParse (platform : Platform) (maxValue : Nat) : Parser Nat := fun line =>
  match parseUint platform.width line with
  | .error message => .error message
  | .ok (value, rest) =>
      if value ≤ maxValue then .ok (value, rest) else .error "Number out of range"

def enumParse (enumeration : Enumeration) : Parser Nat := fun line =>
  match enumeration.nameToIndex line with
  | none => .error "Invalid enumeration value"
  | some value => .ok (value, [])

/-- The `parse` of a type: the value, and what is left of the line. -/
def typeParse : (type : FieldType platform) → TypeState type → Parser Nat
  | .uint maxValue, _ => uintParse platform maxValue
  | .int, _ => parseInt platform.width
  | .scalar scale offset, _ => scalarParse scale offset
  | .bit, _ => parseBit
  | .action, _ => fun line => .ok (0, line)
  | .lut, _ => fun line => (doParseLut platform line).map fun value => (value, [])
  | .time, unit => fun line =>
      (timeClassParse platform unit (2 ^ 32 - 1) line).map fun parsed => (parsed.1 % 2 ^ 32, parsed.2)
  | .enum enumeration, _ => enumParse enumeration

/-- What `parse` remembers of a text that it has accepted. -/
def typeParsed : (type : FieldType platform) → TypeState type → Text → Nat → TypeState type
  | .lut, _, line, value => { value, string := some line }
  | .time, unit, _, _ => unit
  | .uint _, _, _, _ | .int, _, _, _ | .scalar _ _, _, _, _ | .bit, _, _, _ | .action, _, _, _
  | .enum _, _, _, _ => ()

/-- `lut_format`. -/
def lutFormat (room : Nat) (field : LutField) (value : Nat) : Except String Text :=
  match field.string with
  | some string =>
      if value = field.value then formatString room string else formatString room (formatHex value)
  | none => formatString room (formatHex value)

/-- The `format` of a type. An action has none. -/
def typeFormat (room : Nat) : (type : FieldType platform) → TypeState type → Nat → Except String Text
  | .uint _, _, value => formatString room (formatUint value)
  | .int, _, value => formatString room (formatInt value)
  | .scalar scale offset, _, value => platform.formatDouble room (scaledValue scale offset value)
  | .bit, _, value => formatString room (if value = 0 then ['0'] else ['1'])
  | .action, _, _ => .error "Cannot read action value"
  | .lut, field, value => lutFormat room field value
  | .time, unit, value => timeClassFormat platform room value unit
  | .enum enumeration, _, value => enumeration.format room value

/-- `type_put` up to the register: what is remembered, and the value to be written. -/
def typePut (type : FieldType platform) (state : TypeState type) (string : Text) :
    TypeState type × Except String Nat :=
  match typeParse type state string with
  | .error message => (state, .error message)
  | .ok (value, rest) => (typeParsed type state string value, (parseEos rest).map fun _ => value)

/-! ### Reading back -/

/-- The units of a type that has them. -/
def typeUnits : (type : FieldType platform) → TypeState type → Option TimeUnit
  | .time, unit => some unit
  | .uint _, _ | .int, _ | .scalar _ _, _ | .bit, _ | .action, _ | .lut, _ | .enum _, _ => none

/-- A text of a lookup table is one that was accepted for its value. -/
structure LutField.Sound (platform : Platform) (field : LutField) : Prop where
  parsed : ∀ string ∈ field.string, doParseLut platform string = .ok field.value
  plain : ∀ string ∈ field.string, '\n' ∉ string ∧ '\x00' ∉ string

def TypeSound : (type : FieldType platform) → TypeState type → Prop
  | .lut, field => field.Sound platform
  | .time, _ | .uint _, _ | .int, _ | .scalar _ _, _ | .bit, _ | .action, _ | .enum _, _ => True

/-- The text that `lut_format` chooses. -/
def lutText (field : LutField) (value : Nat) : Text :=
  match field.string with
  | some string => if value = field.value then string else formatHex value
  | none => formatHex value

/-- The value that is read back from the text of a value, if there is one and it is accepted:
a number above the maximum is refused, a scaled number is rounded to the digits of its text, an
action has no text, a lookup table may have one that does not fit, and an enumeration may have no
label for the value. -/
def reloaded (room : Nat) : (type : FieldType platform) → TypeState type → Nat → Option Nat
  | .uint maxValue, _, value => if value ≤ maxValue then some value else none
  | .int, _, value => some value
  | .scalar scale offset, _, value =>
      (platform.reread (scaledValue scale offset value)).bind (scalarRaw scale offset)
  | .bit, _, value => some (if value = 0 then 0 else 1)
  | .action, _, _ => none
  | .lut, field, value => if (lutText field value).length < room then some value else none
  | .time, unit, value =>
      ((platform.reread (scaledTime platform value unit)).bind
        (ticksOf platform unit (2 ^ 32 - 1))).map (· % 2 ^ 32)
  | .enum enumeration, _, value =>
      (enumeration.indexToName value).bind fun label =>
        if label.length < room then some value else none

theorem formatString_of_lt {room : Nat} {text : Text} (h : text.length < room) :
    formatString room text = .ok text :=
  if_pos h

theorem wholeLine_of_ok {Value : Type} {parser : Parser Value} {line : Text} {value : Value}
    (h : parser line = .ok (value, [])) : wholeLine parser line = some value := by
  simp only [wholeLine, h]

theorem wholeLine_map {First Second : Type} (parser : Parser First) (convert : First → Second)
    (line : Text) :
    wholeLine (fun line => (parser line).map fun parsed => (convert parsed.1, parsed.2)) line =
      (wholeLine parser line).map convert := by
  unfold wholeLine
  simp only
  cases parser line with
  | error message => rfl
  | ok parsed =>
      obtain ⟨value, rest⟩ := parsed
      cases rest with
      | nil => rfl
      | cons ch rest => rfl

theorem typePut_value (type : FieldType platform) (state : TypeState type) (string : Text) :
    (typePut type state string).2.toOption = wholeLine (typeParse type state) string := by
  unfold typePut wholeLine
  cases typeParse type state string with
  | error message => rfl
  | ok parsed =>
      obtain ⟨value, rest⟩ := parsed
      cases rest with
      | nil => rfl
      | cons ch rest => rfl

namespace Platform

theorem formatDouble_eq {room : Nat} (hRoom : 18 ≤ room) (number : platform.Double) :
    platform.formatDouble room number = .ok (skipWhitespace (platform.printDouble number)) := by
  have hShort := platform.print_short number
  rw [formatDouble, formatString_of_lt (by omega)]
  rfl

theorem wholeLine_parseScaled (convert : platform.Double → Option Nat) (outOfRange : String)
    (number : platform.Double) :
    wholeLine (platform.parseScaled convert outOfRange)
      (skipWhitespace (platform.printDouble number)) = (platform.reread number).bind convert := by
  unfold reread wholeLine parseScaled
  cases platform.parseDouble (skipWhitespace (platform.printDouble number)) with
  | error message => rfl
  | ok parsed =>
      obtain ⟨again, rest⟩ := parsed
      cases hConvert : convert again with
      | none =>
          simp only [hConvert]
          cases rest with
          | nil => exact hConvert.symm
          | cons ch rest => rfl
      | some value =>
          simp only [hConvert]
          cases rest with
          | nil => exact hConvert.symm
          | cons ch rest => rfl

end Platform

theorem Enumeration.nameToIndex_of_indexToName {enumeration : Enumeration} {value : Nat}
    {label : Text} (h : enumeration.indexToName value = some label) :
    enumeration.nameToIndex label = some value := by
  obtain ⟨entry, hFound, rfl⟩ := Option.map_eq_some_iff.mp h
  have hMem := List.mem_of_find?_eq_some hFound
  have hValue : entry.1 = value := by simpa using List.find?_some hFound
  obtain ⟨other, hOther⟩ : ∃ other, enumeration.entries.find? (fun other => other.2 == entry.2) =
      some other := by
    rw [← Option.isSome_iff_exists, List.find?_isSome]
    exact ⟨entry, hMem, by simp⟩
  have hName : other.2 = entry.2 := by simpa using List.find?_some hOther
  have hSame := List.inj_on_of_nodup_map enumeration.distinct (List.mem_of_find?_eq_some hOther)
    hMem hName
  rw [nameToIndex, hOther, Option.map_some, hSame, hValue]

theorem hexDigit_value : ∀ digit < 16, digitValue (hexDigit digit) = digit := by decide

theorem parseHex_formatHex {value : Nat} (h : value < 2 ^ 32) :
    parseHex platform (formatHex value) = .ok value := by
  have hDigit : ∀ place, digitValue (hexDigit (value / 16 ^ place % 16)) = value / 16 ^ place % 16 :=
    fun place => hexDigit_value _ (Nat.mod_lt _ (by omega))
  have hDrop : (formatHex value).drop 2 =
      [7, 6, 5, 4, 3, 2, 1, 0].map fun place => hexDigit (value / 16 ^ place % 16) := rfl
  have hDigits : ((formatHex value).drop 2).takeWhile (isDigitOf 16) = (formatHex value).drop 2 := by
    rw [List.takeWhile_eq_self_iff, hDrop]
    intro ch hMem
    obtain ⟨place, -, rfl⟩ := List.mem_map.mp hMem
    exact decide_eq_true (by rw [hDigit place]; exact Nat.mod_lt _ (by omega))
  have hValue : ofDigitText 16 ((formatHex value).drop 2) = value := by
    have hJoin : ∀ place, 16 * (value / 16 ^ (place + 1)) + value / 16 ^ place % 16 =
        value / 16 ^ place := by
      intro place
      rw [pow_succ, ← Nat.div_div_eq_div_mul]
      exact Nat.div_add_mod _ 16
    have hTop : 16 * 0 + value / 16 ^ 7 % 16 = value / 16 ^ 7 := by omega
    simp only [hDrop, ofDigitText, List.map_cons, List.map_nil, List.foldl_cons, List.foldl_nil,
      hDigit]
    rw [hTop, hJoin 6, hJoin 5, hJoin 4, hJoin 3, hJoin 2, hJoin 1, hJoin 0, pow_zero, Nat.div_one]
  have hLong : 2 ^ 32 ≤ 2 ^ platform.width := Nat.pow_le_pow_right (by omega) platform.wide
  have hMin : min value (2 ^ platform.width - 1) = value := by omega
  unfold parseHex
  simp only [hDigits, hValue, hMin, Nat.mod_eq_of_lt h, and_true]
  rw [if_pos (by rw [hDrop]; simp)]

theorem doParseLut_lutText {field : LutField} (hSound : field.Sound platform) {value : Nat}
    (h : value < 2 ^ 32) : doParseLut platform (lutText field value) = .ok value := by
  have hHex : doParseLut platform (formatHex value) = .ok value := by
    have hMark : "0x".toList.isPrefixOf (formatHex value) = true := rfl
    rw [doParseLut, if_pos hMark]
    exact parseHex_formatHex h
  unfold lutText
  cases hString : field.string with
  | none => exact hHex
  | some string =>
      simp only
      split_ifs with hValue
      · rw [hValue]
        exact hSound.parsed string (by rw [hString]; rfl)
      · exact hHex

theorem lutFormat_eq (room : Nat) (field : LutField) (value : Nat) :
    lutFormat room field value = formatString room (lutText field value) := by
  unfold lutFormat lutText
  cases field.string with
  | none => rfl
  | some string =>
      simp only
      split_ifs
      · rfl
      · rfl

theorem formatInt_length {value : Nat} (h : value < 2 ^ 32) : (formatInt value).length ≤ 11 := by
  unfold formatInt
  split_ifs with hSign
  · exact (formatUint_length h).trans (by omega)
  · have hNegative := @formatUint_length (2 ^ 32 - value) (by omega)
    rw [List.length_cons]
    omega

/-- What is read back from the text of a value. -/
theorem reloaded_eq {room value : Nat} (hRoom : 18 ≤ room) (h : value < 2 ^ 32)
    (type : FieldType platform) (saved found : TypeState type) (hSound : TypeSound type saved)
    (hUnits : typeUnits type found = typeUnits type saved) :
    (typeFormat room type saved value).toOption.bind (wholeLine (typeParse type found)) =
      reloaded room type saved value := by
  cases type with
  | uint maxValue =>
      have hShort := formatUint_length h
      simp only [typeFormat, formatString_of_lt (show (formatUint value).length < room by omega)]
      change wholeLine (uintParse platform maxValue) (formatUint value) = _
      simp only [wholeLine, uintParse, parseUint_formatUint platform.wide h, reloaded]
      split_ifs
      · rfl
      · rfl
  | int =>
      have hShort := formatInt_length h
      simp only [typeFormat, formatString_of_lt (show (formatInt value).length < room by omega)]
      exact wholeLine_of_ok (parseInt_formatInt platform.wide h)
  | scalar scale offset =>
      simp only [typeFormat, Platform.formatDouble_eq hRoom]
      exact Platform.wholeLine_parseScaled _ _ _
  | bit =>
      have hShort : (if value = 0 then ['0'] else ['1'] : Text).length < room := by
        split_ifs <;> simp <;> omega
      simp only [typeFormat, formatString_of_lt hShort, reloaded]
      split_ifs
      · rfl
      · rfl
  | action => rfl
  | lut =>
      simp only [typeFormat, lutFormat_eq, reloaded, formatString]
      split_ifs
      · refine wholeLine_of_ok ?_
        simp only [typeParse, doParseLut_lutText hSound h]
        rfl
      · rfl
  | time =>
      obtain rfl : found = saved := Option.some.inj hUnits
      simp only [typeFormat, timeClassFormat, Platform.formatDouble_eq hRoom]
      change wholeLine (fun line => (timeClassParse platform found (2 ^ 32 - 1) line).map
        fun parsed => (parsed.1 % 2 ^ 32, parsed.2)) _ = _
      rw [wholeLine_map _ (· % 2 ^ 32), timeClassParse, Platform.wholeLine_parseScaled]
      rfl
  | enum enumeration =>
      simp only [typeFormat, Enumeration.format, reloaded]
      cases hLabel : enumeration.indexToName value with
      | none => rfl
      | some label =>
          simp only [formatString, Option.bind_some]
          split_ifs
          · refine wholeLine_of_ok ?_
            simp only [typeParse, enumParse, Enumeration.nameToIndex_of_indexToName hLabel]
          · rfl

end Server.Fields
