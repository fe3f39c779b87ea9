import Mathlib.Data.List.DropRight
import Mathlib.Data.List.FinRange
import Mathlib.Data.List.Nodup
import PandaBridge.Server.FieldTypes

/-! Blocks, fields and attributes by their names: what the configuration file may declare, the name
that a report gives to an instance, and what a command with that name finds. -/
namespace Server.Entity

/-! ### The configuration -/

/-- `types_table`. -/
inductive FieldType
  | uint
  | int
  | scalar
  | bit
  | action
  | lut
  | time
  | enum

/-- `classes_table`, with the type of the classes that have one. -/
inductive FieldClass
  | param (type : FieldType)
  | read (type : FieldType)
  | write (type : FieldType)
  | time
  | bitOut
  | posOut
  | extOut (bits : Bool)
  | bitMux
  | posMux
  | table

def FieldType.attrs : FieldType → List Text
  | .uint => ["MAX".toList]
  | .scalar => ["RAW".toList, "UNITS".toList, "SCALE".toList, "OFFSET".toList]
  | .lut => ["RAW".toList]
  | .time => ["RAW".toList, "UNITS".toList]
  | .int | .bit | .action | .enum => []

/-- The attributes of the type, those that the class adds, and `info_attribute`. -/
def FieldClass.attrs : FieldClass → List Text
  | .param type | .read type | .write type => type.attrs ++ ["INFO".toList]
  | .time => ["RAW".toList, "UNITS".toList, "INFO".toList]
  | .bitOut => ["CAPTURE_WORD".toList, "OFFSET".toList, "INFO".toList]
  | .posOut =>
      ["CAPTURE".toList, "SCALED".toList, "SCALE".toList, "OFFSET".toList, "UNITS".toList,
        "INFO".toList]
  | .extOut true => ["CAPTURE".toList, "BITS".toList, "INFO".toList]
  | .extOut false => ["CAPTURE".toList, "INFO".toList]
  | .bitMux => ["DELAY".toList, "MAX_DELAY".toList, "INFO".toList]
  | .posMux => ["INFO".toList]
  | .table =>
      ["MODE".toList, "LENGTH".toList, "MAX_LENGTH".toList, "FIELDS".toList, "B".toList,
        "ROW_WORDS".toList, "QUEUED_LINES".toList, "INFO".toList]

/-- What `parse_name` accepts as a whole. -/
structure IsAttrName (name : Text) : Prop where
  filled : name ≠ []
  chars : ∀ ch ∈ name, validNameChar ch = true
  short : name.length < maxNameLength

/-- What `parse_block_name` leaves of a name. -/
structure IsBlockName (name : Text) : Prop where
  named : IsName name
  last : ∀ ch ∈ name.getLast?, ch.isDigit = false

structure Field where
  name : Text
  cls : FieldClass
  named : IsName name

structure Block where
  name : Text
  count : Nat
  fields : List Field
  named : IsBlockName name
  count_lt : count < 2 ^ 32
  distinct : (fields.map Field.name).Nodup

/-- The blocks that were declared, with the newest first. -/
structure Database where
  blocks : List Block
  distinct : (blocks.map Block.name).Nodup

def Database.empty : Database := ⟨[], List.nodup_nil⟩

/-! ### Loading -/

def parseBlockName : Parser Text := fun line => do
  let (name, _) ← parseAlphanumName maxNameLength line
  let name := name.rdropWhile Char.isDigit
  .ok (name, line.drop name.length)

theorem validNameChar_not_digit {ch : Char} (h : validNameChar ch = true) : ch.isDigit = false := by
  cases hDigit : ch.isDigit with
  | false => rfl
  | true =>
      obtain ⟨digit, hLt, rfl⟩ := exists_digitChar hDigit
      have hNone : ∀ digit < 10, validNameChar (Nat.digitChar digit) = false := by decide
      exact absurd h (by rw [hNone digit hLt]; exact Bool.false_ne_true)

theorem IsName.rdropWhile_digits {name : Text} (hName : IsName name) :
    IsBlockName (name.rdropWhile Char.isDigit) := by
  have hStart : name.rdropWhile Char.isDigit <+: name := List.rdropWhile_prefix _ name
  have hFilled : name.rdropWhile Char.isDigit ≠ [] := by
    intro hNil
    obtain ⟨head, tail, rfl⟩ := List.exists_cons_of_ne_nil hName.filled
    have hDigit := List.rdropWhile_eq_nil_iff.mp hNil head List.mem_cons_self
    rw [validNameChar_not_digit (hName.head head rfl)] at hDigit
    exact Bool.false_ne_true hDigit
  refine ⟨⟨hFilled, fun ch hHead => hName.head ch ?_, fun ch hMem => ?_, ?_⟩, fun ch hLast => ?_⟩
  · rw [← List.prefix_iff_eq_append.mp hStart, List.head?_append_of_ne_nil _ hFilled]
    exact hHead
  · exact hName.chars ch (hStart.subset hMem)
  · exact hStart.length_le.trans_lt hName.short
  · have hNot := List.rdropWhile_last_not Char.isDigit name hFilled
    rw [List.getLast?_eq_some_getLast hFilled] at hLast
    obtain rfl := Option.mem_some_iff.mp hLast
    exact Bool.eq_false_of_not_eq_true hNot

theorem parseBlockName_ok {line name rest : Text} (h : parseBlockName line = .ok (name, rest)) :
    IsBlockName name ∧ line = name ++ rest := by
  obtain ⟨⟨whole, after⟩, hWhole, hRest⟩ := exists_of_bind_eq_ok h
  obtain ⟨hName, hLine⟩ := parseAlphanumName_ok hWhole
  obtain ⟨rfl, rfl⟩ := Prod.mk.inj (Except.ok.inj hRest)
  refine ⟨IsName.rdropWhile_digits hName, ?_⟩
  have hStart : whole.rdropWhile Char.isDigit <+: line := by
    rw [hLine]
    exact (List.rdropWhile_prefix _ whole).trans (List.prefix_append whole after)
  exact (List.prefix_iff_eq_append.mp hStart).symm

/-- `hash_table_insert` finds no entry with this name. -/
def isNew (names : List Text) (name : Text) : Bool := names.all fun old => old != name

theorem isNew_iff {names : List Text} {name : Text} : isNew names name = true ↔ name ∉ names := by
  rw [isNew, List.all_eq_true]
  constructor
  · intro hAll hMem
    exact absurd (hAll name hMem) (by simp)
  · intro hNew old hMem
    exact bne_iff_ne.mpr fun hSame => hNew (hSame ▸ hMem)

theorem nodup_of_isNew {Item : Type} {items : List Item} {nameOf : Item → Text} {item : Item}
    (hNew : isNew (items.map nameOf) (nameOf item) = true) (hDistinct : (items.map nameOf).Nodup) :
    ((item :: items).map nameOf).Nodup := by
  rw [List.map_cons]
  exact List.nodup_cons.mpr ⟨isNew_iff.mp hNew, hDistinct⟩

section Loader

variable (width : Nat) (initClass : Text → Nat → Parser FieldClass)

/-- The number of instances behind the name of a block. -/
def parseCount : Parser Nat := fun line =>
  if (readChar '[' line).1 then do
    let (count, line) ← parseUint width (readChar '[' line).2
    let ((), line) ← parseChar ']' line
    .ok (count, line)
  else .ok (1, line)

theorem parseCount_lt {line rest : Text} {count : Nat}
    (h : parseCount width line = .ok (count, rest)) : count < 2 ^ 32 := by
  unfold parseCount at h
  split_ifs at h with hOpen
  · obtain ⟨⟨number, after⟩, hNumber, hNext⟩ := exists_of_bind_eq_ok h
    obtain ⟨⟨_, last⟩, _, hCount⟩ := exists_of_bind_eq_ok hNext
    obtain ⟨rfl, -⟩ := Prod.mk.inj (Except.ok.inj hCount)
    exact parseUint_lt hNumber
  · obtain ⟨rfl, -⟩ := Prod.mk.inj (Except.ok.inj h)
    decide

/-- `create_block`. -/
def createBlock (database : Database) (block : Block) : Except String Database :=
  if hNew : isNew (database.blocks.map Block.name) block.name = true then
    .ok ⟨block :: database.blocks, nodup_of_isNew hNew database.distinct⟩
  else
    .error ("Block " ++ String.ofList block.name ++ " already exists")

def configParseNormalHeader (database : Database) (line : Text) : Except String Database :=
  match hName : parseBlockName line with
  | .error message => .error message
  | .ok (name, line) =>
      match hCount : parseCount width line with
      | .error message => .error message
      | .ok (count, line) => do
          let database ← createBlock database
            ⟨name, count, [], (parseBlockName_ok hName).1, parseCount_lt width hCount,
              List.nodup_nil⟩
          parseEos line
          .ok database

/-- The last steps of `create_field`. -/
def insertField (block : Block) (field : Field) :
    Except String { after : Block // after.name = block.name } :=
  if hNew : isNew (block.fields.map Field.name) field.name = true then
    .ok ⟨{ block with
      fields := field :: block.fields
      distinct := nodup_of_isNew hNew block.distinct }, rfl⟩
  else
    .error ("Field " ++ String.ofList block.name ++ "." ++ String.ofList field.name ++
      " already exists")

/-- `create_field`. What follows the name of the class is left to the class. -/
def createField (block : Block) (line : Text) :
    Except String ({ after : Block // after.name = block.name } × Text) :=
  match hName : parseAlphanumName maxNameLength line with
  | .error message => .error message
  | .ok (name, line) => do
      let ((), line) ← parseWhitespace line
      let (className, line) ← parseName maxNameLength line
      let (cls, line) ← initClass className block.count line
      let after ← insertField block ⟨name, cls, (parseAlphanumName_ok hName).1⟩
      .ok (after, line)

/-- A line of the file by its indentation. -/
inductive ConfigLine
  | header (line : Text)
  | field (line : Text)

def parseConfigLine (database : Database) : ConfigLine → Except String Database
  | .header line => configParseNormalHeader width database line
  | .field line =>
      match hBlocks : database.blocks with
      | [] => .error "Cannot parse this indentation"
      | block :: rest => do
          let (after, line) ← createField initClass block line
          parseEos line
          .ok ⟨after.val :: rest, by
            rw [List.map_cons, after.property, ← List.map_cons, ← hBlocks]
            exact database.distinct⟩

/-- `load_config_database`. -/
def loadConfig (lines : List ConfigLine) : Except String Database :=
  lines.foldlM (parseConfigLine width initClass) Database.empty

end Loader

/-! ### The name of an instance -/

/-- One instance of a field, or of one of its attributes. -/
structure Place (database : Database) where
  block : Fin database.blocks.length
  field : Fin (database.blocks.get block).fields.length
  number : Fin (database.blocks.get block).count
  attr : Option { attr : Text // attr ∈ ((database.blocks.get block).fields.get field).cls.attrs }

variable {database : Database}

namespace Place

abbrev blockOf (place : Place database) : Block := database.blocks.get place.block

abbrev fieldOf (place : Place database) : Field := place.blockOf.fields.get place.field

end Place

/-- `"%d"` for the number, which is left out if there is one instance only. -/
def numberText (count number : Nat) : Text :=
  if count = 1 then [] else formatInt ((number + 1) % 2 ^ 32)

def attrText : Option Text → Text
  | none => []
  | some attr => '.' :: attr

/-- `format_field_name`. -/
def formatFieldName (place : Place database) (suffix : Char) : Text :=
  place.blockOf.name ++ (numberText place.blockOf.count place.number ++
    '.' :: (place.fieldOf.name ++ attrText (place.attr.map Subtype.val))) ++ [suffix]

/-! ### Finding what a name stands for -/

/-- `lookup_block`. -/
def lookupBlock (database : Database) (name : Text) : Except String (Fin database.blocks.length) :=
  match (List.finRange database.blocks.length).find? fun block =>
    (database.blocks.get block).name == name with
  | none => .error "No such block"
  | some block => .ok block

/-- `lookup_field`. -/
def lookupField (block : Block) (name : Text) : Except String (Fin block.fields.length) :=
  match (List.finRange block.fields.length).find? fun field =>
    (block.fields.get field).name == name with
  | none => .error "No such field"
  | some field => .ok field

/-- `lookup_attr`. -/
def lookupAttr (field : Field) (name : Text) : Except String Text :=
  match field.cls.attrs.find? fun attr => attr == name with
  | none => .error "No such attribute"
  | some attr => .ok attr

/-- `struct entity_context` with the two flags of `parse_block_entity`. -/
structure EntityContext (database : Database) where
  block : Fin database.blocks.length
  number : Nat
  numberPresent : Bool
  field : Option (Fin (database.blocks.get block).fields.length)
  attr : Option Text
  starPresent : Bool
  deriving DecidableEq

/-- The number of `parse_and_lookup_block`, and whether there is one. -/
def parseNumber (width maxNumber : Nat) : Parser (Nat × Bool) := fun line =>
  if line.head?.any Char.isDigit then do
    let (number, line) ← parseUint width line
    if 0 < number ∧ number ≤ maxNumber then .ok ((number - 1, true), line)
    else .error "Invalid block number"
  else .ok ((0, false), line)

/-- `parse_and_lookup_block`. -/
def parseAndLookupBlock (width : Nat) (database : Database) : Parser (EntityContext database) :=
  fun line => do
    let (name, line) ← parseBlockName line
    let block ← lookupBlock database name
    let ((number, present), line) ← parseNumber width (database.blocks.get block).count line
    .ok (⟨block, number, present, none, none, false⟩, line)

/-- `check_block_number`, which is left out when the caller takes no flag for the number. -/
def checkBlockNumber (numberWanted : Bool) (maxNumber : Nat) (present : Bool) :
    Except String Unit :=
  if numberWanted = true ∧ ¬ (present = true ∨ maxNumber = 1) then .error "Missing block number"
  else .ok ()

section Entity

variable (numberWanted starWanted : Bool)

/-- What stands behind the dot of a field. -/
def parseFieldPart (context : EntityContext database)
    (field : Fin (database.blocks.get context.block).fields.length) :
    Parser (EntityContext database) := fun line => do
  let block := database.blocks.get context.block
  let context := { context with field := some field }
  if (readChar '.' line).1 then
    let line := (readChar '.' line).2
    if starWanted && (readChar '*' line).1 then
      .ok ({ context with starPresent := true }, (readChar '*' line).2)
    else
      checkBlockNumber numberWanted block.count context.numberPresent
      let (name, line) ← parseName maxNameLength line
      let attr ← lookupAttr (block.fields.get field) name
      .ok ({ context with attr := some attr }, line)
  else
    checkBlockNumber numberWanted block.count context.numberPresent
    .ok (context, line)

/-- `parse_block_entity`, with whether the caller takes the two flags. -/
def parseBlockEntity (width : Nat) (database : Database) : Parser (EntityContext database) :=
  fun line => do
    let (context, line) ← parseAndLookupBlock width database line
    if (readChar '.' line).1 then
      let line := (readChar '.' line).2
      if starWanted && (readChar '*' line).1 then
        .ok ({ context with starPresent := true }, (readChar '*' line).2)
      else
        let (name, line) ← parseAlphanumName maxNameLength line
        let field ← lookupField (database.blocks.get context.block) name
        parseFieldPart numberWanted starWanted context field line
    else .ok (context, line)

end Entity

/-! ### A name is found again -/

theorem rdropWhile_digits {name digits : Text} (hLast : ∀ ch ∈ name.getLast?, ch.isDigit = false)
    (hDigits : ∀ ch ∈ digits, ch.isDigit = true) :
    (name ++ digits).rdropWhile Char.isDigit = name := by
  have hName : name.reverse.dropWhile Char.isDigit = name.reverse := by
    cases hReverse : name.reverse with
    | nil => rfl
    | cons ch tail =>
        have hEnd : ch ∈ name.getLast? := by
          rw [← List.head?_reverse, hReverse]
          rfl
        exact List.dropWhile_cons_of_neg (by simp [hLast ch hEnd])
  rw [List.rdropWhile, List.reverse_append,
    List.dropWhile_append_of_pos fun ch hMem => hDigits ch (List.mem_reverse.mp hMem), hName,
    List.reverse_reverse]

section BlockName

variable {name digits rest : Text}

theorem blockName_chars (hName : IsBlockName name) (hDigits : ∀ ch ∈ digits, ch.isDigit = true) :
    (∀ ch ∈ (name ++ digits).head?, validNameChar ch = true) ∧
      ∀ ch ∈ name ++ digits, validAlphanumChar ch = true := by
  refine ⟨?_, fun ch hMem => ?_⟩
  · rw [List.head?_append_of_ne_nil _ hName.named.filled]
    exact hName.named.head
  · rcases List.mem_append.mp hMem with hFirst | hDigit
    · exact hName.named.chars ch hFirst
    · simp [validAlphanumChar, hDigits ch hDigit]

theorem parseBlockName_append (hName : IsBlockName name)
    (hDigits : ∀ ch ∈ digits, ch.isDigit = true)
    (hShort : name.length + digits.length < maxNameLength)
    (hRest : ∀ ch ∈ rest.head?, validAlphanumChar ch = false) :
    parseBlockName (name ++ (digits ++ rest)) = .ok (name, digits ++ rest) := by
  obtain ⟨hHead, hChars⟩ := blockName_chars hName hDigits
  have hParse := parseAlphanumName_append (List.append_ne_nil_of_left_ne_nil hName.named.filled _)
    hHead hChars (by rw [List.length_append]; exact hShort) hRest
  rw [List.append_assoc] at hParse
  simp only [parseBlockName, hParse, bind, Except.bind, rdropWhile_digits hName.last hDigits,
    List.drop_left]

theorem parseBlockName_too_long (hName : IsBlockName name)
    (hDigits : ∀ ch ∈ digits, ch.isDigit = true)
    (hLong : maxNameLength ≤ name.length + digits.length) :
    parseBlockName (name ++ (digits ++ rest)) = .error "Name too long" := by
  obtain ⟨hHead, hChars⟩ := blockName_chars hName hDigits
  have hParse := @parseAlphanumName_too_long (name ++ digits) rest
    (List.append_ne_nil_of_left_ne_nil hName.named.filled _) hHead hChars
    (by rw [List.length_append]; exact hLong)
  rw [List.append_assoc] at hParse
  simp only [parseBlockName, hParse, bind, Except.bind]

end BlockName

/-! ### Looking names up -/

theorem find_name {size : Nat} {nameOf : Fin size → Text} (hDistinct : Function.Injective nameOf)
    (index : Fin size) :
    ((List.finRange size).find? fun other => nameOf other == nameOf index) = some index := by
  cases hFound : (List.finRange size).find? fun other => nameOf other == nameOf index with
  | none =>
      have hNone := List.find?_eq_none.mp hFound index (List.mem_finRange index)
      exact absurd (beq_self_eq_true _) hNone
  | some other =>
      have hSame : nameOf other = nameOf index := by simpa using List.find?_some hFound
      rw [hDistinct hSame]

theorem injective_of_nodup_map {Item : Type} {items : List Item} {nameOf : Item → Text}
    (hDistinct : (items.map nameOf).Nodup) :
    Function.Injective fun index : Fin items.length => nameOf (items.get index) := by
  intro first second hSame
  have hItem := List.inj_on_of_nodup_map hDistinct (items.get_mem first) (items.get_mem second)
    hSame
  exact List.nodup_iff_injective_get.mp hDistinct.of_map hItem

theorem readChar_star_name {name : Text} (hName : IsName name) (rest : Text) :
    (readChar '*' (name ++ rest)).1 = false := by
  cases name with
  | nil => exact absurd rfl hName.filled
  | cons ch tail =>
      have hHead := hName.head ch rfl
      have hNe : ch ≠ '*' := by
        rintro rfl
        exact absurd hHead (by decide)
      rw [List.cons_append, readChar, if_neg hNe]

theorem isDigit_formatUint (value : Nat) : ∀ ch ∈ formatUint value, ch.isDigit = true :=
  fun _ hMem => Nat.isDigit_of_mem_toDigits (by omega) (by omega) hMem

/-! ### Every place -/

theorem FieldClass.attrs_named (cls : FieldClass) : ∀ attr ∈ cls.attrs, IsAttrName attr := by
  have hAll : cls.attrs.all (fun attr => !attr.isEmpty && (attr.all validNameChar &&
      decide (attr.length < maxNameLength))) = true := by
    cases cls with
    | param type | read type | write type => cases type <;> decide
    | extOut bits => cases bits <;> decide
    | time | bitOut | posOut | bitMux | posMux | table => decide
  intro attr hMem
  have hAttr := List.all_eq_true.mp hAll attr hMem
  simp only [Bool.and_eq_true, decide_eq_true_eq, Bool.not_eq_true'] at hAttr
  obtain ⟨hFilled, hChars, hShort⟩ := hAttr
  exact ⟨List.isEmpty_eq_false_iff.mp hFilled, List.all_eq_true.mp hChars, hShort⟩

theorem attrText_length (place : Place database) :
    (attrText (place.attr.map Subtype.val)).length ≤ maxNameLength := by
  cases place.attr with
  | none => exact Nat.zero_le _
  | some attr => exact (FieldClass.attrs_named _ attr.val attr.property).short

/-- Any name that is declared has room in a report, so that no assertion of `format_field_name`
fails there. -/
theorem formatFieldName_length (place : Place database) (suffix : Char) :
    (formatFieldName place suffix).length < maxResultLength := by
  have hBlock : place.blockOf.name.length < 32 := place.blockOf.named.named.short
  have hField : place.fieldOf.name.length < 32 := place.fieldOf.named.short
  have hAttr : (attrText (place.attr.map Subtype.val)).length ≤ 32 := attrText_length place
  have hNumber : (numberText place.blockOf.count place.number).length ≤ 11 := by
    unfold numberText
    split_ifs
    · exact Nat.zero_le _
    · exact Fields.formatInt_length (Nat.mod_lt _ (Nat.two_pow_pos 32))
  have hRoom : maxResultLength = 256 := rfl
  simp only [formatFieldName, List.length_append, List.length_cons, List.length_nil, hRoom]
  omega

/-- The command with the name of a place finds what the report named. -/
def Place.context (place : Place database) : EntityContext database where
  block := place.block
  number := place.number
  numberPresent := decide (place.blockOf.count ≠ 1)
  field := some place.field
  attr := place.attr.map Subtype.val
  starPresent := false

/-- The number is written as it is read, and fits the buffer for a name together with the block. -/
def Place.Addressable (place : Place database) : Prop :=
  place.blockOf.count = 1 ∨ place.number.val + 1 < 2 ^ 31 ∧
    place.blockOf.name.length + (formatUint (place.number + 1)).length < maxNameLength

section Places

variable {width : Nat} (place : Place database)

theorem lookupBlock_name : lookupBlock database place.blockOf.name = .ok place.block := by
  rw [lookupBlock, find_name (injective_of_nodup_map database.distinct) place.block]

theorem lookupField_name : lookupField place.blockOf place.fieldOf.name = .ok place.field := by
  rw [lookupField, find_name (injective_of_nodup_map place.blockOf.distinct) place.field]

theorem numberText_of_small (hSome : place.blockOf.count ≠ 1)
    (hSmall : place.number.val + 1 < 2 ^ 31) :
    numberText place.blockOf.count place.number = formatUint (place.number + 1) := by
  rw [numberText, if_neg hSome, Nat.mod_eq_of_lt (by omega), formatInt, if_pos hSmall]

/-- From half the range on a number is written with a minus sign. -/
theorem numberText_of_large (hSome : place.blockOf.count ≠ 1)
    (hLarge : 2 ^ 31 ≤ place.number.val + 1) :
    ∃ tail, numberText place.blockOf.count place.number = '-' :: tail := by
  have hCount := place.blockOf.count_lt
  have hNumber : place.number.val < place.blockOf.count := place.number.isLt
  rw [numberText, if_neg hSome, Nat.mod_eq_of_lt (by omega), formatInt,
    if_neg (Nat.not_lt.mpr hLarge)]
  exact ⟨_, rfl⟩

theorem parseNumber_numberText (wide : 32 ≤ width) (hAddressable : place.Addressable)
    (rest : Text) :
    parseNumber width place.blockOf.count
        (numberText place.blockOf.count place.number ++ '.' :: rest) =
      .ok ((place.number, decide (place.blockOf.count ≠ 1)), '.' :: rest) := by
  have hBound : place.number.val < place.blockOf.count := place.number.isLt
  by_cases hOne : place.blockOf.count = 1
  · have hNumber : place.number.val = 0 := by omega
    rw [numberText, if_pos hOne, hNumber, decide_eq_false (not_not.mpr hOne)]
    rfl
  · obtain ⟨hSmall, -⟩ := hAddressable.resolve_left hOne
    have hFirst : (formatUint (place.number.val + 1) ++ '.' :: rest).head?.any Char.isDigit =
        true := by
      obtain ⟨tail, digit, hHead, -, -⟩ := formatUint_head (Nat.succ_ne_zero place.number.val)
      have hAll := isDigit_formatUint (place.number.val + 1)
      rw [hHead] at hAll ⊢
      exact hAll _ List.mem_cons_self
    have hParse := parseUint_append wide (Nat.succ_ne_zero place.number.val)
      (show place.number.val + 1 < 2 ^ 32 by omega)
      (show ∀ ch ∈ ('.' :: rest).head?, isDigitOf 10 ch = false by simp; decide)
    rw [numberText_of_small place hOne hSmall, parseNumber, if_pos hFirst, hParse,
      decide_eq_true hOne]
    exact if_pos ⟨Nat.succ_pos _, hBound⟩

theorem checkBlockNumber_of_written (numberWanted : Bool) (count : Nat) :
    checkBlockNumber numberWanted count (decide (count ≠ 1)) = .ok () := by
  rw [checkBlockNumber]
  by_cases hOne : count = 1
  · rw [if_neg fun hMissing => hMissing.2 (Or.inr hOne)]
  · rw [if_neg fun hMissing => hMissing.2 (Or.inl (decide_eq_true hOne))]

/-- The context of a place before its field is read. -/
def Place.blockContext (place : Place database) : EntityContext database :=
  ⟨place.block, place.number, decide (place.blockOf.count ≠ 1), none, none, false⟩

theorem lookupAttr_of_mem {field : Field} {attr : Text} (hAttr : attr ∈ field.cls.attrs) :
    lookupAttr field attr = .ok attr := by
  cases hFound : field.cls.attrs.find? fun other => other == attr with
  | none => exact absurd (beq_self_eq_true attr) (List.find?_eq_none.mp hFound attr hAttr)
  | some other =>
      have hSame : other = attr := by simpa using List.find?_some hFound
      rw [lookupAttr, hFound, hSame]

theorem parseFieldPart_attrText (numberWanted starWanted : Bool) :
    parseFieldPart numberWanted starWanted place.blockContext place.field
      (attrText (place.attr.map Subtype.val)) = .ok (place.context, []) := by
  have hNumber := checkBlockNumber_of_written numberWanted place.blockOf.count
  cases hAttr : place.attr with
  | none =>
      simp only [Option.map_none, attrText, parseFieldPart, Place.blockContext, readChar,
        Bool.false_eq_true, if_false, hNumber, bind, Except.bind]
      rw [Place.context, hAttr]
      rfl
  | some attr =>
      have hName := FieldClass.attrs_named _ attr.val attr.property
      have hParse : parseName maxNameLength attr.val = .ok (attr.val, []) := by
        have hWhole := parseFilteredName_append hName.filled hName.short hName.chars
          (show ∀ ch ∈ ([] : Text).head?, validNameChar ch = false by simp)
        rw [List.append_nil] at hWhole
        exact hWhole
      have hStar : (readChar '*' attr.val).1 = false := by
        obtain ⟨ch, tail, hText⟩ := List.exists_cons_of_ne_nil hName.filled
        have hChar := hName.chars ch (by rw [hText]; exact List.mem_cons_self)
        rw [hText, readChar, if_neg]
        rintro rfl
        exact absurd hChar (by decide)
      have hDot : readChar '.' ('.' :: attr.val) = (true, attr.val) := rfl
      simp only [Option.map_some, attrText, parseFieldPart, Place.blockContext, hDot, hStar,
        Bool.and_false, Bool.false_eq_true, if_true, if_false, hNumber, hParse, bind, Except.bind,
        lookupAttr_of_mem attr.property]
      rw [Place.context, hAttr]
      rfl

theorem numberText_digits (hAddressable : place.Addressable) :
    (∀ ch ∈ numberText place.blockOf.count place.number, ch.isDigit = true) ∧
      place.blockOf.name.length + (numberText place.blockOf.count place.number).length <
        maxNameLength := by
  by_cases hOne : place.blockOf.count = 1
  · rw [numberText, if_pos hOne]
    exact ⟨by simp, place.blockOf.named.named.short⟩
  · obtain ⟨hSmall, hShort⟩ := hAddressable.resolve_left hOne
    rw [numberText_of_small place hOne hSmall]
    exact ⟨isDigit_formatUint _, hShort⟩

theorem parseAndLookupBlock_name (wide : 32 ≤ width) (hAddressable : place.Addressable)
    (rest : Text) :
    parseAndLookupBlock width database
        (place.blockOf.name ++ (numberText place.blockOf.count place.number ++ '.' :: rest)) =
      .ok (place.blockContext, '.' :: rest) := by
  obtain ⟨hDigits, hShort⟩ := numberText_digits place hAddressable
  have hBlock := parseBlockName_append place.blockOf.named hDigits hShort
    (show ∀ ch ∈ ('.' :: rest).head?, validAlphanumChar ch = false by simp; decide)
  have hNumber := parseNumber_numberText place wide hAddressable rest
  simp only [parseAndLookupBlock, hBlock, lookupBlock_name, bind, Except.bind, hNumber]
  rfl

/-- A name that is written for a place that can be addressed stands for it. -/
theorem parseBlockEntity_name (wide : 32 ≤ width) (hAddressable : place.Addressable)
    (numberWanted starWanted : Bool) :
    parseBlockEntity numberWanted starWanted width database
        (place.blockOf.name ++ (numberText place.blockOf.count place.number ++
          '.' :: (place.fieldOf.name ++ attrText (place.attr.map Subtype.val)))) =
      .ok (place.context, []) := by
  have hBlock := parseAndLookupBlock_name place wide hAddressable
    (place.fieldOf.name ++ attrText (place.attr.map Subtype.val))
  have hRest : ∀ ch ∈ (attrText (place.attr.map Subtype.val)).head?,
      validAlphanumChar ch = false := by
    cases place.attr with
    | none => simp [attrText]
    | some attr => simp only [Option.map_some, attrText]; simp; decide
  have hField := parseAlphanumName_append place.fieldOf.named.filled place.fieldOf.named.head
    place.fieldOf.named.chars place.fieldOf.named.short hRest
  have hDot : ∀ rest, readChar '.' ('.' :: rest) = (true, rest) := fun rest => rfl
  have hStar := readChar_star_name place.fieldOf.named (attrText (place.attr.map Subtype.val))
  have hFound : lookupField (database.blocks.get place.blockContext.block) place.fieldOf.name =
      .ok place.field := lookupField_name place
  have hPart := parseFieldPart_attrText place numberWanted starWanted
  simp only [parseBlockEntity, hBlock, bind, Except.bind, hDot, hStar, Bool.and_false,
    Bool.false_eq_true, if_true, if_false, hField]
  rw [hFound]
  exact hPart

/-- The command for another place fails, or leaves a part of its name. -/
theorem parseBlockEntity_other (hOther : ¬ place.Addressable) (numberWanted starWanted : Bool)
    (rest : Text) (context : EntityContext database) :
    parseBlockEntity numberWanted starWanted width database
        (place.blockOf.name ++ (numberText place.blockOf.count place.number ++ '.' :: rest)) ≠
      .ok (context, []) := by
  obtain ⟨hSome, hNot⟩ := not_or.mp hOther
  by_cases hSmall : place.number.val + 1 < 2 ^ 31
  · -- the buffer for the name is too small
    have hLong := Nat.not_lt.mp fun hShort => hNot ⟨hSmall, hShort⟩
    have hBlock := @parseBlockName_too_long _ _ ('.' :: rest) place.blockOf.named
      (isDigit_formatUint _) hLong
    rw [numberText_of_small place hSome hSmall]
    simp only [parseBlockEntity, parseAndLookupBlock, hBlock, bind, Except.bind]
    exact nofun
  · -- the minus sign ends the name of the block, and is left on the line
    obtain ⟨tail, hMinus⟩ := numberText_of_large place hSome (Nat.not_lt.mp hSmall)
    have hBlock := @parseBlockName_append _ [] ('-' :: (tail ++ '.' :: rest)) place.blockOf.named
      (by simp) place.blockOf.named.named.short (by simp; decide)
    have hNumber : parseNumber width place.blockOf.count ('-' :: (tail ++ '.' :: rest)) =
        .ok ((0, false), '-' :: (tail ++ '.' :: rest)) := rfl
    have hDot : readChar '.' ('-' :: (tail ++ '.' :: rest)) =
        (false, '-' :: (tail ++ '.' :: rest)) := rfl
    rw [List.nil_append] at hBlock
    rw [hMinus, List.cons_append]
    simp only [parseBlockEntity, parseAndLookupBlock, hBlock, lookupBlock_name, hNumber, hDot, bind,
      Except.bind, Bool.false_eq_true, if_false]
    intro hSame
    exact List.cons_ne_nil _ _ (Prod.mk.inj (Except.ok.inj hSame)).2

end Places

/-! ### Two instances -/

theorem isBlockName_of_check {name : Text} (hName : (!name.isEmpty && (name.all validNameChar &&
    decide (name.length < maxNameLength))) = true) : IsBlockName name := by
  simp only [Bool.and_eq_true, decide_eq_true_eq, Bool.not_eq_true'] at hName
  obtain ⟨hFilled, hAll, hShort⟩ := hName
  have hChars := List.all_eq_true.mp hAll
  refine ⟨⟨List.isEmpty_eq_false_iff.mp hFilled, fun ch hHead => ?_, fun ch hMem => ?_, hShort⟩,
    fun ch hLast => ?_⟩
  · exact hChars ch (List.mem_of_mem_head? hHead)
  · have hValid := hChars ch hMem
    simp only [validNameChar, Bool.or_eq_true] at hValid
    simp only [validAlphanumChar, Bool.or_eq_true]
    exact Or.inl hValid
  · exact validNameChar_not_digit (hChars ch (List.mem_of_getLast? hLast))

/-- A block of two instances with one field. -/
def twoInstances (name : Text) (hName : IsBlockName name) : Database where
  blocks := [⟨name, 2, [⟨['X'], .bitMux, (isBlockName_of_check rfl).named⟩], hName, by decide,
    List.nodup_singleton _⟩]
  distinct := List.nodup_singleton _

def firstInstance (name : Text) (hName : IsBlockName name) : Place (twoInstances name hName) :=
  ⟨⟨0, Nat.one_pos⟩, ⟨0, Nat.one_pos⟩, ⟨0, Nat.two_pos⟩, none⟩

/-! ### The names of a report -/

/-- What a report writes for a place stands for the place exactly when it can be addressed. -/
theorem field_name_resolves_iff {width : Nat} (wide : 32 ≤ width) (place : Place database)
    (suffix : Char) (numberWanted starWanted : Bool) :
    parseBlockEntity numberWanted starWanted width database
        (formatFieldName place suffix).dropLast = .ok (place.context, []) ↔
      place.Addressable := by
  rw [formatFieldName, List.dropLast_concat]
  constructor
  · intro hFound
    by_contra hOther
    exact parseBlockEntity_other place hOther numberWanted starWanted _ _ hFound
  · intro hAddressable
    exact parseBlockEntity_name place wide hAddressable numberWanted starWanted

theorem field_name_resolves_first :
    parseBlockEntity true true 64 (twoInstances "SEQ".toList (isBlockName_of_check rfl))
        (formatFieldName (firstInstance "SEQ".toList (isBlockName_of_check rfl)) '=').dropLast =
      .ok ((firstInstance "SEQ".toList (isBlockName_of_check rfl)).context, []) :=
  (field_name_resolves_iff (by decide) _ '=' true true).mpr (Or.inr ⟨by decide, by decide⟩)

/-- A name of 31 characters is accepted for a block of two instances, but with the number of an
instance it is too long for a command. -/
theorem long_name_not_found :
    loadConfig 64 (fun _ _ line => .ok (.bitMux, line))
        [.header "ABCDEFGHIJKLMNOPQRSTUVWXYZABCDE[2]".toList, .field "X bit_mux".toList] =
      .ok (twoInstances "ABCDEFGHIJKLMNOPQRSTUVWXYZABCDE".toList (isBlockName_of_check rfl)) ∧
    formatFieldName (firstInstance "ABCDEFGHIJKLMNOPQRSTUVWXYZABCDE".toList
      (isBlockName_of_check rfl)) '=' = "ABCDEFGHIJKLMNOPQRSTUVWXYZABCDE1.X=".toList ∧
    parseBlockEntity true true 64 (twoInstances "ABCDEFGHIJKLMNOPQRSTUVWXYZABCDE".toList
      (isBlockName_of_check rfl)) "ABCDEFGHIJKLMNOPQRSTUVWXYZABCDE1.X".toList =
      .error "Name too long" :=
  ⟨rfl, rfl, rfl⟩

end Server.Entity
