import Mathlib.Data.List.Nodup
import Mathlib.Logic.Function.Basic
import Mathlib.Tactic.SplitIfs
import PandaBridge.Server.Parse

/-! The register addresses that the configuration files hand out: block bases, the registers of
fields, and the word of the register area where an instance finds its register. -/
namespace Server

def blockTypeCount : Nat := 2 ^ 5
def blockInstanceCount : Nat := 2 ^ 4
def blockRegisterCount : Nat := 2 ^ 6

/-- `make_offset`: register, instance and block base, each masked to its bits. -/
def makeOffset (blockBase blockNumber reg : Nat) : Nat :=
  reg % blockRegisterCount + blockRegisterCount * (blockNumber % blockInstanceCount) +
    blockRegisterCount * blockInstanceCount * (blockBase % blockTypeCount)

/-- The field classes, as their registers differ. -/
inductive RegisterClass
  | param
  | read
  | write
  | time
  | bitOut
  | posOut
  | extOut
  | bitMux
  | posMux
  | table
  deriving DecidableEq

/-- `base` of a block: `UNASSIGNED_REGISTER`, `INVALID_REGISTER` or a base. -/
inductive BlockBase
  | unassigned
  | invalid
  | assigned (base : Nat)
  deriving DecidableEq

/-- The hardware registers of a field: those only read, those written, and the write registers
of an extension. -/
structure FieldRegisters where
  reads : List Nat
  writes : List Nat
  extension : List Nat
  deriving DecidableEq

structure MapField where
  name : String
  fieldClass : RegisterClass
  registers : Option FieldRegisters
  deriving DecidableEq

structure MapBlock where
  name : String
  count : Nat
  base : BlockBase
  extension : Bool
  fields : List MapField
  deriving DecidableEq

/-- An entry of `block_types_used`. -/
structure BlockType where
  used : Bool
  shared : Bool
  regUsed : Nat → Bool

structure RegisterMap where
  types : Nat → BlockType
  blocks : List MapBlock

/-- What the loading of the files meets outside of them: the width of `unsigned long`, the
extension server, the opening of tables and the bus indices of output fields. -/
structure LoadContext where
  width : Nat
  extensionBlock : Nat → Parser Unit
  extensionField : Bool → Parser Unit
  openTable : MapBlock → List Nat → Except String Unit
  busIndices : MapBlock → RegisterClass → Parser Unit

namespace RegisterMap

variable (context : LoadContext)

/-- `create_block`. -/
def createBlock (map : RegisterMap) (name : String) (count : Nat) : Except String RegisterMap :=
  if map.blocks.any fun block => block.name = name then
    .error ("Block " ++ name ++ " already exists")
  else
    .ok { map with blocks := map.blocks ++
      [{ name := name, count := count, base := .unassigned, extension := false, fields := [] }] }

/-- `create_field`, for the part that concerns registers. -/
def createField (block : MapBlock) (name : String) (fieldClass : RegisterClass) :
    Except String MapBlock :=
  if block.fields.any fun field => field.name = name then
    .error ("Field " ++ block.name ++ "." ++ name ++ " already exists")
  else
    .ok { block with
      fields := block.fields ++ [{ name := name, fieldClass := fieldClass, registers := none }] }

/-- The base of `parse_block_set_register`, with what it marks as used. -/
def parseBase (types : Nat → BlockType) (line : Text) :
    Except String (BlockBase × (Nat → BlockType) × Text) :=
  match readChar 'X' line with
  | (true, line) => .ok (.invalid, types, line)
  | (false, line) => do
      let (shared, line) := readChar 'S' line
      let (base, line) ← parseUint context.width line
      if ¬ base < blockTypeCount then .error "Block base too large"
      else if (types base).used then
        if shared && (types base).shared then .ok (.assigned base, types, line)
        else .error ("Block base " ++ toString base ++ " already assigned and not shared")
      else
        .ok (.assigned base,
          Function.update types base { types base with used := true, shared := shared }, line)

/-- The optional extension of a block. -/
def parseBlockExtension (count : Nat) (line : Text) : Except String (Bool × Text) :=
  match readChar ' ' line with
  | (true, line) => (context.extensionBlock count line).map fun result => (true, result.2)
  | (false, line) => .ok (false, line)

/-- `parse_block_set_register`. -/
def parseBlockSetRegister (types : Nat → BlockType) (block : MapBlock) (line : Text) :
    Except String (MapBlock × (Nat → BlockType)) :=
  if block.base ≠ .unassigned then .error "Register already assigned"
  else do
    let (base, types, line) ← parseBase context types line
    let (extension, line) ← parseBlockExtension context block.count line
    parseEos line
    .ok ({ block with base := base, extension := extension }, types)

/-- `check_parse_register`. -/
def checkParseRegister (base : BlockBase) (used : Nat → Bool) (line : Text) :
    Except String (Nat × (Nat → Bool) × Text) :=
  match base with
  | .assigned _ => do
      let (reg, line) ← parseUint context.width line
      if ¬ reg < blockRegisterCount then .error "Register value too large"
      else if used reg then .error ("Register " ++ toString reg ++ " already in use")
      else .ok (reg, Function.update used reg true, line)
  | _ => .error "Cannot assign hardware register to this block"

/-- What stands in the register line of a field. -/
inductive RegisterItem
  | whitespace
  | char (ch : Char)
  | number
  | register

/-- The items of a register line in their order, with the registers found. -/
def parseItems (base : BlockBase) :
    List RegisterItem → (Nat → Bool) → Text → Except String (List Nat × (Nat → Bool) × Text)
  | [], used, line => .ok ([], used, line)
  | .whitespace :: rest, used, line => do
      let (_, line) ← parseWhitespace line
      parseItems base rest used line
  | .char ch :: rest, used, line => do
      let (_, line) ← parseChar ch line
      parseItems base rest used line
  | .number :: rest, used, line => do
      let (_, line) ← parseUint context.width line
      parseItems base rest used line
  | .register :: rest, used, line => do
      let (reg, used, line) ← checkParseRegister context base used line
      let (regs, used, line) ← parseItems base rest used line
      .ok (reg :: regs, used, line)

/-- `count_uint_strings`. -/
def countUintStrings (line : Text) : Nat :=
  match h : skipWhitespace line with
  | [] => 0
  | ch :: rest =>
      if ch.isDigit then
        have : (rest.dropWhile Char.isDigit).length < line.length := by
          have hRest : (rest.dropWhile Char.isDigit).length ≤ rest.length :=
            (List.dropWhile_sublist _).length_le
          have hLine : (skipWhitespace line).length ≤ line.length :=
            (List.dropWhile_sublist _).length_le
          rw [h, List.length_cons] at hLine
          omega
        countUintStrings (rest.dropWhile Char.isDigit) + 1
      else 0
termination_by line.length

/-- `parse_register_array`. -/
def parseRegisterArray : Parser (List Nat) := fun line =>
  if countUintStrings line = 0 then .ok ([], line)
  else do
    let (regs, line) ← parseUintArray context.width (countUintStrings line) line
    if regs.any fun reg => ¬ reg < blockRegisterCount then .error "Register value too large"
    else .ok (regs, skipWhitespace line)

/-- The optional write registers of an extension. -/
def parseExtensionWrites (writeNotRead : Bool) : Parser (List Nat) := fun line =>
  match readChar 'W' line with
  | (true, line) =>
      if writeNotRead then parseRegisterArray context line
      else .error "Cannot specify write registers for read type"
  | (false, line) => .ok ([], line)

/-- `parse_extension_register`, with the write registers that it finds. -/
def parseExtensionRegister (block : MapBlock) (writeNotRead : Bool) : Parser (List Nat) :=
  fun line =>
    if ¬ block.extension then .error "No extensions defined for this block"
    else do
      let (reads, line) ← parseRegisterArray context line
      let (writes, line) ← parseExtensionWrites context writeNotRead line
      let (_, line) ← parseChar 'X' line
      let (_, line) ← parseWhitespace line
      let (_, line) ← context.extensionField writeNotRead line
      if block.base = .invalid ∧ ¬ (reads = [] ∧ writes = []) then
        .error "Cannot use hardware registers in this block"
      else .ok (writes, line)

/-- `base_parse_register`. -/
def baseParseRegister (block : MapBlock) (writeNotRead : Bool) (used : Nat → Bool) (line : Text) :
    Except String (FieldRegisters × (Nat → Bool) × Text) :=
  if 'X' ∈ line then do
    let (writes, line) ← parseExtensionRegister context block writeNotRead line
    .ok ({ reads := [], writes := [], extension := writes }, used, line)
  else do
    let (regs, used, line) ← parseItems context block.base [.register] used line
    .ok (if writeNotRead then { reads := [], writes := regs, extension := [] }
      else { reads := regs, writes := [], extension := [] }, used, line)

/-- A class whose registers are all written. -/
def parseWritten (block : MapBlock) (items : List RegisterItem) (used : Nat → Bool) (line : Text) :
    Except String (FieldRegisters × (Nat → Bool) × Text) := do
  let (regs, used, line) ← parseItems context block.base items used line
  .ok ({ reads := [], writes := regs, extension := [] }, used, line)

def shortTableItems : List RegisterItem :=
  [.number, .whitespace, .register, .whitespace, .register, .whitespace, .register]

def longTableItems : List RegisterItem :=
  [.char '2', .char '^', .number, .whitespace, .number, .whitespace, .register, .whitespace,
    .register]

/-- `table_parse_register`. -/
def tableParseRegister (block : MapBlock) (used : Nat → Bool) (line : Text) :
    Except String (FieldRegisters × (Nat → Bool) × Text) :=
  match readString "short".toList line with
  | (true, line) => do
      let (_, line) ← parseWhitespace line
      let found ← parseWritten context block shortTableItems used line
      context.openTable block found.1.writes
      .ok found
  | (false, line) =>
      match readString "long".toList line with
      | (true, line) => do
          let (_, line) ← parseWhitespace line
          let found ← parseWritten context block longTableItems used line
          context.openTable block found.1.writes
          .ok found
      | (false, _) => .error "Table type not recognised"

/-- `parse_register` of each class. -/
def parseRegister (block : MapBlock) (fieldClass : RegisterClass) (used : Nat → Bool)
    (line : Text) : Except String (FieldRegisters × (Nat → Bool) × Text) :=
  match fieldClass with
  | .param => baseParseRegister context block true used line
  | .write => baseParseRegister context block true used line
  | .read => baseParseRegister context block false used line
  | .time => parseWritten context block [.register, .whitespace, .register] used line
  | .bitMux => parseWritten context block [.register, .whitespace, .register] used line
  | .posMux => parseWritten context block [.register] used line
  | .table => tableParseRegister context block used line
  | .bitOut => busOnly
  | .posOut => busOnly
  | .extOut => busOnly
where
  busOnly := do
    let (_, line) ← context.busIndices block fieldClass line
    .ok ({ reads := [], writes := [], extension := [] }, used, line)

/-- The registers that `check_parse_register` has marked for the base of a block. -/
def usedOf (types : Nat → BlockType) : BlockBase → Nat → Bool
  | .assigned base => (types base).regUsed
  | _ => fun _ => false

def setUsed (types : Nat → BlockType) (base : BlockBase) (used : Nat → Bool) : Nat → BlockType :=
  match base with
  | .assigned base => Function.update types base { types base with regUsed := used }
  | _ => types

/-- `field_parse_registers`. -/
def fieldParseRegisters (types : Nat → BlockType) (block : MapBlock) (field : MapField)
    (line : Text) : Except String (MapField × (Nat → BlockType)) :=
  if field.registers.isSome then .error "Register already assigned"
  else do
    let (registers, used, line) ←
      parseRegister context block field.fieldClass (usedOf types block.base) line
    parseEos line
    .ok ({ field with registers := some registers }, setUsed types block.base used)

end RegisterMap

/-- The lines of the two files, with the names already looked up. -/
inductive MapLine
  | createBlock (name : String) (count : Nat)
  | createField (block : Nat) (name : String) (fieldClass : RegisterClass)
  | setRegister (block : Nat) (line : Text)
  | fieldRegisters (block field : Nat) (line : Text)

open RegisterMap in
/-- One line of the configuration or of the registers file. -/
def RegisterMap.loadLine (context : LoadContext) (map : RegisterMap) :
    MapLine → Except String RegisterMap
  | .createBlock name count => map.createBlock name count
  | .createField block name fieldClass =>
      match map.blocks[block]? with
      | some found => do
          let next ← createField found name fieldClass
          .ok { map with blocks := map.blocks.set block next }
      | none => .error "No such block"
  | .setRegister block line =>
      match map.blocks[block]? with
      | some found => do
          let (next, types) ← parseBlockSetRegister context map.types found line
          .ok { types := types, blocks := map.blocks.set block next }
      | none => .error "No such block"
  | .fieldRegisters block field line =>
      match map.blocks[block]? with
      | some found =>
          match found.fields[field]? with
          | some entry => do
              let (next, types) ← fieldParseRegisters context map.types found entry line
              let changed := { found with fields := found.fields.set field next }
              .ok { types := types, blocks := map.blocks.set block changed }
          | none => .error "No such field"
      | none => .error "No such block"

/-- The map before the first line. -/
def RegisterMap.empty : RegisterMap where
  types := fun _ => { used := false, shared := false, regUsed := fun _ => false }
  blocks := []

/-- Both files, as long as no line fails. -/
def RegisterMap.load (context : LoadContext) (lines : List MapLine) : Except String RegisterMap :=
  lines.foldlM (RegisterMap.loadLine context) RegisterMap.empty

end Server
