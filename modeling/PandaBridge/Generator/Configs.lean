import PandaBridge.Server.Parse

/-! The block and field configurations from which an application is generated: the counters
that hand out addresses, the registers and bus entries of each kind of field, the register
numbers of extensions, and the line of the registers file. -/
namespace Generator

open Server (Text formatUint)

/-! ## Counters -/

/-- `RegisterCounter`: how many addresses of each sort are handed out. -/
structure RegisterCounter where
  blockCount : Nat
  bitCount : Nat
  posCount : Nat
  extCount : Nat
  deriving DecidableEq

/-- `MAX_BLOCKS`, `MAX_BIT`, `MAX_POS`, `MAX_EXT` and `MAX_FIELDS`. -/
def maxBlocks : Nat := 32

def maxBit : Nat := 128

def maxPos : Nat := 32

def maxExt : Nat := 32

def maxFields : Nat := 64

/-- `allocate`: the count itself, as long as it is below its limit. -/
def allocate (count limit : Nat) (name : String) : Except String Nat :=
  if count < limit then .ok count else .error ("Overflowed " ++ name)

theorem allocate_ok {count limit result : Nat} {name : String}
    (h : allocate count limit name = .ok result) : result = count ∧ count < limit := by
  unfold allocate at h
  split at h
  · next hLess => exact ⟨(Except.ok.inj h).symm, hLess⟩
  · exact absurd h (by simp)

/-- The buses that outputs are on. -/
inductive Bus
  | bit
  | pos
  | ext
  deriving DecidableEq

namespace RegisterCounter

def newBlock (counter : RegisterCounter) : Except String (Nat × RegisterCounter) := do
  let address ← allocate counter.blockCount maxBlocks "block addresses"
  .ok (address, { counter with blockCount := counter.blockCount + 1 })

/-- The entries of a bus that are handed out, its limit and its name in the message. -/
def count (counter : RegisterCounter) : Bus → Nat
  | .bit => counter.bitCount
  | .pos => counter.posCount
  | .ext => counter.extCount

def limit : Bus → Nat
  | .bit => maxBit
  | .pos => maxPos
  | .ext => maxExt

def entriesName : Bus → String
  | .bit => "bit bus entries"
  | .pos => "pos bus entries"
  | .ext => "ext bus entries"

def advance (counter : RegisterCounter) : Bus → RegisterCounter
  | .bit => { counter with bitCount := counter.bitCount + 1 }
  | .pos => { counter with posCount := counter.posCount + 1 }
  | .ext => { counter with extCount := counter.extCount + 1 }

/-- `new_bit`, `new_pos` and `new_ext`. -/
def newEntry (bus : Bus) (counter : RegisterCounter) : Except String (Nat × RegisterCounter) := do
  let index ← allocate (counter.count bus) (limit bus) (entriesName bus)
  .ok (index, counter.advance bus)

end RegisterCounter

/-- `FieldCounter`: the counters of the application and the registers of one block. -/
structure FieldCounter where
  counters : RegisterCounter
  fieldCount : Nat

namespace FieldCounter

def newField (counter : FieldCounter) : Except String (Nat × FieldCounter) := do
  let number ← allocate counter.fieldCount maxFields "number of fields"
  .ok (number, { counter with fieldCount := counter.fieldCount + 1 })

def newEntry (bus : Bus) (counter : FieldCounter) : Except String (Nat × FieldCounter) := do
  let (index, counters) ← counter.counters.newEntry bus
  .ok (index, { counter with counters := counters })

end FieldCounter

/-! ## Fields -/

/-- The word that the type of a parameter starts with. -/
inductive Access
  | param
  | read
  | write
  deriving DecidableEq

/-- The subclasses of `FieldConfig` that differ in their registers; a short table has its
length in words. -/
inductive FieldKind
  | bitOut
  | posOut
  | extOut
  | extOutTime
  | table
  | tableShort (length : Nat)
  | param (access : Access)
  | calcExtension
  | bitMux
  | posMux
  | time
  deriving DecidableEq

/-- `RegisterConfig`; the number is -1 where the register is no hardware register, and the
texts are empty where there is none. -/
structure RegisterConfig where
  name : Text
  number : Int
  lead : Text
  extension : Text
  writeExtension : Text
  deriving DecidableEq

structure BusEntryConfig where
  name : Text
  bus : Bus
  index : Nat
  deriving DecidableEq

/-- A section of the ini file of a block. -/
structure FieldIni where
  name : Text
  kind : FieldKind
  extension : Text
  extensionWrite : Text
  extensionRead : Text
  deriving DecidableEq

/-- Which of the lists of a field a register of an extension is for. -/
inductive ExtensionType
  | read
  | write
  deriving DecidableEq

structure FieldConfig extends FieldIni where
  registers : List RegisterConfig
  busEntries : List BusEntryConfig
  extensionNums : List (Int × ExtensionType)
  deriving DecidableEq

/-- `BusEntryConfig(name, bus, counters.new_...())` for each name. -/
def takeEntries (bus : Bus) :
    List Text → FieldCounter → Except String (List BusEntryConfig × FieldCounter)
  | [], counter => .ok ([], counter)
  | name :: names, counter => do
      let (index, counter) ← counter.newEntry bus
      let (entries, counter) ← takeEntries bus names counter
      .ok ({ name := name, bus := bus, index := index } :: entries, counter)

/-- What stands in the list of registers of a field: one that takes a number, or one that is
only text. -/
inductive RegisterShape
  | numbered (name : Text)
  | text (name lead extension writeExtension : Text)

/-- `RegisterConfig(name, counters.new_field())` or without a number, for each shape. The write
extension of a parameter without an extension is left out with its number: no line shows it. -/
def takeRegisters :
    List RegisterShape → FieldCounter → Except String (List RegisterConfig × FieldCounter)
  | [], counter => .ok ([], counter)
  | .numbered name :: shapes, counter => do
      let (number, counter) ← counter.newField
      let (registers, counter) ← takeRegisters shapes counter
      .ok (⟨name, number, [], [], []⟩ :: registers, counter)
  | .text name lead extension writeExtension :: shapes, counter => do
      let (registers, counter) ← takeRegisters shapes counter
      .ok (⟨name, -1, lead, extension, writeExtension⟩ :: registers, counter)

namespace FieldIni

/-- The registers of a field. -/
def shapes (field : FieldIni) : List RegisterShape :=
  match field.kind with
  | .table => [.text field.name "long 2^10 8".toList [] [],
      .numbered (field.name ++ "_ADDRESS".toList), .numbered (field.name ++ "_LENGTH".toList)]
  | .tableShort length => [.text field.name ("short ".toList ++ formatUint length) [] [],
      .numbered (field.name ++ "_START".toList), .numbered (field.name ++ "_DATA".toList),
      .numbered (field.name ++ "_LENGTH".toList)]
  | .param _ => paramShapes
  | .calcExtension => paramShapes
  | .bitMux => [.numbered field.name, .numbered (field.name ++ "_DLY".toList)]
  | .posMux => [.numbered field.name]
  | .time => [.numbered (field.name ++ "_L".toList), .numbered (field.name ++ "_H".toList)]
  | .bitOut => []
  | .posOut => []
  | .extOut => []
  | .extOutTime => []
where
  paramShapes : List RegisterShape :=
    if field.extension = [] then [.numbered field.name]
    else [.text field.name [] field.extension field.extensionWrite]

/-- The bus of a field and the names of its entries, for so many instances of its block. -/
def entries (field : FieldIni) (number : Int) : Option (Bus × List Text) :=
  match field.kind with
  | .bitOut => some (.bit, List.replicate number.toNat field.name)
  | .posOut => some (.pos, List.replicate number.toNat field.name)
  | .extOut => some (.ext, List.replicate number.toNat field.name)
  | .extOutTime => some (.ext, (List.replicate number.toNat
      [field.name ++ "_L".toList, field.name ++ "_H".toList]).flatten)
  | _ => none

/-- `register_addresses` of each kind of field. -/
def registerAddresses (field : FieldIni) (number : Int) (counter : FieldCounter) :
    Except String (FieldConfig × FieldCounter) :=
  match field.entries number with
  | some (bus, names) => do
      let (entries, counter) ← takeEntries bus names counter
      .ok ({ field with registers := [], busEntries := entries, extensionNums := [] }, counter)
  | none => do
      let (registers, counter) ← takeRegisters field.shapes counter
      .ok ({ field with registers := registers, busEntries := [], extensionNums := [] }, counter)

end FieldIni

/-! ## Blocks -/

/-- A section of the application with the ini file of its block. -/
structure BlockIni where
  name : Text
  number : Int
  extension : Text
  fields : List FieldIni
  blockSuffixes : List Text

/-- `BlockConfig`; the address is written with an `S` before it when it is shared. -/
structure BlockConfig where
  name : Text
  number : Int
  extension : Text
  shared : Bool
  blockAddress : Nat
  fields : List FieldConfig

def registerFields (number : Int) :
    List FieldIni → FieldCounter → Except String (List FieldConfig × FieldCounter)
  | [], counter => .ok ([], counter)
  | field :: fields, counter => do
      let (config, counter) ← field.registerAddresses number counter
      let (configs, counter) ← registerFields number fields counter
      .ok (config :: configs, counter)

/-- `register_addresses` of a block. -/
def BlockIni.registerAddresses (block : BlockIni) (counters : RegisterCounter) :
    Except String (BlockConfig × RegisterCounter) := do
  let (address, counters) ← counters.newBlock
  let (fields, counter) ←
    registerFields block.number block.fields { counters := counters, fieldCount := 0 }
  .ok (⟨block.name, block.number, block.extension, false, address, fields⟩, counter.counters)

namespace BlockConfig

/-- The fields of type `extension_...`, each with the number of its first register. -/
def calcExtensions (block : BlockConfig) : List (Text × Int) :=
  (block.fields.filter fun field => field.kind = .calcExtension).filterMap fun field =>
    field.registers.head?.map fun register => (field.name, register.number)

/-- The numbers that a field gets for one extension field: once for every time its name is
in the list of writes and once for every time it is in the list of reads. -/
def extensionNumsFor (field : FieldConfig) (extension : Text × Int) : List (Int × ExtensionType) :=
  ((field.extensionWrite.splitOn ' ').filter fun name => extension.1 = name).map
      (fun _ => (extension.2, .write)) ++
    ((field.extensionRead.splitOn ' ').filter fun name => extension.1 = name).map
      fun _ => (extension.2, .read)

/-- `generate_calc_extensions`. -/
def generateCalcExtensions (block : BlockConfig) : BlockConfig :=
  { block with
    extension :=
      if block.extension = [] ∧ block.calcExtensions ≠ [] then block.name.map Char.toLower
      else block.extension
    fields := block.fields.map fun field => { field with
      extensionNums := field.extensionNums ++
        block.calcExtensions.flatMap (extensionNumsFor field) } }

end BlockConfig

/-! ## The line of a field -/

namespace FieldConfig

/-- The registers of an extension that are for one of the lists. -/
def numsOf (field : FieldConfig) (kind : ExtensionType) : List Int :=
  field.extensionNums.filterMap fun num => if num.2 = kind then some num.1 else none

/-- `str` of a number. -/
def str (number : Int) : Text :=
  if number < 0 then '-' :: formatUint number.natAbs else formatUint number.natAbs

/-- `' '.join(str(num))`, of which `extend` then takes every character for itself. -/
def spacedDigits (number : Int) : List Text := ((str number).intersperse ' ').map fun ch => [ch]

def makeRegName (field : FieldConfig) (register : RegisterConfig) : Text :=
  let lead := if register.lead = [] then [] else [register.lead]
  let writes :=
    if register.writeExtension = [] then []
    else ['W'] :: (field.numsOf .write).flatMap spacedDigits
  let numbers :=
    if register.extension ≠ [] then
      (field.numsOf .read).flatMap spacedDigits ++ writes ++ [['X'], register.extension]
    else if 0 ≤ register.number then [str register.number]
    else []
  [' '].intercalate (lead ++ numbers)

/-- `address_line`. -/
def addressLine (field : FieldConfig) : Except String Text :=
  if field.registers = [] then
    .ok ([' '].intercalate (field.busEntries.map fun entry => str entry.index))
  else if field.busEntries = [] then
    .ok ([' '].intercalate (field.registers.map field.makeRegName))
  else .error "both registers and bus entries"

end FieldConfig

end Generator
