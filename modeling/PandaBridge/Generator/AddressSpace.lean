import PandaBridge.Generator.Configs
import PandaBridge.Server.Capture
import PandaBridge.Server.RegisterOffsets

/-! The address space of a generated application against what server and hardware can address:
block addresses, registers, instances and bus entries, and the codes made of them. -/
namespace Generator

open Server

/-! ## The application -/

/-- `AppGenerator`, for the part that hands out addresses. -/
structure App where
  counters : RegisterCounter
  fpgaBlocks : List BlockConfig
  serverBlocks : List BlockConfig

/-- The two lowest block addresses are left for `*REG` and `*DRV`. -/
def App.start : App where
  counters := { blockCount := 2, bitCount := 0, posCount := 0, extCount := 0 }
  fpgaBlocks := []
  serverBlocks := []

/-- The suffix of a field and the field under its own name. -/
def placeField (suffixes : List Text) (field : FieldConfig) : Except String (Text × FieldConfig) :=
  match field.name.splitOn '.' with
  | [suffix, name] =>
      if suffix ∈ suffixes then .ok (suffix, { field with name := name }) else .error "KeyError"
  | _ => .error "ValueError"

/-- The block that the server sees for one suffix. -/
def suffixBlock (block : BlockConfig) (placed : List (Text × FieldConfig)) (suffix : Text) :
    BlockConfig :=
  { block with
    name := block.name ++ '_' :: suffix
    shared := true
    fields := placed.filterMap fun entry => if entry.1 = suffix then some entry.2 else none }

/-- The names of the fields in the hardware, with the suffix before them. -/
def underscored (block : BlockConfig) : BlockConfig :=
  { block with
    fields := block.fields.map fun field => { field with
      name := field.name.map fun ch => if ch = '.' then '_' else ch } }

def App.implementBlock (app : App) (ini : BlockIni) : Except String App := do
  let (registered, counters) ← ini.registerAddresses app.counters
  let block := registered.generateCalcExtensions
  if ini.blockSuffixes = [] then
    .ok { counters := counters, fpgaBlocks := app.fpgaBlocks ++ [block],
          serverBlocks := app.serverBlocks ++ [block] }
  else do
    let placed ← block.fields.mapM (placeField ini.blockSuffixes)
    .ok { counters := counters, fpgaBlocks := app.fpgaBlocks ++ [underscored block],
          serverBlocks := app.serverBlocks ++ ini.blockSuffixes.map (suffixBlock block placed) }

/-- `implement_blocks` for the blocks of target and application. -/
def implementBlocks (blocks : List BlockIni) : Except String App :=
  blocks.foldlM App.implementBlock App.start

/-! ## What can be addressed -/

/-- `BIT_BUS_COUNT`, `POS_BUS_COUNT` and `EXT_BUS_COUNT` of the server. -/
def busCount : Bus → Nat
  | .bit => 128
  | .pos => 32
  | .ext => 16

/-- `numbered_registers`, by their numbers. -/
def registerNumbers (registers : List RegisterConfig) : List Nat :=
  (registers.filter fun register => register.number ≠ -1).map fun register =>
    register.number.toNat

def entryIndices (bus : Bus) (entries : List BusEntryConfig) : List Nat :=
  (entries.filter fun entry => entry.bus = bus).map (·.index)

namespace BlockConfig

def registers (block : BlockConfig) : List Nat :=
  block.fields.flatMap fun field => registerNumbers field.registers

def indices (bus : Bus) (block : BlockConfig) : List Nat :=
  block.fields.flatMap fun field => entryIndices bus field.busEntries

/-- The words of the register area that belong to a block, one for each register of each
instance. -/
def offsets (block : BlockConfig) : List Nat :=
  (List.range block.number.toNat).flatMap fun number =>
    block.registers.map fun reg => makeOffset block.blockAddress number reg

end BlockConfig

def App.indices (bus : Bus) (app : App) : List Nat :=
  app.fpgaBlocks.flatMap (BlockConfig.indices bus)

/-- The codes with which the entries of both buses are captured, those of a position in each
of its modes. -/
def App.captureCodes (app : App) : List Nat :=
  (app.indices .pos).flatMap (fun index => (List.range 16).map (capturePosBus index)) ++
    (app.indices .ext).map captureExtBus

/-- Server and register map can address the whole application. -/
structure Addressable (app : App) : Prop where
  addresses : (app.fpgaBlocks.map (·.blockAddress)).Nodup
  address_lt : ∀ block ∈ app.fpgaBlocks, block.blockAddress < blockTypeCount
  shared : ∀ block ∈ app.serverBlocks, ∃ parent ∈ app.fpgaBlocks,
    block.blockAddress = parent.blockAddress ∧ block.number = parent.number ∧
      ∀ reg ∈ block.registers, reg ∈ parent.registers
  registers : ∀ block ∈ app.fpgaBlocks, block.registers.Nodup
  register_lt : ∀ block ∈ app.fpgaBlocks, ∀ reg ∈ block.registers, reg < blockRegisterCount
  instance_lt : ∀ block ∈ app.fpgaBlocks, ∀ number : Nat, (number : Int) < block.number →
    number < blockInstanceCount
  indices : ∀ bus, (app.indices bus).Nodup
  index_lt : ∀ bus, ∀ index ∈ app.indices bus, index < busCount bus
  offsets : (app.fpgaBlocks.flatMap BlockConfig.offsets).Nodup
  captureCodes : app.captureCodes.Nodup

/-- The entries of the ext bus that a field takes in a block of so many instances; a timestamp
takes two in each. -/
def FieldIni.extEntries (field : FieldIni) (number : Int) : Nat :=
  match field.kind with
  | .extOut => number.toNat
  | .extOutTime => number.toNat * 2
  | _ => 0

def extEntries (blocks : List BlockIni) : Nat :=
  (blocks.map fun block => (block.fields.map fun field => field.extEntries block.number).sum).sum

/-! ## Intervals of addresses -/

/-- The addresses taken from a counter: those it passed, and it stays in its limit. -/
structure Takes (limit before after : Nat) (taken : List Nat) : Prop where
  le : before ≤ after
  taken : taken = List.range' before (after - before)
  limit : before ≤ limit → after ≤ limit

namespace Takes

variable {limit before middle after : Nat} {taken more : List Nat}

theorem none (limit count : Nat) : Takes limit count count [] := by
  refine ⟨Nat.le_refl count, ?_, id⟩
  rw [Nat.sub_self]
  rfl

theorem one {count limit : Nat} (h : count < limit) : Takes limit count (count + 1) [count] := by
  refine ⟨Nat.le_succ count, ?_, fun _ => h⟩
  rw [Nat.add_sub_cancel_left]
  rfl

theorem append (hFirst : Takes limit before middle taken) (hSecond : Takes limit middle after more) :
    Takes limit before after (taken ++ more) := by
  refine ⟨hFirst.le.trans hSecond.le, ?_, fun h => hSecond.limit (hFirst.limit h)⟩
  have hMiddle : middle = before + (middle - before) := (Nat.add_sub_cancel' hFirst.le).symm
  have hSplit := @List.range'_append_1 before (middle - before) (after - middle)
  rw [← hMiddle] at hSplit
  rw [hFirst.taken, hSecond.taken, hSplit]
  congr 1
  have := hFirst.le
  have := hSecond.le
  omega

theorem nodup (h : Takes limit before after taken) : taken.Nodup := by
  rw [h.taken]
  exact List.nodup_range'

theorem lt (h : Takes limit before after taken) (hBefore : before ≤ limit) {address : Nat}
    (hMem : address ∈ taken) : address < limit := by
  rw [h.taken, List.mem_range'_1] at hMem
  have hAfter := h.limit hBefore
  have hLe := h.le
  omega

end Takes

/-! ## Allocation -/

/-- What one field takes from the counters. -/
structure FieldTakes (before after : FieldCounter) (registers : List RegisterConfig)
    (entries : List BusEntryConfig) : Prop where
  block : after.counters.blockCount = before.counters.blockCount
  registers : Takes maxFields before.fieldCount after.fieldCount (registerNumbers registers)
  entries : ∀ bus, Takes (RegisterCounter.limit bus) (before.counters.count bus)
    (after.counters.count bus) (entryIndices bus entries)

theorem FieldTakes.none (counter : FieldCounter) : FieldTakes counter counter [] [] where
  block := rfl
  registers := Takes.none _ _
  entries _ := Takes.none _ _

theorem takeRegisters_ok {shapes : List RegisterShape} {before after : FieldCounter}
    {registers : List RegisterConfig} (h : takeRegisters shapes before = .ok (registers, after)) :
    after.counters = before.counters ∧ FieldTakes before after registers [] := by
  induction shapes generalizing before registers with
  | nil =>
      obtain ⟨rfl, rfl⟩ := Prod.mk.inj (Except.ok.inj h)
      exact ⟨rfl, FieldTakes.none _⟩
  | cons shape shapes ih =>
      cases shape with
      | numbered name =>
          obtain ⟨⟨number, middle⟩, hNew, hThen⟩ := exists_of_bind_eq_ok h
          obtain ⟨⟨rest, last⟩, hRest, hLast⟩ := exists_of_bind_eq_ok hThen
          obtain ⟨rfl, rfl⟩ := Prod.mk.inj (Except.ok.inj hLast)
          obtain ⟨number', hAllocate, hGot⟩ := exists_of_bind_eq_ok hNew
          obtain ⟨rfl, hLess⟩ := allocate_ok hAllocate
          obtain ⟨rfl, rfl⟩ := Prod.mk.inj (Except.ok.inj hGot)
          obtain ⟨hSame, hTakes⟩ := ih hRest
          have hNumbers : registerNumbers
                (⟨name, (before.fieldCount : Int), [], [], []⟩ :: rest) =
              [before.fieldCount] ++ registerNumbers rest := by
            rw [registerNumbers, List.filter_cons_of_pos (by simp)]
            rfl
          refine ⟨hSame, hTakes.block, ?_, hTakes.entries⟩
          rw [hNumbers]
          exact (Takes.one hLess).append hTakes.registers
      | text name lead extension writeExtension =>
          obtain ⟨⟨rest, last⟩, hRest, h⟩ := exists_of_bind_eq_ok h
          obtain ⟨rfl, rfl⟩ := Prod.mk.inj (Except.ok.inj h)
          obtain ⟨hSame, hTakes⟩ := ih hRest
          refine ⟨hSame, hTakes.block, ?_, hTakes.entries⟩
          rw [registerNumbers, List.filter_cons_of_neg (by simp)]
          exact hTakes.registers

theorem newEntry_ok {bus : Bus} {before after : FieldCounter} {index : Nat}
    (h : before.newEntry bus = .ok (index, after)) :
    after.fieldCount = before.fieldCount ∧
      FieldTakes before after [] [⟨[], bus, index⟩] ∧
      ∀ other, after.counters.count other =
        before.counters.count other + if other = bus then 1 else 0 := by
  obtain ⟨⟨index', counters⟩, hNew, h⟩ := exists_of_bind_eq_ok h
  obtain ⟨rfl, rfl⟩ := Prod.mk.inj (Except.ok.inj h)
  obtain ⟨index', hAllocate, hNew⟩ := exists_of_bind_eq_ok hNew
  obtain ⟨rfl, hLess⟩ := allocate_ok hAllocate
  obtain ⟨rfl, rfl⟩ := Prod.mk.inj (Except.ok.inj hNew)
  refine ⟨rfl, ⟨?_, Takes.none _ _, fun other => ?_⟩, fun other => ?_⟩
  · cases bus <;> rfl
  · by_cases hBus : bus = other
    · subst hBus
      have hOne := Takes.one hLess
      cases bus <;> exact hOne
    · have hNone := Takes.none (RegisterCounter.limit other) (before.counters.count other)
      have hEmpty : entryIndices other [⟨[], bus, before.counters.count bus⟩] = [] := by
        rw [entryIndices, List.filter_cons_of_neg (by simpa using hBus)]
        rfl
      rw [hEmpty]
      cases bus <;> cases other <;> first | exact absurd rfl hBus | exact hNone
  · cases bus <;> cases other <;> rfl

theorem entryIndices_cons (bus : Bus) (name : Text) (entry : BusEntryConfig)
    (entries : List BusEntryConfig) :
    entryIndices bus (entry :: entries) =
      entryIndices bus [⟨name, entry.bus, entry.index⟩] ++ entryIndices bus entries := by
  unfold entryIndices
  by_cases hBus : entry.bus = bus
  · rw [List.filter_cons_of_pos (by simpa using hBus),
      List.filter_cons_of_pos (by simpa using hBus)]
    rfl
  · rw [List.filter_cons_of_neg (by simpa using hBus),
      List.filter_cons_of_neg (by simpa using hBus)]
    rfl

theorem takeEntries_ok {bus : Bus} {names : List Text} {before after : FieldCounter}
    {entries : List BusEntryConfig} (h : takeEntries bus names before = .ok (entries, after)) :
    after.fieldCount = before.fieldCount ∧ FieldTakes before after [] entries ∧
      ∀ other, after.counters.count other =
        before.counters.count other + if other = bus then names.length else 0 := by
  induction names generalizing before entries with
  | nil =>
      obtain ⟨rfl, rfl⟩ := Prod.mk.inj (Except.ok.inj h)
      refine ⟨rfl, FieldTakes.none _, fun other => ?_⟩
      rw [List.length_nil, ite_self, Nat.add_zero]
  | cons name names ih =>
      obtain ⟨⟨index, middle⟩, hNew, h⟩ := exists_of_bind_eq_ok h
      obtain ⟨⟨rest, last⟩, hRest, h⟩ := exists_of_bind_eq_ok h
      obtain ⟨rfl, rfl⟩ := Prod.mk.inj (Except.ok.inj h)
      obtain ⟨hField, hTakes, hCount⟩ := newEntry_ok hNew
      obtain ⟨hFields, hRestTakes, hRestCount⟩ := ih hRest
      refine ⟨hFields.trans hField, ⟨hRestTakes.block.trans hTakes.block, ?_, fun other => ?_⟩,
        fun other => ?_⟩
      · exact hTakes.registers.append hRestTakes.registers
      · rw [entryIndices_cons other []]
        exact (hTakes.entries other).append (hRestTakes.entries other)
      · rw [hRestCount, hCount, List.length_cons]
        split_ifs <;> omega

theorem extEntries_eq (field : FieldIni) (number : Int) :
    field.extEntries number = match field.entries number with
      | some (.ext, names) => names.length
      | _ => 0 := by
  obtain ⟨name, kind, extension, extensionWrite, extensionRead⟩ := field
  cases kind <;> simp [FieldIni.extEntries, FieldIni.entries]

theorem registerField_ok {field : FieldIni} {number : Int} {before after : FieldCounter}
    {config : FieldConfig} (h : field.registerAddresses number before = .ok (config, after)) :
    FieldTakes before after config.registers config.busEntries ∧
      after.counters.count .ext = before.counters.count .ext + field.extEntries number := by
  rw [extEntries_eq]
  unfold FieldIni.registerAddresses at h
  cases hEntries : field.entries number with
  | some entry =>
      obtain ⟨bus, names⟩ := entry
      rw [hEntries] at h
      obtain ⟨⟨entries, last⟩, hTake, hLast⟩ := exists_of_bind_eq_ok h
      obtain ⟨rfl, rfl⟩ := Prod.mk.inj (Except.ok.inj hLast)
      obtain ⟨-, hTakes, hCount⟩ := takeEntries_ok hTake
      refine ⟨hTakes, ?_⟩
      rw [hCount]
      cases bus <;> rfl
  | none =>
      rw [hEntries] at h
      obtain ⟨⟨registers, last⟩, hTake, hLast⟩ := exists_of_bind_eq_ok h
      obtain ⟨rfl, rfl⟩ := Prod.mk.inj (Except.ok.inj hLast)
      obtain ⟨hSame, hTakes⟩ := takeRegisters_ok hTake
      exact ⟨hTakes, congrArg (fun counters => counters.count .ext) hSame⟩

/-- What the fields of a block take. -/
structure FieldsTake (before after : FieldCounter) (fields : List FieldConfig) : Prop where
  block : after.counters.blockCount = before.counters.blockCount
  registers : Takes maxFields before.fieldCount after.fieldCount
    (fields.flatMap fun field => registerNumbers field.registers)
  entries : ∀ bus, Takes (RegisterCounter.limit bus) (before.counters.count bus)
    (after.counters.count bus) (fields.flatMap fun field => entryIndices bus field.busEntries)

theorem registerFields_ok {number : Int} {inis : List FieldIni} {before after : FieldCounter}
    {fields : List FieldConfig} (h : registerFields number inis before = .ok (fields, after)) :
    FieldsTake before after fields ∧ after.counters.count .ext =
      before.counters.count .ext + (inis.map fun field => field.extEntries number).sum := by
  induction inis generalizing before fields with
  | nil =>
      obtain ⟨rfl, rfl⟩ := Prod.mk.inj (Except.ok.inj h)
      exact ⟨⟨rfl, Takes.none _ _, fun _ => Takes.none _ _⟩, rfl⟩
  | cons ini inis ih =>
      obtain ⟨⟨config, middle⟩, hField, hThen⟩ := exists_of_bind_eq_ok h
      obtain ⟨⟨rest, last⟩, hRest, hLast⟩ := exists_of_bind_eq_ok hThen
      obtain ⟨rfl, rfl⟩ := Prod.mk.inj (Except.ok.inj hLast)
      obtain ⟨hTakes, hCount⟩ := registerField_ok hField
      obtain ⟨hRestTakes, hRestCount⟩ := ih hRest
      refine ⟨⟨hRestTakes.block.trans hTakes.block, ?_, fun bus => ?_⟩, ?_⟩
      · rw [List.flatMap_cons]
        exact hTakes.registers.append hRestTakes.registers
      · rw [List.flatMap_cons]
        exact (hTakes.entries bus).append (hRestTakes.entries bus)
      · rw [hRestCount, hCount, List.map_cons, List.sum_cons, Nat.add_assoc]

/-- What a block takes from the counters of the application. -/
structure BlockTakes (before after : RegisterCounter) (ini : BlockIni) (block : BlockConfig) :
    Prop where
  address : Takes maxBlocks before.blockCount after.blockCount [block.blockAddress]
  number : block.number = ini.number
  registers : block.registers.Nodup
  register_lt : ∀ reg ∈ block.registers, reg < blockRegisterCount
  entries : ∀ bus, Takes (RegisterCounter.limit bus) (before.count bus) (after.count bus)
    (block.indices bus)
  ext : after.count .ext =
    before.count .ext + (ini.fields.map fun field => field.extEntries ini.number).sum

theorem registerBlock_ok {ini : BlockIni} {before after : RegisterCounter} {block : BlockConfig}
    (h : ini.registerAddresses before = .ok (block, after)) : BlockTakes before after ini block := by
  obtain ⟨⟨address, counters⟩, hNew, hThen⟩ := exists_of_bind_eq_ok h
  obtain ⟨⟨fields, counter⟩, hFields, hLast⟩ := exists_of_bind_eq_ok hThen
  obtain ⟨rfl, rfl⟩ := Prod.mk.inj (Except.ok.inj hLast)
  obtain ⟨address', hAllocate, hGot⟩ := exists_of_bind_eq_ok hNew
  obtain ⟨rfl, hLess⟩ := allocate_ok hAllocate
  obtain ⟨rfl, rfl⟩ := Prod.mk.inj (Except.ok.inj hGot)
  obtain ⟨hTakes, hCount⟩ := registerFields_ok hFields
  refine ⟨?_, rfl, hTakes.registers.nodup, fun reg hMem => ?_, hTakes.entries, hCount⟩
  · rw [hTakes.block]
    exact Takes.one hLess
  · exact hTakes.registers.lt (Nat.zero_le _) hMem

theorem BlockTakes.of_fields {before after : RegisterCounter} {ini : BlockIni}
    {block renamed : BlockConfig} (h : BlockTakes before after ini block)
    (hAddress : renamed.blockAddress = block.blockAddress) (hNumber : renamed.number = block.number)
    (hRegisters : renamed.registers = block.registers)
    (hIndices : ∀ bus, renamed.indices bus = block.indices bus) :
    BlockTakes before after ini renamed where
  address := by
    rw [hAddress]
    exact h.address
  number := hNumber.trans h.number
  registers := by
    rw [hRegisters]
    exact h.registers
  register_lt := by
    rw [hRegisters]
    exact h.register_lt
  entries bus := by
    rw [hIndices]
    exact h.entries bus
  ext := h.ext

theorem registers_generateCalcExtensions (block : BlockConfig) :
    block.generateCalcExtensions.registers = block.registers := by
  simp only [BlockConfig.registers, BlockConfig.generateCalcExtensions, List.flatMap_map]

theorem indices_generateCalcExtensions (block : BlockConfig) (bus : Bus) :
    block.generateCalcExtensions.indices bus = block.indices bus := by
  simp only [BlockConfig.indices, BlockConfig.generateCalcExtensions, List.flatMap_map]

theorem registers_underscored (block : BlockConfig) :
    (underscored block).registers = block.registers := by
  simp only [BlockConfig.registers, underscored, List.flatMap_map]

theorem indices_underscored (block : BlockConfig) (bus : Bus) :
    (underscored block).indices bus = block.indices bus := by
  simp only [BlockConfig.indices, underscored, List.flatMap_map]

theorem placeField_ok {suffixes : List Text} {field : FieldConfig} {entry : Text × FieldConfig}
    (h : placeField suffixes field = .ok entry) : entry.2.registers = field.registers := by
  unfold placeField at h
  split at h
  · split at h
    · rw [← Except.ok.inj h]
    · exact absurd h (by simp)
  · exact absurd h (by simp)

theorem placed_of_mapM {suffixes : List Text} {fields : List FieldConfig}
    {placed : List (Text × FieldConfig)} (h : fields.mapM (placeField suffixes) = .ok placed) :
    ∀ entry ∈ placed, ∃ field ∈ fields, entry.2.registers = field.registers := by
  induction fields generalizing placed with
  | nil =>
      obtain rfl := Except.ok.inj h
      simp
  | cons field fields ih =>
      rw [List.mapM_cons] at h
      obtain ⟨first, hFirst, hThen⟩ := exists_of_bind_eq_ok h
      obtain ⟨rest, hRest, hLast⟩ := exists_of_bind_eq_ok hThen
      obtain rfl := Except.ok.inj hLast
      intro entry hMem
      rcases List.mem_cons.mp hMem with rfl | hMem
      · exact ⟨field, List.mem_cons_self, placeField_ok hFirst⟩
      · obtain ⟨found, hFound, hSame⟩ := ih hRest entry hMem
        exact ⟨found, List.mem_cons_of_mem _ hFound, hSame⟩

/-- A block as the server sees it: at the address of the block that it is part of. -/
def PartOf (block parent : BlockConfig) : Prop :=
  block.blockAddress = parent.blockAddress ∧ block.number = parent.number ∧
    ∀ reg ∈ block.registers, reg ∈ parent.registers

theorem suffixBlock_partOf {suffixes : List Text} {block : BlockConfig}
    {placed : List (Text × FieldConfig)}
    (h : block.fields.mapM (placeField suffixes) = .ok placed) (suffix : Text) :
    PartOf (suffixBlock block placed suffix) (underscored block) := by
  refine ⟨rfl, rfl, fun reg hMem => ?_⟩
  rw [registers_underscored]
  obtain ⟨field, hField, hReg⟩ := List.mem_flatMap.mp hMem
  obtain ⟨entry, hEntry, hSome⟩ := List.mem_filterMap.mp hField
  obtain ⟨found, hFound, hSame⟩ := placed_of_mapM h entry hEntry
  split at hSome
  · obtain rfl := Option.some.inj hSome
    rw [hSame] at hReg
    exact List.mem_flatMap.mpr ⟨found, hFound, hReg⟩
  · exact absurd hSome (by simp)

theorem implementBlock_ok {app next : App} {ini : BlockIni}
    (h : app.implementBlock ini = .ok next) :
    ∃ block servers, next.fpgaBlocks = app.fpgaBlocks ++ [block] ∧
      next.serverBlocks = app.serverBlocks ++ servers ∧ (∀ server ∈ servers, PartOf server block) ∧
      BlockTakes app.counters next.counters ini block := by
  obtain ⟨⟨registered, counters⟩, hRegister, hThen⟩ := exists_of_bind_eq_ok h
  have hTakes : BlockTakes app.counters counters ini registered.generateCalcExtensions :=
    (registerBlock_ok hRegister).of_fields rfl rfl (registers_generateCalcExtensions _)
      (indices_generateCalcExtensions _)
  dsimp only at hThen
  split at hThen
  · obtain rfl := Except.ok.inj hThen
    refine ⟨_, _, rfl, rfl, fun server hMem => ?_, hTakes⟩
    obtain rfl := List.mem_singleton.mp hMem
    exact ⟨rfl, rfl, fun _ hReg => hReg⟩
  · obtain ⟨placed, hPlaced, hLast⟩ := exists_of_bind_eq_ok hThen
    obtain rfl := Except.ok.inj hLast
    refine ⟨_, _, rfl, rfl, fun server hMem => ?_, hTakes.of_fields rfl rfl
      (registers_underscored _) (indices_underscored _)⟩
    obtain ⟨suffix, -, rfl⟩ := List.mem_map.mp hMem
    exact suffixBlock_partOf hPlaced suffix

/-- What holds after every block, whatever the limits of the server are. -/
structure AppInv (inis : List BlockIni) (app : App) : Prop where
  addresses : Takes maxBlocks 2 app.counters.blockCount (app.fpgaBlocks.map (·.blockAddress))
  numbers : app.fpgaBlocks.map (·.number) = inis.map (·.number)
  shared : ∀ block ∈ app.serverBlocks, ∃ parent ∈ app.fpgaBlocks, PartOf block parent
  registers : ∀ block ∈ app.fpgaBlocks, block.registers.Nodup
  register_lt : ∀ block ∈ app.fpgaBlocks, ∀ reg ∈ block.registers, reg < blockRegisterCount
  entries : ∀ bus, Takes (RegisterCounter.limit bus) 0 (app.counters.count bus) (app.indices bus)
  ext : app.counters.count .ext = extEntries inis

theorem AppInv.start : AppInv [] App.start where
  addresses := Takes.none _ _
  numbers := rfl
  shared _ hMem := absurd hMem List.not_mem_nil
  registers _ hMem := absurd hMem List.not_mem_nil
  register_lt _ hMem := absurd hMem List.not_mem_nil
  entries bus := by cases bus <;> exact Takes.none _ _
  ext := rfl

theorem AppInv.step {inis : List BlockIni} {app next : App} {ini : BlockIni}
    (hInv : AppInv inis app) (h : app.implementBlock ini = .ok next) :
    AppInv (inis ++ [ini]) next := by
  obtain ⟨block, servers, hFpga, hServers, hParts, hTakes⟩ := implementBlock_ok h
  constructor
  case addresses =>
    rw [hFpga, List.map_append]
    exact hInv.addresses.append hTakes.address
  case numbers =>
    rw [hFpga, List.map_append, List.map_append, hInv.numbers]
    exact congrArg (fun number => _ ++ [number]) hTakes.number
  case shared =>
    intro server hMem
    rw [hServers] at hMem
    rcases List.mem_append.mp hMem with hOld | hNew
    · obtain ⟨parent, hParent, hPart⟩ := hInv.shared server hOld
      exact ⟨parent, by rw [hFpga]; exact List.mem_append_left _ hParent, hPart⟩
    · exact ⟨block, by rw [hFpga]; exact List.mem_append_right _ List.mem_cons_self,
        hParts server hNew⟩
  case registers =>
    intro other hMem
    rw [hFpga] at hMem
    rcases List.mem_append.mp hMem with hOld | hNew
    · exact hInv.registers other hOld
    · obtain rfl := List.mem_singleton.mp hNew
      exact hTakes.registers
  case register_lt =>
    intro other hMem
    rw [hFpga] at hMem
    rcases List.mem_append.mp hMem with hOld | hNew
    · exact hInv.register_lt other hOld
    · obtain rfl := List.mem_singleton.mp hNew
      exact hTakes.register_lt
  case entries =>
    intro bus
    have hIndices : next.indices bus = app.indices bus ++ block.indices bus := by
      rw [App.indices, hFpga, List.flatMap_append, List.flatMap_singleton]
      rfl
    rw [hIndices]
    exact (hInv.entries bus).append (hTakes.entries bus)
  case ext =>
    rw [hTakes.ext, hInv.ext, extEntries, extEntries, List.map_append, List.sum_append,
      List.map_singleton, List.sum_singleton]

theorem AppInv.blocks {inis more : List BlockIni} {app next : App} (hInv : AppInv inis app)
    (h : more.foldlM App.implementBlock app = .ok next) : AppInv (inis ++ more) next := by
  induction more generalizing inis app with
  | nil =>
      obtain rfl := Except.ok.inj h
      rwa [List.append_nil]
  | cons ini more ih =>
      rw [List.foldlM_cons] at h
      obtain ⟨middle, hFirst, hRest⟩ := exists_of_bind_eq_ok h
      rw [List.append_cons]
      exact ih (hInv.step hFirst) hRest

theorem implementBlocks_ok {inis : List BlockIni} {app : App}
    (h : implementBlocks inis = .ok app) : AppInv inis app :=
  AppInv.start.blocks h

/-! ## Codes -/

theorem mem_offsets {block : BlockConfig} {offset : Nat} (hMem : offset ∈ block.offsets) :
    ∃ number < block.number.toNat, ∃ reg ∈ block.registers,
      offset = makeOffset block.blockAddress number reg := by
  obtain ⟨number, hNumber, hRest⟩ := List.mem_flatMap.mp hMem
  obtain ⟨reg, hReg, rfl⟩ := List.mem_map.mp hRest
  exact ⟨number, List.mem_range.mp hNumber, reg, hReg, rfl⟩

theorem nodup_offsets {block : BlockConfig} (hAddress : block.blockAddress < blockTypeCount)
    (hRegisters : block.registers.Nodup) (hLt : ∀ reg ∈ block.registers, reg < blockRegisterCount)
    (hNumber : block.number.toNat ≤ blockInstanceCount) : block.offsets.Nodup := by
  rw [BlockConfig.offsets, List.nodup_flatMap]
  refine ⟨fun number _ => ?_, ?_⟩
  · refine (List.nodup_map_iff_inj_on hRegisters).mpr fun reg hReg reg' hReg' hSame => ?_
    exact ((makeOffset_inj hAddress hAddress (hLt reg hReg) (hLt reg' hReg')).mp hSame).2.2
  · refine List.Pairwise.imp_of_mem (fun {number number'} hMem hMem' hNe => ?_) List.nodup_range
    intro offset hFirst hSecond
    obtain ⟨reg, hReg, rfl⟩ := List.mem_map.mp hFirst
    obtain ⟨reg', hReg', hSame⟩ := List.mem_map.mp hSecond
    obtain ⟨-, hBits, -⟩ :=
      (makeOffset_inj hAddress hAddress (hLt reg' hReg') (hLt reg hReg)).mp hSame
    rw [List.mem_range] at hMem hMem'
    rw [Nat.mod_eq_of_lt (by omega), Nat.mod_eq_of_lt (by omega)] at hBits
    exact hNe hBits.symm

theorem nodup_captureCodes {app : App} (hIndices : ∀ bus, (app.indices bus).Nodup)
    (hLt : ∀ bus, ∀ index ∈ app.indices bus, index < busCount bus) : app.captureCodes.Nodup := by
  have hPos : ∀ index ∈ app.indices .pos, index < 32 := hLt .pos
  have hExt : ∀ index ∈ app.indices .ext, index < 16 := hLt .ext
  rw [App.captureCodes, List.nodup_append]
  refine ⟨List.nodup_flatMap.mpr ⟨fun index _ => ?_, ?_⟩, ?_, ?_⟩
  · refine (List.nodup_map_iff_inj_on List.nodup_range).mpr fun mode hMode mode' hMode' hSame => ?_
    rw [List.mem_range] at hMode hMode'
    unfold capturePosBus at hSame
    omega
  · refine List.Pairwise.imp_of_mem (fun {index index'} hMem hMem' hNe => ?_) (hIndices .pos)
    intro code hFirst hSecond
    obtain ⟨mode, hMode, rfl⟩ := List.mem_map.mp hFirst
    obtain ⟨mode', hMode', hSame⟩ := List.mem_map.mp hSecond
    have := hPos index hMem
    have := hPos index' hMem'
    rw [List.mem_range] at hMode hMode'
    unfold capturePosBus at hSame
    omega
  · refine (List.nodup_map_iff_inj_on (hIndices .ext)).mpr fun index hMem index' hMem' hSame => ?_
    have := hExt index hMem
    have := hExt index' hMem'
    unfold captureExtBus at hSame
    omega
  · intro code hFirst other hSecond hSame
    obtain ⟨index, -, hRest⟩ := List.mem_flatMap.mp hFirst
    obtain ⟨mode, -, rfl⟩ := List.mem_map.mp hRest
    obtain ⟨index', -, rfl⟩ := List.mem_map.mp hSecond
    unfold capturePosBus captureExtBus at hSame
    omega

section Addressable

variable {inis : List BlockIni} {app : App} (hInv : AppInv inis app)

include hInv

theorem AppInv.address_lt {block : BlockConfig} (hMem : block ∈ app.fpgaBlocks) :
    block.blockAddress < blockTypeCount :=
  hInv.addresses.lt (by decide) (List.mem_map.mpr ⟨block, hMem, rfl⟩)

theorem AppInv.forall_number (limit : Int) :
    (∀ block ∈ app.fpgaBlocks, block.number ≤ limit) ↔ ∀ ini ∈ inis, ini.number ≤ limit := by
  have hNumbers : ∀ number, number ∈ app.fpgaBlocks.map (·.number) ↔
      number ∈ inis.map (·.number) := fun number => by rw [hInv.numbers]
  simp only [List.mem_map] at hNumbers
  constructor
  · intro h ini hMem
    obtain ⟨block, hBlock, hSame⟩ := (hNumbers ini.number).mpr ⟨ini, hMem, rfl⟩
    rw [← hSame]
    exact h block hBlock
  · intro h block hMem
    obtain ⟨ini, hIni, hSame⟩ := (hNumbers block.number).mp ⟨block, hMem, rfl⟩
    rw [← hSame]
    exact h ini hIni

theorem AppInv.addressable (hNumber : ∀ block ∈ app.fpgaBlocks, block.number ≤ 16)
    (hExt : extEntries inis ≤ 16) : Addressable app := by
  have hIndices : ∀ bus, (app.indices bus).Nodup := fun bus => (hInv.entries bus).nodup
  have hIndexLt : ∀ bus, ∀ index ∈ app.indices bus, index < busCount bus := by
    intro bus index hMem
    cases bus with
    | bit => exact (hInv.entries .bit).lt (Nat.zero_le _) hMem
    | pos => exact (hInv.entries .pos).lt (Nat.zero_le _) hMem
    | ext =>
        rw [(hInv.entries .ext).taken, List.mem_range'_1, hInv.ext] at hMem
        change index < 16
        omega
  have hCount : ∀ block ∈ app.fpgaBlocks, block.number.toNat ≤ blockInstanceCount := by
    intro block hMem
    have := hNumber block hMem
    unfold blockInstanceCount
    omega
  refine ⟨hInv.addresses.nodup, fun block hMem => hInv.address_lt hMem, hInv.shared,
    hInv.registers, hInv.register_lt, ?_, hIndices, hIndexLt, ?_, nodup_captureCodes hIndices hIndexLt⟩
  · intro block hMem number hLess
    have := hCount block hMem
    omega
  · refine List.nodup_flatMap.mpr ⟨fun block hMem => ?_, ?_⟩
    · exact nodup_offsets (hInv.address_lt hMem) (hInv.registers block hMem)
        (hInv.register_lt block hMem) (hCount block hMem)
    · have hApart := List.pairwise_map.mp hInv.addresses.nodup
      refine List.Pairwise.imp_of_mem (fun {block other} hMem hOther hNe => ?_) hApart
      intro offset hFirst hSecond
      obtain ⟨number, -, reg, hReg, rfl⟩ := mem_offsets hFirst
      obtain ⟨number', -, reg', hReg', hSame⟩ := mem_offsets hSecond
      exact hNe ((makeOffset_inj (hInv.address_lt hMem) (hInv.address_lt hOther)
        (hInv.register_lt block hMem reg hReg) (hInv.register_lt other hOther reg' hReg')).mp
          hSame).1

theorem AppInv.within_limits (h : Addressable app) :
    (∀ block ∈ app.fpgaBlocks, block.number ≤ 16) ∧ extEntries inis ≤ 16 := by
  constructor
  · intro block hMem
    by_contra hMany
    exact absurd (h.instance_lt block hMem 16 (by omega)) (by decide)
  · by_contra hMany
    have hLast : 16 ∈ app.indices .ext := by
      rw [(hInv.entries .ext).taken, List.mem_range'_1, hInv.ext]
      omega
    exact absurd (h.index_lt .ext 16 hLast) (by decide)

end Addressable

/-- An application that the generator accepts can be addressed as far as no block has more
instances than the server has bits for, and the ext bus is not used beyond the server's end of
it. -/
theorem accepted_addressable_iff {inis : List BlockIni} {app : App}
    (hAccepted : implementBlocks inis = .ok app) :
    Addressable app ↔ (∀ ini ∈ inis, ini.number ≤ 16) ∧ extEntries inis ≤ 16 := by
  have hInv := implementBlocks_ok hAccepted
  rw [← hInv.forall_number]
  exact ⟨hInv.within_limits, fun h => hInv.addressable h.1 h.2⟩

/-- A field without extension. -/
def plainField (name : String) (kind : FieldKind) : FieldIni :=
  { name := name.toList, kind := kind, extension := [], extensionWrite := [], extensionRead := [] }

/-- A block with a timestamp and a block of two suffixes. -/
def smallApp : List BlockIni :=
  [{ name := "PCAP".toList, number := 1, extension := [],
     fields := [plainField "TRIG" .bitMux, plainField "TS" .extOutTime], blockSuffixes := [] },
   { name := "IO".toList, number := 16, extension := [],
     fields := [plainField "IN.VAL" .bitOut, plainField "OUT.VAL" .bitMux],
     blockSuffixes := ["IN".toList, "OUT".toList] }]

theorem accepted_addressable_small :
    ∃ app, implementBlocks smallApp = .ok app ∧ Addressable app :=
  ⟨_, rfl, (@accepted_addressable_iff smallApp _ rfl).mpr ⟨by decide, by decide⟩⟩

/-- Seventeen instances with an entry of the ext bus each. -/
def wideApp : List BlockIni :=
  [{ name := "ADC".toList, number := 17, extension := [],
     fields := [plainField "GAIN" (.param .param), plainField "OUT" .extOut], blockSuffixes := [] }]

theorem wide_app_not_addressable :
    ∃ app, implementBlocks wideApp = .ok app ∧ ¬ Addressable app := by
  refine ⟨_, rfl, fun h => ?_⟩
  have hInv : AppInv wideApp _ := implementBlocks_ok rfl
  exact absurd (hInv.within_limits h).2 (by decide)

end Generator
