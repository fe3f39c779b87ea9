import PandaBridge.Server.RegisterMap

/-! Which offsets can coincide. Every register that `check_parse_register` hands out is new for
its block base, so two offsets are the same only for two instances of one field, when there are
more instances than their bits can tell apart. -/
namespace Server

/-- A register of a field that is written, with the number of its instances. -/
structure RegisterTarget where
  base : Nat
  reg : Nat
  count : Nat
  deriving DecidableEq

namespace MapBlock

/-- What the fields of a block take under its base. -/
def targets (block : MapBlock) (registers : FieldRegisters → List Nat) : List RegisterTarget :=
  match block.base with
  | .assigned base => block.fields.flatMap fun field =>
      ((field.registers.map registers).getD []).map fun reg => ⟨base, reg, block.count⟩
  | _ => []

end MapBlock

namespace RegisterMap

/-- The registers that fields write themselves. -/
def writeTargets (map : RegisterMap) : List RegisterTarget :=
  map.blocks.flatMap fun block => block.targets FieldRegisters.writes

/-- All registers that are written, those of extensions too, which fields may share. -/
def allTargets (map : RegisterMap) : List RegisterTarget :=
  map.blocks.flatMap fun block => block.targets fun regs => regs.writes ++ regs.extension

/-- Everything that `check_parse_register` has handed out. -/
def checkedTargets (map : RegisterMap) : List RegisterTarget :=
  map.blocks.flatMap fun block => block.targets fun regs => regs.reads ++ regs.writes

/-- The offsets of every register in every instance, one entry for each pair. -/
def writeOffsets (map : RegisterMap) : List Nat :=
  map.writeTargets.flatMap fun target =>
    (List.range target.count).map fun number => makeOffset target.base number target.reg

end RegisterMap

/-! ### Offsets -/

theorem makeOffset_lt (base number reg : Nat) : makeOffset base number reg < 2 ^ 15 := by
  unfold makeOffset blockRegisterCount blockInstanceCount blockTypeCount
  omega

theorem makeOffset_inj {base base' number number' reg reg' : Nat} (hBase : base < blockTypeCount)
    (hBase' : base' < blockTypeCount) (hReg : reg < blockRegisterCount)
    (hReg' : reg' < blockRegisterCount) :
    makeOffset base number reg = makeOffset base' number' reg' ↔
      base = base' ∧ number % blockInstanceCount = number' % blockInstanceCount ∧ reg = reg' := by
  unfold makeOffset
  unfold blockRegisterCount blockInstanceCount blockTypeCount at *
  omega

theorem nodup_instances {base reg count : Nat} (hBase : base < blockTypeCount)
    (hReg : reg < blockRegisterCount) :
    ((List.range count).map fun number => makeOffset base number reg).Nodup ↔
      count ≤ blockInstanceCount := by
  rw [List.nodup_map_iff_inj_on List.nodup_range]
  constructor
  · intro hInj
    by_contra hMany
    have hSame := hInj 0 (List.mem_range.mpr (by omega)) blockInstanceCount
      (List.mem_range.mpr (by omega)) ((makeOffset_inj hBase hBase hReg hReg).mpr ⟨rfl, by simp, rfl⟩)
    exact absurd hSame (by decide)
  · intro hFew number hNumber number' hNumber' hSame
    have hBits := ((makeOffset_inj hBase hBase hReg hReg).mp hSame).2.1
    have hLt := List.mem_range.mp hNumber
    have hLt' := List.mem_range.mp hNumber'
    rwa [Nat.mod_eq_of_lt (by omega), Nat.mod_eq_of_lt (by omega)] at hBits

/-! ### What a register line takes -/

/-- Registers that were free and are marked now. -/
structure FreshRegisters (base : BlockBase) (used marked : Nat → Bool) (regs : List Nat) : Prop where
  nodup : regs.Nodup
  unused : ∀ reg ∈ regs, used reg = false ∧ reg < blockRegisterCount
  marked : ∀ reg, marked reg = true ↔ used reg = true ∨ reg ∈ regs
  assigned : regs ≠ [] → ∃ number, base = .assigned number

theorem FreshRegisters.none (base : BlockBase) (used : Nat → Bool) :
    FreshRegisters base used used [] :=
  ⟨List.nodup_nil, nofun, by simp, nofun⟩

namespace RegisterMap

variable {context : LoadContext}

theorem checkParseRegister_ok {base : BlockBase} {used marked : Nat → Bool} {line rest : Text}
    {reg : Nat} (h : checkParseRegister context base used line = .ok (reg, marked, rest)) :
    used reg = false ∧ reg < blockRegisterCount ∧ marked = Function.update used reg true ∧
      ∃ number, base = .assigned number := by
  unfold checkParseRegister at h
  split at h
  · next number =>
      obtain ⟨⟨found, line⟩, _, hRest⟩ := exists_of_bind_eq_ok h
      simp only at hRest
      split_ifs at hRest with hLarge hUsed
      obtain ⟨rfl, rfl, _⟩ : found = reg ∧ Function.update used found true = marked ∧ line = rest := by
        simpa using hRest
      exact ⟨by simpa using hUsed, by omega, rfl, number, rfl⟩
  · exact absurd h (by simp)

theorem parseItems_ok {base : BlockBase} {items : List RegisterItem} {used marked : Nat → Bool}
    {line rest : Text} {regs : List Nat}
    (h : parseItems context base items used line = .ok (regs, marked, rest)) :
    FreshRegisters base used marked regs := by
  induction items generalizing used line regs rest with
  | nil =>
      obtain ⟨rfl, rfl, _⟩ : [] = regs ∧ used = marked ∧ line = rest := by simpa [parseItems] using h
      exact FreshRegisters.none base used
  | cons item items ih =>
      cases item with
      | whitespace =>
          obtain ⟨_, _, hRest⟩ := exists_of_bind_eq_ok h
          exact ih hRest
      | char ch =>
          obtain ⟨_, _, hRest⟩ := exists_of_bind_eq_ok h
          exact ih hRest
      | number =>
          obtain ⟨_, _, hRest⟩ := exists_of_bind_eq_ok h
          exact ih hRest
      | register =>
          obtain ⟨⟨reg, middle, line⟩, hReg, hRest⟩ := exists_of_bind_eq_ok h
          obtain ⟨⟨others, after, line⟩, hOthers, hOk⟩ := exists_of_bind_eq_ok hRest
          obtain ⟨rfl, rfl, _⟩ : reg :: others = regs ∧ after = marked ∧ line = rest := by
            simpa using hOk
          obtain ⟨hUnused, hSmall, rfl, hBase⟩ := checkParseRegister_ok hReg
          have hFresh := ih hOthers
          have hNew : reg ∉ others := by
            intro hMem
            have hMarked := (hFresh.unused reg hMem).1
            simp at hMarked
          refine ⟨List.nodup_cons.mpr ⟨hNew, hFresh.nodup⟩, ?_, ?_, fun _ => hBase⟩
          · intro other hOther
            rcases List.mem_cons.mp hOther with rfl | hMem
            · exact ⟨hUnused, hSmall⟩
            · obtain ⟨hFree, hLt⟩ := hFresh.unused other hMem
              have hOther : other ≠ reg := by
                rintro rfl
                exact hNew hMem
              rw [Function.update_of_ne hOther] at hFree
              exact ⟨hFree, hLt⟩
          · intro other
            rw [hFresh.marked, List.mem_cons]
            by_cases hSame : other = reg
            · simp [hSame]
            · simp [hSame]

theorem parseRegisterArray_ok {line rest : Text} {regs : List Nat}
    (h : parseRegisterArray context line = .ok (regs, rest)) :
    ∀ reg ∈ regs, reg < blockRegisterCount := by
  unfold parseRegisterArray at h
  split_ifs at h
  · obtain ⟨rfl, _⟩ : [] = regs ∧ line = rest := by simpa using h
    exact nofun
  · obtain ⟨⟨found, line⟩, _, hRest⟩ := exists_of_bind_eq_ok h
    simp only at hRest
    split_ifs at hRest with hLarge
    obtain ⟨rfl, _⟩ : found = regs ∧ _ = rest := by simpa using hRest
    simpa using hLarge

theorem parseExtensionWrites_ok {writeNotRead : Bool} {line rest : Text} {regs : List Nat}
    (h : parseExtensionWrites context writeNotRead line = .ok (regs, rest)) :
    ∀ reg ∈ regs, reg < blockRegisterCount := by
  unfold parseExtensionWrites at h
  split at h
  · split_ifs at h
    exact parseRegisterArray_ok h
  · next line _ =>
      obtain ⟨rfl, _⟩ : [] = regs ∧ line = rest := by simpa using h
      exact nofun

theorem parseExtensionRegister_ok {block : MapBlock} {writeNotRead : Bool} {line rest : Text}
    {regs : List Nat} (h : parseExtensionRegister context block writeNotRead line = .ok (regs, rest)) :
    block.extension = true ∧ ∀ reg ∈ regs, reg < blockRegisterCount := by
  unfold parseExtensionRegister at h
  split at h
  · exact absurd h (by simp)
  · next hBlock =>
      obtain ⟨⟨reads, line⟩, _, h⟩ := exists_of_bind_eq_ok h
      obtain ⟨⟨writes, line⟩, hWrites, h⟩ := exists_of_bind_eq_ok h
      obtain ⟨⟨_, line⟩, _, h⟩ := exists_of_bind_eq_ok h
      obtain ⟨⟨_, line⟩, _, h⟩ := exists_of_bind_eq_ok h
      obtain ⟨⟨_, line⟩, _, h⟩ := exists_of_bind_eq_ok h
      simp only at h
      split_ifs at h
      obtain ⟨rfl, _⟩ : writes = regs ∧ line = rest := by simpa using h
      exact ⟨by simpa using hBlock, parseExtensionWrites_ok hWrites⟩

/-- What the registers of one field leave behind. -/
structure FieldTakes (block : MapBlock) (used marked : Nat → Bool) (regs : FieldRegisters) :
    Prop where
  fresh : FreshRegisters block.base used marked (regs.reads ++ regs.writes)
  small : ∀ reg ∈ regs.extension, reg < blockRegisterCount
  extension : regs.extension ≠ [] → block.extension = true

theorem parseWritten_ok {block : MapBlock} {items : List RegisterItem} {used marked : Nat → Bool}
    {line rest : Text} {regs : FieldRegisters}
    (h : parseWritten context block items used line = .ok (regs, marked, rest)) :
    FieldTakes block used marked regs := by
  obtain ⟨⟨found, after, line⟩, hFound, hRest⟩ := exists_of_bind_eq_ok h
  obtain ⟨rfl, rfl, _⟩ : _ = regs ∧ after = marked ∧ line = rest := by simpa using hRest
  exact ⟨parseItems_ok hFound, nofun, nofun⟩

theorem baseParseRegister_ok {block : MapBlock} {writeNotRead : Bool} {used marked : Nat → Bool}
    {line rest : Text} {regs : FieldRegisters}
    (h : baseParseRegister context block writeNotRead used line = .ok (regs, marked, rest)) :
    FieldTakes block used marked regs := by
  unfold baseParseRegister at h
  split at h
  · obtain ⟨⟨writes, line⟩, hWrites, hRest⟩ := exists_of_bind_eq_ok h
    obtain ⟨rfl, rfl, _⟩ : _ = regs ∧ used = marked ∧ line = rest := by simpa using hRest
    obtain ⟨hBlock, hSmall⟩ := parseExtensionRegister_ok hWrites
    exact ⟨FreshRegisters.none _ _, hSmall, fun _ => hBlock⟩
  · obtain ⟨⟨found, after, line⟩, hFound, hRest⟩ := exists_of_bind_eq_ok h
    have hFresh := parseItems_ok hFound
    cases writeNotRead with
    | true =>
        obtain ⟨rfl, rfl, _⟩ : _ = regs ∧ after = marked ∧ line = rest := by simpa using hRest
        exact ⟨hFresh, nofun, nofun⟩
    | false =>
        obtain ⟨rfl, rfl, _⟩ : _ = regs ∧ after = marked ∧ line = rest := by simpa using hRest
        exact ⟨by simpa using hFresh, nofun, nofun⟩

theorem tableParseRegister_ok {block : MapBlock} {used marked : Nat → Bool} {line rest : Text}
    {regs : FieldRegisters}
    (h : tableParseRegister context block used line = .ok (regs, marked, rest)) :
    FieldTakes block used marked regs := by
  unfold tableParseRegister at h
  split at h
  · obtain ⟨_, _, h⟩ := exists_of_bind_eq_ok h
    obtain ⟨found, hFound, h⟩ := exists_of_bind_eq_ok h
    obtain ⟨_, _, h⟩ := exists_of_bind_eq_ok h
    obtain rfl := Except.ok.inj h
    exact parseWritten_ok hFound
  · split at h
    · obtain ⟨_, _, h⟩ := exists_of_bind_eq_ok h
      obtain ⟨found, hFound, h⟩ := exists_of_bind_eq_ok h
      obtain ⟨_, _, h⟩ := exists_of_bind_eq_ok h
      obtain rfl := Except.ok.inj h
      exact parseWritten_ok hFound
    · exact absurd h (by simp)

theorem parseRegister_ok {block : MapBlock} {fieldClass : RegisterClass} {used marked : Nat → Bool}
    {line rest : Text} {regs : FieldRegisters}
    (h : parseRegister context block fieldClass used line = .ok (regs, marked, rest)) :
    FieldTakes block used marked regs := by
  have hBus : parseRegister.busOnly context block fieldClass used line = .ok (regs, marked, rest) →
      FieldTakes block used marked regs := by
    intro hBus
    obtain ⟨⟨_, line⟩, _, hRest⟩ := exists_of_bind_eq_ok hBus
    obtain ⟨rfl, rfl, _⟩ : _ = regs ∧ used = marked ∧ line = rest := by simpa using hRest
    exact ⟨FreshRegisters.none _ _, nofun, nofun⟩
  cases fieldClass with
  | param => exact baseParseRegister_ok h
  | write => exact baseParseRegister_ok h
  | read => exact baseParseRegister_ok h
  | time => exact parseWritten_ok h
  | bitMux => exact parseWritten_ok h
  | posMux => exact parseWritten_ok h
  | table => exact tableParseRegister_ok h
  | bitOut => exact hBus h
  | posOut => exact hBus h
  | extOut => exact hBus h

/-! ### The whole of the files -/

/-- The names of the registers handed out: base and register. -/
def checked (map : RegisterMap) : List (Nat × Nat) :=
  map.checkedTargets.map fun target => (target.base, target.reg)

/-- What the lines accepted so far have left. -/
structure MapInv (map : RegisterMap) : Prop where
  bases : ∀ block ∈ map.blocks, ∀ base, block.base = .assigned base → base < blockTypeCount
  bare : ∀ block ∈ map.blocks, block.base = .unassigned → block.extension = false ∧
    ∀ field ∈ block.fields, ∀ regs, field.registers = some regs → regs = ⟨[], [], []⟩
  small : ∀ block ∈ map.blocks, ∀ field ∈ block.fields, ∀ regs, field.registers = some regs →
    ∀ reg ∈ regs.reads ++ regs.writes ++ regs.extension, reg < blockRegisterCount
  nodup : map.checked.Nodup
  marked : ∀ name ∈ map.checked, (map.types name.1).regUsed name.2 = true

/-- The registers of a block in `checked`. -/
def checkedOf (block : MapBlock) : List (Nat × Nat) :=
  (block.targets fun regs => regs.reads ++ regs.writes).map fun target => (target.base, target.reg)

theorem checked_eq (map : RegisterMap) : map.checked = map.blocks.flatMap checkedOf := by
  rw [checked, checkedTargets, List.map_flatMap]
  rfl

/-- A list around one of its entries, and with that entry replaced. -/
theorem split_set {Item : Type} {items : List Item} {index : Nat} {item : Item}
    (h : items[index]? = some item) (other : Item) :
    ∃ before after, items = before ++ item :: after ∧
      items.set index other = before ++ other :: after := by
  obtain ⟨hLt, hItem⟩ := List.getElem?_eq_some_iff.mp h
  refine ⟨items.take index, items.drop (index + 1), ?_, ?_⟩
  · conv_lhs => rw [← List.set_getElem_self hLt, List.set_eq_take_append_cons_drop, if_pos hLt, hItem]
  · rw [List.set_eq_take_append_cons_drop, if_pos hLt]

/-- One block is replaced, and its registers are those it had with some new ones among them. -/
theorem MapInv.set {map : RegisterMap} (h : MapInv map) {index : Nat} {block next : MapBlock}
    (hBlock : map.blocks[index]? = some block) {types : Nat → BlockType}
    (hBases : ∀ base, next.base = .assigned base → base < blockTypeCount)
    (hBare : next.base = .unassigned → next.extension = false ∧
      ∀ field ∈ next.fields, ∀ regs, field.registers = some regs → regs = ⟨[], [], []⟩)
    (hSmall : ∀ field ∈ next.fields, ∀ regs, field.registers = some regs →
      ∀ reg ∈ regs.reads ++ regs.writes ++ regs.extension, reg < blockRegisterCount)
    {before new after : List (Nat × Nat)} (hOld : checkedOf block = before ++ after)
    (hNext : checkedOf next = before ++ (new ++ after)) (hNodup : new.Nodup)
    (hNew : ∀ name ∈ new, (map.types name.1).regUsed name.2 = false ∧
      (types name.1).regUsed name.2 = true)
    (hTypes : ∀ name : Nat × Nat, (map.types name.1).regUsed name.2 = true →
      (types name.1).regUsed name.2 = true) :
    MapInv { types := types, blocks := map.blocks.set index next } := by
  obtain ⟨first, last, hBlocks, hSet⟩ := split_set hBlock next
  have hMember : ∀ other ∈ map.blocks.set index next, other ∈ map.blocks ∨ other = next := by
    intro other hOther
    exact List.mem_or_eq_of_mem_set hOther
  have hChecked : map.checked =
      first.flatMap checkedOf ++ before ++ (after ++ last.flatMap checkedOf) := by
    rw [checked_eq, hBlocks, List.flatMap_append, List.flatMap_cons, hOld]
    simp
  have hCheckedNext : checked { types := types, blocks := map.blocks.set index next } =
      first.flatMap checkedOf ++ before ++ (new ++ (after ++ last.flatMap checkedOf)) := by
    rw [checked_eq, hSet, List.flatMap_append, List.flatMap_cons, hNext]
    simp
  refine ⟨?_, ?_, ?_, ?_, ?_⟩
  · intro other hOther base hBase
    rcases hMember other hOther with hMem | rfl
    · exact h.bases other hMem base hBase
    · exact hBases base hBase
  · intro other hOther hBase
    rcases hMember other hOther with hMem | rfl
    · exact h.bare other hMem hBase
    · exact hBare hBase
  · intro other hOther
    rcases hMember other hOther with hMem | rfl
    · exact h.small other hMem
    · exact hSmall
  · have hApart : ∀ name ∈ new, name ∉ map.checked := by
      intro name hName hMem
      have hMarked := h.marked name hMem
      rw [(hNew name hName).1] at hMarked
      exact absurd hMarked (by simp)
    rw [hCheckedNext]
    have hPerm : (first.flatMap checkedOf ++ before ++ (new ++ (after ++ last.flatMap checkedOf))).Perm
        (new ++ map.checked) := by
      rw [hChecked]
      exact List.perm_append_comm_assoc _ _ _
    rw [hPerm.nodup_iff]
    exact List.nodup_append'.mpr ⟨hNodup, h.nodup, hApart⟩
  · intro name hName
    rw [hCheckedNext] at hName
    rcases List.mem_append.mp hName with hFirst | hRest
    · refine hTypes name (h.marked name ?_)
      rw [hChecked]
      exact List.mem_append_left _ hFirst
    · rcases List.mem_append.mp hRest with hAdded | hLast
      · exact (hNew name hAdded).2
      · refine hTypes name (h.marked name ?_)
        rw [hChecked]
        exact List.mem_append_right _ hLast

theorem MapInv.empty : MapInv RegisterMap.empty :=
  ⟨nofun, nofun, nofun, List.nodup_nil, nofun⟩

theorem MapInv.createBlock {map next : RegisterMap} (h : MapInv map) {name : String} {count : Nat}
    (hNext : map.createBlock name count = .ok next) : MapInv next := by
  unfold RegisterMap.createBlock at hNext
  split_ifs at hNext
  obtain rfl := Except.ok.inj hNext
  have hChecked : checked { map with blocks := map.blocks ++
      [{ name := name, count := count, base := .unassigned, extension := false, fields := [] }] } =
      map.checked := by
    rw [checked_eq, checked_eq, List.flatMap_append]
    simp [checkedOf, MapBlock.targets]
  refine ⟨?_, ?_, ?_, by rw [hChecked]; exact h.nodup, by rw [hChecked]; exact h.marked⟩
  · intro block hBlock base hBase
    rcases List.mem_append.mp hBlock with hOld | hNew
    · exact h.bases block hOld base hBase
    · rw [List.mem_singleton.mp hNew] at hBase
      exact absurd hBase (by simp)
  · intro block hBlock hBase
    rcases List.mem_append.mp hBlock with hOld | hNew
    · exact h.bare block hOld hBase
    · rw [List.mem_singleton.mp hNew]
      exact ⟨rfl, nofun⟩
  · intro block hBlock field hField
    rcases List.mem_append.mp hBlock with hOld | hNew
    · exact h.small block hOld field hField
    · rw [List.mem_singleton.mp hNew] at hField
      exact absurd hField List.not_mem_nil

theorem MapInv.createField {map : RegisterMap} (h : MapInv map) {index : Nat}
    {block next : MapBlock} (hBlock : map.blocks[index]? = some block) {name : String}
    {fieldClass : RegisterClass} (hNext : createField block name fieldClass = .ok next) :
    MapInv { map with blocks := map.blocks.set index next } := by
  have hMem := List.mem_of_getElem? hBlock
  unfold RegisterMap.createField at hNext
  split_ifs at hNext
  obtain rfl := Except.ok.inj hNext
  have hFields : ∀ field ∈ block.fields ++
      [{ name := name, fieldClass := fieldClass, registers := none }], ∀ regs,
      field.registers = some regs → field ∈ block.fields := by
    intro field hField regs hRegs
    rcases List.mem_append.mp hField with hOld | hNew
    · exact hOld
    · rw [List.mem_singleton.mp hNew] at hRegs
      exact absurd hRegs (by simp)
  refine h.set hBlock (h.bases block hMem) ?_ ?_ (List.append_nil _).symm ?_ List.nodup_nil nofun
    fun _ hUsed => hUsed
  · intro hBase
    obtain ⟨hExtension, hEmpty⟩ := h.bare block hMem hBase
    exact ⟨hExtension, fun field hField regs hRegs =>
      hEmpty field (hFields field hField regs hRegs) regs hRegs⟩
  · intro field hField regs hRegs
    exact h.small block hMem field (hFields field hField regs hRegs) regs hRegs
  · rw [List.append_nil, List.append_nil]
    unfold checkedOf MapBlock.targets
    split <;> simp_all

theorem parseBase_ok {context : LoadContext} {types next : Nat → BlockType} {line rest : Text}
    {base : BlockBase} (h : parseBase context types line = .ok (base, next, rest)) :
    (∀ number, base = .assigned number → number < blockTypeCount) ∧ base ≠ .unassigned ∧
      ∀ number, (next number).regUsed = (types number).regUsed := by
  unfold parseBase at h
  split at h
  · next line _ =>
      obtain ⟨rfl, rfl, _⟩ : BlockBase.invalid = base ∧ types = next ∧ line = rest := by simpa using h
      exact ⟨nofun, nofun, fun _ => rfl⟩
  · next line _ =>
      obtain ⟨⟨number, after⟩, _, hRest⟩ := exists_of_bind_eq_ok h
      simp only at hRest
      split_ifs at hRest with hLarge hUsed hShared
      · obtain ⟨rfl, rfl, _⟩ : .assigned number = base ∧ types = next ∧ after = rest := by
          simpa using hRest
        exact ⟨fun _ hSame => by rw [← BlockBase.assigned.inj hSame]; omega, nofun, fun _ => rfl⟩
      · obtain ⟨rfl, rfl, _⟩ : .assigned number = base ∧ _ = next ∧ after = rest := by
          simpa using hRest
        refine ⟨fun _ hSame => by rw [← BlockBase.assigned.inj hSame]; omega, nofun, fun other => ?_⟩
        by_cases hSame : other = number
        · simp [hSame]
        · simp [Function.update_of_ne hSame]

theorem MapInv.setRegister {context : LoadContext} {map : RegisterMap} (h : MapInv map)
    {index : Nat} {block next : MapBlock} (hBlock : map.blocks[index]? = some block) {line : Text}
    {types : Nat → BlockType}
    (hNext : parseBlockSetRegister context map.types block line = .ok (next, types)) :
    MapInv { types := types, blocks := map.blocks.set index next } := by
  have hMem := List.mem_of_getElem? hBlock
  unfold parseBlockSetRegister at hNext
  split at hNext
  · exact absurd hNext (by simp)
  · next hUnassigned =>
      rw [not_not] at hUnassigned
      obtain ⟨⟨base, found, line⟩, hBase, hNext⟩ := exists_of_bind_eq_ok hNext
      obtain ⟨_, _, hNext⟩ := exists_of_bind_eq_ok hNext
      obtain ⟨_, _, hNext⟩ := exists_of_bind_eq_ok hNext
      obtain ⟨rfl, rfl⟩ : _ = next ∧ found = types := by simpa using hNext
      obtain ⟨hBases, hAssigned, hUsed⟩ := parseBase_ok hBase
      obtain ⟨_, hEmpty⟩ := h.bare block hMem hUnassigned
      -- A block without a base has no register yet.
      have hNone : ∀ other : MapBlock, other.fields = block.fields → checkedOf other = [] := by
        intro other hFields
        unfold checkedOf MapBlock.targets
        split
        · rw [List.map_eq_nil_iff, List.flatMap_eq_nil_iff]
          intro field hField
          rw [hFields] at hField
          cases hRegs : field.registers with
          | none => rfl
          | some regs => rw [hEmpty field hField regs hRegs]; rfl
        · rfl
      have hMarked : ∀ name : Nat × Nat, (map.types name.1).regUsed name.2 = true →
          (found name.1).regUsed name.2 = true := by
        intro name hMarked
        rw [hUsed]
        exact hMarked
      exact @MapInv.set map h index block _ hBlock found hBases
        (fun hBase => absurd hBase hAssigned) (h.small block hMem) [] [] [] (hNone block rfl)
        (hNone _ rfl) List.nodup_nil nofun hMarked

theorem checkedOf_set {block : MapBlock} {index : Nat} {field next : MapField}
    (hField : block.fields[index]? = some field) (hNone : field.registers = none)
    {regs : FieldRegisters} (hNext : next.registers = some regs) {base : Nat}
    (hBase : block.base = .assigned base) : ∃ before after,
      checkedOf block = before ++ after ∧
      checkedOf { block with fields := block.fields.set index next } =
        before ++ ((regs.reads ++ regs.writes).map (Prod.mk base) ++ after) := by
  obtain ⟨first, last, hFields, hSet⟩ := split_set hField next
  refine ⟨(first.flatMap fun field => ((field.registers.map fun regs =>
      regs.reads ++ regs.writes).getD []).map (Prod.mk base)),
    (last.flatMap fun field => ((field.registers.map fun regs =>
      regs.reads ++ regs.writes).getD []).map (Prod.mk base)), ?_, ?_⟩
  · simp [checkedOf, MapBlock.targets, hBase, hFields, hNone, List.map_flatMap, Function.comp_def]
  · simp [checkedOf, MapBlock.targets, hBase, hSet, hNext, List.map_flatMap, Function.comp_def]

theorem MapInv.fieldRegisters {context : LoadContext} {map : RegisterMap} (h : MapInv map)
    {index place : Nat} {block : MapBlock} (hBlock : map.blocks[index]? = some block)
    {field next : MapField} (hField : block.fields[place]? = some field) {line : Text}
    {types : Nat → BlockType}
    (hNext : fieldParseRegisters context map.types block field line = .ok (next, types)) :
    MapInv { types := types
             blocks := map.blocks.set index { block with fields := block.fields.set place next } } := by
  have hMem := List.mem_of_getElem? hBlock
  unfold fieldParseRegisters at hNext
  split at hNext
  · exact absurd hNext (by simp)
  · next hUnset =>
      have hNone : field.registers = none := by simpa using hUnset
      obtain ⟨⟨regs, marked, line⟩, hParse, hNext⟩ := exists_of_bind_eq_ok hNext
      obtain ⟨_, _, hNext⟩ := exists_of_bind_eq_ok hNext
      obtain ⟨rfl, rfl⟩ : _ = next ∧ setUsed map.types block.base marked = types := by
        simpa using hNext
      obtain ⟨hFresh, hSmall, hExtension⟩ := parseRegister_ok hParse
      have hFields : ∀ other ∈ block.fields.set place { field with registers := some regs },
          ∀ found, other.registers = some found →
            other ∈ block.fields ∨ found = regs := by
        intro other hOther found hFound
        rcases List.mem_or_eq_of_mem_set hOther with hOld | rfl
        · exact .inl hOld
        · exact .inr (Option.some.inj hFound).symm
      have hBounds : ∀ other ∈ block.fields.set place { field with registers := some regs },
          ∀ found, other.registers = some found →
            ∀ reg ∈ found.reads ++ found.writes ++ found.extension, reg < blockRegisterCount := by
        intro other hOther found hFound reg hReg
        rcases hFields other hOther found hFound with hOld | rfl
        · exact h.small block hMem other hOld found hFound reg hReg
        · rcases List.mem_append.mp hReg with hChecked | hOther
          · exact (hFresh.unused reg hChecked).2
          · exact hSmall reg hOther
      have hBases : ∀ base, block.base = .assigned base → base < blockTypeCount := h.bases block hMem
      by_cases hAssigned : ∃ base, block.base = .assigned base
      · obtain ⟨base, hBase⟩ := hAssigned
        have hMarks : setUsed map.types block.base marked =
            Function.update map.types base { map.types base with regUsed := marked } := by
          rw [hBase]
          rfl
        have hUsedOf : usedOf map.types block.base = (map.types base).regUsed := by
          rw [hBase]
          rfl
        rw [hUsedOf] at hFresh
        obtain ⟨before, after, hOld, hNew⟩ := checkedOf_set hField hNone
          (rfl : MapField.registers { field with registers := some regs } = some regs) hBase
        rw [hMarks]
        refine h.set hBlock hBases (fun hBare => absurd (hBase.symm.trans hBare) (by simp)) hBounds
          hOld hNew (hFresh.nodup.map fun _ _ hSame => (Prod.mk.inj hSame).2) ?_ ?_
        · intro name hName
          obtain ⟨reg, hReg, rfl⟩ := List.mem_map.mp hName
          refine ⟨(hFresh.unused reg hReg).1, ?_⟩
          simp only [Function.update_self]
          exact (hFresh.marked reg).mpr (.inr hReg)
        · intro name hUsed
          by_cases hSame : name.1 = base
          · rw [hSame] at hUsed
            simp only [hSame, Function.update_self]
            exact (hFresh.marked name.2).mpr (.inl hUsed)
          · simp only [Function.update_of_ne hSame]
            exact hUsed
      · have hMarks : setUsed map.types block.base marked = map.types := by
          unfold setUsed
          split
          · next base hBase => exact absurd ⟨base, hBase⟩ hAssigned
          · rfl
        have hNoChecked : ∀ other : MapBlock, other.base = block.base → checkedOf other = [] := by
          intro other hSame
          unfold checkedOf MapBlock.targets
          split
          · next base hBase => exact absurd ⟨base, hSame.symm.trans hBase⟩ hAssigned
          · rfl
        have hEmpty : regs.reads ++ regs.writes = [] := by
          by_contra hSome
          exact hAssigned (hFresh.assigned hSome)
        rw [hMarks]
        refine @MapInv.set map h index block _ hBlock _ hBases ?_ hBounds [] [] []
          (hNoChecked block rfl) (hNoChecked _ rfl) List.nodup_nil (List.forall_mem_nil _)
          fun _ hUsed => hUsed
        intro hBase
        obtain ⟨hBare, hOthers⟩ := h.bare block hMem hBase
        refine ⟨hBare, fun other hOther found hFound => ?_⟩
        rcases hFields other hOther found hFound with hOld | rfl
        · exact hOthers other hOld found hFound
        · have hNoExtension : found.extension = [] := by
            by_contra hSome
            rw [hExtension hSome] at hBare
            exact absurd hBare (by simp)
          obtain ⟨reads, writes, extension⟩ := found
          simp_all

theorem MapInv.loadLine {context : LoadContext} {map next : RegisterMap} (h : MapInv map)
    {line : MapLine} (hNext : map.loadLine context line = .ok next) : MapInv next := by
  cases line with
  | createBlock name count => exact h.createBlock hNext
  | createField block name fieldClass =>
      simp only [RegisterMap.loadLine] at hNext
      split at hNext
      · next found hFound =>
          obtain ⟨changed, hChanged, hOk⟩ := exists_of_bind_eq_ok hNext
          obtain rfl := Except.ok.inj hOk
          exact h.createField hFound hChanged
      · exact absurd hNext (by simp)
  | setRegister block line =>
      simp only [RegisterMap.loadLine] at hNext
      split at hNext
      · next found hFound =>
          obtain ⟨⟨changed, types⟩, hChanged, hOk⟩ := exists_of_bind_eq_ok hNext
          obtain rfl := Except.ok.inj hOk
          exact h.setRegister hFound hChanged
      · exact absurd hNext (by simp)
  | fieldRegisters block field line =>
      simp only [RegisterMap.loadLine] at hNext
      split at hNext
      · next found hFound =>
          split at hNext
          · next entry hEntry =>
              obtain ⟨⟨changed, types⟩, hChanged, hOk⟩ := exists_of_bind_eq_ok hNext
              obtain rfl := Except.ok.inj hOk
              exact h.fieldRegisters hFound hEntry hChanged
          · exact absurd hNext (by simp)
      · exact absurd hNext (by simp)

theorem MapInv.load {context : LoadContext} {lines : List MapLine} {map : RegisterMap}
    (h : RegisterMap.load context lines = .ok map) : MapInv map := by
  have hFrom : ∀ (lines : List MapLine) (first : RegisterMap), MapInv first →
      lines.foldlM (RegisterMap.loadLine context) first = .ok map → MapInv map := by
    intro lines
    induction lines with
    | nil =>
        intro first hFirst hOk
        obtain rfl := Except.ok.inj hOk
        exact hFirst
    | cons line rest ih =>
        intro first hFirst hOk
        rw [List.foldlM_cons] at hOk
        obtain ⟨next, hNext, hRest⟩ := exists_of_bind_eq_ok hOk
        exact ih next (hFirst.loadLine hNext) hRest
  exact hFrom lines _ MapInv.empty h

/-! ### Collisions -/

theorem mem_targets {block : MapBlock} {registers : FieldRegisters → List Nat}
    {target : RegisterTarget} (h : target ∈ block.targets registers) :
    block.base = .assigned target.base ∧ ∃ field ∈ block.fields, ∃ regs,
      field.registers = some regs ∧ target.reg ∈ registers regs := by
  unfold MapBlock.targets at h
  split at h
  · next base hBase =>
      obtain ⟨field, hField, hTarget⟩ := List.mem_flatMap.mp h
      obtain ⟨reg, hReg, rfl⟩ := List.mem_map.mp hTarget
      refine ⟨hBase, field, hField, ?_⟩
      cases hRegs : field.registers with
      | none => simp [hRegs] at hReg
      | some regs => exact ⟨regs, rfl, by simpa [hRegs] using hReg⟩
  · exact absurd h List.not_mem_nil

theorem MapInv.target_lt {map : RegisterMap} (h : MapInv map) {target : RegisterTarget}
    (hTarget : target ∈ map.allTargets) :
    target.base < blockTypeCount ∧ target.reg < blockRegisterCount := by
  obtain ⟨block, hBlock, hMem⟩ := List.mem_flatMap.mp hTarget
  obtain ⟨hBase, field, hField, regs, hRegs, hReg⟩ := mem_targets hMem
  refine ⟨h.bases block hBlock _ hBase, h.small block hBlock field hField regs hRegs _ ?_⟩
  rw [List.append_assoc]
  exact List.mem_append_right _ hReg

theorem flatMap_sublist {Item Result : Type} {first second : Item → List Result}
    (h : ∀ item, (first item).Sublist (second item)) (items : List Item) :
    (items.flatMap first).Sublist (items.flatMap second) := by
  induction items with
  | nil => exact List.Sublist.refl _
  | cons item rest ih =>
      rw [List.flatMap_cons, List.flatMap_cons]
      exact (h item).append ih

theorem targets_sublist {first second : FieldRegisters → List Nat}
    (h : ∀ regs, (first regs).Sublist (second regs)) (block : MapBlock) :
    (block.targets first).Sublist (block.targets second) := by
  unfold MapBlock.targets
  split
  · refine flatMap_sublist (fun field => List.Sublist.map _ ?_) _
    cases field.registers with
    | none => exact List.Sublist.refl _
    | some regs => exact h regs
  · exact List.Sublist.refl _

theorem MapInv.writes_apart {map : RegisterMap} (h : MapInv map) :
    map.writeTargets.Pairwise fun target other =>
      (target.base, target.reg) ≠ (other.base, other.reg) := by
  have hSublist : map.writeTargets.Sublist map.checkedTargets :=
    flatMap_sublist (targets_sublist fun _ => List.sublist_append_right _ _) _
  exact (List.pairwise_map.mp h.nodup).sublist hSublist

theorem writeTargets_subset (map : RegisterMap) : map.writeTargets ⊆ map.allTargets :=
  (flatMap_sublist (targets_sublist fun _ => List.sublist_append_left _ _) _).subset

/-- What the register area owes to the registers that are written: two registers of fields in
whatever instances have two offsets inside the area, and two registers that extensions share are
the only ones with one. -/
structure Apart (map : RegisterMap) : Prop where
  nodup : map.writeOffsets.Nodup
  inside : ∀ offset ∈ map.writeOffsets, offset < 2 ^ 15
  same : ∀ target ∈ map.allTargets, ∀ other ∈ map.allTargets, ∀ number < target.count,
    ∀ place < other.count,
      makeOffset target.base number target.reg = makeOffset other.base place other.reg →
        target.base = other.base ∧ target.reg = other.reg ∧ number = place

end RegisterMap

open RegisterMap in
/-- In the files that load, offsets collide exactly when a block that has a written register has
more instances than `make_offset` has bits for. -/
theorem register_offsets_apart_iff {context : LoadContext} {lines : List MapLine}
    {map : RegisterMap} (h : RegisterMap.load context lines = .ok map) :
    Apart map ↔ ∀ target ∈ map.allTargets, target.count ≤ blockInstanceCount := by
  have hInv := MapInv.load h
  constructor
  · intro hApart target hTarget
    by_contra hMany
    obtain ⟨hBase, hReg⟩ := hInv.target_lt hTarget
    have hSame := hApart.same target hTarget target hTarget 0 (by omega) blockInstanceCount (by omega)
      ((makeOffset_inj hBase hBase hReg hReg).mpr ⟨rfl, by simp, rfl⟩)
    exact absurd hSame.2.2 (by decide)
  · intro hFew
    refine ⟨?_, ?_, ?_⟩
    · refine List.nodup_flatMap.mpr ⟨fun target hTarget => ?_, ?_⟩
      · have hAll := writeTargets_subset map hTarget
        obtain ⟨hBase, hReg⟩ := hInv.target_lt hAll
        exact (nodup_instances hBase hReg).mpr (hFew target hAll)
      · refine hInv.writes_apart.imp_of_mem fun {target other} hTarget hOther hNe => ?_
        obtain ⟨hBase, hReg⟩ := hInv.target_lt (writeTargets_subset map hTarget)
        obtain ⟨hBase', hReg'⟩ := hInv.target_lt (writeTargets_subset map hOther)
        intro offset hFirst hSecond
        obtain ⟨number, _, rfl⟩ := List.mem_map.mp hFirst
        obtain ⟨place, _, hSame⟩ := List.mem_map.mp hSecond
        obtain ⟨hBases, _, hRegs⟩ := (makeOffset_inj hBase' hBase hReg' hReg).mp hSame
        exact hNe (by rw [hBases, hRegs])
    · intro offset hOffset
      obtain ⟨target, _, hMem⟩ := List.mem_flatMap.mp hOffset
      obtain ⟨number, _, rfl⟩ := List.mem_map.mp hMem
      exact makeOffset_lt _ _ _
    · intro target hTarget other hOther number hNumber place hPlace hSame
      obtain ⟨hBase, hReg⟩ := hInv.target_lt hTarget
      obtain ⟨hBase', hReg'⟩ := hInv.target_lt hOther
      obtain ⟨hBases, hBits, hRegs⟩ := (makeOffset_inj hBase hBase' hReg hReg').mp hSame
      have hFirst := hFew target hTarget
      have hSecond := hFew other hOther
      rw [Nat.mod_eq_of_lt (by omega), Nat.mod_eq_of_lt (by omega)] at hBits
      exact ⟨hBases, hRegs, hBits⟩

/-- No extension server, no tables and no output fields. -/
def plainContext : LoadContext where
  width := 64
  extensionBlock := fun _ _ => .error "No extension server"
  extensionField := fun _ _ => .error "No extension server"
  openTable := fun _ _ => .error "No such table"
  busIndices := fun _ _ _ => .error "No such bus"

/-- One block with one parameter in register 1 of base 2. -/
def oneParamFile (count : Nat) : List MapLine :=
  [.createBlock "A" count, .createField 0 "P" .param, .setRegister 0 ['2'],
    .fieldRegisters 0 0 ['1']]

def oneParamMap (count : Nat) : RegisterMap :=
  (RegisterMap.load plainContext (oneParamFile count)).toOption.getD RegisterMap.empty

theorem sixteen_instances_apart :
    RegisterMap.load plainContext (oneParamFile 16) = .ok (oneParamMap 16) ∧
    RegisterMap.Apart (oneParamMap 16) := by
  have hLoad : RegisterMap.load plainContext (oneParamFile 16) = .ok (oneParamMap 16) := rfl
  exact ⟨hLoad, (register_offsets_apart_iff hLoad).mpr (by decide)⟩

/-- Seventeen instances are accepted, and the last one has the register of the first. -/
theorem seventeen_instances_collide :
    RegisterMap.load plainContext (oneParamFile 17) = .ok (oneParamMap 17) ∧
    ⟨2, 1, 17⟩ ∈ (oneParamMap 17).writeTargets ∧ makeOffset 2 0 1 = makeOffset 2 16 1 ∧
    ¬ (oneParamMap 17).writeOffsets.Nodup := by
  refine ⟨rfl, ?_, ?_, ?_⟩
  · decide
  · decide
  · decide

end Server
