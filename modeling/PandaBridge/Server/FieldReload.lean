import Mathlib.Data.List.Flatten
import PandaBridge.Server.FieldSound
import PandaBridge.Server.TimeRoundTrip
import PandaBridge.Transition.System

/-! Reports of a field put back. What a field and its attributes report for the state file is put
into a new field; the exact condition for it to be accepted is proved for every class. -/
namespace Server.Fields

variable {platform : Platform}

/-! ### Reports put back -/

/-- What a line is about: the value, or an attribute. -/
abbrev Slot := Option AttrName

/-- What is saved of a slot: its text, or a mark for the error that there was instead. -/
structure SavedLine where
  slot : Slot
  report : Except String Text

section Lines

variable (lookups : Lookups) (readOnly : Bool) (number : Nat) (cls : FieldClass platform)

def putSlot (values : Values cls) (string : Text) : Slot → Values cls × Option String
  | none => classPut lookups readOnly number cls values string
  | some attr => attrPut lookups number cls values string attr

/-- The commands that clients send to an instance, each a text for a slot of it. -/
def putSystem : Transition.System (Values cls) (Text × Slot) := fun values put =>
  some (putSlot lookups readOnly number cls values put.1 put.2).1

/-- A mark is no command. -/
def loadLine (values : Values cls) (line : SavedLine) : Values cls × Option String :=
  match line.report with
  | .error _ => (values, some "Malformed line")
  | .ok string => putSlot lookups readOnly number cls values string line.slot

def loadSystem : Transition.System (Values cls) SavedLine := fun values line =>
  some (loadLine lookups readOnly number cls values line).1

def Accepted (values : Values cls) (line : SavedLine) : Prop :=
  (loadLine lookups readOnly number cls values line).2 = none

variable (room : Slot → Nat)

def reportSlot (values : Values cls) : Slot → Option (Except String Text)
  | none => classReport lookups (room none) cls values
  | some attr => attrReport (room (some attr)) cls values attr

def savedLine (saved : Values cls) (slot : Slot) : Option SavedLine :=
  (reportSlot lookups cls room saved slot).map (SavedLine.mk slot)

/-- What is saved of an instance, with its attributes in this order. -/
def savedLines (attrs : List AttrName) (saved : Values cls) : List SavedLine :=
  (attrs.map some).filterMap (savedLine lookups cls room saved) ++
    (savedLine lookups cls room saved none).toList

/-- The lines are accepted one after another. -/
def AllAccepted (lines : List SavedLine) (values : Values cls) : Prop :=
  (loadSystem lookups readOnly number cls).Guarded (Accepted lookups readOnly number cls) lines
    values

/-- What is saved of an instance is accepted by a new one, without an error. -/
def Loads (attrs : List AttrName) (saved found : Values cls) : Prop :=
  AllAccepted lookups readOnly number cls (savedLines lookups cls room attrs saved) found

/-- The values of a class that are accepted: that of a register has a text that is read back and is
not refused, a number is one once its text is read, a selection has a name, and there is no table,
for the mode of a table is saved and cannot be put. -/
def Reloads : (cls : FieldClass platform) → Values cls → Prop
  | .register .param type _ extension, field =>
      readOnly = false ∧ ∃ value ∈ reloaded (room none) type field.state field.value,
        writeRegister extension number value = none
  | .time, field =>
      (platform.reread (scaledTime platform field.value field.unit)).bind
        (ticksOf platform field.unit maxClockValue) ≠ none
  | .posOut _ _ _, field =>
      platform.reread field.scale ≠ none ∧ platform.reread field.offset ≠ none ∧
        (field.units.getD []).length < room (some .units)
  | .bitMux _, field => lookups.bitMux.names.indexToName field.value ≠ none
  | .table _, _ => False
  | .register .read _ _ _, _ | .register .write _ _ _, _ | .bitOut, _ | .extOut, _ | .posMux, _ =>
      True

end Lines

section Lines

variable {lookups : Lookups} {readOnly : Bool} {number : Nat} {cls : FieldClass platform}
  {room : Slot → Nat}

theorem ValuesSound.putSlot (hFits : ClassFits cls) {values : Values cls}
    (hSound : ValuesSound lookups cls values) {string : Text} (hLine : OneLine string) (slot : Slot) :
    ValuesSound lookups cls (putSlot lookups readOnly number cls values string slot).1 := by
  cases slot with
  | none => exact hSound.classPut hFits hLine
  | some attr => exact hSound.attrPut hLine attr

theorem allAccepted_cons {line : SavedLine} {rest : List SavedLine} {values : Values cls} :
    AllAccepted lookups readOnly number cls (line :: rest) values ↔
      Accepted lookups readOnly number cls values line ∧
        AllAccepted lookups readOnly number cls rest
          (loadLine lookups readOnly number cls values line).1 :=
  and_congr_right fun _ => by simp only [loadSystem, Option.mem_def, Option.some.injEq, forall_eq',
    AllAccepted]

theorem allAccepted_single {line : SavedLine} {values : Values cls} :
    AllAccepted lookups readOnly number cls [line] values ↔
      Accepted lookups readOnly number cls values line := by
  rw [allAccepted_cons]
  exact and_iff_left trivial

/-- Lines that are accepted or refused whatever is kept, by what they are about. -/
theorem loads_iff_slots {attrs : List AttrName} (hAttrs : attrs.Perm (classAttrs cls))
    {saved : Values cls} (accepted : Slot → Prop)
    (h : ∀ slot report, reportSlot lookups cls room saved slot = some report → ∀ values,
      Accepted lookups readOnly number cls values ⟨slot, report⟩ ↔ accepted slot)
    (found : Values cls) :
    Loads lookups readOnly number cls room attrs saved found ↔
      ∀ slot, (slot = none ∨ ∃ attr ∈ classAttrs cls, slot = some attr) →
        reportSlot lookups cls room saved slot ≠ none → accepted slot := by
  have hLine : ∀ slot line, savedLine lookups cls room saved slot = some line ↔
      slot = line.slot ∧ reportSlot lookups cls room saved line.slot = some line.report := by
    intro slot line
    rw [savedLine, Option.map_eq_some_iff]
    constructor
    · rintro ⟨report, hReport, rfl⟩
      exact ⟨rfl, hReport⟩
    · rintro ⟨rfl, hReport⟩
      exact ⟨_, hReport, rfl⟩
  have hMem : ∀ line, line ∈ savedLines lookups cls room attrs saved ↔
      (line.slot = none ∨ ∃ attr ∈ classAttrs cls, line.slot = some attr) ∧
        reportSlot lookups cls room saved line.slot = some line.report := by
    intro line
    simp only [savedLines, List.mem_append, List.mem_filterMap, Option.mem_toList, List.mem_map,
      hLine, hAttrs.mem_iff]
    constructor
    · rintro (⟨slot, ⟨attr, hAttr, rfl⟩, hSlot, hReport⟩ | ⟨hSlot, hReport⟩)
      · exact ⟨.inr ⟨attr, hAttr, hSlot.symm⟩, hReport⟩
      · exact ⟨.inl hSlot.symm, hReport⟩
    · rintro ⟨hSlot | ⟨attr, hAttr, hSlot⟩, hReport⟩
      · exact .inr ⟨hSlot.symm, hReport⟩
      · exact .inl ⟨_, ⟨attr, hAttr, rfl⟩, hSlot.symm, hReport⟩
  have hAll : ∀ lines values,
      (∀ line ∈ lines, reportSlot lookups cls room saved line.slot = some line.report) →
        (AllAccepted lookups readOnly number cls lines values ↔
          ∀ line ∈ lines, accepted line.slot) := by
    intro lines
    induction lines with
    | nil => exact fun _ _ => iff_of_true trivial (by simp)
    | cons line rest ih =>
        intro values hReports
        obtain ⟨hReport, hRest⟩ := List.forall_mem_cons.mp hReports
        rw [allAccepted_cons, h _ _ hReport, ih _ hRest, List.forall_mem_cons]
  rw [Loads, hAll _ _ fun line hLine => ((hMem line).mp hLine).2]
  constructor
  · intro hSaved slot hSlot hSome
    obtain ⟨report, hReport⟩ := Option.ne_none_iff_exists'.mp hSome
    exact hSaved ⟨slot, report⟩ ((hMem _).mpr ⟨hSlot, hReport⟩)
  · intro hSlots line hLine
    obtain ⟨hSlot, hReport⟩ := (hMem line).mp hLine
    exact hSlots _ hSlot (by rw [hReport]; exact Option.some_ne_none _)

theorem attrLines_units {attrs : List AttrName} (hAttrs : attrs.Perm (classAttrs cls))
    (hClass : classAttrs cls = [.raw, .units]) {saved : Values cls} {name : Text}
    (hRaw : reportSlot lookups cls room saved (some .raw) = none)
    (hUnits : reportSlot lookups cls room saved (some .units) = some (.ok name)) :
    (attrs.map some).filterMap (savedLine lookups cls room saved) = [⟨some .units, .ok name⟩] := by
  have hLines := (hAttrs.map some).filterMap (savedLine lookups cls room saved)
  have hRawLine : savedLine lookups cls room saved (some .raw) = none := by
    rw [savedLine, hRaw]
    rfl
  have hUnitsLine : savedLine lookups cls room saved (some .units) =
      some ⟨some .units, .ok name⟩ := by
    rw [savedLine, hUnits]
    rfl
  rw [hClass, List.map_cons, List.map_singleton, List.filterMap_cons_none hRawLine,
    List.filterMap_cons_some hUnitsLine, List.filterMap_nil] at hLines
  exact List.perm_singleton.mp hLines

theorem formatString_ok {text result : Text} {size : Nat} (h : formatString size text = .ok result) :
    result = text := by
  unfold formatString at h
  split_ifs at h
  exact (Except.ok.inj h).symm

theorem nameToIndex_of_format {enumeration : Enumeration} {size value : Nat} {text : Text}
    (h : enumeration.format size value = .ok text) : enumeration.nameToIndex text = some value := by
  unfold Enumeration.format at h
  cases hLabel : enumeration.indexToName value with
  | none => simp [hLabel] at h
  | some label =>
      rw [hLabel] at h
      obtain rfl := formatString_ok h
      exact Enumeration.nameToIndex_of_indexToName hLabel

theorem MuxLookup.format_eq (lookup : MuxLookup) {size value : Nat} (hSize : 64 ≤ size) :
    lookup.names.format size value = match lookup.names.indexToName value with
      | none => .error "No label for value"
      | some label => .ok label := by
  unfold Enumeration.format
  cases hLabel : lookup.names.indexToName value with
  | none => rfl
  | some label =>
      obtain ⟨entry, hFound, rfl⟩ := Option.map_eq_some_iff.mp hLabel
      have hShort := lookup.short entry (List.mem_of_find?_eq_some hFound)
      have hName : maxNameLength = 32 := rfl
      exact formatString_of_lt (by omega)

theorem sharedUnits_text (unit : TimeUnit) : unit.name.length < 64 ∧
    sharedUnitsParse unit.name = .ok unit := by
  cases unit with
  | minutes => exact ⟨by decide, rfl⟩
  | seconds => exact ⟨by decide, rfl⟩
  | milliseconds => exact ⟨by decide, rfl⟩
  | microseconds => exact ⟨by decide, rfl⟩

theorem sharedUnitsFormat_eq {size : Nat} (hSize : 64 ≤ size) (unit : TimeUnit) :
    sharedUnitsFormat size unit = .ok unit.name :=
  formatString_of_lt ((sharedUnits_text unit).1.trans_le hSize)

/-- A register takes what the whole of a text says, if it is not refused. -/
theorem basePut_accepts {type : FieldType platform} {extension : Option Extension}
    {field : RegisterField type} {string : Text} :
    (basePut readOnly .param extension number field string).2 = none ↔
      readOnly = false ∧ ∃ value ∈ wholeLine (typeParse type field.state) string,
        writeRegister extension number value = none := by
  rw [← typePut_value]
  unfold basePut
  cases readOnly with
  | true => simp
  | false =>
      obtain ⟨state, parsed⟩ := typePut type field.state string
      cases parsed with
      | error message => simp [Except.toOption]
      | ok value =>
          cases hWrite : writeRegister extension number value with
          | some message => simp [Except.toOption, writeTypeRegister, hWrite]
          | none => simp [Except.toOption, writeTypeRegister, hWrite]

theorem stored_accepts {State Value : Type} {state : State} {update : Value → State}
    {parsed : Except String Value} :
    (stored state update parsed).2 = none ↔ parsed.toOption ≠ none := by
  cases parsed with
  | error message => simp [stored, Except.toOption]
  | ok value => simp [stored, Except.toOption]

/-- A number is accepted if its text is one. -/
theorem stored_parseDouble {State : Type} (state : State) (update : platform.Double → State)
    (number : platform.Double) :
    (stored state update (parseWhole platform.parseDouble
      (skipWhitespace (platform.printDouble number)))).2 = none ↔
        platform.reread number ≠ none := by
  rw [stored_accepts, parseWhole_toOption]
  rfl

theorem formatCaptures_room {size mask : Nat} {options : List (Nat × Text)} {formatted : Text}
    (h : formatted.length + (spacedOptions options).length + 1 < size) :
    ∃ text, formatCaptures size mask options formatted = .ok text := by
  induction options generalizing formatted with
  | nil => exact ⟨_, rfl⟩
  | cons entry rest ih =>
      obtain ⟨place, option⟩ := entry
      have hLength : (spacedOptions ((place, option) :: rest)).length =
          1 + option.length + (spacedOptions rest).length := by
        simp only [spacedOptions, List.flatMap_cons, List.length_append, List.length_cons]
        omega
      rw [formatCaptures]
      by_cases hBit : mask.testBit place = true
      · rw [if_pos hBit]
        simp only
        generalize hSeparator : (if formatted = [] then ([] : Text) else [' ']) = separator
        have hShort : separator.length ≤ 1 := by
          rw [← hSeparator]
          split_ifs
          · exact Nat.zero_le _
          · exact Nat.le_refl _
        rw [if_pos (by omega)]
        refine ih ?_
        simp only [List.length_append]
        omega
      · rw [if_neg hBit]
        exact ih (by omega)

theorem formatCaptureString_room {size : Nat} (hSize : 64 ≤ size) (mask : Nat) :
    ∃ text, formatCaptureString size mask = .ok text := by
  refine formatCaptures_room ?_
  have hLength : (spacedOptions captureOptions).length = 35 := rfl
  rw [hLength, List.length_nil]
  omega

end Lines

/-! ### The classes -/

section Classes

variable {lookups : Lookups} {readOnly : Bool} {number : Nat} {room : Slot → Nat}
  (hRoom : ∀ slot, 64 ≤ room slot)

include hRoom

/-- The attributes of a register are accepted, and leave it with the units that are saved. -/
theorem register_attrs_load {kind : RegisterKind} {type : FieldType platform}
    {default : Fin (2 ^ 32)} {extension : Option Extension} {attrs : List AttrName}
    (hAttrs : attrs.Perm (classAttrs (.register kind type default extension)))
    (saved found : RegisterField type) :
    ∃ next : RegisterField type, typeUnits type next.state = typeUnits type saved.state ∧
      ∀ rest, AllAccepted lookups readOnly number (.register kind type default extension)
          ((attrs.map some).filterMap
            (savedLine lookups (.register kind type default extension) room saved) ++ rest) found ↔
        AllAccepted lookups readOnly number (.register kind type default extension) rest next := by
  have hNone : (∀ attr ∈ attrs, typeAttrReport (room (some attr)) type saved.state attr = none) →
      (attrs.map some).filterMap
        (savedLine lookups (.register kind type default extension) room saved) = [] := by
    intro hReports
    rw [List.filterMap_eq_nil_iff]
    intro slot hSlot
    obtain ⟨attr, hAttr, rfl⟩ := List.mem_map.mp hSlot
    have hReport : reportSlot lookups (.register kind type default extension) room saved (some attr) =
        none := hReports attr hAttr
    rw [savedLine, hReport]
    rfl
  cases type with
  | time =>
      have hUnits : reportSlot lookups (.register kind .time default extension) room saved
          (some .units) = some (.ok saved.state.name) :=
        congrArg some (sharedUnitsFormat_eq (hRoom _) saved.state)
      have hLines := attrLines_units hAttrs rfl rfl hUnits
      have hLoad : loadLine lookups readOnly number (.register kind .time default extension) found
          ⟨some .units, .ok saved.state.name⟩ = ({ found with state := saved.state }, none) := by
        change stored found (fun unit => { found with state := unit })
          (sharedUnitsParse saved.state.name) = _
        rw [(sharedUnits_text saved.state).2]
        rfl
      refine ⟨{ found with state := saved.state }, rfl, fun rest => ?_⟩
      rw [hLines, List.singleton_append, allAccepted_cons, Accepted, hLoad]
      exact and_iff_right rfl
  | _ =>
      refine ⟨found, rfl, fun rest => ?_⟩
      rw [hNone fun attr _ => rfl, List.nil_append]

theorem register_loads_iff {kind : RegisterKind} {type : FieldType platform} {default : Fin (2 ^ 32)}
    {extension : Option Extension} {attrs : List AttrName}
    (hAttrs : attrs.Perm (classAttrs (.register kind type default extension)))
    {saved found : RegisterField type} (hSound : saved.Sound) :
    Loads lookups readOnly number (.register kind type default extension) room attrs saved found ↔
      Reloads lookups readOnly number room (.register kind type default extension) saved := by
  obtain ⟨next, hUnits, hLoad⟩ := @register_attrs_load platform lookups readOnly number room hRoom
    kind type default extension attrs hAttrs saved found
  rw [Loads, savedLines, hLoad]
  cases kind with
  | read => exact iff_of_true trivial trivial
  | write => exact iff_of_true trivial trivial
  | param =>
      have hRoomValue := hRoom none
      have hReloaded := @reloaded_eq platform (room none) saved.value (by omega) hSound.value type
        saved.state next.state hSound.state hUnits
      change AllAccepted lookups readOnly number (.register .param type default extension)
        [⟨none, typeFormat (room none) type saved.state saved.value⟩] next ↔ _
      rw [allAccepted_single, Accepted, loadLine, Reloads]
      cases hText : typeFormat (room none) type saved.state saved.value with
      | error message =>
          rw [hText] at hReloaded
          have hRefused : reloaded (room none) type saved.state saved.value = none := hReloaded.symm
          simp [hRefused]
      | ok text =>
          rw [hText] at hReloaded
          have hRead : wholeLine (typeParse type next.state) text = _ := hReloaded
          change (basePut readOnly .param extension number next text).2 = none ↔ _
          rw [basePut_accepts, hRead]

theorem time_loads_iff {attrs : List AttrName}
    (hAttrs : attrs.Perm (classAttrs (.time : FieldClass platform))) {saved found : TimeField} :
    Loads lookups readOnly number (.time : FieldClass platform) room attrs saved found ↔
      Reloads lookups readOnly number room (.time : FieldClass platform) saved := by
  have hUnits : reportSlot lookups (.time : FieldClass platform) room saved (some .units) =
      some (.ok saved.unit.name) :=
    congrArg some (sharedUnitsFormat_eq (hRoom _) saved.unit)
  have hLines := attrLines_units hAttrs rfl rfl hUnits
  have hValue : savedLine lookups (.time : FieldClass platform) room saved none =
      some ⟨none, .ok (skipWhitespace
        (platform.printDouble (scaledTime platform saved.value saved.unit)))⟩ := by
    have hRoomValue := hRoom none
    rw [savedLine, reportSlot, classReport, timeClassFormat, Platform.formatDouble_eq (by omega)]
    rfl
  have hLoad : loadLine lookups readOnly number (.time : FieldClass platform) found
      ⟨some .units, .ok saved.unit.name⟩ = ({ found with unit := saved.unit }, none) := by
    change stored found (fun unit => { found with unit }) (sharedUnitsParse saved.unit.name) = _
    rw [(sharedUnits_text saved.unit).2]
    rfl
  have hRead := parseWhole_toOption (timeClassParse platform saved.unit maxClockValue)
    (skipWhitespace (platform.printDouble (scaledTime platform saved.value saved.unit)))
  rw [timeClassParse, Platform.wholeLine_parseScaled] at hRead
  rw [Loads, savedLines, hLines, hValue, Option.toList_some, List.singleton_append, allAccepted_cons,
    allAccepted_single, Accepted, hLoad, and_iff_right rfl, Reloads, ← hRead, ← timeClassParse]
  change (@timePut platform { found with unit := saved.unit } _).2 = none ↔ _
  rw [timePut]
  generalize parseWhole (timeClassParse platform saved.unit maxClockValue)
    (skipWhitespace (platform.printDouble (scaledTime platform saved.value saved.unit))) = parsed
  cases parsed with
  | error message => simp [Except.toOption]
  | ok value => simp [Except.toOption]

/-- The lines of a position output that can be refused are those of its numbers and of its units. -/
def PosOutAccepted (room : Slot → Nat) (saved : PosOutput platform) : Slot → Prop
  | some .scale => platform.reread saved.scale ≠ none
  | some .offset => platform.reread saved.offset ≠ none
  | some .units => (saved.units.getD []).length < room (some .units)
  | _ => True

theorem posOut_loads_iff {scale offset : platform.Double} {units : Option UnitsText}
    {attrs : List AttrName} (hAttrs : attrs.Perm (classAttrs (.posOut scale offset units)))
    {saved found : PosOutput platform}
    (hSound : ValuesSound lookups (.posOut scale offset units) saved) :
    Loads lookups readOnly number (.posOut scale offset units) room attrs saved found ↔
      Reloads lookups readOnly number room (.posOut scale offset units) saved := by
  have hNumber : ∀ (slot : Slot) (number : platform.Double), platform.formatDouble (room slot) number =
      .ok (skipWhitespace (platform.printDouble number)) := fun slot number => by
    have hRoomSlot := hRoom slot
    exact Platform.formatDouble_eq (by omega) number
  have hSlot : ∀ attr ∈ classAttrs (.posOut scale offset units), (some attr : Slot) = none ∨
      ∃ other ∈ classAttrs (.posOut scale offset units), some attr = some other :=
    fun attr hAttr => .inr ⟨attr, hAttr, rfl⟩
  rw [loads_iff_slots hAttrs (PosOutAccepted room saved)]
  · constructor
    · intro hAll
      exact ⟨hAll (some .scale) (hSlot _ (by simp [classAttrs])) (Option.some_ne_none _),
        hAll (some .offset) (hSlot _ (by simp [classAttrs])) (Option.some_ne_none _),
        hAll (some .units) (hSlot _ (by simp [classAttrs])) (Option.some_ne_none _)⟩
    · rintro ⟨hScale, hOffset, hUnits⟩ slot - -
      cases slot with
      | none => trivial
      | some attr =>
          cases attr with
          | scale => exact hScale
          | offset => exact hOffset
          | units => exact hUnits
          | _ => trivial
  · intro slot report hReport values
    cases slot with
    | none => cases hReport
    | some attr =>
        cases attr with
        | scale =>
            obtain rfl := Option.some.inj ((congrArg some (hNumber _ _)).symm.trans hReport)
            exact stored_parseDouble _ _ _
        | offset =>
            obtain rfl := Option.some.inj ((congrArg some (hNumber _ _)).symm.trans hReport)
            exact stored_parseDouble _ _ _
        | units =>
            obtain rfl := Option.some.inj hReport
            have hUtf8 : utf8Check (saved.units.getD []) = [] := by
              cases hUnits : saved.units with
              | none => rfl
              | some text => exact (hSound.2 text hUnits).1
            change (loadLine lookups readOnly number (.posOut scale offset units) values
              ⟨some .units, formatString _ _⟩).2 = none ↔ _
            by_cases hShort : (saved.units.getD []).length < room (some .units)
            · rw [formatString_of_lt hShort]
              refine iff_of_true (stored_accepts.mpr ?_) hShort
              rw [parseUtf8String, if_pos hUtf8]
              exact Option.some_ne_none _
            · rw [formatString, if_neg hShort]
              exact iff_of_false (Option.some_ne_none _) hShort
        | capture =>
            obtain ⟨text, hText⟩ := formatCaptureString_room (hRoom (some .capture)) saved.captureMask
            obtain rfl := Option.some.inj ((congrArg some hText).symm.trans hReport)
            refine iff_of_true (stored_accepts.mpr ?_) trivial
            rw [posOutCapturePut_report hSound.1 hText]
            exact Option.some_ne_none _
        | _ => cases hReport

theorem extOut_loads {attrs : List AttrName}
    (hAttrs : attrs.Perm (classAttrs (.extOut : FieldClass platform))) (saved found : Bool) :
    Loads lookups readOnly number (.extOut : FieldClass platform) room attrs saved found := by
  rw [loads_iff_slots hAttrs fun _ => True]
  · exact fun _ _ _ => trivial
  · intro slot report hReport values
    have hName : (extOutCaptureName saved).length < 64 := by
      cases saved with
      | false => decide
      | true => decide
    cases slot with
    | none => cases hReport
    | some attr =>
        cases attr with
        | capture =>
            obtain rfl := Option.some.inj
              ((congrArg some (formatString_of_lt (hName.trans_le (hRoom _)))).symm.trans hReport)
            cases saved with
            | false => exact iff_of_true rfl trivial
            | true => exact iff_of_true rfl trivial
        | _ => cases hReport

/-- Of a bit multiplexer only the name of its input can be refused. -/
def BitMuxAccepted (names : Enumeration) (saved : BitMuxValue) : Slot → Prop
  | none => names.indexToName saved.value ≠ none
  | some _ => True

theorem bitMux_loads_iff {default : Fin (2 ^ 32)} {attrs : List AttrName}
    (hAttrs : attrs.Perm (classAttrs (.bitMux default : FieldClass platform)))
    {saved found : BitMuxValue} (hSound : saved.delay ≤ maxBitMuxDelay) :
    Loads lookups readOnly number (.bitMux default : FieldClass platform) room attrs saved found ↔
      Reloads lookups readOnly number room (.bitMux default : FieldClass platform) saved := by
  have hDelay : saved.delay < 2 ^ 32 := hSound.trans_lt (by decide)
  have hDigits := formatUint_length hDelay
  have hRoomDelay := hRoom (some .delay)
  rw [loads_iff_slots hAttrs (BitMuxAccepted lookups.bitMux.names saved)]
  · constructor
    · exact fun hAll => hAll none (.inl rfl) (Option.some_ne_none _)
    · intro hNamed slot _ _
      cases slot with
      | none => exact hNamed
      | some attr => trivial
  · intro slot report hReport values
    cases slot with
    | none =>
        obtain rfl := Option.some.inj hReport
        change (loadLine lookups readOnly number (.bitMux default : FieldClass platform) values
          ⟨none, lookups.bitMux.names.format (room none) saved.value⟩).2 = none ↔
            lookups.bitMux.names.indexToName saved.value ≠ none
        cases hText : lookups.bitMux.names.format (room none) saved.value with
        | error message =>
            have hNone : lookups.bitMux.names.indexToName saved.value = none := by
              rw [lookups.bitMux.format_eq (hRoom none)] at hText
              split at hText
              · assumption
              · cases hText
            exact iff_of_false (Option.some_ne_none _) fun hSome => hSome hNone
        | ok text =>
            have hIndex := nameToIndex_of_format hText
            refine iff_of_true ?_ fun hNone => ?_
            · simp only [loadLine, putSlot, classPut, hIndex]
            · rw [Enumeration.format, hNone] at hText
              cases hText
    | some attr =>
        cases attr with
        | delay =>
            have hText : formatString (room (some .delay)) (formatUint saved.delay) =
                .ok (formatUint saved.delay) := formatString_of_lt (by omega)
            obtain rfl := Option.some.inj ((congrArg some hText).symm.trans hReport)
            have hWhole : parseWhole (parseUint platform.width) (formatUint saved.delay) =
                .ok saved.delay := by
              rw [parseWhole, parseUint_formatUint platform.wide hDelay]
              rfl
            refine iff_of_true ?_ trivial
            change (bitMuxDelayPut platform.width values (formatUint saved.delay)).2 = none
            simp only [bitMuxDelayPut, hWhole, if_pos hSound]
        | _ => cases hReport

theorem posMux_loads {attrs : List AttrName}
    (hAttrs : attrs.Perm (classAttrs (.posMux : FieldClass platform))) {saved found : Nat}
    (hSound : lookups.posMux.names.indexToName saved ≠ none) :
    Loads lookups readOnly number (.posMux : FieldClass platform) room attrs saved found := by
  obtain ⟨label, hLabel⟩ := Option.ne_none_iff_exists'.mp hSound
  have hText : lookups.posMux.names.format (room none) saved = .ok label := by
    rw [lookups.posMux.format_eq (hRoom none), hLabel]
  rw [loads_iff_slots hAttrs fun _ => True]
  · exact fun _ _ _ => trivial
  · intro slot report hReport values
    cases slot with
    | none =>
        obtain rfl := Option.some.inj ((congrArg some hText).symm.trans hReport)
        refine iff_of_true ?_ trivial
        simp only [Accepted, loadLine, putSlot, classPut, nameToIndex_of_format hText]
    | some attr => cases hReport

omit hRoom in
theorem table_not_loads {shape : TableShape} {attrs : List AttrName}
    (hAttrs : attrs.Perm (classAttrs (.table shape : FieldClass platform)))
    (saved found : TableField) :
    ¬ Loads lookups readOnly number (.table shape : FieldClass platform) room attrs saved found := by
  rw [loads_iff_slots hAttrs fun _ => False]
  · exact fun hAll => hAll (some .mode) (.inr ⟨.mode, List.mem_cons_self, rfl⟩)
      (Option.some_ne_none _)
  · intro slot report hReport values
    refine iff_of_false ?_ id
    cases report with
    | error message => exact Option.some_ne_none _
    | ok text =>
        cases slot with
        | none => cases hReport
        | some attr => exact Option.some_ne_none _

/-- What is saved of an instance is accepted by a new one exactly when its class reloads it. -/
theorem loads_iff {cls : FieldClass platform} {attrs : List AttrName}
    (hAttrs : attrs.Perm (classAttrs cls)) {saved : Values cls} (hSound : ValuesSound lookups cls saved)
    (found : Values cls) : Loads lookups readOnly number cls room attrs saved found ↔
      Reloads lookups readOnly number room cls saved := by
  cases cls with
  | register kind type default extension => exact register_loads_iff hRoom hAttrs hSound
  | time => exact time_loads_iff hRoom hAttrs
  | bitOut =>
      obtain rfl := List.perm_nil.mp hAttrs
      exact iff_of_true trivial trivial
  | posOut scale offset units => exact posOut_loads_iff hRoom hAttrs hSound
  | extOut => exact iff_of_true (extOut_loads hRoom hAttrs _ _) trivial
  | bitMux default => exact bitMux_loads_iff hRoom hAttrs hSound
  | posMux => exact iff_of_true (posMux_loads hRoom hAttrs hSound) trivial
  | table shape => exact iff_of_false (table_not_loads hAttrs _ _) id

/-- After any commands of clients to an instance, accepted or refused, what is saved of it is
accepted by another one exactly when its class reloads it. -/
theorem saved_instance_reloads_iff {cls : FieldClass platform} (hFits : ClassFits cls)
    {attrs : List AttrName} (hAttrs : attrs.Perm (classAttrs cls)) {puts : List (Text × Slot)}
    (hLines : ∀ put ∈ puts, OneLine put.1) {saved : Values cls}
    (hRun : (putSystem lookups readOnly number cls).run puts (.initial cls) = some saved)
    (found : Values cls) : Loads lookups readOnly number cls room attrs saved found ↔
      Reloads lookups readOnly number room cls saved := by
  refine loads_iff hRoom hAttrs ?_ found
  have hSound := ValuesSound.initial lookups cls
  generalize Values.initial cls = values at hRun hSound
  induction puts generalizing values with
  | nil =>
      obtain rfl : values = saved := Option.some.inj hRun
      exact hSound
  | cons put puts ih =>
      obtain ⟨hLine, hRest⟩ := List.forall_mem_cons.mp hLines
      exact ih hRest _ hRun (hSound.putSlot hFits hLine put.2)

end Classes

/-- A bus of which only the end is named. -/
def zeroNames : Enumeration where
  entries := [(posBusZero, "ZERO".toList)]
  sorted := by decide
  distinct := by decide
  plain := by decide

def zeroLookups : Lookups where
  bitMux := { names := zeroNames, short := by decide }
  posMux := { names := zeroNames, short := by decide }
  zero := rfl
  stdDev := false

/-- One number is refused and the next one saved, which a new instance accepts. -/
theorem saved_instance_reloads_seven :
    let platform := exactPlatform 64 (by decide) (fun _ => .error "No lookup table") 125000000
    let cls : FieldClass platform := .register .param (.uint 10) 3 none
    Loads zeroLookups false 0 cls (fun _ => 64) [] ({ value := 7, state := () } : Values cls)
      (.initial cls) := by
  intro platform cls
  have hFits : ClassFits cls := show 10 < 2 ^ 32 by decide
  have hRun : (putSystem zeroLookups false 0 cls).run [("12".toList, none), ("7".toList, none)]
      (.initial cls) = some ({ value := 7, state := () } : Values cls) := by rfl
  have hLines : ∀ put ∈ [("12".toList, (none : Slot)), ("7".toList, none)],
      '\n' ∉ put.1 ∧ '\x00' ∉ put.1 := by decide
  exact (saved_instance_reloads_iff (fun _ => le_rfl) hFits (.refl []) hLines hRun _).mpr
    ⟨rfl, 7, rfl, rfl⟩

end Server.Fields
