import PandaBridge.Server.TypeText

/-! What is kept of a field after any puts: the numbers are those of a register, the text of a
lookup table is one for its value, and a mask of capture options is read from its own text. -/
namespace Server.Fields

variable {platform : Platform}

/-! ### Capture options -/

/-- The options of a mask, each after a space. -/
def spacedOptions (options : List (Nat × Text)) : Text := options.flatMap fun entry => ' ' :: entry.2

/-- The options of a mask that are in the list. -/
def chosenOptions (mask : Nat) (options : List (Nat × Text)) : List (Nat × Text) :=
  options.filter fun entry => mask.testBit entry.1

/-- What can stand in a mask: a standard deviation only if the hardware has it. -/
def CaptureMask (stdDev : Bool) (mask : Nat) : Prop :=
  mask < 2 ^ 7 ∧ (mask.testBit 6 = true → stdDev = true)

/-- An option has a name with at least three characters. -/
structure OptionName (name : Text) : Prop where
  long : 3 ≤ name.length
  short : name.length < maxNameLength
  chars : ∀ ch ∈ name, validNameChar ch = true

theorem optionName_of_mem : ∀ entry ∈ captureOptions, OptionName entry.2 := by
  have hAll : (captureOptions.all fun entry => decide (3 ≤ entry.2.length) &&
      decide (entry.2.length < maxNameLength) && entry.2.all validNameChar) = true := rfl
  intro entry hMem
  have hEntry := List.all_eq_true.mp hAll entry hMem
  simp only [Bool.and_eq_true, decide_eq_true_eq] at hEntry
  exact ⟨hEntry.1.1, hEntry.1.2, fun ch hChar => List.all_eq_true.mp hEntry.2 ch hChar⟩

theorem OptionName.skipWhitespace {name : Text} (hName : OptionName name) (rest : Text) :
    skipWhitespace (name ++ rest) = name ++ rest := by
  have hLong := hName.long
  cases name with
  | nil => simp at hLong
  | cons ch tail =>
      have hHead := hName.chars ch List.mem_cons_self
      refine List.dropWhile_cons_of_neg ?_
      intro hSpace
      have hBlank : ch = ' ' ∨ ch = '\t' := by simpa using hSpace
      rcases hBlank with rfl | rfl
      · exact absurd hHead (by decide)
      · exact absurd hHead (by decide)

theorem spacedOptions_head (options : List (Nat × Text)) :
    ∀ ch ∈ (spacedOptions options).head?, validNameChar ch = false := by
  cases options with
  | nil => simp [spacedOptions]
  | cons entry rest =>
      intro ch hMem
      obtain rfl : ' ' = ch := by simpa [spacedOptions] using hMem
      decide

/-- The loop writes the options it has written before and those that it chooses. -/
theorem formatCaptures_ok {room mask : Nat} {options written : List (Nat × Text)} {text : Text}
    (hWritten : ∀ entry ∈ written, entry.2 ≠ [])
    (hOptions : ∀ entry ∈ options, entry.2 ≠ [])
    (h : formatCaptures room mask options (spacedOptions written).tail = .ok text) :
    text = if written ++ chosenOptions mask options = [] then "No".toList
      else (spacedOptions (written ++ chosenOptions mask options)).tail := by
  have hEmpty : ∀ entries : List (Nat × Text), (∀ entry ∈ entries, entry.2 ≠ []) →
      ((spacedOptions entries).tail = [] ↔ entries = []) := by
    intro entries hEntries
    cases entries with
    | nil => simp [spacedOptions]
    | cons entry rest => simp [spacedOptions, hEntries entry List.mem_cons_self]
  induction options generalizing written with
  | nil =>
      rw [formatCaptures] at h
      obtain rfl := Except.ok.inj h
      simp only [chosenOptions, List.filter_nil, List.append_nil, hEmpty written hWritten]
  | cons entry rest ih =>
      obtain ⟨place, name⟩ := entry
      have hRest : ∀ entry ∈ rest, entry.2 ≠ [] := fun entry hMem =>
        hOptions entry (List.mem_cons_of_mem _ hMem)
      rw [formatCaptures] at h
      by_cases hBit : mask.testBit place = true
      · have hNext : (spacedOptions written).tail ++
            (if (spacedOptions written).tail = [] then [] else [' ']) ++ name =
              (spacedOptions (written ++ [(place, name)])).tail := by
          simp only [hEmpty written hWritten]
          cases written with
          | nil => simp [spacedOptions]
          | cons first others => simp [spacedOptions]
        rw [if_pos hBit] at h
        simp only at h
        generalize (if (spacedOptions written).tail = [] then ([] : Text) else [' ']) = separator
          at h hNext
        rw [hNext] at h
        split_ifs at h
        have hMore : ∀ entry ∈ written ++ [(place, name)], entry.2 ≠ [] := by
          intro entry hMem
          rcases List.mem_append.mp hMem with hOld | hNew
          · exact hWritten entry hOld
          · obtain rfl := List.mem_singleton.mp hNew
            exact hOptions _ List.mem_cons_self
        have hText := ih hMore hRest h
        rw [List.append_assoc, List.singleton_append] at hText
        rwa [chosenOptions, List.filter_cons_of_pos (by exact hBit)]
      · rw [if_neg hBit] at h
        rw [chosenOptions, List.filter_cons_of_neg (by exact hBit)]
        exact ih hWritten hRest h

theorem parseCaptures_spaced {stdDev : Bool} {options : List (Nat × Text)}
    (hOptions : ∀ entry ∈ options, OptionName entry.2)
    (hKnown : ∀ entry ∈ options, lookupCaptureOption stdDev entry.2 = .ok entry.1)
    {rounds : Nat} (hRounds : (spacedOptions options).length ≤ rounds + 1) (mask : Nat) :
    parseCaptures stdDev rounds (skipWhitespace (spacedOptions options)) mask =
      .ok (options.foldl (fun mask entry => mask ||| 2 ^ entry.1) mask) := by
  induction options generalizing rounds mask with
  | nil => rw [spacedOptions, List.flatMap_nil, skipWhitespace, List.dropWhile_nil, parseCaptures,
      List.foldl_nil]
  | cons entry rest ih =>
      have hName := hOptions entry List.mem_cons_self
      have hText : skipWhitespace (spacedOptions (entry :: rest)) =
          entry.2 ++ spacedOptions rest := hName.skipWhitespace _
      have hLength : (spacedOptions (entry :: rest)).length =
          1 + entry.2.length + (spacedOptions rest).length := by
        simp only [spacedOptions, List.flatMap_cons, List.length_append, List.length_cons]
        omega
      have hLong := hName.long
      obtain ⟨rounds, rfl⟩ : ∃ fewer, rounds = fewer + 1 := ⟨rounds - 1, by omega⟩
      have hFilled : entry.2 ≠ [] := List.ne_nil_of_length_pos (by omega)
      have hParse : parseName maxNameLength (entry.2 ++ spacedOptions rest) =
          .ok (entry.2, spacedOptions rest) :=
        parseFilteredName_append hFilled hName.short hName.chars (spacedOptions_head rest)
      obtain ⟨ch, tail, hCons⟩ := List.exists_cons_of_ne_nil
        (List.append_ne_nil_of_left_ne_nil hFilled (spacedOptions rest))
      rw [hText, hCons, parseCaptures, ← hCons, hParse]
      simp only [bind, Except.bind, hKnown entry List.mem_cons_self, List.foldl_cons]
      exact ih (fun other hMem => hOptions other (List.mem_cons_of_mem _ hMem))
        (fun other hMem => hKnown other (List.mem_cons_of_mem _ hMem)) (by omega) _

theorem foldl_chosenOptions : ∀ mask < 2 ^ 7,
    (chosenOptions mask captureOptions).foldl (fun mask entry => mask ||| 2 ^ entry.1) 0 = mask := by
  decide

theorem lookupCaptureOption_of_mem {stdDev : Bool} {entry : Nat × Text}
    (hMem : entry ∈ captureOptions) (hStdDev : entry.1 = 6 → stdDev = true) :
    lookupCaptureOption stdDev entry.2 = .ok entry.1 := by
  have hAll : ∀ stdDev : Bool, (captureOptions.all fun entry => (!stdDev && entry.1 == 6) ||
      (captureOptions.find? fun other => other.2 == entry.2 && (stdDev || other.1 != 6)) ==
        some entry) = true := by decide
  have hEntry := List.all_eq_true.mp (hAll stdDev) entry hMem
  have hFound : (captureOptions.find? fun other =>
      other.2 == entry.2 && (stdDev || other.1 != 6)) = some entry := by
    rcases (Bool.or_eq_true _ _).mp hEntry with hNone | hSome
    · have hBoth : stdDev = false ∧ entry.1 = 6 := by simpa using hNone
      rw [hStdDev hBoth.2] at hBoth
      exact absurd hBoth.1 (by decide)
    · simpa using hSome
  rw [lookupCaptureOption, hFound]

theorem lookupCaptureOption_ok {stdDev : Bool} {option : Text} {index : Nat}
    (h : lookupCaptureOption stdDev option = .ok index) :
    index < 7 ∧ (index = 6 → stdDev = true) := by
  unfold lookupCaptureOption at h
  split at h
  · cases h
  · rename_i entry hFound
    obtain rfl := Except.ok.inj h
    have hAll : (captureOptions.all fun entry => decide (entry.1 < 7)) = true := rfl
    have hPlace := List.all_eq_true.mp hAll entry (List.mem_of_find?_eq_some hFound)
    have hStdDev := List.find?_some hFound
    simp only [Bool.and_eq_true, Bool.or_eq_true, bne_iff_ne] at hStdDev
    exact ⟨of_decide_eq_true hPlace, fun hSix => hStdDev.2.resolve_right fun hOther => hOther hSix⟩

theorem CaptureMask.or {stdDev : Bool} {mask index : Nat} (hMask : CaptureMask stdDev mask)
    (hIndex : index < 7) (hStdDev : index = 6 → stdDev = true) :
    CaptureMask stdDev (mask ||| 2 ^ index) := by
  refine ⟨Nat.or_lt_two_pow hMask.1 (Nat.pow_lt_pow_right (by decide) hIndex), fun hBit => ?_⟩
  rw [Nat.testBit_or, Bool.or_eq_true, Nat.testBit_two_pow, decide_eq_true_eq] at hBit
  rcases hBit with hOld | hNew
  · exact hMask.2 hOld
  · exact hStdDev hNew

theorem parseCaptures_mask {stdDev : Bool} {rounds : Nat} {value : Text} {mask result : Nat}
    (hMask : CaptureMask stdDev mask) (h : parseCaptures stdDev rounds value mask = .ok result) :
    CaptureMask stdDev result := by
  induction rounds generalizing value mask with
  | zero =>
      cases value with
      | nil =>
          obtain rfl := Except.ok.inj h
          exact hMask
      | cons ch rest => cases h
  | succ rounds ih =>
      cases value with
      | nil =>
          obtain rfl := Except.ok.inj h
          exact hMask
      | cons ch rest =>
          obtain ⟨⟨option, after⟩, -, hNext⟩ := exists_of_bind_eq_ok h
          obtain ⟨index, hIndex, hLoop⟩ := exists_of_bind_eq_ok hNext
          obtain ⟨hPlace, hStdDev⟩ := lookupCaptureOption_ok hIndex
          exact ih (hMask.or hPlace hStdDev) hLoop

theorem CaptureMask.none (stdDev : Bool) : CaptureMask stdDev 0 :=
  ⟨Nat.two_pow_pos 7, fun hBit => absurd hBit (by simp)⟩

theorem posOutCapturePut_mask {stdDev : Bool} {string : Text} {mask : Nat}
    (h : posOutCapturePut stdDev string = .ok mask) : CaptureMask stdDev mask := by
  unfold posOutCapturePut at h
  split_ifs at h
  · obtain rfl := Except.ok.inj h
    exact .none stdDev
  · exact parseCaptures_mask (.none stdDev) h

/-- What is written for a mask is read as the mask. -/
theorem posOutCapturePut_report {stdDev : Bool} {room mask : Nat} {text : Text}
    (hMask : CaptureMask stdDev mask) (h : formatCaptureString room mask = .ok text) :
    posOutCapturePut stdDev text = .ok mask := by
  have hSub : ∀ entry ∈ chosenOptions mask captureOptions, entry ∈ captureOptions :=
    fun entry hMem => List.mem_of_mem_filter hMem
  have hNames : ∀ entry ∈ captureOptions, entry.2 ≠ [] := fun entry hMem =>
    List.ne_nil_of_length_pos (by have := (optionName_of_mem entry hMem).long; omega)
  have hText := @formatCaptures_ok room mask captureOptions [] text (by simp) hNames h
  rw [List.nil_append] at hText
  have hFold := foldl_chosenOptions mask hMask.1
  cases hChosen : chosenOptions mask captureOptions with
  | nil =>
      rw [hChosen] at hText hFold
      rw [hText, if_pos rfl, posOutCapturePut, if_pos rfl, ← hFold, List.foldl_nil]
  | cons entry rest =>
      have hFirst := optionName_of_mem entry (hSub entry (by rw [hChosen]; exact List.mem_cons_self))
      rw [hChosen, if_neg (List.cons_ne_nil _ _)] at hText
      have hTail : text = entry.2 ++ spacedOptions rest := hText
      have hLength := congrArg List.length hTail
      rw [List.length_append] at hLength
      have hLong := hFirst.long
      have hNotNo : text ≠ "No".toList := by
        rintro rfl
        have hTwo : "No".toList.length = 2 := rfl
        omega
      have hSkip : skipWhitespace (spacedOptions (entry :: rest)) = text := by
        rw [hTail]
        exact hFirst.skipWhitespace _
      have hRead := @parseCaptures_spaced stdDev (entry :: rest)
        (fun other hMem => optionName_of_mem other (hSub other (by rw [hChosen]; exact hMem)))
        (fun other hMem => lookupCaptureOption_of_mem (hSub other (by rw [hChosen]; exact hMem))
          fun hSix => hMask.2 (by
            have hOther : other ∈ chosenOptions mask captureOptions := by rw [hChosen]; exact hMem
            rw [← hSix]
            exact (List.mem_filter.mp hOther).2))
        text.length (by rw [hTail]; simp [spacedOptions]) 0
      rw [hSkip] at hRead
      rw [posOutCapturePut, if_neg hNotNo, hRead, ← hChosen, hFold]

theorem parseWhole_toOption {Value : Type} (parser : Parser Value) (string : Text) :
    (parseWhole parser string).toOption = wholeLine parser string := by
  unfold parseWhole wholeLine
  cases parser string with
  | error message => rfl
  | ok parsed =>
      obtain ⟨value, rest⟩ := parsed
      cases rest with
      | nil => rfl
      | cons ch rest => rfl

/-! ### What is kept -/

/-- The numbers of a type are those of a register. -/
def TypeFits : FieldType platform → Prop
  | .uint maxValue => maxValue < 2 ^ 32
  | .enum enumeration => ∀ entry ∈ enumeration.entries, entry.1 < 2 ^ 32
  | .int | .scalar _ _ | .bit | .action | .lut | .time => True

def ClassFits : FieldClass platform → Prop
  | .register _ type _ _ => TypeFits type
  | .time | .bitOut | .posOut _ _ _ | .extOut | .bitMux _ | .posMux | .table _ => True

/-- A text that a client can send. -/
def OneLine (text : Text) : Prop := '\n' ∉ text ∧ '\x00' ∉ text

/-- The value is one of a register, and the text that is kept is one for its value. -/
structure RegisterField.Sound {type : FieldType platform} (field : RegisterField type) : Prop where
  value : field.value < 2 ^ 32
  state : TypeSound type field.state

/-- What is kept for an instance can be written. -/
def ValuesSound (lookups : Lookups) : (cls : FieldClass platform) → Values cls → Prop
  | .register _ _ _ _, field => field.Sound
  | .posOut _ _ _, field => CaptureMask lookups.stdDev field.captureMask ∧
      ∀ units ∈ field.units, utf8Check units = [] ∧ OneLine units
  | .bitMux _, field => field.delay ≤ maxBitMuxDelay
  | .posMux, value => lookups.posMux.names.indexToName value ≠ none
  | .time, _ | .bitOut, _ | .extOut, _ | .table _, _ => True

theorem ValuesSound.initial (lookups : Lookups) (cls : FieldClass platform) :
    ValuesSound lookups cls (Values.initial cls) := by
  cases cls with
  | register kind type default extension =>
      refine ⟨default.isLt, ?_⟩
      cases type with
      | lut => exact ⟨by simp [Values.initial, TypeState.initial], by simp [Values.initial, TypeState.initial]⟩
      | _ => trivial
  | posOut scale offset units =>
      refine ⟨.none _, ?_⟩
      intro text hMem
      obtain ⟨units, -, rfl⟩ := Option.map_eq_some_iff.mp hMem
      exact ⟨units.utf8, units.plain, units.string⟩
  | bitMux default => exact Nat.zero_le _
  | posMux =>
      rw [ValuesSound, Values.initial, lookups.zero]
      exact Option.some_ne_none _
  | _ => trivial

theorem exists_of_parseScaled {convert : platform.Double → Option Nat} {outOfRange : String}
    {line : Text} {value : Nat}
    (h : wholeLine (platform.parseScaled convert outOfRange) line = some value) :
    ∃ number, convert number = some value := by
  unfold wholeLine Platform.parseScaled at h
  cases hNumber : platform.parseDouble line with
  | error message => simp [hNumber] at h
  | ok parsed =>
      obtain ⟨number, rest⟩ := parsed
      cases hConvert : convert number with
      | none => simp [hNumber, hConvert] at h
      | some found =>
          cases rest with
          | nil =>
              obtain rfl : found = value := by simpa [hNumber, hConvert] using h
              exact ⟨number, hConvert⟩
          | cons ch rest => simp [hNumber, hConvert] at h

theorem doParseLut_lt {line : Text} {value : Nat} (h : doParseLut platform line = .ok value) :
    value < 2 ^ 32 := by
  unfold doParseLut at h
  split_ifs at h
  · unfold parseHex at h
    simp only at h
    split_ifs at h
    rw [← Except.ok.inj h]
    exact Nat.mod_lt _ (Nat.two_pow_pos 32)
  · cases hParsed : platform.parseLut line with
    | error message => simp [hParsed, Except.map] at h
    | ok parsed =>
        rw [hParsed] at h
        rw [← Except.ok.inj h]
        exact Nat.mod_lt _ (Nat.two_pow_pos 32)

theorem wholeLine_typeParse_lt {type : FieldType platform} (hFits : TypeFits type)
    {state : TypeState type} {line : Text} {value : Nat}
    (h : wholeLine (typeParse type state) line = some value) : value < 2 ^ 32 := by
  cases type with
  | uint maxValue =>
      change wholeLine (uintParse platform maxValue) line = some value at h
      rw [wholeLine_uintParse] at h
      obtain ⟨number, -, hWritten⟩ := Option.bind_eq_some_iff.mp h
      split_ifs at hWritten
      rw [← Option.some.inj hWritten]
      exact toNat_emod_lt number
  | int =>
      change wholeLine (parseInt platform.width) line = some value at h
      rw [wholeLine_parseInt] at h
      obtain ⟨number, -, hWritten⟩ := Option.bind_eq_some_iff.mp h
      split_ifs at hWritten
      rw [← Option.some.inj hWritten]
      exact toNat_emod_lt number
  | scalar scale offset =>
      obtain ⟨number, hRaw⟩ := exists_of_parseScaled h
      unfold scalarRaw at hRaw
      simp only at hRaw
      split_ifs at hRaw
      rw [← Option.some.inj hRaw]
      exact Nat.mod_lt _ (Nat.two_pow_pos 32)
  | bit =>
      change wholeLine parseBit line = some value at h
      rw [wholeLine_parseBit] at h
      split_ifs at h
      · rw [← Option.some.inj h]
        decide
      · rw [← Option.some.inj h]
        decide
  | action =>
      cases line with
      | nil =>
          rw [← Option.some.inj h]
          exact Nat.two_pow_pos 32
      | cons ch rest => cases h
  | lut => exact doParseLut_lt (doParseLut_of_wholeLine state h)
  | time =>
      change wholeLine (fun line => (timeClassParse platform state (2 ^ 32 - 1) line).map
        fun parsed => (parsed.1 % 2 ^ 32, parsed.2)) line = _ at h
      rw [wholeLine_map _ (· % 2 ^ 32)] at h
      obtain ⟨ticks, -, rfl⟩ := Option.map_eq_some_iff.mp h
      exact Nat.mod_lt _ (Nat.two_pow_pos 32)
  | enum enumeration =>
      change wholeLine (enumParse enumeration) line = some value at h
      rw [wholeLine_enumParse] at h
      exact hFits _ (indexToName_of_nameToIndex h).1

theorem typePut_sound {type : FieldType platform} {state : TypeState type}
    (hSound : TypeSound type state) {string : Text} (hLine : OneLine string) :
    TypeSound type (typePut type state string).1 := by
  cases type with
  | lut =>
      unfold typePut
      cases hParsed : doParseLut platform string with
      | error message =>
          simp only [typeParse, hParsed]
          exact hSound
      | ok value =>
          simp only [typeParse, hParsed]
          exact ⟨fun text hText => by rw [← Option.some.inj hText]; exact hParsed,
            fun text hText => by rw [← Option.some.inj hText]; exact hLine⟩
  | _ => trivial

theorem RegisterField.Sound.write {type : FieldType platform} {field : RegisterField type}
    (hSound : field.Sound) {kind : RegisterKind} {extension : Option Extension} {number value : Nat}
    (hValue : value < 2 ^ 32) : (writeTypeRegister kind extension number value field).1.Sound := by
  cases kind with
  | read => exact hSound
  | write => exact hSound
  | param =>
      unfold writeTypeRegister
      cases writeRegister extension number value with
      | some message => exact hSound
      | none => exact ⟨hValue, hSound.state⟩

theorem RegisterField.Sound.basePut {type : FieldType platform} {field : RegisterField type}
    (hFits : TypeFits type) (hSound : field.Sound) {readOnly : Bool} {kind : RegisterKind}
    {extension : Option Extension} {number : Nat} {string : Text} (hLine : OneLine string) :
    (basePut readOnly kind extension number field string).1.Sound := by
  have hState := typePut_sound hSound.state hLine
  have hValue := typePut_value type field.state string
  unfold Server.Fields.basePut
  split_ifs
  · exact hSound
  · generalize typePut type field.state string = put at hState hValue
    obtain ⟨state, parsed⟩ := put
    cases parsed with
    | error message => exact ⟨hSound.value, hState⟩
    | ok value =>
        have hFit := wholeLine_typeParse_lt hFits hValue.symm
        have hKept : RegisterField.Sound { field with state } := ⟨hSound.value, hState⟩
        exact hKept.write hFit

theorem RegisterField.Sound.rawPut {type : FieldType platform} {field : RegisterField type}
    (hSound : field.Sound) {kind : RegisterKind} {extension : Option Extension} {number : Nat}
    {parser : Parser Nat}
    (hParser : ∀ line value, wholeLine parser line = some value → value < 2 ^ 32) (string : Text) :
    (rawPut kind extension number parser field string).1.Sound := by
  have hWhole := parseWhole_toOption parser string
  unfold Server.Fields.rawPut
  cases hParsed : parseWhole parser string with
  | error message => exact hSound
  | ok value =>
      rw [hParsed] at hWhole
      exact hSound.write (hParser string value hWhole.symm)

theorem parseInt_lt {width : Nat} {line : Text} {value : Nat}
    (h : wholeLine (parseInt width) line = some value) : value < 2 ^ 32 := by
  unfold wholeLine parseInt at h
  cases hRead : strtol width line with
  | none => simp [hRead] at h
  | some read =>
      obtain ⟨number, converted, rest⟩ := read
      cases converted with
      | false => simp [hRead] at h
      | true =>
          cases rest with
          | nil =>
              obtain rfl : (number % 2 ^ 32).toNat = value := by simpa [hRead] using h
              exact toNat_emod_lt number
          | cons ch rest => simp [hRead] at h

theorem wholeLine_parseUint_lt {width : Nat} {line : Text} {value : Nat}
    (h : wholeLine (parseUint width) line = some value) : value < 2 ^ 32 := by
  unfold wholeLine at h
  split at h
  · rename_i found hParsed
    rw [← Option.some.inj h]
    exact parseUint_lt hParsed
  · cases h

theorem typeAttrPut_sound {kind : RegisterKind} {extension : Option Extension} {number : Nat}
    {type : FieldType platform} {field : RegisterField type} (hSound : field.Sound)
    (string : Text) (attr : AttrName) :
    (typeAttrPut kind extension number type field string attr).1.Sound := by
  unfold typeAttrPut
  split
  · exact hSound.rawPut (fun line value => parseInt_lt) _
  · exact hSound.rawPut (fun line value => wholeLine_parseUint_lt) _
  · exact stored_keeps RegisterField.Sound hSound fun unit _ => ⟨hSound.value, trivial⟩
  · exact hSound

theorem ValuesSound.classPut {lookups : Lookups} {readOnly : Bool} {number : Nat}
    {cls : FieldClass platform} {values : Values cls} (hFits : ClassFits cls)
    (hSound : ValuesSound lookups cls values) {string : Text} (hLine : OneLine string) :
    ValuesSound lookups cls (classPut lookups readOnly number cls values string).1 := by
  cases cls with
  | register kind type default extension =>
      cases kind with
      | read => exact hSound
      | write => exact RegisterField.Sound.basePut hFits hSound hLine
      | param => exact RegisterField.Sound.basePut hFits hSound hLine
  | bitMux default =>
      unfold Server.Fields.classPut
      simp only
      cases lookups.bitMux.names.nameToIndex string with
      | none => exact hSound
      | some value => exact hSound
  | posMux =>
      unfold Server.Fields.classPut
      simp only
      cases hIndex : lookups.posMux.names.nameToIndex string with
      | none => exact hSound
      | some value =>
          rw [ValuesSound, (indexToName_of_nameToIndex hIndex).2]
          exact Option.some_ne_none _
  | posOut scale offset units => exact hSound
  | _ => trivial

theorem ValuesSound.attrPut {lookups : Lookups} {number : Nat} {cls : FieldClass platform}
    {values : Values cls} (hSound : ValuesSound lookups cls values) {string : Text}
    (hLine : OneLine string) (attr : AttrName) :
    ValuesSound lookups cls (attrPut lookups number cls values string attr).1 := by
  cases cls with
  | register kind type default extension => exact typeAttrPut_sound hSound string attr
  | posOut scale offset units =>
      let keeps := ValuesSound lookups (.posOut scale offset units)
      cases attr with
      | scale => exact stored_keeps keeps hSound fun _ _ => hSound
      | offset => exact stored_keeps keeps hSound fun _ _ => hSound
      | units =>
          refine stored_keeps keeps hSound fun text hText => ⟨hSound.1, fun kept hKept => ?_⟩
          obtain rfl : text = kept := Option.some.inj hKept
          unfold parseUtf8String at hText
          split_ifs at hText with hUtf8
          · obtain rfl := Except.ok.inj hText
            exact ⟨hUtf8, hLine⟩
          · cases hText
      | capture =>
          refine stored_keeps keeps hSound fun mask hMask => ?_
          exact ⟨posOutCapturePut_mask hMask, hSound.2⟩
      | _ => exact hSound
  | bitMux default =>
      cases attr with
      | delay =>
          change ValuesSound lookups (.bitMux default) (bitMuxDelayPut platform.width values string).1
          unfold bitMuxDelayPut
          cases parseWhole (parseUint platform.width) string with
          | error message => exact hSound
          | ok delay =>
              simp only
              split_ifs with hDelay
              · exact hDelay
              · exact hSound
      | _ => exact hSound
  | posMux => exact hSound
  | _ => trivial

end Server.Fields
