import PandaBridge.Generator.Configs
import PandaBridge.Server.ExtensionRegister

/-! The registers line of a field with an extension, from the generator to the server: which
register numbers and which name the server reads from it. -/
namespace Generator

open Server Server.RegisterMap

/-! ## The text of the line -/

/-- The characters of a number as they stand on the line: two more spaces between them, none
after the last. -/
def gapsOf : Text → List (Char × Nat)
  | [] => []
  | [ch] => [(ch, 0)]
  | ch :: next :: rest => (ch, 2) :: gapsOf (next :: rest)

theorem map_gapsOf (text : Text) : (gapsOf text).map (·.1) = text := by
  induction text with
  | nil => rfl
  | cons ch rest ih =>
      cases rest with
      | nil => rfl
      | cons next rest => exact congrArg (ch :: ·) ih

/-- Tokens with a space after each. -/
def spacedTokens (tokens : List Text) : Text := tokens.flatMap fun token => token ++ [' ']

theorem intercalate_append (tokens : List Text) {last : List Text} (hLast : last ≠ []) :
    [' '].intercalate (tokens ++ last) = spacedTokens tokens ++ [' '].intercalate last := by
  induction tokens with
  | nil => rfl
  | cons token tokens ih =>
      obtain ⟨next, rest, hRest⟩ : ∃ next rest, tokens ++ last = next :: rest :=
        List.exists_cons_of_ne_nil (by simp [hLast])
      rw [spacedTokens, List.flatMap_cons, List.append_assoc, ← spacedTokens, ← ih, List.cons_append,
        hRest]
      simp [List.intercalate, List.intersperse]

theorem gapText_append (first second : List (Char × Nat)) :
    gapText (first ++ second) = gapText first ++ gapText second := by
  induction first with
  | nil => rfl
  | cons entry first ih =>
      obtain ⟨ch, gap⟩ := entry
      rw [List.cons_append, gapText, gapText, ih, List.cons_append, List.cons_append,
        List.cons_append, List.append_assoc]

theorem spacedTokens_digits (text : Text) :
    spacedTokens ((text.intersperse ' ').map fun ch => [ch]) = gapText (gapsOf text) := by
  induction text with
  | nil => rfl
  | cons ch rest ih =>
      cases rest with
      | nil => rfl
      | cons next rest =>
          rw [gapsOf, gapText, ← ih]
          simp [spacedTokens, List.intersperse, List.replicate]

/-- The numbers of a list, digit for digit. -/
def digitGaps (nums : List Int) : List (Char × Nat) :=
  nums.flatMap fun num => gapsOf (FieldConfig.str num)

theorem spacedTokens_nums (nums : List Int) :
    spacedTokens (nums.flatMap FieldConfig.spacedDigits) = gapText (digitGaps nums) := by
  induction nums with
  | nil => rfl
  | cons num nums ih =>
      have hGaps : digitGaps (num :: nums) = gapsOf (FieldConfig.str num) ++ digitGaps nums := rfl
      rw [hGaps, gapText_append, ← spacedTokens_digits, ← ih, List.flatMap_cons, spacedTokens,
        List.flatMap_append]
      rfl

/-- The part of the line for the write registers. -/
def writesText (field : FieldConfig) : Text :=
  if field.extensionWrite = [] then [] else 'W' :: ' ' :: gapText (digitGaps (field.numsOf .write))

/-- The register of a field with an extension. -/
def extensionRegister (field : FieldConfig) : RegisterConfig :=
  ⟨field.name, -1, [], field.extension, field.extensionWrite⟩

theorem makeRegName_extension (field : FieldConfig) (hExtension : field.extension ≠ []) :
    field.makeRegName (extensionRegister field) =
      gapText (digitGaps (field.numsOf .read)) ++
        (writesText field ++ 'X' :: ' ' :: field.extension) := by
  have hName : [' '].intercalate [['X'], field.extension] = 'X' :: ' ' :: field.extension := by
    simp [List.intercalate, List.intersperse]
  change [' '].intercalate ([] ++ if field.extension ≠ [] then
      (field.numsOf .read).flatMap FieldConfig.spacedDigits ++
        (if field.extensionWrite = [] then []
          else ['W'] :: (field.numsOf .write).flatMap FieldConfig.spacedDigits) ++
        [['X'], field.extension]
    else _) = _
  rw [if_pos hExtension, List.nil_append, List.append_assoc, intercalate_append _ (by simp),
    spacedTokens_nums, writesText]
  congr 1
  by_cases hWrite : field.extensionWrite = []
  · rw [if_pos hWrite, if_pos hWrite, List.nil_append, List.nil_append, hName]
  · rw [if_neg hWrite, if_neg hWrite, intercalate_append _ (by simp), hName, spacedTokens,
      List.flatMap_cons, ← spacedTokens, spacedTokens_nums]
    rfl

/-! ## Digits -/

theorem digitGaps_isDigit {nums : List Int} (hNums : ∀ num ∈ nums, 0 ≤ num) :
    ∀ entry ∈ digitGaps nums, entry.1.isDigit = true := by
  intro entry hMem
  obtain ⟨num, hNum, hEntry⟩ := List.mem_flatMap.mp hMem
  have hStr : FieldConfig.str num = formatUint num.natAbs := by
    rw [FieldConfig.str, if_neg (by have := hNums num hNum; omega)]
  have hChar : entry.1 ∈ formatUint num.natAbs := by
    rw [← hStr, ← map_gapsOf (FieldConfig.str num)]
    exact List.mem_map.mpr ⟨entry, hEntry, rfl⟩
  exact Nat.isDigit_of_mem_toDigits (by omega) (by omega) hChar

/-- The numbers that are read: the digits of each one by one. -/
def splitDigits (nums : List Int) : List Nat :=
  nums.flatMap fun num => (formatUint num.natAbs).map digitValue

theorem map_digitGaps {nums : List Int} (hNums : ∀ num ∈ nums, 0 ≤ num) :
    (digitGaps nums).map (fun entry => digitValue entry.1) = splitDigits nums := by
  induction nums with
  | nil => rfl
  | cons num nums ih =>
      have hStr : FieldConfig.str num = formatUint num.natAbs := by
        rw [FieldConfig.str, if_neg (by have := hNums num List.mem_cons_self; omega)]
      have hFirst : (gapsOf (formatUint num.natAbs)).map (fun entry => digitValue entry.1) =
          (formatUint num.natAbs).map digitValue := by
        conv_rhs => rw [← map_gapsOf (formatUint num.natAbs)]
        rw [List.map_map]
        rfl
      have hRest := ih fun num hMem => hNums num (List.mem_cons_of_mem _ hMem)
      have hGaps : digitGaps (num :: nums) = gapsOf (FieldConfig.str num) ++ digitGaps nums := rfl
      rw [hGaps, List.map_append, hRest, hStr, hFirst]
      rfl

theorem one_lt_length_formatUint {value : Nat} (h : 10 ≤ value) :
    1 < (formatUint value).length := by
  have hRest := formatUint_ne_nil (value / 10)
  rw [formatUint] at hRest ⊢
  rw [Nat.toDigits_of_base_le (by omega) h, List.length_append, List.length_singleton]
  have := List.length_pos_of_ne_nil hRest
  omega

theorem splitDigits_cons (num : Int) (nums : List Int) :
    splitDigits (num :: nums) = (formatUint num.natAbs).map digitValue ++ splitDigits nums := rfl

theorem length_splitDigits (nums : List Int) : nums.length ≤ (splitDigits nums).length ∧
    ((splitDigits nums).length = nums.length → ∀ num ∈ nums, num < 10) := by
  induction nums with
  | nil => exact ⟨Nat.le_refl _, fun _ num hMem => absurd hMem List.not_mem_nil⟩
  | cons num nums ih =>
      have hPos := List.length_pos_of_ne_nil (formatUint_ne_nil num.natAbs)
      rw [splitDigits_cons, List.length_append, List.length_map, List.length_cons]
      refine ⟨by omega, fun hSame other hMem => ?_⟩
      rcases List.mem_cons.mp hMem with rfl | hMem
      · by_contra hLarge
        have := @one_lt_length_formatUint other.natAbs (by omega)
        omega
      · exact ih.2 (by omega) other hMem

theorem splitDigits_eq_iff {nums : List Int} (hNums : ∀ num ∈ nums, 0 ≤ num) :
    splitDigits nums = nums.map Int.toNat ↔ ∀ num ∈ nums, num < 10 := by
  constructor
  · intro hSame
    apply (length_splitDigits nums).2
    rw [hSame, List.length_map]
  · intro hSmall
    induction nums with
    | nil => rfl
    | cons num nums ih =>
        have hNum := hNums num List.mem_cons_self
        have hLt := hSmall num List.mem_cons_self
        have hText : formatUint num.natAbs = [Nat.digitChar num.natAbs] :=
          Nat.toDigits_of_lt_base (by omega)
        have hRest := ih (fun num hMem => hNums num (List.mem_cons_of_mem _ hMem))
          fun num hMem => hSmall num (List.mem_cons_of_mem _ hMem)
        have hSame : num.natAbs = num.toNat := by omega
        rw [splitDigits_cons, hText, hRest, List.map_singleton, digitValue_digitChar _ (by omega),
          hSame]
        rfl

/-! ## The server's reading of the line -/

section Reading

variable {context : LoadContext} (hWidth : 32 ≤ context.width)

theorem endsNumbers_of_mark {rest : Text} {mark : Char} (hMark : mark = 'W' ∨ mark = 'X') :
    EndsNumbers (mark :: rest) := by
  intro ch hMem
  obtain rfl := Option.some.inj hMem
  rcases hMark with rfl | rfl
  · decide
  · decide

theorem endsNumbers_writesText (field : FieldConfig) :
    EndsNumbers (writesText field ++ 'X' :: ' ' :: field.extension) := by
  unfold writesText
  split
  · exact endsNumbers_of_mark (.inr rfl)
  · exact endsNumbers_of_mark (.inl rfl)

include hWidth

theorem parseRegisterArray_nums {nums : List Int} (hNums : ∀ num ∈ nums, 0 ≤ num) {rest : Text}
    (hRest : EndsNumbers rest) :
    parseRegisterArray context (gapText (digitGaps nums) ++ rest) =
      .ok (splitDigits nums, rest) := by
  by_cases hNone : digitGaps nums = []
  · have hEmpty := parseRegisterArray_none context hRest 0
    rw [← map_digitGaps hNums, hNone]
    exact hEmpty
  · have hArray := parseRegisterArray_gapText hWidth (digitGaps_isDigit hNums) hRest hNone 0
    rw [← map_digitGaps hNums]
    exact hArray

theorem parseExtensionWrites_writesText {field : FieldConfig} {writeNotRead : Bool}
    (hNums : ∀ num ∈ field.numsOf .write, 0 ≤ num)
    (hWrites : field.extensionWrite ≠ [] → writeNotRead = true ∧ field.numsOf .write ≠ [])
    (hNone : field.extensionWrite = [] → field.numsOf .write = []) :
    parseExtensionWrites context writeNotRead (writesText field ++ 'X' :: ' ' :: field.extension) =
      .ok (splitDigits (field.numsOf .write), 'X' :: ' ' :: field.extension) := by
  by_cases hWrite : field.extensionWrite = []
  · rw [writesText, if_pos hWrite, hNone hWrite]
    rfl
  · obtain ⟨rfl, hSome⟩ := hWrites hWrite
    have hGaps : digitGaps (field.numsOf .write) ≠ [] := by
      intro hEmpty
      have hLength := (length_splitDigits (field.numsOf .write)).1
      rw [← map_digitGaps hNums, hEmpty] at hLength
      exact hSome (List.eq_nil_of_length_eq_zero (Nat.le_zero.mp hLength))
    have hArray := parseRegisterArray_gapText hWidth (digitGaps_isDigit hNums)
      (@endsNumbers_of_mark (' ' :: field.extension) 'X' (.inr rfl)) hGaps 1
    rw [map_digitGaps hNums] at hArray
    rw [writesText, if_neg hWrite]
    exact hArray

omit hWidth in
/-- A list of writes that the server does not take, or that has no number, ends in an error. -/
theorem parseExtensionWrites_fails {field : FieldConfig} {writeNotRead : Bool}
    (hWrite : field.extensionWrite ≠ [])
    (hFails : writeNotRead = false ∨ field.numsOf .write = []) {writes : List Nat} {rest : Text}
    (h : parseExtensionWrites context writeNotRead
      (writesText field ++ 'X' :: ' ' :: field.extension) = .ok (writes, rest)) :
    ∃ message, parseChar 'X' rest = .error message := by
  rw [writesText, if_neg hWrite] at h
  rcases hFails with rfl | hNone
  · exact absurd h (by simp [parseExtensionWrites, readChar])
  · rw [hNone] at h
    cases writeNotRead with
    | false => exact absurd h (by simp [parseExtensionWrites, readChar])
    | true =>
        have hEmpty := parseRegisterArray_none context
          (@endsNumbers_of_mark (' ' :: field.extension) 'X' (.inr rfl)) 1
        obtain ⟨-, rfl⟩ := Prod.mk.inj (Except.ok.inj (hEmpty.symm.trans h))
        exact ⟨_, rfl⟩

theorem parseExtensionAddress_line {field : FieldConfig} {writeNotRead : Bool} {block : MapBlock}
    (hBlock : block.extension = true) (hBase : block.base ≠ .invalid)
    (hReads : ∀ num ∈ field.numsOf .read, 0 ≤ num) (hNums : ∀ num ∈ field.numsOf .write, 0 ≤ num)
    (hWrites : field.extensionWrite ≠ [] → writeNotRead = true ∧ field.numsOf .write ≠ [])
    (hNone : field.extensionWrite = [] → field.numsOf .write = [])
    (hName : skipWhitespace field.extension = field.extension) (server : ExtensionServer) :
    parseExtensionAddress context server block writeNotRead
        (gapText (digitGaps (field.numsOf .read)) ++
          (writesText field ++ 'X' :: ' ' :: field.extension)) =
      (parseExtensionName server writeNotRead field.extension).map fun result =>
        (⟨result.1, splitDigits (field.numsOf .read), splitDigits (field.numsOf .write)⟩,
          result.2) := by
  have hSpace : parseWhitespace (' ' :: field.extension) = .ok ((), field.extension) := by
    have hSkip : skipWhitespace (' ' :: field.extension) = field.extension := hName
    rw [parseWhitespace, hSkip, if_neg]
    intro hSame
    have hLength := congrArg List.length hSame
    simp at hLength
  have hMark : parseChar 'X' ('X' :: ' ' :: field.extension) = .ok ((), ' ' :: field.extension) := rfl
  rw [parseExtensionAddress, if_neg (by simp [hBlock])]
  simp only [parseRegisterArray_nums hWidth hReads (endsNumbers_writesText field),
    parseExtensionWrites_writesText hWidth hNums hWrites hNone, hMark, hSpace, bind, Except.bind]
  cases parseExtensionName server writeNotRead field.extension with
  | error message => rfl
  | ok result =>
      change (if _ then _ else _) = _
      rw [if_neg fun h => hBase h.1]
      rfl

end Reading

/-! ## Blocks -/

/-- The block as the server has it when it comes to the fields. -/
def serverBlock (block : BlockConfig) : MapBlock where
  name := String.ofList block.name
  count := block.number.toNat
  base := .assigned block.blockAddress
  extension := decide (block.extension ≠ [])
  fields := []

/-- The registers of a block before its extensions are generated: fields of type `extension_...`
have a hardware register, other fields with an extension have none. Values of an ini file come
without spaces around them. -/
structure Registered (block : BlockConfig) : Prop where
  name : block.name ≠ []
  fieldName : ∀ field ∈ block.fields, field.name ≠ []
  fresh : ∀ field ∈ block.fields, field.extensionNums = []
  calculated : ∀ field ∈ block.fields, field.kind = .calcExtension →
    ∃ number : Nat, number < 64 ∧ field.registers = [⟨field.name, number, [], [], []⟩]
  extension : ∀ field ∈ block.fields, ∀ access, field.kind = .param access →
    field.extension ≠ [] → field.registers = [extensionRegister field] ∧ field.busEntries = []
  stripped : ∀ field ∈ block.fields, skipWhitespace field.extension = field.extension

/-- The server reads from the line of a field the numbers that the generator attached to it and
asks the extension server for the name of its extension. -/
def ReadBack (context : LoadContext) (block : BlockConfig) (field : FieldConfig) (access : Access) :
    Prop :=
  ∃ line, field.addressLine = .ok line ∧ ∀ server : ExtensionServer,
    parseExtensionAddress context server (serverBlock block) (decide (access ≠ .read)) line =
      (server (decide (access ≠ .read)) field.extension).map fun parseId =>
        (⟨parseId, (field.numsOf .read).map Int.toNat, (field.numsOf .write).map Int.toNat⟩, [])

/-- The extension fields that a field names for reading and for writing. -/
def readNames (field : FieldConfig) : List Text := field.extensionRead.splitOn ' '

def writeNames (field : FieldConfig) : List Text := field.extensionWrite.splitOn ' '

/-- When the line of a field is read back: its block has an extension, the registers it names are
of one digit, a list of writes is for a field that is written and names some register, and the
name of the extension is well formed. -/
structure Readable (block : BlockConfig) (field : FieldConfig) (access : Access) : Prop where
  server : block.extension ≠ [] ∨ block.calcExtensions ≠ []
  digits : ∀ extension ∈ block.calcExtensions,
    extension.1 ∈ readNames field ∨ extension.1 ∈ writeNames field → extension.2 < 10
  writes : field.extensionWrite ≠ [] → access ≠ .read ∧
    ∃ extension ∈ block.calcExtensions, extension.1 ∈ writeNames field
  name : utf8Check field.extension = []

/-- The field after `generate_calc_extensions`. -/
def attach (block : BlockConfig) (field : FieldConfig) : FieldConfig :=
  { field with
    extensionNums := field.extensionNums ++
      block.calcExtensions.flatMap (BlockConfig.extensionNumsFor field) }

theorem mem_extensionNumsFor {field : FieldConfig} {extension : Text × Int}
    {num : Int × ExtensionType} : num ∈ BlockConfig.extensionNumsFor field extension ↔
      num.1 = extension.2 ∧ match num.2 with
        | .read => extension.1 ∈ readNames field
        | .write => extension.1 ∈ writeNames field := by
  obtain ⟨value, kind⟩ := num
  simp only [BlockConfig.extensionNumsFor, List.mem_append, List.mem_map, List.mem_filter,
    decide_eq_true_eq, readNames, writeNames, Prod.mk.injEq]
  cases kind with
  | read =>
      constructor
      · rintro (⟨name, -, -, hKind⟩ | ⟨name, ⟨hMem, rfl⟩, rfl, -⟩)
        · exact absurd hKind (by simp)
        · exact ⟨rfl, hMem⟩
      · rintro ⟨rfl, hMem⟩
        exact .inr ⟨_, ⟨hMem, rfl⟩, rfl, rfl⟩
  | write =>
      constructor
      · rintro (⟨name, ⟨hMem, rfl⟩, rfl, -⟩ | ⟨name, -, -, hKind⟩)
        · exact ⟨rfl, hMem⟩
        · exact absurd hKind (by simp)
      · rintro ⟨rfl, hMem⟩
        exact .inl ⟨_, ⟨hMem, rfl⟩, rfl, rfl⟩

section Attached

variable {block : BlockConfig} (hBlock : Registered block) {field : FieldConfig}
  (hField : field ∈ block.fields)

include hBlock hField

theorem mem_numsOf_attach {kind : ExtensionType} {num : Int} :
    num ∈ (attach block field).numsOf kind ↔ ∃ extension ∈ block.calcExtensions,
      num = extension.2 ∧ match kind with
        | .read => extension.1 ∈ readNames field
        | .write => extension.1 ∈ writeNames field := by
  simp only [FieldConfig.numsOf, attach, hBlock.fresh field hField, List.nil_append,
    List.mem_filterMap, List.mem_flatMap]
  constructor
  · rintro ⟨⟨value, other⟩, ⟨extension, hMem, hNum⟩, hSome⟩
    split at hSome
    · next hKind =>
        obtain rfl : value = num := Option.some.inj hSome
        obtain rfl : other = kind := hKind
        exact ⟨extension, hMem, mem_extensionNumsFor.mp hNum⟩
    · exact absurd hSome (by simp)
  · rintro ⟨extension, hMem, hNum⟩
    exact ⟨(num, kind), ⟨extension, hMem, mem_extensionNumsFor.mpr hNum⟩, if_pos rfl⟩

omit hField in
theorem mem_calcExtensions {extension : Text × Int} (hMem : extension ∈ block.calcExtensions) :
    extension.1 ≠ [] ∧ 0 ≤ extension.2 := by
  obtain ⟨other, hOther, hSome⟩ := List.mem_filterMap.mp hMem
  obtain ⟨hField, hKind⟩ := List.mem_filter.mp hOther
  obtain ⟨number, -, hRegisters⟩ := hBlock.calculated other hField (of_decide_eq_true hKind)
  rw [hRegisters] at hSome
  obtain rfl := Option.some.inj hSome
  exact ⟨hBlock.fieldName other hField, Int.natCast_nonneg number⟩

theorem numsOf_attach_nonneg (kind : ExtensionType) :
    ∀ num ∈ (attach block field).numsOf kind, 0 ≤ num := by
  intro num hMem
  obtain ⟨extension, hExtension, rfl, -⟩ := (mem_numsOf_attach hBlock hField).mp hMem
  exact (mem_calcExtensions hBlock hExtension).2

theorem numsOf_write_eq_nil (hNone : field.extensionWrite = []) :
    (attach block field).numsOf .write = [] := by
  rw [List.eq_nil_iff_forall_not_mem]
  intro num hMem
  obtain ⟨extension, hExtension, -, hName⟩ := (mem_numsOf_attach hBlock hField).mp hMem
  simp only [writeNames, hNone] at hName
  exact (mem_calcExtensions hBlock hExtension).1 (List.mem_singleton.mp hName)

theorem numsOf_write_ne_nil_iff : (attach block field).numsOf .write ≠ [] ↔
    ∃ extension ∈ block.calcExtensions, extension.1 ∈ writeNames field := by
  constructor
  · intro hSome
    obtain ⟨num, hNum⟩ := List.exists_mem_of_ne_nil _ hSome
    obtain ⟨extension, hMem, -, hName⟩ := (mem_numsOf_attach hBlock hField).mp hNum
    exact ⟨extension, hMem, hName⟩
  · rintro ⟨extension, hMem, hName⟩
    exact List.ne_nil_of_mem ((mem_numsOf_attach hBlock hField).mpr ⟨extension, hMem, rfl, hName⟩)

theorem digits_iff : (∀ kind, ∀ num ∈ (attach block field).numsOf kind, num < 10) ↔
    ∀ extension ∈ block.calcExtensions,
      extension.1 ∈ readNames field ∨ extension.1 ∈ writeNames field → extension.2 < 10 := by
  simp only [mem_numsOf_attach hBlock hField]
  constructor
  · rintro hAll extension hMem (hName | hName)
    · exact hAll .read _ ⟨extension, hMem, rfl, hName⟩
    · exact hAll .write _ ⟨extension, hMem, rfl, hName⟩
  · rintro hAll kind num ⟨extension, hMem, rfl, hName⟩
    cases kind with
    | read => exact hAll extension hMem (.inl hName)
    | write => exact hAll extension hMem (.inr hName)

theorem addressLine_attach {access : Access} (hKind : field.kind = .param access)
    (hExtension : field.extension ≠ []) :
    (attach block field).addressLine =
      .ok (gapText (digitGaps ((attach block field).numsOf .read)) ++
        (writesText (attach block field) ++ 'X' :: ' ' :: (attach block field).extension)) := by
  obtain ⟨hRegisters, hEntries⟩ := hBlock.extension field hField access hKind hExtension
  have hSame : (attach block field).registers = [extensionRegister (attach block field)] := hRegisters
  have hNoEntries : (attach block field).busEntries = [] := hEntries
  have hName := makeRegName_extension (attach block field) hExtension
  rw [FieldConfig.addressLine, hSame, if_neg (by simp), hNoEntries, if_pos rfl, List.map_singleton,
    hName]
  simp [List.intercalate, List.intersperse]

omit hField in
theorem extension_generated_iff : block.generateCalcExtensions.extension ≠ [] ↔
    block.extension ≠ [] ∨ block.calcExtensions ≠ [] := by
  have hLower : block.name.map Char.toLower ≠ [] := by simp [hBlock.name]
  simp only [BlockConfig.generateCalcExtensions]
  split_ifs with hCase
  · exact ⟨fun _ => .inr hCase.2, fun _ => hLower⟩
  · constructor
    · exact .inl
    · rintro (hOwn | hCalc)
      · exact hOwn
      · exact fun hOwn => hCase ⟨hOwn, hCalc⟩

end Attached

theorem parseExtensionName_eq {server : ExtensionServer} {writeNotRead : Bool} {name : Text}
    (hName : utf8Check name = []) : parseExtensionName server writeNotRead name =
      (server writeNotRead name).map fun parseId => (parseId, []) := by
  rw [parseExtensionName, parseUtf8String, if_pos hName]
  change (server writeNotRead name >>= fun parseId => .ok (parseId, [])) = _
  cases server writeNotRead name <;> rfl

/-- What the server takes is written with registers and takes a list of them. -/
theorem writes_of_parse {context : LoadContext} (hWidth : 32 ≤ context.width) {field : FieldConfig}
    (hReads : ∀ num ∈ field.numsOf .read, 0 ≤ num) {server : ExtensionServer} {block : MapBlock}
    {writeNotRead : Bool} {result : ExtensionAddress × Text}
    (h : parseExtensionAddress context server block writeNotRead
      (gapText (digitGaps (field.numsOf .read)) ++
        (writesText field ++ 'X' :: ' ' :: field.extension)) = .ok result)
    (hWrite : field.extensionWrite ≠ []) : writeNotRead = true ∧ field.numsOf .write ≠ [] := by
  by_contra hNot
  have hFails : writeNotRead = false ∨ field.numsOf .write = [] := by
    by_cases hNone : field.numsOf .write = []
    · exact .inr hNone
    · exact .inl (Bool.eq_false_iff.mpr fun hTrue => hNot ⟨hTrue, hNone⟩)
  unfold parseExtensionAddress at h
  split at h
  · exact absurd h (by simp)
  · obtain ⟨⟨reads, line⟩, hArray, hAfter⟩ := exists_of_bind_eq_ok h
    rw [parseRegisterArray_nums hWidth hReads (endsNumbers_writesText field)] at hArray
    obtain ⟨-, rfl⟩ := Prod.mk.inj (Except.ok.inj hArray)
    obtain ⟨⟨writes, rest⟩, hWrites, hThen⟩ := exists_of_bind_eq_ok hAfter
    obtain ⟨message, hMessage⟩ := parseExtensionWrites_fails hWrite hFails hWrites
    obtain ⟨mark, hMark, -⟩ := exists_of_bind_eq_ok hThen
    exact absurd (hMessage.symm.trans hMark) (by simp)

/-- The line of a field is read back as generated exactly when its block has an extension, its
registers are of one digit and its writes are for a written field and not empty. -/
theorem extension_line_read_back_iff {context : LoadContext} (hWidth : 32 ≤ context.width)
    {block : BlockConfig} (hBlock : Registered block) {field : FieldConfig}
    (hField : field ∈ block.generateCalcExtensions.fields) {access : Access}
    (hKind : field.kind = .param access) (hExtension : field.extension ≠ []) :
    ReadBack context block.generateCalcExtensions field access ↔ Readable block field access := by
  obtain ⟨plain, hPlain, rfl⟩ := List.mem_map.mp hField
  change ReadBack context block.generateCalcExtensions (attach block plain) access ↔ _
  have hLine := addressLine_attach hBlock hPlain hKind hExtension
  have hReads := numsOf_attach_nonneg hBlock hPlain .read
  have hNums := numsOf_attach_nonneg hBlock hPlain .write
  have hNone : plain.extensionWrite = [] → (attach block plain).numsOf .write = [] :=
    numsOf_write_eq_nil hBlock hPlain
  have hParse : ∀ server, block.generateCalcExtensions.extension ≠ [] →
      (plain.extensionWrite ≠ [] → decide (access ≠ .read) = true ∧
        (attach block plain).numsOf .write ≠ []) → _ := fun server hOwn hWrites =>
    @parseExtensionAddress_line context hWidth (attach block plain) (decide (access ≠ .read))
      (serverBlock block.generateCalcExtensions) (decide_eq_true hOwn) (by simp [serverBlock]) hReads
      hNums hWrites hNone (hBlock.stripped plain hPlain) server
  constructor
  · rintro ⟨line, hSame, hAll⟩
    obtain rfl := Except.ok.inj (hLine.symm.trans hSame)
    have hAccepting := hAll fun _ _ => .ok 0
    have hOwn : block.generateCalcExtensions.extension ≠ [] := by
      intro hEmpty
      rw [parseExtensionAddress, if_pos (by simp [serverBlock, hEmpty])] at hAccepting
      exact absurd hAccepting (by simp [Except.map])
    have hWrites := writes_of_parse hWidth hReads hAccepting
    rw [hParse _ hOwn hWrites] at hAccepting
    have hName : utf8Check (attach block plain).extension = [] := by
      by_contra hBad
      rw [parseExtensionName, parseUtf8String, if_neg hBad] at hAccepting
      exact absurd hAccepting (by simp [bind, Except.bind, Except.map])
    rw [parseExtensionName_eq hName] at hAccepting
    simp only [Except.map, Except.ok.injEq, Prod.mk.injEq, ExtensionAddress.mk.injEq, true_and,
      and_true] at hAccepting
    refine ⟨(extension_generated_iff hBlock).mp hOwn, (digits_iff hBlock hPlain).mp ?_, ?_, hName⟩
    · intro kind
      cases kind with
      | read => exact (splitDigits_eq_iff hReads).mp hAccepting.1
      | write => exact (splitDigits_eq_iff hNums).mp hAccepting.2
    · intro hWrite
      obtain ⟨hAccess, hSome⟩ := hWrites hWrite
      exact ⟨of_decide_eq_true hAccess, (numsOf_write_ne_nil_iff hBlock hPlain).mp hSome⟩
  · intro hReadable
    refine ⟨_, hLine, fun server => ?_⟩
    have hOwn := (extension_generated_iff hBlock).mpr hReadable.server
    have hDigits := (digits_iff hBlock hPlain).mpr hReadable.digits
    have hName : utf8Check (attach block plain).extension = [] := hReadable.name
    rw [hParse server hOwn, parseExtensionName_eq hName,
      (splitDigits_eq_iff hReads).mpr (hDigits .read),
      (splitDigits_eq_iff hNums).mpr (hDigits .write)]
    · cases server (decide (access ≠ .read)) (attach block plain).extension <;> rfl
    · intro hWrite
      obtain ⟨hAccess, hSome⟩ := hReadable.writes hWrite
      exact ⟨decide_eq_true hAccess, (numsOf_write_ne_nil_iff hBlock hPlain).mpr hSome⟩

/-! ## The registers that the generator hands out -/

theorem registerFields_forall {number : Int} {inis : List FieldIni} {before after : FieldCounter}
    {fields : List FieldConfig} (h : registerFields number inis before = .ok (fields, after)) :
    ∀ field ∈ fields, ∃ ini ∈ inis, ∃ first last,
      ini.registerAddresses number first = .ok (field, last) := by
  induction inis generalizing before after fields with
  | nil =>
      obtain ⟨rfl, -⟩ := Prod.mk.inj (Except.ok.inj h)
      exact fun field hMem => absurd hMem List.not_mem_nil
  | cons ini inis ih =>
      obtain ⟨⟨config, middle⟩, hFirst, hThen⟩ := exists_of_bind_eq_ok h
      obtain ⟨⟨rest, last⟩, hRest, hLast⟩ := exists_of_bind_eq_ok hThen
      obtain ⟨rfl, -⟩ := Prod.mk.inj (Except.ok.inj hLast)
      intro field hMem
      rcases List.mem_cons.mp hMem with rfl | hMem
      · exact ⟨ini, List.mem_cons_self, _, _, hFirst⟩
      · obtain ⟨found, hFound, hAddresses⟩ := ih hRest field hMem
        exact ⟨found, List.mem_cons_of_mem _ hFound, hAddresses⟩

theorem registerAddresses_shapes {ini : FieldIni} {number : Int} {before after : FieldCounter}
    {field : FieldConfig} (h : ini.registerAddresses number before = .ok (field, after))
    (hEntries : ini.entries number = none) :
    takeRegisters ini.shapes before = .ok (field.registers, after) ∧ field.busEntries = [] := by
  rw [FieldIni.registerAddresses, hEntries] at h
  obtain ⟨⟨registers, last⟩, hTake, hLast⟩ := exists_of_bind_eq_ok h
  obtain ⟨rfl, rfl⟩ := Prod.mk.inj (Except.ok.inj hLast)
  exact ⟨hTake, rfl⟩

theorem registerAddresses_frame {ini : FieldIni} {number : Int} {before after : FieldCounter}
    {field : FieldConfig} (h : ini.registerAddresses number before = .ok (field, after)) :
    field.toFieldIni = ini ∧ field.extensionNums = [] := by
  unfold FieldIni.registerAddresses at h
  split at h
  · obtain ⟨taken, hTaken, hLast⟩ := exists_of_bind_eq_ok h
    obtain ⟨rfl, -⟩ := Prod.mk.inj (Except.ok.inj hLast)
    exact ⟨rfl, rfl⟩
  · obtain ⟨taken, hTaken, hLast⟩ := exists_of_bind_eq_ok h
    obtain ⟨rfl, -⟩ := Prod.mk.inj (Except.ok.inj hLast)
    exact ⟨rfl, rfl⟩

/-- The blocks that the generator registers are of this kind, when their names are and no
extension field has an extension itself. -/
theorem registered_of_registerAddresses {ini : BlockIni} {before after : RegisterCounter}
    {block : BlockConfig} (h : ini.registerAddresses before = .ok (block, after))
    (hName : ini.name ≠ []) (hFieldName : ∀ field ∈ ini.fields, field.name ≠ [])
    (hCalc : ∀ field ∈ ini.fields, field.kind = .calcExtension → field.extension = [])
    (hStripped : ∀ field ∈ ini.fields, skipWhitespace field.extension = field.extension) :
    Registered block := by
  obtain ⟨⟨address, counters⟩, -, hThen⟩ := exists_of_bind_eq_ok h
  obtain ⟨⟨fields, counter⟩, hFields, hLast⟩ := exists_of_bind_eq_ok hThen
  obtain ⟨rfl, -⟩ := Prod.mk.inj (Except.ok.inj hLast)
  have hAll := registerFields_forall hFields
  constructor
  case name => exact hName
  case fieldName =>
    intro field hMem
    obtain ⟨plain, hPlain, first, last, hAddresses⟩ := hAll field hMem
    obtain ⟨rfl, -⟩ := registerAddresses_frame hAddresses
    exact hFieldName _ hPlain
  case fresh =>
    intro field hMem
    obtain ⟨plain, hPlain, first, last, hAddresses⟩ := hAll field hMem
    exact (registerAddresses_frame hAddresses).2
  case calculated =>
    intro field hMem hKind
    obtain ⟨plain, hPlain, first, last, hAddresses⟩ := hAll field hMem
    obtain ⟨rfl, -⟩ := registerAddresses_frame hAddresses
    obtain ⟨hTake, -⟩ := registerAddresses_shapes hAddresses (by simp [FieldIni.entries, hKind])
    have hShapes : field.shapes = [.numbered field.name] := by
      simp [FieldIni.shapes, hKind, FieldIni.shapes.paramShapes, hCalc _ hPlain hKind]
    rw [hShapes] at hTake
    obtain ⟨⟨number, middle⟩, hNew, hRest⟩ := exists_of_bind_eq_ok hTake
    obtain ⟨hRegisters, -⟩ := Prod.mk.inj (Except.ok.inj hRest)
    obtain ⟨found, hAllocate, hGot⟩ := exists_of_bind_eq_ok hNew
    obtain ⟨rfl, -⟩ := Prod.mk.inj (Except.ok.inj hGot)
    obtain ⟨rfl, hLess⟩ := allocate_ok hAllocate
    exact ⟨_, hLess, hRegisters.symm⟩
  case extension =>
    intro field hMem access hKind hExtension
    obtain ⟨plain, hPlain, first, last, hAddresses⟩ := hAll field hMem
    obtain ⟨rfl, -⟩ := registerAddresses_frame hAddresses
    obtain ⟨hTake, hEntries⟩ :=
      registerAddresses_shapes hAddresses (by simp [FieldIni.entries, hKind])
    have hShapes : field.shapes =
        [.text field.name [] field.extension field.extensionWrite] := by
      simp [FieldIni.shapes, hKind, FieldIni.shapes.paramShapes, hExtension]
    rw [hShapes] at hTake
    obtain ⟨hRegisters, -⟩ := Prod.mk.inj (Except.ok.inj hTake)
    exact ⟨hRegisters.symm, hEntries⟩
  case stripped =>
    intro field hMem
    obtain ⟨plain, hPlain, first, last, hAddresses⟩ := hAll field hMem
    obtain ⟨rfl, -⟩ := registerAddresses_frame hAddresses
    exact hStripped _ hPlain

/-! ## Two blocks -/

/-- A block whose one extension register has this number, and a field that writes it. -/
def clockBlock (number : Nat) : BlockConfig where
  name := "SFP".toList
  number := 1
  extension := []
  shared := false
  blockAddress := 2
  fields := [
    { name := "DIV".toList, kind := .calcExtension, extension := [], extensionWrite := [],
      extensionRead := [], registers := [⟨"DIV".toList, number, [], [], []⟩], busEntries := [],
      extensionNums := [] },
    { name := "RATE".toList, kind := .param .write, extension := "rate".toList,
      extensionWrite := "DIV".toList, extensionRead := [],
      registers := [⟨"RATE".toList, -1, [], "rate".toList, "DIV".toList⟩], busEntries := [],
      extensionNums := [] }]

/-- The field that writes, with the number attached. -/
def rateField (number : Nat) : FieldConfig :=
  { name := "RATE".toList, kind := .param .write, extension := "rate".toList,
    extensionWrite := "DIV".toList, extensionRead := [],
    registers := [⟨"RATE".toList, -1, [], "rate".toList, "DIV".toList⟩], busEntries := [],
    extensionNums := [(number, .write)] }

/-- A server with 32 bits in a long and no other files. -/
def plainContext : LoadContext where
  width := 32
  extensionBlock _ line := .ok ((), line)
  extensionField _ line := .ok ((), line)
  openTable _ _ := .ok ()
  busIndices _ _ line := .ok ((), line)

/-- A block with two extension registers and a field that reads both and writes the second. -/
def phaseIni : BlockIni where
  name := "SFP".toList
  number := 1
  extension := []
  fields := [
    ⟨"DIV".toList, .calcExtension, [], [], []⟩,
    ⟨"PHASE".toList, .calcExtension, [], [], []⟩,
    ⟨"RATE".toList, .param .write, "rate".toList, "PHASE".toList, "DIV PHASE".toList⟩]
  blockSuffixes := []

theorem extension_line_read_back_digit : ∃ block counters,
    phaseIni.registerAddresses ⟨2, 0, 0, 0⟩ = .ok (block, counters) ∧
    ∃ field ∈ block.generateCalcExtensions.fields,
      field.addressLine = .ok "0 1 W 1 X rate".toList ∧
      ReadBack plainContext block.generateCalcExtensions field .write := by
  have hRegisters : phaseIni.registerAddresses ⟨2, 0, 0, 0⟩ = .ok _ := rfl
  have hBlock := registered_of_registerAddresses hRegisters (by decide) (by decide) (by decide)
    (by decide)
  refine ⟨_, _, hRegisters, _, List.mem_cons_of_mem _ (List.mem_cons_of_mem _ List.mem_cons_self),
    by rfl, (extension_line_read_back_iff (Nat.le_refl 32) hBlock
      (List.mem_cons_of_mem _ (List.mem_cons_of_mem _ List.mem_cons_self)) rfl (by decide)).mpr ?_⟩
  exact ⟨.inr (by decide), by decide,
    fun _ => ⟨by decide, _, List.mem_cons_of_mem _ List.mem_cons_self, by decide⟩, by decide⟩

/-- Register 12 is read as the registers 1 and 2. -/
theorem two_digit_register_split :
    rateField 12 ∈ (clockBlock 12).generateCalcExtensions.fields ∧
      (rateField 12).addressLine = .ok "W 1   2 X rate".toList ∧
      ¬ ReadBack plainContext (clockBlock 12).generateCalcExtensions (rateField 12) .write := by
  have hLine : (rateField 12).addressLine = .ok "W 1   2 X rate".toList := by rfl
  refine ⟨List.mem_cons_of_mem _ List.mem_cons_self, hLine, ?_⟩
  rintro ⟨line, hSame, hAll⟩
  obtain rfl := Except.ok.inj (hLine.symm.trans hSame)
  have hParse := @parseExtensionAddress_line plainContext (Nat.le_refl 32) (rateField 12) true
    (serverBlock (clockBlock 12).generateCalcExtensions) rfl (by decide) (by decide) (by decide)
    (by decide) (by decide) rfl fun _ _ => .ok 0
  have hWrites := congrArg (fun result => result.toOption.map fun found => found.1.writeRegisters)
    (hParse.symm.trans (hAll fun _ _ => .ok 0))
  exact absurd hWrites (by decide)

end Generator
