import PandaBridge.Generator.Configs
import PandaBridge.Server.FieldInit

/-! The line that is generated for a field that is backed by one register, and what the server makes
of it. Every subclass writes the line in its own way, and not all of them write the initial value. -/
namespace Generator

open Server (Text utf8Check)
open Server.Fields

/-! ### Descriptions -/

/-- The class that the server has for the word. -/
def Access.kind : Access → RegisterKind
  | param => .param
  | read => .read
  | write => .write

/-- What the type of a field says after its access; the type `uint` may have its maximum there. -/
inductive TypeWord
  | unnamed
  | uint (limit : Option Text)
  | int
  | scalar
  | bit
  | action
  | lut
  | time
  | enum
  deriving DecidableEq

def TypeWord.text : TypeWord → Text
  | unnamed => []
  | uint none => " uint".toList
  | uint (some limit) => " uint ".toList ++ limit
  | int => " int".toList
  | scalar => " scalar".toList
  | bit => " bit".toList
  | action => " action".toList
  | lut => " lut".toList
  | time => " time".toList
  | enum => " enum".toList

def typeText (access : Access) (word : TypeWord) : Text := access.kind.name ++ word.text

/-- A setting that is there and is not empty. -/
def given : Option Text → Option Text
  | some (ch :: text) => some (ch :: text)
  | _ => none

/-- The settings of a section that are meant for the line. Only a `param` has an initial value, only
`uint` takes `max_value`, and only `scalar` takes a scale, an offset and units. -/
structure FieldDescription where
  access : Access
  word : TypeWord
  initialValue : Option Text
  maxValue : Option Text
  scale : Option Text
  offset : Option Text
  units : Option Text
  initial_param : given initialValue ≠ none → "param".toList <:+: typeText access word
  max_uint : maxValue ≠ none → ∃ limit, word = .uint limit
  scalar_only : scale ≠ none ∨ offset ≠ none ∨ units ≠ none → word = .scalar
  /-- A setting is on one line. -/
  one_line : ∀ setting ∈ [initialValue, maxValue, scale, offset, units], ∀ text ∈ setting,
    '\n' ∉ text ∧ '\x00' ∉ text

namespace FieldDescription

variable (description : FieldDescription)

def type : Text := typeText description.access description.word

/-- `parse_extra_config` of `ScalarParamFieldConfig`, with its defaults. -/
def scaleText : Text := description.scale.getD ['1']

def offsetText : Text := description.offset.getD ['0']

def unitsText : Text := description.units.getD []

/-- `config_line` of `ParamFieldConfig`. -/
def paramLine : Text :=
  match given description.initialValue with
  | some value => description.type ++ (" = ".toList ++ value)
  | none => description.type

/-- `config_line`. -/
def configLine : Text :=
  match description.word with
  | .uint _ =>
      match given description.maxValue with
      | some maxValue => description.type ++ ' ' :: maxValue
      | none => description.paramLine
  | .scalar =>
      match given description.units with
      | some units => description.type ++
          ' ' :: (description.scaleText ++ ' ' :: (description.offsetText ++ ' ' :: units))
      | none => description.type ++ ' ' :: (description.scaleText ++ ' ' :: description.offsetText)
  | _ => description.paramLine

/-! ### What is kept -/

/-- The texts that say what the maximum is. -/
def limits : List Text :=
  (match description.word with
    | .uint limit => limit.toList
    | _ => []) ++ (given description.maxValue).toList

/-- The type of the field is the one that is described, with its maximum, or its scale, offset and
units. -/
def IsType (platform : Platform) : TypeInit platform → Prop
  | .uint maxValue => (description.word = .unnamed ∨ ∃ limit, description.word = .uint limit) ∧
      (∀ text ∈ description.limits, numeral text = some (maxValue : Int)) ∧
      (description.limits = [] → maxValue = 2 ^ 32 - 1)
  | .int => description.word = .int
  | .scalar scale offset units => description.word = .scalar ∧
      doubleOf platform description.scaleText = some scale ∧
      doubleOf platform description.offsetText = some offset ∧ units.getD [] = description.unitsText
  | .bit => description.word = .bit
  | .action => description.word = .action
  | .lut => description.word = .lut
  | .time => description.word = .time
  | .enum => description.word = .enum

/-- The range of a register of the type. -/
def InRange (number : Int) : Prop :=
  match description.word with
  | .int | .scalar => -2 ^ 31 ≤ number ∧ number < 2 ^ 31
  | _ => 0 ≤ number ∧ number < 2 ^ 32

/-- The initial value is a number for the register of a parameter. -/
def IsInitial (number : Int) : Prop :=
  description.access = .param ∧ description.InRange number

/-- The server takes the line, and the field has the settings of the description. -/
def Kept (platform : Platform) : Prop :=
  ∃ field : FieldInit platform, initField platform description.configLine = .ok field ∧
    field.kind = description.access.kind ∧ description.IsType platform field.type ∧
    ∀ text ∈ given description.initialValue, ∃ number, numeral text = some number ∧
      description.IsInitial number ∧ (field.default : Int) = number % 2 ^ 32

/-- The line of the field has no place for an initial value. -/
def DropsInitial : Prop :=
  description.word = .scalar ∨ given description.maxValue ≠ none

/-- The settings of the type: a maximum is a number in range and is given once, a scale and an
offset are numbers, and the units are well formed. -/
structure SettingsCarried (platform : Platform) : Prop where
  limits : ∀ text ∈ description.limits, ∃ number, numeral text = some number ∧ 0 ≤ number ∧
    number < 2 ^ 32
  once : description.limits.length ≤ 1
  scalar : description.word = .scalar →
    (doubleOf platform description.scaleText).isSome = true ∧
    (doubleOf platform description.offsetText).isSome = true ∧
    utf8Check description.unitsText = []

/-- An initial value is a number in range for a parameter with a type that is named, and it is zero
where the line drops it. -/
structure Carried (platform : Platform) : Prop extends description.SettingsCarried platform where
  initial : ∀ text ∈ given description.initialValue, description.word ≠ .unnamed ∧
    ∃ number, numeral text = some number ∧ description.IsInitial number ∧
      (description.DropsInitial → number = 0)

/-! ### The line after its class -/

/-- The initial value, as the server wants it at the end of a line. -/
def defaultText : Text :=
  match given description.initialValue with
  | some value => " = ".toList ++ value
  | none => []

/-- What follows the word of the type. -/
def tail : Text :=
  match description.word with
  | .uint _ =>
      match given description.maxValue with
      | some maxValue => ' ' :: maxValue
      | none => description.defaultText
  | .scalar =>
      match given description.units with
      | some units => ' ' :: (description.scaleText ++ ' ' :: (description.offsetText ++ ' ' :: units))
      | none => ' ' :: (description.scaleText ++ ' ' :: description.offsetText)
  | _ => description.defaultText

theorem paramLine_eq : description.paramLine =
    description.access.kind.name ++ (description.word.text ++ description.defaultText) := by
  unfold paramLine defaultText type typeText
  cases given description.initialValue with
  | none => rw [List.append_nil]
  | some value => exact List.append_assoc _ _ _

theorem configLine_eq : description.configLine =
    description.access.kind.name ++ (description.word.text ++ description.tail) := by
  have hParam := description.paramLine_eq
  unfold configLine tail
  cases hWord : description.word with
  | uint limit =>
      rw [hWord] at hParam
      cases given description.maxValue with
      | none => exact hParam
      | some maxValue => simp only [type, typeText, hWord, List.append_assoc]
  | scalar =>
      cases given description.units with
      | none => simp only [type, typeText, hWord, List.append_assoc]
      | some units => simp only [type, typeText, hWord, List.append_assoc]
  | _ =>
      rw [hWord] at hParam
      exact hParam

theorem breaks_defaultText : Breaks description.defaultText := by
  unfold defaultText
  cases given description.initialValue with
  | none => exact breaks_nil
  | some value => exact breaks_blank _

theorem breaks_tail : Breaks description.tail := by
  unfold tail
  cases description.word with
  | uint limit =>
      cases given description.maxValue with
      | none => exact description.breaks_defaultText
      | some maxValue => exact breaks_blank _
  | scalar => cases given description.units <;> exact breaks_blank _
  | _ => exact description.breaks_defaultText

theorem breaks_line : Breaks (description.word.text ++ description.tail) := by
  have hTail := description.breaks_tail
  cases hWord : description.word with
  | unnamed => exact hTail
  | uint limit => cases limit <;> exact breaks_blank _
  | _ => exact breaks_blank _

section Types

variable {description} {platform : Platform}

theorem kept_iff : description.Kept platform ↔ ∃ field : FieldInit platform,
    kindInit platform description.access.kind (description.word.text ++ description.tail) = .ok field ∧
      description.IsType platform field.type ∧
      ∀ text ∈ given description.initialValue, ∃ number, numeral text = some number ∧
        description.IsInitial number ∧ (field.default : Int) = number % 2 ^ 32 := by
  rw [Kept, configLine_eq, initField_kind _ description.breaks_line]
  constructor
  · rintro ⟨field, hField, -, hType, hDefault⟩
    exact ⟨field, hField, hType, hDefault⟩
  · rintro ⟨field, hField, hType, hDefault⟩
    exact ⟨field, hField, (kindInit_ok hField).1, hType, hDefault⟩

theorem size_of_inRange {number : Int} (h : description.InRange number) :
    |number| < 2 ^ platform.width := by
  have hWide : (2 : Int) ^ 32 ≤ 2 ^ platform.width := pow_le_pow_right₀ (by decide) platform.wide
  have hBound : |number| < 2 ^ 32 := by
    unfold InRange at h
    rw [abs_lt]
    split at h <;> omega
  exact hBound.trans_le hWide

theorem zero_iff {number : Int} (h : description.InRange number) :
    ((0 : Nat) : Int) = number % 2 ^ 32 ↔ number = 0 := by
  unfold InRange at h
  split at h <;> omega

theorem kept_of_read {type : TypeInit platform} {rest : Text}
    (h : createType platform (description.word.text ++ description.tail) = .ok (type, rest))
    (hRest : description.DropsInitial ∧ rest = [] ∨
      ¬ description.DropsInitial ∧ rest = description.defaultText)
    (hNamed : description.word ≠ .unnamed) (hType : description.IsType platform type)
    (hSettings : description.SettingsCarried platform) :
    description.Kept platform ↔ description.Carried platform := by
  have hCarried : description.Carried platform ↔
      ∀ text ∈ given description.initialValue, ∃ number, numeral text = some number ∧
        description.IsInitial number ∧ (description.DropsInitial → number = 0) :=
    ⟨fun hCarried text hGiven => (hCarried.initial text hGiven).2,
      fun hInitial => ⟨hSettings, fun text hGiven => ⟨hNamed, hInitial text hGiven⟩⟩⟩
  rw [hCarried, kept_iff]
  constructor
  · rintro ⟨field, hField, -, hDefault⟩ text hGiven
    obtain ⟨number, hNumber, hIs, hValue⟩ := hDefault text hGiven
    refine ⟨number, hNumber, hIs, ?_⟩
    rcases hRest with ⟨-, rfl⟩ | ⟨hKeeps, -⟩
    · rw [kindInit_whole h] at hField
      obtain rfl := Except.ok.inj hField
      exact fun _ => (zero_iff hIs.2).mp hValue
    · exact fun hDrops => absurd hDrops hKeeps
  · intro hInitial
    rcases hRest with ⟨hDrops, rfl⟩ | ⟨-, rfl⟩
    · refine ⟨_, kindInit_whole h, hType, ?_⟩
      intro text hGiven
      obtain ⟨number, hNumber, hIs, hZero⟩ := hInitial text hGiven
      exact ⟨number, hNumber, hIs, (zero_iff hIs.2).mpr (hZero hDrops)⟩
    · cases hGiven : given description.initialValue with
      | none =>
          have hNone : description.defaultText = [] := by rw [defaultText, hGiven]
          rw [hNone] at h
          exact ⟨_, kindInit_whole h, hType, nofun⟩
      | some value =>
          have hText : description.defaultText = " = ".toList ++ value := by
            rw [defaultText, hGiven]
          obtain ⟨number, hNumber, ⟨hAccess, hRange⟩, -⟩ := hInitial value hGiven
          rw [hText] at h
          rw [hAccess]
          refine ⟨_, kindInit_default h hNumber (size_of_inRange hRange), hType, ?_⟩
          intro text hMem
          obtain rfl := Option.some.inj hMem
          exact ⟨number, hNumber, ⟨hAccess, hRange⟩,
            Int.toNat_of_nonneg (Int.emod_nonneg _ (by decide))⟩

theorem not_kept_of_error {message : String}
    (h : createType platform (description.word.text ++ description.tail) = .error message) :
    ¬ description.Kept platform := by
  rw [kept_iff, kindInit_failed h]
  rintro ⟨field, hField, -⟩
  exact absurd hField nofun

/-! ### The types without settings -/

theorem maxValue_none (h : ∀ limit, description.word ≠ .uint limit) :
    description.maxValue = none := by
  by_contra hSome
  obtain ⟨limit, hWord⟩ := description.max_uint hSome
  exact h limit hWord

theorem limits_nil (h : ∀ limit, description.word ≠ .uint limit) : description.limits = [] := by
  have hNone : given description.maxValue = none := by rw [maxValue_none h]; rfl
  unfold limits
  rw [hNone]
  cases hWord : description.word with
  | uint limit => exact absurd hWord (h limit)
  | _ => rfl

theorem settings_of_plain (hUint : ∀ limit, description.word ≠ .uint limit)
    (hScalar : description.word ≠ .scalar) : description.SettingsCarried platform := by
  refine ⟨?_, ?_, fun hWord => absurd hWord hScalar⟩
  · rw [limits_nil hUint]
    exact nofun
  · rw [limits_nil hUint]
    exact Nat.zero_le 1

/-- A type that reads nothing leaves the initial value to the parameter. -/
theorem kept_plain {type : TypeInit platform} (hUint : ∀ limit, description.word ≠ .uint limit)
    (hScalar : description.word ≠ .scalar) (hNamed : description.word ≠ .unnamed)
    (hType : description.IsType platform type)
    (h : createType platform (description.word.text ++ description.tail) =
      .ok (type, description.defaultText)) :
    description.Kept platform ↔ description.Carried platform := by
  have hKeeps : ¬ description.DropsInitial := by
    rintro (hWord | hMax)
    · exact hScalar hWord
    · exact hMax (by rw [maxValue_none hUint]; rfl)
  exact kept_of_read h (Or.inr ⟨hKeeps, rfl⟩) hNamed hType (settings_of_plain hUint hScalar)

theorem kept_word {word : TypeWord} {name : Text} {type : TypeInit platform}
    (hWord : description.word = word)
    (hPlain : word ∈ [TypeWord.int, .bit, .action, .lut, .time, .enum])
    (hText : word.text = ' ' :: name)
    (hName : name ≠ [] ∧ name.length < Server.maxNameLength ∧
      name.all Server.validNameChar = true)
    (hLookup : lookupInit platform name = .ok fun line => .ok (type, line))
    (hType : description.IsType platform type) :
    description.Kept platform ↔ description.Carried platform := by
  have hTail : description.tail = description.defaultText := by
    rw [tail, hWord]
    simp only [List.mem_cons, List.not_mem_nil, or_false] at hPlain
    rcases hPlain with rfl | rfl | rfl | rfl | rfl | rfl <;> rfl
  have hUint : ∀ limit, description.word ≠ .uint limit := by
    rw [hWord]
    rintro limit rfl
    simp at hPlain
  have hScalar : description.word ≠ .scalar := by
    rw [hWord]
    rintro rfl
    simp at hPlain
  have hNamed : description.word ≠ .unnamed := by
    rw [hWord]
    rintro rfl
    simp at hPlain
  have hRead := @createType_named platform name _ hName.1 hName.2.1 hName.2.2
    description.breaks_defaultText
  rw [hLookup] at hRead
  apply kept_plain hUint hScalar hNamed hType
  rw [hWord, hText, hTail]
  exact hRead

/-- The type is left out, and then there is no place for an initial value. -/
theorem kept_unnamed (hWord : description.word = .unnamed) :
    description.Kept platform ↔ description.Carried platform := by
  have hUint : ∀ limit, description.word ≠ .uint limit := by
    intro limit hOther
    exact absurd (hWord.symm.trans hOther) nofun
  have hScalar : description.word ≠ .scalar := fun hOther => absurd (hWord.symm.trans hOther) nofun
  have hLine : description.word.text ++ description.tail = description.defaultText := by
    rw [hWord, tail, hWord]
    rfl
  cases hGiven : given description.initialValue with
  | none =>
      have hText : description.defaultText = [] := by rw [defaultText, hGiven]
      have hType : description.IsType platform (.uint (2 ^ 32 - 1)) := by
        refine ⟨Or.inl hWord, ?_, fun _ => rfl⟩
        rw [limits_nil hUint]
        exact nofun
      apply iff_of_true
      · rw [kept_iff, hLine, hText, hGiven]
        exact ⟨_, kindInit_whole createType_nil, hType, nofun⟩
      · refine ⟨settings_of_plain hUint hScalar, ?_⟩
        rw [hGiven]
        exact nofun
  | some value =>
      have hText : description.defaultText = " = ".toList ++ value := by rw [defaultText, hGiven]
      have hRead : createType platform (description.word.text ++ description.tail) =
          .error "No name found" := by
        rw [hLine, hText]
        exact createType_default value
      apply iff_of_false (not_kept_of_error hRead)
      intro hCarried
      exact (hCarried.initial value hGiven).1 hWord

/-! ### Limits -/

theorem Kept.limit {text rest : Text} (h : description.Kept platform)
    (hMem : text ∈ description.limits) (hRest : Breaks rest)
    (hLine : createType platform (description.word.text ++ description.tail) =
      uintInit platform (' ' :: (text ++ rest))) :
    ∃ number, numeral text = some number ∧ 0 ≤ number ∧ number < 2 ^ 32 := by
  obtain ⟨field, hField, hType, -⟩ := kept_iff.mp h
  obtain ⟨-, left, hRead⟩ := kindInit_ok hField
  rw [hLine] at hRead
  obtain ⟨maxValue, hUint⟩ := uintInit_ok hRead
  rw [hUint] at hRead hType
  have hNumber := hType.2.1 text hMem
  rw [uintInit_limit hNumber hRest] at hRead
  split_ifs at hRead
  obtain hSame := TypeInit.uint.inj (Prod.mk.inj (Except.ok.inj hRead)).1
  exact ⟨maxValue, hNumber, by omega, by omega⟩

theorem uintInit_inRange {text rest : Text} {number : Int} (h : numeral text = some number)
    (hLow : 0 ≤ number) (hHigh : number < 2 ^ 32) (hRest : Breaks rest) :
    uintInit platform (' ' :: (text ++ rest)) = .ok (.uint number.toNat, rest) := by
  have hWide : (2 : Int) ^ 32 ≤ 2 ^ platform.width := pow_le_pow_right₀ (by decide) platform.wide
  have hSize : |number| < 2 ^ platform.width := by
    rw [abs_of_nonneg hLow]
    exact hHigh.trans_le hWide
  rw [uintInit_limit h hRest, if_pos hSize, Int.emod_eq_of_lt hLow hHigh]

/-- There is one maximum, in the type or as `max_value`, and the rest of the line follows it. -/
theorem kept_limit {limit text rest : Text} {word : Option Text}
    (hWord : description.word = .uint word) (hLimits : description.limits = [limit])
    (hText : text = ' ' :: (limit ++ rest)) (hBreaks : Breaks rest)
    (hLine : description.word.text ++ description.tail = " uint".toList ++ text)
    (hRest : description.DropsInitial ∧ rest = [] ∨
      ¬ description.DropsInitial ∧ rest = description.defaultText) :
    description.Kept platform ↔ description.Carried platform := by
  subst hText
  have hMem : limit ∈ description.limits := by
    rw [hLimits]
    exact List.mem_singleton_self limit
  have hRead : createType platform (description.word.text ++ description.tail) =
      uintInit platform (' ' :: (limit ++ rest)) := by
    rw [hLine]
    exact @createType_named platform "uint".toList _ (by decide) (by decide) (by decide)
      (breaks_blank _)
  by_cases hRange : ∃ number, numeral limit = some number ∧ 0 ≤ number ∧ number < 2 ^ 32
  · obtain ⟨number, hNumber, hLow, hHigh⟩ := hRange
    rw [uintInit_inRange hNumber hLow hHigh hBreaks] at hRead
    apply kept_of_read hRead hRest
    · exact fun hUnnamed => absurd (hWord.symm.trans hUnnamed) nofun
    · refine ⟨Or.inr ⟨_, hWord⟩, ?_, ?_⟩
      · rw [hLimits]
        intro other hOther
        rw [List.mem_singleton.mp hOther, hNumber, Int.toNat_of_nonneg hLow]
      · rw [hLimits]
        exact nofun
    · refine ⟨?_, ?_, fun hScalar => absurd (hWord.symm.trans hScalar) nofun⟩
      · rw [hLimits]
        intro other hOther
        rw [List.mem_singleton.mp hOther]
        exact ⟨number, hNumber, hLow, hHigh⟩
      · rw [hLimits]
        exact Nat.le_refl 1
  · apply iff_of_false
    · exact fun hKept => hRange (hKept.limit hMem hBreaks hRead)
    · exact fun hCarried => hRange (hCarried.limits limit hMem)

theorem not_kept_twice {limit maxValue : Text} (hWord : description.word = .uint (some limit))
    (hMax : given description.maxValue = some maxValue) : ¬ description.Kept platform := by
  intro hKept
  have hLimits : description.limits = [limit, maxValue] := by
    rw [FieldDescription.limits, hWord, hMax]
    rfl
  have hTail : description.tail = ' ' :: maxValue := by rw [tail, hWord, hMax]
  have hRead : createType platform (description.word.text ++ description.tail) =
      uintInit platform (' ' :: (limit ++ ' ' :: maxValue)) := by
    rw [hWord, hTail]
    exact @createType_named platform "uint".toList _ (by decide) (by decide) (by decide)
      (breaks_blank _)
  obtain ⟨number, hNumber, hLow, hHigh⟩ := hKept.limit (by rw [hLimits]; simp) (breaks_blank _) hRead
  rw [uintInit_inRange hNumber hLow hHigh (breaks_blank _)] at hRead
  obtain ⟨field, hField, hType, -⟩ := kept_iff.mp hKept
  obtain ⟨-, rest, hOther⟩ := kindInit_ok hField
  obtain ⟨hSame, -⟩ := Prod.mk.inj (Except.ok.inj (hRead.symm.trans hOther))
  rw [← hSame] at hType
  have hSecond := hType.2.1 maxValue (by rw [hLimits]; simp)
  have hLeft := skipWhitespace_numeral hSecond []
  rw [List.append_nil] at hLeft
  exact kindInit_left hRead hLeft field hField

theorem drops_uint {limit : Option Text} (hWord : description.word = .uint limit) :
    description.DropsInitial ↔ given description.maxValue ≠ none := by
  unfold DropsInitial
  rw [hWord]
  exact or_iff_right nofun

theorem kept_uint {limit : Option Text} (hWord : description.word = .uint limit) :
    description.Kept platform ↔ description.Carried platform := by
  have hDrops := drops_uint hWord
  have hBreaks := description.breaks_defaultText
  have hLimits : description.limits = limit.toList ++ (given description.maxValue).toList := by
    rw [FieldDescription.limits, hWord]
  cases hMax : given description.maxValue with
  | none =>
      rw [hMax] at hDrops hLimits
      have hKeeps : ¬ description.DropsInitial := fun h => hDrops.mp h rfl
      have hTail : description.tail = description.defaultText := by rw [tail, hWord, hMax]
      cases limit with
      | none =>
          have hInit : uintInit platform description.defaultText =
              .ok (.uint (2 ^ 32 - 1), description.defaultText) := by
            rw [defaultText]
            cases given description.initialValue with
            | none => exact uintInit_nil
            | some value => exact uintInit_default value
          have hRead : createType platform (description.word.text ++ description.tail) =
              .ok (.uint (2 ^ 32 - 1), description.defaultText) := by
            rw [hWord, hTail, ← hInit]
            exact @createType_named platform "uint".toList _ (by decide) (by decide) (by decide)
              hBreaks
          apply kept_of_read hRead (Or.inr ⟨hKeeps, rfl⟩)
          · exact fun hUnnamed => absurd (hWord.symm.trans hUnnamed) nofun
          · refine ⟨Or.inr ⟨_, hWord⟩, ?_, fun _ => rfl⟩
            rw [hLimits]
            exact nofun
          · refine ⟨?_, ?_, fun hScalar => absurd (hWord.symm.trans hScalar) nofun⟩
            · rw [hLimits]
              exact nofun
            · rw [hLimits]
              exact Nat.zero_le 1
      | some limit =>
          apply kept_limit hWord hLimits rfl hBreaks ?_ (Or.inr ⟨hKeeps, rfl⟩)
          rw [hWord, hTail]
          rfl
  | some maxValue =>
      rw [hMax] at hDrops hLimits
      have hDropped : description.DropsInitial := hDrops.mpr nofun
      have hTail : description.tail = ' ' :: maxValue := by rw [tail, hWord, hMax]
      cases limit with
      | none =>
          apply kept_limit hWord hLimits rfl breaks_nil ?_ (Or.inl ⟨hDropped, rfl⟩)
          rw [hWord, hTail, List.append_nil]
          rfl
      | some limit =>
          apply iff_of_false
          · exact not_kept_twice hWord hMax
          · intro hCarried
            have hOnce := hCarried.once
            rw [hLimits] at hOnce
            exact absurd hOnce (by simp)

/-! ### Scalars -/

theorem unitsText_of_none (h : given description.units = none) : description.unitsText = [] := by
  unfold unitsText
  match description.units, h with
  | none, _ => rfl
  | some [], _ => rfl

theorem unitsText_of_some {units : Text} (h : given description.units = some units) :
    description.unitsText = units := by
  unfold unitsText
  match description.units, h with
  | some (ch :: text), hSome => exact Option.some.inj hSome

/-- A field of this type has the scale and offset that are given. -/
theorem Kept.numbers (h : description.Kept platform) (hWord : description.word = .scalar) :
    (∃ scale, doubleOf platform description.scaleText = some scale) ∧
      ∃ offset, doubleOf platform description.offsetText = some offset := by
  obtain ⟨field, -, -, hType, -⟩ := h
  cases hField : field.type with
  | scalar scale offset units =>
      rw [hField] at hType
      exact ⟨⟨scale, hType.2.1⟩, offset, hType.2.2.1⟩
  | uint maxValue =>
      rw [hField] at hType
      rcases hType.1 with hOther | ⟨limit, hOther⟩
      · exact absurd (hWord.symm.trans hOther) nofun
      · exact absurd (hWord.symm.trans hOther) nofun
  | _ =>
      rw [hField] at hType
      exact absurd (hWord.symm.trans hType) nofun

theorem kept_scalar (hStops : StopsAtBlank platform) (hWord : description.word = .scalar) :
    description.Kept platform ↔ description.Carried platform := by
  have hDrops : description.DropsInitial := Or.inl hWord
  have hUint : ∀ limit, description.word ≠ .uint limit := by
    intro limit hOther
    exact absurd (hWord.symm.trans hOther) nofun
  have hNamed : description.word ≠ .unnamed := fun hOther => absurd (hWord.symm.trans hOther) nofun
  by_cases hNumbers : (∃ scale, doubleOf platform description.scaleText = some scale) ∧
      ∃ offset, doubleOf platform description.offsetText = some offset
  · obtain ⟨⟨scale, hScale⟩, offset, hOffset⟩ := hNumbers
    have hSettings (hUnits : utf8Check description.unitsText = []) :
        description.SettingsCarried platform := by
      refine ⟨?_, ?_, fun _ => ⟨?_, ?_, hUnits⟩⟩
      · rw [limits_nil hUint]
        exact nofun
      · rw [limits_nil hUint]
        exact Nat.zero_le 1
      · rw [hScale]
        rfl
      · rw [hOffset]
        rfl
    have hNameRead (text : Text) : createType platform (" scalar".toList ++ ' ' :: text) =
        scalarInit platform (' ' :: text) :=
      @createType_named platform "scalar".toList _ (by decide) (by decide) (by decide)
        (breaks_blank _)
    cases hUnits : given description.units with
    | none =>
        have hText := unitsText_of_none hUnits
        have hRead : createType platform (description.word.text ++ description.tail) =
            .ok (.scalar scale offset none, []) := by
          rw [tail, hWord, hUnits]
          exact (hNameRead _).trans (scalarInit_plain hStops hScale hOffset)
        apply kept_of_read hRead (Or.inl ⟨hDrops, rfl⟩) hNamed
        · exact ⟨hWord, hScale, hOffset, hText.symm⟩
        · apply hSettings
          rw [hText]
          rfl
    | some units =>
        have hText := unitsText_of_some hUnits
        have hRead : createType platform (description.word.text ++ description.tail) =
            if utf8Check units = [] then .ok (.scalar scale offset (some units), [])
            else .error "Malformed UTF-8 encoding" := by
          rw [tail, hWord, hUnits]
          exact (hNameRead _).trans (scalarInit_units hStops hScale hOffset units)
        by_cases hCheck : utf8Check units = []
        · rw [if_pos hCheck] at hRead
          apply kept_of_read hRead (Or.inl ⟨hDrops, rfl⟩) hNamed
          · exact ⟨hWord, hScale, hOffset, hText.symm⟩
          · exact hSettings (hText ▸ hCheck)
        · rw [if_neg hCheck] at hRead
          apply iff_of_false (not_kept_of_error hRead)
          intro hCarried
          exact hCheck (hText ▸ (hCarried.scalar hWord).2.2)
  · apply iff_of_false
    · exact fun hKept => hNumbers (hKept.numbers hWord)
    · intro hCarried
      obtain ⟨hScale, hOffset, -⟩ := hCarried.scalar hWord
      exact hNumbers ⟨Option.isSome_iff_exists.mp hScale, Option.isSome_iff_exists.mp hOffset⟩

end Types

end FieldDescription

/-- The settings of a field are kept exactly when the line carries them. -/
theorem field_settings_kept_iff (platform : Platform) (hStops : StopsAtBlank platform)
    (description : FieldDescription) :
    description.Kept platform ↔ description.Carried platform := by
  cases hWord : description.word with
  | unnamed => exact FieldDescription.kept_unnamed hWord
  | uint limit => exact FieldDescription.kept_uint hWord
  | scalar => exact FieldDescription.kept_scalar hStops hWord
  | int =>
      exact FieldDescription.kept_word hWord (by simp) rfl (by decide) rfl hWord
  | bit =>
      exact FieldDescription.kept_word hWord (by simp) rfl (by decide) rfl hWord
  | action =>
      exact FieldDescription.kept_word hWord (by simp) rfl (by decide) rfl hWord
  | lut =>
      exact FieldDescription.kept_word hWord (by simp) rfl (by decide) rfl hWord
  | time =>
      exact FieldDescription.kept_word hWord (by simp) rfl (by decide) rfl hWord
  | enum =>
      exact FieldDescription.kept_word hWord (by simp) rfl (by decide) rfl hWord

/-- A parameter with its limit in the type and an initial value. -/
def limitInType : FieldDescription where
  access := .param
  word := .uint (some "511".toList)
  initialValue := some "255".toList
  maxValue := none
  scale := none
  offset := none
  units := none
  initial_param _ := ⟨[], " uint 511".toList, rfl⟩
  max_uint hSome := absurd rfl hSome
  scalar_only hSome := by simp at hSome
  one_line := by decide

/-- The same parameter with its limit as `max_value`. -/
def limitAsSetting : FieldDescription where
  access := .param
  word := .uint none
  initialValue := some "255".toList
  maxValue := some "511".toList
  scale := none
  offset := none
  units := none
  initial_param _ := ⟨[], " uint".toList, rfl⟩
  max_uint _ := ⟨none, rfl⟩
  scalar_only hSome := by simp at hSome
  one_line := by decide

theorem limit_in_type_kept : limitInType.Kept
    (exactPlatform 64 (by decide) (fun _ => .error "No lookup table") 125000000) := by
  refine (field_settings_kept_iff _ (stopsAtBlank_exact _ _ _ _) limitInType).mpr ?_
  have hLimit : numeral "511".toList = some 511 := by decide
  have hInitial : numeral "255".toList = some 255 := by decide
  refine ⟨⟨?_, Nat.le_refl 1, nofun⟩, ?_⟩
  · intro text hText
    rw [List.mem_singleton.mp hText]
    exact ⟨511, hLimit, by decide, by decide⟩
  · intro text hText
    obtain rfl := Option.some.inj hText
    refine ⟨nofun, 255, hInitial, ⟨rfl, by decide, by decide⟩, ?_⟩
    rintro (hScalar | hMax)
    · exact absurd hScalar nofun
    · exact absurd rfl hMax

/-- The line says `param uint 511`, and the initial value is lost. -/
theorem limit_as_setting_drops_initial :
    limitAsSetting.configLine = "param uint 511".toList ∧
      initField (exactPlatform 64 (by decide) (fun _ => .error "No lookup table") 125000000)
        limitAsSetting.configLine = .ok ⟨.param, .uint 511, 0⟩ ∧
      ¬ limitAsSetting.Kept
        (exactPlatform 64 (by decide) (fun _ => .error "No lookup table") 125000000) := by
  have hField : initField (exactPlatform 64 (by decide) (fun _ => .error "No lookup table") 125000000)
      limitAsSetting.configLine = .ok ⟨.param, .uint 511, 0⟩ := by rfl
  refine ⟨rfl, hField, ?_⟩
  rintro ⟨field, hOther, -, -, hDefault⟩
  obtain rfl := Except.ok.inj (hField.symm.trans hOther)
  obtain ⟨number, hNumber, -, hValue⟩ := hDefault "255".toList rfl
  have hInitial : numeral "255".toList = some 255 := by decide
  obtain rfl := Option.some.inj (hInitial.symm.trans hNumber)
  exact absurd hValue (by decide)

end Generator
