import PandaBridge.Server.ParamCache
import PandaBridge.Server.TypeText

/-! The line of a field in the configuration: its class, its type with what the `init` of the type
reads, and the default of a parameter. Only the classes that are backed by one register are here. -/
namespace Server.Fields

/-- A type, with what its `init` has read for it. -/
inductive TypeInit (platform : Platform)
  | uint (maxValue : Nat)
  | int
  | scalar (scale offset : platform.Double) (units : Option Text)
  | bit
  | action
  | lut
  | time
  | enum

/-- What a line makes of a field: an instance of a parameter starts with the default. -/
structure FieldInit (platform : Platform) where
  kind : RegisterKind
  type : TypeInit platform
  default : Nat

/-- `check_for_option`. -/
def checkForOption (line : Text) : Bool :=
  decide (line.head? = some ' ') && decide ((skipWhitespace line).head? ≠ some '=')

def RegisterKind.name : RegisterKind → Text
  | .param => "param".toList
  | .read => "read".toList
  | .write => "write".toList

/-- `lookup_class`, for these classes. -/
def lookupKind (name : Text) : Except String RegisterKind :=
  match [RegisterKind.param, .read, .write].find? fun kind => kind.name == name with
  | some kind => .ok kind
  | none => .error ("Class " ++ String.ofList name ++ " not found")

section Init

variable (platform : Platform)

/-- `uint_init`. -/
def uintInit : Parser (TypeInit platform) := fun line =>
  if checkForOption line then (parseUint platform.width line).map fun read => (.uint read.1, read.2)
  else .ok (.uint (2 ^ 32 - 1), line)

/-- `scalar_init`. -/
def scalarInit : Parser (TypeInit platform) := fun line => do
  let (_, line) ← parseChar ' ' line
  let (scale, line) ← platform.parseDouble line
  match readChar ' ' line with
  | (false, line) => .ok (.scalar scale (platform.ofInt 0) none, line)
  | (true, line) => do
      let (offset, line) ← platform.parseDouble line
      match readChar ' ' line with
      | (false, line) => .ok (.scalar scale offset none, line)
      | (true, line) => do
          let (units, line) ← parseUtf8String line
          .ok (.scalar scale offset (some units), line)

/-- `lookup_type`, with the `init` of the type; most types read nothing. -/
def lookupInit (name : Text) : Except String (Parser (TypeInit platform)) :=
  if name = "uint".toList then .ok (uintInit platform)
  else if name = "int".toList then .ok fun line => .ok (.int, line)
  else if name = "scalar".toList then .ok (scalarInit platform)
  else if name = "bit".toList then .ok fun line => .ok (.bit, line)
  else if name = "action".toList then .ok fun line => .ok (.action, line)
  else if name = "lut".toList then .ok fun line => .ok (.lut, line)
  else if name = "time".toList then .ok fun line => .ok (.time, line)
  else if name = "enum".toList then .ok fun line => .ok (.enum, line)
  else .error ("Unknown field type " ++ String.ofList name)

/-- The name of a type and what follows it. -/
def namedType : Parser (TypeInit platform) := fun line => do
  let (name, line) ← parseName maxNameLength line
  let init ← lookupInit platform name
  init line

/-- `create_type` with the default type `uint`, which is read from a text of its own. -/
def createType : Parser (TypeInit platform) := fun line =>
  if line = [] then (namedType platform "uint".toList).map fun read => (read.1, [])
  else do
    let (_, line) ← parseWhitespace line
    namedType platform line

/-- Only a parameter may have a default. -/
def kindDefault (kind : RegisterKind) : Parser (Option Nat) := fun line =>
  if kind = .param then parseDefaultParam platform.width line else .ok (none, line)

/-- `param_init`, `read_init` and `write_init`, and the end of the line. -/
def kindInit (kind : RegisterKind) (line : Text) : Except String (FieldInit platform) := do
  let (type, line) ← createType platform line
  let (value, line) ← kindDefault platform kind line
  parseEos line
  .ok { kind := kind, type := type, default := value.getD 0 }

/-- `create_field` from the class on, and the end of the line. -/
def initField (line : Text) : Except String (FieldInit platform) := do
  let (name, line) ← parseName maxNameLength line
  let kind ← lookupKind name
  kindInit platform kind line

end Init

/-! ### Numbers in front of a blank -/

/-- What is left of a line after one of its words. -/
def Breaks (rest : Text) : Prop := ∀ ch ∈ rest.head?, ch = ' '

theorem breaks_nil : Breaks [] := nofun

theorem breaks_blank (rest : Text) : Breaks (' ' :: rest) :=
  fun _ hHead => (Option.some.inj hHead).symm

theorem numberSign_append {text : Text} (hSome : text ≠ []) (rest : Text) :
    numberSign (text ++ rest) = ((numberSign text).1, (numberSign text).2 ++ rest) := by
  cases text with
  | nil => exact absurd rfl hSome
  | cons ch text =>
      by_cases hMinus : ch = '-'
      · subst hMinus
        rfl
      · by_cases hPlus : ch = '+'
        · subst hPlus
          rfl
        · simp [numberSign, hMinus, hPlus]

theorem numberBase_append {text rest : Text} (hSome : text ≠ []) (hRest : Breaks rest) :
    numberBase (text ++ rest) = ((numberBase text).1, (numberBase text).2 ++ rest) := by
  cases text with
  | nil => exact absurd rfl hSome
  | cons ch text =>
      by_cases hZero : ch = '0'
      · subst hZero
        cases text with
        | nil =>
            cases rest with
            | nil => rfl
            | cons mark rest =>
                cases rest with
                | nil => rfl
                | cons digit rest =>
                    obtain rfl := hRest mark rfl
                    simp [numberBase]
        | cons mark text =>
            cases text with
            | nil =>
                cases rest with
                | nil => rfl
                | cons blank rest =>
                    obtain rfl := hRest blank rfl
                    have hNot : isDigitOf 16 ' ' = false := rfl
                    simp [numberBase, hNot]
            | cons digit text =>
                simp only [numberBase, List.cons_append]
                split_ifs <;> rfl
      · simp [numberBase, hZero]

theorem numberBase_le (text : Text) : (numberBase text).1 ≤ 16 := by
  unfold numberBase
  split
  · split_ifs
    · exact le_refl 16
    · exact Nat.le_of_ble_eq_true rfl
  · exact Nat.le_of_ble_eq_true rfl
  · exact Nat.le_of_ble_eq_true rfl

theorem exists_of_numeral {text : Text} {number : Int} (h : numeral text = some number) :
    ∃ negative unsigned base digits, numberSign (text.dropWhile isSpace) = (negative, unsigned) ∧
      numberBase unsigned = (base, digits) ∧ digits ≠ [] ∧
      (∀ ch ∈ digits, isDigitOf base ch = true) ∧
      number = if negative then -(ofDigitText base digits : Int) else ofDigitText base digits := by
  unfold numeral at h
  obtain ⟨negative, unsigned, hSign⟩ :
      ∃ negative unsigned, numberSign (text.dropWhile isSpace) = (negative, unsigned) :=
    ⟨_, _, rfl⟩
  obtain ⟨base, digits, hBase⟩ : ∃ base digits, numberBase unsigned = (base, digits) := ⟨_, _, rfl⟩
  simp only [hSign, hBase] at h
  by_cases hDigits : digits.takeWhile (isDigitOf base) ≠ [] ∧
      digits.dropWhile (isDigitOf base) = []
  · rw [if_pos hDigits] at h
    obtain ⟨hSome, hAll⟩ := hDigits
    have hEach := List.dropWhile_eq_nil_iff.mp hAll
    rw [List.takeWhile_eq_self_iff.mpr hEach] at h hSome
    exact ⟨negative, unsigned, base, digits, hSign, hBase, hSome, hEach, (Option.some.inj h).symm⟩
  · rw [if_neg hDigits] at h
    exact absurd h nofun

theorem dropWhile_numeral {text : Text} {number : Int} (h : numeral text = some number) :
    text.dropWhile isSpace ≠ [] := by
  intro hNone
  unfold numeral at h
  rw [hNone] at h
  exact absurd h nofun

/-- The numbers of C, read where a blank or the end of the line follows them. -/
theorem parseUint_numeral {width : Nat} {text rest : Text} {number : Int} (hWide : 32 ≤ width)
    (h : numeral text = some number) (hRest : Breaks rest) :
    parseUint width (text ++ rest) =
      if |number| < 2 ^ width then .ok ((number % 2 ^ 32).toNat, rest)
      else .error "Error converting number" := by
  obtain ⟨negative, unsigned, base, digits, hSign, hBase, hSome, hDigits, rfl⟩ :=
    exists_of_numeral h
  have hSpaces := dropWhile_numeral h
  have hUnsigned : unsigned ≠ [] := by
    rintro rfl
    exact hSome (Prod.mk.inj hBase).2.symm
  have hDrop : (text ++ rest).dropWhile isSpace = text.dropWhile isSpace ++ rest := by
    rw [List.dropWhile_append, if_neg (by simpa using hSpaces)]
  have hSixteen := numberBase_le unsigned
  rw [hBase] at hSixteen
  have hBlank : ∀ ch ∈ rest.head?, isDigitOf base ch = false := by
    intro ch hHead
    rw [hRest ch hHead]
    exact decide_eq_false (Nat.not_lt.mpr (hSixteen.trans (by decide)))
  have hTake : (digits ++ rest).takeWhile (isDigitOf base) = digits := by
    rw [List.takeWhile_append_of_pos hDigits]
    cases rest with
    | nil => exact List.append_nil _
    | cons ch rest => rw [List.takeWhile_cons_of_neg (by simp [hBlank ch rfl]), List.append_nil]
  have hAfter : (digits ++ rest).dropWhile (isDigitOf base) = rest := by
    rw [List.dropWhile_append_of_pos hDigits]
    cases rest with
    | nil => rfl
    | cons ch rest => exact List.dropWhile_cons_of_neg (by simp [hBlank ch rfl])
  unfold parseUint strtoul
  simp only [hDrop, numberSign_append hSpaces, hSign, numberBase_append hUnsigned hRest, hBase,
    hTake, hAfter, hSome, if_false]
  generalize ofDigitText base digits = value
  have hSize : |(if negative then -(value : Int) else value)| = value := by
    split_ifs
    · rw [abs_neg, abs_of_nonneg (Int.natCast_nonneg value)]
    · exact abs_of_nonneg (Int.natCast_nonneg value)
  rw [hSize]
  by_cases hOver : 2 ^ width ≤ value
  · have hCast : ¬ (value : Int) < 2 ^ width := by exact_mod_cast not_lt.mpr hOver
    rw [if_pos hOver, if_neg hCast]
  · have hLess := not_le.mp hOver
    have hCast : (value : Int) < 2 ^ width := by exact_mod_cast hLess
    rw [if_neg hOver, if_pos hCast, ← narrowed_eq hWide hLess negative, Int.toNat_natCast]

theorem skipWhitespace_numeral {text : Text} {number : Int} (h : numeral text = some number)
    (rest : Text) : (skipWhitespace (text ++ rest)).head? ≠ some '=' := by
  obtain ⟨negative, unsigned, base, digits, hSign, hBase, hSome, hDigits, -⟩ := exists_of_numeral h
  intro hHead
  have hEqual : ((text ++ rest).dropWhile isSpace).head? = some '=' := by
    generalize text ++ rest = line at hHead
    induction line with
    | nil => exact hHead
    | cons ch line ih =>
        by_cases hBlank : ch = ' ' ∨ ch = '\t'
        · have hSkip : skipWhitespace (ch :: line) = skipWhitespace line :=
            List.dropWhile_cons_of_pos (by simpa using hBlank)
          have hSpace : isSpace ch = true := by rcases hBlank with rfl | rfl <;> rfl
          rw [List.dropWhile_cons_of_pos hSpace]
          exact ih (hSkip ▸ hHead)
        · have hSkip : skipWhitespace (ch :: line) = ch :: line :=
            List.dropWhile_cons_of_neg (by simpa using hBlank)
          rw [hSkip] at hHead
          obtain rfl := Option.some.inj hHead
          rfl
  have hSpaces := dropWhile_numeral h
  rw [List.dropWhile_append, if_neg (by simpa using hSpaces)] at hEqual
  generalize text.dropWhile isSpace = start at hEqual hSpaces hSign
  match start, hSpaces with
  | ch :: start, _ =>
      obtain rfl := Option.some.inj hEqual
      obtain ⟨-, rfl⟩ := Prod.mk.inj hSign
      obtain ⟨rfl, rfl⟩ := Prod.mk.inj hBase
      exact absurd (hDigits '=' List.mem_cons_self) (by decide)

/-! ### Decimal numbers in front of a blank -/

theorem span_blank {keep : Char → Bool} (hBlank : keep ' ' = false) (text rest : Text) :
    (text ++ ' ' :: rest).takeWhile keep = text.takeWhile keep ∧
      (text ++ ' ' :: rest).dropWhile keep = text.dropWhile keep ++ ' ' :: rest := by
  induction text with
  | nil =>
      have hNot : ¬ keep ' ' = true := by simp [hBlank]
      exact ⟨List.takeWhile_cons_of_neg hNot, List.dropWhile_cons_of_neg hNot⟩
  | cons ch text ih =>
      by_cases hKeep : keep ch = true
      · rw [List.cons_append, List.takeWhile_cons_of_pos hKeep, List.takeWhile_cons_of_pos hKeep,
          List.dropWhile_cons_of_pos hKeep, List.dropWhile_cons_of_pos hKeep, ih.1, ih.2]
        exact ⟨rfl, rfl⟩
      · rw [List.cons_append, List.takeWhile_cons_of_neg hKeep, List.takeWhile_cons_of_neg hKeep,
          List.dropWhile_cons_of_neg hKeep, List.dropWhile_cons_of_neg hKeep]
        exact ⟨rfl, rfl⟩

theorem fractionPart_blank (text rest : Text) :
    Decimal.fractionPart (text ++ ' ' :: rest) =
      ((Decimal.fractionPart text).1, (Decimal.fractionPart text).2 ++ ' ' :: rest) := by
  cases text with
  | nil => rfl
  | cons ch text =>
      by_cases hPoint : ch = '.'
      · subst hPoint
        obtain ⟨hTake, hDrop⟩ := @span_blank (isDigitOf 10) rfl text rest
        simp only [Decimal.fractionPart, List.cons_append, hTake, hDrop]
      · simp [Decimal.fractionPart, hPoint]

theorem exponentPart_blank {text : Text} {exponent : Int}
    (h : Decimal.exponentPart text = (exponent, [])) (rest : Text) :
    Decimal.exponentPart (text ++ ' ' :: rest) = (exponent, ' ' :: rest) := by
  cases text with
  | nil =>
      obtain ⟨rfl, -⟩ := Prod.mk.inj h
      simp [Decimal.exponentPart]
  | cons mark text =>
      have hSome : text ≠ [] := by
        rintro rfl
        rw [Decimal.exponentPart] at h
        simp only [numberSign, List.takeWhile_nil, ne_eq, not_true_eq_false, and_false,
          if_false] at h
        exact absurd (Prod.mk.inj h).2 (List.cons_ne_nil _ _)
      obtain ⟨negative, unsigned, hSign⟩ :
          ∃ negative unsigned, numberSign text = (negative, unsigned) := ⟨_, _, rfl⟩
      obtain ⟨hTake, hDrop⟩ := @span_blank (isDigitOf 10) rfl unsigned rest
      rw [Decimal.exponentPart] at h
      rw [List.cons_append, Decimal.exponentPart]
      simp only [numberSign_append hSome, hSign, hTake, hDrop] at h ⊢
      by_cases hMark : (mark = 'e' ∨ mark = 'E') ∧ unsigned.takeWhile (isDigitOf 10) ≠ []
      · rw [if_pos hMark] at h ⊢
        obtain ⟨hExponent, hRest⟩ := Prod.mk.inj h
        rw [hExponent, hRest]
        rfl
      · rw [if_neg hMark] at h
        exact absurd (Prod.mk.inj h).2 (List.cons_ne_nil _ _)

theorem readMagnitude_blank {text : Text} {size : ℚ}
    (h : Decimal.readMagnitude text = some (size, [])) (rest : Text) :
    Decimal.readMagnitude (text ++ ' ' :: rest) = some (size, ' ' :: rest) := by
  obtain ⟨hTake, hDrop⟩ := @span_blank (isDigitOf 10) rfl text rest
  unfold Decimal.readMagnitude at h ⊢
  simp only [hTake, hDrop, fractionPart_blank] at h ⊢
  generalize Decimal.fractionPart (text.dropWhile (isDigitOf 10)) = fraction at h ⊢
  obtain ⟨exponent, left, hExponent⟩ :
      ∃ exponent left, Decimal.exponentPart fraction.2 = (exponent, left) := ⟨_, _, rfl⟩
  rw [hExponent] at h
  simp only at h
  split_ifs at h with hNone
  obtain ⟨rfl, rfl⟩ := Prod.mk.inj (Option.some.inj h)
  rw [exponentPart_blank hExponent]
  simp only [hNone, if_false]

theorem strtod_blank {text : Text} {number : ℚ} (h : Decimal.strtod text = some (number, true, []))
    (rest : Text) : Decimal.strtod (text ++ ' ' :: rest) = some (number, true, ' ' :: rest) := by
  have hSpaces : text.dropWhile isSpace ≠ [] := by
    intro hNone
    rw [Decimal.strtod, hNone] at h
    exact Option.noConfusion rfl (heq_of_eq h)
  have hDrop : (text ++ ' ' :: rest).dropWhile isSpace = text.dropWhile isSpace ++ ' ' :: rest := by
    rw [List.dropWhile_append, if_neg (by simpa using hSpaces)]
  unfold Decimal.strtod at h ⊢
  simp only [hDrop, numberSign_append hSpaces] at h ⊢
  obtain ⟨⟨size, left⟩, hSize, hNumber⟩ := Option.map_eq_some_iff.mp h
  obtain ⟨rfl, hLeft⟩ := Prod.mk.inj hNumber
  obtain ⟨-, rfl⟩ := Prod.mk.inj hLeft
  rw [readMagnitude_blank hSize]
  rfl

/-! ### The types of a line -/

section Lines

variable {platform : Platform}

theorem initField_kind (kind : RegisterKind) {rest : Text} (hRest : Breaks rest) :
    initField platform (kind.name ++ rest) = kindInit platform kind rest := by
  have hOther : ∀ ch ∈ rest.head?, validNameChar ch = false := by
    intro ch hHead
    rw [hRest ch hHead]
    rfl
  have hName : parseName maxNameLength (kind.name ++ rest) = .ok (kind.name, rest) :=
    parseFilteredName_append (by cases kind <;> decide) (by cases kind <;> decide)
      (List.all_eq_true.mp (by cases kind <;> rfl)) hOther
  rw [initField, hName]
  cases kind <;> rfl

theorem createType_nil : createType platform [] = .ok (.uint (2 ^ 32 - 1), []) := rfl

theorem createType_named {name rest : Text} (hSome : name ≠ [])
    (hShort : name.length < maxNameLength) (hChars : name.all validNameChar = true)
    (hRest : Breaks rest) :
    createType platform (' ' :: (name ++ rest)) =
      (lookupInit platform name).bind fun init => init rest := by
  have hOther : ∀ ch ∈ rest.head?, validNameChar ch = false := by
    intro ch hHead
    rw [hRest ch hHead]
    rfl
  have hName : parseName maxNameLength (name ++ rest) = .ok (name, rest) :=
    parseFilteredName_append hSome hShort (List.all_eq_true.mp hChars) hOther
  have hBlank : parseWhitespace (' ' :: (name ++ rest)) = .ok ((), name ++ rest) := by
    have hSkip : skipWhitespace (' ' :: (name ++ rest)) = name ++ rest := by
      match name, hSome with
      | ch :: name, _ =>
          have hCh := List.all_eq_true.mp hChars ch List.mem_cons_self
          have hNot : ¬ (ch == ' ' || ch == '\t') = true := by
            intro hEither
            rw [Bool.or_eq_true, beq_iff_eq, beq_iff_eq] at hEither
            rcases hEither with rfl | rfl
            · exact absurd hCh (by decide)
            · exact absurd hCh (by decide)
          have hStays : skipWhitespace (ch :: (name ++ rest)) = ch :: (name ++ rest) :=
            List.dropWhile_cons_of_neg hNot
          exact hStays
    rw [parseWhitespace, hSkip, if_neg]
    exact fun hSame => absurd (congrArg List.length hSame) (by simp)
  rw [createType, if_neg (List.cons_ne_nil _ _), hBlank]
  simp only [bind, Except.bind, namedType, hName]

theorem createType_default (text : Text) :
    createType platform (" = ".toList ++ text) = .error "No name found" := rfl

theorem uintInit_ok {line rest : Text} {type : TypeInit platform}
    (h : uintInit platform line = .ok (type, rest)) : ∃ maxValue, type = .uint maxValue := by
  unfold uintInit at h
  split_ifs at h
  · cases hParse : parseUint platform.width line with
    | error message =>
        rw [hParse] at h
        exact absurd h nofun
    | ok read =>
        rw [hParse] at h
        exact ⟨read.1, (Prod.mk.inj (Except.ok.inj h)).1.symm⟩
  · exact ⟨_, (Prod.mk.inj (Except.ok.inj h)).1.symm⟩

theorem uintInit_nil : uintInit platform [] = .ok (.uint (2 ^ 32 - 1), []) := rfl

theorem uintInit_default (text : Text) :
    uintInit platform (" = ".toList ++ text) = .ok (.uint (2 ^ 32 - 1), " = ".toList ++ text) := rfl

theorem uintInit_limit {text rest : Text} {number : Int} (h : numeral text = some number)
    (hRest : Breaks rest) :
    uintInit platform (' ' :: (text ++ rest)) =
      if |number| < 2 ^ platform.width then .ok (.uint (number % 2 ^ 32).toNat, rest)
      else .error "Error converting number" := by
  have hOption : checkForOption (' ' :: (text ++ rest)) = true := by
    have hSkip : skipWhitespace (' ' :: (text ++ rest)) = skipWhitespace (text ++ rest) := rfl
    have hHead := skipWhitespace_numeral h rest
    rw [checkForOption, hSkip, decide_eq_true hHead]
    rfl
  have hParse : parseUint platform.width (' ' :: (text ++ rest)) = _ :=
    @parseUint_numeral platform.width (' ' :: text) rest number platform.wide h hRest
  rw [uintInit, if_pos hOption, hParse]
  split_ifs <;> rfl

/-- A blank ends a number: what `strtod` reads as a whole it reads in front of a blank. -/
def StopsAtBlank (platform : Platform) : Prop :=
  ∀ text number rest, platform.strtod text = some (number, true, []) →
    platform.strtod (text ++ ' ' :: rest) = some (number, true, ' ' :: rest)

theorem stopsAtBlank_exact (width : Nat) (wide : 32 ≤ width) (parseLut : Text → Except String Nat)
    (nominalClock : Nat) : StopsAtBlank (exactPlatform width wide parseLut nominalClock) :=
  fun _ _ rest hRead => strtod_blank hRead rest

/-- The number that a text denotes as a `double`. -/
def doubleOf (platform : Platform) (text : Text) : Option platform.Double :=
  wholeLine platform.parseDouble text

theorem strtod_of_doubleOf {text : Text} {number : platform.Double}
    (h : doubleOf platform text = some number) : platform.strtod text = some (number, true, []) := by
  unfold doubleOf wholeLine Platform.parseDouble at h
  cases hRead : platform.strtod text with
  | none =>
      rw [hRead] at h
      exact absurd h nofun
  | some read =>
      rw [hRead] at h
      match read with
      | (_, false, _) => exact absurd h nofun
      | (value, true, []) =>
          obtain rfl := Option.some.inj h
          rfl
      | (_, true, _ :: _) => exact absurd h nofun

theorem parseDouble_whole {text : Text} {number : platform.Double}
    (h : doubleOf platform text = some number) : platform.parseDouble text = .ok (number, []) := by
  rw [Platform.parseDouble, strtod_of_doubleOf h]

theorem parseDouble_blank (hStops : StopsAtBlank platform) {text : Text} {number : platform.Double}
    (h : doubleOf platform text = some number) (rest : Text) :
    platform.parseDouble (text ++ ' ' :: rest) = .ok (number, ' ' :: rest) := by
  rw [Platform.parseDouble, hStops _ _ _ (strtod_of_doubleOf h)]

theorem scalarInit_plain (hStops : StopsAtBlank platform) {scaleText offsetText : Text}
    {scale offset : platform.Double} (hScale : doubleOf platform scaleText = some scale)
    (hOffset : doubleOf platform offsetText = some offset) :
    scalarInit platform (' ' :: (scaleText ++ ' ' :: offsetText)) =
      .ok (.scalar scale offset none, []) := by
  change (platform.parseDouble (scaleText ++ ' ' :: offsetText) >>= _) = _
  rw [parseDouble_blank hStops hScale]
  change (platform.parseDouble offsetText >>= _) = _
  rw [parseDouble_whole hOffset]
  rfl

theorem scalarInit_units (hStops : StopsAtBlank platform) {scaleText offsetText : Text}
    {scale offset : platform.Double} (hScale : doubleOf platform scaleText = some scale)
    (hOffset : doubleOf platform offsetText = some offset) (units : Text) :
    scalarInit platform (' ' :: (scaleText ++ ' ' :: (offsetText ++ ' ' :: units))) =
      if utf8Check units = [] then .ok (.scalar scale offset (some units), [])
      else .error "Malformed UTF-8 encoding" := by
  change (platform.parseDouble (scaleText ++ ' ' :: (offsetText ++ ' ' :: units)) >>= _) = _
  rw [parseDouble_blank hStops hScale]
  change (platform.parseDouble (offsetText ++ ' ' :: units) >>= _) = _
  rw [parseDouble_blank hStops hOffset]
  change (parseUtf8String units >>= _) = _
  rw [parseUtf8String]
  split_ifs <;> rfl

theorem parseDefaultParam_text {text : Text} {number : Int} (h : numeral text = some number)
    (hSize : |number| < 2 ^ platform.width) :
    parseDefaultParam platform.width (" = ".toList ++ text) =
      .ok (some (number % 2 ^ 32).toNat, []) := by
  have hParse := @parseUint_numeral platform.width (' ' :: text) [] number platform.wide h breaks_nil
  rw [List.append_nil, if_pos hSize] at hParse
  change (parseUint platform.width (' ' :: text) >>= fun read => .ok (some read.1, read.2)) = _
  rw [hParse]
  rfl

/-! ### What the line comes to -/

/-- A type that takes the rest of the line. -/
theorem kindInit_whole {kind : RegisterKind} {line : Text} {type : TypeInit platform}
    (h : createType platform line = .ok (type, [])) :
    kindInit platform kind line = .ok ⟨kind, type, 0⟩ := by
  rw [kindInit, h]
  cases kind <;> rfl

theorem kindInit_default {line text : Text} {type : TypeInit platform} {number : Int}
    (h : createType platform line = .ok (type, " = ".toList ++ text))
    (hNumber : numeral text = some number) (hSize : |number| < 2 ^ platform.width) :
    kindInit platform .param line = .ok ⟨.param, type, (number % 2 ^ 32).toNat⟩ := by
  rw [kindInit, h]
  simp only [bind, Except.bind, kindDefault, if_true, parseDefaultParam_text hNumber hSize]
  rfl

theorem kindInit_ok {kind : RegisterKind} {line : Text} {field : FieldInit platform}
    (h : kindInit platform kind line = .ok field) :
    field.kind = kind ∧ ∃ rest, createType platform line = .ok (field.type, rest) := by
  obtain ⟨⟨type, rest⟩, hType, hRest⟩ := exists_of_bind_eq_ok h
  obtain ⟨⟨value, left⟩, -, hLeft⟩ := exists_of_bind_eq_ok hRest
  obtain ⟨-, -, hField⟩ := exists_of_bind_eq_ok hLeft
  obtain rfl := Except.ok.inj hField
  exact ⟨rfl, rest, hType⟩

theorem kindInit_failed {kind : RegisterKind} {line : Text} {message : String}
    (h : createType platform line = .error message) :
    kindInit platform kind line = .error message := by
  rw [kindInit, h]
  rfl

/-- What follows a type is a default or an error. -/
theorem kindInit_left {kind : RegisterKind} {line rest : Text} {type : TypeInit platform}
    (h : createType platform line = .ok (type, ' ' :: rest))
    (hRest : (skipWhitespace rest).head? ≠ some '=') (field : FieldInit platform) :
    kindInit platform kind line ≠ .ok field := by
  intro hField
  rw [kindInit, h] at hField
  by_cases hKind : kind = .param
  · subst hKind
    have hChar : parseChar '=' (skipWhitespace rest) = .error "Character '=' expected" := by
      generalize skipWhitespace rest = left at hRest
      cases left with
      | nil => rfl
      | cons ch left =>
          have hNot : ch ≠ '=' := fun hSame => hRest (congrArg some hSame)
          simp only [parseChar, readChar, hNot, if_false]
          rfl
    have hDefault : parseDefaultParam platform.width (' ' :: rest) =
        .error "Character '=' expected" := by
      change (parseChar '=' (skipWhitespace rest) >>= _) = _
      rw [hChar]
      rfl
    simp only [bind, Except.bind, kindDefault, if_true, hDefault] at hField
    exact absurd hField nofun
  · simp only [bind, Except.bind, kindDefault, hKind, if_false] at hField
    exact absurd hField nofun

end Lines

end Server.Fields
