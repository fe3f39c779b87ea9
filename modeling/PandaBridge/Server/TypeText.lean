import PandaBridge.Server.TimeRoundTrip

/-! The text of a typed field against the number it stands for. A number is read as C reads it and
narrowed to 32 bits before it is compared with its range; the exact condition for the field to hold
what the text says is proved for every type that has a text of its own. -/
namespace Server.Fields

/-! ### What a text denotes -/

/-- The number that a text denotes in the notation of C, whatever its size. -/
def numeral (line : Text) : Option Int :=
  let (negative, unsigned) := numberSign (line.dropWhile isSpace)
  let (base, start) := numberBase unsigned
  let value := ofDigitText base (start.takeWhile (isDigitOf base))
  if start.takeWhile (isDigitOf base) ≠ [] ∧ start.dropWhile (isDigitOf base) = [] then
    some (if negative then -value else value)
  else none

/-- The number that a text denotes as `0x` with hexadecimal digits, whatever its size. -/
def hexNumeral (line : Text) : Option Nat :=
  let digits := (line.drop 2).takeWhile (isDigitOf 16)
  if "0x".toList.isPrefixOf line ∧ digits ≠ [] ∧ line.drop 2 = digits then
    some (ofDigitText 16 digits)
  else none

section Types

variable {platform : Platform}

/-- The value is what the text denotes, and it is in the range of the type. A negative number is
held in two's complement. -/
def Denotes : FieldType platform → Text → Nat → Prop
  | .uint maxValue, line, value => numeral line = some value ∧ value ≤ maxValue
  | .int, line, value =>
      ∃ number, numeral line = some number ∧ -2 ^ 31 ≤ number ∧ number < 2 ^ 31 ∧
        (value : Int) = number % 2 ^ 32
  | .bit, line, value => line = ['0'] ∧ value = 0 ∨ line = ['1'] ∧ value = 1
  | .enum enumeration, line, value => (value, line) ∈ enumeration.entries
  | .lut, line, value => hexNumeral line = some value ∧ value < 2 ^ 32
  | .scalar _ _, _, _ | .action, _, _ | .time, _, _ => False

/-- The types with texts that denote values: a lookup table is given as a number. -/
def Textual : FieldType platform → Text → Prop
  | .uint _, _ | .int, _ | .bit, _ | .enum _, _ => True
  | .lut, line => "0x".toList.isPrefixOf line = true
  | .scalar _ _, _ | .action, _ | .time, _ => False

/-- `type_put` on a register of 32 bits that is read back. -/
def putText {type : FieldType platform} (field : RegisterField type) (line : Text) :
    RegisterField type × Option String :=
  basePut false .param none 0 field line

/-- `type_get` on such a register. -/
def getText {type : FieldType platform} (field : RegisterField type) : Except String Text :=
  typeFormat maxResultLength type field.state field.value

/-- A text that is refused leaves the register alone. One that is accepted is written as what it
denotes, and what is read then writes the same value again. -/
def RoundTrips {type : FieldType platform} (field : RegisterField type) (line : Text) : Prop :=
  match putText field line with
  | (written, some _) => written.value = field.value
  | (written, none) => Denotes type line written.value ∧ ∃ text, getText written = .ok text ∧
      (putText written text).2 = none ∧ (putText written text).1.value = written.value

/-- The texts that round trip: a number is in the range of 32 bits, or it is still refused, for
`long` is too short for it or it is above the maximum once it is narrowed; and a text that is kept,
or a label, fits a result. -/
def Faithful : FieldType platform → Text → Prop
  | .uint maxValue, line => ∀ number ∈ numeral line,
      (0 ≤ number ∧ number < 2 ^ 32) ∨ 2 ^ platform.width ≤ |number| ∨ maxValue < number % 2 ^ 32
  | .int, line => ∀ number ∈ numeral line,
      (-2 ^ 31 ≤ number ∧ number < 2 ^ 31) ∨ number < -2 ^ (platform.width - 1) ∨
        2 ^ (platform.width - 1) ≤ number
  | .lut, line => ∀ number ∈ hexNumeral line, number < 2 ^ 32 ∧ line.length < maxResultLength
  | .enum enumeration, line =>
      enumeration.nameToIndex line ≠ none → line.length < maxResultLength
  | .bit, _ | .scalar _ _, _ | .action, _ | .time, _ => True

/-! ### What is written -/

theorem narrowed_eq {width value : Nat} (hWide : 32 ≤ width) (hValue : value < 2 ^ width)
    (negative : Bool) :
    (((if negative then (2 ^ width - value) % 2 ^ width else value) % 2 ^ 32 : Nat) : Int) =
      (if negative then -(value : Int) else value) % 2 ^ 32 := by
  cases negative with
  | false => simp
  | true =>
      have hDvd : (2 : Int) ^ 32 ∣ 2 ^ width := pow_dvd_pow 2 hWide
      have hModulus : ((2 ^ width : Nat) : Int) = 2 ^ width := by simp
      simp only [if_true, Int.natCast_mod, Nat.cast_sub hValue.le, hModulus]
      change (2 ^ width - (value : Int)) % 2 ^ width % 2 ^ 32 = _
      rw [Int.emod_emod_of_dvd _ hDvd, sub_eq_add_neg, Int.add_emod,
        Int.emod_eq_zero_of_dvd hDvd, zero_add, Int.emod_emod_of_dvd _ dvd_rfl]

theorem wholeLine_uintParse (maxValue : Nat) (line : Text) :
    wholeLine (uintParse platform maxValue) line = (numeral line).bind fun number =>
      if |number| < 2 ^ platform.width ∧ number % 2 ^ 32 ≤ maxValue then
        some (number % 2 ^ 32).toNat
      else none := by
  unfold wholeLine uintParse parseUint strtoul numeral
  generalize numberSign (line.dropWhile isSpace) = sign
  obtain ⟨negative, unsigned⟩ := sign
  simp only
  generalize numberBase unsigned = number
  obtain ⟨base, start⟩ := number
  simp only
  generalize start.takeWhile (isDigitOf base) = digits
  generalize start.dropWhile (isDigitOf base) = rest
  by_cases hDigits : digits = []
  · simp [hDigits]
  · generalize ofDigitText base digits = value
    simp only [hDigits, if_false, ne_eq, not_false_eq_true, true_and]
    have hSize : |(if negative then -(value : Int) else value)| = value := by
      split_ifs
      · rw [abs_neg, abs_of_nonneg (Int.natCast_nonneg value)]
      · exact abs_of_nonneg (Int.natCast_nonneg value)
    by_cases hOver : 2 ^ platform.width ≤ value
    · have hCast : ¬ (value : Int) < 2 ^ platform.width := by exact_mod_cast not_lt.mpr hOver
      rw [if_pos hOver]
      generalize (if negative then -(value : Int) else value) = number at hSize ⊢
      cases rest with
      | nil => simp only [if_true, Option.bind_some, hSize, hCast, false_and, if_false]
      | cons ch rest => rfl
    · have hLess := not_le.mp hOver
      have hCast : (value : Int) < 2 ^ platform.width := by exact_mod_cast hLess
      have hNarrow := narrowed_eq platform.wide hLess negative
      rw [if_neg hOver]
      simp only
      generalize (if negative then -(value : Int) else value) = number at hSize hNarrow ⊢
      generalize (if negative then (2 ^ platform.width - value) % 2 ^ platform.width else value) %
        2 ^ 32 = written at hNarrow ⊢
      cases rest with
      | nil =>
          simp only [if_true, Option.bind_some, hSize, hCast, true_and, ← hNarrow,
            Int.toNat_natCast, Int.ofNat_le]
          split_ifs
          · rfl
          · rfl
      | cons ch rest =>
          simp only [List.cons_ne_nil, if_false, Option.bind_none]
          by_cases hRange : written ≤ maxValue
          · rw [if_pos hRange]
          · rw [if_neg hRange]

theorem wholeLine_parseInt (line : Text) :
    wholeLine (parseInt platform.width) line = (numeral line).bind fun number =>
      if -2 ^ (platform.width - 1) ≤ number ∧ number < 2 ^ (platform.width - 1) then
        some (number % 2 ^ 32).toNat
      else none := by
  unfold wholeLine parseInt strtol numeral
  generalize numberSign (line.dropWhile isSpace) = sign
  obtain ⟨negative, unsigned⟩ := sign
  simp only
  generalize numberBase unsigned = number
  obtain ⟨base, start⟩ := number
  simp only
  generalize start.takeWhile (isDigitOf base) = digits
  generalize start.dropWhile (isDigitOf base) = rest
  by_cases hDigits : digits = []
  · simp [hDigits]
  · generalize ofDigitText base digits = value
    simp only [hDigits, if_false, ne_eq, not_false_eq_true, true_and]
    have hPos : (0 : Int) < 2 ^ (platform.width - 1) := Int.pow_pos (by decide)
    have hCast : ((2 ^ (platform.width - 1) : Nat) : Int) = 2 ^ (platform.width - 1) := by simp
    cases negative with
    | true =>
        simp only [if_true]
        by_cases hOver : 2 ^ (platform.width - 1) < value
        · have hOut : ¬ -2 ^ (platform.width - 1) ≤ -(value : Int) := by omega
          rw [if_pos hOver]
          split_ifs
          · simp only [Option.bind_some, hOut, false_and, if_false]
          · rfl
        · have hIn : -2 ^ (platform.width - 1) ≤ -(value : Int) ∧
              -(value : Int) < 2 ^ (platform.width - 1) := by omega
          rw [if_neg hOver]
          cases rest with
          | nil => simp only [if_true, Option.bind_some, hIn, and_self]
          | cons ch rest => rfl
    | false =>
        simp only [Bool.false_eq_true, if_false]
        by_cases hOver : 2 ^ (platform.width - 1) ≤ value
        · have hOut : ¬ (value : Int) < 2 ^ (platform.width - 1) := by omega
          rw [if_pos hOver]
          split_ifs
          · simp only [Option.bind_some, hOut, and_false, if_false]
          · rfl
        · have hIn : -2 ^ (platform.width - 1) ≤ (value : Int) ∧
              (value : Int) < 2 ^ (platform.width - 1) := by omega
          rw [if_neg hOver]
          cases rest with
          | nil => simp only [if_true, Option.bind_some, hIn, and_self]
          | cons ch rest => rfl

theorem wholeLine_parseBit (line : Text) :
    wholeLine parseBit line =
      if line = ['0'] then some 0 else if line = ['1'] then some 1 else none := by
  unfold wholeLine parseBit
  split
  · next value rest hParsed =>
      split at hParsed
      · cases hParsed
        rfl
      · cases hParsed
        rfl
      · exact absurd hParsed nofun
  · next hOther =>
      split_ifs with hZero hOne
      · subst hZero
        exact absurd rfl (hOther 0)
      · subst hOne
        exact absurd rfl (hOther 1)
      · rfl

theorem wholeLine_lut (state : LutField) (line : Text) (hMark : "0x".toList.isPrefixOf line = true) :
    wholeLine (@typeParse platform .lut state) line =
      (hexNumeral line).map fun number => min number (2 ^ platform.width - 1) % 2 ^ 32 := by
  unfold wholeLine typeParse doParseLut parseHex hexNumeral
  simp only [hMark, if_true, true_and]
  split_ifs
  · rfl
  · rfl

/-! ### Writing and reading -/

/-- The register once this value was read from the text. -/
def written {type : FieldType platform} (field : RegisterField type) (line : Text) (value : Nat) :
    RegisterField type where
  value := value
  state := typeParsed type field.state line value

theorem putText_eq {type : FieldType platform} (field : RegisterField type) (line : Text) :
    match wholeLine (typeParse type field.state) line with
    | some value => putText field line = (written field line value, none)
    | none => ∃ message, (putText field line).2 = some message ∧
        (putText field line).1.value = field.value := by
  rw [← typePut_value]
  unfold putText basePut
  rw [if_neg Bool.false_ne_true]
  unfold typePut
  cases typeParse type field.state line with
  | error message => exact ⟨message, rfl, rfl⟩
  | ok parsed =>
      obtain ⟨value, rest⟩ := parsed
      cases rest with
      | nil => rfl
      | cons ch rest => exact ⟨_, rfl, rfl⟩

theorem roundTrips_iff {type : FieldType platform} (field : RegisterField type) (line : Text) :
    RoundTrips field line ↔ ∀ value ∈ wholeLine (typeParse type field.state) line,
      Denotes type line value ∧
        (getText (written field line value)).toOption.bind
          (wholeLine (typeParse type (typeParsed type field.state line value))) = some value := by
  have hPut := putText_eq field line
  unfold RoundTrips
  cases hParsed : wholeLine (typeParse type field.state) line with
  | none =>
      rw [hParsed] at hPut
      obtain ⟨message, hError, hValue⟩ := hPut
      rw [← Prod.eta (putText field line), hError]
      exact iff_of_true hValue nofun
  | some value =>
      rw [hParsed] at hPut
      simp only at hPut
      simp only [hPut, Option.mem_def, Option.some.injEq, forall_eq']
      refine and_congr_right fun _ => ?_
      cases hText : getText (written field line value) with
      | error message => simp [Except.toOption]
      | ok text =>
          have hAgain := putText_eq (written field line value) text
          simp only [Except.ok.injEq, exists_eq_left', Except.toOption, Option.bind_some]
          change _ ↔ wholeLine (typeParse type (written field line value).state) text = _
          cases hReread : wholeLine (typeParse type (written field line value).state) text with
          | none =>
              rw [hReread] at hAgain
              obtain ⟨message, hError, -⟩ := hAgain
              rw [hError]
              exact iff_of_false nofun nofun
          | some again =>
              rw [hReread] at hAgain
              simp only at hAgain
              rw [hAgain, Option.some.injEq]
              exact and_iff_right rfl

theorem reread_iff {type : FieldType platform} {field : RegisterField type} {line : Text}
    {value : Nat} (hValue : value < 2 ^ 32)
    (hSound : TypeSound type (typeParsed type field.state line value)) :
    (getText (written field line value)).toOption.bind
        (wholeLine (typeParse type (typeParsed type field.state line value))) = some value ↔
      reloaded maxResultLength type (typeParsed type field.state line value) value = some value := by
  rw [← reloaded_eq (by decide) hValue type _ _ hSound rfl]
  rfl

theorem toNat_emod_lt (number : Int) : (number % 2 ^ 32).toNat < 2 ^ 32 := by omega

theorem roundTrips_uint (maxValue : Nat) (field : RegisterField (.uint maxValue : FieldType platform))
    (line : Text) : RoundTrips field line ↔ Faithful (.uint maxValue : FieldType platform) line := by
  have hNat : 2 ^ 32 ≤ 2 ^ platform.width := Nat.pow_le_pow_right (by decide) platform.wide
  have hSize : (2 : Int) ^ 32 ≤ 2 ^ platform.width := by exact_mod_cast hNat
  have hLine : wholeLine (typeParse (.uint maxValue) field.state) line = _ :=
    wholeLine_uintParse maxValue line
  rw [roundTrips_iff, hLine]
  simp only [Faithful]
  cases hNumber : numeral line with
  | none => simp
  | some number =>
      simp only [Option.bind_some, Option.mem_def, Option.some.injEq, forall_eq']
      split_ifs with hWritten
      · have hReread := (@reread_iff platform _ field line _ (toNat_emod_lt number) trivial).mpr
          (if_pos (by omega))
        simp only [Option.some.injEq, forall_eq']
        rw [and_iff_left hReread]
        change numeral line = some ((number % 2 ^ 32).toNat : Int) ∧ _ ↔ _
        rw [hNumber, Option.some.injEq]
        omega
      · refine iff_of_true nofun ?_
        omega

theorem not_roundTrips_uint {maxValue : Nat} {field : RegisterField (.uint maxValue : FieldType platform)}
    {line : Text} {number : Int} (hNumber : numeral line = some number)
    (hWord : ¬ (0 ≤ number ∧ number < 2 ^ 32)) (hLong : |number| < 2 ^ platform.width)
    (hRange : number % 2 ^ 32 ≤ maxValue) : ¬ RoundTrips field line := by
  rw [roundTrips_uint]
  intro hFaithful
  rcases hFaithful number hNumber with hIn | hOver | hAbove
  · exact hWord hIn
  · exact absurd hLong (not_lt.mpr hOver)
  · exact absurd hRange (not_le.mpr hAbove)

theorem roundTrips_int (field : RegisterField (.int : FieldType platform)) (line : Text) :
    RoundTrips field line ↔ Faithful (.int : FieldType platform) line := by
  have hLine : wholeLine (typeParse .int field.state) line = _ := wholeLine_parseInt line
  rw [roundTrips_iff, hLine]
  simp only [Faithful]
  cases hNumber : numeral line with
  | none => simp
  | some number =>
      simp only [Option.bind_some, Option.mem_def, Option.some.injEq, forall_eq']
      split_ifs with hWritten
      · have hReread := (@reread_iff platform _ field line _ (toNat_emod_lt number) trivial).mpr rfl
        simp only [Option.some.injEq, forall_eq']
        rw [and_iff_left hReread]
        simp only [Denotes, hNumber, Option.some.injEq]
        constructor
        · rintro ⟨other, rfl, hLow, hHigh, -⟩
          exact .inl ⟨hLow, hHigh⟩
        · intro hRange
          exact ⟨number, rfl, by omega, by omega, by omega⟩
      · refine iff_of_true nofun ?_
        omega

theorem roundTrips_bit (field : RegisterField (.bit : FieldType platform)) (line : Text) :
    RoundTrips field line := by
  have hLine : wholeLine (typeParse .bit field.state) line = _ := wholeLine_parseBit line
  rw [roundTrips_iff, hLine]
  intro value hValue
  split_ifs at hValue with hZero hOne
  · obtain rfl := Option.some.inj hValue
    exact ⟨.inl ⟨hZero, rfl⟩, (@reread_iff platform _ field line 0 (by decide) trivial).mpr rfl⟩
  · obtain rfl := Option.some.inj hValue
    exact ⟨.inr ⟨hOne, rfl⟩, (@reread_iff platform _ field line 1 (by decide) trivial).mpr rfl⟩
  · exact absurd hValue nofun

theorem hexNumeral_plain {line : Text} {number : Nat} (h : hexNumeral line = some number) :
    '\n' ∉ line ∧ '\x00' ∉ line := by
  unfold hexNumeral at h
  simp only at h
  split_ifs at h with hHex
  obtain ⟨hMark, -, hDigits⟩ := hHex
  obtain ⟨rest, rfl⟩ := List.isPrefixOf_iff_prefix.mp hMark
  have hDigit : ∀ ch ∈ rest, isDigitOf 16 ch = true := by
    intro ch hMem
    have hRest : rest = rest.takeWhile (isDigitOf 16) := hDigits
    rw [hRest] at hMem
    exact List.mem_takeWhile_imp hMem
  constructor
  all_goals
    intro hMem
    rcases List.mem_append.mp hMem with hHead | hTail
    · exact absurd hHead (by decide)
    · exact absurd (hDigit _ hTail) (by decide)

theorem doParseLut_of_wholeLine (state : LutField) {line : Text} {value : Nat}
    (h : wholeLine (@typeParse platform .lut state) line = some value) :
    doParseLut platform line = .ok value := by
  change wholeLine (fun line => (doParseLut platform line).map fun value => (value, [])) line = _ at h
  unfold wholeLine at h
  simp only at h
  cases hParsed : doParseLut platform line with
  | error message =>
      rw [hParsed] at h
      exact absurd h nofun
  | ok parsed =>
      rw [hParsed] at h
      exact congrArg _ (Option.some.inj h)

theorem roundTrips_lut (field : RegisterField (.lut : FieldType platform)) {line : Text}
    (hMark : "0x".toList.isPrefixOf line = true) :
    RoundTrips field line ↔ Faithful (.lut : FieldType platform) line := by
  have hSize : 2 ^ 32 ≤ 2 ^ platform.width := Nat.pow_le_pow_right (by decide) platform.wide
  rw [roundTrips_iff, wholeLine_lut _ _ hMark]
  simp only [Faithful]
  cases hNumber : hexNumeral line with
  | none => simp
  | some number =>
      simp only [Option.map_some, Option.mem_def, Option.some.injEq, forall_eq']
      have hValue : min number (2 ^ platform.width - 1) % 2 ^ 32 < 2 ^ 32 :=
        Nat.mod_lt _ (by decide)
      have hParsed : doParseLut platform line =
          .ok (min number (2 ^ platform.width - 1) % 2 ^ 32) := by
        apply doParseLut_of_wholeLine field.state
        rw [wholeLine_lut _ _ hMark, hNumber]
        rfl
      generalize hNarrow : min number (2 ^ platform.width - 1) % 2 ^ 32 = value at hValue hParsed ⊢
      have hSound : LutField.Sound platform { value, string := some line } :=
        ⟨fun string hString => by rw [← Option.some.inj hString]; exact hParsed,
          fun string hString => by rw [← Option.some.inj hString]; exact hexNumeral_plain hNumber⟩
      have hReread := @reread_iff platform .lut field line value hValue hSound
      have hText : reloaded maxResultLength (.lut : FieldType platform)
          (typeParsed .lut field.state line value) value = some value ↔
            line.length < maxResultLength := by
        change (if (lutText { value, string := some line } value).length < maxResultLength then
          some value else none) = some value ↔ _
        rw [show lutText { value, string := some line } value = line from if_pos rfl]
        split_ifs with hShort
        · exact iff_of_true rfl hShort
        · exact iff_of_false nofun hShort
      rw [hReread, hText]
      simp only [Denotes, hNumber, Option.some.injEq]
      omega

theorem indexToName_of_nameToIndex {enumeration : Enumeration} {value : Nat} {label : Text}
    (h : enumeration.nameToIndex label = some value) :
    (value, label) ∈ enumeration.entries ∧ enumeration.indexToName value = some label := by
  obtain ⟨entry, hFound, rfl⟩ := Option.map_eq_some_iff.mp h
  have hMem := List.mem_of_find?_eq_some hFound
  obtain rfl : entry.2 = label := by simpa using List.find?_some hFound
  refine ⟨hMem, ?_⟩
  obtain ⟨other, hOther⟩ : ∃ other, enumeration.entries.find? (fun other => other.1 == entry.1) =
      some other := by
    rw [← Option.isSome_iff_exists, List.find?_isSome]
    exact ⟨entry, hMem, by simp⟩
  have hValue : other.1 = entry.1 := by simpa using List.find?_some hOther
  have hDistinct : (enumeration.entries.map Prod.fst).Nodup :=
    List.pairwise_map.mpr (enumeration.sorted.imp fun hLess => hLess.ne)
  have hSame := List.inj_on_of_nodup_map hDistinct (List.mem_of_find?_eq_some hOther) hMem hValue
  rw [Enumeration.indexToName, hOther, Option.map_some, hSame]

theorem wholeLine_enumParse (enumeration : Enumeration) (line : Text) :
    wholeLine (enumParse enumeration) line = enumeration.nameToIndex line := by
  unfold wholeLine enumParse
  cases enumeration.nameToIndex line with
  | none => rfl
  | some value => rfl

theorem roundTrips_enum (enumeration : Enumeration)
    (field : RegisterField (.enum enumeration : FieldType platform)) (line : Text) :
    RoundTrips field line ↔ Faithful (.enum enumeration : FieldType platform) line := by
  have hLine : wholeLine (typeParse (.enum enumeration) field.state) line = _ :=
    wholeLine_enumParse enumeration line
  rw [roundTrips_iff, hLine]
  simp only [Faithful]
  cases hIndex : enumeration.nameToIndex line with
  | none => simp
  | some value =>
      obtain ⟨hMem, hName⟩ := indexToName_of_nameToIndex hIndex
      simp only [Option.mem_def, Option.some.injEq, forall_eq', ne_eq, reduceCtorEq,
        not_false_eq_true, forall_const]
      change _ ∧ ((enumeration.format maxResultLength value).toOption.bind
        (wholeLine (enumParse enumeration))) = some value ↔ _
      rw [Enumeration.format, hName]
      simp only [formatString]
      split_ifs with hShort
      · exact iff_of_true ⟨hMem, (wholeLine_enumParse enumeration line).trans hIndex⟩ hShort
      · exact iff_of_false (fun h => by cases h.2) hShort

/-- A text round trips exactly when it is faithful. -/
theorem typed_text_round_trips_iff {type : FieldType platform} {line : Text}
    (hTextual : Textual type line) (field : RegisterField type) :
    RoundTrips field line ↔ Faithful type line := by
  cases type with
  | uint maxValue => exact roundTrips_uint maxValue field line
  | int => exact roundTrips_int field line
  | bit => exact iff_of_true (roundTrips_bit field line) trivial
  | enum enumeration => exact roundTrips_enum enumeration field line
  | lut => exact roundTrips_lut field hTextual
  | _ => exact absurd hTextual id

end Types

theorem typed_text_round_trips_seven :
    let platform := exactPlatform 64 (by decide) (fun _ => .error "No lookup table") 125000000
    @RoundTrips platform (.uint 10) { value := 0, state := () } "0x7".toList := by
  intro platform
  have hNumber : numeral "0x7".toList = some 7 := by decide
  have hTextual : @Textual platform (.uint 10) "0x7".toList := trivial
  refine (typed_text_round_trips_iff hTextual _).mpr ?_
  intro number hMem
  rw [hNumber] at hMem
  obtain rfl := Option.some.inj hMem
  exact .inl ⟨by decide, by decide⟩

/-- With a `long` of 64 bits a number above 32 bits is written as what is left of it, although the
maximum is 10; with either, a minus sign is no error. -/
theorem typed_text_narrowed :
    let long := exactPlatform 64 (by decide) (fun _ => .error "No lookup table") 125000000
    let short := exactPlatform 32 (by decide) (fun _ => .error "No lookup table") 125000000
    ((@putText long (.uint 10) { value := 0, state := () } "4294967297".toList).1.value = 1 ∧
      (@putText long (.uint 10) { value := 0, state := () } "4294967297".toList).2 = none ∧
      ¬ @RoundTrips long (.uint 10) { value := 0, state := () } "4294967297".toList) ∧
    (@putText short (.uint 10) { value := 0, state := () } "-4294967295".toList).1.value = 1 ∧
      (@putText short (.uint 10) { value := 0, state := () } "-4294967295".toList).2 = none ∧
      ¬ @RoundTrips short (.uint 10) { value := 0, state := () } "-4294967295".toList := by
  intro long short
  have hLarge : numeral "4294967297".toList = some 4294967297 := by decide
  have hMinus : numeral "-4294967295".toList = some (-4294967295) := by decide
  refine ⟨⟨by decide, by decide, ?_⟩, by decide, by decide, ?_⟩
  · exact not_roundTrips_uint hLarge (by decide) (by decide) (by decide)
  · exact not_roundTrips_uint hMinus (by decide) (by decide) (by decide)

end Server.Fields
