import Mathlib.Algebra.Group.Int.Defs
import Mathlib.Algebra.Group.Nat.Defs
import Mathlib.Data.List.TakeWhile

/-! Parsing of lines. A line is what stands before the terminating NUL; a parser gives its value
and what is left of the line, or the message of its error. -/
namespace Server

/-- A string of the source, one `Char` for each byte. -/
abbrev Text := List Char

abbrev Parser (Value : Type) := Text → Except String (Value × Text)

theorem exists_of_bind_eq_ok {First Second : Type} {first : Except String First}
    {next : First → Except String Second} {result : Second} (h : first >>= next = .ok result) :
    ∃ value, first = .ok value ∧ next value = .ok result := by
  cases first with
  | error message => exact absurd h (by simp [bind, Except.bind])
  | ok value => exact ⟨value, rfl, h⟩

def skipWhitespace (line : Text) : Text :=
  line.dropWhile fun ch => ch == ' ' || ch == '\t'

def parseWhitespace : Parser Unit := fun line =>
  if skipWhitespace line = line then .error "Whitespace expected" else .ok ((), skipWhitespace line)

/-- `read_char`: whether the character is there, and it is skipped then. -/
def readChar (expected : Char) : List Char → Bool × List Char
  | [] => (false, [])
  | head :: rest => if head = expected then (true, rest) else (false, head :: rest)

def readString (expected line : Text) : Bool × Text :=
  if expected.isPrefixOf line then (true, line.drop expected.length) else (false, line)

def parseChar (ch : Char) : Parser Unit := fun line =>
  match readChar ch line with
  | (true, rest) => .ok ((), rest)
  | (false, _) => .error ("Character '" ++ ch.toString ++ "' expected")

def parseEos (line : Text) : Except String Unit :=
  if line = [] then .ok () else .error "Unexpected character after input"

/-! ### Numbers -/

/-- What `isspace` accepts. -/
def isSpace (ch : Char) : Bool := ch == ' ' || (9 ≤ ch.toNat && ch.toNat ≤ 13)

/-- The value of a digit, as `strtoul` reads letters too. -/
def digitValue (ch : Char) : Nat :=
  if ch.isDigit then ch.toNat - 48
  else if ch.isLower then ch.toNat - 87
  else if ch.isUpper then ch.toNat - 55
  else 36

def isDigitOf (base : Nat) (ch : Char) : Bool := digitValue ch < base

def ofDigitText (base : Nat) (digits : Text) : Nat :=
  digits.foldl (fun value ch => base * value + digitValue ch) 0

/-- The optional sign of a number. -/
def numberSign : Text → Bool × Text
  | '-' :: rest => (true, rest)
  | '+' :: rest => (false, rest)
  | line => (false, line)

/-- The base that `strtoul` finds when it is asked for base 0, and the digits after its mark. -/
def numberBase : Text → Nat × Text
  | '0' :: x :: digit :: rest =>
      if (x = 'x' ∨ x = 'X') ∧ isDigitOf 16 digit = true then (16, digit :: rest)
      else (8, '0' :: x :: digit :: rest)
  | '0' :: rest => (8, '0' :: rest)
  | line => (10, line)

/-- `strtoul` with base 0 and an `unsigned long` of this width: the value, whether it was in
range, and what is left; nothing when there is no number. -/
def strtoul (width : Nat) (line : Text) : Option (Nat × Bool × Text) :=
  let (negative, unsigned) := numberSign (line.dropWhile isSpace)
  let (base, start) := numberBase unsigned
  let digits := start.takeWhile (isDigitOf base)
  let value := ofDigitText base digits
  if digits = [] then none
  else if 2 ^ width ≤ value then some (2 ^ width - 1, false, start.dropWhile (isDigitOf base))
  else some ((if negative then (2 ^ width - value) % 2 ^ width else value), true,
    start.dropWhile (isDigitOf base))

/-- `DEFINE_PARSE_NUM` for `unsigned int` and `uint32_t`. -/
def parseUint (width : Nat) : Parser Nat := fun line =>
  match strtoul width line with
  | none => .error "Number missing"
  | some (_, false, _) => .error "Error converting number"
  | some (value, true, rest) => .ok (value % 2 ^ 32, rest)

/-- `strtol` with base 0 and a `long` of this width, in the same way. -/
def strtol (width : Nat) (line : Text) : Option (Int × Bool × Text) :=
  let (negative, unsigned) := numberSign (line.dropWhile isSpace)
  let (base, start) := numberBase unsigned
  let digits := start.takeWhile (isDigitOf base)
  let value := ofDigitText base digits
  let rest := start.dropWhile (isDigitOf base)
  if digits = [] then none
  else if negative then
    if 2 ^ (width - 1) < value then some (-2 ^ (width - 1), false, rest)
    else some (-value, true, rest)
  else if 2 ^ (width - 1) ≤ value then some (2 ^ (width - 1) - 1, false, rest)
  else some (value, true, rest)

/-- `DEFINE_PARSE_NUM` for `int`: the 32 bits of the value. -/
def parseInt (width : Nat) : Parser Nat := fun line =>
  match strtol width line with
  | none => .error "Number missing"
  | some (_, false, _) => .error "Error converting number"
  | some (value, true, rest) => .ok ((value % 2 ^ 32).toNat, rest)

/-- `DEFINE_PARSE_NUM` for `uint64_t`. -/
def parseUint64 : Parser Nat := fun line =>
  match strtoul 64 line with
  | none => .error "Number missing"
  | some (_, false, _) => .error "Error converting number"
  | some (value, true, rest) => .ok (value, rest)

def parseBit : Parser Nat := fun line =>
  match line with
  | '0' :: rest => .ok (0, rest)
  | '1' :: rest => .ok (1, rest)
  | _ => .error "Invalid bit value"

def parseUintArray (width : Nat) : Nat → Parser (List Nat)
  | 0, line => .ok ([], line)
  | 1, line => do
      let (value, line) ← parseUint width line
      .ok ([value], line)
  | count + 2, line => do
      let (value, line) ← parseUint width line
      let (_, line) ← parseWhitespace line
      let (values, line) ← parseUintArray width (count + 1) line
      .ok (value :: values, line)

/-- `"%u"`. -/
def formatUint (value : Nat) : Text := Nat.toDigits 10 value

/-- `"%d"` of the 32 bits of an `int`. -/
def formatInt (value : Nat) : Text :=
  if value < 2 ^ 31 then formatUint value else '-' :: formatUint (2 ^ 32 - value)

/-! ### The text of a number -/

theorem digitValue_digitChar : ∀ digit < 10, digitValue (Nat.digitChar digit) = digit := by decide

theorem exists_digitChar {ch : Char} (h : ch.isDigit = true) :
    ∃ digit < 10, ch = Nat.digitChar digit := by
  have hBounds := h
  simp only [Char.isDigit, Bool.and_eq_true, decide_eq_true_eq] at hBounds
  have hLow : 48 ≤ ch.toNat := UInt32.le_iff_toNat_le.mp hBounds.1
  have hHigh : ch.toNat ≤ 57 := UInt32.le_iff_toNat_le.mp hBounds.2
  have hChars : ∀ digit < 10, Char.ofNat (48 + digit) = Nat.digitChar digit := by decide
  refine ⟨ch.toNat - 48, by omega, ?_⟩
  rw [← hChars _ (by omega), Nat.add_sub_cancel' hLow, Char.ofNat_toNat]

theorem ofDigitText_append (base : Nat) (digits : Text) (ch : Char) :
    ofDigitText base (digits ++ [ch]) = base * ofDigitText base digits + digitValue ch := by
  simp [ofDigitText]

theorem ofDigitText_formatUint (value : Nat) : ofDigitText 10 (formatUint value) = value := by
  induction value using Nat.strongRecOn with
  | ind value ih =>
      by_cases hSmall : value < 10
      · rw [formatUint, Nat.toDigits_of_lt_base hSmall]
        simp [ofDigitText, digitValue_digitChar value hSmall]
      · have hRest := ih (value / 10) (by omega)
        rw [formatUint] at hRest
        rw [formatUint, Nat.toDigits_of_base_le (by omega) (by omega), ofDigitText_append, hRest,
          digitValue_digitChar _ (Nat.mod_lt _ (by omega))]
        omega

theorem formatUint_ne_nil (value : Nat) : formatUint value ≠ [] := by
  rw [formatUint, Nat.toDigits_eq_if (by omega)]
  split
  · simp
  · simp

theorem formatUint_length {value : Nat} (h : value < 2 ^ 32) : (formatUint value).length ≤ 10 :=
  (Nat.length_toDigits_le_iff (by omega) (by omega)).mpr (by omega)

/-- A number is written without leading zeros. -/
theorem formatUint_head {value : Nat} (h : value ≠ 0) : ∃ rest digit,
    formatUint value = Nat.digitChar digit :: rest ∧ 0 < digit ∧ digit < 10 := by
  induction value using Nat.strongRecOn with
  | ind value ih =>
      by_cases hSmall : value < 10
      · exact ⟨[], value, Nat.toDigits_of_lt_base hSmall, Nat.pos_of_ne_zero h, hSmall⟩
      · obtain ⟨rest, digit, hHead, hPos, hLt⟩ := ih (value / 10) (by omega) (by omega)
        rw [formatUint] at hHead
        refine ⟨rest ++ [Nat.digitChar (value % 10)], digit, ?_, hPos, hLt⟩
        rw [formatUint, Nat.toDigits_of_base_le (by omega) (by omega), hHead, List.cons_append]

theorem isDigitOf_of_isDigit {ch : Char} (h : ch.isDigit = true) : isDigitOf 10 ch = true := by
  have hRange : 48 ≤ ch.toNat ∧ ch.toNat ≤ 57 := by
    have hBounds := h
    simp only [Char.isDigit, Bool.and_eq_true, decide_eq_true_eq] at hBounds
    exact ⟨UInt32.le_iff_toNat_le.mp hBounds.1, UInt32.le_iff_toNat_le.mp hBounds.2⟩
  simp only [isDigitOf, digitValue, h, if_true, decide_eq_true_eq]
  omega

theorem formatUint_digits (value : Nat) : ∀ ch ∈ formatUint value, isDigitOf 10 ch = true :=
  fun _ hMem => isDigitOf_of_isDigit (Nat.isDigit_of_mem_toDigits (by omega) (by omega) hMem)

/-- A number that starts with its digits, none of them the mark of a base. -/
theorem formatUint_start {value : Nat} (h : value ≠ 0) (rest : Text) :
    (formatUint value ++ rest).dropWhile isSpace = formatUint value ++ rest ∧
      numberSign (formatUint value ++ rest) = (false, formatUint value ++ rest) ∧
      numberBase (formatUint value ++ rest) = (10, formatUint value ++ rest) := by
  obtain ⟨tail, digit, hHead, hPos, hLt⟩ := formatUint_head h
  have hPlain : ∀ digit < 10, 0 < digit → isSpace (Nat.digitChar digit) = false ∧
      Nat.digitChar digit ≠ '-' ∧ Nat.digitChar digit ≠ '+' ∧ Nat.digitChar digit ≠ '0' := by
    decide
  obtain ⟨hSpace, hMinus, hPlus, hMark⟩ := hPlain digit hLt hPos
  rw [hHead, List.cons_append]
  refine ⟨List.dropWhile_cons_of_neg (by simp [hSpace]), ?_, ?_⟩
  · unfold numberSign
    split
    · next hEq => exact absurd (List.cons.inj hEq).1 hMinus
    · next hEq => exact absurd (List.cons.inj hEq).1 hPlus
    · rfl
  · unfold numberBase
    split
    · next hEq => exact absurd (List.cons.inj hEq).1 hMark
    · next hEq => exact absurd (List.cons.inj hEq).1 hMark
    · rfl

theorem span_digits {digits rest : Text} (hDigits : ∀ ch ∈ digits, isDigitOf 10 ch = true)
    (hRest : ∀ ch ∈ rest.head?, isDigitOf 10 ch = false) :
    (digits ++ rest).takeWhile (isDigitOf 10) = digits ∧
      (digits ++ rest).dropWhile (isDigitOf 10) = rest := by
  rw [List.takeWhile_append_of_pos hDigits, List.dropWhile_append_of_pos hDigits]
  cases rest with
  | nil => exact ⟨List.append_nil _, rfl⟩
  | cons ch rest =>
      have hOther : ¬ isDigitOf 10 ch = true := by simp [hRest ch rfl]
      rw [List.takeWhile_cons_of_neg hOther, List.dropWhile_cons_of_neg hOther, List.append_nil]
      exact ⟨rfl, rfl⟩

theorem formatUint_span (value : Nat) {rest : Text}
    (hRest : ∀ ch ∈ rest.head?, isDigitOf 10 ch = false) :
    (formatUint value ++ rest).takeWhile (isDigitOf 10) = formatUint value ∧
      (formatUint value ++ rest).dropWhile (isDigitOf 10) = rest :=
  span_digits (formatUint_digits value) hRest

theorem strtoul_append {width value : Nat} {rest : Text} (hZero : value ≠ 0)
    (h : value < 2 ^ width) (hRest : ∀ ch ∈ rest.head?, isDigitOf 10 ch = false) :
    strtoul width (formatUint value ++ rest) = some (value, true, rest) := by
  obtain ⟨hSpace, hSign, hBase⟩ := formatUint_start hZero rest
  obtain ⟨hDigits, hAfter⟩ := formatUint_span value hRest
  simp only [strtoul, hSpace, hSign, hBase, hDigits, hAfter, formatUint_ne_nil,
    ofDigitText_formatUint, Nat.not_le.mpr h, if_false, Bool.false_eq_true]

theorem strtoul_formatUint {width value : Nat} (h : value < 2 ^ width) :
    strtoul width (formatUint value) = some (value, true, []) := by
  by_cases hZero : value = 0
  · subst hZero
    have hPos : ¬ 2 ^ width ≤ ofDigitText 8 ['0'] := Nat.not_le.mpr h
    change (if ['0'] = [] then none else if 2 ^ width ≤ ofDigitText 8 ['0'] then _ else _) = _
    rw [if_neg (by simp), if_neg hPos]
    rfl
  · have hText := @strtoul_append width value [] hZero h (by simp)
    rw [List.append_nil] at hText
    exact hText

/-- The numbers that are read are those of 32 bits. -/
theorem parseUint_lt {width : Nat} {line rest : Text} {value : Nat}
    (h : parseUint width line = .ok (value, rest)) : value < 2 ^ 32 := by
  unfold parseUint at h
  split at h
  · exact absurd h (by simp)
  · exact absurd h (by simp)
  · obtain ⟨rfl, -⟩ := Prod.mk.inj (Except.ok.inj h)
    exact Nat.mod_lt _ (Nat.two_pow_pos 32)

theorem parseUint_append {width value : Nat} {rest : Text} (hWidth : 32 ≤ width) (hZero : value ≠ 0)
    (h : value < 2 ^ 32) (hRest : ∀ ch ∈ rest.head?, isDigitOf 10 ch = false) :
    parseUint width (formatUint value ++ rest) = .ok (value, rest) := by
  have hLong : value < 2 ^ width := h.trans_le (Nat.pow_le_pow_right (by omega) hWidth)
  simp only [parseUint, strtoul_append hZero hLong hRest, Nat.mod_eq_of_lt h]

theorem parseUint_formatUint {width value : Nat} (hWidth : 32 ≤ width) (h : value < 2 ^ 32) :
    parseUint width (formatUint value) = .ok (value, []) := by
  have hLong : value < 2 ^ width := h.trans_le (Nat.pow_le_pow_right (by omega) hWidth)
  simp only [parseUint, strtoul_formatUint hLong, Nat.mod_eq_of_lt h]

theorem strtol_formatUint {width value : Nat} (h : value < 2 ^ (width - 1)) :
    strtol width (formatUint value) = some ((value : Int), true, []) := by
  by_cases hZero : value = 0
  · subst hZero
    have hPos : ¬ 2 ^ (width - 1) ≤ ofDigitText 8 ['0'] := Nat.not_le.mpr h
    have hText : strtol width ['0'] = if 2 ^ (width - 1) ≤ ofDigitText 8 ['0'] then
        some (2 ^ (width - 1) - 1, false, []) else some (0, true, []) := rfl
    exact hText.trans (if_neg hPos)
  · obtain ⟨hSpace, hSign, hBase⟩ := formatUint_start hZero []
    obtain ⟨hDigits, hAfter⟩ := @formatUint_span value [] (by simp)
    simp only [List.append_nil] at hSpace hSign hBase hDigits hAfter
    simp only [strtol, hSpace, hSign, hBase, hDigits, hAfter, formatUint_ne_nil,
      ofDigitText_formatUint, Nat.not_le.mpr h, if_false, Bool.false_eq_true]

theorem strtol_minus {width value : Nat} (hZero : value ≠ 0) (h : value ≤ 2 ^ (width - 1)) :
    strtol width ('-' :: formatUint value) = some (-(value : Int), true, []) := by
  have hSpace : ('-' :: formatUint value).dropWhile isSpace = '-' :: formatUint value := rfl
  have hSign : numberSign ('-' :: formatUint value) = (true, formatUint value) := rfl
  obtain ⟨-, -, hBase⟩ := formatUint_start hZero []
  obtain ⟨hDigits, hAfter⟩ := @formatUint_span value [] (by simp)
  simp only [List.append_nil] at hBase hDigits hAfter
  simp only [strtol, hSpace, hSign, hBase, hDigits, hAfter, formatUint_ne_nil,
    ofDigitText_formatUint, Nat.not_lt.mpr h, if_false, if_true]

theorem parseInt_formatInt {width value : Nat} (hWidth : 32 ≤ width) (h : value < 2 ^ 32) :
    parseInt width (formatInt value) = .ok (value, []) := by
  have hLong : 2 ^ 31 ≤ 2 ^ (width - 1) := Nat.pow_le_pow_right (by omega) (by omega)
  unfold parseInt formatInt
  by_cases hSign : value < 2 ^ 31
  · rw [if_pos hSign, strtol_formatUint (hSign.trans_le hLong)]
    simp only [Except.ok.injEq, Prod.mk.injEq, and_true]
    omega
  · rw [if_neg hSign, strtol_minus (by omega) (by omega)]
    simp only [Except.ok.injEq, Prod.mk.injEq, and_true]
    omega

end Server
