import Mathlib.Data.List.DropRight
import Mathlib.Data.Rat.Floor
import PandaBridge.FixedPoint.Significant
import PandaBridge.Server.Parse

/-! The texts of exact numbers: `"%.10g"` prints the ten significant digits of a rational, and
`strtod` reads decimal numbers. Hexadecimal numbers, infinities and NaN are left out. -/
namespace Server.Decimal

open FixedPoint

/-! ### Printing -/

/-- A fraction is printed without the zeros at its end. -/
def withFraction (whole fraction : Text) : Text :=
  let digits := fraction.rdropWhile (· == '0')
  if digits = [] then whole else whole ++ '.' :: digits

/-- An exponent has two digits at least. -/
def exponentText (place : Int) : Text :=
  let digits := formatUint place.natAbs
  'e' :: (if place < 0 then '-' else '+') :: if digits.length < 2 then '0' :: digits else digits

/-- Ten digits, the first of them at this place. Beyond the range of `double` nothing is left of
the digits. -/
def printDigits (code : Nat) (place : Int) : Text :=
  let digits := formatUint code
  if 308 < place then "inf".toList
  else if place < -324 then ['0']
  else if 0 ≤ place ∧ place < 10 then
    withFraction (digits.take (place.toNat + 1)) (digits.drop (place.toNat + 1))
  else if -4 ≤ place ∧ place < 0 then
    withFraction ['0'] (List.replicate (-place - 1).toNat '0' ++ digits)
  else withFraction (digits.take 1) (digits.drop 1) ++ exponentText place

/-- Rounding may carry into an eleventh digit. -/
def printMagnitude (size : ℚ) : Text :=
  let code := (significand .even 10 10 size).toNat
  if size = 0 then ['0']
  else if code = 10 ^ 10 then printDigits (10 ^ 9) (firstPlace 10 size + 1)
  else printDigits code (firstPlace 10 size)

/-- `"%.10g"`. -/
def printDouble (number : ℚ) : Text :=
  if number < 0 then '-' :: printMagnitude |number| else printMagnitude |number|

/-! ### Reading -/

/-- The exponent after the digits of a number, which is only there with a digit of its own. -/
def exponentPart : Text → Int × Text
  | [] => (0, [])
  | mark :: rest =>
      let (negative, unsigned) := numberSign rest
      let digits := unsigned.takeWhile (isDigitOf 10)
      let value : Int := ofDigitText 10 digits
      if (mark = 'e' ∨ mark = 'E') ∧ digits ≠ [] then
        (if negative then -value else value, unsigned.dropWhile (isDigitOf 10))
      else (0, mark :: rest)

/-- The digits after the point, if it is there. -/
def fractionPart : Text → Text × Text
  | '.' :: rest => (rest.takeWhile (isDigitOf 10), rest.dropWhile (isDigitOf 10))
  | line => ([], line)

/-- The value of the digits on both sides of a point. -/
def digitsValue (whole fraction : Text) (exponent : Int) : ℚ :=
  ofDigitText 10 (whole ++ fraction) * 10 ^ (exponent - fraction.length)

/-- A number without its sign, and what is left. -/
def readMagnitude (line : Text) : Option (ℚ × Text) :=
  let whole := line.takeWhile (isDigitOf 10)
  let (fraction, rest) := fractionPart (line.dropWhile (isDigitOf 10))
  let (exponent, rest) := exponentPart rest
  if whole ++ fraction = [] then none else some (digitsValue whole fraction exponent, rest)

/-- `strtod`: the number, that it was in range, and what is left; nothing when there is no
number. -/
def strtod (line : Text) : Option (ℚ × Bool × Text) :=
  let (negative, unsigned) := numberSign (line.dropWhile isSpace)
  (readMagnitude unsigned).map fun (size, rest) => (if negative then -size else size, true, rest)

example : printDouble (12500000001 / 125000000) = "100".toList := by decide +kernel
example : printDouble (1 / 30000) = "3.333333333e-05".toList := by decide +kernel
example : strtod "-2.50e+1x".toList = some (-25, true, ['x']) := by decide +kernel

/-! ### What is read from a text that was printed -/

theorem digitValue_zero : digitValue '0' = 0 := rfl

theorem digitsValue_trim (whole fraction : Text) (exponent : Int) :
    digitsValue whole (fraction.rdropWhile (· == '0')) exponent =
      digitsValue whole fraction exponent := by
  induction fraction using List.reverseRecOn with
  | nil => rfl
  | append_singleton fraction ch ih =>
      by_cases hZero : ch = '0'
      · subst hZero
        rw [List.rdropWhile_concat_pos _ _ _ (by rfl), ih]
        have hPlace : exponent - fraction.length =
            exponent - (fraction ++ ['0']).length + 1 := by
          rw [List.length_append, List.length_singleton]
          push_cast
          ring
        rw [digitsValue, digitsValue, ← List.append_assoc, ofDigitText_append, digitValue_zero,
          hPlace, zpow_add_one₀ (by norm_num)]
        push_cast
        ring
      · rw [List.rdropWhile_concat_neg _ _ _ (by simpa using hZero)]

theorem readMagnitude_withFraction {whole fraction : Text} (tail : Text) (exponent : Int)
    (hSome : whole ≠ []) (hWhole : ∀ ch ∈ whole, isDigitOf 10 ch = true)
    (hFraction : ∀ ch ∈ fraction, isDigitOf 10 ch = true) (hTail : ∀ ch ∈ tail.head?, ch = 'e')
    (hExponent : exponentPart tail = (exponent, [])) :
    readMagnitude (withFraction whole fraction ++ tail) =
      some (digitsValue whole fraction exponent, []) := by
  have hMark : ∀ ch ∈ tail.head?, isDigitOf 10 ch = false := by
    intro ch hHead
    rw [hTail ch hHead]
    rfl
  have hTrim : ∀ ch ∈ fraction.rdropWhile (· == '0'), isDigitOf 10 ch = true :=
    fun ch hMem => hFraction ch ((List.rdropWhile_prefix _ _).subset hMem)
  rw [← digitsValue_trim, withFraction]
  generalize fraction.rdropWhile (· == '0') = digits at hTrim ⊢
  split_ifs with hNone
  · obtain ⟨hTake, hDrop⟩ := span_digits hWhole hMark
    have hPart : fractionPart tail = ([], tail) := by
      unfold fractionPart
      split
      · exact absurd (hTail '.' rfl) (by decide)
      · rfl
    simp only [readMagnitude, hTake, hDrop, hPart, hExponent, hNone, List.append_nil, hSome,
      if_false]
  · obtain ⟨hTake, hDrop⟩ := @span_digits whole ('.' :: (digits ++ tail)) hWhole (by
      intro ch hHead
      rw [← Option.some.inj hHead]
      rfl)
    obtain ⟨hTakePart, hDropPart⟩ := span_digits hTrim hMark
    have hPart : fractionPart ('.' :: (digits ++ tail)) = (digits, tail) := by
      rw [fractionPart, hTakePart, hDropPart]
    have hBoth : whole ++ digits ≠ [] := fun hEmpty => hSome (List.append_eq_nil_iff.mp hEmpty).1
    rw [List.append_assoc, List.cons_append]
    simp only [readMagnitude, hTake, hDrop, hPart, hExponent, hBoth, if_false]

theorem exponentPart_exponentText (place : Int) : exponentPart (exponentText place) = (place, []) := by
  obtain ⟨digits, hDigits, hText⟩ : ∃ digits, (∀ ch ∈ digits, isDigitOf 10 ch = true) ∧
      exponentText place = 'e' :: (if place < 0 then '-' else '+') :: digits ∧ digits ≠ [] ∧
      ofDigitText 10 digits = place.natAbs := by
    have hPlain := formatUint_digits place.natAbs
    unfold exponentText
    simp only
    split_ifs
    all_goals first
      | exact ⟨_, hPlain, rfl, formatUint_ne_nil _, ofDigitText_formatUint _⟩
      | exact ⟨_, List.forall_mem_cons.mpr ⟨rfl, hPlain⟩, rfl, List.cons_ne_nil _ _,
          (ofDigitText_formatUint _)⟩
  obtain ⟨hText, hSome, hValue⟩ := hText
  have hSpan : digits.takeWhile (isDigitOf 10) = digits := List.takeWhile_eq_self_iff.mpr hDigits
  have hNone : digits.dropWhile (isDigitOf 10) = [] := List.dropWhile_eq_nil_iff.mpr hDigits
  rw [hText, exponentPart]
  split_ifs with hSign
  · simp only [numberSign, hSpan, hNone, hValue]
    rw [if_pos ⟨.inl trivial, hSome⟩, if_pos trivial, Prod.mk.injEq]
    exact ⟨by omega, rfl⟩
  · simp only [numberSign, hSpan, hNone, hValue]
    rw [if_pos ⟨.inl trivial, hSome⟩, if_neg Bool.false_ne_true, Prod.mk.injEq]
    exact ⟨by omega, rfl⟩

theorem formatUint_ten {code : Nat} (hLow : 10 ^ 9 ≤ code) (hHigh : code < 10 ^ 10) :
    (formatUint code).length = 10 := by
  have hMost : (formatUint code).length ≤ 10 :=
    (Nat.length_toDigits_le_iff (by omega) (by omega)).mpr hHigh
  have hLeast : ¬ (formatUint code).length ≤ 9 := fun hShort =>
    absurd ((Nat.length_toDigits_le_iff (by omega) (by omega)).mp hShort) (by omega)
  omega

theorem ofDigitText_zeros (count : Nat) (digits : Text) :
    ofDigitText 10 (List.replicate count '0' ++ digits) = ofDigitText 10 digits := by
  induction count with
  | zero => rfl
  | succ count ih =>
      rw [List.replicate_succ, List.cons_append]
      exact ih

theorem readMagnitude_printDigits {code : Nat} {place : Int} (hLow : 10 ^ 9 ≤ code)
    (hHigh : code < 10 ^ 10) (hPlace : -324 ≤ place) (hRange : place ≤ 308) :
    readMagnitude (printDigits code place) = some ((code : ℚ) * 10 ^ (place - 9), []) := by
  have hDigits := formatUint_digits code
  have hLength := formatUint_ten hLow hHigh
  have hTake : ∀ count, ∀ ch ∈ (formatUint code).take count, isDigitOf 10 ch = true :=
    fun count ch hMem => hDigits ch (List.mem_of_mem_take hMem)
  have hDrop : ∀ count, ∀ ch ∈ (formatUint code).drop count, isDigitOf 10 ch = true :=
    fun count ch hMem => hDigits ch (List.mem_of_mem_drop hMem)
  have hHead : ∀ count, (formatUint code).take (count + 1) ≠ [] := by
    intro count hEmpty
    have hNone := congrArg List.length hEmpty
    rw [List.length_take, List.length_nil] at hNone
    omega
  have hValue : ∀ count exponent, digitsValue ((formatUint code).take count)
      ((formatUint code).drop count) exponent =
        (code : ℚ) * 10 ^ (exponent - ((10 - count : Nat) : Int)) := by
    intro count exponent
    rw [digitsValue, List.take_append_drop, ofDigitText_formatUint, List.length_drop, hLength]
  unfold printDigits
  simp only
  rw [if_neg (by omega), if_neg (by omega)]
  split_ifs with hWhole hSmall
  · have hRead := readMagnitude_withFraction [] 0 (hHead place.toNat)
      (hTake _) (hDrop (place.toNat + 1)) (by simp) rfl
    rw [List.append_nil] at hRead
    rw [hRead, hValue, show (0 : Int) - ((10 - (place.toNat + 1) : Nat) : Int) = place - 9 by omega]
  · have hZeros : ∀ ch ∈ List.replicate (-place - 1).toNat '0' ++ formatUint code,
        isDigitOf 10 ch = true := by
      intro ch hMem
      rcases List.mem_append.mp hMem with hZero | hDigit
      · rw [List.eq_of_mem_replicate hZero]
        rfl
      · exact hDigits ch hDigit
    have hRead := readMagnitude_withFraction [] 0 (show ['0'] ≠ [] by simp) (List.all_eq_true.mp rfl)
      hZeros (by simp) rfl
    rw [List.append_nil] at hRead
    have hPoint : ofDigitText 10 (['0'] ++ (List.replicate (-place - 1).toNat '0' ++
        formatUint code)) = code := by
      rw [← List.append_assoc, ← List.replicate_one, ← List.replicate_add, ofDigitText_zeros,
        ofDigitText_formatUint]
    rw [hRead, digitsValue, hPoint, List.length_append, List.length_replicate, hLength,
      show (0 : Int) - (((-place - 1).toNat + 10 : Nat) : Int) = place - 9 by omega]
  · rw [readMagnitude_withFraction _ place (hHead 0) (hTake 1) (hDrop 1)
      (by simp [exponentText]) (exponentPart_exponentText place), hValue]
    rfl

/-- Rounding to ten digits is all that happens to a number of this range. -/
theorem readMagnitude_printMagnitude {size : ℚ} (hPos : 0 < size)
    (hLow : -324 ≤ firstPlace 10 size) (hHigh : firstPlace 10 size < 308) :
    readMagnitude (printMagnitude size) = some (significant .even 10 10 size, []) := by
  obtain ⟨hLeast, hMost⟩ := significand_bounds (show 1 < 10 by omega) .even
    (show 0 < 10 by omega) hPos
  obtain ⟨code, hCode⟩ := Int.eq_ofNat_of_zero_le ((Int.natCast_nonneg _).trans hLeast)
  have hUnit : lastUnit 10 10 size = 10 ^ (firstPlace 10 size - 9) := by
    rw [lastUnit, show firstPlace 10 size + 1 - ((10 : Nat) : Int) = firstPlace 10 size - 9 by omega]
    norm_num
  rw [hCode] at hLeast hMost
  rw [printMagnitude, significant, hCode, hUnit, if_neg hPos.ne', Int.toNat_natCast]
  split_ifs with hCarry
  · rw [readMagnitude_printDigits le_rfl (by norm_num) (by omega) (by omega), hCarry,
      show firstPlace 10 size + 1 - 9 = firstPlace 10 size - 9 + 1 by ring,
      zpow_add_one₀ (by norm_num)]
    congr 2
    push_cast
    ring
  · rw [readMagnitude_printDigits (by exact_mod_cast hLeast)
      (lt_of_le_of_ne (by exact_mod_cast hMost) hCarry) hLow (by omega), Int.cast_natCast]

/-- A number starts with a digit or a point. -/
theorem readMagnitude_head {ch : Char} {line : Text} (h : (readMagnitude (ch :: line)).isSome) :
    isDigitOf 10 ch = true ∨ ch = '.' := by
  by_contra hNot
  obtain ⟨hDigit, hPoint⟩ := not_or.mp hNot
  have hPart : fractionPart (ch :: line) = ([], ch :: line) := by
    unfold fractionPart
    split
    · next hSame => exact absurd (List.cons.inj hSame).1 hPoint
    · rfl
  simp [readMagnitude, List.takeWhile_cons_of_neg hDigit, List.dropWhile_cons_of_neg hDigit,
    hPart] at h

theorem start_of_readMagnitude {line : Text} (h : (readMagnitude line).isSome) :
    skipWhitespace line = line ∧ line.dropWhile isSpace = line ∧ numberSign line = (false, line) := by
  cases line with
  | nil => exact ⟨rfl, rfl, rfl⟩
  | cons ch line =>
      have hOther : ∀ other : Char, isDigitOf 10 other = false → other ≠ '.' → ch ≠ other := by
        intro other hDigit hPoint hSame
        subst hSame
        rcases readMagnitude_head h with hHead | hHead
        · exact absurd hHead (by simp [hDigit])
        · exact hPoint hHead
      have hSpace : isSpace ch = false := by
        rcases readMagnitude_head h with hHead | rfl
        · by_contra hBlank
          simp only [isSpace, Bool.not_eq_false, Bool.or_eq_true, beq_iff_eq, Bool.and_eq_true,
            decide_eq_true_eq] at hBlank
          rcases hBlank with rfl | ⟨hLow, hHigh⟩
          · exact absurd hHead (by decide)
          · have hRange : ch.toNat = 9 ∨ ch.toNat = 10 ∨ ch.toNat = 11 ∨ ch.toNat = 12 ∨
                ch.toNat = 13 := by omega
            have hSame : ∀ code, ch.toNat = code → ch = Char.ofNat code := by
              rintro code rfl
              exact (Char.ofNat_toNat ch).symm
            rcases hRange with hCode | hCode | hCode | hCode | hCode <;>
              rw [hSame _ hCode] at hHead <;> exact absurd hHead (by decide)
        · rfl
      have hBlank : (ch == ' ' || ch == '\t') = false := by
        simp [hOther ' ' rfl (by decide), hOther '\t' rfl (by decide)]
      refine ⟨List.dropWhile_cons_of_neg (by simpa using hBlank),
        List.dropWhile_cons_of_neg (by simp [hSpace]), ?_⟩
      unfold numberSign
      split
      · next hSame => exact absurd (List.cons.inj hSame).1 (hOther '-' rfl (by decide))
      · next hSame => exact absurd (List.cons.inj hSame).1 (hOther '+' rfl (by decide))
      · rfl

/-- A number with its first digit in this range, or zero. -/
def InRange (number : ℚ) : Prop :=
  number = 0 ∨ 0 < number ∧ -324 ≤ firstPlace 10 number ∧ firstPlace 10 number < 308

theorem readMagnitude_printDouble {number : ℚ} (h : InRange number) :
    readMagnitude (printDouble number) = some (significant .even 10 10 number, []) := by
  rcases h with rfl | ⟨hPos, hLow, hHigh⟩
  · rw [significant_zero]
    decide +kernel
  · rw [printDouble, if_neg (not_lt.mpr hPos.le), abs_of_pos hPos]
    exact readMagnitude_printMagnitude hPos hLow hHigh

/-- A number is read back rounded to ten digits. -/
theorem strtod_printDouble {number : ℚ} (h : InRange number) :
    skipWhitespace (printDouble number) = printDouble number ∧
      strtod (printDouble number) = some (significant .even 10 10 number, true, []) := by
  have hRead := readMagnitude_printDouble h
  obtain ⟨hSkip, hSpace, hSign⟩ := @start_of_readMagnitude (printDouble number) (by simp [hRead])
  refine ⟨hSkip, ?_⟩
  rw [strtod, hSpace, hSign]
  simp only [hRead, Option.map_some, Bool.false_eq_true, if_false]

/-! ### The length and the characters of a printed number -/

theorem length_withFraction (whole fraction : Text) :
    (withFraction whole fraction).length ≤ whole.length + 1 + fraction.length := by
  have hTrim := (List.rdropWhile_prefix (· == '0') fraction).length_le
  unfold withFraction
  simp only
  split_ifs
  · omega
  · rw [List.length_append, List.length_cons]
    omega

theorem length_exponentText {place : Int} (h : place.natAbs < 1000) :
    (exponentText place).length ≤ 5 := by
  have hDigits : (formatUint place.natAbs).length ≤ 3 :=
    (Nat.length_toDigits_le_iff (by omega) (by omega)).mpr h
  unfold exponentText
  simp only [List.length_cons]
  split_ifs
  · rw [List.length_cons]
    omega
  · omega

theorem length_printDigits {code : Nat} (hCode : code < 10 ^ 10) (place : Int) :
    (printDigits code place).length ≤ 16 := by
  have hDigits : (formatUint code).length ≤ 10 :=
    (Nat.length_toDigits_le_iff (by omega) (by omega)).mpr hCode
  have hSplit : ∀ count, (withFraction ((formatUint code).take count)
      ((formatUint code).drop count)).length ≤ 11 := by
    intro count
    have hBoth := length_withFraction ((formatUint code).take count) ((formatUint code).drop count)
    have hWhole := congrArg List.length (List.take_append_drop count (formatUint code))
    rw [List.length_append] at hWhole
    omega
  unfold printDigits
  simp only
  split_ifs with hLarge hTiny hWhole hSmall
  · decide
  · decide
  · exact (hSplit _).trans (by omega)
  · refine (length_withFraction _ _).trans ?_
    rw [List.length_singleton, List.length_append, List.length_replicate]
    omega
  · have hExponent := @length_exponentText place (by omega)
    rw [List.length_append]
    exact (Nat.add_le_add (hSplit 1) hExponent).trans (by omega)

theorem length_printDouble (number : ℚ) : (printDouble number).length ≤ 17 := by
  have hMagnitude : ∀ size : ℚ, 0 ≤ size → (printMagnitude size).length ≤ 16 := by
    intro size hSize
    unfold printMagnitude
    simp only
    split_ifs with hZero hCarry
    · decide
    · exact length_printDigits (by norm_num) _
    · obtain ⟨-, hMost⟩ := significand_bounds (show 1 < 10 by omega) .even
        (show 0 < 10 by omega) (lt_of_le_of_ne hSize (Ne.symm hZero))
      exact length_printDigits (by omega) _
  unfold printDouble
  split_ifs with hSign
  · rw [List.length_cons]
    have hSize := hMagnitude |number| (abs_nonneg number)
    omega
  · exact (hMagnitude |number| (abs_nonneg number)).trans (by omega)

/-- A character of a number. -/
def isNumeric (ch : Char) : Bool :=
  isDigitOf 10 ch || ch == '.' || ch == 'e' || ch == '+' || ch == '-' || ch == 'i' || ch == 'n' ||
    ch == 'f'

theorem numeric_of_digit {ch : Char} (h : isDigitOf 10 ch = true) : isNumeric ch = true := by
  simp [isNumeric, h]

theorem numeric_withFraction {whole fraction : Text} (hWhole : ∀ ch ∈ whole, isNumeric ch = true)
    (hFraction : ∀ ch ∈ fraction, isNumeric ch = true) :
    ∀ ch ∈ withFraction whole fraction, isNumeric ch = true := by
  have hTrim : ∀ ch ∈ fraction.rdropWhile (· == '0'), isNumeric ch = true :=
    fun ch hMem => hFraction ch ((List.rdropWhile_prefix _ _).subset hMem)
  unfold withFraction
  simp only
  split_ifs
  · exact hWhole
  · intro ch hMem
    rcases List.mem_append.mp hMem with hBefore | hAfter
    · exact hWhole ch hBefore
    · rcases List.mem_cons.mp hAfter with rfl | hDigit
      · rfl
      · exact hTrim ch hDigit

theorem numeric_printDigits (code : Nat) (place : Int) :
    ∀ ch ∈ printDigits code place, isNumeric ch = true := by
  have hDigits : ∀ value, ∀ ch ∈ formatUint value, isNumeric ch = true :=
    fun value ch hMem => numeric_of_digit (formatUint_digits value ch hMem)
  have hSplit : ∀ count, ∀ ch ∈ withFraction ((formatUint code).take count)
      ((formatUint code).drop count), isNumeric ch = true :=
    fun count => numeric_withFraction (fun ch hMem => hDigits _ ch (List.mem_of_mem_take hMem))
      fun ch hMem => hDigits _ ch (List.mem_of_mem_drop hMem)
  have hExponent : ∀ ch ∈ exponentText place, isNumeric ch = true := by
    unfold exponentText
    simp only
    split_ifs
    all_goals first
      | exact List.forall_mem_cons.mpr ⟨rfl, List.forall_mem_cons.mpr ⟨rfl,
          List.forall_mem_cons.mpr ⟨rfl, hDigits _⟩⟩⟩
      | exact List.forall_mem_cons.mpr ⟨rfl, List.forall_mem_cons.mpr ⟨rfl, hDigits _⟩⟩
  unfold printDigits
  simp only
  split_ifs
  · exact List.all_eq_true.mp rfl
  · exact List.all_eq_true.mp rfl
  · exact hSplit _
  · refine numeric_withFraction (List.all_eq_true.mp rfl) fun ch hMem => ?_
    rcases List.mem_append.mp hMem with hZero | hDigit
    · rw [List.eq_of_mem_replicate hZero]
      rfl
    · exact hDigits _ ch hDigit
  · intro ch hMem
    rcases List.mem_append.mp hMem with hNumber | hPlace
    · exact hSplit 1 ch hNumber
    · exact hExponent ch hPlace

theorem numeric_printDouble (number : ℚ) : ∀ ch ∈ printDouble number, isNumeric ch = true := by
  have hMagnitude : ∀ size : ℚ, ∀ ch ∈ printMagnitude size, isNumeric ch = true := by
    intro size
    unfold printMagnitude
    simp only
    split_ifs
    · exact List.all_eq_true.mp rfl
    · exact numeric_printDigits _ _
    · exact numeric_printDigits _ _
  unfold printDouble
  split_ifs
  · exact List.forall_mem_cons.mpr ⟨rfl, hMagnitude _⟩
  · exact hMagnitude _

end Server.Decimal
