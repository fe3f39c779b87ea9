import Mathlib.Data.List.Nodup
import Mathlib.Data.Nat.Bitwise
import PandaBridge.Server.Parse

/-! Base 64. Bytes are numbers below 256. -/
namespace Server

/-- `encode`. -/
def base64Alphabet : Text :=
  "ABCDEFGHIJKLMNOPQRSTUVWXYZabcdefghijklmnopqrstuvwxyz0123456789+/".toList

def encodeChar (digit : Nat) : Char := base64Alphabet.getD digit 'A'

/-- `decode`: the digit of a character, or `0xff`. -/
def decodeChar (ch : Char) : Nat :=
  if ch ∈ base64Alphabet then base64Alphabet.idxOf ch else 0xff

/-- `base64_encode`. -/
def base64Encode : List Nat → Text
  | a :: b :: c :: rest =>
      encodeChar (a >>> 2) ::
      encodeChar ((a <<< 4 ||| b >>> 4) &&& 0x3f) ::
      encodeChar ((b <<< 2 ||| c >>> 6) &&& 0x3f) ::
      encodeChar (c &&& 0x3f) :: base64Encode rest
  | [a, b] =>
      [encodeChar (a >>> 2), encodeChar ((a <<< 4 ||| b >>> 4) &&& 0x3f),
        encodeChar ((b <<< 2) &&& 0x3f), '=']
  | [a] => [encodeChar (a >>> 2), encodeChar ((a <<< 4) &&& 0x3f), '=', '=']
  | [] => []

inductive Base64Status
  | ok
  | malformed
  | overrun
  deriving DecidableEq

/-- The trailing signs of a string whose length is a multiple of four. -/
def trimPadding (string : Text) : Text :=
  if string.length % 4 = 0 then dropSign (dropSign string) else string
where
  dropSign (string : Text) : Text :=
    if string.getLast? = some '=' then string.dropLast else string

def convertedLength (length : Nat) : Nat :=
  3 * (length / 4) + (if 0 < length % 4 then length % 4 - 1 else 0)

/-- The characters in blocks of four, with all bytes that are written up to the first error. -/
def decodeBlocks : Text → Base64Status × List Nat
  | a :: b :: c :: d :: rest =>
      if decodeChar a ||| decodeChar b ||| decodeChar c ||| decodeChar d = 0xff then (.malformed, [])
      else
        let (status, bytes) := decodeBlocks rest
        (status,
          (decodeChar a <<< 2 ||| decodeChar b >>> 4) % 256 ::
          (decodeChar b <<< 4 ||| decodeChar c >>> 2) % 256 ::
          (decodeChar c <<< 6 ||| decodeChar d) % 256 :: bytes)
  | [a, b, c] =>
      if decodeChar a ||| decodeChar b ||| decodeChar c = 0xff then (.malformed, [])
      else (.ok, [(decodeChar a <<< 2 ||| decodeChar b >>> 4) % 256,
        (decodeChar b <<< 4 ||| decodeChar c >>> 2) % 256])
  | [a, b] =>
      if decodeChar a ||| decodeChar b = 0xff then (.malformed, [])
      else (.ok, [(decodeChar a <<< 2 ||| decodeChar b >>> 4) % 256])
  | [_] => (.malformed, [])
  | [] => (.ok, [])

/-- `base64_decode`: the status, `converted`, and the bytes written. -/
def base64Decode (string : Text) (maxLength : Nat) : Base64Status × Nat × List Nat :=
  let trimmed := trimPadding string
  let converted := convertedLength trimmed.length
  if maxLength < converted then (.overrun, converted, [])
  else
    let (status, bytes) := decodeBlocks trimmed
    (status, converted, bytes)

/-! ### The round trip -/

theorem base64Alphabet_eq : base64Alphabet =
    (List.range' 65 26 ++ List.range' 97 26 ++ List.range' 48 10 ++ [43, 47]).map Char.ofNat :=
  String.toList_ofList.trans rfl

theorem base64Alphabet_length : base64Alphabet.length = 64 := by
  rw [base64Alphabet_eq]
  rfl

theorem base64Alphabet_nodup : base64Alphabet.Nodup := by
  apply List.Nodup.of_map Char.toNat
  rw [base64Alphabet_eq]
  decide +kernel

theorem encodeChar_mem (digit : Nat) (hDigit : digit < 64) : encodeChar digit ∈ base64Alphabet := by
  have hLess : digit < base64Alphabet.length := by rwa [base64Alphabet_length]
  rw [encodeChar, List.getD_eq_getElem _ _ hLess]
  exact List.getElem_mem hLess

theorem decodeChar_encodeChar (digit : Nat) (hDigit : digit < 64) :
    decodeChar (encodeChar digit) = digit := by
  have hLess : digit < base64Alphabet.length := by rwa [base64Alphabet_length]
  rw [decodeChar, if_pos (encodeChar_mem digit hDigit), encodeChar, List.getD_eq_getElem _ _ hLess]
  exact base64Alphabet_nodup.idxOf_getElem digit hLess

theorem encodeChar_ne_sign (digit : Nat) (hDigit : digit < 64) : encodeChar digit ≠ '=' := by
  intro hSign
  have hMem := encodeChar_mem digit hDigit
  rw [hSign, base64Alphabet_eq] at hMem
  exact absurd hMem (by decide)

theorem null_not_mem_alphabet : '\x00' ∉ base64Alphabet := by
  rw [base64Alphabet_eq]
  decide

theorem newline_not_mem_alphabet : '\n' ∉ base64Alphabet := by
  rw [base64Alphabet_eq]
  decide

/-- The digits of some bytes, without the signs that pad them. -/
def base64Digits : List Nat → List Nat
  | a :: b :: c :: rest =>
      a / 4 :: (a * 16 + b / 16) % 64 :: (b * 4 + c / 64) % 64 :: c % 64 :: base64Digits rest
  | [a, b] => [a / 4, (a * 16 + b / 16) % 64, b * 4 % 64]
  | [a] => [a / 4, a * 16 % 64]
  | [] => []

theorem shift_or {a b : Nat} (shift : Nat) (h : b < 2 ^ shift) :
    a <<< shift ||| b = a * 2 ^ shift + b := by
  rw [← Nat.shiftLeft_add_eq_or_of_lt h, Nat.shiftLeft_eq]

theorem and_3f (value : Nat) : value &&& 0x3f = value % 64 := Nat.and_two_pow_sub_one_eq_mod value 6

/-- The signs that pad the digits of a number of bytes. -/
def base64Signs (length : Nat) : Text :=
  match length % 3 with
  | 0 => []
  | 1 => ['=', '=']
  | _ => ['=']

theorem base64Signs_length (length : Nat) : (base64Signs length).length = (3 - length % 3) % 3 := by
  have hThree : length % 3 = 0 ∨ length % 3 = 1 ∨ length % 3 = 2 := by omega
  rcases hThree with hMod | hMod | hMod <;> simp [base64Signs, hMod]

theorem base64Encode_eq {bytes : List Nat} (h : ∀ byte ∈ bytes, byte < 256) :
    base64Encode bytes = (base64Digits bytes).map encodeChar ++ base64Signs bytes.length := by
  fun_induction base64Encode bytes with
  | case1 a b c rest ih =>
      have hB := h b (by simp)
      have hC := h c (by simp)
      have hSigns : base64Signs (rest.length + 1 + 1 + 1) = base64Signs rest.length := by
        have hMod : (rest.length + 1 + 1 + 1) % 3 = rest.length % 3 := by omega
        rw [base64Signs, hMod, base64Signs]
      rw [ih fun byte hByte => h byte (by simp [hByte])]
      simp only [base64Digits, List.map_cons, List.cons_append, List.length_cons, hSigns, and_3f,
        Nat.shiftRight_eq_div_pow]
      rw [shift_or 4 (by omega), shift_or 2 (by omega)]
      rfl
  | case2 a b =>
      have hB := h b (by simp)
      simp only [base64Digits, List.map_cons, List.map_nil, and_3f, Nat.shiftRight_eq_div_pow]
      rw [shift_or 4 (by omega), Nat.shiftLeft_eq]
      rfl
  | case3 a =>
      simp only [base64Digits, List.map_cons, List.map_nil, and_3f, Nat.shiftRight_eq_div_pow,
        Nat.shiftLeft_eq]
      rfl
  | case4 => rfl

theorem base64Digits_lt {bytes : List Nat} (h : ∀ byte ∈ bytes, byte < 256) :
    ∀ digit ∈ base64Digits bytes, digit < 64 := by
  fun_induction base64Digits bytes with
  | case1 a b c rest ih =>
      have hA := h a (by simp)
      have hRest := ih fun byte hByte => h byte (by simp [hByte])
      intro digit hDigit
      simp only [List.mem_cons] at hDigit
      rcases hDigit with rfl | rfl | rfl | rfl | hMem
      · omega
      · omega
      · omega
      · omega
      · exact hRest digit hMem
  | case2 a | case3 a =>
      have hA := h a (by simp)
      intro digit hDigit
      simp only [List.mem_cons, List.not_mem_nil, or_false] at hDigit
      omega
  | case4 => exact nofun

theorem base64Digits_length (bytes : List Nat) :
    (base64Digits bytes).length = 4 * (bytes.length / 3) +
      (if bytes.length % 3 = 0 then 0 else bytes.length % 3 + 1) := by
  fun_induction base64Digits bytes with
  | case1 a b c rest ih =>
      simp only [List.length_cons, ih]
      have hMod : (rest.length + 1 + 1 + 1) % 3 = rest.length % 3 := by omega
      rw [hMod]
      omega
  | case2 | case3 => simp
  | case4 => rfl

theorem convertedLength_digits (bytes : List Nat) :
    convertedLength (base64Digits bytes).length = bytes.length := by
  rw [base64Digits_length, convertedLength]
  split_ifs <;> omega

theorem dropSign_append (text : Text) : trimPadding.dropSign (text ++ ['=']) = text := by
  simp [trimPadding.dropSign]

theorem dropSign_of_not_mem {text : Text} (h : '=' ∉ text) : trimPadding.dropSign text = text := by
  unfold trimPadding.dropSign
  split_ifs with hLast
  · exact absurd (List.mem_of_getLast? hLast) h
  · rfl

theorem trimPadding_encode {bytes : List Nat} (h : ∀ byte ∈ bytes, byte < 256) :
    trimPadding (base64Encode bytes) = (base64Digits bytes).map encodeChar := by
  have hDigits : '=' ∉ (base64Digits bytes).map encodeChar := by
    intro hMem
    obtain ⟨digit, hDigit, hSign⟩ := List.mem_map.mp hMem
    exact encodeChar_ne_sign digit (base64Digits_lt h digit hDigit) hSign
  have hLength : ((base64Digits bytes).map encodeChar ++ base64Signs bytes.length).length % 4 = 0 := by
    rw [List.length_append, List.length_map, base64Digits_length, base64Signs_length]
    split_ifs <;> omega
  rw [base64Encode_eq h, trimPadding, if_pos hLength]
  have hThree : bytes.length % 3 = 0 ∨ bytes.length % 3 = 1 ∨ bytes.length % 3 = 2 := by omega
  rcases hThree with hMod | hMod | hMod
  · simp only [base64Signs, hMod, List.append_nil]
    rw [dropSign_of_not_mem hDigits, dropSign_of_not_mem hDigits]
  · simp only [base64Signs, hMod]
    rw [show ['=', '='] = ['='] ++ ['='] from rfl, ← List.append_assoc, dropSign_append,
      dropSign_append]
  · simp only [base64Signs, hMod]
    rw [dropSign_append, dropSign_of_not_mem hDigits]

/-- The blocks of four give their three bytes back. -/
theorem decodeBlocks_digits {bytes : List Nat} (h : ∀ byte ∈ bytes, byte < 256) :
    decodeBlocks ((base64Digits bytes).map encodeChar) = (.ok, bytes) := by
  have hOr : ∀ first second, first < 64 → second < 64 → first ||| second < 64 :=
    fun first second hFirst hSecond => @Nat.or_lt_two_pow first second 6 hFirst hSecond
  fun_induction base64Digits bytes with
  | case1 a b c rest ih =>
      have hA := h a (by simp)
      have hB := h b (by simp)
      have hC := h c (by simp)
      have hRest := ih fun byte hByte => h byte (by simp [hByte])
      have hValid : ¬ a / 4 ||| (a * 16 + b / 16) % 64 ||| (b * 4 + c / 64) % 64 ||| c % 64 = 0xff := by
        have := hOr _ (c % 64) (hOr _ ((b * 4 + c / 64) % 64)
          (hOr (a / 4) ((a * 16 + b / 16) % 64) (by omega) (by omega)) (by omega)) (by omega)
        omega
      simp only [List.map_cons, decodeBlocks, decodeChar_encodeChar _ (show a / 4 < 64 by omega),
        decodeChar_encodeChar _ (Nat.mod_lt _ (by decide)), hValid, if_false, hRest,
        Nat.shiftRight_eq_div_pow]
      rw [shift_or 2 (by omega), shift_or 4 (by omega), shift_or 6 (by omega)]
      congr
      · omega
      · omega
      · omega
  | case2 a b =>
      have hA := h a (by simp)
      have hB := h b (by simp)
      have hValid : ¬ a / 4 ||| (a * 16 + b / 16) % 64 ||| b * 4 % 64 = 0xff := by
        have := hOr _ (b * 4 % 64) (hOr (a / 4) ((a * 16 + b / 16) % 64) (by omega) (by omega))
          (by omega)
        omega
      simp only [List.map_cons, List.map_nil, decodeBlocks,
        decodeChar_encodeChar _ (show a / 4 < 64 by omega),
        decodeChar_encodeChar _ (Nat.mod_lt _ (by decide)), hValid, if_false,
        Nat.shiftRight_eq_div_pow]
      rw [shift_or 2 (by omega), shift_or 4 (by omega)]
      congr
      · omega
      · omega
  | case3 a =>
      have hA := h a (by simp)
      have hValid : ¬ a / 4 ||| a * 16 % 64 = 0xff := by
        have := hOr (a / 4) (a * 16 % 64) (by omega) (by omega)
        omega
      simp only [List.map_cons, List.map_nil, decodeBlocks,
        decodeChar_encodeChar _ (show a / 4 < 64 by omega),
        decodeChar_encodeChar _ (Nat.mod_lt _ (by decide)), hValid, if_false,
        Nat.shiftRight_eq_div_pow]
      rw [shift_or 2 (by omega)]
      congr
      omega
  | case4 => rfl

theorem base64Decode_encode {bytes : List Nat} (h : ∀ byte ∈ bytes, byte < 256) {maxLength : Nat}
    (hFits : bytes.length ≤ maxLength) :
    base64Decode (base64Encode bytes) maxLength = (.ok, bytes.length, bytes) := by
  simp only [base64Decode, trimPadding_encode h, List.length_map, convertedLength_digits,
    Nat.not_lt.mpr hFits, if_false, decodeBlocks_digits h]

/-! ### Any string -/

theorem convertedLength_add (length : Nat) :
    convertedLength (length + 1 + 1 + 1 + 1) = convertedLength length + 3 := by
  have hMod : (length + 1 + 1 + 1 + 1) % 4 = length % 4 := by omega
  rw [convertedLength, convertedLength, hMod]
  omega

/-- What is written never goes beyond what was converted, and is all of it when there is no
error. -/
theorem decodeBlocks_length (string : Text) :
    (decodeBlocks string).2.length ≤ convertedLength string.length ∧
      ((decodeBlocks string).1 = .ok →
        (decodeBlocks string).2.length = convertedLength string.length) := by
  fun_induction decodeBlocks string with
  | case1 => exact ⟨Nat.zero_le _, nofun⟩
  | case2 a b c d rest hValid status bytes hRest ih =>
      simp only [hRest] at ih
      simp only [List.length_cons, convertedLength_add]
      refine ⟨by omega, fun hOk => ?_⟩
      have hLength := ih.2 hOk
      omega
  | case3 | case5 | case7 => exact ⟨Nat.zero_le _, nofun⟩
  | case4 | case6 | case8 => simp [convertedLength]

theorem base64Decode_length (string : Text) (maxLength : Nat) :
    (base64Decode string maxLength).2.2.length ≤ maxLength ∧
      ((base64Decode string maxLength).1 = .ok →
        (base64Decode string maxLength).2.1 = (base64Decode string maxLength).2.2.length) := by
  obtain ⟨hLe, hOk⟩ := decodeBlocks_length (trimPadding string)
  unfold base64Decode
  simp only
  split_ifs with hOverrun
  · exact ⟨Nat.zero_le _, nofun⟩
  · exact ⟨hLe.trans (Nat.not_lt.mp hOverrun), fun hStatus => (hOk hStatus).symm⟩

/-! ### What is accepted -/

/-- An entry of the table `decode`: six bits, or all eight for a character that stands for none. -/
def DecodeEntry (entry : Nat) : Prop := entry < 64 ∨ entry = 0xff

theorem decodeChar_entry (ch : Char) : DecodeEntry (decodeChar ch) := by
  unfold decodeChar
  split_ifs with hMem
  · exact Or.inl (base64Alphabet_length ▸ List.idxOf_lt_length_of_mem hMem)
  · exact Or.inr rfl

theorem decodeChar_eq_ff (ch : Char) : decodeChar ch = 0xff ↔ ch ∉ base64Alphabet := by
  unfold decodeChar
  split_ifs with hMem
  · have hLess : base64Alphabet.idxOf ch < 64 :=
      base64Alphabet_length ▸ List.idxOf_lt_length_of_mem hMem
    exact ⟨fun hEq => by omega, fun hNot => absurd hMem hNot⟩
  · exact ⟨fun _ => hMem, fun _ => rfl⟩

theorem ff_or {entry : Nat} (h : DecodeEntry entry) : 0xff ||| entry = 0xff := by
  have hByte : entry < 2 ^ 8 := by
    rcases h with hLess | rfl
    · omega
    · decide
  apply Nat.eq_of_testBit_eq
  intro bit
  rw [Nat.testBit_or, show 0xff = 2 ^ 8 - 1 from rfl, Nat.testBit_two_pow_sub_one]
  by_cases hBit : bit < 8
  · rw [decide_eq_true hBit, Bool.true_or]
  · have hHigh : entry < 2 ^ bit := hByte.trans_le (Nat.pow_le_pow_right (by decide) (by omega))
    rw [Nat.testBit_lt_two_pow hHigh, Bool.or_false]

theorem DecodeEntry.or {first second : Nat} (hFirst : DecodeEntry first)
    (hSecond : DecodeEntry second) : DecodeEntry (first ||| second) := by
  rcases hFirst with hLess | rfl
  · rcases hSecond with hLess' | rfl
    · exact Or.inl (@Nat.or_lt_two_pow first second 6 hLess hLess')
    · rw [Nat.lor_comm, ff_or (Or.inl hLess)]
      exact Or.inr rfl
  · rw [ff_or hSecond]
    exact Or.inr rfl

/-- One character outside the alphabet shows in the disjunction of the entries. -/
theorem or_eq_ff {first second : Nat} (hFirst : DecodeEntry first) (hSecond : DecodeEntry second) :
    first ||| second = 0xff ↔ first = 0xff ∨ second = 0xff := by
  rcases hFirst with hLess | rfl
  · rcases hSecond with hLess' | rfl
    · have hOr : first ||| second < 64 := @Nat.or_lt_two_pow first second 6 hLess hLess'
      omega
    · rw [Nat.lor_comm, ff_or (Or.inl hLess)]
      simp
  · rw [ff_or hSecond]
    simp

theorem two_valid (a b : Char) : ¬ decodeChar a ||| decodeChar b = 0xff ↔
    a ∈ base64Alphabet ∧ b ∈ base64Alphabet := by
  rw [or_eq_ff (decodeChar_entry a) (decodeChar_entry b), decodeChar_eq_ff, decodeChar_eq_ff,
    ← not_and_or, not_not]

theorem three_valid (a b c : Char) : ¬ decodeChar a ||| decodeChar b ||| decodeChar c = 0xff ↔
    (a ∈ base64Alphabet ∧ b ∈ base64Alphabet) ∧ c ∈ base64Alphabet := by
  rw [or_eq_ff ((decodeChar_entry a).or (decodeChar_entry b)) (decodeChar_entry c), not_or,
    two_valid, decodeChar_eq_ff, not_not]

theorem four_valid (a b c d : Char) :
    ¬ decodeChar a ||| decodeChar b ||| decodeChar c ||| decodeChar d = 0xff ↔
      ((a ∈ base64Alphabet ∧ b ∈ base64Alphabet) ∧ c ∈ base64Alphabet) ∧ d ∈ base64Alphabet := by
  have hThree := ((decodeChar_entry a).or (decodeChar_entry b)).or (decodeChar_entry c)
  rw [or_eq_ff hThree (decodeChar_entry d), not_or, three_valid, decodeChar_eq_ff, not_not]

/-- The blocks are accepted when all characters are of the alphabet and none is left alone. -/
theorem decodeBlocks_ok_iff (string : Text) : (decodeBlocks string).1 = .ok ↔
    (∀ ch ∈ string, ch ∈ base64Alphabet) ∧ string.length % 4 ≠ 1 := by
  fun_induction decodeBlocks string with
  | case1 a b c d rest hBad =>
      have hOutside := (not_congr (four_valid a b c d)).mp (not_not.mpr hBad)
      refine iff_of_false nofun fun hGood => hOutside ?_
      exact ⟨⟨⟨hGood.1 a (by simp), hGood.1 b (by simp)⟩, hGood.1 c (by simp)⟩, hGood.1 d (by simp)⟩
  | case2 a b c d rest hValid status bytes hRest ih =>
      obtain ⟨⟨⟨hA, hB⟩, hC⟩, hD⟩ := (four_valid a b c d).mp hValid
      have hMod : (rest.length + 1 + 1 + 1 + 1) % 4 = rest.length % 4 := by omega
      rw [hRest] at ih
      simp only [List.forall_mem_cons, List.length_cons, hMod, hA, hB, hC, hD, true_and]
      exact ih
  | case3 a b c hBad =>
      have hOutside := (not_congr (three_valid a b c)).mp (not_not.mpr hBad)
      refine iff_of_false nofun fun hGood => hOutside ?_
      exact ⟨⟨hGood.1 a (by simp), hGood.1 b (by simp)⟩, hGood.1 c (by simp)⟩
  | case4 a b c hValid =>
      obtain ⟨⟨hA, hB⟩, hC⟩ := (three_valid a b c).mp hValid
      simp [hA, hB, hC]
  | case5 a b hBad =>
      have hOutside := (not_congr (two_valid a b)).mp (not_not.mpr hBad)
      refine iff_of_false nofun fun hGood => hOutside ?_
      exact ⟨hGood.1 a (by simp), hGood.1 b (by simp)⟩
  | case6 a b hValid =>
      obtain ⟨hA, hB⟩ := (two_valid a b).mp hValid
      simp [hA, hB]
  | case7 => simp
  | case8 => simp

theorem base64Decode_ok_iff (string : Text) (maxLength : Nat) :
    (base64Decode string maxLength).1 = .ok ↔
      (∀ ch ∈ trimPadding string, ch ∈ base64Alphabet) ∧ (trimPadding string).length % 4 ≠ 1 ∧
        convertedLength (trimPadding string).length ≤ maxLength := by
  unfold base64Decode
  simp only
  split_ifs with hOverrun
  · exact iff_of_false nofun fun hGood => absurd hGood.2.2 (Nat.not_le.mpr hOverrun)
  · have hFits := Nat.not_lt.mp hOverrun
    rw [decodeBlocks_ok_iff]
    exact ⟨fun hGood => ⟨hGood.1, hGood.2, hFits⟩, fun hGood => ⟨hGood.1, hGood.2.1⟩⟩

end Server
