import PandaBridge.Memory.Range
import PandaBridge.Server.Base64

/-! The codec in memory. Lengths and addresses wrap as `size_t` does, and the address of every
character that the decoder reads is recorded. A string is a pointer to its text. -/
namespace Server.Base64

open Memory (store)

/-! ### Strings in memory -/

section Pointer

variable (width : Nat) (memory : Nat → Char)

/-- An address of `width` bits. -/
def address (pointer : Nat) : Nat := pointer % 2 ^ width

def deref (pointer : Nat) : Char := memory (address width pointer)

/-- `length - 1`, which of nothing is the greatest number. -/
def lessOne (length : Nat) : Nat := (length + 2 ^ width - 1) % 2 ^ width

/-- `strlen`, which takes no more steps than there are addresses. -/
def strlen (string : Nat) : Nat → Nat → Nat
  | 0, index => index
  | steps + 1, index =>
      if deref width memory (string + index) = '\x00' then index
      else strlen string steps (index + 1)

/-- The characters from a pointer on. -/
def Stored (string : Nat) (text : Text) : Prop :=
  ∀ index (h : index < text.length), deref width memory (string + index) = text[index]

/-- The text of a string, which ends at the first null. -/
structure HoldsString (string : Nat) (text : Text) : Prop where
  pointer_pos : 0 < string
  fits : string + text.length < 2 ^ width
  stored : Stored width memory string text
  terminated : deref width memory (string + text.length) = '\x00'
  unterminated : '\x00' ∉ text

end Pointer

/-! ### The codec -/

/-- `base64_encode`: the memory that it leaves and the number of characters, with the null. -/
def base64EncodeAt (memory : Nat → Char) (out : Nat) (data : List Nat) : (Nat → Char) × Nat :=
  (store memory out (base64Encode data ++ ['\x00']), (base64Encode data).length + 1)

/-- What a call of `base64_decode` gives, the bytes that it writes and the addresses that it reads
itself (`strlen` goes no further than the null). -/
structure DecodeRun where
  status : Base64Status
  converted : Nat
  written : List Nat
  reads : List Nat

section Decoder

variable (width : Nat) (memory : Nat → Char)

/-- The test of `string[in_length - 1]` for a sign. -/
def dropSignAt (string inLength : Nat) : Nat :=
  if deref width memory (string + lessOne width inLength) = '=' then lessOne width inLength
  else inLength

/-- The loop over the blocks of four with the tails behind it: the status, what is written and what
is read. -/
def decodeLoop : Nat → Nat → Base64Status × List Nat × List Nat
  | string, inLength + 4 =>
      let a := decodeChar (deref width memory string)
      let b := decodeChar (deref width memory (string + 1))
      let c := decodeChar (deref width memory (string + 2))
      let d := decodeChar (deref width memory (string + 3))
      let reads := [string, string + 1, string + 2, string + 3].map (address width)
      if a ||| b ||| c ||| d = 0xff then (.malformed, [], reads)
      else
        let (status, written, after) := decodeLoop (string + 4) inLength
        (status,
          (a <<< 2 ||| b >>> 4) % 256 :: (b <<< 4 ||| c >>> 2) % 256 :: (c <<< 6 ||| d) % 256 ::
            written,
          reads ++ after)
  | string, 3 =>
      let a := decodeChar (deref width memory string)
      let b := decodeChar (deref width memory (string + 1))
      let c := decodeChar (deref width memory (string + 2))
      let reads := [string, string + 1, string + 2].map (address width)
      if a ||| b ||| c = 0xff then (.malformed, [], reads)
      else (.ok, [(a <<< 2 ||| b >>> 4) % 256, (b <<< 4 ||| c >>> 2) % 256], reads)
  | string, 2 =>
      let a := decodeChar (deref width memory string)
      let b := decodeChar (deref width memory (string + 1))
      let reads := [string, string + 1].map (address width)
      if a ||| b = 0xff then (.malformed, [], reads)
      else (.ok, [(a <<< 2 ||| b >>> 4) % 256], reads)
  | _, 1 => (.malformed, [], [])
  | _, 0 => (.ok, [], [])

/-- `in_length` after the trailing signs, and the reads that find them. -/
def trimAt (string : Nat) : Nat × List Nat :=
  let inLength := strlen width memory string (2 ^ width) 0
  if inLength % 4 = 0 then
    let first := dropSignAt width memory string inLength
    (dropSignAt width memory string first,
      [string + lessOne width inLength, string + lessOne width first].map (address width))
  else (inLength, [])

/-- `base64_decode`. -/
def base64DecodeAt (string maxLength : Nat) : DecodeRun :=
  let (inLength, trimReads) := trimAt width memory string
  let converted := convertedLength inLength
  if maxLength < converted then ⟨.overrun, converted, [], trimReads⟩
  else
    let (status, written, reads) := decodeLoop width memory string inLength
    ⟨status, converted, written, trimReads ++ reads⟩

end Decoder

/-! ### A string that is held -/

section Held

variable {width : Nat} {memory : Nat → Char} {string : Nat} {text : Text}

theorem lessOne_of_pos {length : Nat} (hPos : 0 < length) (hLess : length < 2 ^ width) :
    lessOne width length = length - 1 := by
  rw [lessOne, show length + 2 ^ width - 1 = length - 1 + 2 ^ width by omega, Nat.add_mod_right,
    Nat.mod_eq_of_lt (by omega)]

theorem lessOne_zero : lessOne width 0 = 2 ^ width - 1 := by
  have hPos : 0 < 2 ^ width := Nat.two_pow_pos width
  rw [lessOne, Nat.zero_add, Nat.mod_eq_of_lt (by omega)]

theorem address_of_lt {pointer : Nat} (h : pointer < 2 ^ width) : address width pointer = pointer :=
  Nat.mod_eq_of_lt h

theorem strlen_of_le (hHolds : HoldsString width memory string text) (steps index : Nat)
    (hIndex : index ≤ text.length) (hSteps : text.length - index < steps) :
    strlen width memory string steps index = text.length := by
  induction steps generalizing index with
  | zero => omega
  | succ steps ih =>
      rw [strlen]
      by_cases hEnd : index = text.length
      · rw [hEnd, if_pos hHolds.terminated]
      · have hLess : index < text.length := by omega
        have hChar : deref width memory (string + index) ≠ '\x00' := by
          rw [hHolds.stored index hLess]
          intro hNull
          exact hHolds.unterminated (hNull ▸ List.getElem_mem hLess)
        rw [if_neg hChar]
        exact ih (index + 1) hLess (by omega)

theorem HoldsString.strlen_eq (hHolds : HoldsString width memory string text) :
    strlen width memory string (2 ^ width) 0 = text.length := by
  have hFits := hHolds.fits
  exact strlen_of_le hHolds (2 ^ width) 0 (Nat.zero_le _) (by omega)

theorem reads_within {pointers : List Nat} {count : Nat} (hFits : string + count ≤ 2 ^ width)
    (h : ∀ pointer ∈ pointers, string ≤ pointer ∧ pointer < string + count) :
    ∀ read ∈ pointers.map (address width), string ≤ read ∧ read < string + count := by
  intro read hRead
  obtain ⟨pointer, hMem, rfl⟩ := List.mem_map.mp hRead
  have hPointer := h pointer hMem
  rw [address_of_lt (by omega)]
  exact hPointer

theorem decodeLoop_eq (hFits : string + text.length ≤ 2 ^ width)
    (hStored : Stored width memory string text) :
    ∃ reads, decodeLoop width memory string text.length =
        ((decodeBlocks text).1, (decodeBlocks text).2, reads) ∧
      ∀ read ∈ reads, string ≤ read ∧ read < string + text.length := by
  fun_induction decodeBlocks text generalizing string with
  | case1 a b c d rest hBad =>
      have hA : deref width memory string = a := hStored 0 (by simp)
      have hB : deref width memory (string + 1) = b := hStored 1 (by simp)
      have hC : deref width memory (string + 2) = c := hStored 2 (by simp)
      have hD : deref width memory (string + 3) = d := hStored 3 (by simp)
      simp only [List.length_cons, decodeLoop, hA, hB, hC, hD, hBad, if_true]
      refine ⟨_, rfl, reads_within hFits ?_⟩
      simp only [List.forall_mem_cons]
      simp
  | case2 a b c d rest hValid status bytes hRest ih =>
      have hA : deref width memory string = a := hStored 0 (by simp)
      have hB : deref width memory (string + 1) = b := hStored 1 (by simp)
      have hC : deref width memory (string + 2) = c := hStored 2 (by simp)
      have hD : deref width memory (string + 3) = d := hStored 3 (by simp)
      have hFits' : string + 4 + rest.length ≤ 2 ^ width := by
        simp only [List.length_cons] at hFits
        omega
      obtain ⟨reads, hLoop, hReads⟩ := ih hFits' fun index hLess => by
        have hFour := hStored (index + 4) (by simp; omega)
        rw [show string + 4 + index = string + (index + 4) by omega]
        exact hFour
      rw [hRest] at hLoop
      simp only [List.length_cons, decodeLoop, hA, hB, hC, hD, hValid, if_false, hLoop]
      refine ⟨_, rfl, fun read hRead => ?_⟩
      rcases List.mem_append.mp hRead with hBlock | hAfter
      · apply reads_within hFits ?_ read hBlock
        simp only [List.forall_mem_cons]
        simp
      · have hWithin := hReads read hAfter
        omega
  | case3 a b c hBad =>
      have hA : deref width memory string = a := hStored 0 (by simp)
      have hB : deref width memory (string + 1) = b := hStored 1 (by simp)
      have hC : deref width memory (string + 2) = c := hStored 2 (by simp)
      simp only [List.length_cons, List.length_nil, decodeLoop, hA, hB, hC, hBad, if_true]
      refine ⟨_, rfl, reads_within hFits ?_⟩
      simp
  | case4 a b c hValid =>
      have hA : deref width memory string = a := hStored 0 (by simp)
      have hB : deref width memory (string + 1) = b := hStored 1 (by simp)
      have hC : deref width memory (string + 2) = c := hStored 2 (by simp)
      simp only [List.length_cons, List.length_nil, decodeLoop, hA, hB, hC, hValid, if_false]
      refine ⟨_, rfl, reads_within hFits ?_⟩
      simp
  | case5 a b hBad =>
      have hA : deref width memory string = a := hStored 0 (by simp)
      have hB : deref width memory (string + 1) = b := hStored 1 (by simp)
      simp only [List.length_cons, List.length_nil, decodeLoop, hA, hB, hBad, if_true]
      refine ⟨_, rfl, reads_within hFits ?_⟩
      simp
  | case6 a b hValid =>
      have hA : deref width memory string = a := hStored 0 (by simp)
      have hB : deref width memory (string + 1) = b := hStored 1 (by simp)
      simp only [List.length_cons, List.length_nil, decodeLoop, hA, hB, hValid, if_false]
      refine ⟨_, rfl, reads_within hFits ?_⟩
      simp
  | case7 => exact ⟨[], rfl, List.forall_mem_nil _⟩
  | case8 => exact ⟨[], rfl, List.forall_mem_nil _⟩

theorem dropSign_length (text : Text) : (trimPadding.dropSign text).length ≤ text.length ∧
    text.length - 1 ≤ (trimPadding.dropSign text).length := by
  unfold trimPadding.dropSign
  split_ifs
  · rw [List.length_dropLast]
    omega
  · omega

theorem Stored.dropSign (hStored : Stored width memory string text) :
    Stored width memory string (trimPadding.dropSign text) := by
  unfold trimPadding.dropSign
  split_ifs
  · intro index hLess
    rw [List.getElem_dropLast]
    exact hStored index _
  · exact hStored

/-- The last of some characters is where the code looks for a sign. -/
theorem dropSignAt_eq (hPos : 0 < text.length) (hLess : text.length < 2 ^ width)
    (hStored : Stored width memory string text) :
    dropSignAt width memory string text.length = (trimPadding.dropSign text).length := by
  have hLast : text.getLast? = some (deref width memory (string + (text.length - 1))) := by
    rw [hStored (text.length - 1) (by omega), List.getLast?_eq_getElem?]
    exact List.getElem?_eq_getElem _
  rw [dropSignAt, lessOne_of_pos hPos hLess, trimPadding.dropSign, hLast]
  by_cases hSign : deref width memory (string + (text.length - 1)) = '='
  · rw [if_pos hSign, if_pos (congrArg some hSign), List.length_dropLast]
  · rw [if_neg hSign, if_neg fun hSome => hSign (Option.some.inj hSome)]

theorem Stored.trimPadding (hStored : Stored width memory string text) :
    Stored width memory string (trimPadding text) := by
  unfold Server.trimPadding
  split_ifs
  · exact hStored.dropSign.dropSign
  · exact hStored

theorem trimPadding_length_le (text : Text) : (trimPadding text).length ≤ text.length := by
  unfold trimPadding
  split_ifs
  · exact (dropSign_length _).1.trans (dropSign_length text).1
  · exact Nat.le_refl _

theorem trimAt_eq (hHolds : HoldsString width memory string text) (hText : text ≠ []) :
    ∃ reads, trimAt width memory string = ((trimPadding text).length, reads) ∧
      ∀ read ∈ reads, string ≤ read ∧ read < string + text.length := by
  have hFits := hHolds.fits
  rw [trimAt, hHolds.strlen_eq]
  dsimp only
  by_cases hFour : text.length % 4 = 0
  · have hPos : 0 < text.length := List.length_pos_iff.mpr hText
    have hFirst := dropSign_length text
    have hPos' : 0 < (trimPadding.dropSign text).length := by omega
    rw [if_pos hFour, dropSignAt_eq hPos (by omega) hHolds.stored,
      dropSignAt_eq hPos' (by omega) hHolds.stored.dropSign, trimPadding, if_pos hFour,
      lessOne_of_pos hPos (by omega), lessOne_of_pos hPos' (by omega)]
    refine ⟨_, rfl, reads_within (Nat.le_of_lt hFits) ?_⟩
    simp only [List.forall_mem_cons]
    exact ⟨by omega, by omega, List.forall_mem_nil _⟩
  · rw [if_neg hFour, trimPadding, if_neg hFour]
    exact ⟨[], rfl, List.forall_mem_nil _⟩

/-- A call on a string that is not empty decodes its text, and reads nothing else. -/
theorem base64DecodeAt_eq (hHolds : HoldsString width memory string text) (hText : text ≠ [])
    (maxLength : Nat) :
    ∃ reads, base64DecodeAt width memory string maxLength =
        ⟨(base64Decode text maxLength).1, (base64Decode text maxLength).2.1,
          (base64Decode text maxLength).2.2, reads⟩ ∧
      ∀ read ∈ reads, string ≤ read ∧ read < string + text.length := by
  have hFits := hHolds.fits
  have hTrimmed := trimPadding_length_le text
  obtain ⟨trimReads, hTrim, hTrimReads⟩ := trimAt_eq hHolds hText
  obtain ⟨reads, hLoop, hReads⟩ := decodeLoop_eq (by omega) hHolds.stored.trimPadding
  rw [base64DecodeAt, hTrim]
  dsimp only
  by_cases hOverrun : maxLength < convertedLength (trimPadding text).length
  · rw [if_pos hOverrun, base64Decode, if_pos hOverrun]
    exact ⟨trimReads, rfl, hTrimReads⟩
  · rw [if_neg hOverrun, hLoop, base64Decode, if_neg hOverrun]
    refine ⟨trimReads ++ reads, rfl, fun read hRead => ?_⟩
    rcases List.mem_append.mp hRead with hMem | hMem
    · exact hTrimReads read hMem
    · have hWithin := hReads read hMem
      omega

/-! ### The empty string -/

theorem decodeLoop_null (hNull : deref width memory string = '\x00') {inLength : Nat}
    (hPos : 0 < inLength) : (decodeLoop width memory string inLength).1 = .malformed := by
  have hOutside : deref width memory string ∉ base64Alphabet := hNull ▸ null_not_mem_alphabet
  match inLength with
  | rest + 4 =>
      have hBad := fun b c d => not_not.mp (mt (four_valid (deref width memory string) b c d).mp
        fun hMem => hOutside hMem.1.1.1)
      rw [decodeLoop, if_pos (hBad _ _ _)]
  | 3 =>
      have hBad := fun b c => not_not.mp (mt (three_valid (deref width memory string) b c).mp
        fun hMem => hOutside hMem.1.1)
      rw [decodeLoop, if_pos (hBad _ _)]
  | 2 =>
      have hBad := fun b => not_not.mp (mt (two_valid (deref width memory string) b).mp
        fun hMem => hOutside hMem.1)
      rw [decodeLoop, if_pos (hBad _)]
  | 1 => rfl

/-- The call succeeds with exactly these bytes. -/
def DecodeRun.Gives (run : DecodeRun) (data : List Nat) : Prop :=
  run.status = .ok ∧ run.converted = data.length ∧ run.written = data

theorem HoldsString.front (hHolds : HoldsString width memory string text) :
    deref width memory (string + lessOne width 0) = memory (string - 1) := by
  have hPos := hHolds.pointer_pos
  have hFits := hHolds.fits
  rw [lessOne_zero, deref, address, show string + (2 ^ width - 1) = string - 1 + 2 ^ width by omega,
    Nat.add_mod_right, Nat.mod_eq_of_lt (by omega)]

theorem dropSignAt_wraps (hHolds : HoldsString width memory string [])
    (hSign : memory (string - 1) = '=') :
    0 < dropSignAt width memory string (dropSignAt width memory string 0) := by
  have hPointer := hHolds.pointer_pos
  have hFits := hHolds.fits
  have hNull : deref width memory string = '\x00' := hHolds.terminated
  have hFirst : dropSignAt width memory string 0 = 2 ^ width - 1 := by
    rw [dropSignAt, hHolds.front, if_pos hSign, lessOne_zero]
  rw [hFirst, dropSignAt, lessOne_of_pos (by omega) (by omega)]
  split_ifs with hSecond
  · -- there are other addresses than the one of the null
    by_contra hZero
    rw [Nat.eq_zero_of_not_pos hZero, Nat.add_zero, hNull] at hSecond
    exact absurd hSecond (by decide)
  · omega

theorem empty_decodes_iff (hHolds : HoldsString width memory string []) (maxLength : Nat) :
    (base64DecodeAt width memory string maxLength).Gives [] ↔ memory (string - 1) ≠ '=' := by
  have hNull : deref width memory string = '\x00' := hHolds.terminated
  rw [base64DecodeAt, trimAt, hHolds.strlen_eq]
  dsimp only
  rw [List.length_nil, if_pos (Nat.zero_mod 4)]
  by_cases hSign : memory (string - 1) = '='
  · have hLoop := decodeLoop_null hNull (dropSignAt_wraps hHolds hSign)
    refine iff_of_false (fun hGives => ?_) fun hNot => hNot hSign
    have hStatus := hGives.1
    split_ifs at hStatus
    exact Base64Status.noConfusion (hLoop.symm.trans hStatus)
  · have hKept : dropSignAt width memory string 0 = 0 := by
      rw [dropSignAt, hHolds.front, if_neg hSign]
    have hNothing : ¬ maxLength < convertedLength 0 := Nat.not_lt_zero maxLength
    rw [hKept, hKept]
    dsimp only
    rw [if_neg hNothing]
    exact iff_of_true ⟨rfl, rfl, rfl⟩ hSign

/-! ### What is encoded -/

theorem null_not_mem_encode {data : List Nat} (h : ∀ byte ∈ data, byte < 256) :
    '\x00' ∉ base64Encode data := by
  have hSigns : ∀ ch ∈ base64Signs data.length, ch = '=' := by
    unfold base64Signs
    split <;> simp
  rw [base64Encode_eq h]
  intro hMem
  rcases List.mem_append.mp hMem with hDigit | hSign
  · obtain ⟨digit, hDigit, hNull⟩ := List.mem_map.mp hDigit
    have hChar := encodeChar_mem digit (base64Digits_lt h digit hDigit)
    exact null_not_mem_alphabet (hNull ▸ hChar)
  · exact absurd (hSigns _ hSign) (by decide)

theorem base64Encode_eq_nil {data : List Nat} : base64Encode data = [] ↔ data = [] := by
  fun_cases base64Encode data with
  | case1 => simp
  | case2 => simp
  | case3 => simp
  | case4 => simp

theorem encodeAt_holds {out : Nat} {data : List Nat} (hBytes : ∀ byte ∈ data, byte < 256)
    (hOut : 0 < out) (hRoom : out + (base64Encode data).length < 2 ^ width) :
    HoldsString width (base64EncodeAt memory out data).1 out (base64Encode data) where
  pointer_pos := hOut
  fits := hRoom
  stored := by
    intro index hLess
    rw [deref, address_of_lt (by omega), base64EncodeAt]
    simp [store, List.getD_eq_getElem?_getD, List.getElem?_append_left hLess,
      List.getElem?_eq_getElem hLess]
  terminated := by
    rw [deref, address_of_lt hRoom, base64EncodeAt]
    simp [store]
  unterminated := null_not_mem_encode hBytes

/-- What the codec promises of a string `text` in memory. -/
structure DecodesText (text : Text) (maxLength string : Nat) (run : DecodeRun) : Prop where
  accepted : run.status = .ok ↔ (∀ ch ∈ trimPadding text, ch ∈ base64Alphabet) ∧
    (trimPadding text).length % 4 ≠ 1 ∧ convertedLength (trimPadding text).length ≤ maxLength
  reads_inside : ∀ read ∈ run.reads, string ≤ read ∧ read < string + text.length
  writes_fit : run.written.length ≤ maxLength
  length_exact : run.status = .ok → run.converted = run.written.length

/-- Bytes come back from the encoded text unless there are none and a sign stands in front of the
empty string. A string that is not empty is decoded as promised. -/
theorem codec_right_iff (width : Nat) :
    (∀ (memory : Nat → Char) (out maxLength : Nat) (data : List Nat),
      (∀ byte ∈ data, byte < 256) → data.length ≤ maxLength → 0 < out →
      out + (base64Encode data).length < 2 ^ width →
        ((base64DecodeAt width (base64EncodeAt memory out data).1 out maxLength).Gives data ↔
          data ≠ [] ∨ memory (out - 1) ≠ '=')) ∧
      ∀ (memory : Nat → Char) (string maxLength : Nat) (text : Text),
        HoldsString width memory string text → text ≠ [] →
          DecodesText text maxLength string (base64DecodeAt width memory string maxLength) := by
  constructor
  · intro memory out maxLength data hBytes hMax hOut hRoom
    have hHolds := @encodeAt_holds width memory out data hBytes hOut hRoom
    by_cases hData : data = []
    · subst hData
      rw [empty_decodes_iff hHolds, base64EncodeAt]
      dsimp only
      rw [Memory.store_below (by omega)]
      simp
    · have hText := (not_congr base64Encode_eq_nil).mpr hData
      obtain ⟨reads, hRun, -⟩ := base64DecodeAt_eq hHolds hText maxLength
      rw [hRun, base64Decode_encode hBytes hMax]
      exact iff_of_true ⟨rfl, rfl, rfl⟩ (Or.inl hData)
  · intro memory string maxLength text hHolds hText
    obtain ⟨reads, hRun, hReads⟩ := base64DecodeAt_eq hHolds hText maxLength
    obtain ⟨hFit, hExact⟩ := base64Decode_length text maxLength
    rw [hRun]
    exact ⟨base64Decode_ok_iff text maxLength, hReads, hFit, hExact⟩

/-- Three bytes, encoded and decoded in memory. -/
theorem codec_right_three_bytes :
    (base64DecodeAt 64 (base64EncodeAt (fun _ => '=') 4096 [77, 97, 110]).1 4096 3).Gives
        [77, 97, 110] ∧
      DecodesText (base64Encode [77, 97, 110]) 3 4096
        (base64DecodeAt 64 (base64EncodeAt (fun _ => '=') 4096 [77, 97, 110]).1 4096 3) := by
  have hBytes : ∀ byte ∈ [77, 97, 110], byte < 256 := by decide
  have hRoom : 4096 + (base64Encode [77, 97, 110]).length < 2 ^ 64 := by decide
  obtain ⟨hGives, hText⟩ := codec_right_iff 64
  exact ⟨(hGives _ 4096 3 [77, 97, 110] hBytes (by decide) (by decide) hRoom).mpr (.inl (by decide)),
    hText _ 4096 3 _ (encodeAt_holds hBytes (by decide) hRoom) (List.cons_ne_nil _ _)⟩

/-- The bytes of no data are encoded behind a sign, and there is room for them, but the decoder says
that there is not. -/
theorem empty_string_overruns :
    HoldsString 64 (base64EncodeAt (fun _ => '=') 4096 []).1 4096 (base64Encode []) ∧
      (base64DecodeAt 64 (base64EncodeAt (fun _ => '=') 4096 []).1 4096 16).status = .overrun ∧
      ¬ (base64DecodeAt 64 (base64EncodeAt (fun _ => '=') 4096 []).1 4096 16).Gives [] := by
  have hOverrun : (base64DecodeAt 64 (base64EncodeAt (fun _ => '=') 4096 []).1 4096 16).status =
      .overrun := by
    decide
  refine ⟨encodeAt_holds (List.forall_mem_nil _) (by decide) (by decide), hOverrun, ?_⟩
  intro hGives
  exact Base64Status.noConfusion (hOverrun.symm.trans hGives.1)

end Held

end Server.Base64
