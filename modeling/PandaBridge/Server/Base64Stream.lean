import PandaBridge.Server.Base64

/-! The base 64 lines of the data port. -/
namespace Server

/-- The character that ends a C string. -/
def nul : Char := Char.ofNat 0

/-- `BASE64_CONVERT_COUNT`. -/
def base64ConvertCount : Nat := 57

/-- All characters that `base64_encode` writes. Its result is their number, with the null. -/
def base64EncodeOut (data : List Nat) : Text := base64Encode data ++ [nul]

/-- The characters of `line` that `write_block_base64` writes: `encoded + 2` of them, with the
newline behind `line[encoded]`. -/
def base64Line (data : List Nat) : Text :=
  let out := base64EncodeOut data
  let encoded := out.length
  (' ' :: out).take (encoded + 1) ++ ['\n']

section Writing

variable {File : Type} (writeString : Text → File → File × Bool)

/-- `write_block_base64`, over the `write_string` of its file. -/
def writeBlockBase64 (data : List Nat) (file : File) : File × Bool :=
  if data = [] then (file, true)
  else
    let (file, ok) := writeString (base64Line (data.take base64ConvertCount)) file
    if ok then writeBlockBase64 (data.drop base64ConvertCount) file else (file, false)
termination_by data.length
decreasing_by
  have := List.length_pos_iff.mpr ‹¬ data = []›
  rw [List.length_drop, base64ConvertCount]
  omega

end Writing

/-- A file that takes everything. -/
def appendString (text file : Text) : Text × Bool := (file ++ text, true)

/-- What is sent for some data. -/
def base64Output (data : List UInt8) : Text :=
  (writeBlockBase64 appendString (data.map UInt8.toNat) []).1

/-- The characters of encoded text. -/
def isBase64Char (ch : Char) : Bool := ch ∈ base64Alphabet || ch == '='

/-- A line of encoded text that decodes to these bytes, whatever more there is room for. -/
structure Decodes (body : Text) (bytes : List Nat) : Prop where
  chars : ∀ ch ∈ body, isBase64Char ch = true
  decode : ∀ room, bytes.length ≤ room → base64Decode body room = (.ok, bytes.length, bytes)

/-- The output is made of lines that start with a space and close with `ending`, and the text
between them decodes to the data. -/
def DecodesBack (ending : Text) (output : Text) (data : List Nat) : Prop :=
  ∃ pieces : List (Text × List Nat), (∀ piece ∈ pieces, Decodes piece.1 piece.2) ∧
    output = pieces.flatMap (fun piece => ' ' :: piece.1 ++ ending) ∧
      pieces.flatMap Prod.snd = data

section Lines

/-- The line as it is sent: its null goes out before the newline. -/
theorem base64Line_eq (data : List Nat) :
    base64Line data = ' ' :: base64Encode data ++ [nul, '\n'] := by
  rw [base64Line, base64EncodeOut, List.take_of_length_le (by simp)]
  simp

theorem writeBlockBase64_append (data : List Nat) (file : Text) :
    ∃ pieces : List (List Nat), pieces.flatten = data ∧
      writeBlockBase64 appendString data file = (file ++ pieces.flatMap base64Line, true) ∧
        (data ≠ [] → pieces ≠ []) := by
  fun_induction writeBlockBase64 appendString data file with
  | case1 file => exact ⟨[], rfl, by simp, fun h => absurd rfl h⟩
  | case2 data file hData next hWrite ih =>
      obtain ⟨pieces, hFlatten, hRest, -⟩ := ih
      obtain ⟨rfl, -⟩ := Prod.mk.inj hWrite
      refine ⟨data.take base64ConvertCount :: pieces, ?_, ?_, fun _ => List.cons_ne_nil _ _⟩
      · rw [List.flatten_cons, hFlatten, List.take_append_drop]
      · rw [hRest, List.flatMap_cons, List.append_assoc]
  | case3 data file hData next ok hWrite hOk =>
      obtain ⟨-, rfl⟩ := Prod.mk.inj hWrite
      exact absurd rfl hOk

theorem nul_mem_output {data : List UInt8} (hData : data ≠ []) : nul ∈ base64Output data := by
  obtain ⟨pieces, -, hOutput, hSome⟩ := writeBlockBase64_append (data.map UInt8.toNat) []
  obtain ⟨first, rest, hPieces⟩ := List.exists_cons_of_ne_nil (hSome (by simpa using hData))
  rw [base64Output, hOutput, hPieces, List.flatMap_cons, base64Line_eq]
  simp

/-- A character of proper lines is a space, a newline or encoded text. -/
theorem DecodesBack.chars {output : Text} {data : List Nat} (h : DecodesBack ['\n'] output data) :
    ∀ ch ∈ output, ch = ' ' ∨ ch = '\n' ∨ isBase64Char ch = true := by
  obtain ⟨pieces, hPieces, rfl, -⟩ := h
  intro ch hMem
  obtain ⟨piece, hPiece, hMem⟩ := List.mem_flatMap.mp hMem
  simp only [List.cons_append, List.mem_cons, List.mem_append, List.not_mem_nil, or_false] at hMem
  rcases hMem with hSpace | hBody | hNewline
  · exact .inl hSpace
  · exact .inr (.inr ((hPieces piece hPiece).chars ch hBody))
  · exact .inr (.inl hNewline)

theorem nul_not_proper : ¬(nul = ' ' ∨ nul = '\n' ∨ isBase64Char nul = true) := by
  simp [isBase64Char, nul, null_not_mem_alphabet]

/-- The lines of the data port are proper text lines only where there are none. -/
theorem base64_output_decodes_iff (data : List UInt8) :
    DecodesBack ['\n'] (base64Output data) (data.map UInt8.toNat) ↔ data = [] := by
  constructor
  · intro hLines
    by_contra hData
    exact nul_not_proper (hLines.chars nul (nul_mem_output hData))
  · rintro rfl
    refine ⟨[], nofun, ?_, rfl⟩
    rw [base64Output, List.map_nil, writeBlockBase64]
    rfl

/-- One byte already sends a null in its line. -/
theorem base64_output_null :
    ¬∀ data : List UInt8, DecodesBack ['\n'] (base64Output data) (data.map UInt8.toNat) := by
  intro hAll
  exact nul_not_proper ((hAll [7]).chars nul (nul_mem_output (by decide)))

end Lines

end Server
