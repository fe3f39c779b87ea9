import PandaBridge.Server.Names
import PandaBridge.Server.RegisterMap

/-! The extension registers of a field: the whole of what `parse_extension_register` finds, and
how it reads register numbers that stand apart on the line. -/
namespace Server

open RegisterMap

/-- `extension_address`, without the base of its block. -/
structure ExtensionAddress where
  parseId : Nat
  readRegisters : List Nat
  writeRegisters : List Nat
  deriving DecidableEq

/-- `extension_server_parse_field`: the answer of the extension server to the name of a field
that is written or read. -/
abbrev ExtensionServer := Bool → Text → Except String Nat

/-- `parse_extension_name`, after its whitespace. -/
def parseExtensionName (server : ExtensionServer) (writeNotRead : Bool) : Parser Nat := fun line => do
  let (request, line) ← parseUtf8String line
  let parseId ← server writeNotRead request
  .ok (parseId, line)

/-- `parse_extension_register` with all that it finds. -/
def parseExtensionAddress (context : LoadContext) (server : ExtensionServer) (block : MapBlock)
    (writeNotRead : Bool) : Parser ExtensionAddress := fun line =>
  if ¬ block.extension then .error "No extensions defined for this block"
  else do
    let (reads, line) ← parseRegisterArray context line
    let (writes, line) ← parseExtensionWrites context writeNotRead line
    let (_, line) ← parseChar 'X' line
    let (_, line) ← parseWhitespace line
    let (parseId, line) ← parseExtensionName server writeNotRead line
    if block.base = .invalid ∧ ¬ (reads = [] ∧ writes = []) then
      .error "Cannot use hardware registers in this block"
    else .ok (⟨parseId, reads, writes⟩, line)

/-! ### Numbers that stand apart -/

/-- Characters with spaces after each: at least one, and so many more. -/
def gapText : List (Char × Nat) → Text
  | [] => []
  | (ch, gap) :: rest => ch :: List.replicate (gap + 1) ' ' ++ gapText rest

theorem parseUint_digit {width : Nat} (hWidth : 32 ≤ width) {ch : Char} (hDigit : ch.isDigit = true)
    (more : Text) : parseUint width (ch :: ' ' :: more) = .ok (digitValue ch, ' ' :: more) := by
  obtain ⟨digit, hLt, rfl⟩ := exists_digitChar hDigit
  rw [digitValue_digitChar digit hLt]
  by_cases hZero : digit = 0
  · subst hZero
    have hBase : numberBase ('0' :: ' ' :: more) = (8, '0' :: ' ' :: more) := by
      cases more <;> simp [numberBase]
    have hPos : ¬ 2 ^ width ≤ 0 := Nat.not_le.mpr (Nat.two_pow_pos width)
    change parseUint width ('0' :: ' ' :: more) = _
    have hText : strtoul width ('0' :: ' ' :: more) = some (0, true, ' ' :: more) := by
      have hSign : numberSign (('0' :: ' ' :: more).dropWhile isSpace) =
          (false, '0' :: ' ' :: more) := rfl
      have hTake : ('0' :: ' ' :: more).takeWhile (isDigitOf 8) = ['0'] := rfl
      have hDrop : ('0' :: ' ' :: more).dropWhile (isDigitOf 8) = ' ' :: more := rfl
      have hValue : ofDigitText 8 ['0'] = 0 := rfl
      simp only [strtoul, hSign, hBase, hTake, hDrop, hValue, hPos, if_false, List.cons_ne_nil,
        Bool.false_eq_true]
    simp only [parseUint, hText, Nat.zero_mod]
  · have hText : formatUint digit = [Nat.digitChar digit] := Nat.toDigits_of_lt_base hLt
    have hParse := @parseUint_append width digit (' ' :: more) hWidth hZero (by omega) (by
      intro other hMem
      obtain rfl := Option.some.inj hMem
      decide)
    rwa [hText] at hParse

/-- What follows the numbers of a list: nothing that would be taken for a part of them. -/
def EndsNumbers (rest : Text) : Prop :=
  ∀ ch ∈ rest.head?, (ch == ' ' || ch == '\t') = false ∧ ch.isDigit = false

theorem skipWhitespace_of_head {ch : Char} (h : (ch == ' ' || ch == '\t') = false) (rest : Text) :
    skipWhitespace (ch :: rest) = ch :: rest :=
  List.dropWhile_cons_of_neg (by rw [h]; exact Bool.false_ne_true)

theorem skipWhitespace_spaces (count : Nat) (line : Text) :
    skipWhitespace (List.replicate count ' ' ++ line) = skipWhitespace line :=
  List.dropWhile_append_of_pos fun ch hMem => by
    rw [List.eq_of_mem_replicate hMem]
    rfl

theorem EndsNumbers.skipWhitespace {rest : Text} (h : EndsNumbers rest) :
    skipWhitespace rest = rest := by
  cases rest with
  | nil => rfl
  | cons ch rest => exact skipWhitespace_of_head (h ch rfl).1 rest

theorem digit_not_space {ch : Char} (h : ch.isDigit = true) : (ch == ' ' || ch == '\t') = false := by
  obtain ⟨digit, hLt, rfl⟩ := exists_digitChar h
  have hAll : ∀ digit < 10, (Nat.digitChar digit == ' ' || Nat.digitChar digit == '\t') = false := by
    decide
  exact hAll digit hLt

theorem countUintStrings_eq (line : Text) :
    countUintStrings line = match skipWhitespace line with
      | [] => 0
      | ch :: rest =>
          if ch.isDigit then countUintStrings (rest.dropWhile Char.isDigit) + 1 else 0 := by
  rw [countUintStrings]
  split
  · next hLine =>
      conv_rhs => rw [hLine]
  · next hLine =>
      conv_rhs => rw [hLine]

theorem countUintStrings_spaces (count : Nat) (line : Text) :
    countUintStrings (List.replicate count ' ' ++ line) = countUintStrings line := by
  rw [countUintStrings_eq, countUintStrings_eq line, skipWhitespace_spaces]

section Gaps

variable {digits : List (Char × Nat)} (hDigits : ∀ entry ∈ digits, entry.1.isDigit = true)
  {rest : Text} (hRest : EndsNumbers rest)

include hDigits hRest

theorem countUintStrings_gapText : countUintStrings (gapText digits ++ rest) = digits.length := by
  induction digits with
  | nil =>
      rw [gapText, List.nil_append, countUintStrings_eq, hRest.skipWhitespace]
      cases rest with
      | nil => rfl
      | cons ch rest =>
          dsimp only
          rw [(hRest ch rfl).2, if_neg Bool.false_ne_true]
          rfl
  | cons entry digits ih =>
      obtain ⟨ch, gap⟩ := entry
      have hDigit : ch.isDigit = true := hDigits (ch, gap) List.mem_cons_self
      have hMore := ih fun entry hMem => hDigits entry (List.mem_cons_of_mem _ hMem)
      rw [countUintStrings_eq, gapText, List.cons_append, List.cons_append,
        skipWhitespace_of_head (digit_not_space hDigit)]
      dsimp only
      rw [if_pos hDigit, List.append_assoc, List.length_cons]
      have hStop : (List.replicate (gap + 1) ' ' ++ (gapText digits ++ rest)).dropWhile Char.isDigit =
          List.replicate (gap + 1) ' ' ++ (gapText digits ++ rest) := rfl
      rw [hStop, countUintStrings_spaces, hMore]

omit hRest in
/-- The numbers of a list are its digits, one for each. -/
theorem parseUintArray_gapText {width : Nat} (hWidth : 32 ≤ width) (hSome : digits ≠ []) :
    ∃ gap, parseUintArray width digits.length (gapText digits ++ rest) =
      .ok (digits.map fun entry => digitValue entry.1, List.replicate gap ' ' ++ rest) := by
  induction digits with
  | nil => exact absurd rfl hSome
  | cons entry digits ih =>
      obtain ⟨ch, gap⟩ := entry
      have hDigit : ch.isDigit = true := hDigits (ch, gap) List.mem_cons_self
      have hNumber : parseUint width (gapText ((ch, gap) :: digits) ++ rest) =
          .ok (digitValue ch, List.replicate (gap + 1) ' ' ++ (gapText digits ++ rest)) := by
        rw [gapText, List.cons_append, List.cons_append, List.append_assoc, List.replicate_succ,
          List.cons_append]
        exact parseUint_digit hWidth hDigit _
      cases digits with
      | nil =>
          refine ⟨gap + 1, ?_⟩
          simp only [List.length_singleton, parseUintArray, hNumber, bind, Except.bind]
          rfl
      | cons next digits =>
          have hMore : ∀ entry ∈ next :: digits, entry.1.isDigit = true :=
            fun entry hMem => hDigits entry (List.mem_cons_of_mem _ hMem)
          obtain ⟨last, hArray⟩ := ih hMore (List.cons_ne_nil _ _)
          have hSpace : parseWhitespace
                (List.replicate (gap + 1) ' ' ++ (gapText (next :: digits) ++ rest)) =
              .ok ((), gapText (next :: digits) ++ rest) := by
            have hSkip : skipWhitespace
                  (List.replicate (gap + 1) ' ' ++ (gapText (next :: digits) ++ rest)) =
                gapText (next :: digits) ++ rest := by
              rw [skipWhitespace_spaces, gapText, List.cons_append, List.cons_append]
              exact skipWhitespace_of_head (digit_not_space (hMore next List.mem_cons_self)) _
            rw [parseWhitespace, hSkip, if_neg]
            intro hSame
            have hLength := congrArg List.length hSame
            simp at hLength
          refine ⟨last, ?_⟩
          simp only [List.length_cons] at hArray
          simp only [List.length_cons, parseUintArray, hNumber, hSpace, hArray, bind, Except.bind]
          rfl

end Gaps

theorem digitValue_lt {ch : Char} (h : ch.isDigit = true) : digitValue ch < 10 := by
  obtain ⟨digit, hLt, rfl⟩ := exists_digitChar h
  rw [digitValue_digitChar digit hLt]
  exact hLt

theorem parseUint_spaces (width count : Nat) (line : Text) :
    parseUint width (List.replicate count ' ' ++ line) = parseUint width line := by
  have hSkip : (List.replicate count ' ' ++ line).dropWhile isSpace = line.dropWhile isSpace :=
    List.dropWhile_append_of_pos fun ch hMem => by
      rw [List.eq_of_mem_replicate hMem]
      rfl
  simp only [parseUint, strtoul, hSkip]

theorem parseUintArray_spaces (width count : Nat) {length : Nat} (hLength : length ≠ 0)
    (line : Text) :
    parseUintArray width length (List.replicate count ' ' ++ line) =
      parseUintArray width length line := by
  match length, hLength with
  | 1, _ => simp only [parseUintArray, parseUint_spaces]
  | length + 2, _ => simp only [parseUintArray, parseUint_spaces]

/-- A list of digits, with spaces before it, is read as the list of their values. -/
theorem parseRegisterArray_gapText {context : LoadContext} (hWidth : 32 ≤ context.width)
    {digits : List (Char × Nat)} (hDigits : ∀ entry ∈ digits, entry.1.isDigit = true) {rest : Text}
    (hRest : EndsNumbers rest) (hSome : digits ≠ []) (spaces : Nat) :
    parseRegisterArray context (List.replicate spaces ' ' ++ (gapText digits ++ rest)) =
      .ok (digits.map fun entry => digitValue entry.1, rest) := by
  obtain ⟨gap, hArray⟩ := parseUintArray_gapText hDigits hWidth hSome
  have hCount := countUintStrings_gapText hDigits hRest
  have hFew : ((digits.map fun entry => digitValue entry.1).any
      fun reg => ¬ reg < blockRegisterCount) = false := by
    rw [List.any_eq_false]
    intro reg hMem
    obtain ⟨entry, hEntry, rfl⟩ := List.mem_map.mp hMem
    have hLt := digitValue_lt (hDigits entry hEntry)
    unfold blockRegisterCount
    simp only [decide_not, Bool.not_eq_true', decide_eq_false_iff_not, not_not]
    omega
  have hLength : digits.length ≠ 0 := fun h => hSome (List.eq_nil_of_length_eq_zero h)
  rw [parseRegisterArray, countUintStrings_spaces, hCount, if_neg hLength,
    parseUintArray_spaces _ _ hLength, hArray]
  change (if _ then _ else _) = _
  rw [hFew, if_neg Bool.false_ne_true, skipWhitespace_spaces, hRest.skipWhitespace]

/-- An empty list leaves the line as it is, with the spaces before it. -/
theorem parseRegisterArray_none (context : LoadContext) {rest : Text} (hRest : EndsNumbers rest)
    (spaces : Nat) :
    parseRegisterArray context (List.replicate spaces ' ' ++ rest) =
      .ok ([], List.replicate spaces ' ' ++ rest) := by
  have hCount := @countUintStrings_gapText [] (by simp) rest hRest
  rw [gapText, List.nil_append] at hCount
  rw [parseRegisterArray, countUintStrings_spaces, hCount]
  rfl

end Server
