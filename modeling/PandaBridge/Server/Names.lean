import PandaBridge.Server.Parse

/-! Names and UTF-8 strings on a line. -/
namespace Server

/-- `MAX_NAME_LENGTH`. -/
def maxNameLength : Nat := 32

def validNameChar (ch : Char) : Bool := ch.isAlpha || ch == '_'

def validAlphanumChar (ch : Char) : Bool := ch.isAlpha || ch == '_' || ch.isDigit

def parseFilteredName (filterChar : Char → Bool) (maxLength : Nat) : Parser Text := fun line =>
  let name := (line.take maxLength).takeWhile filterChar
  if name = [] then .error "No name found"
  else if name.length < maxLength then .ok (name, line.drop name.length)
  else .error "Name too long"

def parseName (maxLength : Nat) : Parser Text := parseFilteredName validNameChar maxLength

def parseAlphanumName (maxLength : Nat) : Parser Text := fun line =>
  match line with
  | [] => .error "No name found"
  | ch :: rest =>
      if validNameChar ch then parseFilteredName validAlphanumChar maxLength (ch :: rest)
      else .error "No name found"

/-- The two highest bits of a byte that continues a sequence. -/
def isContinuation (ch : Char) : Bool := (ch.toNat &&& 0xc0) == 0x80

/-- `utf8_check`: what is left of the string at its first malformed sequence. A sequence that the
string ends in is malformed, since the NUL after it continues nothing. -/
def utf8Check : Text → Text
  | [] => []
  | s0 :: rest =>
      if s0.toNat < 0x80 then utf8Check rest
      else if (s0.toNat &&& 0xe0) == 0xc0 then
        match rest with
        | s1 :: after =>
            if !isContinuation s1 || (s0.toNat &&& 0xfe) == 0xc0 then s0 :: rest
            else utf8Check after
        | _ => s0 :: rest
      else if (s0.toNat &&& 0xf0) == 0xe0 then
        match rest with
        | s1 :: s2 :: after =>
            if !isContinuation s1 || !isContinuation s2
              || (s0.toNat == 0xe0 && (s1.toNat &&& 0xe0) == 0x80)
              || (s0.toNat == 0xed && (s1.toNat &&& 0xe0) == 0xa0)
              || (s0.toNat == 0xef && s1.toNat == 0xbf && (s2.toNat &&& 0xfe) == 0xbe)
            then s0 :: rest
            else utf8Check after
        | _ => s0 :: rest
      else if (s0.toNat &&& 0xf8) == 0xf0 then
        match rest with
        | s1 :: s2 :: s3 :: after =>
            if !isContinuation s1 || !isContinuation s2 || !isContinuation s3
              || (s0.toNat == 0xf0 && (s1.toNat &&& 0xf0) == 0x80)
              || (s0.toNat == 0xf4 && s1.toNat > 0x8f) || s0.toNat > 0xf4
            then s0 :: rest
            else utf8Check after
        | _ => s0 :: rest
      else s0 :: rest

def parseUtf8String : Parser Text := fun line =>
  if utf8Check line = [] then .ok (line, []) else .error "Malformed UTF-8 encoding"

/-! ### Names that are read back -/

/-- What `parse_alphanum_name` accepts as a whole. -/
structure IsName (name : Text) : Prop where
  filled : name ≠ []
  head : ∀ ch ∈ name.head?, validNameChar ch = true
  chars : ∀ ch ∈ name, validAlphanumChar ch = true
  short : name.length < maxNameLength

theorem parseFilteredName_ok {filterChar : Char → Bool} {maxLength : Nat} {line name rest : Text}
    (h : parseFilteredName filterChar maxLength line = .ok (name, rest)) :
    name ≠ [] ∧ name.length < maxLength ∧ (∀ ch ∈ name, filterChar ch = true) ∧
      line = name ++ rest := by
  unfold parseFilteredName at h
  simp only at h
  split_ifs at h with hNil hShort
  obtain ⟨hName, hRest⟩ := Prod.mk.inj (Except.ok.inj h)
  subst hName
  refine ⟨hNil, hShort, fun ch hMem => List.mem_takeWhile_imp hMem, ?_⟩
  have hInitial : (line.take maxLength).takeWhile filterChar <+: line :=
    (List.takeWhile_prefix _).trans (List.take_prefix _ _)
  rw [← hRest]
  exact (List.prefix_iff_eq_append.mp hInitial).symm

/-- A name that ends where a character that cannot be in it stands. -/
theorem parseFilteredName_append {filterChar : Char → Bool} {maxLength : Nat} {name rest : Text}
    (hNil : name ≠ []) (hShort : name.length < maxLength)
    (hChars : ∀ ch ∈ name, filterChar ch = true) (hRest : ∀ ch ∈ rest.head?, filterChar ch = false) :
    parseFilteredName filterChar maxLength (name ++ rest) = .ok (name, rest) := by
  have hTake : ((name ++ rest).take maxLength).takeWhile filterChar = name := by
    rw [List.take_append, List.take_of_length_le hShort.le, List.takeWhile_append_of_pos hChars]
    cases rest with
    | nil => simp
    | cons ch rest =>
        obtain ⟨room, hRoom⟩ : ∃ room, maxLength - name.length = room + 1 :=
          ⟨maxLength - name.length - 1, by omega⟩
        rw [hRoom, List.take_succ_cons, List.takeWhile_cons_of_neg (by simp [hRest ch rfl]),
          List.append_nil]
  simp only [parseFilteredName, hTake]
  rw [if_neg hNil, if_pos hShort, List.drop_left]

theorem parseAlphanumName_ok {line name rest : Text}
    (h : parseAlphanumName maxNameLength line = .ok (name, rest)) :
    IsName name ∧ line = name ++ rest := by
  cases line with
  | nil => exact absurd h (by simp [parseAlphanumName])
  | cons ch tail =>
      simp only [parseAlphanumName] at h
      split_ifs at h with hHead
      obtain ⟨hNil, hShort, hChars, hLine⟩ := parseFilteredName_ok h
      refine ⟨⟨hNil, fun first hFirst => ?_, hChars, hShort⟩, hLine⟩
      cases name with
      | nil => exact absurd rfl hNil
      | cons head others =>
          obtain rfl : head = first := by simpa using hFirst
          obtain rfl : ch = head := (List.cons.inj hLine).1
          exact hHead

theorem parseFilteredName_too_long {filterChar : Char → Bool} {maxLength : Nat} {name rest : Text}
    (hRoom : maxLength ≠ 0) (hLong : maxLength ≤ name.length)
    (hChars : ∀ ch ∈ name, filterChar ch = true) :
    parseFilteredName filterChar maxLength (name ++ rest) = .error "Name too long" := by
  have hTaken : ((name ++ rest).take maxLength).takeWhile filterChar = name.take maxLength := by
    rw [List.take_append_of_le_length hLong]
    exact List.takeWhile_eq_self_iff.mpr fun ch hMem => hChars ch (List.mem_of_mem_take hMem)
  have hLength : (name.take maxLength).length = maxLength := List.length_take_of_le hLong
  have hSome : name.take maxLength ≠ [] := by
    intro hEmpty
    rw [hEmpty] at hLength
    exact hRoom hLength.symm
  simp only [parseFilteredName, hTaken, hLength]
  rw [if_neg hSome, if_neg (Nat.lt_irrefl _)]

section Alphanum

variable {name rest : Text}

theorem parseAlphanumName_of_head {maxLength : Nat} (hNil : name ≠ [])
    (hHead : ∀ ch ∈ name.head?, validNameChar ch = true) :
    parseAlphanumName maxLength (name ++ rest) =
      parseFilteredName validAlphanumChar maxLength (name ++ rest) := by
  cases name with
  | nil => exact absurd rfl hNil
  | cons ch tail => rw [List.cons_append, parseAlphanumName, if_pos (hHead ch rfl)]

theorem parseAlphanumName_append (hNil : name ≠ [])
    (hHead : ∀ ch ∈ name.head?, validNameChar ch = true)
    (hChars : ∀ ch ∈ name, validAlphanumChar ch = true) (hShort : name.length < maxNameLength)
    (hRest : ∀ ch ∈ rest.head?, validAlphanumChar ch = false) :
    parseAlphanumName maxNameLength (name ++ rest) = .ok (name, rest) := by
  rw [parseAlphanumName_of_head hNil hHead]
  exact parseFilteredName_append hNil hShort hChars hRest

theorem parseAlphanumName_too_long (hNil : name ≠ [])
    (hHead : ∀ ch ∈ name.head?, validNameChar ch = true)
    (hChars : ∀ ch ∈ name, validAlphanumChar ch = true) (hLong : maxNameLength ≤ name.length) :
    parseAlphanumName maxNameLength (name ++ rest) = .error "Name too long" := by
  rw [parseAlphanumName_of_head hNil hHead]
  exact parseFilteredName_too_long (by decide) hLong hChars

theorem IsName.parseAlphanumName (hName : IsName name) :
    parseAlphanumName maxNameLength name = .ok (name, []) := by
  have hAll := @parseAlphanumName_append name [] hName.filled hName.head hName.chars hName.short
    (by simp)
  rw [List.append_nil] at hAll
  exact hAll

end Alphanum

theorem validAlphanumChar_bounds {ch : Char} (h : validAlphanumChar ch = true) :
    48 ≤ ch.toNat ∧ ch ≠ '=' ∧ ch ≠ '<' := by
  refine ⟨?_, ?_, ?_⟩
  · change (((decide (ch.val ≥ 65 ∧ ch.val ≤ 90) ||
      decide (ch.val ≥ 97) && decide (ch.val ≤ 122)) || ch == '_') ||
      decide (ch.val ≥ 48) && decide (ch.val ≤ 57)) = true at h
    simp only [Bool.or_eq_true, Bool.and_eq_true, decide_eq_true_eq, beq_iff_eq] at h
    rcases h with ((⟨hLow, -⟩ | ⟨hLow, -⟩) | rfl) | ⟨hLow, -⟩
    · exact (show 48 ≤ 65 by omega).trans (UInt32.le_iff_toNat_le.mp hLow)
    · exact (show 48 ≤ 97 by omega).trans (UInt32.le_iff_toNat_le.mp hLow)
    · decide
    · exact UInt32.le_iff_toNat_le.mp hLow
  · rintro rfl
    exact absurd h (by decide)
  · rintro rfl
    exact absurd h (by decide)

theorem IsName.not_mem {name : Text} (hName : IsName name) {ch : Char} (hLow : ch.toNat < 48) :
    ch ∉ name := by
  intro hMem
  have hBound := (validAlphanumChar_bounds (hName.chars ch hMem)).1
  omega

end Server
