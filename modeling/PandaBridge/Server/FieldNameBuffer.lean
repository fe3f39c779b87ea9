import PandaBridge.Server.BufferedOutput
import PandaBridge.Server.EntityNames

/-! `format_field_name` in the buffer of its caller: which characters of the string it writes, and
whether its assertions hold. -/
namespace Server.Entity

open Memory (store load)

/-- A call that is under way: what is in the string, the indices that were written, and the length
that is returned, if no assertion fails. -/
structure NameRun where
  string : Nat → Char
  writes : List Nat
  result : Option Nat

namespace NameRun

/-- `snprintf` from an index of the string on, with so much room there. -/
def snprintf (run : NameRun) (start size : Nat) (text : Text) : NameRun :=
  { run with
    string := vsnprintf run.string start size text
    writes := run.writes ++
      if size = 0 then [] else List.range' start (min text.length (size - 1) + 1) }

/-- The last two characters are put without a look at the length. -/
def finish (run : NameRun) (result : Nat) (suffix : Char) : NameRun where
  string := store run.string result [suffix, '\x00']
  writes := run.writes ++ [result, result + 1]
  result := some (result + 1)

/-- Nothing outside the string was written, and no assertion has failed. -/
def InBuffer (run : NameRun) (length : Nat) : Prop :=
  (∀ index ∈ run.writes, index < length) ∧ run.result.isSome = true

end NameRun

section Format

variable {database : Database} (place : Place database)

/-- The name of an instance of a field. -/
def instanceText : Text :=
  place.blockOf.name ++ (numberText place.blockOf.count place.number ++ '.' :: place.fieldOf.name)

/-- `format_field_name`, on a string of this length. -/
def formatFieldNameIn (length : Nat) (suffix : Char) (string : Nat → Char) : NameRun :=
  let head := instanceText place
  let run := NameRun.snprintf ⟨string, [], none⟩ 0 length head
  if head.length < length then
    match place.attr with
    | none => if head.length < length + 1 then run.finish head.length suffix else run
    | some attr =>
        let tail := attrText (some attr.val)
        let run := run.snprintf head.length (length - head.length) tail
        let result := head.length + tail.length
        if result < length + 1 then run.finish result suffix else run
  else run

/-! ### What is written -/

/-- The name without its suffix. -/
def nameText : Text := instanceText place ++ attrText (place.attr.map Subtype.val)

theorem formatFieldName_eq (suffix : Char) :
    formatFieldName place suffix = nameText place ++ [suffix] := by
  simp only [formatFieldName, nameText, instanceText, List.append_assoc, List.cons_append]

theorem snprintf_writes_lt {run : NameRun} {start size length : Nat} {text : Text}
    (hSize : start + size = length) (hWrites : ∀ index ∈ run.writes, index < length) :
    ∀ index ∈ (run.snprintf start size text).writes, index < length := by
  intro index hMem
  simp only [NameRun.snprintf, List.mem_append] at hMem
  rcases hMem with hOld | hNew
  · exact hWrites index hOld
  · split_ifs at hNew with hNone
    · exact absurd hNew List.not_mem_nil
    · rw [List.mem_range'_1] at hNew
      omega

/-- The last two characters decide whether the string is left. -/
theorem finish_inBuffer_iff {run : NameRun} {length result : Nat} {suffix : Char}
    (hWrites : ∀ index ∈ run.writes, index < length) :
    (run.finish result suffix).InBuffer length ↔ result + 2 ≤ length := by
  simp only [NameRun.InBuffer, NameRun.finish, List.mem_append, List.mem_cons, List.not_mem_nil,
    or_false, Option.isSome_some, and_true]
  constructor
  · intro hAll
    exact hAll (result + 1) (Or.inr (Or.inr rfl))
  · rintro hFits index (hOld | rfl | rfl)
    · exact hWrites index hOld
    · omega
    · omega

theorem not_inBuffer_of_failed {run : NameRun} {length : Nat} (hFailed : run.result = none) :
    ¬ run.InBuffer length := by
  rintro ⟨-, hSome⟩
  rw [hFailed] at hSome
  exact Bool.false_ne_true hSome

/-- The string is not left, and no assertion fails, exactly when it has room for the name, the
suffix and the NUL. -/
theorem formatFieldNameIn_inBuffer_iff (length : Nat) (suffix : Char) (string : Nat → Char) :
    (formatFieldNameIn place length suffix string).InBuffer length ↔
      (nameText place).length + 2 ≤ length := by
  have hHead : ∀ index ∈ (NameRun.snprintf ⟨string, [], none⟩ 0 length (instanceText place)).writes,
      index < length := snprintf_writes_lt (Nat.zero_add _) (by simp)
  rw [formatFieldNameIn, nameText, List.length_append]
  by_cases hRoom : (instanceText place).length < length
  · rw [if_pos hRoom]
    cases place.attr with
    | none =>
        simp only [Option.map_none, attrText, List.length_nil, Nat.add_zero]
        rw [if_pos (Nat.lt_succ_of_lt hRoom)]
        exact finish_inBuffer_iff hHead
    | some attr =>
        have hTail := @snprintf_writes_lt _ _ _ _ (attrText (some attr.val))
          (Nat.add_sub_of_le hRoom.le) hHead
        simp only [Option.map_some]
        split_ifs with hLast
        · exact finish_inBuffer_iff hTail
        · refine iff_of_false (not_inBuffer_of_failed rfl) ?_
          omega
  · rw [if_neg hRoom]
    refine iff_of_false (not_inBuffer_of_failed rfl) ?_
    omega

end Format

/-! ### The callers -/

/-- The functions that call `format_field_name`. -/
inductive NameCaller
  | registerOneField
  | registerBitGroup
  | extOutParseRegister
  | addMuxIndices
  | reportChangedValue
  | reportChangedAttr
  | reportChangedTable
  deriving DecidableEq

namespace NameCaller

/-- The length of the array that a caller passes. -/
def room : NameCaller → Nat
  | registerOneField | registerBitGroup | extOutParseRegister | addMuxIndices => maxNameLength
  | reportChangedValue | reportChangedAttr | reportChangedTable => maxResultLength

def suffix : NameCaller → Char
  | registerOneField | registerBitGroup | extOutParseRegister | addMuxIndices => '\x00'
  | reportChangedValue | reportChangedAttr => '='
  | reportChangedTable => '<'

/-- The callers that report a change. -/
def reports : NameCaller → Bool
  | registerOneField | registerBitGroup | extOutParseRegister | addMuxIndices => false
  | reportChangedValue | reportChangedAttr | reportChangedTable => true

end NameCaller

variable {database : Database}

/-- The characters of a name: its block, the number if there is one, the dot and the field, with
what an attribute adds. -/
def nameLength (place : Place database) : Nat :=
  place.blockOf.name.length + (numberText place.blockOf.count place.number).length + 1 +
    place.fieldOf.name.length + (attrText (place.attr.map Subtype.val)).length

theorem nameText_length (place : Place database) :
    (nameText place).length = nameLength place := by
  simp only [nameText, instanceText, nameLength, List.length_append, List.length_cons]
  omega

theorem nameLength_le (place : Place database) : nameLength place + 2 ≤ maxResultLength := by
  have hLength := formatFieldName_length place '='
  rw [formatFieldName_eq, List.length_append, List.length_singleton, nameText_length] at hLength
  exact hLength

/-- A field name fits the buffer of its caller in a report, and elsewhere when it leaves two
characters of the name buffer. -/
theorem field_name_in_buffer_iff (caller : NameCaller) (place : Place database)
    (string : Nat → Char) :
    (formatFieldNameIn place caller.room caller.suffix string).InBuffer caller.room ↔
      caller.reports = true ∨ nameLength place + 2 ≤ maxNameLength := by
  rw [formatFieldNameIn_inBuffer_iff, nameText_length]
  have hReport := nameLength_le place
  cases caller with
  | reportChangedValue | reportChangedAttr | reportChangedTable =>
      exact iff_of_true hReport (Or.inl rfl)
  | registerOneField | registerBitGroup | extOutParseRegister | addMuxIndices =>
      simp only [NameCaller.room, NameCaller.reports, Bool.false_eq_true, false_or]

/-- A block with one field that is captured. -/
def oneOutput (block field : Text) (hBlock : IsBlockName block) (hField : IsName field) :
    Database where
  blocks := [⟨block, 1, [⟨field, .posOut, hField⟩], hBlock, by decide, List.nodup_singleton _⟩]
  distinct := List.nodup_singleton _

def onlyOutput (block field : Text) (hBlock : IsBlockName block) (hField : IsName field) :
    Place (oneOutput block field hBlock hField) :=
  ⟨⟨0, Nat.one_pos⟩, ⟨0, Nat.one_pos⟩, ⟨0, Nat.one_pos⟩, none⟩

/-- Names of 15 characters each are accepted, and the NUL behind them is written past the end of
the buffer for a name; with one character more an assertion fails. -/
theorem captured_name_overruns :
    (loadConfig 64 (fun _ _ line => .ok (.posOut, line))
        [.header "ABCDEFGHIJKLMNO".toList, .field "ABCDEFGHIJKLMNO pos_out".toList] =
      .ok (oneOutput "ABCDEFGHIJKLMNO".toList "ABCDEFGHIJKLMNO".toList
        (isBlockName_of_check rfl) (isBlockName_of_check rfl).named) ∧
      (formatFieldNameIn (onlyOutput "ABCDEFGHIJKLMNO".toList "ABCDEFGHIJKLMNO".toList
          (isBlockName_of_check rfl) (isBlockName_of_check rfl).named)
        32 '\x00' fun _ => '\x00').writes.getLast? = some 32 ∧
      ¬ (formatFieldNameIn (onlyOutput "ABCDEFGHIJKLMNO".toList "ABCDEFGHIJKLMNO".toList
          (isBlockName_of_check rfl) (isBlockName_of_check rfl).named)
        NameCaller.registerOneField.room NameCaller.registerOneField.suffix
        fun _ => '\x00').InBuffer NameCaller.registerOneField.room) ∧
    (loadConfig 64 (fun _ _ line => .ok (.posOut, line))
        [.header "ABCDEFGHIJKLMNO".toList, .field "ABCDEFGHIJKLMNOP pos_out".toList] =
      .ok (oneOutput "ABCDEFGHIJKLMNO".toList "ABCDEFGHIJKLMNOP".toList
        (isBlockName_of_check rfl) (isBlockName_of_check rfl).named) ∧
      (formatFieldNameIn (onlyOutput "ABCDEFGHIJKLMNO".toList "ABCDEFGHIJKLMNOP".toList
          (isBlockName_of_check rfl) (isBlockName_of_check rfl).named)
        32 '\x00' fun _ => '\x00').result = none ∧
      ¬ (formatFieldNameIn (onlyOutput "ABCDEFGHIJKLMNO".toList "ABCDEFGHIJKLMNOP".toList
          (isBlockName_of_check rfl) (isBlockName_of_check rfl).named)
        NameCaller.registerOneField.room NameCaller.registerOneField.suffix
        fun _ => '\x00').InBuffer NameCaller.registerOneField.room) := by
  refine ⟨⟨rfl, rfl, ?_⟩, rfl, rfl, ?_⟩
  · rw [formatFieldNameIn_inBuffer_iff]
    decide
  · rw [formatFieldNameIn_inBuffer_iff]
    decide

end Server.Entity
