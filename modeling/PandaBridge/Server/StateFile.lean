import PandaBridge.Server.ConfigServer

/-! The state file: its lines are read back one by one and given to the commands that a client
would use. The commands themselves are left to their command sets. -/
namespace Server

/-- A line as it is read from a client or from the state file: a string without a newline that
has fitted its buffer. -/
structure InputLine where
  chars : Text
  plain : '\n' ∉ chars
  string : '\x00' ∉ chars
  short : chars.length + 1 < maxLineLength

/-- `fgets`: a line with its newline, or as much as the buffer holds. -/
def fgets (maxLength : Nat) (file : Text) : Option (Text × Text) :=
  if file = [] then none
  else
    match BufferedFile.splitLine (file.take (maxLength - 1)) with
    | some (text, rest) => some (text ++ ['\n'], rest ++ file.drop (maxLength - 1))
    | none => some (file.take (maxLength - 1), file.drop (maxLength - 1))

/-- `do_read_line`: nothing is read at the end of the file, or from a line that is too long. -/
def doReadLine (file : Text) : Option Text × Text :=
  match fgets maxLineLength file with
  | none => (none, file)
  | some (line, rest) =>
      let string := cString line
      if string = [] then (none, rest)
      else if string.getLast? = some '\n' then (some string.dropLast, rest)
      else (none, rest)

def malformedLine : LineText := .ofString "Malformed line" (by decide)

section Loading

variable {World : Type}

/-- `do_put_table` on the lines of the state file. -/
def doPutTableFrom (writer : PutTableWriter World) : Nat → (file : Text) → World →
    Option LineText → Option (Text × World × Option LineText)
  | 0, _, _, _ => none
  | rounds + 1, file, world, error =>
      match doReadLine file with
      | (none, rest) => some (rest, world, error <|> some unexpectedEof)
      | (some line, rest) =>
          if line = [] then some (rest, world, error)
          else
            match error with
            | some message => doPutTableFrom writer rounds rest world (some message)
            | none =>
                let written := writer.write world line
                doPutTableFrom writer rounds rest written.1 written.2

/-- `process_put_table_command` on the lines of the state file. -/
def putTableFrom (set : CommandSet World) (name format file : Text) (world : World) :
    Option (Text × World × Option LineText) :=
  let parsed := parseTableCommand set name format world
  (doPutTableFrom parsed.2.1 (file.length + 1) file parsed.1 none).map fun put =>
    let closed := parsed.2.1.close put.2.1 put.2.2.isNone
    (put.1, closed.1, parsed.2.2 <|> put.2.2 <|> closed.2)

/-- What stands before the action of a line. -/
def entryName (line : Text) : Text := line.takeWhile fun ch => !(ch == '=' || ch == '<')

/-- The action of a line and what follows it. -/
def entryRest (line : Text) : Text := line.drop (entryName line).length

/-- `load_one_value`. -/
def loadOneValue (sets : CommandSets World) (file line : Text) (world : World) :
    Option (Text × World × Option LineText) :=
  let (set, name) := commandSet sets (entryName line)
  match entryRest line with
  | '=' :: value =>
      let put := set.put name value world
      some (file, put.1, put.2)
  | '<' :: format => putTableFrom set name format file world
  | _ => some (file, world, some malformedLine)

/-- The loop of `load_persistent_state`, for at most so many lines: the server and the number of
lines that failed. -/
def loadLines (sets : CommandSets World) : Nat → (file : Text) → World → (errorCount : Nat) →
    Option (World × Nat)
  | 0, _, _, _ => none
  | rounds + 1, file, world, errorCount =>
      match doReadLine file with
      | (none, _) => some (world, errorCount)
      | (some line, rest) =>
          (loadOneValue sets rest line world).bind fun loaded =>
            loadLines sets rounds loaded.1 loaded.2.1
              (if loaded.2.2.isSome then errorCount + 1 else errorCount)

/-- `load_persistent_state`. -/
def loadPersistentState (sets : CommandSets World) (file : Text) (world : World) :
    Option (World × Nat) :=
  loadLines sets (file.length + 1) file world 0

end Loading

/-! ### The parts of a state file -/

/-- What the state file holds: a line with a value, or a table up to its blank line. -/
inductive Entry
  | value (line : InputLine) (hValue : (entryRest line.chars).head? ≠ some '<')
  | table (header : InputLine) (hTable : (entryRest header.chars).head? = some '<')
      (lines : List InputLine) (hLines : ∀ line ∈ lines, line.chars ≠ [])

def linesText (lines : List Text) : Text := lines.flatMap fun line => line ++ ['\n']

/-- The lines that are written for an entry. -/
def Entry.lines : Entry → List Text
  | .value line _ => [line.chars]
  | .table header _ lines _ => header.chars :: (lines.map InputLine.chars ++ [[]])

/-- The text of a list of entries. -/
def entriesText (entries : List Entry) : Text := linesText (entries.flatMap Entry.lines)

section Loading

variable {World : Type}

/-- The lines of a table are written up to the first error. -/
def writeLines (writer : PutTableWriter World) : List InputLine → World → Option LineText →
    World × Option LineText
  | [], world, error => (world, error)
  | _ :: _, world, some message => (world, some message)
  | line :: rest, world, none =>
      let written := writer.write world line.chars
      writeLines writer rest written.1 written.2

/-- What loading does with an entry. -/
def loadEntry (sets : CommandSets World) (world : World) : Entry → World × Option LineText
  | .value line _ =>
      let (set, name) := commandSet sets (entryName line.chars)
      match entryRest line.chars with
      | '=' :: value => set.put name value world
      | _ => (world, some malformedLine)
  | .table header _ lines _ =>
      let (set, name) := commandSet sets (entryName header.chars)
      let parsed := parseTableCommand set name (entryRest header.chars).tail world
      let put := writeLines parsed.2.1 lines parsed.1 none
      let closed := parsed.2.1.close put.1 put.2.isNone
      (closed.1, parsed.2.2 <|> put.2 <|> closed.2)

/-- The server after all entries, and the number of those that failed. -/
def loadEntries (sets : CommandSets World) : List Entry → World → Nat → World × Nat
  | [], world, errorCount => (world, errorCount)
  | entry :: rest, world, errorCount =>
      let loaded := loadEntry sets world entry
      loadEntries sets rest loaded.1 (if loaded.2.isSome then errorCount + 1 else errorCount)

end Loading

/-! ### Reading what was written -/

theorem doReadLine_line (line : InputLine) (rest : Text) :
    doReadLine (line.chars ++ '\n' :: rest) = (some line.chars, rest) := by
  have hShort : line.chars.length + 1 ≤ maxLineLength - 1 := by
    have hLine := line.short
    omega
  have hGet : fgets maxLineLength (line.chars ++ '\n' :: rest) =
      some (line.chars ++ ['\n'], rest) := by
    obtain ⟨room, hRoom⟩ : ∃ room, maxLineLength - 1 - line.chars.length = room + 1 :=
      ⟨maxLineLength - 1 - line.chars.length - 1, by omega⟩
    rw [fgets, if_neg (by simp), List.take_append, List.take_of_length_le (by omega), hRoom,
      List.take_succ_cons, BufferedFile.splitLine_line line.plain, List.drop_append,
      List.drop_eq_nil_of_le (by omega), hRoom, List.drop_succ_cons, List.nil_append]
    simp only [List.take_append_drop]
  have hString : cString (line.chars ++ ['\n']) = line.chars ++ ['\n'] := by
    refine List.takeWhile_eq_self_iff.mpr fun ch hMem => ?_
    rcases List.mem_append.mp hMem with hChars | hNewline
    · exact decide_eq_true fun h => line.string (h ▸ hChars)
    · obtain rfl : ch = '\n' := by simpa using hNewline
      decide
  simp only [doReadLine, hGet, hString]
  rw [if_neg (by simp), if_pos (by simp), List.dropLast_concat]

theorem linesText_cons (line : Text) (lines : List Text) :
    linesText (line :: lines) = line ++ '\n' :: linesText lines := by
  simp [linesText]

theorem linesText_append (first second : List Text) :
    linesText (first ++ second) = linesText first ++ linesText second := by
  simp [linesText]

theorem length_le_linesText (lines : List Text) : lines.length ≤ (linesText lines).length := by
  induction lines with
  | nil => exact Nat.zero_le _
  | cons line lines ih =>
      rw [linesText_cons, List.length_append, List.length_cons, List.length_cons]
      omega

theorem length_le_flatMap_lines (entries : List Entry) :
    entries.length ≤ (entries.flatMap Entry.lines).length := by
  induction entries with
  | nil => exact Nat.zero_le _
  | cons entry entries ih =>
      have hFilled : 0 < entry.lines.length := by
        cases entry <;> exact Nat.succ_pos _
      rw [List.flatMap_cons, List.length_append, List.length_cons]
      omega

section Loading

variable {World : Type}

theorem doPutTableFrom_lines (writer : PutTableWriter World) {lines : List InputLine}
    (hLines : ∀ line ∈ lines, line.chars ≠ []) (rest : Text) {rounds : Nat}
    (hRounds : lines.length < rounds) (world : World) (error : Option LineText) :
    doPutTableFrom writer rounds (linesText (lines.map InputLine.chars ++ [[]]) ++ rest) world
      error =
      some (rest, (writeLines writer lines world error).1, (writeLines writer lines world error).2) := by
  induction lines generalizing rounds world error with
  | nil =>
      obtain ⟨rounds, rfl⟩ : ∃ before, rounds = before + 1 := ⟨rounds - 1, by simp at hRounds; omega⟩
      have hRead := doReadLine_line ⟨[], by simp, by simp, by decide⟩ rest
      simp only [List.nil_append] at hRead
      have hText : linesText ([].map InputLine.chars ++ [[]]) ++ rest = '\n' :: rest := rfl
      rw [hText, doPutTableFrom, hRead]
      cases error <;> rfl
  | cons line lines ih =>
      obtain ⟨rounds, rfl⟩ : ∃ before, rounds = before + 1 := ⟨rounds - 1, by simp at hRounds; omega⟩
      have hFew : lines.length < rounds := by simpa using hRounds
      have hOthers := fun other hOther => hLines other (List.mem_cons_of_mem _ hOther)
      have hRead := doReadLine_line line (linesText (lines.map InputLine.chars ++ [[]]) ++ rest)
      simp only [List.map_cons, List.cons_append, linesText_cons, List.append_assoc] at hRead ⊢
      rw [doPutTableFrom, hRead]
      simp only
      rw [if_neg (hLines line List.mem_cons_self)]
      cases error with
      | some message =>
          have hRest := ih hOthers hFew world (some message)
          cases lines <;> exact hRest
      | none => exact ih hOthers hFew _ _

theorem loadOneValue_entry (sets : CommandSets World) (entry : Entry) (rest : Text)
    (world : World) : ∃ line after, doReadLine (linesText entry.lines ++ rest) = (some line, after) ∧
      loadOneValue sets after line world =
        some (rest, (loadEntry sets world entry).1, (loadEntry sets world entry).2) := by
  cases entry with
  | value line hValue =>
      refine ⟨line.chars, rest, ?_, ?_⟩
      · simpa [Entry.lines, linesText] using doReadLine_line line rest
      · simp only [loadOneValue, loadEntry]
        generalize entryRest line.chars = tail at hValue
        cases tail with
        | nil => rfl
        | cons action value =>
            by_cases hPut : action = '='
            · subst hPut
              rfl
            · have hNotTable : action ≠ '<' := fun h => hValue (by rw [h]; rfl)
              simp only [List.cons.injEq, hPut, hNotTable, false_and, imp_self, implies_true]
  | table header hTable lines hLines =>
      refine ⟨header.chars, linesText (lines.map InputLine.chars ++ [[]]) ++ rest, ?_, ?_⟩
      · rw [Entry.lines, linesText_cons, List.append_assoc, List.cons_append]
        exact doReadLine_line header _
      · obtain ⟨format, hFormat⟩ : ∃ format, entryRest header.chars = '<' :: format :=
          List.head?_eq_some_iff.mp hTable
        have hLength : lines.length <
            (linesText (lines.map InputLine.chars ++ [[]]) ++ rest).length + 1 := by
          have hLines := length_le_linesText (lines.map InputLine.chars ++ [[]])
          simp only [List.length_append, List.length_map, List.length_singleton] at hLines ⊢
          omega
        simp only [loadOneValue, loadEntry, hFormat, List.tail_cons, putTableFrom]
        rw [doPutTableFrom_lines _ hLines rest hLength]
        rfl

theorem loadLines_entries (sets : CommandSets World) {entries : List Entry} {rounds : Nat}
    (hRounds : entries.length < rounds) (world : World) (errorCount : Nat) :
    loadLines sets rounds (entriesText entries) world errorCount =
      some (loadEntries sets entries world errorCount) := by
  induction entries generalizing rounds world errorCount with
  | nil =>
      obtain ⟨rounds, rfl⟩ : ∃ before, rounds = before + 1 := ⟨rounds - 1, by simp at hRounds; omega⟩
      rfl
  | cons entry entries ih =>
      obtain ⟨rounds, rfl⟩ : ∃ before, rounds = before + 1 := ⟨rounds - 1, by simp at hRounds; omega⟩
      obtain ⟨line, after, hRead, hLoad⟩ :=
        loadOneValue_entry sets entry (entriesText entries) world
      have hText : entriesText (entry :: entries) = linesText entry.lines ++ entriesText entries := by
        rw [entriesText, List.flatMap_cons, linesText_append, entriesText]
      rw [loadLines, hText, hRead]
      simp only
      rw [hLoad, Option.bind_some, ih (by simpa using hRounds)]
      rfl

theorem loadPersistentState_entries (sets : CommandSets World) (entries : List Entry)
    (world : World) : loadPersistentState sets (entriesText entries) world =
      some (loadEntries sets entries world 0) := by
  refine loadLines_entries sets (Nat.lt_succ_of_le ?_) world 0
  exact (length_le_flatMap_lines entries).trans (length_le_linesText _)

theorem loadEntries_append (sets : CommandSets World) (first second : List Entry) (world : World)
    (errorCount : Nat) : loadEntries sets (first ++ second) world errorCount =
      loadEntries sets second (loadEntries sets first world errorCount).1
        (loadEntries sets first world errorCount).2 := by
  induction first generalizing world errorCount with
  | nil => rfl
  | cons entry first ih => exact ih _ _

theorem loadEntries_le (sets : CommandSets World) (entries : List Entry) (world : World)
    (errorCount : Nat) : errorCount ≤ (loadEntries sets entries world errorCount).2 := by
  induction entries generalizing world errorCount with
  | nil => exact Nat.le_refl _
  | cons entry entries ih =>
      rw [loadEntries]
      refine le_trans ?_ (ih _ _)
      split_ifs
      · exact Nat.le_succ _
      · exact Nat.le_refl _

end Loading

end Server
