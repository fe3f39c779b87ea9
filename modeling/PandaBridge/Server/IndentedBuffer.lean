import PandaBridge.Server.IndentedLines
import PandaBridge.Server.TextLines

/-! Indented files through the line buffer. -/
namespace Server

variable {Context ParseLine AtEnd World : Type}

/-- The outcome of a call of `parse_one_line`. -/
def LineCall.outcome (call : LineCall Context ParseLine AtEnd World) : LineOutcome World :=
  ⟨call.result.line, call.result.world, call.result.error⟩

/-- No line of these is rejected. -/
def Accepted (calls : IndentCalls Context ParseLine AtEnd World)
    (first : IndentParser Context ParseLine AtEnd)
    (reading : Reading Context ParseLine AtEnd World) (lines : List Text) : Prop :=
  ∀ outcome ∈ readLines calls first lines reading, outcome.error = none

/-- An indented file is parsed line by line: each of its lines once, up to the first error, by
the parser of its place in the file, on a stack that stays in order. -/
structure FileResult.LineByLine (result : FileResult Context ParseLine AtEnd World)
    (calls : IndentCalls Context ParseLine AtEnd World)
    (first : IndentParser Context ParseLine AtEnd)
    (reading : Reading Context ParseLine AtEnd World) (file : Text) : Prop where
  whole : result.calls.map LineCall.line <+: (wholeLines file).map lineText
  complete : result.error = none →
    result.calls.map LineCall.line = (wholeLines file).map lineText
  dispatched : result.calls.map LineCall.outcome =
    readLines calls first (result.calls.map LineCall.line) reading
  ordered : ∀ call ∈ result.calls, call.result.stack.Ordered

/-- Every line up to the first one that is rejected fits the buffer, the rejected one at least
without its newline. -/
def LinesFit (calls : IndentCalls Context ParseLine AtEnd World)
    (first : IndentParser Context ParseLine AtEnd)
    (reading : Reading Context ParseLine AtEnd World) (lines : List Text) : Prop :=
  ∀ earlier line later, lines = earlier ++ line :: later →
    Accepted calls first reading (earlier.map lineText) →
    line.length < configLineLength ∨ (lineText line).length < configLineLength ∧
      ¬ Accepted calls first reading ((earlier ++ [line]).map lineText)

section Steps

variable (calls : IndentCalls Context ParseLine AtEnd World)
  {first : IndentParser Context ParseLine AtEnd}

theorem accepted_nil (reading : Reading Context ParseLine AtEnd World) :
    Accepted calls first reading [] := fun _ h => absurd h List.not_mem_nil

theorem accepted_cons (reading : Reading Context ParseLine AtEnd World) (line : Text)
    (lines : List Text) : Accepted calls first reading (line :: lines) ↔
      (readLine calls first reading line).2.error = none ∧
        Accepted calls first (readLine calls first reading line).1 lines := by
  simp only [Accepted, readLines, List.forall_mem_cons]
  refine and_congr_right fun hNone => ?_
  rw [hNone]
  rfl

theorem linesFit_cons (reading : Reading Context ParseLine AtEnd World) (line : Text)
    (lines : List Text) : LinesFit calls first reading (line :: lines) ↔
      (line.length < configLineLength ∨ (lineText line).length < configLineLength ∧
        (readLine calls first reading (lineText line)).2.error ≠ none) ∧
      ((readLine calls first reading (lineText line)).2.error = none →
        LinesFit calls first (readLine calls first reading (lineText line)).1 lines) := by
  constructor
  · intro hFit
    constructor
    · have hHead := hFit [] line lines rfl (accepted_nil calls reading)
      rw [List.nil_append, List.map_singleton, accepted_cons] at hHead
      simpa [accepted_nil] using hHead
    · intro hNone earlier next later hLines hEarlier
      have hNext := hFit (line :: earlier) next later (by rw [hLines]; rfl)
        ((accepted_cons calls reading _ _).mpr ⟨hNone, hEarlier⟩)
      rw [List.cons_append, List.map_cons, accepted_cons] at hNext
      simpa [hNone] using hNext
  · rintro ⟨hHead, hTail⟩ earlier next later hLines hEarlier
    cases earlier with
    | nil =>
        obtain ⟨rfl, -⟩ := List.cons.inj hLines
        rw [List.nil_append, List.map_singleton, accepted_cons]
        simpa [accepted_nil] using hHead
    | cons line' earlier =>
        obtain ⟨rfl, hRest⟩ := List.cons.inj hLines
        rw [List.map_cons, accepted_cons] at hEarlier
        rw [List.cons_append, List.map_cons, accepted_cons]
        simpa [hEarlier.1] using hTail hEarlier.1 earlier next later hRest hEarlier.2

theorem parseLines_cons (fileName : String) (line : Text) (lines : List Text) (lineNo : Nat)
    {stack : IndentStack Context ParseLine AtEnd} (world : World)
    {history : List (IndentedLine Context ParseLine AtEnd)}
    (hStack : stack.Represents first history) :
    ∃ result, parseOneLine calls line stack world = some result ∧ result.stack.Ordered ∧
      (readLine calls first ⟨history, world⟩ line).2 =
        LineCall.outcome ⟨line, result⟩ ∧
      (∀ error, result.error = some error →
        parseLines calls fileName (line :: lines) lineNo stack world = some ⟨[⟨line, result⟩],
          result.world, some (error ++ [linePosition fileName (lineNo + 1) line result.line])⟩) ∧
      (result.error = none →
        parseLines calls fileName (line :: lines) lineNo stack world =
          (parseLines calls fileName lines (lineNo + 1) result.stack result.world).map
            (fun file => { file with calls := ⟨line, result⟩ :: file.calls }) ∧
        result.stack.Represents first (readLine calls first ⟨history, world⟩ line).1.history ∧
        (readLine calls first ⟨history, world⟩ line).1.world = result.world) := by
  obtain ⟨result, hParse, hRead, hOrdered, hNext⟩ := parseOneLine_spec calls line hStack world
  refine ⟨result, hParse, hOrdered, hRead, fun error hError => ?_, fun hError => ⟨?_, hNext hError⟩⟩
  · simp only [parseLines, hParse, Option.bind_some, hError]
  · simp only [parseLines, hParse, Option.bind_some, hError]

theorem parseLines_spec (fileName : String) (lines : List Text) (lineNo : Nat)
    {stack : IndentStack Context ParseLine AtEnd} (world : World)
    {history : List (IndentedLine Context ParseLine AtEnd)}
    (hStack : stack.Represents first history) :
    ∃ result, parseLines calls fileName lines lineNo stack world = some result ∧
      result.calls.map LineCall.line <+: lines ∧
      (result.error = none → result.calls.map LineCall.line = lines) ∧
      result.calls.map LineCall.outcome =
        readLines calls first (result.calls.map LineCall.line) ⟨history, world⟩ ∧
      ∀ call ∈ result.calls, call.result.stack.Ordered := by
  induction lines generalizing lineNo stack world history with
  | nil => exact ⟨⟨[], world, none⟩, rfl, List.nil_prefix, fun _ => rfl, rfl,
      fun _ h => absurd h List.not_mem_nil⟩
  | cons line lines ih =>
      obtain ⟨result, -, hOrdered, hRead, hFailed, hNext⟩ :=
        parseLines_cons calls fileName line lines lineNo world hStack
      cases hError : result.error with
      | some error =>
          refine ⟨_, hFailed error hError, ⟨lines, rfl⟩, fun h => absurd h (by simp), ?_, ?_⟩
          · simp only [List.map_cons, List.map_nil, readLines, hRead, ite_self]
          · intro call hCall
            rw [List.mem_singleton] at hCall
            subst hCall
            exact hOrdered
      | none =>
          obtain ⟨hParse, hStack, hWorld⟩ := hNext hError
          obtain ⟨rest, hRest, hWhole, hComplete, hOutcomes, hStacks⟩ :=
            ih (lineNo + 1) result.world hStack
          refine ⟨{ rest with calls := ⟨line, result⟩ :: rest.calls }, by rw [hParse, hRest]; rfl,
            (List.prefix_cons_inj line).mpr hWhole, fun h => congrArg (line :: ·) (hComplete h), ?_, ?_⟩
          · have hNone : (LineCall.outcome ⟨line, result⟩).error = none := hError
            have hReading : (readLine calls first ⟨history, world⟩ line).1 =
                ⟨(readLine calls first ⟨history, world⟩ line).1.history, result.world⟩ := by
              rw [← hWorld]
            simp only [List.map_cons, readLines, hRead, hNone, hOutcomes]
            rw [hReading]
            rfl
          · intro call hCall
            rcases List.mem_cons.mp hCall with rfl | hCall
            · exact hOrdered
            · exact hStacks call hCall

end Steps

/-! ### The buffer -/

theorem wholeLines_eq_nil {file : Text} (h : wholeLines file = []) : file = [] := by
  by_contra hFilled
  obtain ⟨line, later, -, hLines, -⟩ := fgets_first hFilled 0
  rw [h] at hLines
  exact absurd hLines (by simp)

theorem filePieces_nil (reads : Nat) : filePieces reads [] = [] := by
  cases reads <;> rfl

/-- What the buffer can hold of a line. -/
def bufferRoom : Nat := configLineLength - 1

theorem filePieces_first {file line : Text} {later : List Text}
    (hLines : wholeLines file = line :: later) (hString : '\x00' ∉ file) {reads : Nat}
    (hReads : file.length ≤ reads) :
    ∃ rest fewer, (filePieces reads file).map bufferLine =
        lineText (line.take bufferRoom) :: (filePieces fewer rest).map bufferLine ∧
      '\x00' ∉ rest ∧ rest.length ≤ fewer ∧ line ≠ [] ∧ '\n' ∉ line.dropLast ∧
      wholeLines rest = if line.length ≤ bufferRoom then later
        else line.drop bufferRoom :: later := by
  have hFilled : file ≠ [] := fun h => by rw [h] at hLines; exact absurd hLines (by simp [wholeLines])
  obtain ⟨line', later', rest, hLines', hLine, hPlain, hGet, hFile, hRest⟩ :=
    fgets_first hFilled bufferRoom
  rw [hLines] at hLines'
  obtain ⟨rfl, rfl⟩ := List.cons.inj hLines'
  have hTaken : 0 < (line.take bufferRoom).length := by
    rw [List.length_take]
    exact Nat.lt_min.mpr ⟨by decide, List.length_pos_of_ne_nil hLine⟩
  have hLength := congrArg List.length hFile
  rw [List.length_append] at hLength
  obtain ⟨fewer, rfl⟩ : ∃ fewer, reads = fewer + 1 := ⟨reads - 1, by omega⟩
  have hStrings : '\x00' ∉ line.take bufferRoom ∧ '\x00' ∉ rest := by
    rw [hFile, List.mem_append, not_or] at hString
    exact hString
  have hBuffer : bufferLine (line.take bufferRoom) = lineText (line.take bufferRoom) := by
    have hAll : ∀ ch ∈ line.take bufferRoom, decide (ch ≠ '\x00') = true :=
      fun ch hMem => decide_eq_true fun h => hStrings.1 (h ▸ hMem)
    rw [bufferLine, cString, List.takeWhile_eq_self_iff.mpr hAll]
    rfl
  have hPieces : filePieces (fewer + 1) file = line.take bufferRoom :: filePieces fewer rest := by
    rw [filePieces, show configLineLength = bufferRoom + 1 from rfl, hGet]
  exact ⟨rest, fewer, by rw [hPieces, List.map_cons, hBuffer], hStrings.2, by omega, hLine, hPlain,
    hRest⟩

theorem eq_newline_of_blank {line : Text} (hFilled : line ≠ []) (hPlain : '\n' ∉ line.dropLast)
    (hBlank : lineText line = []) : line = ['\n'] := by
  cases line with
  | nil => exact absurd rfl hFilled
  | cons ch line =>
      have hNewline : ch = '\n' := by
        by_contra hOther
        rw [lineText, List.takeWhile_cons_of_pos (by simpa using hOther)] at hBlank
        exact absurd hBlank (by simp)
      cases line with
      | nil => rw [hNewline]
      | cons next line =>
          rw [List.dropLast_cons_cons, hNewline] at hPlain
          exact absurd List.mem_cons_self hPlain

theorem lineText_cases {line : Text} (hFilled : line ≠ []) (hPlain : '\n' ∉ line.dropLast) :
    (lineText line = line ∧ '\n' ∉ line) ∨ line = lineText line ++ ['\n'] := by
  obtain ⟨before, last, rfl⟩ := List.eq_nil_or_concat' line |>.resolve_left hFilled
  rw [List.dropLast_concat] at hPlain
  by_cases hNewline : last = '\n'
  · subst hNewline
    exact Or.inr (by rw [lineText_newline hPlain])
  · have hAll : '\n' ∉ before ++ [last] := by
      rw [List.mem_append, not_or]
      exact ⟨hPlain, by simpa using Ne.symm hNewline⟩
    exact Or.inl ⟨lineText_of_plain hAll, hAll⟩

theorem lineText_take {line : Text} (hPlain : '\n' ∉ line.dropLast)
    {room : Nat} (hLong : room < line.length) : lineText (line.take room) = line.take room := by
  refine lineText_of_plain fun hMem => hPlain ?_
  have hInitial : line.take room = line.dropLast.take room := by
    rw [List.dropLast_eq_take, List.take_take, Nat.min_eq_left (by omega)]
  rw [hInitial] at hMem
  exact List.mem_of_mem_take hMem

section Buffer

variable (calls : IndentCalls Context ParseLine AtEnd World)
  {first : IndentParser Context ParseLine AtEnd} (fileName : String)

/-- What is parsed from a line on: the line, and then, unless it is rejected, what follows it. -/
theorem parseLines_eq_some {line : Text} {lines : List Text} {lineNo : Nat}
    {stack : IndentStack Context ParseLine AtEnd} {world : World}
    {history : List (IndentedLine Context ParseLine AtEnd)}
    (hStack : stack.Represents first history)
    {result : FileResult Context ParseLine AtEnd World}
    (hResult : parseLines calls fileName (line :: lines) lineNo stack world = some result) :
    ∃ later, result.calls.map LineCall.line = line :: later ∧
      ((readLine calls first ⟨history, world⟩ line).2.error ≠ none ∧ later = [] ∧
          result.error ≠ none ∨
        (readLine calls first ⟨history, world⟩ line).2.error = none ∧
          ∃ (after : IndentStack Context ParseLine AtEnd)
            (more : FileResult Context ParseLine AtEnd World),
            after.Represents first (readLine calls first ⟨history, world⟩ line).1.history ∧
            parseLines calls fileName lines (lineNo + 1) after
              (readLine calls first ⟨history, world⟩ line).1.world = some more ∧
            later = more.calls.map LineCall.line ∧ result.error = more.error) := by
  obtain ⟨parsed, -, -, hRead, hFailed, hNext⟩ :=
    parseLines_cons calls fileName line lines lineNo world hStack
  have hOutcome : (readLine calls first ⟨history, world⟩ line).2.error = parsed.error :=
    congrArg LineOutcome.error hRead
  cases hError : parsed.error with
  | some error =>
      rw [hFailed error hError] at hResult
      obtain rfl := Option.some.inj hResult
      refine ⟨[], rfl, .inl ⟨?_, rfl, Option.some_ne_none _⟩⟩
      rw [hOutcome, hError]
      exact Option.some_ne_none error
  | none =>
      obtain ⟨hParse, hAfter, hWorld⟩ := hNext hError
      rw [hParse] at hResult
      obtain ⟨more, hMore, rfl⟩ := Option.map_eq_some_iff.mp hResult
      refine ⟨_, rfl, .inr ⟨hOutcome.trans hError, _, more, hAfter, ?_, rfl, rfl⟩⟩
      rw [hWorld]
      exact hMore

/-- A blank line too many is never made up for: the lines that are parsed cannot be the ones
without it. -/
theorem blank_not_prefix {later : List Text} {file : Text}
    (hLines : wholeLines file = ['\n'] :: later) (hString : '\x00' ∉ file) {reads : Nat}
    (hReads : file.length ≤ reads) (lineNo : Nat)
    {stack : IndentStack Context ParseLine AtEnd} (world : World)
    {history : List (IndentedLine Context ParseLine AtEnd)}
    (hStack : stack.Represents first history)
    {result : FileResult Context ParseLine AtEnd World}
    (hResult : parseLines calls fileName ((filePieces reads file).map bufferLine) lineNo stack
      world = some result) : ¬ result.calls.map LineCall.line <+: later.map lineText := by
  induction later generalizing file reads lineNo stack world history result with
  | nil =>
      intro hPrefix
      obtain ⟨rest, fewer, hPieces, -⟩ := filePieces_first hLines hString hReads
      rw [hPieces] at hResult
      obtain ⟨parsed, hCalls, -⟩ := parseLines_eq_some calls fileName hStack hResult
      rw [hCalls] at hPrefix
      exact absurd (List.prefix_nil.mp hPrefix) (by simp)
  | cons next later ih =>
      intro hPrefix
      obtain ⟨rest, fewer, hPieces, hStrings, hFewer, -, -, hRest⟩ :=
        filePieces_first hLines hString hReads
      rw [hPieces] at hResult
      have hBlank : lineText (['\n'].take bufferRoom) = [] := rfl
      rw [hBlank] at hResult
      rw [if_pos (by decide)] at hRest
      obtain ⟨-, -, -, -, -, hFilled, hPlain, -⟩ := filePieces_first hRest hStrings hFewer
      obtain ⟨parsed, hCalls, ⟨hError, -⟩ | ⟨-, after, more, hAfter, hMore, rfl, -⟩⟩ :=
        parseLines_eq_some calls fileName hStack hResult
      · exact absurd rfl hError
      · rw [hCalls] at hPrefix
        obtain ⟨hNewline, hPrefix⟩ := List.cons_prefix_cons.mp hPrefix
        rw [eq_newline_of_blank hFilled hPlain hNewline.symm] at hRest
        exact ih hRest hStrings hFewer (lineNo + 1) _ hAfter hMore hPrefix

theorem whole_iff_linesFit {lines : List Text} {file : Text} (hLines : wholeLines file = lines)
    (hString : '\x00' ∉ file) {reads : Nat} (hReads : file.length ≤ reads) (lineNo : Nat)
    {stack : IndentStack Context ParseLine AtEnd} (world : World)
    {history : List (IndentedLine Context ParseLine AtEnd)}
    (hStack : stack.Represents first history)
    {result : FileResult Context ParseLine AtEnd World}
    (hResult : parseLines calls fileName ((filePieces reads file).map bufferLine) lineNo stack
      world = some result) :
    (result.calls.map LineCall.line <+: lines.map lineText ∧
      (result.error = none → result.calls.map LineCall.line = lines.map lineText)) ↔
      LinesFit calls first ⟨history, world⟩ lines := by
  induction lines generalizing file reads lineNo stack world history result with
  | nil =>
      rw [wholeLines_eq_nil hLines, filePieces_nil] at hResult
      obtain rfl := Option.some.inj hResult
      refine ⟨fun _ earlier line later h => ?_, fun _ => ⟨List.nil_prefix, fun _ => rfl⟩⟩
      exact absurd h (by simp)
  | cons line lines ih =>
      obtain ⟨rest, fewer, hPieces, hStrings, hFewer, hFilled, hPlain, hRest⟩ :=
        filePieces_first hLines hString hReads
      rw [hPieces] at hResult
      obtain ⟨parsed, hCalls, hStep⟩ := parseLines_eq_some calls fileName hStack hResult
      rw [linesFit_cons, hCalls]
      by_cases hFits : line.length ≤ bufferRoom
      · have hShort : line.length < configLineLength := Nat.lt_of_le_of_lt hFits (by decide)
        rw [if_pos hFits] at hRest
        rw [List.take_of_length_le hFits] at hStep ⊢
        rcases hStep with ⟨hError, rfl, hFailed⟩ | ⟨hError, after, more, hAfter, hMore, rfl, hSame⟩
        · exact ⟨fun _ => ⟨.inl hShort, fun hNone => absurd hNone hError⟩, fun _ =>
            ⟨List.cons_prefix_cons.mpr ⟨rfl, List.nil_prefix⟩, fun hNone => absurd hNone hFailed⟩⟩
        · have hIff := ih hRest hStrings hFewer (lineNo + 1) _ hAfter hMore
          simp only [List.map_cons, List.cons_prefix_cons, true_and, List.cons.injEq, hError, hSame,
            hShort, true_or, forall_const]
          exact hIff
      · have hTake := lineText_take hPlain (Nat.lt_of_not_le hFits)
        have hLength : (line.take bufferRoom).length = bufferRoom :=
          List.length_take_of_le (Nat.le_of_not_le hFits)
        have hLong : ¬ line.length < configLineLength := fun h => hFits (Nat.le_of_lt_succ h)
        rw [if_neg hFits] at hRest
        rw [hTake] at hStep ⊢
        by_cases hText : (lineText line).length < configLineLength
        · have hNewline : line = line.take bufferRoom ++ ['\n'] := by
            rcases lineText_cases hFilled hPlain with ⟨hWhole, -⟩ | hNewline
            · exact absurd (hWhole ▸ hText) hLong
            · have hRoom : (lineText line).length = bufferRoom := by
                have hSum := congrArg List.length hNewline
                rw [List.length_append, List.length_singleton] at hSum
                have : configLineLength = bufferRoom + 1 := rfl
                omega
              rw [hNewline, List.take_left' hRoom]
          have hSame : lineText line = line.take bufferRoom := by
            rw [hNewline, lineText_newline (fun hMem => hPlain ?_)]
            · rw [List.take_left' hLength]
            · rw [hNewline, List.dropLast_concat]
              exact hMem
          have hLeft : line.drop bufferRoom = ['\n'] := by
            rw [hNewline, List.drop_left' hLength]
          rw [hLeft] at hRest
          rw [hSame, List.map_cons, hSame]
          rcases hStep with ⟨hError, rfl, hFailed⟩ | ⟨hError, after, more, hAfter, hMore, rfl, -⟩
          · refine ⟨fun _ => ⟨.inr ⟨?_, hError⟩, fun hNone => absurd hNone hError⟩, fun _ =>
              ⟨List.cons_prefix_cons.mpr ⟨rfl, List.nil_prefix⟩, fun hNone => absurd hNone hFailed⟩⟩
            rw [hLength]
            exact Nat.lt_succ_self _
          · refine iff_of_false (fun hParsed => ?_) fun hRight => ?_
            · exact blank_not_prefix calls fileName hRest hStrings hFewer (lineNo + 1) _ hAfter hMore
                (List.cons_prefix_cons.mp hParsed.1).2
            · rcases hRight.1 with hShort | ⟨-, hRejected⟩
              · exact hLong hShort
              · exact hRejected hError
        · refine iff_of_false (fun hParsed => ?_) fun hRight => ?_
          · have hHead : line.take bufferRoom = lineText line :=
              (List.cons_prefix_cons.mp hParsed.1).1
            exact hText (by rw [← hHead, hLength]; exact Nat.lt_succ_self _)
          · rcases hRight.1 with hShort | ⟨hShort, -⟩
            · exact hLong hShort
            · exact hText hShort

theorem initialStack_represents (parser : IndentParser Context ParseLine AtEnd)
    (unset : Fin maxIndent → IndentState Context ParseLine AtEnd) :
    (initialStack parser unset).Represents parser [] :=
  ⟨by simp [initialStack], rfl, rfl, rfl⟩

/-- Whatever is in the file, the array of levels is not left, every string from the buffer is for
the parser of its place, and the levels stay in order. -/
theorem parseIndentedFile_spec (file : Text) (parser : IndentParser Context ParseLine AtEnd)
    (unset : Fin maxIndent → IndentState Context ParseLine AtEnd) (world : World) :
    ∃ result, parseIndentedFile calls fileName (.ok file) parser unset world = some result ∧
      result.calls.map LineCall.outcome =
        readLines calls parser (result.calls.map LineCall.line) ⟨[], world⟩ ∧
      (∀ call ∈ result.calls, call.result.stack.Ordered) ∧
      ∃ parsed, parseLines calls fileName ((filePieces file.length file).map bufferLine) 0
        (initialStack parser unset) world = some parsed ∧ parsed.calls = result.calls ∧
        parsed.error = result.error := by
  obtain ⟨parsed, hParsed, -, -, hOutcomes, hOrdered⟩ := parseLines_spec calls fileName
    ((filePieces file.length file).map bufferLine) 0 world (initialStack_represents parser unset)
  simp only [parseIndentedFile, hParsed, Option.map_some]
  cases hError : parsed.error with
  | some error => exact ⟨parsed, rfl, hOutcomes, hOrdered, parsed, rfl, rfl, hError.symm ▸ rfl⟩
  | none =>
      exact ⟨_, rfl, hOutcomes, hOrdered, parsed, rfl, rfl, hError⟩

theorem lineByLine_iff {file : Text} (hString : '\x00' ∉ file)
    (parser : IndentParser Context ParseLine AtEnd)
    (unset : Fin maxIndent → IndentState Context ParseLine AtEnd) (world : World) :
    (∃ result, parseIndentedFile calls fileName (.ok file) parser unset world = some result ∧
      result.LineByLine calls parser ⟨[], world⟩ file) ↔
      LinesFit calls parser ⟨[], world⟩ (wholeLines file) := by
  obtain ⟨result, hResult, hOutcomes, hOrdered, parsed, hParsed, hCalls, hErrors⟩ :=
    parseIndentedFile_spec calls fileName file parser unset world
  have hIff := whole_iff_linesFit calls fileName rfl hString (Nat.le_refl _) 0 world
    (initialStack_represents parser unset) hParsed
  rw [hCalls, hErrors] at hIff
  rw [← hIff]
  constructor
  · rintro ⟨other, hOther, hLines⟩
    obtain rfl := Option.some.inj (hResult.symm.trans hOther)
    exact ⟨hLines.whole, hLines.complete⟩
  · rintro ⟨hWhole, hComplete⟩
    exact ⟨result, hResult, hWhole, hComplete, hOutcomes, hOrdered⟩

end Buffer

/-- Exactly when the lines of an indented file, up to the first that is rejected, fit the buffer,
the file is parsed line by line. -/
theorem parseIndentedFile_lineByLine (calls : IndentCalls Context ParseLine AtEnd World)
    (fileName : String) (file : Text) (hText : '\x00' ∉ file)
    (parser : IndentParser Context ParseLine AtEnd)
    (unset : Fin maxIndent → IndentState Context ParseLine AtEnd) (world : World) :
    (∃ result, parseIndentedFile calls fileName (.ok file) parser unset world = some result ∧
      result.LineByLine calls parser ⟨[], world⟩ file) ↔
      LinesFit calls parser ⟨[], world⟩ (wholeLines file) :=
  lineByLine_iff calls fileName hText parser unset world

/-- A parser that takes any line and counts it. -/
def countingCalls : IndentCalls Unit Unit Unit Nat where
  parseLine _ _ _ count := ⟨count + 1, [], .empty, none⟩
  atEnd _ _ count := (count, none)

def countingParser : IndentParser Unit Unit Unit := ⟨none, some (), none⟩

/-- A section with a line of its own. -/
theorem parseIndentedFile_short_line :
    ∃ result, parseIndentedFile countingCalls "config" (.ok ['a', '\n', ' ', 'b', '\n'])
        countingParser (fun _ => ⟨0, .empty⟩) 0 = some result ∧
      result.LineByLine countingCalls countingParser ⟨[], 0⟩ ['a', '\n', ' ', 'b', '\n'] := by
  have hShort : ∀ line ∈ wholeLines ['a', '\n', ' ', 'b', '\n'], line.length < configLineLength := by
    decide
  refine (parseIndentedFile_lineByLine countingCalls "config" ['a', '\n', ' ', 'b', '\n'] (by decide)
    countingParser (fun _ => ⟨0, .empty⟩) 0).mpr fun earlier line later hLines _ => .inl ?_
  exact hShort line (hLines ▸ List.mem_append_right _ List.mem_cons_self)

/-- A comment of 1100 characters. -/
def longComment : Text := '#' :: List.replicate 1099 'x'

/-- The end of a long comment is parsed as a line of its own. -/
theorem parseIndentedFile_long_comment :
    ¬ ∃ result, parseIndentedFile countingCalls "config" (.ok longComment) countingParser
        (fun _ => ⟨0, .empty⟩) 0 = some result ∧
      result.LineByLine countingCalls countingParser ⟨[], 0⟩ longComment := by
  have hChars : ∀ ch ∈ longComment, ch = '#' ∨ ch = 'x' := fun ch hMem => by
    rcases List.mem_cons.mp hMem with rfl | hMem
    · exact Or.inl rfl
    · exact Or.inr (List.eq_of_mem_replicate hMem)
  have hString : '\x00' ∉ longComment := fun h => absurd (hChars _ h) (by decide)
  have hPlain : '\n' ∉ longComment := fun h => absurd (hChars _ h) (by decide)
  have hLength : longComment.length = 1100 := by
    rw [longComment, List.length_cons, List.length_replicate]
  rw [lineByLine_iff countingCalls "config" hString,
    wholeLines_last hPlain (List.cons_ne_nil _ _)]
  intro hFit
  rcases hFit [] longComment [] rfl (accepted_nil _ _) with hShort | ⟨hShort, -⟩
  · rw [hLength] at hShort
    exact absurd hShort (by decide)
  · rw [lineText_of_plain hPlain, hLength] at hShort
    exact absurd hShort (by decide)

end Server
