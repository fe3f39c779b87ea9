import PandaBridge.Server.Base64
import PandaBridge.Server.ConfigProtocol
import PandaBridge.Server.StateFile

/-! The text of tables: the lines that a table is read out as, and the conversion of lines into
the write area, from the connection of a client. The write area is memory, so that what a failing
line leaves there, and how far it reaches, is part of the model. -/
namespace Server

def base64LineBytes : Nat := 48

/-- The four bytes of a word in memory. -/
def wordBytes (word : Nat) : List Nat :=
  [word % 256, word / 256 % 256, word / 65536 % 256, word / 16777216 % 256]

/-! ### Reading out -/

/-- `write_ascii`. -/
def writeAscii (words : List Nat) : List Text := words.map formatUint

/-- The lines of some bytes. -/
def base64Lines (bytes : List Nat) : List Text :=
  if bytes = [] then []
  else base64Encode (bytes.take base64LineBytes) :: base64Lines (bytes.drop base64LineBytes)
termination_by bytes.length
decreasing_by
  next h =>
    have hPos : 0 < bytes.length := List.length_pos_iff.mpr h
    rw [List.length_drop, base64LineBytes]
    omega

/-- `write_base_64`. -/
def writeBase64 (words : List Nat) : List Text := base64Lines (words.flatMap wordBytes)

/-! ### Writing -/

/-- The bytes of `write_data`, and how far they were ever written. -/
structure WriteArea where
  bytes : Nat → Nat
  reach : Nat

def WriteArea.store (area : WriteArea) (start : Nat) (bytes : List Nat) : WriteArea where
  bytes := fun place =>
    if start ≤ place ∧ place < start + bytes.length then bytes.getD (place - start) 0
    else area.bytes place
  reach := max area.reach (start + bytes.length)

/-- A table write on its way: `write_length` is in words. -/
structure TextWrite where
  binary : Bool
  writeLength : Nat
  area : WriteArea

/-- What one line was converted to: the bytes stored, the number of words, the error. -/
structure Conversion where
  bytes : List Nat
  converted : Nat
  error : Option LineText

def base64ErrorString : Base64Status → LineText
  | .ok => .ofString "OK" (by decide)
  | .malformed => .ofString "Malformed base64 string" (by decide)
  | .overrun => .ofString "Input string too long for output buffer" (by decide)

def invalidDataLength : LineText := .ofString "Invalid data length" (by decide)

def tooManyPoints : LineText := .ofString "Too many points for table" (by decide)

def numberMissing : LineText := .ofString "Number missing" (by decide)

def errorConverting : LineText := .ofString "Error converting number" (by decide)

def notWholeRows : LineText := .ofString "Table write is not a whole number of rows" (by decide)

/-- `convert_base64_line`, with room for this many words. -/
def convertBase64Line (line : Text) (length : Nat) : Conversion :=
  match base64Decode line (4 * length) with
  | (.ok, converted, bytes) =>
      { bytes := bytes
        converted := converted / 4
        error := if converted % 4 = 0 then none else some invalidDataLength }
  | (status, converted, bytes) =>
      { bytes := bytes, converted := converted / 4, error := some (base64ErrorString status) }

theorem strtoul_rest {width : Nat} {line rest : Text} {value : Nat} {inRange : Bool}
    (h : strtoul width line = some (value, inRange, rest)) : rest.length < line.length := by
  have hSign : ∀ text, (numberSign text).2.length ≤ text.length := by
    intro text
    unfold numberSign
    split <;> simp
  have hBase : ∀ text, (numberBase text).2.length ≤ text.length := by
    intro text
    unfold numberBase
    split
    · split <;> simp
    · simp
    · simp
  have hSpace : (line.dropWhile isSpace).length ≤ line.length :=
    (List.dropWhile_sublist _).length_le
  obtain ⟨unsigned, hUnsigned⟩ : ∃ text, text = (numberSign (line.dropWhile isSpace)).2 := ⟨_, rfl⟩
  obtain ⟨start, hStart⟩ : ∃ text, text = (numberBase unsigned).2 := ⟨_, rfl⟩
  have hShort : start.length ≤ line.length := by
    rw [hStart]
    refine (hBase unsigned).trans ?_
    rw [hUnsigned]
    exact (hSign _).trans hSpace
  simp only [strtoul, ← hUnsigned, ← hStart] at h
  split_ifs at h with hNone
  all_goals
    obtain ⟨_, _, rfl⟩ : _ ∧ _ ∧ _ = rest := by simpa using h
    have hSplit : (start.takeWhile (isDigitOf (numberBase unsigned).1)).length +
        (start.dropWhile (isDigitOf (numberBase unsigned).1)).length = start.length := by
      rw [← List.length_append, List.takeWhile_append_dropWhile]
    have hPos : 0 < (start.takeWhile (isDigitOf (numberBase unsigned).1)).length :=
      List.length_pos_iff.mpr hNone
    omega

/-- `convert_ascii_line`: every number is stored before it is known whether it was in range. -/
def convertAsciiLine (width : Nat) (line : Text) (length : Nat) : Conversion :=
  if line = [] then { bytes := [], converted := 0, error := none }
  else
    match length with
    | 0 => { bytes := [], converted := 0, error := some tooManyPoints }
    | room + 1 =>
        match h : strtoul width line with
        | none => { bytes := wordBytes 0, converted := 1, error := some numberMissing }
        | some (value, false, _) =>
            { bytes := wordBytes (value % 2 ^ 32)
              converted := 1
              error := some errorConverting }
        | some (value, true, rest) =>
            have := strtoul_rest h
            let more := convertAsciiLine width rest room
            { bytes := wordBytes (value % 2 ^ 32) ++ more.bytes
              converted := more.converted + 1
              error := more.error }
termination_by line.length

/-- `write_table_line`. -/
def writeTableLine (width maxLength : Nat) (write : TextWrite) (line : Text) :
    TextWrite × Option LineText :=
  let room := maxLength - write.writeLength
  let conversion :=
    if write.binary then convertBase64Line line room else convertAsciiLine width line room
  let area := write.area.store (4 * write.writeLength) conversion.bytes
  match conversion.error with
  | some message => ({ write with area := area }, some message)
  | none => ({ write with
      area := area
      writeLength := write.writeLength + conversion.converted }, none)

/-- The writer of a table: `write_table_line`, and of `complete_table_write` the check for whole
rows. -/
def tableTextWriter (width maxLength rowWords : Nat) : PutTableWriter TextWrite where
  write := writeTableLine width maxLength
  close := fun write writeOk =>
    (write, if writeOk ∧ write.writeLength % rowWords ≠ 0 then some notWholeRows else none)

/-- The words that the write area holds. -/
def TextWrite.words (write : TextWrite) : List Nat :=
  (List.range write.writeLength).map fun place =>
    write.area.bytes (4 * place) + 256 * write.area.bytes (4 * place + 1) +
      65536 * write.area.bytes (4 * place + 2) + 16777216 * write.area.bytes (4 * place + 3)

/-- A write that has just begun, over whatever the area holds. -/
def TextWrite.start (binary : Bool) (memory : Nat → Nat) : TextWrite :=
  { binary := binary, writeLength := 0, area := { bytes := memory, reach := 0 } }

/-! ### Any lines -/

section Bounds

variable {width maxLength : Nat}

/-- A conversion fills the words it counts and keeps to its room. -/
structure Conversion.Fits (conversion : Conversion) (room : Nat) : Prop where
  bound : conversion.bytes.length ≤ 4 * room
  whole : conversion.error = none → conversion.bytes.length = 4 * conversion.converted

theorem convertBase64Line_fits (line : Text) (room : Nat) :
    (convertBase64Line line room).Fits room := by
  obtain ⟨hBound, hWhole⟩ := base64Decode_length line (4 * room)
  unfold convertBase64Line
  split
  · next converted bytes hDecode =>
      rw [hDecode] at hBound hWhole
      refine ⟨hBound, fun hNone => ?_⟩
      have hLength : converted = bytes.length := hWhole rfl
      have hAligned : converted % 4 = 0 := by
        by_contra hRest
        simp [hRest] at hNone
      simp only
      omega
  · next status converted bytes _ hDecode =>
      rw [hDecode] at hBound
      exact ⟨hBound, nofun⟩

theorem convertAsciiLine_fits (line : Text) (room : Nat) :
    (convertAsciiLine width line room).Fits room := by
  fun_induction convertAsciiLine width line room with
  | case1 => exact ⟨Nat.zero_le _, fun _ => rfl⟩
  | case2 => exact ⟨Nat.zero_le _, nofun⟩
  | case3 =>
      refine ⟨?_, nofun⟩
      simp only [wordBytes, List.length_cons, List.length_nil]
      omega
  | case4 =>
      refine ⟨?_, nofun⟩
      simp only [wordBytes, List.length_cons, List.length_nil]
      omega
  | case5 line _ room value rest _ _ more ih =>
      have hWord : (wordBytes (value % 2 ^ 32)).length = 4 := rfl
      have hBound : more.bytes.length ≤ 4 * room := ih.bound
      refine ⟨?_, fun hNone => ?_⟩
      · simp only [List.length_append, hWord]
        omega
      · have hWhole : more.bytes.length = 4 * more.converted := ih.whole hNone
        simp only [List.length_append, hWord]
        omega

/-- The write keeps inside its area. -/
structure TextWrite.Inside (maxLength : Nat) (write : TextWrite) : Prop where
  length : write.writeLength ≤ maxLength
  reach : write.area.reach ≤ 4 * maxLength

theorem writeTableLine_inside {write : TextWrite} (h : write.Inside maxLength) (line : Text) :
    (writeTableLine width maxLength write line).1.Inside maxLength := by
  have hFits : ∀ conversion, conversion = (if write.binary then
      convertBase64Line line (maxLength - write.writeLength) else
      convertAsciiLine width line (maxLength - write.writeLength)) →
      conversion.Fits (maxLength - write.writeLength) := by
    rintro _ rfl
    split_ifs
    · exact convertBase64Line_fits _ _
    · exact convertAsciiLine_fits _ _
  obtain ⟨conversion, hConversion⟩ : ∃ conversion, conversion = (if write.binary then
      convertBase64Line line (maxLength - write.writeLength) else
      convertAsciiLine width line (maxLength - write.writeLength)) := ⟨_, rfl⟩
  have hRoom := hFits conversion hConversion
  have hReach : max write.area.reach (4 * write.writeLength + conversion.bytes.length) ≤
      4 * maxLength := by
    have hBound := hRoom.bound
    have hLength := h.length
    exact max_le h.reach (by omega)
  simp only [writeTableLine, ← hConversion]
  split
  · exact ⟨h.length, hReach⟩
  · next hNone =>
      have hWhole := hRoom.whole hNone
      have hBound := hRoom.bound
      have hLength := h.length
      exact ⟨by simp only; omega, hReach⟩

/-- Whatever comes from the client, the write keeps inside its area. -/
theorem doPutTable_inside {rowWords rounds : Nat} {file next : BufferedFile}
    {write last : TextWrite} (h : write.Inside maxLength) {error result : Option LineText}
    (hPut : doPutTable (tableTextWriter width maxLength rowWords) rounds file write error =
      some (next, last, result)) : last.Inside maxLength := by
  induction rounds generalizing file write error with
  | zero => exact absurd hPut nofun
  | succ rounds ih =>
      rw [doPutTable] at hPut
      split at hPut
      · obtain ⟨_, rfl, _⟩ := Prod.mk.inj (Option.some.inj hPut)
        exact h
      · split_ifs at hPut with hBlank
        · obtain ⟨_, rfl, _⟩ := Prod.mk.inj (Option.some.inj hPut)
          exact h
        · cases error with
          | some message => exact ih h hPut
          | none => exact ih (writeTableLine_inside h _) hPut

end Bounds

/-! ### The lines of a table -/

section Lines

variable {World : Type}

/-- Lines are written one after the other, up to the first error. -/
def putLines (writer : PutTableWriter World) :
    List Text → World × Option LineText → World × Option LineText
  | [], result => result
  | _ :: rest, (world, some message) => putLines writer rest (world, some message)
  | line :: rest, (world, none) => putLines writer rest (writer.write world line)

theorem readLine_input (line : InputLine) {file : BufferedFile} (hLive : file.Live) {rest : Text}
    (hRemaining : file.remaining = line.chars ++ '\n' :: rest) (flush : Bool) :
    ∃ next, file.readLine flush = (next, some line.chars) ∧ next.Live ∧ next.remaining = rest := by
  have hLine := BufferedFile.splitLine_line line.plain rest
  rw [← hRemaining] at hLine
  have hRead := BufferedFile.readLine_spec hLive flush
  generalize file.readLine flush = read at hRead ⊢
  cases hRead with
  | found hSplit hShort hNextLive hRest hWritten =>
      obtain ⟨rfl, rfl⟩ := Prod.mk.inj (Option.some.inj (hLine.symm.trans hSplit))
      exact ⟨_, rfl, hNextLive, hRest⟩
  | ended hNone => exact absurd (hLine.symm.trans hNone) nofun
  | failed hLong =>
      rw [BufferedFile.Overlong, hLine] at hLong
      exact absurd line.short (Nat.not_lt.mpr hLong)

theorem InputLine.cString_chars (line : InputLine) : cString line.chars = line.chars :=
  List.takeWhile_eq_self_iff.mpr fun _ hMem => decide_eq_true fun hNul => line.string (hNul ▸ hMem)

/-- Lines that are not blank are all written, and the blank line behind them ends the table: what
follows it is left for the next command. -/
theorem doPutTable_lines (writer : PutTableWriter World) {lines : List InputLine}
    (hLines : ∀ line ∈ lines, line.chars ≠ []) {rounds : Nat} (hRounds : lines.length < rounds)
    {file : BufferedFile} (hLive : file.Live) {rest : Text}
    (hRemaining : file.remaining = linesText (lines.map InputLine.chars ++ [[]]) ++ rest)
    (world : World) (error : Option LineText) :
    ∃ next, doPutTable writer rounds file world error =
        some (next, putLines writer (lines.map InputLine.chars) (world, error)) ∧
      next.Live ∧ next.remaining = rest := by
  induction lines generalizing rounds file world error with
  | nil =>
      obtain ⟨rounds, rfl⟩ : ∃ before, rounds = before + 1 :=
        Nat.exists_eq_succ_of_ne_zero (Nat.ne_of_gt hRounds)
      obtain ⟨next, hRead, hNext, hRest⟩ := readLine_input ⟨[], nofun, nofun, by decide⟩ hLive
        hRemaining false
      refine ⟨next, ?_, hNext, hRest⟩
      rw [doPutTable, hRead]
      rfl
  | cons line lines ih =>
      obtain ⟨rounds, rfl⟩ : ∃ before, rounds = before + 1 :=
        Nat.exists_eq_succ_of_ne_zero (Nat.ne_of_gt ((Nat.zero_le _).trans_lt hRounds))
      have hFew : lines.length < rounds := Nat.lt_of_succ_lt_succ hRounds
      have hOthers := fun other hOther => hLines other (List.mem_cons_of_mem _ hOther)
      rw [List.map_cons, List.cons_append, linesText_cons, List.append_assoc, List.cons_append]
        at hRemaining
      obtain ⟨next, hRead, hNext, hRest⟩ := readLine_input line hLive hRemaining false
      rw [doPutTable, hRead]
      simp only [line.cString_chars]
      rw [if_neg (hLines line List.mem_cons_self)]
      cases error with
      | some message => exact ih hOthers hFew hNext hRest world (some message)
      | none => exact ih hOthers hFew hNext hRest _ _

end Lines

/-- The area begins with these bytes, and they are all of the write so far. -/
structure TextWrite.Holds (write : TextWrite) (bytes : List Nat) : Prop where
  length : 4 * write.writeLength = bytes.length
  bytes : ∀ place < bytes.length, write.area.bytes place = bytes.getD place 0

section RoundTrip

variable {width maxLength rowWords : Nat}

/-- A line that is converted without error adds its bytes. -/
theorem writeTableLine_holds {write : TextWrite} {old new : List Nat} (h : write.Holds old)
    {line : Text} {conversion : Conversion}
    (hConversion : (if write.binary then convertBase64Line line (maxLength - write.writeLength) else
      convertAsciiLine width line (maxLength - write.writeLength)) = conversion)
    (hBytes : conversion.bytes = new) (hError : conversion.error = none)
    (hCount : 4 * conversion.converted = new.length) :
    ∃ next, writeTableLine width maxLength write line = (next, none) ∧
      next.binary = write.binary ∧ next.Holds (old ++ new) := by
  simp only [writeTableLine, hConversion, hError]
  refine ⟨_, rfl, rfl, ?_, ?_⟩
  · have hLength := h.length
    simp only [List.length_append]
    omega
  · intro place hPlace
    simp only [WriteArea.store, hBytes, h.length]
    rw [List.length_append] at hPlace
    split_ifs with hInside
    · rw [List.getD_append_right _ _ _ _ hInside.1]
    · rw [List.getD_append _ _ _ _ (by omega)]
      exact h.bytes place (by omega)

theorem wordBytes_lt (word : Nat) : ∀ byte ∈ wordBytes word, byte < 256 := by
  intro byte hByte
  simp only [wordBytes, List.mem_cons, List.not_mem_nil, or_false] at hByte
  omega

theorem flatMap_wordBytes_length (words : List Nat) :
    (words.flatMap wordBytes).length = 4 * words.length := by
  induction words with
  | nil => rfl
  | cons word rest ih =>
      rw [List.flatMap_cons, List.length_append, ih, List.length_cons]
      simp only [wordBytes, List.length_cons, List.length_nil]
      omega

theorem putLines_base64 {bytes : List Nat} (hBytes : ∀ byte ∈ bytes, byte < 256)
    (hAligned : bytes.length % 4 = 0) {write : TextWrite} (hBinary : write.binary = true)
    {old : List Nat} (h : write.Holds old) (hFits : old.length + bytes.length ≤ 4 * maxLength) :
    (putLines (tableTextWriter width maxLength rowWords) (base64Lines bytes) (write, none)).2 = none ∧
    (putLines (tableTextWriter width maxLength rowWords) (base64Lines bytes) (write, none)).1.Holds
      (old ++ bytes) := by
  fun_induction base64Lines bytes generalizing write old with
  | case1 =>
      rw [List.append_nil]
      exact ⟨rfl, h⟩
  | case2 bytes hSome ih =>
      have hTake : (bytes.take base64LineBytes).length = min base64LineBytes bytes.length :=
        List.length_take
      have hPart : (bytes.take base64LineBytes).length % 4 = 0 := by
        rw [hTake, base64LineBytes]
        omega
      have hLength := h.length
      have hDecode := @base64Decode_encode (bytes.take base64LineBytes)
        (fun byte hByte => hBytes byte (List.mem_of_mem_take hByte))
        (4 * (maxLength - write.writeLength)) (by rw [hTake]; omega)
      have hConversion : (if write.binary then
          convertBase64Line (base64Encode (bytes.take base64LineBytes)) (maxLength - write.writeLength)
          else convertAsciiLine width (base64Encode (bytes.take base64LineBytes))
            (maxLength - write.writeLength)) =
          { bytes := bytes.take base64LineBytes
            converted := (bytes.take base64LineBytes).length / 4
            error := none } := by
        rw [hBinary, if_pos rfl, convertBase64Line, hDecode]
        simp only [hPart, if_true]
      obtain ⟨next, hLine, hSame, hHolds⟩ :=
        writeTableLine_holds h hConversion rfl rfl (by simp only; omega)
      have hRest := ih (fun byte hByte => hBytes byte (List.mem_of_mem_drop hByte))
        (by rw [List.length_drop, base64LineBytes]; omega) (hSame.trans hBinary) hHolds
        (by rw [List.length_append, hTake, List.length_drop, base64LineBytes]; omega)
      rw [List.append_assoc, List.take_append_drop] at hRest
      simp only [putLines, tableTextWriter, hLine]
      exact hRest

theorem convertAsciiLine_formatUint (hWidth : 32 ≤ width) {word : Nat} (h : word < 2 ^ 32)
    (room : Nat) : convertAsciiLine width (formatUint word) (room + 1) =
      { bytes := wordBytes word, converted := 1, error := none } := by
  have hLong : word < 2 ^ width := h.trans_le (Nat.pow_le_pow_right (by omega) hWidth)
  rw [convertAsciiLine, if_neg (formatUint_ne_nil word)]
  split
  · next hNone => rw [strtoul_formatUint hLong] at hNone; exact absurd hNone (by simp)
  · next hRange => rw [strtoul_formatUint hLong] at hRange; exact absurd hRange (by simp)
  · next value rest hSome =>
      obtain ⟨rfl, rfl⟩ : word = value ∧ [] = rest := by
        rw [strtoul_formatUint hLong] at hSome
        simpa using hSome
      have hEnd : convertAsciiLine width [] room = { bytes := [], converted := 0, error := none } := by
        rw [convertAsciiLine.eq_def, if_pos rfl]
      simp only [hEnd, Nat.mod_eq_of_lt h, List.append_nil, Nat.zero_add]

theorem putLines_ascii (hWidth : 32 ≤ width) {words : List Nat}
    (hWords : ∀ word ∈ words, word < 2 ^ 32) {write : TextWrite} (hBinary : write.binary = false)
    {old : List Nat} (h : write.Holds old) (hFits : old.length + 4 * words.length ≤ 4 * maxLength) :
    (putLines (tableTextWriter width maxLength rowWords) (writeAscii words) (write, none)).2 = none ∧
    (putLines (tableTextWriter width maxLength rowWords) (writeAscii words) (write, none)).1.Holds
      (old ++ words.flatMap wordBytes) := by
  induction words generalizing write old with
  | nil =>
      rw [List.flatMap_nil, List.append_nil]
      exact ⟨rfl, h⟩
  | cons word rest ih =>
      have hLength := h.length
      rw [List.length_cons] at hFits
      obtain ⟨room, hRoom⟩ : ∃ room, maxLength - write.writeLength = room + 1 :=
        ⟨maxLength - write.writeLength - 1, by omega⟩
      have hConversion : (if write.binary then
          convertBase64Line (formatUint word) (maxLength - write.writeLength)
          else convertAsciiLine width (formatUint word) (maxLength - write.writeLength)) =
          { bytes := wordBytes word, converted := 1, error := none } := by
        rw [hBinary, if_neg (by simp), hRoom]
        exact convertAsciiLine_formatUint hWidth (hWords word List.mem_cons_self) room
      obtain ⟨next, hLine, hSame, hHolds⟩ := @writeTableLine_holds width maxLength write old
        (wordBytes word) h (formatUint word) _ hConversion rfl rfl rfl
      have hRest := ih (fun other hOther => hWords other (List.mem_cons_of_mem _ hOther))
        (hSame.trans hBinary) hHolds
        (by simp only [List.length_append, wordBytes, List.length_cons, List.length_nil]; omega)
      rw [List.append_assoc, ← List.flatMap_cons] at hRest
      simp only [writeAscii, List.map_cons, putLines, tableTextWriter, hLine]
      exact hRest

theorem getD_flatMap_wordBytes (words : List Nat) {place : Nat} (h : place < words.length)
    {byte : Nat} (hByte : byte < 4) :
    (words.flatMap wordBytes).getD (4 * place + byte) 0 =
      (wordBytes (words.getD place 0)).getD byte 0 := by
  induction words generalizing place with
  | nil => exact absurd h (by simp)
  | cons word rest ih =>
      have hFour : (wordBytes word).length = 4 := rfl
      cases place with
      | zero =>
          rw [List.flatMap_cons, List.getD_append _ _ _ _ (by omega)]
          simp
      | succ place =>
          rw [List.flatMap_cons, List.getD_append_right _ _ _ _ (by omega), hFour]
          have hRest := @ih place (by simpa using h)
          rw [show 4 * (place + 1) + byte - 4 = 4 * place + byte by omega, hRest]
          simp

theorem TextWrite.Holds.words {write : TextWrite} {words : List Nat}
    (h : write.Holds (words.flatMap wordBytes)) (hWords : ∀ word ∈ words, word < 2 ^ 32) :
    write.words = words ∧ write.writeLength = words.length := by
  have hLength := h.length
  rw [flatMap_wordBytes_length] at hLength
  have hCount : write.writeLength = words.length := by omega
  refine ⟨?_, hCount⟩
  have hByte : ∀ place < words.length, ∀ byte < 4, write.area.bytes (4 * place + byte) =
      (wordBytes (words.getD place 0)).getD byte 0 := by
    intro place hPlace byte hByte
    rw [h.bytes _ (by rw [flatMap_wordBytes_length]; omega)]
    exact getD_flatMap_wordBytes words hPlace hByte
  refine List.ext_getElem (by simp [TextWrite.words, hCount]) fun place hFirst hSecond => ?_
  have hGet : words.getD place 0 = words[place] := List.getD_eq_getElem _ _ hSecond
  have hZero := hByte place hSecond 0 (by decide)
  have hOne := hByte place hSecond 1 (by decide)
  have hTwo := hByte place hSecond 2 (by decide)
  have hThree := hByte place hSecond 3 (by decide)
  have hRange := hWords _ (List.getElem_mem hSecond)
  rw [hGet] at hZero hOne hTwo hThree
  simp only [TextWrite.words, List.getElem_map, List.getElem_range]
  simp only [Nat.add_zero] at hZero
  rw [hZero, hOne, hTwo, hThree]
  simp only [wordBytes, List.getD_cons_zero, List.getD_cons_succ]
  omega

/-- A text as a line of a table: what `do_put_table` reads back as it is, and goes on after. -/
def IsTableLine (text : Text) : Prop :=
  ∃ line : InputLine, line.chars = text ∧ text ≠ []

theorem isTableLine_formatUint {word : Nat} (h : word < 2 ^ 32) : IsTableLine (formatUint word) := by
  have hDigits := formatUint_digits word
  have hLength := formatUint_length h
  have hNot : ∀ ch, isDigitOf 10 ch = false → ch ∉ formatUint word := by
    intro ch hOther hMem
    exact Bool.noConfusion ((hDigits ch hMem).symm.trans hOther)
  exact ⟨⟨_, hNot _ (by decide), hNot _ (by decide), by rw [maxLineLength]; omega⟩, rfl,
    formatUint_ne_nil word⟩

theorem isTableLine_base64Encode {bytes : List Nat} (hBytes : ∀ byte ∈ bytes, byte < 256)
    (hSome : bytes ≠ []) (hLength : bytes.length ≤ base64LineBytes) :
    IsTableLine (base64Encode bytes) := by
  have hChars : ∀ ch ∈ base64Encode bytes, ch ∈ base64Alphabet ∨ ch = '=' := by
    intro ch hMem
    rw [base64Encode_eq hBytes, List.mem_append] at hMem
    rcases hMem with hDigit | hSign
    · obtain ⟨digit, hIn, rfl⟩ := List.mem_map.mp hDigit
      exact .inl (encodeChar_mem digit (base64Digits_lt hBytes digit hIn))
    · unfold base64Signs at hSign
      split at hSign <;> simp_all
  have hNot : ∀ ch, ch ∉ base64Alphabet → ch ≠ '=' → ch ∉ base64Encode bytes := by
    intro ch hAlphabet hSign hMem
    exact (hChars ch hMem).elim hAlphabet hSign
  have hCount : (base64Encode bytes).length =
      (base64Digits bytes).length + (base64Signs bytes.length).length := by
    rw [base64Encode_eq hBytes, List.length_append, List.length_map]
  have hPos := List.length_pos_iff.mpr hSome
  rw [base64Digits_length, base64Signs_length] at hCount
  rw [base64LineBytes] at hLength
  refine ⟨⟨_, hNot _ newline_not_mem_alphabet (by decide), hNot _ null_not_mem_alphabet (by decide),
    ?_⟩, rfl, fun hNil => ?_⟩
  · rw [maxLineLength]
    split_ifs at hCount <;> omega
  · rw [hNil, List.length_nil] at hCount
    split_ifs at hCount <;> omega

theorem isTableLine_base64Lines {bytes : List Nat} (hBytes : ∀ byte ∈ bytes, byte < 256) :
    ∀ text ∈ base64Lines bytes, IsTableLine text := by
  fun_induction base64Lines bytes with
  | case1 => exact nofun
  | case2 bytes hSome ih =>
      intro text hText
      rcases List.mem_cons.mp hText with rfl | hRest
      · refine isTableLine_base64Encode (fun byte hByte => hBytes byte (List.mem_of_mem_take hByte))
          ?_ (List.length_take_le _ _)
        exact fun hNil => hSome ((List.take_eq_nil_iff.mp hNil).resolve_left (by decide))
      · exact ih (fun byte hByte => hBytes byte (List.mem_of_mem_drop hByte)) text hRest

theorem exists_inputLines {texts : List Text} (h : ∀ text ∈ texts, IsTableLine text) :
    ∃ lines : List InputLine, lines.map InputLine.chars = texts ∧
      ∀ line ∈ lines, line.chars ≠ [] := by
  induction texts with
  | nil => exact ⟨[], rfl, nofun⟩
  | cons text texts ih =>
      obtain ⟨line, rfl, hSome⟩ := h text List.mem_cons_self
      obtain ⟨lines, rfl, hLines⟩ := ih fun other hOther => h other (List.mem_cons_of_mem _ hOther)
      refine ⟨line :: lines, rfl, fun other hOther => ?_⟩
      rcases List.mem_cons.mp hOther with rfl | hRest
      · exact hSome
      · exact hLines other hRest

end RoundTrip

/-- The lines that a table is read out as, in either form. -/
def tableLines (binary : Bool) (words : List Nat) : List Text :=
  if binary then writeBase64 words else writeAscii words

/-- What follows a table command that is accepted, from the connection of the client. -/
def putTableText (width maxLength rowWords : Nat) (binary : Bool) (memory : Nat → Nat)
    (file : BufferedFile) : Option (BufferedFile × TextWrite × Option LineText) :=
  let writer := tableTextWriter width maxLength rowWords
  (doPutTable writer file.rounds file (TextWrite.start binary memory) none).map fun put =>
    let closed := writer.close put.2.1 put.2.2.isNone
    (put.1, closed.1, put.2.2 <|> closed.2)

theorem isTableLine_tableLines {words : List Nat} (hWords : ∀ word ∈ words, word < 2 ^ 32)
    (binary : Bool) : ∀ text ∈ tableLines binary words, IsTableLine text := by
  cases binary with
  | true =>
      refine isTableLine_base64Lines fun byte hByte => ?_
      obtain ⟨word, _, hMem⟩ := List.mem_flatMap.mp hByte
      exact wordBytes_lt word byte hMem
  | false =>
      intro text hText
      obtain ⟨word, hWord, rfl⟩ := List.mem_map.mp hText
      exact isTableLine_formatUint (hWords word hWord)

theorem putLines_tableLines {width maxLength rowWords : Nat} (hWidth : 32 ≤ width)
    (memory : Nat → Nat) {words : List Nat} (hWords : ∀ word ∈ words, word < 2 ^ 32)
    (hFits : words.length ≤ maxLength) (binary : Bool) :
    ∃ write, putLines (tableTextWriter width maxLength rowWords) (tableLines binary words)
        (TextWrite.start binary memory, none) = (write, none) ∧
      write.words = words ∧ write.writeLength = words.length := by
  have hStart : (TextWrite.start binary memory).Holds [] := ⟨rfl, nofun⟩
  suffices hLines : ∀ result : TextWrite × Option LineText, result =
      putLines (tableTextWriter width maxLength rowWords) (tableLines binary words)
        (TextWrite.start binary memory, none) →
      result.2 = none ∧ result.1.Holds (words.flatMap wordBytes) by
    obtain ⟨hNone, hHolds⟩ := hLines _ rfl
    exact ⟨_, Prod.ext rfl hNone, hHolds.words hWords⟩
  rintro _ rfl
  cases binary with
  | true =>
      have hBytes : ∀ byte ∈ words.flatMap wordBytes, byte < 256 := by
        intro byte hByte
        obtain ⟨word, _, hMem⟩ := List.mem_flatMap.mp hByte
        exact wordBytes_lt word byte hMem
      exact @putLines_base64 width maxLength rowWords (words.flatMap wordBytes) hBytes
        (by rw [flatMap_wordBytes_length]; omega) _ rfl [] hStart
        (by rw [flatMap_wordBytes_length]; simp only [List.length_nil]; omega)
  | false =>
      exact @putLines_ascii width maxLength rowWords hWidth words hWords _ rfl [] hStart
        (by simp only [List.length_nil]; omega)

/-- A table that is read out in either form, sent as it is and followed by a blank line, is
written again and nothing but it is taken from the connection; and no input at all makes a write
reach beyond its area. -/
theorem table_text_round_trip {width maxLength rowWords : Nat} (hWidth : 32 ≤ width)
    (memory : Nat → Nat) :
    (∀ words : List Nat, (∀ word ∈ words, word < 2 ^ 32) → words.length ≤ maxLength →
      words.length % rowWords = 0 → ∀ (binary : Bool) (file : BufferedFile) (rest : Text),
      file.Live → file.remaining = linesText (tableLines binary words ++ [[]]) ++ rest →
      ∃ next last, putTableText width maxLength rowWords binary memory file =
          some (next, last, none) ∧
        next.Live ∧ next.remaining = rest ∧ last.words = words ∧
        last.writeLength = words.length) ∧
    ∀ (binary : Bool) (file : BufferedFile), ∃ next last error,
      putTableText width maxLength rowWords binary memory file = some (next, last, error) ∧
      last.writeLength ≤ maxLength ∧ last.area.reach ≤ 4 * maxLength := by
  constructor
  · intro words hWords hFits hRows binary file rest hLive hRemaining
    obtain ⟨write, hPut, hWordsOut, hLength⟩ :=
      @putLines_tableLines width maxLength rowWords hWidth memory words hWords hFits binary
    obtain ⟨lines, hLines, hSome⟩ := exists_inputLines (isTableLine_tableLines hWords binary)
    have hRounds : lines.length < file.rounds := by
      have hAll := length_le_linesText (lines.map InputLine.chars ++ [[]])
      have hFile := remaining_lt_rounds file
      rw [hRemaining, List.length_append, ← hLines] at hFile
      rw [List.length_append, List.length_map] at hAll
      omega
    rw [← hLines] at hRemaining hPut
    obtain ⟨next, hDone, hNext, hRest⟩ :=
      doPutTable_lines (tableTextWriter width maxLength rowWords) hSome hRounds hLive hRemaining
        (TextWrite.start binary memory) none
    rw [hPut] at hDone
    refine ⟨next, write, ?_, hNext, hRest, hWordsOut, hLength⟩
    have hClose : (tableTextWriter width maxLength rowWords).close write true = (write, none) := by
      simp [tableTextWriter, hLength, hRows]
    rw [putTableText, hDone]
    exact congrArg (fun closed => some (next, closed.1, none <|> closed.2)) hClose
  · intro binary file
    have hReturns : ∃ next last result, doPutTable (tableTextWriter width maxLength rowWords)
        file.rounds file (TextWrite.start binary memory) none = some (next, last, result) := by
      by_cases hLive : file.Live
      · obtain ⟨next, last, result, hPut, _⟩ := doPutTable_consumed
          (tableTextWriter width maxLength rowWords) hLive (remaining_lt_rounds file)
          (TextWrite.start binary memory) none
        exact ⟨next, last, result, hPut⟩
      · refine ⟨file, TextWrite.start binary memory, some unexpectedEof, ?_⟩
        rw [BufferedFile.rounds, doPutTable, BufferedFile.readLine_of_not_live hLive]
        rfl
    obtain ⟨next, last, result, hPut⟩ := hReturns
    have hInside := doPutTable_inside ⟨Nat.zero_le _, Nat.zero_le _⟩ hPut
    exact ⟨next, last, _, by rw [putTableText, hPut]; rfl, hInside.length, hInside.reach⟩

/-- Two rows of two words in base 64, and a command behind them. -/
theorem four_words_round_trip :
    ∃ next last, putTableText 32 8 2 true (fun _ => 0) (.create
        [linesText (tableLines true [1, 2, 0xdeadbeef, 4] ++ [[]]) ++ ['A', '?', '\n']]) =
        some (next, last, none) ∧
      next.remaining = ['A', '?', '\n'] ∧ last.words = [1, 2, 0xdeadbeef, 4] := by
  have hRemaining : ∀ text : Text, text ≠ [] → (BufferedFile.create [text]).remaining = text := by
    intro text hSome
    simp [BufferedFile.remaining, BufferedFile.create, hSome]
  obtain ⟨next, last, hPut, _, hRest, hWords, _⟩ :=
    (@table_text_round_trip 32 8 2 (by decide) fun _ => 0).1 [1, 2, 0xdeadbeef, 4]
      (by decide) (by decide) (by decide) true _ ['A', '?', '\n'] ⟨rfl, rfl⟩
      (hRemaining _ (by simp))
  exact ⟨next, last, hPut, hRest, hWords⟩

end Server
