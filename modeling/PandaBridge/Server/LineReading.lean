import PandaBridge.Memory.Range
import PandaBridge.Server.BufferedFile

/-! Lines are read into the memory of the caller, piece by piece as the socket gives them. However
it cuts the input, the lines are the same, and nothing is written past the end of a line. -/
namespace Server

open Memory (store)
open BufferedFile (splitLine)

/-- A connection with the whole of its input buffer, up to `in_length`. -/
structure LineFile extends BufferedFile where
  readPtr : Nat

/-- The memory for a line, its size, and whether the output is flushed before the socket is waited
for. -/
structure LineRequest where
  line : Nat → Char
  lineSize : Nat
  flush : Bool

namespace LineFile

def create (chunks : List Text) : LineFile where
  toBufferedFile := BufferedFile.create chunks
  readPtr := 0

/-- The data from `data_start` on. -/
def dataStart (file : LineFile) : Text := file.inBuf.drop file.readPtr

/-- The connection without what was read. -/
def unread (file : LineFile) : BufferedFile :=
  { file.toBufferedFile with inBuf := file.dataStart }

/-- `fill_in_buf`. -/
def fillInBuf (file : LineFile) : LineFile :=
  if file.eof || file.error then file
  else
    match file.chunks with
    | [] => { file with eof := true, inBuf := [], readPtr := 0 }
    | chunk :: rest => { file with eof := chunk.isEmpty, inBuf := chunk, readPtr := 0, chunks := rest }

def flushIf (file : LineFile) (flush : Bool) : LineFile :=
  if flush then { file with toBufferedFile := file.toBufferedFile.flushOutBuf } else file

theorem fillInBuf_lt {file : LineFile} (hLive : ¬ (file.eof || file.error) = true) (flush : Bool) :
    (file.flushIf flush).fillInBuf.chunks.length +
        (if (file.flushIf flush).fillInBuf.eof then 0 else 1) <
      file.chunks.length + (if file.eof then 0 else 1) := by
  have hOpen : file.eof = false := by
    cases hEof : file.eof with
    | false => rfl
    | true => exact absurd (by rw [hEof]; rfl) hLive
  have hFlush : (file.flushIf flush).chunks = file.chunks ∧
      ((file.flushIf flush).eof || (file.flushIf flush).error) = (file.eof || file.error) := by
    cases flush with
    | true => exact ⟨rfl, rfl⟩
    | false => exact ⟨rfl, rfl⟩
  rw [hOpen, ← hFlush.1]
  rw [← hFlush.2] at hLive
  generalize file.flushIf flush = flushed at hLive ⊢
  rw [fillInBuf, if_neg hLive]
  cases flushed.chunks with
  | nil => exact Nat.lt_succ_self 0
  | cons chunk rest =>
      simp only [List.length_cons, Bool.false_eq_true, if_false]
      split <;> omega

/-- The loop of `read_line`; the line goes on in memory from an index. -/
def readLineLoop (file : LineFile) (line : Nat → Char) (start lineSize : Nat) (flush : Bool) :
    LineFile × Bool × (Nat → Char) :=
  if file.eof || file.error then (file, false, line)
  else
    match splitLine file.dataStart with
    | some (text, _) =>
        if text.length + 1 < lineSize then
          ({ file with readPtr := file.readPtr + (text.length + 1) }, true,
            store (store line start text) (start + text.length) ['\x00'])
        else ({ file with error := true }, false, line)
    | none =>
        if file.dataStart.length + 1 < lineSize then
          readLineLoop (file.flushIf flush).fillInBuf (store line start file.dataStart)
            (start + file.dataStart.length) (lineSize - file.dataStart.length) false
        else ({ file with error := true }, false, line)
termination_by file.chunks.length + (if file.eof then 0 else 1)
decreasing_by
  exact fillInBuf_lt (by assumption) flush

/-- `read_line`. -/
def readLine (file : LineFile) (request : LineRequest) : LineFile × Bool × (Nat → Char) :=
  file.readLineLoop request.line 0 request.lineSize request.flush

/-- The calls of `read_line` one after the other, each with the memory that it leaves, or nothing
if it returns false. -/
def readLines : List LineRequest → LineFile → List (Option (Nat → Char))
  | [], _ => []
  | request :: rest, file =>
      let result := file.readLine request
      (if result.2.1 then some result.2.2 else none) :: readLines rest result.1

/-! ### One line -/

/-- A line in the memory of the caller, with its NUL. -/
def cString (line : Nat → Char) (text : Text) : Nat → Char := store line 0 (text ++ ['\x00'])

/-- What a read of a line does with the memory, compared with a read that returns its text. -/
structure Matches (line : Nat → Char) (limit : Nat) (result : LineFile × Bool × (Nat → Char))
    (expected : BufferedFile × Option Text) : Prop where
  unread : result.1.unread = expected.1
  found : result.2.1 = expected.2.isSome
  memory : ∀ text, expected.2 = some text → result.2.2 = cString line text
  inside : ∀ i, limit ≤ i → result.2.2 i = line i

theorem drop_of_splitLine {data text rest : Text} (hSplit : splitLine data = some (text, rest)) :
    data.drop (text.length + 1) = rest := by
  induction data generalizing text with
  | nil => cases hSplit
  | cons ch data ih =>
      rw [splitLine] at hSplit
      split at hSplit
      · obtain ⟨rfl, rfl⟩ := Prod.mk.inj (Option.some.inj hSplit)
        rfl
      · obtain ⟨⟨inner, after⟩, hInner, hEq⟩ := Option.map_eq_some_iff.mp hSplit
        obtain ⟨rfl, rfl⟩ := Prod.mk.inj hEq
        exact ih hInner

theorem readLineFrom_over {chunks : List Text} {file : BufferedFile}
    (hOver : (file.eof || file.error) = true) (line : Text) (lineSize : Nat) (flush : Bool) :
    BufferedFile.readLineFrom chunks file line lineSize flush = (file, none) := by
  rw [BufferedFile.readLineFrom, if_pos hOver]

theorem readLineFrom_refill {file : LineFile} (hLive : ¬ (file.eof || file.error) = true)
    (hNone : splitLine file.dataStart = none) {lineSize : Nat}
    (hRoom : file.dataStart.length + 1 < lineSize) (before : Text) (flush : Bool) :
    BufferedFile.readLineFrom file.chunks file.unread before lineSize flush =
      BufferedFile.readLineFrom (file.flushIf flush).fillInBuf.chunks
        (file.flushIf flush).fillInBuf.unread (before ++ file.dataStart)
        (lineSize - file.dataStart.length) false := by
  have hUnread : ¬ (file.unread.eof || file.unread.error) = true := hLive
  have hSplit : splitLine file.unread.inBuf = none := hNone
  have hLength : file.unread.inBuf.length + 1 < lineSize := hRoom
  have hFlush : (file.flushIf flush).chunks = file.chunks ∧
      ((file.flushIf flush).eof || (file.flushIf flush).error) = (file.eof || file.error) ∧
      (if flush then file.unread.flushOutBuf else file.unread) = (file.flushIf flush).unread := by
    cases flush with
    | true => exact ⟨rfl, rfl, rfl⟩
    | false => exact ⟨rfl, rfl, rfl⟩
  rw [BufferedFile.readLineFrom, if_neg hUnread, hSplit]
  simp only
  rw [if_pos hLength, hFlush.2.2, ← hFlush.1]
  rw [← hFlush.2.1] at hLive
  generalize file.flushIf flush = flushed at hLive ⊢
  obtain ⟨⟨chunks, eof, error, inBuf, outBuf, sent⟩, readPtr⟩ := flushed
  obtain rfl : eof = false := by
    cases eof with
    | false => rfl
    | true => exact absurd rfl hLive
  unfold fillInBuf
  rw [if_neg hLive]
  cases chunks with
  | nil =>
      rw [readLineFrom_over rfl]
      rfl
  | cons chunk rest =>
      cases chunk with
      | nil =>
          rw [readLineFrom_over rfl]
          rfl
      | cons ch chunk => rfl

theorem readLineLoop_matches {line : Nat → Char} (file : LineFile) (before : Text)
    (lineSize : Nat) (flush : Bool) :
    Matches line (before.length + lineSize)
      (file.readLineLoop (store line 0 before) before.length lineSize flush)
      (BufferedFile.readLineFrom file.chunks file.unread before lineSize flush) := by
  have hBefore : ∀ i, before.length + lineSize ≤ i → store line 0 before i = line i :=
    fun i hPast => Memory.store_past (by omega)
  induction hMeasure : file.chunks.length + (if file.eof then 0 else 1) using
    Nat.strong_induction_on generalizing file before lineSize flush with
  | _ measure ih =>
      rw [readLineLoop]
      split
      · rename_i hOver
        have hUnread : (file.unread.eof || file.unread.error) = true := hOver
        rw [readLineFrom_over hUnread]
        exact ⟨rfl, rfl, fun _ hSome => absurd hSome (by simp), hBefore⟩
      · rename_i hLive
        have hUnread : ¬ (file.unread.eof || file.unread.error) = true := hLive
        split
        · rename_i text rest hSplit
          have hInBuf : splitLine file.unread.inBuf = some (text, rest) := hSplit
          rw [BufferedFile.readLineFrom, if_neg hUnread, hInBuf]
          simp only
          split
          · rename_i hShort
            have hStored : store (store (store line 0 before) before.length text)
                (before.length + text.length) ['\x00'] = cString line (before ++ text) := by
              have hText := @Memory.store_append Char line 0 before text
              have hNul := @Memory.store_append Char line 0 (before ++ text) ['\x00']
              rw [Nat.zero_add] at hText hNul
              rw [hText, ← List.length_append, hNul, cString]
            constructor
            case unread =>
              have hDrop := drop_of_splitLine hSplit
              rw [dataStart, List.drop_drop] at hDrop
              simp only [unread, dataStart, hDrop]
            case found => rfl
            case memory =>
              intro result hResult
              obtain rfl := Option.some.inj hResult
              exact hStored
            case inside =>
              intro i hPast
              simp only
              rw [hStored, cString]
              apply Memory.store_past
              simp only [List.length_append, List.length_singleton]
              omega
          · exact ⟨rfl, rfl, fun _ hSome => absurd hSome (by simp), hBefore⟩
        · rename_i hNone
          split
          · rename_i hRoom
            have hAppend := @Memory.store_append Char line 0 before file.dataStart
            rw [Nat.zero_add] at hAppend
            have hEnd : before.length + file.dataStart.length +
                (lineSize - file.dataStart.length) = before.length + lineSize := by omega
            have hRest := ih _ (hMeasure ▸ fillInBuf_lt hLive flush) (file.flushIf flush).fillInBuf
              (before ++ file.dataStart) (lineSize - file.dataStart.length) false ?_ rfl
            · rw [readLineFrom_refill hLive hNone hRoom, hAppend]
              rw [List.length_append, hEnd] at hRest
              exact hRest
            · intro i hPast
              rw [List.length_append, hEnd] at hPast
              apply Memory.store_past
              rw [List.length_append]
              omega
          · rename_i hLong
            have hInBuf : splitLine file.unread.inBuf = none := hNone
            have hOverrun : ¬ file.unread.inBuf.length + 1 < lineSize := hLong
            rw [BufferedFile.readLineFrom, if_neg hUnread, hInBuf]
            simp only
            rw [if_neg hOverrun]
            exact ⟨rfl, rfl, fun _ hSome => absurd hSome (by simp), hBefore⟩

/-! ### All lines -/

theorem readLine_matches (file : LineFile) (request : LineRequest) :
    Matches request.line request.lineSize (file.readLine request)
      (BufferedFile.readLineFrom file.chunks file.unread [] request.lineSize request.flush) := by
  have hMatches := @readLineLoop_matches request.line file [] request.lineSize request.flush
  rw [Memory.store_nil, List.length_nil, Nat.zero_add] at hMatches
  exact hMatches

/-- The lines of a text, up to the first that is too long for its memory. -/
def linesOf : Text → List LineRequest → List (Option (Nat → Char))
  | _, [] => []
  | data, request :: rest =>
      match splitLine data with
      | some (text, more) =>
          if text.length + 1 < request.lineSize then
            some (cString request.line text) :: linesOf more rest
          else none :: rest.map fun _ => none
      | none => none :: rest.map fun _ => none

/-- After the end of the input or an error there is nothing more to read. -/
theorem readLines_over {file : LineFile} (hOver : (file.eof || file.error) = true)
    (requests : List LineRequest) : readLines requests file = requests.map fun _ => none := by
  induction requests with
  | nil => rfl
  | cons request requests ih =>
      have hRead : file.readLine request = (file, false, request.line) := by
        rw [readLine, readLineLoop, if_pos hOver]
      rw [readLines, hRead, List.map_cons, ← ih]
      rfl

theorem readLines_eq {file : LineFile} (hLive : file.unread.Live) (requests : List LineRequest) :
    readLines requests file = linesOf file.unread.remaining requests := by
  induction requests generalizing file with
  | nil => rfl
  | cons request requests ih =>
      obtain ⟨hUnread, hFound, hMemory, _⟩ := file.readLine_matches request
      have hRead := @BufferedFile.readLineFrom_spec file.chunks file.unread rfl hLive []
        request.lineSize request.flush
      rw [readLines, linesOf]
      generalize file.readLine request = result at hUnread hFound hMemory ⊢
      generalize BufferedFile.readLineFrom file.chunks file.unread [] request.lineSize
        request.flush = expected at hUnread hFound hMemory hRead
      cases hRead with
      | @found next text rest hSplit hShort hNext hRemaining _ =>
          simp only [hSplit]
          rw [if_pos hShort, hFound, hMemory text rfl]
          simp only at hUnread
          rw [← hUnread] at hNext hRemaining
          rw [ih hNext, hRemaining]
          rfl
      | @ended next hNone _ hEof _ _ _ =>
          simp only [hNone]
          have hOver : (result.1.unread.eof || result.1.unread.error) = true := by
            rw [hUnread, hEof, Bool.true_or]
          rw [readLines_over hOver, hFound]
          rfl
      | @failed next hLong hError _ =>
          have hOver : (result.1.unread.eof || result.1.unread.error) = true := by
            rw [hUnread, hError, Bool.or_true]
          rw [readLines_over hOver, hFound]
          unfold BufferedFile.Overlong at hLong
          cases hSplit : splitLine file.unread.remaining with
          | none => rfl
          | some split =>
              rw [hSplit] at hLong
              have hNot : ¬ split.1.length + 1 < request.lineSize := Nat.not_lt.mpr hLong
              simp only [if_neg hNot]
              rfl

end LineFile

/-- A way in which reads of at most so many characters can cut an input. -/
structure Chunking (inBufSize : Nat) (data : Text) (chunks : List Text) : Prop where
  some : ∀ chunk ∈ chunks, chunk ≠ []
  fits : ∀ chunk ∈ chunks, chunk.length ≤ inBufSize
  whole : chunks.flatten = data

open LineFile

theorem Chunking.remaining {inBufSize : Nat} {data : Text} {chunks : List Text}
    (hChunking : Chunking inBufSize data chunks) :
    (LineFile.create chunks).unread.remaining = data := by
  have hAll : chunks.takeWhile (· ≠ []) = chunks := by
    rw [List.takeWhile_eq_self_iff]
    exact fun chunk hMem => decide_eq_true (hChunking.some chunk hMem)
  rw [BufferedFile.remaining_of_live ⟨rfl, rfl⟩]
  simp only [unread, dataStart, LineFile.create, BufferedFile.create]
  rw [hAll, hChunking.whole]
  rfl

/-- However the reads cut an input, all calls return the same: the lines of the input one after
the other, each with its NUL, until one does not fit or the input ends, and false from then on. No
call writes outside the memory that it was given. -/
theorem line_reading_independent {inBufSize : Nat} {data : Text} {first second : List Text}
    (hFirst : Chunking inBufSize data first) (hSecond : Chunking inBufSize data second)
    (requests : List LineRequest) :
    readLines requests (LineFile.create first) = readLines requests (LineFile.create second) ∧
      readLines requests (LineFile.create first) = linesOf data requests ∧
      ∀ (file : LineFile) (request : LineRequest) (i : Nat), request.lineSize ≤ i →
        (file.readLine request).2.2 i = request.line i := by
  have hLines : ∀ chunks, Chunking inBufSize data chunks →
      readLines requests (LineFile.create chunks) = linesOf data requests := by
    intro chunks hChunking
    have hLive : (LineFile.create chunks).unread.Live := ⟨rfl, rfl⟩
    rw [readLines_eq hLive, hChunking.remaining]
  refine ⟨(hLines first hFirst).trans (hLines second hSecond).symm, hLines first hFirst, ?_⟩
  exact fun file request => (file.readLine_matches request).inside

/-- Two lines cut at two places; the third call finds the end of the input. -/
theorem line_reading_independent_two :
    let request : LineRequest := ⟨fun _ => ' ', 4, true⟩
    readLines [request, request, request] (LineFile.create [['a', 'b'], ['\n', 'c'], ['\n']]) =
        readLines [request, request, request] (LineFile.create [['a'], ['b', '\n', 'c', '\n']]) ∧
      readLines [request, request, request] (LineFile.create [['a', 'b'], ['\n', 'c'], ['\n']]) =
        [some (cString (fun _ => ' ') ['a', 'b']), some (cString (fun _ => ' ') ['c']), none] := by
  intro request
  have hFirst : Chunking 4 ['a', 'b', '\n', 'c', '\n'] [['a', 'b'], ['\n', 'c'], ['\n']] :=
    ⟨by simp, by simp, rfl⟩
  have hSecond : Chunking 4 ['a', 'b', '\n', 'c', '\n'] [['a'], ['b', '\n', 'c', '\n']] :=
    ⟨by simp, by simp, rfl⟩
  obtain ⟨hSame, hLines, _⟩ := line_reading_independent hFirst hSecond [request, request, request]
  exact ⟨hSame, hLines⟩

end Server
