import Mathlib.Tactic.SplitIfs
import PandaBridge.Server.Parse

/-! Buffered input and output of a connection. The input comes in whatever pieces the socket gives,
the output leaves when its buffer is full or when a line has to be waited for. -/
namespace Server

/-- `MAX_LINE_LENGTH`, with the terminating NUL. -/
def maxLineLength : Nat := 1024

/-- `OUT_BUF_SIZE`. -/
def outBufSize : Nat := 16384

/-- A connection: what the reads of its socket will return until the end of the input, what is left
of the input buffer, the output buffer, and what has been sent. Only a line that is too long is an
error here. -/
structure BufferedFile where
  chunks : List Text
  eof : Bool
  error : Bool
  inBuf : Text
  outBuf : Text
  sent : Text

namespace BufferedFile

def create (chunks : List Text) : BufferedFile where
  chunks := chunks
  eof := false
  error := false
  inBuf := []
  outBuf := []
  sent := []

/-- `flush_out_buf`. -/
def flushOutBuf (file : BufferedFile) : BufferedFile :=
  { file with sent := if file.error then file.sent else file.sent ++ file.outBuf, outBuf := [] }

/-- `write_char`. -/
def writeChar (file : BufferedFile) (ch : Char) : BufferedFile :=
  if file.error then file
  else
    let put := { file with outBuf := file.outBuf ++ [ch] }
    if put.outBuf.length ≥ outBufSize then put.flushOutBuf else put

/-- `write_string`, which copies as much at once as there is room for. -/
def writeString (file : BufferedFile) (string : Text) : BufferedFile :=
  string.foldl writeChar file

/-- A line and what follows it. -/
def splitLine : Text → Option (Text × Text)
  | [] => none
  | ch :: rest =>
      if ch = '\n' then some ([], rest)
      else (splitLine rest).map fun split => (ch :: split.1, split.2)

/-- The loop of `read_line`, over the pieces that are still to come. -/
def readLineFrom : List Text → BufferedFile → (line : Text) → (lineSize : Nat) → (flush : Bool) →
    BufferedFile × Option Text
  | chunks, file, line, lineSize, flush =>
      if file.eof || file.error then (file, none)
      else
        match splitLine file.inBuf with
        | some (text, rest) =>
            if text.length + 1 < lineSize then ({ file with inBuf := rest }, some (line ++ text))
            else ({ file with error := true }, none)
        | none =>
            if file.inBuf.length + 1 < lineSize then
              let flushed := if flush then file.flushOutBuf else file
              match chunks with
              | [] => ({ flushed with eof := true, inBuf := [] }, none)
              | [] :: rest => ({ flushed with eof := true, inBuf := [], chunks := rest }, none)
              | (ch :: chunk) :: rest =>
                  readLineFrom rest { flushed with inBuf := ch :: chunk, chunks := rest }
                    (line ++ file.inBuf) (lineSize - file.inBuf.length) false
            else ({ file with error := true }, none)

/-- `read_line`. -/
def readLine (file : BufferedFile) (flush : Bool) : BufferedFile × Option Text :=
  readLineFrom file.chunks file [] maxLineLength flush

/-! ### What is to come, and what was written -/

/-- The rest of the input. -/
def remaining (file : BufferedFile) : Text :=
  if file.eof then [] else file.inBuf ++ (file.chunks.takeWhile (· ≠ [])).flatten

/-- All output so far. -/
def written (file : BufferedFile) : Text := file.sent ++ file.outBuf

/-- More can be read and written. -/
def Live (file : BufferedFile) : Prop := file.eof = false ∧ file.error = false

section Output

variable (file : BufferedFile)

theorem flushOutBuf_written (hError : file.error = false) :
    file.flushOutBuf.written = file.written := by
  simp [flushOutBuf, written, hError]

theorem writeChar_frame (ch : Char) : (file.writeChar ch).remaining = file.remaining ∧
    (file.writeChar ch).eof = file.eof ∧ (file.writeChar ch).error = file.error ∧
    (file.writeChar ch).chunks = file.chunks ∧ (file.writeChar ch).inBuf = file.inBuf := by
  unfold writeChar
  simp only
  split_ifs
  · exact ⟨rfl, rfl, rfl, rfl, rfl⟩
  · exact ⟨rfl, rfl, rfl, rfl, rfl⟩
  · exact ⟨rfl, rfl, rfl, rfl, rfl⟩

theorem writeChar_written (hError : file.error = false) (ch : Char) :
    (file.writeChar ch).written = file.written ++ [ch] := by
  unfold writeChar
  simp only [hError, Bool.false_eq_true, if_false]
  split_ifs
  · rw [flushOutBuf_written _ rfl]
    simp [written]
  · simp [written]

theorem writeString_frame (string : Text) : (file.writeString string).remaining = file.remaining ∧
    (file.writeString string).eof = file.eof ∧ (file.writeString string).error = file.error := by
  induction string generalizing file with
  | nil => exact ⟨rfl, rfl, rfl⟩
  | cons ch rest ih =>
      obtain ⟨hRemaining, hEof, hError, -, -⟩ := file.writeChar_frame ch
      obtain ⟨hRest, hRestEof, hRestError⟩ := ih (file.writeChar ch)
      exact ⟨hRest.trans hRemaining, hRestEof.trans hEof, hRestError.trans hError⟩

theorem writeString_written (hError : file.error = false) (string : Text) :
    (file.writeString string).written = file.written ++ string := by
  induction string generalizing file with
  | nil => exact (List.append_nil _).symm
  | cons ch rest ih =>
      have hKept := (file.writeChar_frame ch).2.2.1
      have hRest := ih (file.writeChar ch) (hKept.trans hError)
      rw [writeChar_written file hError] at hRest
      simpa [writeString] using hRest

end Output

/-! ### Lines -/

theorem splitLine_append {first : Text} (hFirst : splitLine first = none) (rest : Text) :
    splitLine (first ++ rest) = (splitLine rest).map fun split => (first ++ split.1, split.2) := by
  induction first with
  | nil => exact Option.map_id'.symm
  | cons ch first ih =>
      rw [splitLine] at hFirst
      split_ifs at hFirst with hNewline
      rw [Option.map_eq_none_iff] at hFirst
      rw [List.cons_append, splitLine, if_neg hNewline, ih hFirst, Option.map_map]
      rfl

/-- A line that is found is found with more text after it as well. -/
theorem splitLine_append_right {data text rest : Text} (hSplit : splitLine data = some (text, rest))
    (more : Text) : splitLine (data ++ more) = some (text, rest ++ more) := by
  induction data generalizing text with
  | nil => exact absurd hSplit nofun
  | cons ch data ih =>
      rw [List.cons_append, splitLine]
      rw [splitLine] at hSplit
      split_ifs at hSplit ⊢ with hNewline
      · obtain ⟨rfl, rfl⟩ := Prod.mk.inj (Option.some.inj hSplit)
        rfl
      · obtain ⟨⟨inner, after⟩, hInner, hEq⟩ := Option.map_eq_some_iff.mp hSplit
        obtain ⟨rfl, rfl⟩ := Prod.mk.inj hEq
        rw [ih hInner]
        rfl

theorem splitLine_line {line : Text} (hPlain : '\n' ∉ line) (rest : Text) :
    splitLine (line ++ '\n' :: rest) = some (line, rest) := by
  induction line with
  | nil => rfl
  | cons ch line ih =>
      have hHead : ch ≠ '\n' := fun h => hPlain (h ▸ List.mem_cons_self)
      have hTail : '\n' ∉ line := fun h => hPlain (List.mem_cons_of_mem _ h)
      rw [List.cons_append, splitLine, if_neg hHead, ih hTail]
      rfl

theorem splitLine_length {data text rest : Text} (hSplit : splitLine data = some (text, rest)) :
    data.length = text.length + rest.length + 1 := by
  induction data generalizing text with
  | nil => exact absurd hSplit nofun
  | cons ch data ih =>
      rw [splitLine] at hSplit
      split_ifs at hSplit with hNewline
      · obtain ⟨rfl, rfl⟩ := Prod.mk.inj (Option.some.inj hSplit)
        rw [List.length_cons, List.length_nil, Nat.zero_add]
      · obtain ⟨⟨inner, after⟩, hInner, hEq⟩ := Option.map_eq_some_iff.mp hSplit
        obtain ⟨rfl, rfl⟩ := Prod.mk.inj hEq
        have hLength : data.length = inner.length + after.length + 1 := ih hInner
        change data.length + 1 = inner.length + 1 + after.length + 1
        omega

/-- The line, or what there is of it, is too long. -/
def Overlong (data : Text) (lineSize : Nat) : Prop :=
  match splitLine data with
  | some (text, _) => lineSize ≤ text.length + 1
  | none => lineSize ≤ data.length + 1

/-- What a read of a line comes to, from the text that is still to come. -/
inductive ReadSpec (file : BufferedFile) (line : Text) (lineSize : Nat) (flush : Bool) :
    BufferedFile × Option Text → Prop
  | found {next : BufferedFile} {text rest : Text}
      (hSplit : splitLine file.remaining = some (text, rest)) (hShort : text.length + 1 < lineSize)
      (hLive : next.Live) (hRemaining : next.remaining = rest)
      (hWritten : next.written = file.written) :
      ReadSpec file line lineSize flush (next, some (line ++ text))
  | ended {next : BufferedFile} (hNone : splitLine file.remaining = none)
      (hShort : file.remaining.length + 1 < lineSize) (hEof : next.eof = true)
      (hError : next.error = false) (hWritten : next.written = file.written)
      (hFlush : flush = true ∨ file.outBuf = [] → next.outBuf = []) :
      ReadSpec file line lineSize flush (next, none)
  | failed {next : BufferedFile} (hLong : Overlong file.remaining lineSize)
      (hError : next.error = true) (hWritten : next.written = file.written) :
      ReadSpec file line lineSize flush (next, none)

/-- A piece without a newline stands before what is read next. -/
theorem ReadSpec.prepend {file middle : BufferedFile} {before line : Text} {lineSize : Nat}
    {flush : Bool} {result : BufferedFile × Option Text}
    (hNone : splitLine before = none) (hRoom : before.length + 1 < lineSize)
    (hRemaining : file.remaining = before ++ middle.remaining)
    (hWritten : middle.written = file.written)
    (hFlush : flush = true ∨ file.outBuf = [] → middle.outBuf = [])
    (hRead : ReadSpec middle (line ++ before) (lineSize - before.length) false result) :
    ReadSpec file line lineSize flush result := by
  have hSplit := splitLine_append hNone middle.remaining
  rw [← hRemaining] at hSplit
  cases hRead with
  | @found next text rest hText hShort hLive hRest hSame =>
      rw [hText] at hSplit
      rw [List.append_assoc]
      exact .found hSplit (by rw [List.length_append]; omega) hLive hRest (hSame.trans hWritten)
  | @ended next hEnd hShort hEof hError hSame hFlushed =>
      rw [hEnd] at hSplit
      refine .ended hSplit ?_ hEof hError (hSame.trans hWritten) fun hWants => ?_
      · rw [hRemaining, List.length_append]
        omega
      · exact hFlushed (.inr (hFlush hWants))
  | @failed next hLong hError hSame =>
      refine .failed ?_ hError (hSame.trans hWritten)
      unfold Overlong at hLong ⊢
      rw [hSplit]
      cases hMiddle : splitLine middle.remaining with
      | none =>
          rw [hMiddle] at hLong
          simp only [Option.map_none] at hLong ⊢
          rw [hRemaining, List.length_append]
          omega
      | some split =>
          rw [hMiddle] at hLong
          simp only [Option.map_some, List.length_append] at hLong ⊢
          omega

theorem remaining_of_live {file : BufferedFile} (hLive : file.Live) :
    file.remaining = file.inBuf ++ (file.chunks.takeWhile (· ≠ [])).flatten := by
  rw [remaining, hLive.1]
  rfl

theorem readLineFrom_first {chunks : List Text} {file : BufferedFile} (hLive : file.Live)
    (line : Text) {lineSize : Nat} (flush : Bool)
    (hFirst : splitLine file.inBuf ≠ none ∨ lineSize ≤ file.inBuf.length + 1) :
    ReadSpec file line lineSize flush (readLineFrom chunks file line lineSize flush) := by
  have hRemaining := remaining_of_live hLive
  rw [readLineFrom, if_neg (by simp [hLive.1, hLive.2])]
  cases hSplit : splitLine file.inBuf with
  | some split =>
      obtain ⟨text, rest⟩ := split
      have hAll := splitLine_append_right hSplit (file.chunks.takeWhile (· ≠ [])).flatten
      rw [← hRemaining] at hAll
      simp only
      split_ifs with hShort
      · exact .found hAll hShort ⟨hLive.1, hLive.2⟩ (remaining_of_live ⟨hLive.1, hLive.2⟩) rfl
      · refine .failed ?_ rfl rfl
        unfold Overlong
        rw [hAll]
        simp only
        omega
  | none =>
      have hLong := hFirst.resolve_left (fun h => h hSplit)
      have hAll := splitLine_append hSplit (file.chunks.takeWhile (· ≠ [])).flatten
      rw [← hRemaining] at hAll
      simp only
      rw [if_neg (by omega)]
      refine .failed ?_ rfl rfl
      unfold Overlong
      rw [hAll]
      cases splitLine (file.chunks.takeWhile (· ≠ [])).flatten with
      | none =>
          simp only [Option.map_none]
          rw [hRemaining, List.length_append]
          omega
      | some split =>
          simp only [Option.map_some, List.length_append]
          omega

/-- The output buffer is emptied before the socket is waited for, if that is asked for. -/
theorem flushed_frame {file : BufferedFile} (hLive : file.Live) (flush : Bool) :
    (if flush then file.flushOutBuf else file).written = file.written ∧
      (if flush then file.flushOutBuf else file).error = false ∧
      (flush = true ∨ file.outBuf = [] → (if flush then file.flushOutBuf else file).outBuf = []) := by
  cases flush with
  | true => exact ⟨flushOutBuf_written file hLive.2, hLive.2, fun _ => rfl⟩
  | false => exact ⟨rfl, hLive.2, fun hEmpty => hEmpty.resolve_left (by decide)⟩

theorem readLineFrom_spec {chunks : List Text} {file : BufferedFile} (hChunks : file.chunks = chunks)
    (hLive : file.Live) (line : Text) (lineSize : Nat) (flush : Bool) :
    ReadSpec file line lineSize flush (readLineFrom chunks file line lineSize flush) := by
  induction chunks generalizing file line lineSize flush with
  | nil =>
      by_cases hFirst : splitLine file.inBuf ≠ none ∨ lineSize ≤ file.inBuf.length + 1
      · exact readLineFrom_first hLive line flush hFirst
      · obtain ⟨hNone, hRoom⟩ := not_or.mp hFirst
        have hNone : splitLine file.inBuf = none := not_ne_iff.mp hNone
        have hRemaining : file.remaining = file.inBuf := by
          rw [remaining_of_live hLive, hChunks]
          simp
        obtain ⟨hWritten, hError, hFlush⟩ := flushed_frame hLive flush
        rw [readLineFrom, if_neg (by simp [hLive.1, hLive.2]), hNone]
        simp only
        rw [if_pos (by omega)]
        exact .ended (hRemaining ▸ hNone) (by rw [hRemaining]; omega) rfl hError hWritten hFlush
  | cons chunk rest ih =>
      by_cases hFirst : splitLine file.inBuf ≠ none ∨ lineSize ≤ file.inBuf.length + 1
      · exact readLineFrom_first hLive line flush hFirst
      · obtain ⟨hNone, hRoom⟩ := not_or.mp hFirst
        have hNone : splitLine file.inBuf = none := not_ne_iff.mp hNone
        obtain ⟨hWritten, hError, hFlush⟩ := flushed_frame hLive flush
        have hEof : (if flush then file.flushOutBuf else file).eof = false := by
          cases flush <;> exact hLive.1
        rw [readLineFrom, if_neg (by simp [hLive.1, hLive.2]), hNone]
        simp only
        rw [if_pos (by omega)]
        generalize (if flush then file.flushOutBuf else file) = flushed at hWritten hError hFlush hEof ⊢
        cases chunk with
        | nil =>
            have hRemaining : file.remaining = file.inBuf := by
              rw [remaining_of_live hLive, hChunks]
              simp
            exact .ended (hRemaining ▸ hNone) (by rw [hRemaining]; omega) rfl hError hWritten hFlush
        | cons ch chunk =>
            have hMiddle := @ih { flushed with inBuf := ch :: chunk, chunks := rest } rfl
              ⟨hEof, hError⟩ (line ++ file.inBuf) (lineSize - file.inBuf.length) false
            have hRemaining : file.remaining = file.inBuf ++
                ({ flushed with inBuf := ch :: chunk, chunks := rest } : BufferedFile).remaining := by
              rw [remaining_of_live hLive, hChunks, remaining, if_neg (by simp [hEof])]
              simp
            exact @ReadSpec.prepend file _ _ _ _ _ _ hNone (by omega) hRemaining hWritten hFlush hMiddle

theorem readLine_spec {file : BufferedFile} (hLive : file.Live) (flush : Bool) :
    ReadSpec file [] maxLineLength flush (file.readLine flush) :=
  readLineFrom_spec rfl hLive [] maxLineLength flush

theorem readLine_of_not_live {file : BufferedFile} (hLive : ¬ file.Live) (flush : Bool) :
    file.readLine flush = (file, none) := by
  have hOver : (file.eof || file.error) = true := by
    unfold Live at hLive
    cases hEof : file.eof with
    | true => rfl
    | false =>
        cases hError : file.error with
        | true => rfl
        | false => exact absurd ⟨hEof, hError⟩ hLive
  unfold readLine
  cases file.chunks <;> rw [readLineFrom, if_pos hOver]

end BufferedFile

end Server
