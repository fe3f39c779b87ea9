import Mathlib.Tactic.SplitIfs
import PandaBridge.Memory.Range
import PandaBridge.Server.BufferedFile

/-! The output of a connection. Small writes fill a buffer, which is sent when it is full, blocks
are sent at once, and formatted text is written into what is left of the buffer if it fits there.
The socket takes as much of what it is given as it likes. -/
namespace Server

open Memory (store load)

/-- The output half of `buffered_file`, with what has been sent. A call of `write` fails or takes
some characters, at most so many more than one. -/
structure OutputFile where
  write : Nat → Option Nat
  calls : Nat
  error : Bool
  outBuf : Nat → Char
  outLength : Nat
  outBufSize : Nat
  sent : Text

/-- What `vsnprintf` puts into a range of this size: as much as fits there before a NUL. -/
def vsnprintf (memory : Nat → Char) (start size : Nat) (text : Text) : Nat → Char :=
  if size = 0 then memory else store memory start (text.take (size - 1) ++ ['\x00'])

namespace OutputFile

/-- `create_buffered_file`; the memory of the buffer holds anything. -/
def create (outBufSize : Nat) (memory : Nat → Char) (write : Nat → Option Nat) : OutputFile where
  write := write
  calls := 0
  error := false
  outBuf := memory
  outLength := 0
  outBufSize := outBufSize
  sent := []

/-- `send_entire_buffer`. -/
def sendEntireBuffer (file : OutputFile) (buffer : Text) : OutputFile :=
  if file.error = true ∨ buffer.length = 0 then file
  else
    match file.write file.calls with
    | none => { file with calls := file.calls + 1, error := true }
    | some more =>
        let written := min (more + 1) buffer.length
        sendEntireBuffer { file with
          calls := file.calls + 1
          sent := file.sent ++ buffer.take written } (buffer.drop written)
termination_by buffer.length
decreasing_by
  rw [List.length_drop]
  omega

/-- What is in the output buffer. -/
def buffered (file : OutputFile) : Text := load file.outBuf file.outLength

/-- `flush_out_buf`. -/
def flushOutBuf (file : OutputFile) : OutputFile :=
  { file.sendEntireBuffer file.buffered with outLength := 0 }

/-- The loop of `write_string`, for at most so many rounds. -/
def writeStringLoop : (rounds : Nat) → OutputFile → Text → OutputFile
  | 0, file, _ => file
  | rounds + 1, file, string =>
      if file.error = true ∨ string.length = 0 then file
      else
        let toWrite := min (file.outBufSize - file.outLength) string.length
        let put := { file with
          outBuf := store file.outBuf file.outLength (string.take toWrite)
          outLength := file.outLength + toWrite }
        let sent := if put.outLength ≥ put.outBufSize then put.flushOutBuf else put
        writeStringLoop rounds sent (string.drop toWrite)

/-- `write_string`: every round takes at least one character. -/
def writeString (file : OutputFile) (string : Text) : OutputFile :=
  writeStringLoop string.length file string

/-- `write_formatted_string`, by the text that the format comes to. -/
def writeFormattedString (file : OutputFile) (text : Text) : OutputFile :=
  if file.error then file
  else
    let length := file.outBufSize - file.outLength
    let tried := { file with outBuf := vsnprintf file.outBuf file.outLength length text }
    if text.length < length then { tried with outLength := file.outLength + text.length }
    else
      let flushed := tried.flushOutBuf
      if flushed.error then flushed
      else
        { flushed with
          outBuf := vsnprintf flushed.outBuf 0 flushed.outBufSize text
          outLength := text.length
          error := !decide (text.length < flushed.outBufSize) }

/-- `write_block`. -/
def writeBlock (file : OutputFile) (buffer : Text) : OutputFile :=
  file.flushOutBuf.sendEntireBuffer buffer

/-- `write_char`. -/
def writeChar (file : OutputFile) (ch : Char) : OutputFile :=
  if file.error then file
  else
    let put := { file with
      outBuf := store file.outBuf file.outLength [ch]
      outLength := file.outLength + 1 }
    if put.outLength ≥ put.outBufSize then put.flushOutBuf else put

end OutputFile

/-- A call of one of the output functions. -/
inductive OutputCall
  | char (ch : Char)
  | string (text : Text)
  | formatted (text : Text)
  | block (buffer : Text)
  | flush

namespace OutputCall

def run : OutputCall → OutputFile → OutputFile
  | .char ch, file => file.writeChar ch
  | .string text, file => file.writeString text
  | .formatted text, file => file.writeFormattedString text
  | .block buffer, file => file.writeBlock buffer
  | .flush, file => file.flushOutBuf

/-- What the call writes. -/
def data : OutputCall → Text
  | .char ch => [ch]
  | .string text | .formatted text | .block text => text
  | .flush => []

/-- Formatted text must be shorter than the buffer. -/
def Fits (outBufSize : Nat) : OutputCall → Prop
  | .formatted text => text.length < outBufSize
  | .char _ | .string _ | .block _ | .flush => True

end OutputCall

namespace OutputFile

variable {file middle next : OutputFile}

/-- All output so far. -/
def written (file : OutputFile) : Text := file.sent ++ file.buffered

/-- More output was written: all of it is sent or in the buffer unless there was an error, nothing
is sent after an error, and there is none where the socket fails no call. -/
structure Writes (file next : OutputFile) (data : Text) : Prop where
  write : next.write = file.write
  outBufSize : next.outBufSize = file.outBufSize
  written : next.error = false → next.written = file.written ++ data
  stopped : file.error = true → next.error = true ∧ next.sent = file.sent
  served : (∀ call, (file.write call).isSome = true) → file.error = false → next.error = false

namespace Writes

theorem refl (file : OutputFile) : Writes file file [] where
  write := rfl
  outBufSize := rfl
  written _ := (List.append_nil _).symm
  stopped hError := ⟨hError, rfl⟩
  served _ hError := hError

theorem trans {first second : Text} (hFirst : Writes file middle first)
    (hSecond : Writes middle next second) : Writes file next (first ++ second) where
  write := hSecond.write.trans hFirst.write
  outBufSize := hSecond.outBufSize.trans hFirst.outBufSize
  written hError := by
    have hMiddle : middle.error = false := by
      cases hBefore : middle.error with
      | false => rfl
      | true => exact absurd (hSecond.stopped hBefore).1 (by simp [hError])
    rw [hSecond.written hError, hFirst.written hMiddle, List.append_assoc]
  stopped hError := by
    obtain ⟨hMiddle, hSent⟩ := hFirst.stopped hError
    obtain ⟨hNext, hSame⟩ := hSecond.stopped hMiddle
    exact ⟨hNext, hSame.trans hSent⟩
  served hWrite hError := hSecond.served (hFirst.write ▸ hWrite) (hFirst.served hWrite hError)

theorem after_error (hError : file.error = true) (data : Text) : Writes file file data where
  write := rfl
  outBufSize := rfl
  written hNone := absurd hError (by simp [hNone])
  stopped hError := ⟨hError, rfl⟩
  served _ hNone := hNone

theorem put (hError : file.error = false) (data : Text) :
    Writes file { file with
      outBuf := store file.outBuf file.outLength data
      outLength := file.outLength + data.length } data where
  write := rfl
  outBufSize := rfl
  written _ := by
    simp only [OutputFile.written, buffered]
    rw [Memory.load_store, List.append_assoc]
  stopped hSome := absurd hSome (by simp [hError])
  served _ hNone := hNone

end Writes

theorem sendEntireBuffer_spec (file : OutputFile) (buffer : Text) :
    (file.sendEntireBuffer buffer).write = file.write ∧
      (file.sendEntireBuffer buffer).outBufSize = file.outBufSize ∧
      (file.sendEntireBuffer buffer).buffered = file.buffered ∧
      (file.sendEntireBuffer buffer).outLength = file.outLength ∧
      ((file.sendEntireBuffer buffer).error = false →
        (file.sendEntireBuffer buffer).sent = file.sent ++ buffer) ∧
      (file.error = true → file.sendEntireBuffer buffer = file) ∧
      ((∀ call, (file.write call).isSome = true) → file.error = false →
        (file.sendEntireBuffer buffer).error = false) := by
  induction file, buffer using sendEntireBuffer.induct with
  | case1 file buffer hDone =>
      rw [sendEntireBuffer, if_pos hDone]
      refine ⟨rfl, rfl, rfl, rfl, fun hError => ?_, fun _ => rfl, fun _ hError => hError⟩
      have hEmpty := hDone.resolve_left (by simp [hError])
      rw [List.length_eq_zero_iff.mp hEmpty, List.append_nil]
  | case2 file buffer hMore hWrite =>
      rw [sendEntireBuffer, if_neg hMore, hWrite]
      refine ⟨rfl, rfl, rfl, rfl, fun hError => ?_, fun hError => ?_, fun hAll => ?_⟩
      · exact absurd hError (by simp)
      · exact absurd (.inl hError) hMore
      · have hSome := hAll file.calls
        rw [hWrite] at hSome
        exact absurd hSome (by simp)
  | case3 file buffer hMore more hWrite written ih =>
      rw [sendEntireBuffer, if_neg hMore, hWrite]
      obtain ⟨hSame, hSize, hBuffered, hLength, hSent, _, hServed⟩ := ih
      refine ⟨hSame, hSize, hBuffered, hLength, fun hError => ?_, fun hError => ?_,
        fun hAll hError => hServed hAll hError⟩
      · rw [hSent hError, List.append_assoc, List.take_append_drop]
      · exact absurd (.inl hError) hMore

theorem flushOutBuf_writes (file : OutputFile) : Writes file file.flushOutBuf [] := by
  obtain ⟨hWrite, hSize, _, _, hSent, hStopped, hServed⟩ :=
    file.sendEntireBuffer_spec file.buffered
  refine ⟨hWrite, hSize, fun hError => ?_, fun hError => ?_, hServed⟩
  · have hEmpty : file.flushOutBuf.buffered = [] := rfl
    rw [written, hEmpty, List.append_nil, List.append_nil]
    exact hSent hError
  · simp only [flushOutBuf]
    rw [hStopped hError]
    exact ⟨hError, rfl⟩

/-- What a call writes, and the room that it leaves. -/
def Keeps (file next : OutputFile) (data : Text) : Prop :=
  Writes file next data ∧ next.outLength < next.outBufSize

theorem flushFull_keeps (hSize : 0 < file.outBufSize) :
    Keeps file (if file.outLength ≥ file.outBufSize then file.flushOutBuf else file) [] := by
  split_ifs with hFull
  · have hFlush := file.flushOutBuf_writes
    exact ⟨hFlush, hFlush.outBufSize.symm ▸ hSize⟩
  · exact ⟨.refl file, Nat.lt_of_not_le hFull⟩

theorem writeChar_keeps (hRoom : file.outLength < file.outBufSize) (ch : Char) :
    Keeps file (file.writeChar ch) [ch] := by
  unfold writeChar
  split_ifs with hError
  · exact ⟨.after_error hError _, hRoom⟩
  · have hPut := Writes.put (Bool.eq_false_iff.mpr hError) [ch]
    obtain ⟨hFlush, hAfter⟩ := @flushFull_keeps { file with
      outBuf := store file.outBuf file.outLength [ch]
      outLength := file.outLength + 1 } (Nat.zero_lt_of_lt hRoom)
    exact ⟨hPut.trans hFlush, hAfter⟩

theorem writeStringLoop_keeps {rounds : Nat} (hRoom : file.outLength < file.outBufSize)
    {string : Text} (hRounds : string.length ≤ rounds) :
    Keeps file (writeStringLoop rounds file string) string := by
  induction rounds generalizing file string with
  | zero =>
      obtain rfl := List.length_eq_zero_iff.mp (Nat.le_zero.mp hRounds)
      exact ⟨.refl file, hRoom⟩
  | succ rounds ih =>
      rw [writeStringLoop]
      split
      · rename_i hDone
        refine ⟨?_, hRoom⟩
        cases hError : file.error with
        | true => exact .after_error hError _
        | false =>
            have hEmpty := hDone.resolve_left (by simp [hError])
            obtain rfl := List.length_eq_zero_iff.mp hEmpty
            exact .refl file
      · rename_i hMore
        obtain ⟨hError, hLength⟩ := not_or.mp hMore
        simp only
        generalize hToWrite : min (file.outBufSize - file.outLength) string.length = toWrite
        have hTake : (string.take toWrite).length = toWrite := by
          rw [List.length_take]
          omega
        have hPut := Writes.put (Bool.eq_false_iff.mpr hError) (string.take toWrite)
        rw [hTake] at hPut
        obtain ⟨hFlush, hAfter⟩ := @flushFull_keeps { file with
          outBuf := store file.outBuf file.outLength (string.take toWrite)
          outLength := file.outLength + toWrite } (Nat.zero_lt_of_lt hRoom)
        have hDrop : (string.drop toWrite).length ≤ rounds := by
          rw [List.length_drop]
          omega
        obtain ⟨hRest, hLeft⟩ := ih hAfter hDrop
        have hAll := (hPut.trans hFlush).trans hRest
        rw [List.append_nil, List.take_append_drop] at hAll
        exact ⟨hAll, hLeft⟩

theorem writeString_keeps (hRoom : file.outLength < file.outBufSize) (string : Text) :
    Keeps file (file.writeString string) string :=
  writeStringLoop_keeps hRoom (Nat.le_refl _)

/-- Formatted text that fits stands in front of its NUL. -/
theorem load_vsnprintf {memory : Nat → Char} {start size : Nat} {text : Text}
    (hFits : text.length < size) :
    load (vsnprintf memory start size text) (start + text.length) = load memory start ++ text := by
  rw [vsnprintf, if_neg (by omega), List.take_of_length_le (by omega),
    ← Memory.store_append, Memory.load_store_of_le (Nat.le_refl _), Memory.load_store]

theorem load_vsnprintf_start {memory : Nat → Char} {start size : Nat} {text : Text} :
    load (vsnprintf memory start size text) start = load memory start := by
  unfold vsnprintf
  split_ifs
  · rfl
  · exact Memory.load_store_of_le (Nat.le_refl start)

theorem Writes.format (hError : file.error = false) {size : Nat} {text : Text}
    (hFits : text.length < size) :
    Writes file { file with
      outBuf := vsnprintf file.outBuf file.outLength size text
      outLength := file.outLength + text.length } text where
  write := rfl
  outBufSize := rfl
  written _ := by
    simp only [OutputFile.written, buffered]
    rw [load_vsnprintf hFits, List.append_assoc]
  stopped hSome := absurd hSome (by simp [hError])
  served _ hNone := hNone

/-- Formatted text that does not fit changes nothing that counts. -/
theorem Writes.tried (hError : file.error = false) (size : Nat) (text : Text) :
    Writes file { file with outBuf := vsnprintf file.outBuf file.outLength size text } [] where
  write := rfl
  outBufSize := rfl
  written _ := by
    simp only [OutputFile.written, buffered]
    rw [load_vsnprintf_start, List.append_nil]
  stopped hSome := absurd hSome (by simp [hError])
  served _ hNone := hNone

theorem writeFormattedString_keeps (hRoom : file.outLength < file.outBufSize) {text : Text}
    (hShort : text.length < file.outBufSize) :
    Keeps file (file.writeFormattedString text) text := by
  unfold writeFormattedString
  split
  · rename_i hError
    exact ⟨.after_error hError _, hRoom⟩
  · rename_i hError
    have hNone := Bool.eq_false_iff.mpr hError
    simp only
    split
    · rename_i hFits
      refine ⟨.format hNone hFits, ?_⟩
      simp only
      omega
    · have hTry := Writes.tried hNone (file.outBufSize - file.outLength) text
      generalize ({ file with
        outBuf := vsnprintf file.outBuf file.outLength (file.outBufSize - file.outLength) text } :
          OutputFile) = tried at hTry ⊢
      have hFlush := hTry.trans tried.flushOutBuf_writes
      have hEmpty : tried.flushOutBuf.outLength = 0 := rfl
      generalize tried.flushOutBuf = flushed at hFlush hEmpty ⊢
      rw [List.append_nil] at hFlush
      have hFits : text.length < flushed.outBufSize := hFlush.outBufSize.symm ▸ hShort
      split
      · rename_i hFailed
        exact ⟨hFlush.trans (.after_error hFailed text), hEmpty ▸ Nat.zero_lt_of_lt hFits⟩
      · rename_i hServed
        have hFormat := Writes.format (Bool.eq_false_iff.mpr hServed) hFits
        rw [hEmpty, Nat.zero_add, Bool.eq_false_iff.mpr hServed] at hFormat
        rw [decide_eq_true hFits, Bool.not_true]
        exact ⟨hFlush.trans hFormat, hFits⟩

theorem writeBlock_keeps (hRoom : file.outLength < file.outBufSize) (buffer : Text) :
    Keeps file (file.writeBlock buffer) buffer := by
  have hFlush := file.flushOutBuf_writes
  have hEmpty : file.flushOutBuf.outLength = 0 := rfl
  unfold writeBlock
  generalize file.flushOutBuf = flushed at hFlush hEmpty ⊢
  obtain ⟨hWrite, hSize, hBuffered, hLength, hSent, hStopped, hServed⟩ :=
    flushed.sendEntireBuffer_spec buffer
  have hSend : Writes flushed (flushed.sendEntireBuffer buffer) buffer := by
    refine ⟨hWrite, hSize, fun hError => ?_, fun hError => ?_, hServed⟩
    · have hNone : flushed.buffered = [] := by rw [buffered, hEmpty, Memory.load_zero]
      rw [written, hSent hError, hBuffered, written, hNone, List.append_nil, List.append_nil]
    · rw [hStopped hError]
      exact ⟨hError, rfl⟩
  refine ⟨hFlush.trans hSend, ?_⟩
  rw [hLength, hEmpty, hSize, hFlush.outBufSize]
  exact Nat.zero_lt_of_lt hRoom

end OutputFile

open OutputFile

theorem OutputCall.run_keeps {file : OutputFile} (hRoom : file.outLength < file.outBufSize)
    {call : OutputCall} (hFits : call.Fits file.outBufSize) :
    Keeps file (call.run file) call.data := by
  cases call with
  | char ch => exact writeChar_keeps hRoom ch
  | string text => exact writeString_keeps hRoom text
  | formatted text => exact writeFormattedString_keeps hRoom hFits
  | block buffer => exact writeBlock_keeps hRoom buffer
  | flush =>
      have hFlush := file.flushOutBuf_writes
      exact ⟨hFlush, hFlush.outBufSize.symm ▸ Nat.zero_lt_of_lt hRoom⟩

theorem OutputCall.run_stopped {file : OutputFile} (hError : file.error = true)
    (call : OutputCall) : (call.run file).error = true ∧ (call.run file).sent = file.sent := by
  have hSend : ∀ buffer, file.sendEntireBuffer buffer = file :=
    fun buffer => (file.sendEntireBuffer_spec buffer).2.2.2.2.2.1 hError
  have hFlush : file.flushOutBuf = { file with outLength := 0 } := by rw [flushOutBuf, hSend]
  cases call with
  | char ch =>
      rw [run, writeChar, if_pos hError]
      exact ⟨hError, rfl⟩
  | string text =>
      rw [run, writeString]
      cases text with
      | nil => exact ⟨hError, rfl⟩
      | cons ch rest =>
          rw [List.length_cons, writeStringLoop, if_pos (.inl hError)]
          exact ⟨hError, rfl⟩
  | formatted text =>
      rw [run, writeFormattedString, if_pos hError]
      exact ⟨hError, rfl⟩
  | block buffer =>
      have hBlock := (sendEntireBuffer_spec { file with outLength := 0 } buffer).2.2.2.2.2.1 hError
      rw [run, writeBlock, hFlush, hBlock]
      exact ⟨hError, rfl⟩
  | flush =>
      rw [run, hFlush]
      exact ⟨hError, rfl⟩

/-- The calls, one after the other. -/
def runCalls (calls : List OutputCall) (file : OutputFile) : OutputFile :=
  calls.foldl (fun file call => call.run file) file

theorem runCalls_keeps {calls : List OutputCall} {file : OutputFile}
    (hRoom : file.outLength < file.outBufSize)
    (hFits : ∀ call ∈ calls, call.Fits file.outBufSize) :
    Keeps file (runCalls calls file) (calls.flatMap OutputCall.data) := by
  induction calls generalizing file with
  | nil => exact ⟨.refl file, hRoom⟩
  | cons call calls ih =>
      obtain ⟨hFirst, hAfter⟩ := call.run_keeps hRoom (hFits call List.mem_cons_self)
      have hRest : ∀ other ∈ calls, other.Fits (call.run file).outBufSize := by
        intro other hMem
        rw [hFirst.outBufSize]
        exact hFits other (List.mem_cons_of_mem call hMem)
      obtain ⟨hSecond, hLeft⟩ := ih hAfter hRest
      exact ⟨hFirst.trans hSecond, hLeft⟩

theorem runCalls_stopped {calls : List OutputCall} {file : OutputFile} (hError : file.error = true) :
    (runCalls calls file).error = true ∧ (runCalls calls file).sent = file.sent := by
  induction calls generalizing file with
  | nil => exact ⟨hError, rfl⟩
  | cons call calls ih =>
      obtain ⟨hFirst, hSame⟩ := call.run_stopped hError
      obtain ⟨hLast, hSent⟩ := ih hFirst
      exact ⟨hLast, hSent.trans hSame⟩

/-- For all calls and however much the socket takes at a time: there is room for a character after
every call, and as long as there is no error, what was sent and what is in the buffer are all that
was written, in its order. Where the socket fails no call there is no error, and after an error
nothing more is sent. -/
theorem buffered_output_exact {outBufSize : Nat} (hSize : 0 < outBufSize) (memory : Nat → Char)
    (write : Nat → Option Nat) (calls : List OutputCall) :
    let file := runCalls calls (create outBufSize memory write)
    ((∀ call ∈ calls, call.Fits outBufSize) → file.outLength < outBufSize ∧
      (file.error = false → file.sent ++ file.buffered = calls.flatMap OutputCall.data) ∧
      ((∀ call, (write call).isSome = true) → file.error = false)) ∧
    ∀ more, file.error = true →
      (runCalls more file).error = true ∧ (runCalls more file).sent = file.sent := by
  intro file
  refine ⟨fun hFits => ?_, fun more hError => runCalls_stopped hError⟩
  obtain ⟨hWrites, hRoom⟩ := @runCalls_keeps calls (create outBufSize memory write) hSize hFits
  exact ⟨Nat.lt_of_lt_of_eq hRoom hWrites.outBufSize, hWrites.written,
    fun hAll => hWrites.served hAll rfl⟩

/-- A buffer of four characters; the socket takes one, two and then three characters at a time. -/
theorem buffered_output_exact_four :
    let file := runCalls [.string ['a', 'b', 'c', 'd', 'e'], .formatted ['x', 'y', 'z'],
      .block ['1', '2'], .char 'q'] (create 4 (fun _ => ' ') fun call => some (call % 3))
    file.error = false ∧ file.outLength < 4 ∧ file.sent ++ file.buffered =
      ['a', 'b', 'c', 'd', 'e', 'x', 'y', 'z', '1', '2', 'q'] := by
  obtain ⟨hRoom, hWritten, hServed⟩ := (@buffered_output_exact 4 (by decide) (fun _ => ' ')
    (fun call => some (call % 3)) [.string ['a', 'b', 'c', 'd', 'e'], .formatted ['x', 'y', 'z'],
      .block ['1', '2'], .char 'q']).1 (by simp [OutputCall.Fits])
  have hError := hServed fun _ => rfl
  exact ⟨hError, hRoom, hWritten hError⟩

end Server
