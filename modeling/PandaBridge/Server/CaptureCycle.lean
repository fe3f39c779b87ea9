import Mathlib.Data.List.Perm.Basic
import PandaBridge.Server.CaptureBuffer
import PandaBridge.Transition.System

/-! Captures and readers: the data thread, the clients that arm a capture and any number of
data connections, in any order. Readers are only counted by the buffer; here they are
listed, so that the counts can be compared with them. -/
namespace Server

open Transition

/-- Where the data thread stands: waiting for a capture, about to start the write, taking
data, or done with it but with the capture still enabled. -/
inductive DataThread
  | waiting
  | starting
  | capturing
  | finished
  deriving DecidableEq

/-- How far a client is in `arm_capture`, holding the mutex of the data thread. -/
inductive ArmPhase
  | locked
  | notEnabled
  | bufferIdle
  | fieldsPrepared
  deriving DecidableEq

/-- A data connection's reader; `opened` from a successful `open_reader` to the next
`close_reader`. -/
structure Reader where
  state : ReaderState
  opened : Bool

/-- The data server. `capturedFields` and `dataCapture` are the capture definition. -/
structure DataServer (Fields Capture : Type) where
  buffer : CaptureBuffer
  readers : List Reader
  thread : DataThread
  dataCaptureEnabled : Bool
  arming : Option ArmPhase
  capturedFields : Fields
  dataCapture : Capture

inductive DataEvent (Fields Capture : Type)
  | wake
  | startWrite
  | release (written : Nat)
  | endWrite
  | disable
  | armLock
  | armCheckEnabled
  | armCheckStatus
  | armClockFails
  | armPrepareFields (fields : Fields)
  | armPrepareCapture (capture : Capture) (ok : Bool)
  | createReader
  | openReader (index readMargin : Nat)
  | closeReader (index : Nat)
  | destroyReader (index : Nat)

variable {Fields Capture : Type} (blockCount : Nat)

/-- One step of the data server. A check of `arm_capture` that fails gives the mutex back. -/
def dataSystem : System (DataServer Fields Capture) (DataEvent Fields Capture)
  | server, .wake =>
      if server.thread = .waiting ∧ server.dataCaptureEnabled ∧ server.arming = none then
        some { server with thread := .starting }
      else none
  | server, .startWrite =>
      if server.thread = .starting then
        some { server with buffer := server.buffer.startWrite, thread := .capturing }
      else none
  | server, .release written =>
      if server.thread = .capturing then
        some { server with buffer := server.buffer.releaseWriteBlock blockCount written }
      else none
  | server, .endWrite =>
      if server.thread = .capturing then
        some { server with buffer := server.buffer.endWrite, thread := .finished }
      else none
  | server, .disable =>
      if server.thread = .finished ∧ server.arming = none then
        some { server with dataCaptureEnabled := false, thread := .waiting }
      else none
  | server, .armLock =>
      if server.arming = none then some { server with arming := some .locked } else none
  | server, .armCheckEnabled =>
      if server.arming = some .locked then
        some { server with
          arming := if server.dataCaptureEnabled then none else some .notEnabled }
      else none
  | server, .armCheckStatus =>
      if server.arming = some .notEnabled then
        let status := server.buffer.readBufferStatus
        some { server with arming := if status.1 ∨ status.2 ≠ 0 then none else some .bufferIdle }
      else none
  | server, .armClockFails =>
      if server.arming = some .bufferIdle then some { server with arming := none } else none
  | server, .armPrepareFields fields =>
      if server.arming = some .bufferIdle then
        some { server with arming := some .fieldsPrepared, capturedFields := fields }
      else none
  | server, .armPrepareCapture capture ok =>
      if server.arming = some .fieldsPrepared then
        some { server with
          arming := none
          dataCapture := capture
          dataCaptureEnabled := server.dataCaptureEnabled || ok }
      else none
  | server, .createReader =>
      some { server with
        buffer := server.buffer.addReader
        readers := server.readers ++ [⟨.createReader server.buffer.captureCycle, false⟩] }
  | server, .openReader index readMargin =>
      server.readers[index]?.map fun reader =>
        match reader.state.openReader blockCount server.buffer readMargin with
        | some opened => { server with readers := server.readers.set index ⟨opened.1, true⟩ }
        | none => server
  | server, .closeReader index =>
      server.readers[index]?.bind fun reader =>
        if reader.opened then
          some { server with
            buffer := server.buffer.completeCapture
            readers := server.readers.set index ⟨reader.state.closeReader, false⟩ }
        else none
  | server, .destroyReader index =>
      server.readers[index]?.map fun reader =>
        { server with
          buffer := server.buffer.removeReader reader.state.captureCycle
          readers := server.readers.eraseIdx index }

/-- The server after `initialise_data_server`. -/
def initialServer (fields : Fields) (capture : Capture) : DataServer Fields Capture where
  buffer := .createBuffer
  readers := []
  thread := .waiting
  dataCaptureEnabled := false
  arming := none
  capturedFields := fields
  dataCapture := capture

/-- The reader still has the buffer's capture before it. -/
def Reader.atCycle (cycle : BitVec 32) (reader : Reader) : Bool :=
  reader.state.captureCycle == cycle

/-- What the buffer's counts say of the readers. Only a reader at the buffer's cycle can be
open. -/
structure Counted (buffer : CaptureBuffer) (readers : List Reader) : Prop where
  readerCount : buffer.readerCount = readers.length
  idle : buffer.state = .idle → buffer.activeCount = 0 ∧
    ∀ reader ∈ readers, reader.state.captureCycle = buffer.captureCycle ∧ reader.opened = false
  busy : buffer.state ≠ .idle →
    buffer.activeCount = readers.countP (Reader.atCycle buffer.captureCycle) ∧
    ∀ reader ∈ readers,
      (reader.state.captureCycle = buffer.captureCycle ∨
        reader.state.captureCycle = buffer.captureCycle + 1 ∧ reader.opened = false)

namespace Counted

variable {buffer : CaptureBuffer} {readers : List Reader} (h : Counted buffer readers)

include h

theorem activeCount_pos {reader : Reader} (hReader : reader ∈ readers)
    (hBusy : buffer.state ≠ .idle) (hCycle : reader.state.captureCycle = buffer.captureCycle) :
    0 < buffer.activeCount := by
  rw [(h.busy hBusy).1, List.countP_pos_iff]
  exact ⟨reader, hReader, by simpa [Reader.atCycle] using hCycle⟩

theorem of_opened {reader : Reader} (hReader : reader ∈ readers) (hOpened : reader.opened = true) :
    buffer.state ≠ .idle ∧ reader.state.captureCycle = buffer.captureCycle := by
  have hBusy : buffer.state ≠ .idle := by
    intro hIdle
    exact absurd hOpened (by simp [((h.idle hIdle).2 reader hReader).2])
  refine ⟨hBusy, ((h.busy hBusy).2 reader hReader).elim id fun hDone => ?_⟩
  exact absurd hOpened (by simp [hDone.2])

theorem startWrite (hIdle : buffer.state = .idle) : Counted buffer.startWrite readers := by
  have hCycle : readers.countP (Reader.atCycle buffer.captureCycle) = readers.length := by
    rw [List.countP_eq_length]
    intro reader hReader
    simp [Reader.atCycle, ((h.idle hIdle).2 reader hReader).1]
  refine ⟨h.readerCount, nofun, fun _ => ⟨h.readerCount.trans hCycle.symm, ?_⟩⟩
  intro reader hReader
  exact .inl ((h.idle hIdle).2 reader hReader).1

/-- With no reader left at its cycle the buffer goes idle on the next one. -/
theorem advanceCapture (hBusy : buffer.state ≠ .idle) (hNone : buffer.activeCount = 0) :
    Counted buffer.advanceCapture readers := by
  obtain ⟨hActive, hReaders⟩ := h.busy hBusy
  refine ⟨h.readerCount, fun _ => ⟨hNone, ?_⟩, fun hOther => absurd rfl hOther⟩
  intro reader hReader
  have hDone : ¬reader.atCycle buffer.captureCycle := by
    rw [hNone, eq_comm, List.countP_eq_zero] at hActive
    exact hActive reader hReader
  exact (hReaders reader hReader).elim
    (fun hCycle => absurd hCycle (by simpa [Reader.atCycle] using hDone)) id

theorem endWrite (hBusy : buffer.state ≠ .idle) : Counted buffer.endWrite readers := by
  unfold CaptureBuffer.endWrite
  split_ifs with hActive
  · exact ⟨h.readerCount, nofun, fun _ => h.busy hBusy⟩
  · exact h.advanceCapture hBusy (by omega)

theorem addReader :
    Counted buffer.addReader (readers ++ [⟨.createReader buffer.captureCycle, false⟩]) := by
  refine ⟨by simp [CaptureBuffer.addReader, h.readerCount], fun hIdle => ?_, fun hBusy => ?_⟩
  · obtain ⟨hActive, hReaders⟩ := h.idle hIdle
    refine ⟨?_, ?_⟩
    · exact (if_neg (not_not.mpr hIdle)).trans hActive
    · intro reader hReader
      rcases List.mem_append.mp hReader with hOld | hNew
      · exact hReaders reader hOld
      · obtain rfl := List.mem_singleton.mp hNew
        exact ⟨rfl, rfl⟩
  · obtain ⟨hActive, hReaders⟩ := h.busy hBusy
    refine ⟨?_, ?_⟩
    · rw [List.countP_append, List.countP_singleton]
      exact (if_pos hBusy).trans (by simp [CaptureBuffer.addReader, hActive, Reader.atCycle,
        ReaderState.createReader])
    · intro reader hReader
      rcases List.mem_append.mp hReader with hOld | hNew
      · exact hReaders reader hOld
      · obtain rfl := List.mem_singleton.mp hNew
        exact .inl rfl

end Counted

/-- One active reader less: the buffer counts it off, and goes idle with the last one. -/
theorem Counted.completeCapture {buffer : CaptureBuffer} {readers : List Reader}
    (hBusy : buffer.state ≠ .idle) (hCount : buffer.readerCount = readers.length)
    (hActive : buffer.activeCount = readers.countP (Reader.atCycle buffer.captureCycle) + 1)
    (hReaders : ∀ reader ∈ readers, reader.state.captureCycle = buffer.captureCycle ∨
      reader.state.captureCycle = buffer.captureCycle + 1 ∧ reader.opened = false) :
    Counted buffer.completeCapture readers := by
  have hLess : Counted { buffer with activeCount := buffer.activeCount - 1 } readers :=
    ⟨hCount, fun hIdle => absurd hIdle hBusy, fun _ => ⟨by simp [hActive], hReaders⟩⟩
  unfold CaptureBuffer.completeCapture
  simp only
  split_ifs with hLast
  · exact hLess.advanceCapture hBusy hLast.1
  · exact hLess

namespace Counted

variable {buffer : CaptureBuffer} {readers : List Reader} (h : Counted buffer readers)
variable {index : Nat} {reader : Reader} (hReader : readers[index]? = some reader)

include h hReader

theorem openReader {blockCount readMargin : Nat} {opened : ReaderState × Nat}
    (hOpened : reader.state.openReader blockCount buffer readMargin = some opened) :
    Counted buffer (readers.set index ⟨opened.1, true⟩) := by
  unfold ReaderState.openReader at hOpened
  split_ifs at hOpened with hReady
  simp only [ReaderState.ready, Bool.and_eq_true, decide_eq_true_eq, beq_iff_eq] at hReady
  obtain ⟨⟨hBusy, hCycle⟩, _⟩ := hReady
  have hNew : opened.1.captureCycle = buffer.captureCycle := by
    rw [← Option.some.inj hOpened]
  obtain ⟨hIndex, hGet⟩ := List.getElem?_eq_some_iff.mp hReader
  obtain ⟨hActive, hReaders⟩ := h.busy hBusy
  refine ⟨by simp [h.readerCount], fun hIdle => absurd hIdle hBusy, fun _ => ⟨?_, ?_⟩⟩
  · have hPos := h.activeCount_pos (List.mem_of_getElem? hReader) hBusy hCycle.symm
    have hOld : reader.atCycle buffer.captureCycle := by simp [Reader.atCycle, hCycle]
    have hSame : Reader.atCycle buffer.captureCycle ⟨opened.1, true⟩ := by
      simp [Reader.atCycle, hNew]
    rw [List.countP_set hIndex, hGet, if_pos hOld, if_pos hSame, hActive]
    omega
  · intro other hOther
    rcases List.mem_or_eq_of_mem_set hOther with hOld | rfl
    · exact hReaders other hOld
    · exact .inl hNew

theorem closeReader (hOpened : reader.opened = true) :
    Counted buffer.completeCapture (readers.set index ⟨reader.state.closeReader, false⟩) := by
  obtain ⟨hBusy, hCycle⟩ := h.of_opened (List.mem_of_getElem? hReader) hOpened
  obtain ⟨hIndex, hGet⟩ := List.getElem?_eq_some_iff.mp hReader
  obtain ⟨hActive, hReaders⟩ := h.busy hBusy
  have hPos := h.activeCount_pos (List.mem_of_getElem? hReader) hBusy hCycle
  apply Counted.completeCapture hBusy (by simp [h.readerCount])
  · have hOld : reader.atCycle buffer.captureCycle := by simp [Reader.atCycle, hCycle]
    have hPast : ¬Reader.atCycle buffer.captureCycle ⟨reader.state.closeReader, false⟩ := by
      simp [Reader.atCycle, ReaderState.closeReader, hCycle]
    rw [List.countP_set hIndex, hGet, if_pos hOld, if_neg hPast, hActive]
    omega
  · intro other hOther
    rcases List.mem_or_eq_of_mem_set hOther with hOld | rfl
    · exact hReaders other hOld
    · exact .inr ⟨by rw [ReaderState.closeReader, hCycle], rfl⟩

theorem removeReader :
    Counted (buffer.removeReader reader.state.captureCycle) (readers.eraseIdx index) := by
  obtain ⟨hIndex, hGet⟩ := List.getElem?_eq_some_iff.mp hReader
  have hLength : buffer.readerCount - 1 = (readers.eraseIdx index).length := by
    rw [List.length_eraseIdx_of_lt hIndex, h.readerCount]
  have hCounts := (List.getElem_cons_eraseIdx_perm hIndex).countP_eq
    (Reader.atCycle buffer.captureCycle)
  rw [hGet, List.countP_cons] at hCounts
  have hKept : ∀ other ∈ readers.eraseIdx index, other ∈ readers := fun other =>
    List.mem_of_mem_eraseIdx
  unfold CaptureBuffer.removeReader
  simp only
  split_ifs with hHere
  · obtain ⟨hBusy, hCycle⟩ := hHere
    obtain ⟨hActive, hReaders⟩ := h.busy hBusy
    have hOld : reader.atCycle buffer.captureCycle := by simp [Reader.atCycle, hCycle]
    rw [if_pos hOld, ← hActive] at hCounts
    exact Counted.completeCapture hBusy hLength hCounts.symm
      fun other hOther => hReaders other (hKept other hOther)
  · refine ⟨hLength, fun hIdle => ?_, fun hBusy => ?_⟩
    · obtain ⟨hActive, hReaders⟩ := h.idle hIdle
      exact ⟨hActive, fun other hOther => hReaders other (hKept other hOther)⟩
    · obtain ⟨hActive, hReaders⟩ := h.busy hBusy
      have hPast : ¬reader.atCycle buffer.captureCycle := by
        intro hCycle
        exact hHere ⟨hBusy, (beq_iff_eq.mp hCycle).symm⟩
      rw [if_neg hPast] at hCounts
      exact ⟨hActive.trans hCounts.symm, fun other hOther => hReaders other (hKept other hOther)⟩

end Counted

/-- What the place of the data thread and of an arming client says of the buffer. -/
structure Scheduled (server : DataServer Fields Capture) : Prop where
  enabled : server.thread ≠ .waiting → server.dataCaptureEnabled = true
  armed : server.thread = .waiting ∧ server.dataCaptureEnabled = true ∨ server.thread = .starting →
    server.buffer.state = .idle
  capturing : server.thread = .capturing ↔ server.buffer.state = .active
  notEnabled : server.arming ≠ none → server.arming ≠ some .locked →
    server.dataCaptureEnabled = false
  bufferIdle : server.arming = some .bufferIdle ∨ server.arming = some .fieldsPrepared →
    server.buffer.state = .idle

/-- The invariant of the data server. -/
structure InOrder (server : DataServer Fields Capture) : Prop where
  counted : Counted server.buffer server.readers
  scheduled : Scheduled server

/-- A reader's operation leaves the state of the buffer, or ends its clearing. -/
def Settles (before after : BufferState) : Prop :=
  after = before ∨ before = .clearing ∧ after = .idle

theorem settles_completeCapture (buffer : CaptureBuffer) :
    Settles buffer.state buffer.completeCapture.state := by
  unfold CaptureBuffer.completeCapture
  simp only
  split_ifs with hLast
  · exact .inr ⟨hLast.2, rfl⟩
  · exact .inl rfl

theorem settles_removeReader (buffer : CaptureBuffer) (cycle : BitVec 32) :
    Settles buffer.state (buffer.removeReader cycle).state := by
  unfold CaptureBuffer.removeReader
  simp only
  split_ifs
  · exact settles_completeCapture _
  · exact .inl rfl

namespace InOrder

variable {server : DataServer Fields Capture} (h : InOrder server)

include h

theorem reader {buffer : CaptureBuffer} {readers : List Reader} (hCounted : Counted buffer readers)
    (hState : Settles server.buffer.state buffer.state) :
    InOrder { server with buffer, readers } := by
  have hScheduled := h.scheduled
  refine ⟨hCounted, hScheduled.enabled, fun hArmed => ?_, ?_, hScheduled.notEnabled, fun hArm => ?_⟩
  · have hIdle := hScheduled.armed hArmed
    rcases hState with hSame | ⟨hClearing, hNow⟩
    · exact hSame.trans hIdle
    · exact hNow
  · rw [hScheduled.capturing]
    rcases hState with hSame | ⟨hClearing, hNow⟩
    · rw [hSame]
    · simp [hClearing, hNow]
  · have hIdle := hScheduled.bufferIdle hArm
    rcases hState with hSame | ⟨hClearing, hNow⟩
    · exact hSame.trans hIdle
    · exact hNow

/-- A thread that is not capturing meets a buffer that is not active, and the other way. -/
theorem not_idle (hThread : server.thread = .capturing) : server.buffer.state ≠ .idle := by
  rw [h.scheduled.capturing.mp hThread]
  exact nofun

theorem waiting_of_arming (hArming : server.arming ≠ none) (hLocked : server.arming ≠ some .locked) :
    server.thread = .waiting := by
  by_contra hThread
  have hEnabled := h.scheduled.enabled hThread
  rw [h.scheduled.notEnabled hArming hLocked] at hEnabled
  exact absurd hEnabled Bool.false_ne_true

end InOrder

theorem InOrder.step {server next : DataServer Fields Capture} {event : DataEvent Fields Capture}
    (h : InOrder server) (hStep : dataSystem blockCount server event = some next) :
    InOrder next := by
  obtain ⟨hCounted, hScheduled⟩ := id h
  cases event with
  | wake =>
      simp only [dataSystem, Option.ite_none_right_eq_some, Option.some.injEq] at hStep
      obtain ⟨⟨hThread, hEnabled, hArming⟩, rfl⟩ := hStep
      have hIdle := hScheduled.armed (.inl ⟨hThread, hEnabled⟩)
      exact ⟨hCounted, fun _ => hEnabled, fun _ => hIdle, by simp [hIdle], hScheduled.notEnabled,
        hScheduled.bufferIdle⟩
  | startWrite =>
      simp only [dataSystem, Option.ite_none_right_eq_some, Option.some.injEq] at hStep
      obtain ⟨hThread, rfl⟩ := hStep
      have hEnabled := hScheduled.enabled (by rw [hThread]; exact nofun)
      refine ⟨hCounted.startWrite (hScheduled.armed (.inr hThread)), fun _ => hEnabled, nofun, ?_,
        hScheduled.notEnabled, fun hArm => ?_⟩
      · exact ⟨fun _ => rfl, fun _ => rfl⟩
      · change server.arming = some .bufferIdle ∨ server.arming = some .fieldsPrepared at hArm
        have hWaiting := h.waiting_of_arming (by rcases hArm with hArm | hArm <;> simp [hArm])
          (by rcases hArm with hArm | hArm <;> simp [hArm])
        exact absurd (hThread.symm.trans hWaiting) nofun
  | release written =>
      simp only [dataSystem, Option.ite_none_right_eq_some, Option.some.injEq] at hStep
      obtain ⟨hThread, rfl⟩ := hStep
      exact ⟨⟨hCounted.readerCount, hCounted.idle, hCounted.busy⟩, hScheduled.enabled,
        hScheduled.armed, hScheduled.capturing, hScheduled.notEnabled, hScheduled.bufferIdle⟩
  | endWrite =>
      simp only [dataSystem, Option.ite_none_right_eq_some, Option.some.injEq] at hStep
      obtain ⟨hThread, rfl⟩ := hStep
      have hEnabled := hScheduled.enabled (by rw [hThread]; exact nofun)
      refine ⟨hCounted.endWrite (h.not_idle hThread), fun _ => hEnabled, by simp, ?_,
        hScheduled.notEnabled, fun hArm => ?_⟩
      · unfold CaptureBuffer.endWrite CaptureBuffer.advanceCapture
        split_ifs <;> simp
      · exact absurd (hScheduled.bufferIdle hArm) (h.not_idle hThread)
  | disable =>
      simp only [dataSystem, Option.ite_none_right_eq_some, Option.some.injEq] at hStep
      obtain ⟨⟨hThread, hArming⟩, rfl⟩ := hStep
      have hQuiet : server.buffer.state ≠ .active := by
        rw [ne_eq, ← hScheduled.capturing, hThread]
        exact nofun
      exact ⟨hCounted, fun hOther => absurd rfl hOther, by simp, by simp [hQuiet], fun _ _ => rfl,
        hScheduled.bufferIdle⟩
  | armLock =>
      simp only [dataSystem, Option.ite_none_right_eq_some, Option.some.injEq] at hStep
      obtain ⟨hArming, rfl⟩ := hStep
      exact ⟨hCounted, hScheduled.enabled, hScheduled.armed, hScheduled.capturing,
        fun _ hLocked => absurd rfl hLocked, by simp⟩
  | armCheckEnabled =>
      simp only [dataSystem, Option.ite_none_right_eq_some, Option.some.injEq] at hStep
      obtain ⟨hArming, rfl⟩ := hStep
      refine ⟨hCounted, hScheduled.enabled, hScheduled.armed, hScheduled.capturing, ?_, ?_⟩
      · cases server.dataCaptureEnabled <;> simp
      · cases server.dataCaptureEnabled <;> simp
  | armCheckStatus =>
      simp only [dataSystem, Option.ite_none_right_eq_some, Option.some.injEq] at hStep
      obtain ⟨hArming, rfl⟩ := hStep
      refine ⟨hCounted, hScheduled.enabled, hScheduled.armed, hScheduled.capturing, fun _ _ => ?_, ?_⟩
      · exact hScheduled.notEnabled (by simp [hArming]) (by simp [hArming])
      · intro hArm
        by_contra hBusy
        have hStatus : server.buffer.readBufferStatus.1 = true := by
          simpa [CaptureBuffer.readBufferStatus] using hBusy
        simp [hStatus] at hArm
  | armClockFails =>
      simp only [dataSystem, Option.ite_none_right_eq_some, Option.some.injEq] at hStep
      obtain ⟨hArming, rfl⟩ := hStep
      exact ⟨hCounted, hScheduled.enabled, hScheduled.armed, hScheduled.capturing,
        fun hNone => absurd rfl hNone, by simp⟩
  | armPrepareFields fields =>
      simp only [dataSystem, Option.ite_none_right_eq_some, Option.some.injEq] at hStep
      obtain ⟨hArming, rfl⟩ := hStep
      have hDisabled := hScheduled.notEnabled (by simp [hArming]) (by simp [hArming])
      exact ⟨hCounted, hScheduled.enabled, hScheduled.armed, hScheduled.capturing,
        fun _ _ => hDisabled, fun _ => hScheduled.bufferIdle (.inl hArming)⟩
  | armPrepareCapture capture ok =>
      simp only [dataSystem, Option.ite_none_right_eq_some, Option.some.injEq] at hStep
      obtain ⟨hArming, rfl⟩ := hStep
      have hThread := h.waiting_of_arming (by simp [hArming]) (by simp [hArming])
      exact ⟨hCounted, fun hOther => absurd hThread hOther,
        fun _ => hScheduled.bufferIdle (.inr hArming), hScheduled.capturing,
        fun hNone => absurd rfl hNone, by simp⟩
  | createReader =>
      obtain rfl : _ = next := by simpa [dataSystem] using hStep
      exact h.reader hCounted.addReader (.inl rfl)
  | openReader index readMargin =>
      simp only [dataSystem, Option.map_eq_some_iff] at hStep
      obtain ⟨reader, hReader, rfl⟩ := hStep
      cases hOpened : reader.state.openReader blockCount server.buffer readMargin with
      | none => exact h
      | some opened => exact h.reader (hCounted.openReader hReader hOpened) (.inl rfl)
  | closeReader index =>
      simp only [dataSystem, Option.bind_eq_some_iff, Option.ite_none_right_eq_some,
        Option.some.injEq] at hStep
      obtain ⟨reader, hReader, hOpened, rfl⟩ := hStep
      exact h.reader (hCounted.closeReader hReader hOpened) (settles_completeCapture _)
  | destroyReader index =>
      simp only [dataSystem, Option.map_eq_some_iff] at hStep
      obtain ⟨reader, hReader, rfl⟩ := hStep
      exact h.reader (hCounted.removeReader hReader) (settles_removeReader _ _)

theorem InOrder.definition_kept {server next : DataServer Fields Capture}
    {event : DataEvent Fields Capture} (h : InOrder server)
    (hStep : dataSystem blockCount server event = some next)
    (hBusy : server.buffer.state ≠ .idle) :
    next.capturedFields = server.capturedFields ∧ next.dataCapture = server.dataCapture := by
  cases event with
  | armPrepareFields fields =>
      simp only [dataSystem, Option.ite_none_right_eq_some] at hStep
      exact absurd (h.scheduled.bufferIdle (.inl hStep.1)) hBusy
  | armPrepareCapture capture ok =>
      simp only [dataSystem, Option.ite_none_right_eq_some] at hStep
      exact absurd (h.scheduled.bufferIdle (.inr hStep.1)) hBusy
  | createReader =>
      obtain rfl : _ = next := by simpa [dataSystem] using hStep
      exact ⟨rfl, rfl⟩
  | openReader index readMargin =>
      simp only [dataSystem, Option.map_eq_some_iff] at hStep
      obtain ⟨reader, _, rfl⟩ := hStep
      cases reader.state.openReader blockCount server.buffer readMargin with
      | none => exact ⟨rfl, rfl⟩
      | some opened => exact ⟨rfl, rfl⟩
  | closeReader index =>
      simp only [dataSystem, Option.bind_eq_some_iff, Option.ite_none_right_eq_some,
        Option.some.injEq] at hStep
      obtain ⟨reader, _, _, rfl⟩ := hStep
      exact ⟨rfl, rfl⟩
  | destroyReader index =>
      simp only [dataSystem, Option.map_eq_some_iff] at hStep
      obtain ⟨reader, _, rfl⟩ := hStep
      exact ⟨rfl, rfl⟩
  | _ =>
      simp only [dataSystem, Option.ite_none_right_eq_some, Option.some.injEq] at hStep
      obtain ⟨_, rfl⟩ := hStep
      exact ⟨rfl, rfl⟩

theorem InOrder.initial (fields : Fields) (capture : Capture) :
    InOrder (initialServer fields capture) :=
  ⟨⟨rfl, fun _ => ⟨rfl, nofun⟩, fun hBusy => absurd rfl hBusy⟩,
    ⟨fun hOther => absurd rfl hOther, fun _ => rfl, ⟨nofun, nofun⟩, fun _ _ => rfl,
      by simp [initialServer]⟩⟩

/-- The reader and capture cycle invariant, in every state the data server can reach. Of
the steps from it: a capture starts on an idle buffer, a count is only taken down from a
positive value, and the capture definition changes only while no reader is open. -/
theorem capture_cycle_invariant (fields : Fields) (capture : Capture)
    (server : DataServer Fields Capture)
    (hReachable : (dataSystem blockCount).Reachable (initialServer fields capture) server) :
    (server.buffer.state = .idle → server.buffer.activeCount = 0 ∧
        ∀ reader ∈ server.readers, reader.state.captureCycle = server.buffer.captureCycle) ∧
      (server.buffer.state ≠ .idle →
        (∀ reader ∈ server.readers, reader.state.captureCycle = server.buffer.captureCycle ∨
          reader.state.captureCycle = server.buffer.captureCycle + 1) ∧
        server.buffer.activeCount = server.readers.countP fun reader =>
          reader.state.captureCycle == server.buffer.captureCycle) ∧
      (∀ reader ∈ server.readers, 0 < server.buffer.readerCount ∧
        (reader.opened = true → 0 < server.buffer.activeCount) ∧
        (server.buffer.state ≠ .idle →
          server.buffer.captureCycle = reader.state.captureCycle → 0 < server.buffer.activeCount)) ∧
      (dataSystem blockCount server .startWrite ≠ none →
        server.buffer.state = .idle ∧ server.buffer.activeCount = 0) ∧
      ∀ event next, dataSystem blockCount server event = some next →
        (∃ reader ∈ server.readers, reader.opened = true) →
        next.capturedFields = server.capturedFields ∧ next.dataCapture = server.dataCapture := by
  have h : InOrder server := hReachable.invariant InOrder (.initial fields capture)
    fun _ _ _ hInOrder hStep => hInOrder.step blockCount hStep
  refine ⟨fun hIdle => ?_, fun hBusy => ?_, fun reader hReader => ⟨?_, ?_, ?_⟩, ?_, ?_⟩
  · obtain ⟨hActive, hReaders⟩ := h.counted.idle hIdle
    exact ⟨hActive, fun reader hReader => (hReaders reader hReader).1⟩
  · obtain ⟨hActive, hReaders⟩ := h.counted.busy hBusy
    exact ⟨fun reader hReader => (hReaders reader hReader).imp id And.left, hActive⟩
  · rw [h.counted.readerCount]
    exact List.length_pos_of_mem hReader
  · intro hOpened
    obtain ⟨hBusy, hCycle⟩ := h.counted.of_opened hReader hOpened
    exact h.counted.activeCount_pos hReader hBusy hCycle
  · intro hBusy hCycle
    exact h.counted.activeCount_pos hReader hBusy hCycle.symm
  · intro hStart
    have hThread : server.thread = .starting := by
      by_contra hOther
      exact hStart (if_neg hOther)
    have hIdle := h.scheduled.armed (.inr hThread)
    exact ⟨hIdle, (h.counted.idle hIdle).1⟩
  · intro event next hStep hOpened
    obtain ⟨reader, hReader, hOpened⟩ := hOpened
    exact h.definition_kept blockCount hStep (h.counted.of_opened hReader hOpened).1

/-- One connection that opens a capture, and one that comes later. -/
def openingEvents : List (DataEvent Unit Unit) :=
  [.createReader, .armLock, .armCheckEnabled, .armCheckStatus, .armPrepareFields (),
    .armPrepareCapture () true, .wake, .startWrite, .release 8, .openReader 0 1, .createReader]

def openedServer : DataServer Unit Unit :=
  ((dataSystem 4).run openingEvents (initialServer () ())).getD (initialServer () ())

theorem capture_cycle_invariant_opened :
    openedServer.buffer.state = .active ∧ openedServer.buffer.activeCount = 2 ∧
      openedServer.buffer.activeCount = openedServer.readers.countP fun reader =>
        reader.state.captureCycle == openedServer.buffer.captureCycle := by
  have hBusy := (capture_cycle_invariant 4 () () openedServer ⟨openingEvents, rfl⟩).2.1 (by decide)
  exact ⟨by decide, by decide, hBusy.2⟩

end Server
