import PandaBridge.Server.RingReader

/-! One capture and one reader's calls of `get_read_block`, at the granularity of the
critical sections: the reader delivers the released blocks in order, or reports an
overrun. -/
namespace Server

open Transition

/-- Where the reader is: before `open_reader`, between its calls, in the wait of
`get_read_block`, before its check, or before it reads the length. -/
inductive ReadPhase
  | unopened
  | between
  | waiting
  | checking (cycle : BitVec 32) (outPtr : Nat)
  | measuring (outPtr : Nat)
  deriving DecidableEq

/-- The ring and one reader. `lengths` records the blocks of the capture, `start` the index
at which the reader was opened, and `results` what its calls returned. -/
structure RingSession where
  buffer : CaptureBuffer
  reader : ReaderState
  phase : ReadPhase
  start : Nat
  lengths : List Nat
  results : List ReadResult

inductive RingEvent
  | release (written : Nat)
  | endWrite
  | openReader (readMargin : Nat)
  | call
  | poll (timedOut : Bool)
  | check
  | measure
  | checkReadBlock

namespace RingSession

/-- The blocks among the results. -/
def delivered (session : RingSession) : List (Nat × Nat) :=
  session.results.filterMap fun
    | .block slot length => some (slot, length)
    | .timeout => none
    | .null => none

/-- A call ends with this result. -/
def finish (session : RingSession) (result : ReadResult) : RingSession :=
  { session with phase := .between, results := session.results ++ [result] }

/-- The last call returned a block. -/
def holdsBlock (session : RingSession) : Bool :=
  match session.results.getLast? with
  | some (.block _ _) => true
  | _ => false

end RingSession

variable (blockCount : Nat)

/-- One step of the writer or of the reader. -/
def ringSystem : System RingSession RingEvent
  | session, .release written =>
      if session.buffer.state = .active then
        some { session with
          buffer := session.buffer.releaseWriteBlock blockCount written
          lengths := session.lengths ++ [written] }
      else none
  | session, .endWrite =>
      if session.buffer.state = .active then
        some { session with buffer := session.buffer.endWrite }
      else none
  | session, .openReader readMargin =>
      if session.phase = .unopened ∧ readMargin < blockCount then
        (session.reader.openReader blockCount session.buffer readMargin).map fun opened =>
          { session with
            reader := opened.1
            phase := .between
            start := opened.1.bufferCycle.toNat * blockCount + opened.1.outPtr }
      else none
  | session, .call =>
      if session.phase = .between then
        if session.reader.status ≠ .closed then some (session.finish .null)
        else some { session with phase := .waiting }
      else none
  | session, .poll timedOut =>
      if session.phase = .waiting then
        if session.reader.waiting session.buffer then
          if session.buffer.state = .clearing then
            some ({ session with
              reader := { session.reader with status := .allRead } }.finish .null)
          else if timedOut then some (session.finish .timeout)
          else some session
        else
          some { session with
            reader := session.reader.advance blockCount
            phase := .checking session.reader.bufferCycle session.reader.outPtr }
      else none
  | session, .check =>
      match session.phase with
      | .checking cycle outPtr =>
          let checked := session.reader.checkBlockStatus session.buffer cycle outPtr
          if checked.2 then some { session with reader := checked.1, phase := .measuring outPtr }
          else some ({ session with reader := checked.1 }.finish .null)
      | _ => none
  | session, .measure =>
      match session.phase with
      | .measuring outPtr => some (session.finish (.block outPtr (session.buffer.written outPtr)))
      | _ => none
  | session, .checkReadBlock =>
      if session.phase = .between ∧ session.reader.status = .closed ∧ session.holdsBlock then
        some { session with reader := (session.reader.checkReadBlock blockCount session.buffer).1 }
      else none

/-- A capture that has just started with this reader connected. -/
def ringStart (buffer : CaptureBuffer) (reader : ReaderState) : RingSession where
  buffer := buffer.startWrite
  reader := reader
  phase := .unopened
  start := 0
  lengths := []
  results := []

/-- Where the reader stands in a capture of `total` blocks so far, when `next` is the index
of the block it is to deliver. -/
def Standing (phase : ReadPhase) (reader : ReaderState) (next total : Nat) (state : BufferState) :
    Prop :=
  match phase with
  | .unopened => next = 0
  | .between => next ≤ total ∧
      (reader.status = .closed → Points blockCount reader.bufferCycle reader.outPtr next) ∧
      (reader.status = .allRead → next = total ∧ state = .clearing)
  | .waiting => reader.status = .closed ∧ next ≤ total ∧
      Points blockCount reader.bufferCycle reader.outPtr next
  | .checking cycle outPtr => reader.status = .closed ∧ next < total ∧
      Points blockCount cycle outPtr next ∧
      Points blockCount reader.bufferCycle reader.outPtr (next + 1)
  | .measuring outPtr => reader.status = .closed ∧ next < total ∧ outPtr = next % blockCount ∧
      Points blockCount reader.bufferCycle reader.outPtr (next + 1)

/-- The invariant of a session. -/
structure InSession (session : RingSession) : Prop where
  holds : Holds blockCount session.buffer session.lengths
  busy : session.buffer.state ≠ .idle
  active : 0 < session.buffer.activeCount
  standing : Standing blockCount session.phase session.reader
    (session.start + session.delivered.length) session.lengths.length session.buffer.state
  delivered : ∀ k slot length, session.delivered[k]? = some (slot, length) →
    slot = (session.start + k) % blockCount ∧ session.lengths[session.start + k]? = some length

/-- When the length of a block is read, the block that takes its slot is not yet released. -/
def MeasuresInTime (session : RingSession) : RingEvent → Prop
  | .measure => session.lengths.length ≤
      session.start + session.delivered.length + blockCount
  | _ => True

instance MeasuresInTime.decidable (session : RingSession) :
    (event : RingEvent) → Decidable (MeasuresInTime blockCount session event)
  | .measure => inferInstanceAs (Decidable (_ ≤ _))
  | .release _ | .endWrite | .openReader _ | .call | .poll _ | .check | .checkReadBlock =>
      isTrue trivial

variable {blockCount}

namespace RingSession

variable (session : RingSession)

@[simp] theorem delivered_finish_block (slot length : Nat) :
    (session.finish (.block slot length)).delivered = session.delivered ++ [(slot, length)] := by
  simp [delivered, finish]

@[simp] theorem delivered_finish_timeout :
    (session.finish .timeout).delivered = session.delivered := by
  simp [delivered, finish]

@[simp] theorem delivered_finish_null : (session.finish .null).delivered = session.delivered := by
  simp [delivered, finish]

theorem delivered_pos (hBlock : session.holdsBlock = true) : 0 < session.delivered.length := by
  unfold holdsBlock at hBlock
  split at hBlock
  · rename_i slot length hLast
    apply List.length_pos_of_mem
    exact List.mem_filterMap.mpr ⟨.block slot length, List.mem_of_getLast? hLast, rfl⟩
  · exact absurd hBlock Bool.false_ne_true

end RingSession

/-- More blocks from a writer that is still active leave the reader where it is. -/
theorem Standing.release {phase : ReadPhase} {reader : ReaderState} {next total : Nat}
    (h : Standing blockCount phase reader next total .active) :
    Standing blockCount phase reader next (total + 1) .active := by
  cases phase with
  | unopened => exact h
  | between =>
      obtain ⟨hLe, hClosed, hAllRead⟩ := h
      exact ⟨by omega, hClosed, fun hStatus => absurd (hAllRead hStatus).2 nofun⟩
  | waiting => exact ⟨h.1, by have := h.2.1; omega, h.2.2⟩
  | checking cycle outPtr => exact ⟨h.1, by have := h.2.1; omega, h.2.2⟩
  | measuring outPtr => exact ⟨h.1, by have := h.2.1; omega, h.2.2⟩

theorem Standing.endWrite {phase : ReadPhase} {reader : ReaderState} {next total : Nat}
    (h : Standing blockCount phase reader next total .active) :
    Standing blockCount phase reader next total .clearing := by
  cases phase with
  | unopened => exact h
  | between => exact ⟨h.1, h.2.1, fun hStatus => absurd (h.2.2 hStatus).2 nofun⟩
  | waiting => exact h
  | checking cycle outPtr => exact h
  | measuring outPtr => exact h

theorem openReader_points (hCount : 0 < blockCount) {buffer : CaptureBuffer} {lengths : List Nat}
    (hHolds : Holds blockCount buffer lengths) (hCycles : InCycles blockCount lengths.length)
    {readMargin : Nat} (hMargin : readMargin < blockCount) {reader : ReaderState}
    {opened : ReaderState × Nat}
    (hOpened : reader.openReader blockCount buffer readMargin = some opened) :
    ∃ index ≤ lengths.length,
      (Points blockCount opened.1.bufferCycle opened.1.outPtr index ∧ opened.1.status = .closed) ∧
      opened.1.bufferCycle.toNat * blockCount + opened.1.outPtr = index := by
  unfold ReaderState.openReader at hOpened
  split_ifs at hOpened with hReady
  obtain rfl := Option.some.inj hOpened
  have hPoints := computeReaderStart_points hCount hHolds hMargin
  have hIndex := readerStart_le hMargin lengths.length
  obtain ⟨index, hStart⟩ : ∃ index, index = readerStart blockCount readMargin lengths.length :=
    ⟨_, rfl⟩
  rw [← hStart] at hPoints hIndex
  refine ⟨index, hIndex, ⟨hPoints, rfl⟩, ?_⟩
  have hLap : index / blockCount < 2 ^ 32 := Nat.lt_of_le_of_lt (Nat.div_le_div_right hIndex) hCycles.lap
  simp only
  rw [hPoints.cycle, hPoints.outPtr, BitVec.toNat_ofNat, Nat.mod_eq_of_lt hLap, Nat.mul_comm]
  exact Nat.div_add_mod index blockCount

theorem InSession.finish {session : RingSession} (h : InSession blockCount session)
    (reader : ReaderState) {result : ReadResult}
    (hResult : ∀ other : RingSession, (other.finish result).delivered = other.delivered)
    (hStanding : Standing blockCount .between reader (session.start + session.delivered.length)
      session.lengths.length session.buffer.state) :
    InSession blockCount ({ session with reader }.finish result) := by
  refine ⟨h.holds, h.busy, h.active, ?_, ?_⟩
  · rw [hResult]
    exact hStanding
  · rw [hResult]
    exact h.delivered

theorem InSession.step (hCount : 0 < blockCount) {session next : RingSession} {event : RingEvent}
    (h : InSession blockCount session) (hGuard : MeasuresInTime blockCount session event)
    (hCycles : InCycles blockCount session.lengths.length)
    (hStep : ringSystem blockCount session event = some next) : InSession blockCount next := by
  obtain ⟨hHolds, hBusy, hActive, hStanding, hDelivered⟩ := id h
  cases event with
  | release written =>
      simp only [ringSystem, Option.ite_none_right_eq_some, Option.some.injEq] at hStep
      obtain ⟨hState, rfl⟩ := hStep
      rw [hState] at hStanding
      refine ⟨hHolds.release hCount written, hBusy, hActive, ?_, fun k slot length hBlock => ?_⟩
      · simp only [List.length_append, List.length_singleton]
        have hSame : (session.buffer.releaseWriteBlock blockCount written).state = .active := hState
        rw [hSame]
        exact hStanding.release
      · obtain ⟨hSlot, hLength⟩ := hDelivered k slot length hBlock
        refine ⟨hSlot, ?_⟩
        rw [List.getElem?_append_left (List.getElem?_eq_some_iff.mp hLength).1]
        exact hLength
  | endWrite =>
      simp only [ringSystem, Option.ite_none_right_eq_some, Option.some.injEq] at hStep
      obtain ⟨hState, rfl⟩ := hStep
      rw [hState] at hStanding
      have hEnd : session.buffer.endWrite = { session.buffer with state := .clearing } := by
        rw [CaptureBuffer.endWrite, if_pos hActive]
      rw [hEnd]
      exact ⟨⟨hHolds.inPtr, hHolds.cycle, hHolds.written⟩, nofun, hActive, hStanding.endWrite,
        hDelivered⟩
  | openReader readMargin =>
      simp only [ringSystem, Option.ite_none_right_eq_some, Option.map_eq_some_iff] at hStep
      obtain ⟨⟨hPhase, hMargin⟩, opened, hOpened, rfl⟩ := hStep
      rw [hPhase] at hStanding
      have hNone : session.delivered = [] :=
        List.length_eq_zero_iff.mp (Nat.eq_zero_of_add_eq_zero hStanding).2
      have hNone' : ∀ (reader : ReaderState) (phase : ReadPhase) (start : Nat),
          RingSession.delivered { session with reader, phase, start } = [] := fun _ _ _ => hNone
      obtain ⟨index, hIndex, hPoints, hStart⟩ := openReader_points hCount hHolds hCycles hMargin hOpened
      refine ⟨hHolds, hBusy, hActive, ?_, ?_⟩
      · rw [hNone', List.length_nil, hStart]
        exact ⟨hIndex, fun _ => hPoints.1, fun hStatus => absurd (hPoints.2.symm.trans hStatus) nofun⟩
      · rw [hNone']
        exact nofun
  | call =>
      simp only [ringSystem, Option.ite_none_right_eq_some] at hStep
      obtain ⟨hPhase, hStep⟩ := hStep
      rw [hPhase] at hStanding
      split_ifs at hStep with hStatus
      · obtain rfl := Option.some.inj hStep
        exact h.finish session.reader (fun other => other.delivered_finish_null) hStanding
      · obtain rfl := Option.some.inj hStep
        have hClosed : session.reader.status = .closed := by simpa using hStatus
        exact ⟨hHolds, hBusy, hActive, ⟨hClosed, hStanding.1, hStanding.2.1 hClosed⟩, hDelivered⟩
  | poll timedOut =>
      simp only [ringSystem, Option.ite_none_right_eq_some] at hStep
      obtain ⟨hPhase, hStep⟩ := hStep
      rw [hPhase] at hStanding
      obtain ⟨hClosed, hLe, hPoints⟩ := hStanding
      have hWaiting := waiting_iff hHolds (hCycles.within _) hPoints hLe
      split_ifs at hStep with hCaught hClearing hTimeout
      · obtain rfl := Option.some.inj hStep
        exact h.finish _ (fun other => other.delivered_finish_null)
          ⟨hLe, nofun, fun _ => ⟨hWaiting.mp hCaught, hClearing⟩⟩
      · obtain rfl := Option.some.inj hStep
        exact h.finish session.reader (fun other => other.delivered_finish_timeout)
          ⟨hLe, fun _ => hPoints, fun hStatus => absurd (hClosed.symm.trans hStatus) nofun⟩
      · obtain rfl := Option.some.inj hStep
        exact h
      · obtain rfl := Option.some.inj hStep
        have hLess := lt_of_le_of_ne hLe (mt hWaiting.mpr hCaught)
        have hStatus : (session.reader.advance blockCount).status = .closed := by
          unfold ReaderState.advance
          split_ifs <;> exact hClosed
        exact ⟨hHolds, hBusy, hActive, ⟨hStatus, hLess, hPoints, hPoints.advance hCount⟩, hDelivered⟩
  | check =>
      simp only [ringSystem] at hStep
      cases hPhase : session.phase with
      | checking cycle outPtr =>
          rw [hPhase] at hStanding
          obtain ⟨hClosed, hLess, hBlock, hPoints⟩ := hStanding
          by_cases hOk : checkOverrunOk session.buffer.bufferCycle cycle session.buffer.inPtr outPtr
          · simp only [hPhase, ReaderState.checkBlockStatus, hOk, if_true] at hStep
            obtain rfl := Option.some.inj hStep
            exact ⟨hHolds, hBusy, hActive, ⟨hClosed, hLess, hBlock.outPtr, hPoints⟩, hDelivered⟩
          · simp only [hPhase, ReaderState.checkBlockStatus, hOk, Bool.false_eq_true, if_false] at hStep
            obtain rfl := Option.some.inj hStep
            exact h.finish _ (fun other => other.delivered_finish_null) ⟨hLess.le, nofun, nofun⟩
      | _ => simp [hPhase] at hStep
  | measure =>
      simp only [ringSystem] at hStep
      cases hPhase : session.phase with
      | measuring outPtr =>
          rw [hPhase] at hStanding
          obtain ⟨hClosed, hLess, rfl, hPoints⟩ := hStanding
          simp only [hPhase, Option.some.injEq] at hStep
          subst hStep
          refine ⟨hHolds, hBusy, hActive, ?_, ?_⟩
          · rw [RingSession.delivered_finish_block, List.length_append, List.length_singleton]
            exact ⟨hLess, fun _ => hPoints, fun hStatus => absurd (hClosed.symm.trans hStatus) nofun⟩
          · rw [RingSession.delivered_finish_block]
            intro k slot length hBlock
            rcases Nat.lt_or_ge k session.delivered.length with hOld | hNew
            · rw [List.getElem?_append_left hOld] at hBlock
              exact hDelivered k slot length hBlock
            · obtain rfl : k = session.delivered.length := by
                have := (List.getElem?_eq_some_iff.mp hBlock).1
                rw [List.length_append, List.length_singleton] at this
                omega
              obtain ⟨rfl, rfl⟩ : _ = slot ∧ _ = length := by simpa using hBlock
              have hLength := List.getElem?_eq_getElem hLess
              exact ⟨rfl, by rw [hHolds.written _ _ hLength hGuard]; exact hLength⟩
      | _ => simp [hPhase] at hStep
  | checkReadBlock =>
      simp only [ringSystem, Option.ite_none_right_eq_some, Option.some.injEq] at hStep
      obtain ⟨⟨hPhase, hClosed, hBlock⟩, rfl⟩ := hStep
      rw [hPhase] at hStanding
      obtain ⟨hLe, hPoints, hAllRead⟩ := hStanding
      refine ⟨hHolds, hBusy, hActive, ?_, hDelivered⟩
      simp only [hPhase, ReaderState.checkReadBlock, ReaderState.checkBlockStatus]
      split_ifs
      · exact ⟨hLe, hPoints, hAllRead⟩
      · exact ⟨hLe, nofun, nofun⟩
      · exact ⟨hLe, hPoints, hAllRead⟩
      · exact ⟨hLe, nofun, nofun⟩

theorem InSession.initial {buffer : CaptureBuffer} (reader : ReaderState)
    (hReaders : 0 < buffer.readerCount) : InSession blockCount (ringStart buffer reader) :=
  ⟨Holds.startWrite buffer, nofun, hReaders, rfl, nofun⟩

theorem length_le_of_step {session next : RingSession} {event : RingEvent}
    (hStep : ringSystem blockCount session event = some next) :
    session.lengths.length ≤ next.lengths.length := by
  cases event with
  | release written =>
      simp only [ringSystem, Option.ite_none_right_eq_some, Option.some.injEq] at hStep
      obtain ⟨_, rfl⟩ := hStep
      simp
  | endWrite =>
      simp only [ringSystem, Option.ite_none_right_eq_some, Option.some.injEq] at hStep
      obtain ⟨_, rfl⟩ := hStep
      exact Nat.le_refl _
  | openReader readMargin =>
      simp only [ringSystem, Option.ite_none_right_eq_some, Option.map_eq_some_iff] at hStep
      obtain ⟨_, opened, _, rfl⟩ := hStep
      exact Nat.le_refl _
  | call =>
      simp only [ringSystem] at hStep
      split_ifs at hStep <;> obtain rfl := Option.some.inj hStep <;> exact Nat.le_refl _
  | poll timedOut =>
      simp only [ringSystem] at hStep
      split_ifs at hStep <;> obtain rfl := Option.some.inj hStep <;> exact Nat.le_refl _
  | check =>
      simp only [ringSystem] at hStep
      split at hStep
      · split_ifs at hStep <;> obtain rfl := Option.some.inj hStep <;> exact Nat.le_refl _
      · exact absurd hStep nofun
  | measure =>
      simp only [ringSystem] at hStep
      split at hStep
      · obtain rfl := Option.some.inj hStep
        exact Nat.le_refl _
      · exact absurd hStep nofun
  | checkReadBlock =>
      simp only [ringSystem, Option.ite_none_right_eq_some, Option.some.injEq] at hStep
      obtain ⟨_, rfl⟩ := hStep
      exact Nat.le_refl _

theorem InSession.run (hCount : 0 < blockCount) {buffer : CaptureBuffer} {reader : ReaderState}
    (hReaders : 0 < buffer.readerCount) {events : List RingEvent} {session : RingSession}
    (hGuarded : (ringSystem blockCount).Guarded (MeasuresInTime blockCount) events
      (ringStart buffer reader))
    (hRun : (ringSystem blockCount).run events (ringStart buffer reader) = some session)
    (hCycles : InCycles blockCount session.lengths.length) : InSession blockCount session := by
  refine System.run_invariant
    (fun session => InCycles blockCount session.lengths.length → InSession blockCount session)
    ?_ hGuarded (fun _ => .initial reader hReaders) hRun hCycles
  intro session event next h hGuard hStep hNext
  have hBefore : InCycles blockCount session.lengths.length :=
    Nat.lt_of_le_of_lt (length_le_of_step hStep) hNext
  exact (h hBefore).step hCount hGuard hBefore hStep

/-- Once its status is no longer the default, the reader's calls return nothing. -/
theorem only_null_after {session next : RingSession} {events : List RingEvent}
    (hPhase : session.phase = .between) (hStatus : session.reader.status ≠ .closed)
    (hRun : (ringSystem blockCount).run events session = some next) :
    ∃ calls, next.results = session.results ++ List.replicate calls .null := by
  have hReachable : (ringSystem blockCount).Reachable session next := ⟨events, hRun⟩
  refine (hReachable.invariant (fun other => other.phase = .between ∧
    other.reader.status ≠ .closed ∧
    ∃ calls, other.results = session.results ++ List.replicate calls .null)
    ⟨hPhase, hStatus, 0, by simp⟩ ?_).2.2
  rintro other event after ⟨hOther, hNotClosed, calls, hResults⟩ hStep
  cases event with
  | call =>
      simp only [ringSystem, hOther, hNotClosed, if_true, ne_eq, not_false_eq_true,
        Option.some.injEq] at hStep
      subst hStep
      refine ⟨rfl, hNotClosed, calls + 1, ?_⟩
      rw [List.replicate_succ', ← List.append_assoc, ← hResults]
      rfl
  | release written =>
      simp only [ringSystem, Option.ite_none_right_eq_some, Option.some.injEq] at hStep
      obtain ⟨_, rfl⟩ := hStep
      exact ⟨hOther, hNotClosed, calls, hResults⟩
  | endWrite =>
      simp only [ringSystem, Option.ite_none_right_eq_some, Option.some.injEq] at hStep
      obtain ⟨_, rfl⟩ := hStep
      exact ⟨hOther, hNotClosed, calls, hResults⟩
  | openReader readMargin => simp [ringSystem, hOther] at hStep
  | poll timedOut => simp [ringSystem, hOther] at hStep
  | check => simp [ringSystem, hOther] at hStep
  | measure => simp [ringSystem, hOther] at hStep
  | checkReadBlock => simp [ringSystem, hNotClosed] at hStep

theorem InSession.between_of_status {session : RingSession} (h : InSession blockCount session)
    (hOpened : session.phase ≠ .unopened) (hStatus : session.reader.status ≠ .closed) :
    session.phase = .between := by
  have hStanding := h.standing
  cases hPhase : session.phase with
  | unopened => exact absurd hPhase hOpened
  | between => rfl
  | waiting =>
      rw [hPhase] at hStanding
      exact absurd hStanding.1 hStatus
  | checking cycle outPtr =>
      rw [hPhase] at hStanding
      exact absurd hStanding.1 hStatus
  | measuring outPtr =>
      rw [hPhase] at hStanding
      exact absurd hStanding.1 hStatus

theorem checkBlockStatus_overrun (hCount : 0 < blockCount) {session : RingSession}
    (h : InSession blockCount session) (hCycles : InCycles blockCount session.lengths.length)
    {reader : ReaderState} {cycle : BitVec 32} {outPtr index : Nat}
    (hStatus : reader.status = .closed) (hPoints : Points blockCount cycle outPtr index)
    (hLess : index < session.lengths.length) :
    (reader.checkBlockStatus session.buffer cycle outPtr).1.status = .overrun ↔
      blockCount ≤ session.lengths.length - index := by
  have hOk := checkOverrunOk_iff hCount h.holds (hCycles.within _) hPoints hLess
  have hNear : blockCount ≤ session.lengths.length - index ↔
      ¬session.lengths.length < index + blockCount := by omega
  rw [hNear, ← hOk, ReaderState.checkBlockStatus]
  split_ifs with hChecked
  · simp [hStatus, hChecked]
  · simp [hChecked]

/-- The ring reader. In every run in which lengths are measured in time, and within the
cycles that can be counted: the blocks delivered are the released ones from the start
index on, with their recorded lengths; a check fails exactly when the writer is a whole
ring ahead; the end is reported only with every block delivered; and after that, or after
an overrun, nothing more is returned. -/
theorem ring_reader_in_order (blockCount : Nat) (hCount : 0 < blockCount) (buffer : CaptureBuffer)
    (hReaders : 0 < buffer.readerCount) (reader : ReaderState) (events : List RingEvent)
    (session : RingSession)
    (hRun : (ringSystem blockCount).run events (ringStart buffer reader) = some session)
    (hCycles : InCycles blockCount session.lengths.length)
    (hGuarded : (ringSystem blockCount).Guarded (MeasuresInTime blockCount) events
      (ringStart buffer reader)) :
    (∀ k slot length, session.delivered[k]? = some (slot, length) →
        slot = (session.start + k) % blockCount ∧
          session.lengths[session.start + k]? = some length) ∧
      (∀ cycle outPtr, session.phase = .checking cycle outPtr →
        ((session.reader.checkBlockStatus session.buffer cycle outPtr).1.status = .overrun ↔
          blockCount ≤ session.lengths.length - (session.start + session.delivered.length))) ∧
      (session.phase = .between → session.reader.status = .closed → session.holdsBlock = true →
        ((session.reader.checkReadBlock blockCount session.buffer).1.status = .overrun ↔
          blockCount ≤
            session.lengths.length - (session.start + session.delivered.length - 1))) ∧
      (session.phase ≠ .unopened → session.reader.status = .allRead →
        session.start + session.delivered.length = session.lengths.length ∧
          session.buffer.state = .clearing) ∧
      (session.phase ≠ .unopened → session.reader.status ≠ .closed →
        ∀ later next, (ringSystem blockCount).run later session = some next →
          ∃ calls, next.results = session.results ++ List.replicate calls .null) := by
  have h := InSession.run hCount hReaders hGuarded hRun hCycles
  have hStanding := h.standing
  refine ⟨h.delivered, fun cycle outPtr hPhase => ?_, fun hPhase hStatus hBlock => ?_,
    fun hOpened hStatus => ?_, fun hOpened hStatus later next hLater => ?_⟩
  · rw [hPhase] at hStanding
    obtain ⟨hClosed, hLess, hPoints, _⟩ := hStanding
    exact checkBlockStatus_overrun hCount h hCycles hClosed hPoints hLess
  · rw [hPhase] at hStanding
    obtain ⟨hLe, hClosed, _⟩ := hStanding
    obtain ⟨index, hIndex⟩ : ∃ index, session.start + session.delivered.length = index + 1 := by
      have := session.delivered_pos hBlock
      exact ⟨session.start + session.delivered.length - 1, by omega⟩
    have hNext := hClosed hStatus
    rw [hIndex] at hNext hLe ⊢
    obtain ⟨cycle, outPtr, hPoints, hCheck⟩ := checkReadBlock_eq hCount hNext session.buffer
    rw [hCheck]
    exact checkBlockStatus_overrun hCount h hCycles hStatus hPoints hLe
  · have hPhase := h.between_of_status hOpened (by rw [hStatus]; exact nofun)
    rw [hPhase] at hStanding
    exact hStanding.2.2 hStatus
  · exact only_null_after (h.between_of_status hOpened hStatus) hStatus hLater

/-- A buffer with one reader connected. -/
def oneReader : CaptureBuffer := CaptureBuffer.createBuffer.addReader

/-- A ring of two blocks: one block is released, read and checked again, and the capture
ends. -/
def timelyEvents : List RingEvent :=
  [.release 8, .openReader 0, .call, .poll false, .check, .measure, .checkReadBlock, .endWrite,
    .call, .poll false]

def timelySession : RingSession :=
  ((ringSystem 2).run timelyEvents (ringStart oneReader (.createReader 0))).getD
    (ringStart oneReader (.createReader 0))

theorem ring_reader_in_order_timely :
    timelySession.results = [.block 0 8, .null] ∧
      timelySession.start + timelySession.delivered.length = timelySession.lengths.length := by
  have hGuarded : (ringSystem 2).Guarded (MeasuresInTime 2) timelyEvents
      (ringStart oneReader (.createReader 0)) := by
    decide
  have hOrder := ring_reader_in_order 2 (by decide) oneReader (by decide) (.createReader 0)
    timelyEvents timelySession rfl (by unfold InCycles; decide) hGuarded
  exact ⟨by decide, (hOrder.2.2.2.1 (by decide) (by decide)).1⟩

/-- The same ring: two more blocks are released between the check of the first block and
the read of its length, and the reader returns the slot with the third block's length. -/
theorem length_read_too_late :
    ∃ session, (ringSystem 2).run
        [.release 8, .openReader 0, .call, .poll false, .check, .release 12, .release 16, .measure]
        (ringStart oneReader (.createReader 0)) = some session ∧
      session.start = 0 ∧ session.lengths = [8, 12, 16] ∧ session.delivered = [(0, 16)] ∧
      session.reader.status = .closed :=
  ⟨_, rfl, rfl, rfl, rfl, rfl⟩

end Server
