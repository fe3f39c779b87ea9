import PandaBridge.Driver.IrqWorld
import PandaBridge.Driver.StreamRing

/-! The interrupts of a capture and the handler. As long as every status is read before the next
interrupt, the handler sees each interrupt once and takes one block for each switch. -/
namespace Driver.Irq

open Clocked Fpga Fpga.PcapDma

variable {Word : Type} {blockSize : BitVec 32} {blockCount : Nat}

/-- The blocks that the statuses read so far stand for: block by block around the ring, each with
the length of its own interrupt. -/
def blocksOf (blockCount : Nat) (statuses : List PcapDma.IrqStatus) : List (Nat × Nat) :=
  (statuses.filter newBuffer).mapIdx fun k status => (k % blockCount, length status)

/-- The block that the handler is about to receive. -/
def Handler.holding (h : Handler) : List (Nat × Nat) :=
  match h.isr with
  | .assign block length | .receive block length => [(block, length)]
  | _ => []

theorem blocksOf_append (statuses : List PcapDma.IrqStatus) (status : PcapDma.IrqStatus) :
    blocksOf blockCount (statuses ++ [status]) =
      blocksOf blockCount statuses ++
        if newBuffer status then
          [((statuses.filter newBuffer).length % blockCount, length status)] else [] := by
  unfold blocksOf
  cases hNew : newBuffer status <;> simp [List.filter_append, hNew, List.mapIdx_append]

namespace World

/-- What the handler has made of the statuses that it has read. -/
structure Handled (blockCount : Nat) (w : World Word) : Prop where
  active : w.handler.streamActive = !w.reads.any PcapDma.IrqStatus.done
  index : w.handler.isrBlockIndex =
    (w.reads.filter fun status => newBuffer status && !status.done).length % blockCount
  blocks : blocksOf blockCount w.reads = w.received ++ w.handler.holding
  start : w.handler.startTsValid = w.reads.any PcapDma.IrqStatus.startEvent

/-- Where the interrupt raised last is until its status is read. -/
inductive Unread (w : World Word) : Prop
  | onLine (line : w.dma.control.dmaIrq = true) (edge : w.irqPrev = false)
      (next : w.dma.control.fsm = .actv ∨ w.dma.control.fsm = .completed)
      (latch : w.pending = false) (isr : w.handler.isr ≠ .entered)
  | latched (line : w.dma.control.dmaIrq = false) (latch : w.pending = true)
      (isr : w.handler.isr ≠ .entered)
  | inHandler (line : w.dma.control.dmaIrq = false) (latch : w.pending = false)
      (isr : w.handler.isr = .entered)

/-- Every interrupt has been read, or all but the last. -/
def Read (w : World Word) : Prop :=
  w.dma.control.dmaIrq = false ∧ w.pending = false ∧ w.handler.isr ≠ .entered ∧
      w.raised = w.reads ∨
    w.Unread ∧ w.raised = w.reads ++ [w.dma.control.irqStatus]

/-- Only the last interrupt says that the capture is done. -/
structure Stops (w : World Word) : Prop where
  goes : w.dma.control.fsm ≠ .completed → ∀ status ∈ w.raised, status.done = false
  stops : w.dma.control.fsm = .completed → ∃ before last, w.raised = before ++ [last] ∧
    last.done = true ∧ (∀ status ∈ before, status.done = false) ∧
      (last.addressMissing = false →
        w.dma.pcapCompleted = true ∧ w.enabledAtIrq = w.enabled)
  last : w.dma.control.lastTlp = true → w.dma.pcapCompleted = true

/-- The start event is in one of the interrupts raised, or still to be raised. -/
structure Started (w : World Word) : Prop where
  flags : (w.raised.filter PcapDma.IrqStatus.startEvent).length +
    w.dma.startEventDetected.toNat = w.enabled.toNat
  raised : (w.raised.filter PcapDma.IrqStatus.startEvent).length = w.enabledAtIrq.toNat

/-- What holds at every clock. -/
structure Inv (blockCount : Nat) (w : World Word) : Prop where
  handled : w.Handled blockCount
  read : w.Read
  stops : w.Stops
  started : w.Started

section Edge

variable {w : World Word} {e : Env Word}

theorem raises_iff : w.raises = true ↔ w.dma.control.fsm = .irq := by simp [raises]

theorem control_step_irq (hFsm : w.dma.control.fsm = .irq) :
    (w.step blockSize blockCount e).dma.control.dmaIrq = true ∧
      (w.step blockSize blockCount e).dma.control.irqStatus =
        irqFlags w.dma (w.input blockSize e) ∧
      (w.step blockSize blockCount e).dma.control.lastTlp = w.dma.control.lastTlp ∧
      ((w.step blockSize blockCount e).dma.control.fsm =
        if w.dma.control.lastTlp || !w.dma.nextDmaaddrValid then Fsm.completed else .actv) := by
  have hControl : (w.step blockSize blockCount e).dma.control =
      stepIrq w.dma (w.input blockSize e) := control_irq (i := w.input blockSize e) rfl hFsm
  rw [hControl, stepIrq_fsm]
  cases hSwitch : switchBuffer w.dma (w.input blockSize e) <;> simp [stepIrq, hSwitch]

/-- Outside the interrupting state the status stands still and no edge begins. -/
theorem control_step_other (hFsm : w.dma.control.fsm ≠ .irq) :
    (w.step blockSize blockCount e).dma.control.irqStatus = w.dma.control.irqStatus ∧
      ((w.step blockSize blockCount e).dma.control.dmaIrq = true → w.dma.control.dmaIrq = true ∧
        w.dma.control.fsm ≠ .actv ∧ w.dma.control.fsm ≠ .completed) := by
  have hStep : (w.step blockSize blockCount e).dma.control =
      (PcapDma.step w.dma (w.input blockSize e)).control := rfl
  rw [hStep]
  cases hNow : w.dma.control.fsm with
  | init =>
      rw [control_init (i := w.input blockSize e) rfl hNow]
      exact ⟨rfl, fun h => ⟨h, by simp, by simp⟩⟩
  | actv =>
      rw [control_actv (i := w.input blockSize e) rfl hNow]
      rcases @stepActv_cases _ w.dma (w.input blockSize e) with h | h | h | h | h | h | h | h <;>
        simp [h, gotoDoDma]
  | doDma =>
      rw [control_doDma (i := w.input blockSize e) rfl hNow]
      cases (w.input blockSize e).bvalid <;> exact ⟨rfl, fun h => ⟨h, by simp, by simp⟩⟩
  | isFinished =>
      rw [control_isFinished (i := w.input blockSize e) rfl hNow]
      split <;> exact ⟨rfl, fun h => ⟨h, by simp, by simp⟩⟩
  | irq => exact absurd hNow hFsm
  | completed =>
      rw [control_completed (i := w.input blockSize e) rfl hNow]
      exact ⟨rfl, fun h => absurd h Bool.false_ne_true⟩

theorem Stops.reads_go_on (h : w.Stops)
    (hRaised : w.raised = w.reads ++ [w.dma.control.irqStatus]) :
    ∀ status ∈ w.reads, status.done = false := by
  intro status hStatus
  by_cases hFsm : w.dma.control.fsm = .completed
  · obtain ⟨before, last, hSplit, _, hBefore, _⟩ := h.stops hFsm
    rw [hRaised] at hSplit
    obtain ⟨hSame, _⟩ := List.append_inj' hSplit rfl
    exact hBefore status (hSame ▸ hStatus)
  · exact h.goes hFsm status (by rw [hRaised]; exact List.mem_append_left _ hStatus)

theorem Handled.step_read (hCount : 0 < blockCount) (h : w.Handled blockCount)
    (hOn : ∀ status ∈ w.reads, status.done = false) (hIsr : w.handler.isr = .entered)
    {nextFree : Bool} (hAction : e.action = some (.readStatus nextFree)) :
    (w.step blockSize blockCount e).Handled blockCount := by
  have hActive : w.handler.streamActive = true := by
    rw [h.active, Bool.not_eq_true', List.any_eq_false]
    intro status hStatus
    simp [hOn status hStatus]
  have hReads : (w.step blockSize blockCount e).reads = w.reads ++ [w.dma.control.irqStatus] := by
    simp [step, readsStatus, hAction, hIsr]
  have hReceived : (w.step blockSize blockCount e).received = w.received := by
    simp [step, receives, hAction]
  have hHandler : (w.step blockSize blockCount e).handler =
      w.handler.readStatus blockCount w.dma.control.irqStatus nextFree := by
    simp [step, Handler.step, hAction, hIsr]
  have hAll : (w.reads.filter fun status => newBuffer status && !status.done) =
      w.reads.filter newBuffer := by
    refine List.filter_congr fun status hStatus => ?_
    simp [hOn status hStatus]
  have hIndex : w.handler.isrBlockIndex = (w.reads.filter newBuffer).length % blockCount := by
    rw [h.index, hAll]
  have hBlocks : blocksOf blockCount w.reads = w.received := by
    rw [h.blocks, Handler.holding, hIsr, List.append_nil]
  have hStart := h.start
  generalize w.dma.control.irqStatus = status at hReads hHandler
  have hNew : status.done = true → newBuffer status = true := by
    intro hDone
    simp [newBuffer, hDone]
  constructor
  · rw [hHandler, hReads]
    cases hDone : status.done <;> cases hBuffer : newBuffer status <;>
      simp_all [Handler.readStatus]
  · rw [hHandler, hReads, List.filter_append, hAll]
    cases hDone : status.done <;> cases hBuffer : newBuffer status <;>
      simp_all [Handler.readStatus, stepIndex_mod hCount]
  · rw [hHandler, hReads, hReceived, blocksOf_append, hBlocks, ← hIndex]
    cases hDone : status.done <;> cases hBuffer : newBuffer status <;> cases nextFree <;>
      simp_all [Handler.readStatus, Handler.holding]
  · rw [hHandler, hReads]
    cases hDone : status.done <;> cases hBuffer : newBuffer status <;>
      simp_all [Handler.readStatus]

/-- Between two reads the handler only moves the block that it holds. -/
theorem Handled.step_other (h : w.Handled blockCount) (hNoRead : w.readsStatus e = false) :
    (w.step blockSize blockCount e).Handled blockCount := by
  have hReads : (w.step blockSize blockCount e).reads = w.reads := by simp [step, hNoRead]
  have hHandler : (w.step blockSize blockCount e).handler =
      w.handler.step blockCount w.pending w.dma.control.irqStatus e.action := rfl
  have hReceived : (w.step blockSize blockCount e).received =
      w.received ++ (w.receives e).toList := rfl
  have hKeeps : (w.step blockSize blockCount e).handler.streamActive = w.handler.streamActive ∧
      (w.step blockSize blockCount e).handler.isrBlockIndex = w.handler.isrBlockIndex ∧
      (w.step blockSize blockCount e).handler.startTsValid = w.handler.startTsValid ∧
      (w.receives e).toList ++ (w.step blockSize blockCount e).handler.holding =
        w.handler.holding := by
    rw [hHandler]
    rcases hAction : e.action with _ | ⟨_ | nextFree | address | _⟩
    · simp [Handler.step, receives, hAction]
    · by_cases hMay : w.pending = true ∧ w.handler.isr = .idle
      · simp [Handler.step, receives, hAction, hMay, Handler.holding]
      · simp [Handler.step, receives, hAction, if_neg hMay]
    · have hIsr : w.handler.isr ≠ .entered := by
        simpa [readsStatus, hAction] using hNoRead
      simp [Handler.step, receives, hAction, hIsr]
    · cases hIsr : w.handler.isr <;> simp [Handler.step, receives, hAction, hIsr, Handler.holding]
    · cases hIsr : w.handler.isr <;> simp [Handler.step, receives, hAction, hIsr, Handler.holding]
  obtain ⟨hActive, hIndex, hStart, hHolding⟩ := hKeeps
  constructor
  · rw [hActive, hReads, h.active]
  · rw [hIndex, hReads, h.index]
  · rw [hReads, hReceived, List.append_assoc, hHolding, h.blocks]
  · rw [hStart, hReads, h.start]

theorem readStatus_isr (h : Handler) (status : PcapDma.IrqStatus) (nextFree : Bool) :
    (h.readStatus blockCount status nextFree).isr ≠ .entered := by
  unfold Handler.readStatus
  split
  · split
    · split
      · simp
      · cases nextFree <;> simp
    · simp
  · simp

/-- The handler is between its entry and the status. -/
theorem entered_step :
    (w.step blockSize blockCount e).handler.isr = .entered ↔
      w.enters e = true ∨ w.handler.isr = .entered ∧ w.readsStatus e = false := by
  change (w.handler.step blockCount w.pending w.dma.control.irqStatus e.action).isr = _ ↔ _
  rcases hAction : e.action with _ | ⟨_ | nextFree | address | _⟩
  · simp [Handler.step, enters, readsStatus, hAction]
  · by_cases hMay : w.pending = true ∧ w.handler.isr = .idle
    · simp [Handler.step, enters, hAction, hMay]
    · rw [Handler.step, if_neg hMay]
      simp_all [enters, readsStatus]
  · by_cases hIsr : w.handler.isr = .entered
    · simp [Handler.step, enters, readsStatus, hAction, hIsr, readStatus_isr]
    · simp [Handler.step, enters, readsStatus, hAction, hIsr]
  · cases hIsr : w.handler.isr <;> simp [Handler.step, enters, readsStatus, hAction, hIsr]
  · cases hIsr : w.handler.isr <;> simp [Handler.step, enters, readsStatus, hAction, hIsr]

theorem pending_step :
    (w.step blockSize blockCount e).pending =
      (w.dma.control.dmaIrq && !w.irqPrev || w.pending && !w.enters e) := rfl

theorem reads_step (hIsr : w.handler.isr ≠ .entered) :
    (w.step blockSize blockCount e).reads = w.reads := by
  simp [step, readsStatus, hIsr]

theorem enters_of_not_pending (hPending : w.pending = false) : w.enters e = false := by
  simp [enters, hPending]

theorem Read.step_raises (h : w.Read) (hInTime : w.ReadInTime) (hRaises : w.raises = true) :
    (w.step blockSize blockCount e).Read := by
  obtain ⟨hLine, hPending, hIsr⟩ := hInTime hRaises
  have hAll : w.raised = w.reads := by
    rcases h with ⟨_, _, _, hAll⟩ | ⟨hUnread, _⟩
    · exact hAll
    · cases hUnread with
      | onLine line => rw [hLine] at line; exact absurd line Bool.false_ne_true
      | latched _ latch => rw [hPending] at latch; exact absurd latch Bool.false_ne_true
      | inHandler _ _ isr => exact absurd isr hIsr
  obtain ⟨hLine', hStatus, _, hFsm⟩ :=
    @control_step_irq _ blockSize blockCount w e (raises_iff.mp hRaises)
  refine .inr ⟨.onLine hLine' hLine ?_ ?_ ?_, ?_⟩
  · rw [hFsm]
    split <;> simp
  · rw [pending_step, hLine, hPending]
    rfl
  · rw [Ne, entered_step, enters_of_not_pending hPending]
    simp [hIsr]
  · rw [hStatus, reads_step hIsr, ← hAll]
    simp [World.step, hRaises]

/-- Without a new interrupt the unread one moves on to the handler, and is read once. -/
theorem Read.step_other (h : w.Read) (hRaises : w.raises = false) :
    (w.step blockSize blockCount e).Read := by
  have hFsm : w.dma.control.fsm ≠ .irq := by simpa [raises] using hRaises
  obtain ⟨hStatus, hLineKept⟩ :=
    @control_step_other _ blockSize blockCount w e hFsm
  have hRaised : (w.step blockSize blockCount e).raised = w.raised := by
    simp [World.step, hRaises]
  have hLineOff : w.dma.control.dmaIrq = false →
      (w.step blockSize blockCount e).dma.control.dmaIrq = false := by
    intro hOff
    refine Bool.eq_false_iff.mpr fun hOn => ?_
    rw [hOff] at hLineKept
    exact Bool.false_ne_true (hLineKept hOn).1
  rcases h with ⟨hLine, hPending, hIsr, hAll⟩ | ⟨hUnread, hOne⟩
  · refine .inl ⟨hLineOff hLine, ?_, ?_, ?_⟩
    · rw [pending_step, hLine, hPending]
      rfl
    · rw [Ne, entered_step, enters_of_not_pending hPending]
      simp [hIsr]
    · rw [hRaised, reads_step hIsr, hAll]
  · cases hUnread with
    | onLine line edge next latch isr =>
        refine .inr ⟨.latched ?_ ?_ ?_, ?_⟩
        · refine Bool.eq_false_iff.mpr fun hOn => ?_
          obtain ⟨_, hActv, hCompleted⟩ := hLineKept hOn
          exact next.elim hActv hCompleted
        · rw [pending_step, line, edge]
          rfl
        · rw [Ne, entered_step, enters_of_not_pending latch]
          simp [isr]
        · rw [hRaised, reads_step isr, hStatus, hOne]
    | latched line latch isr =>
        have hLast : (w.step blockSize blockCount e).raised =
            (w.step blockSize blockCount e).reads ++
              [(w.step blockSize blockCount e).dma.control.irqStatus] := by
          rw [hRaised, reads_step isr, hStatus, hOne]
        cases hEnters : w.enters e with
        | true =>
            refine .inr ⟨.inHandler (hLineOff line) ?_ ?_, hLast⟩
            · rw [pending_step, line, hEnters]
              simp
            · rw [entered_step]
              exact .inl hEnters
        | false =>
            refine .inr ⟨.latched (hLineOff line) ?_ ?_, hLast⟩
            · rw [pending_step, line, latch, hEnters]
              rfl
            · rw [Ne, entered_step, hEnters]
              simp [isr]
    | inHandler line latch isr =>
        have hPending : (w.step blockSize blockCount e).pending = false := by
          rw [pending_step, line, latch]
          rfl
        have hNotEnters := enters_of_not_pending (e := e) latch
        cases hReads : w.readsStatus e with
        | true =>
            refine .inl ⟨hLineOff line, hPending, ?_, ?_⟩
            · rw [Ne, entered_step, hNotEnters, hReads]
              simp
            · rw [hRaised, hOne]
              simp [World.step, hReads]
        | false =>
            refine .inr ⟨.inHandler (hLineOff line) hPending ?_, ?_⟩
            · rw [entered_step]
              exact .inr ⟨isr, hReads⟩
            · rw [hRaised, hStatus, hOne]
              simp [World.step, hReads]

theorem completed_step (h : w.dma.pcapCompleted = true) :
    (w.step blockSize blockCount e).dma.pcapCompleted = true := by
  simp [step, PcapDma.step, nextPcapCompleted, input, h]

theorem lastTlp_step (hLast : (w.step blockSize blockCount e).dma.control.lastTlp = true) :
    w.dma.control.lastTlp = true ∨ w.dma.pcapCompleted = true := by
  change (PcapDma.step w.dma (w.input blockSize e)).control.lastTlp = true at hLast
  cases hFsm : w.dma.control.fsm with
  | init =>
      rw [control_init (i := w.input blockSize e) rfl hFsm] at hLast
      exact .inl hLast
  | actv =>
      rw [control_actv (i := w.input blockSize e) rfl hFsm] at hLast
      rcases @stepActv_cases _ w.dma (w.input blockSize e) with
        ⟨h, _⟩ | ⟨_, _, _, h⟩ | ⟨_, _, h⟩ | ⟨h, _⟩ | ⟨h, _⟩ | ⟨h, _⟩ | ⟨_, h⟩ | h
      · exact .inr h
      · rw [h] at hLast
        exact .inl hLast
      · rw [h] at hLast
        exact .inl hLast
      · exact .inr h
      · exact .inr h
      · exact .inr h
      · rw [h] at hLast
        exact .inl hLast
      · rw [h] at hLast
        exact .inl hLast
  | doDma =>
      rw [control_doDma (i := w.input blockSize e) rfl hFsm] at hLast
      split at hLast <;> exact .inl hLast
  | isFinished =>
      rw [control_isFinished (i := w.input blockSize e) rfl hFsm] at hLast
      split at hLast <;> exact .inl hLast
  | irq =>
      have hKept := (@control_step_irq _ blockSize blockCount w e hFsm).2.2.1
      exact .inl (hKept.symm.trans hLast)
  | completed =>
      rw [control_completed (i := w.input blockSize e) rfl hFsm] at hLast
      exact .inl hLast

theorem Stops.last_step (h : w.Stops)
    (hLast : (w.step blockSize blockCount e).dma.control.lastTlp = true) :
    (w.step blockSize blockCount e).dma.pcapCompleted = true :=
  completed_step ((lastTlp_step hLast).elim h.last id)

/-- After the end of the capture the start event does not come any more. -/
theorem enabled_of_completed (hLegal : w.Legal e) (h : w.dma.pcapCompleted = true) :
    (w.step blockSize blockCount e).enabled = w.enabled := by
  have hNone : e.startEvent = false := by
    refine Bool.eq_false_iff.mpr fun hStart => ?_
    have := (hLegal hStart).2
    rw [h] at this
    exact Bool.false_ne_true this.symm
  simp [step, hNone]

theorem Stops.step_raises (h : w.Stops) (hLegal : w.Legal e) (hRaises : w.raises = true) :
    (w.step blockSize blockCount e).Stops := by
  have hFsm := raises_iff.mp hRaises
  obtain ⟨_, _, _, hNext⟩ :=
    @control_step_irq _ blockSize blockCount w e hFsm
  have hRaised : (w.step blockSize blockCount e).raised =
      w.raised ++ [irqFlags w.dma (w.input blockSize e)] := by simp [step, hRaises]
  have hBefore := h.goes (by simp [hFsm])
  have hDone : (irqFlags w.dma (w.input blockSize e)).done =
      (w.dma.control.lastTlp || !w.dma.nextDmaaddrValid) := rfl
  refine ⟨fun hGoes status hStatus => ?_, fun hStopped => ?_, h.last_step⟩
  · rw [hRaised, List.mem_append, List.mem_singleton] at hStatus
    rcases hStatus with hOld | rfl
    · exact hBefore status hOld
    · rw [hDone]
      refine Bool.eq_false_iff.mpr fun hStop => ?_
      rw [if_pos hStop] at hNext
      exact hGoes hNext
  · have hStop : (w.dma.control.lastTlp || !w.dma.nextDmaaddrValid) = true := by
      by_contra hNot
      rw [if_neg hNot, hStopped] at hNext
      exact absurd hNext (by simp)
    refine ⟨_, _, hRaised, hStop, hBefore, fun hValid => ?_⟩
    have hLast : w.dma.control.lastTlp = true := by
      simp only [irqFlags, Bool.not_eq_false'] at hValid
      simpa [hValid] using hStop
    refine ⟨completed_step (h.last hLast), ?_⟩
    rw [enabled_of_completed hLegal (h.last hLast)]
    simp [step, hRaises]

theorem Stops.step_other (h : w.Stops) (hLegal : w.Legal e) (hRaises : w.raises = false) :
    (w.step blockSize blockCount e).Stops := by
  have hFsm : w.dma.control.fsm ≠ .irq := by simpa [raises] using hRaises
  have hRaised : (w.step blockSize blockCount e).raised = w.raised := by simp [step, hRaises]
  have hAtIrq : (w.step blockSize blockCount e).enabledAtIrq = w.enabledAtIrq := by
    simp [step, hRaises]
  refine ⟨fun hGoes => ?_, fun hStopped => ?_, h.last_step⟩
  · rw [hRaised]
    refine h.goes fun hCompleted => hGoes ?_
    change (PcapDma.step w.dma (w.input blockSize e)).control.fsm = .completed
    rw [control_completed (i := w.input blockSize e) rfl hCompleted]
    exact hCompleted
  · obtain hBefore | ⟨hIrq, _⟩ := fsm_completed (i := w.input blockSize e) rfl hStopped
    · obtain ⟨before, last, hSplit, hDone, hOthers, hWell⟩ := h.stops hBefore
      refine ⟨before, last, hRaised.trans hSplit, hDone, hOthers, fun hValid => ?_⟩
      obtain ⟨hCompleted, hSame⟩ := hWell hValid
      refine ⟨completed_step hCompleted, ?_⟩
      rw [hAtIrq, enabled_of_completed hLegal hCompleted, hSame]
    · exact absurd hIrq hFsm

theorem startEventDetected_step :
    (w.step blockSize blockCount e).dma.startEventDetected =
      (e.startEvent || !w.raises && w.dma.startEventDetected) := by
  by_cases hFsm : w.dma.control.fsm = .irq <;> cases hStart : e.startEvent <;>
    simp [step, PcapDma.step, nextStartEventDetected, input, raises, hFsm, hStart]

theorem Started.step (h : w.Started) (hLegal : w.Legal e) :
    (w.step blockSize blockCount e).Started := by
  have hFlags := h.flags
  have hRaised := h.raised
  have hOnce : e.startEvent = true → w.enabled = false := fun hStart => (hLegal hStart).1
  have hEnabled : (w.step blockSize blockCount e).enabled = (w.enabled || e.startEvent) := rfl
  cases hRaises : w.raises with
  | false =>
      have hSame : (w.step blockSize blockCount e).raised = w.raised := by
        simp [World.step, hRaises]
      have hAtIrq : (w.step blockSize blockCount e).enabledAtIrq = w.enabledAtIrq := by
        simp [World.step, hRaises]
      refine ⟨?_, by rw [hSame, hAtIrq, hRaised]⟩
      rw [hSame, startEventDetected_step, hEnabled, hRaises]
      cases hStart : e.startEvent with
      | false => simpa using hFlags
      | true =>
          rw [hOnce hStart] at hFlags ⊢
          simp only [Bool.toNat_false, Nat.add_eq_zero_iff] at hFlags
          simp [hFlags.1]
  | true =>
      have hMore : ((w.step blockSize blockCount e).raised.filter
          PcapDma.IrqStatus.startEvent).length = w.enabled.toNat := by
        rw [← hFlags]
        cases hDetected : w.dma.startEventDetected <;>
          simp [World.step, hRaises, List.filter_append, irqFlags, hDetected]
      have hAtIrq : (w.step blockSize blockCount e).enabledAtIrq = w.enabled := by
        simp [World.step, hRaises]
      refine ⟨?_, by rw [hMore, hAtIrq]⟩
      rw [hMore, startEventDetected_step, hEnabled, hRaises]
      cases hStart : e.startEvent with
      | false => simp
      | true => simp [hOnce hStart]

end Edge

theorem Boot.inv {w : World Word} (hBoot : w.Boot) : w.Inv blockCount := by
  obtain ⟨⟨s, i, hReset, hDma⟩, hPrev, hPending, ⟨hIsr, hActive, hStart, hIndex⟩, hRaised, hReads,
    hReceived, hEnabled, hAtIrq⟩ := hBoot
  have hControl : w.dma.control = .reset := by rw [hDma, control_reset hReset]
  refine ⟨⟨?_, ?_, ?_, ?_⟩, .inl ⟨?_, hPending, ?_, ?_⟩, ⟨?_, ?_, ?_⟩, ?_, ?_⟩
  · simp [hActive, hReads]
  · simp [hIndex, hReads]
  · simp [blocksOf, hReads, hReceived, Handler.holding, hIsr]
  · simp [hStart, hReads]
  · rw [hControl]
    rfl
  · simp [hIsr]
  · rw [hRaised, hReads]
  · simp [hRaised]
  · simp [hControl, Control.reset]
  · simp [hControl, Control.reset]
  · simp [hRaised, hEnabled, hDma, PcapDma.step, nextStartEventDetected, hReset]
  · simp [hRaised, hAtIrq]

theorem Inv.step {w : World Word} {e : Env Word} (h : w.Inv blockCount) (hCount : 0 < blockCount)
    (hLegal : w.Legal e) (hInTime : w.ReadInTime) :
    (w.step blockSize blockCount e).Inv blockCount := by
  refine ⟨?_, ?_, ?_, h.started.step hLegal⟩
  · cases hRead : w.readsStatus e with
    | false => exact h.handled.step_other hRead
    | true =>
        obtain ⟨hAction, hIsr⟩ : (∃ nextFree, e.action = some (.readStatus nextFree)) ∧
            w.handler.isr = .entered := by
          unfold readsStatus at hRead
          split at hRead <;> simp_all
        obtain ⟨nextFree, hAction⟩ := hAction
        rcases h.read with ⟨_, _, hNot, _⟩ | ⟨_, hOne⟩
        · exact absurd hIsr hNot
        · exact h.handled.step_read hCount (h.stops.reads_go_on hOne) hIsr hAction
  · cases hRaises : w.raises with
    | true => exact h.read.step_raises hInTime hRaises
    | false => exact h.read.step_other hRaises
  · cases hRaises : w.raises with
    | true => exact h.stops.step_raises hLegal hRaises
    | false => exact h.stops.step_other hLegal hRaises

theorem Inv.all_read {w : World Word} (h : w.Inv blockCount)
    (hEnded : w.handler.streamActive = false) :
    w.raised = w.reads ∧ w.dma.control.fsm = .completed := by
  have hSome : w.reads.any PcapDma.IrqStatus.done = true := by
    simpa [hEnded] using h.handled.active
  obtain ⟨status, hStatus, hDone⟩ := List.any_eq_true.mp hSome
  rcases h.read with ⟨_, _, _, hAll⟩ | ⟨_, hOne⟩
  · refine ⟨hAll, ?_⟩
    by_contra hGoes
    have := h.stops.goes hGoes status (by rw [hAll]; exact hStatus)
    rw [hDone] at this
    exact Bool.false_ne_true this.symm
  · have := h.stops.reads_go_on hOne status hStatus
    rw [hDone] at this
    exact absurd this.symm Bool.false_ne_true

theorem Inv.start_read {w : World Word} (h : w.Inv blockCount)
    (hEnded : w.handler.streamActive = false) :
    (w.reads.filter PcapDma.IrqStatus.startEvent).length = w.enabledAtIrq.toNat ∧
      w.handler.startTsValid = w.enabledAtIrq := by
  have hCount := h.started.raised
  rw [(h.all_read hEnded).1] at hCount
  refine ⟨hCount, ?_⟩
  rw [h.handled.start]
  cases hAtIrq : w.enabledAtIrq with
  | false =>
      rw [hAtIrq, Bool.toNat_false, List.length_eq_zero_iff, List.filter_eq_nil_iff] at hCount
      exact List.any_eq_false.mpr hCount
  | true =>
      rw [hAtIrq, Bool.toNat_true] at hCount
      obtain ⟨status, hStatus⟩ :=
        List.exists_mem_of_length_pos (Nat.lt_of_lt_of_eq Nat.one_pos hCount.symm)
      rw [List.mem_filter] at hStatus
      exact List.any_eq_true.mpr ⟨status, hStatus⟩

end World

section Runs

variable {run : Run (@World.step Word blockSize blockCount)}

theorem inv_run (hCount : 0 < blockCount) (hBoot : (run.state 0).Boot)
    (hLegal : ∀ clock, (run.state clock).Legal (run.input clock))
    (hInTime : ∀ clock, (run.state clock).ReadInTime) (clock : Nat) :
    (run.state clock).Inv blockCount := by
  induction clock with
  | zero => exact hBoot.inv
  | succ clock ih =>
      rw [run.edge]
      exact ih.step hCount (hLegal clock) (hInTime clock)

/-- Every interrupt is handled once, as long as each is read before the next one is raised: the
statuses read are those raised, up to one that is on its way; the blocks taken from the ring
are one for each switch, in order and with its length; and at the end of the stream the start
event has been read once, and the timestamp is valid, if the capture was enabled. -/
theorem interrupts_handled_once (hCount : 0 < blockCount) (hBoot : (run.state 0).Boot)
    (hLegal : ∀ clock, (run.state clock).Legal (run.input clock))
    (hInTime : ∀ clock, (run.state clock).ReadInTime) :
    (∀ clock, (run.state clock).raised = (run.state clock).reads ∨
        ∃ last, (run.state clock).raised = (run.state clock).reads ++ [last]) ∧
      (∀ clock, blocksOf blockCount (run.state clock).reads =
          (run.state clock).received ++ (run.state clock).handler.holding ∧
        (run.state clock).handler.isrBlockIndex =
          ((run.state clock).reads.filter
            fun status => newBuffer status && !status.done).length % blockCount) ∧
      (∀ clock, (run.state clock).handler.streamActive = false →
        (run.state clock).raised = (run.state clock).reads ∧
          ((run.state clock).reads.filter PcapDma.IrqStatus.startEvent).length =
            (run.state clock).enabledAtIrq.toNat ∧
          (run.state clock).handler.startTsValid = (run.state clock).enabledAtIrq ∧
          ∀ last ∈ (run.state clock).reads.getLast?, last.addressMissing = false →
            (run.state clock).enabledAtIrq = (run.state clock).enabled) := by
  have hInv := inv_run hCount hBoot hLegal hInTime
  refine ⟨fun clock => ?_, fun clock => ⟨(hInv clock).handled.blocks, (hInv clock).handled.index⟩,
    fun clock hEnded => ?_⟩
  · rcases (hInv clock).read with ⟨_, _, _, hAll⟩ | ⟨_, hOne⟩
    · exact .inl hAll
    · exact .inr ⟨_, hOne⟩
  · obtain ⟨hAll, hStopped⟩ := (hInv clock).all_read hEnded
    obtain ⟨hOnce, hValid⟩ := (hInv clock).start_read hEnded
    refine ⟨hAll, hOnce, hValid, fun last hLast hPresent => ?_⟩
    obtain ⟨before, final, hSplit, _, _, hWell⟩ := (hInv clock).stops.stops hStopped
    rw [← hAll, hSplit, List.getLast?_concat] at hLast
    obtain rfl := Option.some.inj hLast
    exact (hWell hPresent).2

end Runs

section Captures

/-- The engine after its reset, with two blocks in the ring. -/
def atBoot : World Nat where
  dma := PcapDma.step (.boot 0) { dat := 0, dmaAddr := 0, blockSize := 128, dmaReset := true }
  dmaAddr := 0
  irqPrev := false
  pending := false
  handler := ⟨.idle, true, false, 0, (⟨false, false, false⟩, false)⟩
  raised := []
  reads := []
  received := []
  enabled := false
  enabledAtIrq := false

theorem atBoot_boot : atBoot.Boot :=
  ⟨⟨_, _, rfl, rfl⟩, rfl, rfl, ⟨rfl, rfl, rfl, rfl⟩, rfl, rfl, rfl, rfl, rfl⟩

/-- A capture that is started at clock 1 and enabled at clock 3. -/
def captureWith (env : Nat → Env Nat) : Run (@World.step Nat 128 2) :=
  .ofInputs _ atBoot fun clock =>
    { env clock with
      startEvent := clock == 3
      start := clock == 1
      address := if clock = 0 then some 0x1000 else if clock = 2 then some 0x2000 else none }

theorem captureWith_legal {env : Nat → Env Nat}
    (hNow : ((captureWith env).state 3).Legal ((captureWith env).input 3)) (clock : Nat) :
    ((captureWith env).state clock).Legal ((captureWith env).input clock) := by
  intro hStart
  obtain rfl : clock = 3 := by simpa [captureWith, Run.ofInputs] using hStart
  exact hNow hStart

/-- The handler reads the start event before the end of the capture. -/
def promptCapture : Run (@World.step Nat 128 2) :=
  captureWith fun clock =>
    { dat := 0
      done := clock == 12
      action :=
        if clock = 8 ∨ clock = 16 then some .enter
        else if clock = 9 ∨ clock = 17 then some (.readStatus false)
        else if clock = 18 then some .receive
        else none }

theorem promptCapture_readInTime (clock : Nat) : (promptCapture.state clock).ReadInTime := by
  by_cases hEarly : clock < 15
  · have hAll : ∀ c < 15, (promptCapture.state c).ReadInTime := by decide +kernel
    exact hAll clock hEarly
  · have hStopped : (promptCapture.state clock).dma.control.fsm = .completed := by
      induction clock, Nat.le_of_not_lt hEarly using Nat.le_induction with
      | base => decide +kernel
      | succ clock hLate ih =>
          rw [promptCapture.edge]
          change (PcapDma.step _ _).control.fsm = _
          rw [control_completed rfl (ih (Nat.not_lt.mpr hLate)), ih (Nat.not_lt.mpr hLate)]
    intro hRaises
    rw [World.raises_iff, hStopped] at hRaises
    exact absurd hRaises (by simp)

/-- Both interrupts of the capture have been read at clock 19, and the timestamp is valid. -/
theorem interrupts_handled_once_prompt :
    (promptCapture.state 19).handler.streamActive = false ∧
      (promptCapture.state 19).raised = (promptCapture.state 19).reads ∧
      (promptCapture.state 19).handler.startTsValid =
        (promptCapture.state 19).enabledAtIrq := by
  have hEnded : (promptCapture.state 19).handler.streamActive = false := by decide +kernel
  have hHandled := (interrupts_handled_once (by decide) atBoot_boot
    (captureWith_legal (by decide +kernel)) promptCapture_readInTime).2.2 19 hEnded
  exact ⟨hEnded, hHandled.1, hHandled.2.2.1⟩

/-- The capture ends before the handler is entered. -/
def shortCapture : Run (@World.step Nat 128 2) :=
  captureWith fun clock =>
    { dat := 0
      done := clock == 4
      action :=
        if clock = 20 then some .enter
        else if clock = 21 then some (.readStatus false)
        else if clock = 22 then some .receive
        else none }

/-- The timeout switches buffers between the entry of the handler and its read. -/
def overtakenCapture : Run (@World.step Nat 128 2) :=
  captureWith fun clock =>
    { dat := 7
      wstb := clock == 4
      timeout := 20
      bvalid := clock == 28
      action :=
        if clock = 7 ∨ clock = 37 then some .enter
        else if clock = 34 ∨ clock = 38 then some (.readStatus true)
        else if clock = 35 ∨ clock = 39 then some (.assignBuffer 0x3000)
        else if clock = 36 ∨ clock = 40 then some .receive
        else none }

/-- The start event of a short capture is never read, and one switch is handled twice when its
interrupt overtakes the read of the start event. -/
theorem status_overwritten :
    ((shortCapture.state 0).Boot ∧
      (∀ clock, (shortCapture.state clock).Legal (shortCapture.input clock)) ∧
      (shortCapture.state 23).handler.streamActive = false ∧
      (shortCapture.state 23).enabledAtIrq = true ∧
      (shortCapture.state 23).reads.all (fun status => !status.startEvent) = true ∧
      (shortCapture.state 23).handler.startTsValid = false) ∧
    (overtakenCapture.state 0).Boot ∧
      (∀ clock, (overtakenCapture.state clock).Legal (overtakenCapture.input clock)) ∧
      ((overtakenCapture.state 41).raised.filter newBuffer).length = 1 ∧
      (overtakenCapture.state 41).received = [(0, 4), (1, 4)] :=
  ⟨⟨atBoot_boot, captureWith_legal (by decide +kernel), by decide +kernel, by decide +kernel,
    by decide +kernel, by decide +kernel⟩,
    atBoot_boot, captureWith_legal (by decide +kernel), by decide +kernel, by decide +kernel⟩

end Captures

end Driver.Irq
