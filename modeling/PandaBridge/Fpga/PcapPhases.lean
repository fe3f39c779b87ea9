import PandaBridge.Fpga.PcapBursts

/-! Each state of the DMA engine leads to the next one with every word in its place. -/
namespace Fpga.PcapDma

variable {Word : Type} {blockSize : BitVec 32}

namespace World

variable {w : World Word} {e : Env Word} {q : Fifo.Queue Word}

theorem completed_step (h : w.dma.pcapCompleted = true) :
    (w.step blockSize e).dma.pcapCompleted = true := by
  simp [PcapDma.step, nextPcapCompleted, h]

theorem pushes_of_completed (hLegal : w.Legal e) (h : w.dma.pcapCompleted = true) :
    pushes e = [] := by
  have hNone : e.wstb = false := by
    refine Bool.eq_false_iff.mpr fun hPush => ?_
    have := (hLegal.push hPush).2.2
    rw [h] at this
    exact absurd this.symm Bool.false_ne_true
  simp [pushes, hNone]

/-- Outside the waiting and the interrupting state the timeout latch stands still. -/
theorem latch_step (hActv : w.dma.control.fsm ≠ .actv) (hIrq : w.dma.control.fsm ≠ .irq) :
    (w.step blockSize e).dma.timeout.pcapTimeoutLatch = w.dma.timeout.pcapTimeoutLatch := by
  simp [PcapDma.step, nextTimeout, hActv, hIrq]

theorem latch_of_timeout (hActv : w.dma.control.fsm = .actv)
    (hTimeout : w.dma.timeout.pcapTimeout = true) :
    (w.step blockSize e).dma.timeout.pcapTimeoutLatch = true := by
  simp [PcapDma.step, nextTimeout, hActv, hTimeout]

theorem keeps_of_ne_irq (hFsm : w.dma.control.fsm ≠ .irq) : w.givesBack blockSize e = false := by
  simp [givesBack, hFsm]

/-- The first buffer is used from START on. -/
theorem phase_init (hSized : Sized blockSize) (hDriven : w.Driven) (hLegal : w.Legal e)
    (hFsm : w.dma.control.fsm = .init) (hPhase : w.Phase blockSize q) :
    (w.step blockSize e).Phase blockSize (w.nextQueue blockSize e q) := by
  simp only [Phase, hFsm] at hPhase
  obtain ⟨hIdle, hPlaced, hPushed, hCount, hTlp, hLast⟩ := hPhase
  have hKeep : w.givesBack blockSize e = false := keeps_of_ne_irq (by simp [hFsm])
  have hControl : (w.step blockSize e).dma.control = _ :=
    control_init (i := w.input blockSize e) rfl hFsm
  have hNext := hIdle.step hLegal (by rw [hControl]; exact hIdle.start)
  have hStay := hIdle.placed_step hLegal hPlaced hKeep (.inl rfl)
  obtain ⟨hFew, hStarted, hSwitches, _⟩ := hDriven.init hFsm
  cases hGo : e.start && w.dma.nextDmaaddrValid with
  | false =>
      have hFsm' : (w.step blockSize e).dma.control.fsm = .init := by
        rw [hControl]
        simp [hGo]
      have hNoPush : pushes e = [] := by
        have hNone : e.wstb = false := by
          refine Bool.eq_false_iff.mpr fun hPush => ?_
          have := (hLegal.push hPush).2.1
          omega
        simp [pushes, hNone]
      simp only [Phase, hFsm']
      refine ⟨hNext, hStay, by rw [pushed_step, hPushed, hNoPush]; rfl, ?_⟩
      rw [hControl]
      exact ⟨hCount, hTlp, hLast⟩
  | true =>
      have hFsm' : (w.step blockSize e).dma.control.fsm = .actv := by
        rw [hControl]
        simp [hGo]
      simp only [Bool.and_eq_true] at hGo
      obtain ⟨hOne, _⟩ := hLegal.start hGo.1
      have hNone : e.address = none := by
        cases hAddress : e.address with
        | none => rfl
        | some address =>
            have hMay := hLegal.address (by rw [hAddress]; rfl)
            rw [hStarted] at hMay
            simp only [Bool.false_eq_true, and_false, false_or] at hMay
            omega
      have hFirst : w.inUse = w.dmaAddr := by
        obtain ⟨address, hGiven⟩ := List.length_eq_one_iff.mp hOne
        have hRegister := hDriven.register (by simp [hGiven])
        simpa [inUse, hSwitches, hGiven] using hRegister
      have hBase : (w.step blockSize e).inUse = w.inUse :=
        inUse_keep (by rw [hSwitches, hOne]; exact Nat.one_pos) hKeep
      simp only [Phase, hFsm']
      refine ⟨[], hNext, hStay, ?_⟩
      constructor <;> rw [hControl]
      · exact hCount
      · rw [hTlp]
        exact hSized.pos
      · exact Nat.zero_le _
      · intro _
        rw [hTlp]
        rfl
      · simp [hTlp, hBase, hFirst, hNone]
      · intro hLast'
        rw [hLast] at hLast'
        exact absurd hLast' Bool.false_ne_true

section Waiting

variable {filled : List Word} (hIdle : w.Idle) (hPlaced : w.Placed q filled)
  (hWaiting : w.Waiting blockSize q filled) (hLegal : w.Legal e)
  (hHolds : Fifo.Holds 10 w.dma.fifo q) (hFsm : w.dma.control.fsm = .actv)

/-- What stays while the engine waits. -/
structure Stays (blockSize : BitVec 32) (w : World Word) (e : Env Word) (q : Fifo.Queue Word)
    (filled : List Word) : Prop where
  placed : (w.step blockSize e).Placed (w.nextQueue blockSize e q) filled
  base : (w.step blockSize e).inUse = w.inUse
  last : w.dma.control.lastTlp = true →
    (w.step blockSize e).dma.pcapCompleted = true ∧ (w.nextQueue blockSize e q).entries = []

include hIdle hPlaced hWaiting hLegal hFsm in
theorem stays (hDriven : w.Driven) : Stays blockSize w e q filled := by
  have hKeep : w.givesBack blockSize e = false := keeps_of_ne_irq (by simp [hFsm])
  have hBase : (w.step blockSize e).inUse = w.inUse :=
    inUse_keep (hDriven.ahead (by simp [hFsm]) (by simp [hFsm])).1 hKeep
  refine ⟨hIdle.placed_step hLegal hPlaced hKeep (.inr hBase), hBase, fun hLast => ?_⟩
  obtain ⟨hCompleted, hEmpty⟩ := hWaiting.last hLast
  refine ⟨completed_step hCompleted, ?_⟩
  rw [entries_still hLegal hIdle.still, hEmpty, pushes_of_completed hLegal hCompleted]
  rfl

include hIdle hWaiting hLegal in
theorem waiting_again (hStays : Stays blockSize w e q filled) {last : Bool}
    (hControl : (w.step blockSize e).dma.control =
      { w.dma.control with dmaIrq := false, lastTlp := last })
    (hFsm : w.dma.control.fsm = .actv)
    (hLast : last = true → (w.step blockSize e).dma.pcapCompleted = true ∧
      (w.nextQueue blockSize e q).entries = [])
    (hKept : last = false → w.dma.control.lastTlp = false) :
    (w.step blockSize e).Phase blockSize (w.nextQueue blockSize e q) := by
  simp only [Phase, hControl, hFsm]
  refine ⟨filled, hIdle.step hLegal (by rw [hControl]; exact hIdle.start), hStays.placed, ?_⟩
  constructor <;> rw [hControl]
  · exact hWaiting.count
  · exact hWaiting.room
  · exact hWaiting.length
  · exact fun hNotLast => hWaiting.full (hKept hNotLast)
  · rw [hStays.base]
    exact hWaiting.address
  · exact hLast

include hIdle hWaiting hLegal in
/-- The engine stops waiting for an interrupt. -/
theorem interrupts (hStays : Stays blockSize w e q filled) {last : Bool}
    (hControl : (w.step blockSize e).dma.control =
      { w.dma.control with dmaIrq := false, lastTlp := last, fsm := .irq })
    (hLast : last = true → (w.step blockSize e).dma.pcapCompleted = true ∧
      ((w.nextQueue blockSize e q).entries = [] ∨ (e.status.dma || e.status.framing) = true))
    (hKept : last = false → w.dma.control.lastTlp = false) :
    (w.step blockSize e).Phase blockSize (w.nextQueue blockSize e q) := by
  simp only [Phase, hControl]
  refine ⟨filled, hIdle.step hLegal (by rw [hControl]; exact hIdle.start), hStays.placed, ?_⟩
  constructor <;> rw [hControl]
  · exact hWaiting.count
  · exact hWaiting.room.le
  · exact hWaiting.length
  · exact fun _ hNotLast => hWaiting.full (hKept hNotLast)
  · intro _ _
    rw [hStays.base]
    exact hWaiting.address
  · exact hLast

include hIdle hWaiting hLegal hHolds in
theorem starts_burst (hSized : Sized blockSize) (hStays : Stays blockSize w e q filled)
    {last : Bool}
    (hControl : (w.step blockSize e).dma.control =
      gotoDoDma w.dma { w.dma.control with dmaIrq := false, lastTlp := last })
    (hSome : q.entries ≠ [])
    (hPartly : q.entries.length < 16 →
      (w.step blockSize e).dma.timeout.pcapTimeoutLatch = true ∨ last = true)
    (hLast : last = true → (w.step blockSize e).dma.pcapCompleted = true ∧
      pushes e = [] ∧ q.entries.length < 16) :
    (w.step blockSize e).Phase blockSize (w.nextQueue blockSize e q) := by
  have hNotLast : w.dma.control.lastTlp = false := by
    refine Bool.eq_false_iff.mpr fun hLast => ?_
    exact hSome (hWaiting.last hLast).2
  have hLength := hWaiting.full hNotLast
  have hPos : 0 < q.entries.length := List.length_pos_iff.mpr hSome
  have hSize := transferSize_eq hHolds
  have hQueue := @entries_still _ blockSize _ _ q hLegal hIdle.still
  have hSlave := @Idle.slave_step _ blockSize _ _ hIdle hLegal
  simp only [Phase, hControl, gotoDoDma]
  refine ⟨filled, min 16 q.entries.length, hStays.placed, ?_⟩
  refine ⟨by omega, by omega, ?_, ?_, ?_, ?_, ?_, fun hPart => ?_, fun hIsLast => ?_, ?_,
    fun _ => ?_, .inl ⟨?_, hIdle.master_step, hSlave⟩⟩
  · rw [hControl]
    exact hSize
  · have hRoom := hWaiting.room
    have hLt := hSized.lt
    rw [hControl]
    simp only [gotoDoDma, hSize, hWaiting.count]
    omega
  · rw [hControl]
    exact hWaiting.room
  · rw [hControl]
    exact hLength
  · rw [hControl, hStays.base]
    exact hWaiting.address
  · rw [hControl]
    exact hPartly (by omega)
  · rw [hControl] at hIsLast
    obtain ⟨hCompleted, hNoPush, hFew⟩ := hLast hIsLast
    refine ⟨hCompleted, ?_⟩
    rw [hSlave, hQueue, hNoPush, List.append_nil, Slave.idle, List.length_nil]
    omega
  · rw [hQueue, List.length_append]
    omega
  · rw [(nextQueue_eq hLegal).1, hIdle.still]
    exact Fifo.Queue.shown_advance_idle hSome
  · rw [hControl]
    rfl

end Waiting

/-- Waiting goes on, or leads to a burst or an interrupt. -/
theorem phase_actv (hSized : Sized blockSize) (hDriven : w.Driven) (hLegal : w.Legal e)
    (hHolds : Fifo.Holds 10 w.dma.fifo q) (hFsm : w.dma.control.fsm = .actv)
    (hPhase : w.Phase blockSize q) :
    (w.step blockSize e).Phase blockSize (w.nextQueue blockSize e q) := by
  simp only [Phase, hFsm] at hPhase
  obtain ⟨filled, hIdle, hPlaced, hWaiting⟩ := hPhase
  have hStays := stays hIdle hPlaced hWaiting hLegal hFsm hDriven
  have hControl : (w.step blockSize e).dma.control = stepActv w.dma (w.input blockSize e) :=
    control_actv (i := w.input blockSize e) rfl hFsm
  have hEntries := @entries_still _ blockSize _ _ q hLegal hIdle.still
  have hEmptyOf : fifoCount w.dma = 0 → q.entries = [] := fun hCount =>
    List.length_eq_zero_iff.mp ((fifoCount_eq hHolds).symm.trans hCount)
  have hSomeOf : fifoCount w.dma ≠ 0 → q.entries ≠ [] := fun hCount hNil =>
    hCount ((fifoCount_eq hHolds).trans (by rw [hNil]; rfl))
  have hDone : w.dma.pcapCompleted = true → writingSample w.dma (w.input blockSize e) = false →
      fifoCount w.dma = 0 → (w.step blockSize e).dma.pcapCompleted = true ∧
        (w.nextQueue blockSize e q).entries = [] := by
    intro hCompleted _ hCount
    rw [hEntries, hEmptyOf hCount, pushes_of_completed hLegal hCompleted]
    exact ⟨completed_step hCompleted, rfl⟩
  have hLast : w.dma.control.lastTlp = true → (w.step blockSize e).dma.pcapCompleted = true ∧
      ((w.nextQueue blockSize e q).entries = [] ∨ (e.status.dma || e.status.framing) = true) :=
    fun hLast => ⟨(hStays.last hLast).1, .inl (hStays.last hLast).2⟩
  rcases @stepActv_cases _ w.dma (w.input blockSize e) with
    ⟨hCompleted, hError, hNext⟩ | ⟨_, _, _, hNext⟩ | ⟨hCount, hWhy, hNext⟩ |
    ⟨hCompleted, hStill, hCount, _, hNext⟩ | ⟨hCompleted, hStill, hCount, hNext⟩ |
    ⟨hCompleted, _, hCount, hFew, hNext⟩ | ⟨_, hNext⟩ | hNext
  · exact interrupts hIdle hWaiting hLegal hStays (hControl.trans hNext)
      (fun _ => ⟨completed_step hCompleted, .inr hError⟩) (fun h => absurd h.symm Bool.false_ne_true)
  · exact interrupts hIdle hWaiting hLegal hStays (hControl.trans hNext) hLast id
  · refine starts_burst hIdle hWaiting hLegal hHolds hSized hStays (hControl.trans hNext)
      (hSomeOf hCount) (fun hPart => ?_) (fun hIsLast => ?_)
    · rcases hWhy with hTimeout | hMany
      · exact .inl (latch_of_timeout hFsm hTimeout)
      · rw [fifoCount_eq hHolds] at hMany
        exact absurd hPart (Nat.not_lt.mpr hMany)
    · exact absurd (hWaiting.last hIsLast).2 (hSomeOf hCount)
  · obtain ⟨hCompleted', hEmpty⟩ := hDone hCompleted hStill hCount
    exact interrupts hIdle hWaiting hLegal hStays (hControl.trans hNext)
      (fun _ => ⟨hCompleted', .inl hEmpty⟩) (fun h => absurd h.symm Bool.false_ne_true)
  · exact waiting_again hIdle hWaiting hLegal hStays (hControl.trans hNext) hFsm
      (fun _ => hDone hCompleted hStill hCount) (fun h => absurd h.symm Bool.false_ne_true)
  · refine starts_burst hIdle hWaiting hLegal hHolds hSized hStays (hControl.trans hNext)
      (hSomeOf hCount) (fun _ => .inr rfl) (fun _ => ?_)
    rw [fifoCount_eq hHolds] at hFew
    exact ⟨completed_step hCompleted, pushes_of_completed hLegal hCompleted, hFew⟩
  · exact interrupts hIdle hWaiting hLegal hStays (hControl.trans hNext) hLast id
  · exact waiting_again hIdle hWaiting hLegal hStays (hControl.trans hNext) hFsm hStays.last id

section Bursting

variable {filled : List Word} {beats : Nat} (hPlaced : w.Placed q filled)
  (hBursting : w.Bursting blockSize q filled beats) (hLegal : w.Legal e)
  (hHolds : Fifo.Holds 10 w.dma.fifo q) (hFsm : w.dma.control.fsm = .doDma)

include hBursting in
theorem awlen_eq : AxiWriteMaster.awlen (masterPorts w.dma (w.input blockSize e)) = beats - 1 := by
  have hPos := hBursting.beats_pos
  have hLe := hBursting.beats_le
  simp only [AxiWriteMaster.awlen, AxiWriteMaster.axiBurstLen, masterPorts, hBursting.burstLen]
  omega

include hBursting in
theorem wlast_eq (hBeat : w.beatTaken blockSize e = true) :
    AxiWriteMaster.wlast w.dma.master (masterPorts w.dma (w.input blockSize e)) =
      decide (w.dma.master.wlenCount + 1 = beats) := by
  have hPos := hBursting.beats_pos
  have hLe := hBursting.beats_le
  have hLength : AxiWriteMaster.axiBurstLen (masterPorts w.dma (w.input blockSize e)) =
      beats - 1 := by
    simp only [AxiWriteMaster.axiBurstLen, masterPorts, hBursting.burstLen]
    omega
  have hNext : AxiWriteMaster.wnext w.dma.master (masterPorts w.dma (w.input blockSize e)) =
      true := hBeat
  rw [AxiWriteMaster.wlast, hNext, hLength, Bool.and_true, Bool.eq_iff_iff, beq_iff_eq,
    decide_eq_true_iff]
  omega

theorem memory_of_no_answer (hAnswer : e.answer = false) :
    (w.step blockSize e).memory = w.memory := by
  change w.nextMemory e = w.memory
  simp [nextMemory, hAnswer]

include hBursting in
theorem address_step (hAnswer : e.answer = false) (hStart : w.dma.control.dmaStart = false)
    (hControl : (w.step blockSize e).dma.control = { w.dma.control with dmaStart := false })
    (hOffered : w.AddressOffered beats) : (w.step blockSize e).AddressOffered beats := by
  have hLen := awlen_eq (e := e) hBursting
  unfold AddressOffered at hOffered ⊢
  rw [hControl]
  rcases hOffered with ⟨hValid, hNone⟩ | ⟨hTaken, hSome⟩
  · cases hReady : e.awready with
    | false =>
        refine .inl ⟨?_, ?_⟩
        · simp [PcapDma.step, AxiWriteMaster.step, masterPorts, hReady, hValid, hStart]
        · simp [nextSlave, hReady, hAnswer, hNone]
    | true =>
        refine .inr ⟨?_, ?_⟩
        · simp [PcapDma.step, AxiWriteMaster.step, masterPorts, hReady, hValid]
        · simp [nextSlave, hReady, hValid, hLen]
  · refine .inr ⟨?_, ?_⟩
    · simp [PcapDma.step, AxiWriteMaster.step, masterPorts, hTaken, hStart]
    · simp [nextSlave, hTaken, hAnswer, hSome]

/-- A clock of a burst without an answer, as far as the beats go. -/
structure Moves (blockSize : BitVec 32) (w : World Word) (e : Env Word) (q : Fifo.Queue Word)
    (beats : Nat) : Prop where
  offered : (w.step blockSize e).DataOffered beats
  words : (w.step blockSize e).slave.beats ++ (w.nextQueue blockSize e q).entries =
    w.slave.beats ++ q.entries ++ pushes e
  shown : (w.step blockSize e).slave.beats.length < beats →
    (w.nextQueue blockSize e q).shown.isSome = true

include hBursting hLegal in
theorem moves_still (hAnswer : e.answer = false) (hStart : w.dma.control.dmaStart = false)
    (hStill : w.beatTaken blockSize e = false) (hOffered : w.DataOffered beats) :
    Moves blockSize w e q beats := by
  have hNext : AxiWriteMaster.wnext w.dma.master (masterPorts w.dma (w.input blockSize e)) =
      false := hStill
  have hNotLast : AxiWriteMaster.wlast w.dma.master (masterPorts w.dma (w.input blockSize e)) =
      false := by simp [AxiWriteMaster.wlast, hNext]
  have hBeats : (w.step blockSize e).slave.beats = w.slave.beats := by
    simp [nextSlave, hAnswer, hNext]
  have hSlaveLast : (w.step blockSize e).slave.last = w.slave.last := by
    simp [nextSlave, hAnswer, hNotLast]
  have hMaster : (w.step blockSize e).dma.master.wvalid = w.dma.master.wvalid ∧
      (w.step blockSize e).dma.master.wlenCount = w.dma.master.wlenCount := by
    have hPorts : (masterPorts w.dma (w.input blockSize e)).reset = false ∧
        (masterPorts w.dma (w.input blockSize e)).dmaStart = false := ⟨rfl, hStart⟩
    simp [PcapDma.step, AxiWriteMaster.step, hNext, hNotLast, hPorts]
  refine ⟨?_, ?_, fun hMore => ?_⟩
  · unfold DataOffered at hOffered ⊢
    rw [hBeats, hSlaveLast, hMaster.1, hMaster.2]
    exact hOffered
  · rw [hBeats, entries_still hLegal hStill, List.append_assoc]
  · rw [(nextQueue_eq hLegal).1, hStill]
    refine Fifo.Queue.shown_advance_idle fun hNil => ?_
    rw [hBeats] at hMore
    have hEnough := hBursting.enough
    rw [hNil, List.length_nil] at hEnough
    omega

include hBursting hLegal hHolds in
theorem moves_beat (hAnswer : e.answer = false) (hStart : w.dma.control.dmaStart = false)
    (hBeat : w.beatTaken blockSize e = true) (hOffered : w.DataOffered beats) :
    Moves blockSize w e q beats := by
  have hNext : AxiWriteMaster.wnext w.dma.master (masterPorts w.dma (w.input blockSize e)) =
      true := hBeat
  have hValid : w.dma.master.wvalid = true := by
    simp only [AxiWriteMaster.wnext, Bool.and_eq_true] at hNext
    exact hNext.2
  obtain ⟨_, hCount, hMore, hNotLast⟩ | ⟨hNotValid, _⟩ := hOffered
  · have hShown := hBursting.shown hMore
    obtain ⟨rest, hEntries, hLeft⟩ := entries_beat hLegal hHolds hBeat hShown
    have hBeats : (w.step blockSize e).slave.beats = w.slave.beats ++ [w.dma.fifo.readDataO] := by
      simp [nextSlave, hAnswer, hNext]
    have hWlast := wlast_eq hBursting hBeat
    have hLe := hBursting.beats_le
    have hPorts : (masterPorts w.dma (w.input blockSize e)).reset = false ∧
        (masterPorts w.dma (w.input blockSize e)).dmaStart = false := ⟨rfl, hStart⟩
    refine ⟨?_, ?_, fun hStillMore => ?_⟩
    · unfold DataOffered
      rw [hBeats, List.length_append, List.length_singleton]
      by_cases hEnd : w.dma.master.wlenCount + 1 = beats
      · rw [decide_eq_true hEnd] at hWlast
        refine .inr ⟨?_, ?_, by omega, ?_⟩
        · simp [PcapDma.step, AxiWriteMaster.step, hNext, hWlast]
        · simp [PcapDma.step, AxiWriteMaster.step, hWlast]
        · simp [nextSlave, hWlast]
      · rw [decide_eq_false hEnd] at hWlast
        refine .inl ⟨?_, ?_, by omega, ?_⟩
        · simp [PcapDma.step, AxiWriteMaster.step, hNext, hWlast, hPorts, hValid]
        · simp only [step_dma, PcapDma.step, AxiWriteMaster.step, hNext, hWlast, hPorts,
            Bool.or_self, Bool.false_eq_true, if_false, if_true]
          omega
        · simp [nextSlave, hWlast, hAnswer, hNotLast]
    · rw [hBeats, hLeft, hEntries]
      simp
    · rw [(nextQueue_eq hLegal).1, hBeat]
      refine Fifo.Queue.shown_advance_ready hShown ?_
      rw [hBeats, List.length_append, List.length_singleton] at hStillMore
      have hEnough := hBursting.enough
      omega
  · rw [hValid] at hNotValid
    exact absurd hNotValid.symm Bool.false_ne_true

include hFsm in
theorem bursting_base (hDriven : w.Driven) : (w.step blockSize e).inUse = w.inUse :=
  inUse_keep (hDriven.ahead (by simp [hFsm]) (by simp [hFsm])).1
    (keeps_of_ne_irq (by simp [hFsm]))

include hPlaced hBursting hLegal hFsm in
theorem burst_goes_on (hDriven : w.Driven) (hAnswer : e.answer = false)
    (hControl : (w.step blockSize e).dma.control = { w.dma.control with dmaStart := false })
    (hAddress : (w.step blockSize e).AddressOffered beats) (hMoves : Moves blockSize w e q beats) :
    (w.step blockSize e).Phase blockSize (w.nextQueue blockSize e q) := by
  have hKeep : w.givesBack blockSize e = false := keeps_of_ne_irq (by simp [hFsm])
  have hBase := @bursting_base _ blockSize w e hFsm hDriven
  have hFsm' : (w.step blockSize e).dma.control.fsm = .doDma := by rw [hControl]; exact hFsm
  have hTotal := congrArg List.length hMoves.words
  simp only [List.length_append] at hTotal
  simp only [Phase, hFsm']
  refine ⟨filled, beats, ⟨?_, ?_⟩, hBursting.beats_pos, hBursting.beats_le, ?_, ?_, ?_, ?_, ?_,
    fun hPart => ?_, fun hLast => ?_, ?_, hMoves.shown, .inr ⟨?_, hAddress, hMoves.offered⟩⟩
  · have hWords := hMoves.words
    rw [List.append_assoc] at hWords
    rw [pushed_step, delivered_keep hKeep, hPlaced.pushed]
    simp only [List.append_assoc]
    rw [hWords]
  · rw [memory_of_no_answer hAnswer, hBase]
    exact hPlaced.landed
  · rw [hControl]
    exact hBursting.burstLen
  · rw [hControl]
    exact hBursting.count
  · rw [hControl]
    exact hBursting.room
  · rw [hControl]
    exact hBursting.length
  · rw [hControl, hBase]
    exact hBursting.address
  · rw [latch_step (by simp [hFsm]) (by simp [hFsm]), hControl]
    exact hBursting.partly hPart
  · rw [hControl] at hLast
    obtain ⟨hCompleted, hAll⟩ := hBursting.last hLast
    refine ⟨completed_step hCompleted, ?_⟩
    rw [pushes_of_completed hLegal hCompleted, List.length_nil] at hTotal
    omega
  · have hEnough := hBursting.enough
    omega
  · rw [hControl]

include hPlaced hBursting hLegal hFsm in
theorem burst_begins (hDriven : w.Driven) (hStart : w.dma.control.dmaStart = true)
    (hMaster : w.dma.master = .idle) (hSlave : w.slave = .idle) :
    (w.step blockSize e).Phase blockSize (w.nextQueue blockSize e q) := by
  have hAnswer : e.answer = false := by
    refine Bool.eq_false_iff.mpr fun hAnswer => ?_
    have hTaken := (hLegal.answer hAnswer).2
    simp [hSlave, Slave.idle] at hTaken
  have hControl : (w.step blockSize e).dma.control = { w.dma.control with dmaStart := false } := by
    rw [step_dma, control_doDma (i := w.input blockSize e) rfl hFsm]
    simp [hAnswer]
  have hStill : w.beatTaken blockSize e = false := by
    simp [beatTaken, AxiWriteMaster.wnext, hMaster, AxiWriteMaster.State.idle]
  have hSlave' : (w.step blockSize e).slave = .idle := by
    simp [nextSlave, hAnswer, hMaster, hSlave, AxiWriteMaster.wnext, AxiWriteMaster.wlast,
      AxiWriteMaster.State.idle, Slave.idle]
  have hMaster' : (w.step blockSize e).dma.master = ⟨true, true, 0⟩ := by
    simp [PcapDma.step, AxiWriteMaster.step, masterPorts, hMaster, hStart, AxiWriteMaster.wnext,
      AxiWriteMaster.wlast, AxiWriteMaster.State.idle]
  refine burst_goes_on hPlaced hBursting hLegal hFsm hDriven hAnswer hControl ?_ ⟨?_, ?_, ?_⟩
  · exact .inl ⟨by rw [hMaster'], by rw [hSlave']; rfl⟩
  · exact .inl ⟨by rw [hMaster'], by rw [hMaster', hSlave']; rfl, by
      rw [hSlave']; exact hBursting.beats_pos, by rw [hSlave']; rfl⟩
  · rw [hSlave', entries_still hLegal hStill, hSlave, List.append_assoc]
  · intro _
    rw [(nextQueue_eq hLegal).1, hStill]
    refine Fifo.Queue.shown_advance_idle fun hNil => ?_
    have hEnough := hBursting.enough
    rw [hNil, hSlave, Slave.idle, List.length_nil] at hEnough
    have hPos := hBursting.beats_pos
    omega

include hPlaced hBursting hLegal hFsm in
/-- The answer: the beats have landed behind the words of the buffer. -/
theorem burst_ends (hSized : Sized blockSize) (hDriven : w.Driven) (hAnswer : e.answer = true)
    (hStart : w.dma.control.dmaStart = false) (hAddress : w.AddressOffered beats)
    (hData : w.DataOffered beats) :
    (w.step blockSize e).Phase blockSize (w.nextQueue blockSize e q) := by
  have hKeep : w.givesBack blockSize e = false := keeps_of_ne_irq (by simp [hFsm])
  have hBase := @bursting_base _ blockSize w e hFsm hDriven
  obtain ⟨hTaken, hSlaveLast⟩ := hLegal.answer hAnswer
  obtain ⟨hNoAddress, hSlaveAddress⟩ : w.dma.master.awvalid = false ∧
      w.slave.address = some (w.dma.control.axiAwaddr, beats - 1) := by
    rcases hAddress with ⟨_, hNone⟩ | hSome
    · rw [hNone] at hTaken
      exact absurd hTaken Bool.false_ne_true
    · exact hSome
  obtain ⟨hNoData, hCountZero, hAll⟩ : w.dma.master.wvalid = false ∧
      w.dma.master.wlenCount = 0 ∧ w.slave.beats.length = beats := by
    rcases hData with ⟨_, _, _, hNotLast⟩ | ⟨hNo, hZero, hAll, _⟩
    · rw [hNotLast] at hSlaveLast
      exact absurd hSlaveLast Bool.false_ne_true
    · exact ⟨hNo, hZero, hAll⟩
  have hStill : w.beatTaken blockSize e = false := by
    simp [beatTaken, AxiWriteMaster.wnext, hNoData]
  have hControl : (w.step blockSize e).dma.control =
      { w.dma.control with
        dmaStart := false
        tlpCount := (w.dma.control.tlpCount + 1) % 2 ^ 32
        fsm := .isFinished } := by
    rw [step_dma, control_doDma (i := w.input blockSize e) rfl hFsm]
    simp [hAnswer]
  have hTlp : (w.dma.control.tlpCount + 1) % 2 ^ 32 = w.dma.control.tlpCount + 1 := by
    have hRoom := hBursting.room
    have hLt := hSized.lt
    omega
  have hSlave' : (w.step blockSize e).slave = .idle := by
    simp [nextSlave, hAnswer, hNoAddress, hNoData, AxiWriteMaster.wnext, AxiWriteMaster.wlast,
      Slave.idle]
  have hMaster' : (w.step blockSize e).dma.master = .idle := by
    simp [PcapDma.step, AxiWriteMaster.step, masterPorts, hNoAddress, hNoData, hStart, hCountZero,
      AxiWriteMaster.wnext, AxiWriteMaster.wlast, AxiWriteMaster.State.idle]
  have hMemory : (w.step blockSize e).memory =
      landBeats w.memory (w.inUse + BitVec.ofNat 32 (4 * filled.length)) w.slave.beats := by
    have hOffset : 4 * filled.length = 64 * w.dma.control.tlpCount := by
      rw [hBursting.length]
      omega
    change w.nextMemory e = _
    rw [hOffset, ← hBursting.address]
    simp [nextMemory, hAnswer, hSlaveAddress]
  have hLe := hBursting.beats_le
  simp only [Phase, hControl]
  refine ⟨filled ++ w.slave.beats, ⟨hMaster', hSlave', by rw [hControl]⟩, ⟨?_, ?_⟩,
    ⟨?_, ?_, ?_, ?_, fun hLatch hLast => ?_, ?_, fun hLast => ?_⟩⟩
  · rw [pushed_step, delivered_keep hKeep, hSlave', entries_still hLegal hStill, hPlaced.pushed]
    simp [Slave.idle]
  · have hRoom := hBursting.room
    have hLt := hSized.lt
    rw [hMemory, hBase, List.length_append,
      wordsAt_landBeats _ (by rw [hBursting.length]; omega), hPlaced.landed]
  · rw [hControl, List.length_append, hAll]
    exact hBursting.count
  · rw [hControl]
    dsimp only
    omega
  · rw [hControl, hTlp]
    exact hBursting.room
  · rw [hControl, hTlp, List.length_append, hBursting.length]
    dsimp only
    omega
  · rw [latch_step (by simp [hFsm]) (by simp [hFsm])] at hLatch
    rw [hControl] at hLast
    have hFull : ¬ beats < 16 := by
      intro hPart
      rcases hBursting.partly hPart with hOn | hOn
      · rw [hLatch] at hOn
        exact absurd hOn Bool.false_ne_true
      · exact absurd (hLast.symm.trans hOn) Bool.false_ne_true
    rw [hControl, hTlp, List.length_append, hBursting.length]
    dsimp only
    omega
  · rw [hControl, hTlp, hBase]
    exact hBursting.address
  · rw [hControl] at hLast
    obtain ⟨hCompleted, hTotal⟩ := hBursting.last hLast
    refine ⟨completed_step hCompleted, ?_⟩
    rw [entries_still hLegal hStill, pushes_of_completed hLegal hCompleted, List.append_nil]
    exact List.length_eq_zero_iff.mp (by omega)

end Bursting

theorem phase_doDma (hSized : Sized blockSize) (hDriven : w.Driven) (hLegal : w.Legal e)
    (hHolds : Fifo.Holds 10 w.dma.fifo q) (hFsm : w.dma.control.fsm = .doDma)
    (hPhase : w.Phase blockSize q) :
    (w.step blockSize e).Phase blockSize (w.nextQueue blockSize e q) := by
  simp only [Phase, hFsm] at hPhase
  obtain ⟨filled, beats, hPlaced, hBursting⟩ := hPhase
  rcases hBursting.stage with ⟨hStart, hMaster, hSlave⟩ | ⟨hStart, hAddress, hData⟩
  · exact burst_begins hPlaced hBursting hLegal hFsm hDriven hStart hMaster hSlave
  · cases hAnswer : e.answer with
    | true =>
        exact burst_ends hPlaced hBursting hLegal hFsm hSized hDriven hAnswer hStart hAddress hData
    | false =>
        have hControl : (w.step blockSize e).dma.control =
            { w.dma.control with dmaStart := false } := by
          rw [step_dma, control_doDma (i := w.input blockSize e) rfl hFsm]
          simp [hAnswer]
        refine burst_goes_on hPlaced hBursting hLegal hFsm hDriven hAnswer hControl
          (address_step hBursting hAnswer hStart hControl hAddress) ?_
        cases hBeat : w.beatTaken blockSize e with
        | false => exact moves_still hBursting hLegal hAnswer hStart hBeat hData
        | true => exact moves_beat hBursting hLegal hHolds hAnswer hStart hBeat hData

/-- After a burst the engine interrupts or waits again. -/
theorem phase_isFinished (hDriven : w.Driven) (hLegal : w.Legal e)
    (hFsm : w.dma.control.fsm = .isFinished) (hPhase : w.Phase blockSize q) :
    (w.step blockSize e).Phase blockSize (w.nextQueue blockSize e q) := by
  simp only [Phase, hFsm] at hPhase
  obtain ⟨filled, hIdle, hPlaced, hFinished⟩ := hPhase
  have hKeep : w.givesBack blockSize e = false := keeps_of_ne_irq (by simp [hFsm])
  have hBase : (w.step blockSize e).inUse = w.inUse :=
    inUse_keep (hDriven.ahead (by simp [hFsm]) (by simp [hFsm])).1 hKeep
  have hStay := hIdle.placed_step hLegal hPlaced hKeep (.inr hBase)
  have hLatch : (w.step blockSize e).dma.timeout.pcapTimeoutLatch =
      w.dma.timeout.pcapTimeoutLatch := latch_step (by simp [hFsm]) (by simp [hFsm])
  have hLast : w.dma.control.lastTlp = true → (w.step blockSize e).dma.pcapCompleted = true ∧
      (w.nextQueue blockSize e q).entries = [] := by
    intro hLast
    obtain ⟨hCompleted, hEmpty⟩ := hFinished.last hLast
    refine ⟨completed_step hCompleted, ?_⟩
    rw [entries_still hLegal hIdle.still, hEmpty, pushes_of_completed hLegal hCompleted]
    rfl
  have hControl : (w.step blockSize e).dma.control = _ :=
    control_isFinished (i := w.input blockSize e) rfl hFsm
  have hPos := hFinished.some
  cases hStop : w.dma.timeout.pcapTimeoutLatch || bufferFull w.dma (w.input blockSize e) with
  | true =>
      rw [if_pos hStop] at hControl
      simp only [Phase, hControl]
      refine ⟨filled, hIdle.step hLegal (by rw [hControl]; exact hIdle.start), hStay, ?_⟩
      refine ⟨?_, ?_, ?_, fun hOff hNotLast => ?_, fun hOff hRoom => ?_, fun hIsLast => ?_⟩
      · rw [hControl]
        exact hFinished.count
      · rw [hControl]
        exact hFinished.room
      · rw [hControl]
        exact hFinished.length
      · rw [hLatch] at hOff
        rw [hControl] at hNotLast ⊢
        exact hFinished.full hOff hNotLast
      · rw [hLatch] at hOff
        rw [hControl] at hRoom
        have hFull : w.dma.control.tlpCount = blocks blockSize := by
          simpa [hOff, bufferFull, blockTlpSize, blocks] using hStop
        exact absurd hRoom (by rw [hFull]; exact Nat.lt_irrefl _)
      · rw [hControl] at hIsLast
        exact ⟨(hLast hIsLast).1, .inl (hLast hIsLast).2⟩
  | false =>
      rw [if_neg (Bool.eq_false_iff.mp hStop)] at hControl
      simp only [Bool.or_eq_false_iff] at hStop
      have hNotFull : w.dma.control.tlpCount ≠ blocks blockSize := by
        simpa [bufferFull, blockTlpSize, blocks] using hStop.2
      simp only [Phase, hControl]
      refine ⟨filled, hIdle.step hLegal (by rw [hControl]; exact hIdle.start), hStay, ?_⟩
      constructor <;> rw [hControl]
      · exact hFinished.count
      · exact Nat.lt_of_le_of_ne hFinished.room hNotFull
      · exact hFinished.length
      · exact hFinished.full hStop.1
      · rw [hBase, hFinished.address, BitVec.add_assoc, burstBytes, axiBurstMax,
          ← BitVec.ofNat_add]
        have hBytes : 64 * (w.dma.control.tlpCount - 1) + 16 * 4 =
            64 * w.dma.control.tlpCount := by omega
        rw [hBytes]
      · exact hLast

/-- A buffer that is given back holds the words that it was filled with. -/
theorem delivered_switch {filled : List Word} (hPlaced : w.Placed q filled)
    (hCount : w.dma.control.sampleCount = filled.length)
    (hGives : w.givesBack blockSize e = true) :
    (w.step blockSize e).delivered = w.delivered ++ filled := by
  simp [delivered, nextSwitches, hGives, hCount, hPlaced.landed]

/-- An interrupt gives the buffer back or leaves it as it is. -/
theorem phase_irq (hSized : Sized blockSize) (hDriven : w.Driven) (hLegal : w.Legal e)
    (hNotFull : w.NotFullEarly blockSize e) (hFsm : w.dma.control.fsm = .irq)
    (hPhase : w.Phase blockSize q) :
    (w.step blockSize e).Phase blockSize (w.nextQueue blockSize e q) := by
  simp only [Phase, hFsm] at hPhase
  obtain ⟨filled, hIdle, hPlaced, hIrq⟩ := hPhase
  have hControl : (w.step blockSize e).dma.control = stepIrq w.dma (w.input blockSize e) :=
    control_irq (i := w.input blockSize e) rfl hFsm
  have hFsmNext : (w.step blockSize e).dma.control.fsm =
      if w.dma.control.lastTlp || !w.dma.nextDmaaddrValid then Fsm.completed else .actv := by
    rw [hControl, stepIrq_fsm]
  have hStart : (w.step blockSize e).dma.control.dmaStart = false := by
    rw [hControl]
    cases hSwitch : switchBuffer w.dma (w.input blockSize e) <;>
      simp [stepIrq, hSwitch, hIdle.start]
  have hNext := hIdle.step hLegal hStart
  have hEntries := @entries_still _ blockSize _ _ q hLegal hIdle.still
  have hPushed : (w.step blockSize e).pushed =
      w.delivered ++ filled ++ (w.nextQueue blockSize e q).entries := by
    rw [pushed_step, hPlaced.pushed, hIdle.slave, hEntries]
    simp [Slave.idle]
  cases hGives : w.givesBack blockSize e with
  | true =>
      have hSwitch := (givesBack_eq_true.mp hGives).2
      have hDelivered := delivered_switch hPlaced hIrq.count hGives
      cases hStop : w.dma.control.lastTlp || !w.dma.nextDmaaddrValid with
      | true =>
          rw [if_pos hStop] at hFsmNext
          simp only [Phase, hFsmNext]
          exact ⟨hNext, _, hPushed.trans (by rw [hDelivered])⟩
      | false =>
          rw [if_neg (Bool.eq_false_iff.mp hStop)] at hFsmNext
          have hGiven := hDriven.gives_valid hNotFull hGives (by rw [hFsmNext]; simp)
          have hBase := hDriven.inUse_switch hLegal hGives hGiven
          simp only [Bool.or_eq_false_iff] at hStop
          simp only [Phase, hFsmNext]
          refine ⟨[], hNext, ⟨?_, rfl⟩, ?_⟩
          · rw [hPushed, hDelivered, hNext.slave]
            simp [Slave.idle]
          · constructor <;> rw [hControl] <;> simp only [stepIrq, hSwitch, if_true]
            · rfl
            · exact hSized.pos
            · exact Nat.zero_le _
            · exact fun _ => rfl
            · rw [hBase]
              simp
            · intro hLast
              rw [hStop.1] at hLast
              exact absurd hLast Bool.false_ne_true
  | false =>
      have hSwitch : switchBuffer w.dma (w.input blockSize e) = false := by
        simpa [givesBack, hFsm] using hGives
      have hOff := hSwitch
      simp only [switchBuffer, Bool.or_eq_false_iff] at hOff
      obtain ⟨⟨hLatch, hRoom⟩, hNotLast⟩ := hOff
      have hLess : w.dma.control.tlpCount < blocks blockSize := by
        refine Nat.lt_of_le_of_ne hIrq.room ?_
        simpa [bufferFull, blockTlpSize, blocks] using hRoom
      cases hStop : w.dma.control.lastTlp || !w.dma.nextDmaaddrValid with
      | true =>
          rw [if_pos hStop] at hFsmNext
          simp only [Phase, hFsmNext]
          exact ⟨hNext, _, hPushed.trans (by rw [delivered_keep hGives, List.append_assoc])⟩
      | false =>
          rw [if_neg (Bool.eq_false_iff.mp hStop)] at hFsmNext
          have hBase : (w.step blockSize e).inUse = w.inUse :=
            inUse_keep (hDriven.ahead (by simp [hFsm]) (by simp [hFsm])).1 hGives
          simp only [Phase, hFsmNext]
          refine ⟨filled, hNext, hIdle.placed_step hLegal hPlaced hGives (.inr hBase), ?_⟩
          constructor <;> rw [hControl] <;>
            simp only [stepIrq, hSwitch, Bool.false_eq_true, if_false]
          · exact hIrq.count
          · exact hLess
          · exact hIrq.length
          · exact hIrq.goes hLatch
          · rw [hBase]
            exact hIrq.address hLatch hLess
          · intro hLast
            rw [hNotLast] at hLast
            exact absurd hLast Bool.false_ne_true

theorem phase_completed (hLegal : w.Legal e) (hFsm : w.dma.control.fsm = .completed)
    (hPhase : w.Phase blockSize q) :
    (w.step blockSize e).Phase blockSize (w.nextQueue blockSize e q) := by
  simp only [Phase, hFsm] at hPhase
  obtain ⟨hIdle, rest, hPushed⟩ := hPhase
  have hControl : (w.step blockSize e).dma.control = _ :=
    control_completed (i := w.input blockSize e) rfl hFsm
  have hKeep : w.givesBack blockSize e = false := keeps_of_ne_irq (by simp [hFsm])
  simp only [Phase, hControl, hFsm]
  refine ⟨hIdle.step hLegal (by rw [hControl]; exact hIdle.start), rest ++ pushes e, ?_⟩
  rw [pushed_step, delivered_keep hKeep, hPushed, List.append_assoc]

end World

end Fpga.PcapDma
