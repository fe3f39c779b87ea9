import PandaBridge.Fpga.PcapWorld

/-! How the addresses that the driver gives keep in step with the buffers that the DMA engine
takes: one address is ahead of the buffer in use exactly while the engine holds it for valid. -/
namespace Fpga.PcapDma

variable {Word : Type} {blockSize : BitVec 32}

namespace World

/-- Where the driver and the engine are with the addresses. -/
structure Driven (w : World Word) : Prop where
  bound : w.given.length ≤ w.switches.length + 2
  register : w.given ≠ [] → w.given.getLast? = some w.dmaAddr
  init : w.dma.control.fsm = .init →
    w.given.length ≤ 1 ∧ w.started = false ∧ w.switches = [] ∧
      w.dma.timeout.pcapTimeoutLatch = false
  ahead : w.dma.control.fsm ≠ .init → w.dma.control.fsm ≠ .completed →
    w.switches.length < w.given.length ∧ w.started = true
  valid : w.dma.control.fsm ≠ .completed →
    (w.dma.nextDmaaddrValid = true ↔
      w.given.length = w.switches.length + 2 ∨ w.switches = [] ∧ w.given.length = 1)
  early : w.given.length < 2 →
    w.pushed = [] ∧ w.dma.timeout.firstData = false ∧ w.dma.timeout.pcapTimeout = false ∧
      w.dma.timeout.pcapTimeoutLatch = false

variable {w : World Word} {e : Env Word}

theorem switches_keep (hKeep : w.givesBack blockSize e = false) :
    (w.step blockSize e).switches = w.switches := by
  simp [nextSwitches, hKeep]

theorem switches_length (hGives : w.givesBack blockSize e = true) :
    (w.step blockSize e).switches.length = w.switches.length + 1 := by
  simp [nextSwitches, hGives]

theorem inUse_keep (hAhead : w.switches.length < w.given.length)
    (hKeep : w.givesBack blockSize e = false) : (w.step blockSize e).inUse = w.inUse := by
  rw [inUse, switches_keep hKeep, inUse, step_given, List.getD_eq_getElem?_getD,
    List.getD_eq_getElem?_getD, List.getElem?_append_left hAhead]

theorem Driven.inUse_switch (h : w.Driven) (hLegal : w.Legal e)
    (hGives : w.givesBack blockSize e = true)
    (hGiven : w.given.length = w.switches.length + 2) :
    (w.step blockSize e).inUse = (w.input blockSize e).dmaAddr := by
  have hNone : e.address = none := by
    cases hAddress : e.address with
    | none => rfl
    | some address =>
        have hMay := hLegal.address (by rw [hAddress]; rfl)
        omega
  have hLast := h.register (List.ne_nil_of_length_pos (by omega))
  have hIndex : w.given.length - 1 = w.switches.length + 1 := by omega
  rw [List.getLast?_eq_getElem?, hIndex] at hLast
  rw [inUse, switches_length hGives]
  simp [hNone, List.getD_eq_getElem?_getD, hLast]

theorem givesBack_eq_true :
    w.givesBack blockSize e = true ↔
      w.dma.control.fsm = .irq ∧ switchBuffer w.dma (w.input blockSize e) = true := by
  simp [givesBack]

/-- Before the second address no buffer is full. -/
def NotFullEarly (blockSize : BitVec 32) (w : World Word) (e : Env Word) : Prop :=
  w.given.length < 2 → w.dma.control.fsm = .irq → w.dma.control.lastTlp = false →
    bufferFull w.dma (w.input blockSize e) = false

/-- An engine that goes on after a switch had a next address. -/
theorem Driven.gives_valid (h : w.Driven) (hNotFull : w.NotFullEarly blockSize e)
    (hGives : w.givesBack blockSize e = true)
    (hGoes : (w.step blockSize e).dma.control.fsm ≠ .completed) :
    w.given.length = w.switches.length + 2 := by
  obtain ⟨hFsm, hSwitch⟩ := givesBack_eq_true.mp hGives
  obtain ⟨hLast, hValid⟩ := fsm_irq (i := w.input blockSize e) rfl hFsm hGoes
  rcases (h.valid (by simp [hFsm])).mp hValid with hAhead | ⟨_, hFew⟩
  · exact hAhead
  · have hLatch := (h.early (by omega)).2.2.2
    have hRoom := hNotFull (by omega) hFsm hLast
    simp [switchBuffer, hLatch, hRoom, hLast] at hSwitch

theorem switches_length_le (w : World Word) (e : Env Word) :
    w.switches.length ≤ (w.step blockSize e).switches.length := by
  cases hGives : w.givesBack blockSize e with
  | false => rw [switches_keep hGives]
  | true => rw [switches_length hGives]; exact Nat.le_succ _

theorem given_length (w : World Word) (e : Env Word) :
    (w.step blockSize e).given.length = w.given.length + e.address.isSome.toNat := by
  cases hAddress : e.address <;> simp [hAddress]

theorem Driven.bound_step (h : w.Driven) (hLegal : w.Legal e) :
    (w.step blockSize e).given.length ≤ (w.step blockSize e).switches.length + 2 := by
  have hMore := @switches_length_le _ blockSize w e
  have hBound := h.bound
  rw [given_length]
  cases hAddress : e.address.isSome with
  | false => simp only [Bool.toNat_false]; omega
  | true =>
      have hMay := hLegal.address hAddress
      simp only [Bool.toNat_true]
      omega

theorem Driven.register_step (h : w.Driven) (hSome : (w.step blockSize e).given ≠ []) :
    (w.step blockSize e).given.getLast? = some (w.step blockSize e).dmaAddr := by
  cases hAddress : e.address with
  | none =>
      simp only [step_given, hAddress, Option.toList_none, List.append_nil] at hSome
      simp [hAddress, h.register hSome]
  | some address => simp [hAddress]

theorem Driven.init_step (h : w.Driven) (hLegal : w.Legal e)
    (hInit : (w.step blockSize e).dma.control.fsm = .init) :
    (w.step blockSize e).given.length ≤ 1 ∧ (w.step blockSize e).started = false ∧
      (w.step blockSize e).switches = [] ∧
      (w.step blockSize e).dma.timeout.pcapTimeoutLatch = false := by
  obtain ⟨hFsm, hNotStarted⟩ := fsm_init (i := w.input blockSize e) rfl hInit
  obtain ⟨hFew, hStarted, hSwitches, hLatch⟩ := h.init hFsm
  have hStart : e.start = false := by
    refine Bool.eq_false_iff.mpr fun hStart => ?_
    have hValid := (h.valid (by simp [hFsm])).mpr (.inr ⟨hSwitches, (hLegal.start hStart).1⟩)
    simp [hStart, hValid] at hNotStarted
  have hKeep : w.givesBack blockSize e = false := by simp [givesBack, hFsm]
  refine ⟨?_, by simp [hStarted, hStart], by rw [switches_keep hKeep, hSwitches], ?_⟩
  · rw [given_length]
    cases hAddress : e.address.isSome with
    | false => simp only [Bool.toNat_false]; omega
    | true =>
        have hMay := hLegal.address hAddress
        simp only [hStarted, Bool.false_eq_true, and_false, false_or] at hMay
        simp only [Bool.toNat_true]
        omega
  · simp [PcapDma.step, nextTimeout, hFsm, hLatch]

theorem Driven.ahead_step (h : w.Driven) (hLegal : w.Legal e)
    (hNotFull : w.NotFullEarly blockSize e)
    (hInit : (w.step blockSize e).dma.control.fsm ≠ .init)
    (hGoes : (w.step blockSize e).dma.control.fsm ≠ .completed) :
    (w.step blockSize e).switches.length < (w.step blockSize e).given.length ∧
      (w.step blockSize e).started = true := by
  rw [given_length]
  by_cases hFsm : w.dma.control.fsm = .init
  · have hControl := control_init (i := w.input blockSize e) rfl hFsm
    have hStart : e.start = true := by
      by_contra hNot
      simp [hControl, hNot] at hInit
    have hKeep : w.givesBack blockSize e = false := by simp [givesBack, hFsm]
    rw [switches_keep hKeep, (h.init hFsm).2.2.1]
    have hOne := (hLegal.start hStart).1
    exact ⟨by rw [List.length_nil]; omega, by simp [hStart]⟩
  · have hNow : w.dma.control.fsm ≠ .completed := by
      intro hCompleted
      rw [step_dma, control_completed (i := w.input blockSize e) rfl hCompleted] at hGoes
      exact hGoes hCompleted
    obtain ⟨hAhead, hStarted⟩ := h.ahead hFsm hNow
    refine ⟨?_, by simp [hStarted]⟩
    cases hGives : w.givesBack blockSize e with
    | false => rw [switches_keep hGives]; omega
    | true =>
        have hTwo := h.gives_valid hNotFull hGives hGoes
        rw [switches_length hGives]
        omega

theorem nextDmaaddrValid_step (w : World Word) (e : Env Word) :
    (w.step blockSize e).dma.nextDmaaddrValid =
      if e.address.isSome then true
      else if w.givesBack blockSize e then false
      else w.dma.nextDmaaddrValid := by
  by_cases hFsm : w.dma.control.fsm = .irq <;>
    simp [PcapDma.step, nextNextDmaaddrValid, givesBack, hFsm]

theorem not_completed (hGoes : (w.step blockSize e).dma.control.fsm ≠ .completed) :
    w.dma.control.fsm ≠ .completed := by
  intro hCompleted
  rw [step_dma, control_completed (i := w.input blockSize e) rfl hCompleted] at hGoes
  exact hGoes hCompleted

theorem Driven.valid_step (h : w.Driven) (hLegal : w.Legal e)
    (hNotFull : w.NotFullEarly blockSize e)
    (hGoes : (w.step blockSize e).dma.control.fsm ≠ .completed) :
    (w.step blockSize e).dma.nextDmaaddrValid = true ↔
      (w.step blockSize e).given.length = (w.step blockSize e).switches.length + 2 ∨
        (w.step blockSize e).switches = [] ∧ (w.step blockSize e).given.length = 1 := by
  have hNow := h.valid (not_completed hGoes)
  have hEmpty : w.switches = [] ↔ w.switches.length = 0 := List.length_eq_zero_iff.symm
  rw [nextDmaaddrValid_step, given_length]
  cases hGives : w.givesBack blockSize e with
  | true =>
      have hTwo := h.gives_valid hNotFull hGives hGoes
      have hNone : e.address.isSome = false := by
        refine Bool.eq_false_iff.mpr fun hAddress => ?_
        have hMay := hLegal.address hAddress
        omega
      have hSome : (w.step blockSize e).switches ≠ [] := by
        refine List.ne_nil_of_length_pos ?_
        rw [switches_length hGives]
        exact Nat.succ_pos _
      rw [hNone]
      refine iff_of_false (by simp) ?_
      rintro (hMore | ⟨hNil, _⟩)
      · rw [switches_length hGives, Bool.toNat_false] at hMore
        omega
      · exact hSome hNil
  | false =>
      rw [switches_keep hGives]
      cases hAddress : e.address.isSome with
      | false => simpa using hNow
      | true =>
          have hMay := hLegal.address hAddress
          have hBound := h.bound
          have hFew : w.given.length < 2 → w.switches.length = 0 := by
            intro hFew
            by_cases hFsm : w.dma.control.fsm = .init
            · rw [(h.init hFsm).2.2.1, List.length_nil]
            · have := (h.ahead hFsm (not_completed hGoes)).1
              omega
          have hGoal : w.given.length + 1 = w.switches.length + 2 ∨
              w.switches = [] ∧ w.given.length + 1 = 1 := by
            rw [hEmpty]
            by_cases hFsm : w.dma.control.fsm = .init
            · have := hFew (by have := (h.init hFsm).1; omega)
              omega
            · have hAhead := (h.ahead hFsm (not_completed hGoes)).1
              omega
          simpa using hGoal

theorem Driven.early_step (h : w.Driven) (hLegal : w.Legal e)
    (hFew : (w.step blockSize e).given.length < 2) :
    (w.step blockSize e).pushed = [] ∧
      (w.step blockSize e).dma.timeout.firstData = false ∧
      (w.step blockSize e).dma.timeout.pcapTimeout = false ∧
      (w.step blockSize e).dma.timeout.pcapTimeoutLatch = false := by
  have hBefore : w.given.length < 2 := by
    rw [given_length] at hFew
    omega
  obtain ⟨hPushed, hFirst, hTimeout, hLatch⟩ := h.early hBefore
  have hNoPush : e.wstb = false := by
    refine Bool.eq_false_iff.mpr fun hPush => ?_
    have := (hLegal.push hPush).2.1
    omega
  simp [PcapDma.step, nextTimeout, hPushed, hNoPush, hFirst, hTimeout, hLatch]

theorem Driven.step (h : w.Driven) (hLegal : w.Legal e)
    (hNotFull : w.NotFullEarly blockSize e) :
    (w.step blockSize e).Driven where
  bound := h.bound_step hLegal
  register := h.register_step
  init := h.init_step hLegal
  ahead := h.ahead_step hLegal hNotFull
  valid := h.valid_step hLegal hNotFull
  early := h.early_step hLegal

theorem Boot.driven (hBoot : w.Boot) : w.Driven := by
  obtain ⟨⟨s, i, hReset, hDma⟩, _, hStarted, hGiven, hPushed, hSwitches⟩ := hBoot
  constructor <;>
    simp [hDma, PcapDma.step, nextControl, Control.reset, nextTimeout, nextNextDmaaddrValid,
      hReset, hStarted,
      hGiven, hPushed, hSwitches]

end World

end Fpga.PcapDma
