import PandaBridge.Lqr.StateWindow

/-! The stamp word by itself. Whatever beats are lost, the stamp word only takes
the stamps of the exports in their order, and each export writes it at most
once. No part of this needs the sequence word. -/
namespace Lqr

open StateAbiPackage

variable {cfg : ExportConfig}

/-- The stamp beat of the current export is still to come. -/
def WindowSystem.awaits (system : WindowSystem cfg) : Bool :=
  match system.bus.device.state with
  | .wrSeqOdd => true
  | .wrPayload => system.bus.device.payPtr + system.landed == 0
  | .idle | .wrSeqEven => false

/-- The invariant of the stamp word. -/
structure StampInv (system : WindowSystem cfg) : Prop where
  bus : BusInv system.bus
  stamped_le : system.stamped ≤ system.bus.frozen.length
  stamp : system.clobbered = false →
    system.word StateAbi.stampWord = BitVec.ofNat 32 system.stamped

theorem StampInv.numbered {system : WindowSystem cfg} (h : StampInv system) :
    Numbered system.bus.frozen := by
  cases h.bus with
  | resting hBus => exact hBus.frozen_eq ▸ hBus.numbered
  | opening hBus => exact hBus.frozen ▸ hBus.numbered
  | paying hBus => exact hBus.2.frozen ▸ hBus.2.numbered
  | closing hBus =>
      obtain ⟨ptr, hBus⟩ := hBus
      exact hBus.frozen ▸ hBus.numbered

/-- What a step of the window can do to the stamp word: nothing, launch the
export that writes it next, or write it. -/
inductive StampStep (step : WindowStep cfg.axes) (before after : WindowSystem cfg) : Prop
  | kept (word : after.word StateAbi.stampWord = before.word StateAbi.stampWord)
      (stamped : after.stamped = before.stamped) (clobbered : after.clobbered = before.clobbered)
      (frozen : after.bus.frozen = before.bus.frozen)
      (awaits : after.awaits = true → before.awaits = true)
  | launched {input : ExportInput cfg.axes} (clock : step = .clock input)
      (tick : input.tick = true)
      (word : after.word StateAbi.stampWord = before.word StateAbi.stampWord)
      (stamped : after.stamped = before.stamped) (clobbered : after.clobbered = before.clobbered)
      (frozen : ∃ sent, after.bus.frozen = before.bus.frozen ++ [sent])
      (state : after.bus.device.state = .wrSeqOdd)
  | wrote (awaited : before.awaits = true) (state : before.bus.device.state = .wrPayload)
      (frozen : after.bus.frozen = before.bus.frozen) (awaits : after.awaits = false)
      (stamped : after.stamped = before.bus.frozen.length) (clobbered : after.clobbered = false)
      (word : after.word StateAbi.stampWord = BitVec.ofNat 32 before.bus.frozen.length)

variable {system : WindowSystem cfg} {input : ExportInput cfg.axes}

/-- A clock leaves the words alone. It launches an export, or the exporter goes on
with the one it is in; an answered burst has landed as a whole. -/
private theorem BusInv.stampStep_clock (h : BusInv system.bus)
    (hFair : system.Fair (.clock input)) : StampStep (.clock input) system (system.clock input) := by
  have hKeep : input.bvalid = false → (system.clock input).landed = system.landed := by
    intro hWait
    simp [WindowSystem.clock, hWait]
  cases h with
  | resting hBus =>
      rcases hBus.clock hFair.1 with hRest | ⟨hTick, hOpen⟩
      · refine .kept rfl rfl rfl ?_ ?_
        · rw [hBus.frozen_eq]
          exact hRest.frozen_eq
        · intro hAwaits
          have hState : (system.clock input).bus.device.state = .idle := hRest.state
          simp [WindowSystem.awaits, hState] at hAwaits
      · refine .launched rfl hTick rfl rfl rfl ?_ hOpen.state_eq
        rw [hBus.frozen_eq]
        exact ⟨_, hOpen.frozen⟩
  | opening hBus =>
      have hFrozen : (system.clock input).bus.frozen = system.bus.frozen := by
        rw [hBus.frozen]
        rcases hBus.clock hFair.1 with ⟨_, hOpen⟩ | ⟨_, hPay⟩
        · exact hOpen.frozen
        · exact hPay.2.frozen
      refine .kept rfl rfl rfl hFrozen fun _ => ?_
      simp [WindowSystem.awaits, hBus.state_eq]
  | @paying earlier sent k hBus =>
      rcases hBus.clock hFair.1 with ⟨hWait, hPay⟩ | ⟨hResponse, hNext⟩
      · refine .kept rfl rfl rfl ?_ ?_
        · rw [hBus.2.frozen]
          exact hPay.2.frozen
        · intro hAwaits
          have hState : (system.clock input).bus.device.state = .wrPayload := hPay.2.state_eq
          have hPtr : (system.clock input).bus.device.payPtr = k * cfg.chunk := hPay.2.payPtr
          simpa [WindowSystem.awaits, hState, hPtr, hKeep hWait, hBus.2.state_eq,
            hBus.2.payPtr] using hAwaits
      · rcases hNext with hPay | ⟨_, hClose⟩
        · refine .kept rfl rfl rfl ?_ ?_
          · rw [hBus.2.frozen]
            exact hPay.2.frozen
          · intro hAwaits
            have hState : (system.clock input).bus.device.state = .wrPayload := hPay.2.state_eq
            have hPtr : (system.clock input).bus.device.payPtr = (k + 1) * cfg.chunk :=
              hPay.2.payPtr
            have hChunk := cfg.chunk_pos
            simp only [WindowSystem.awaits, hState, hPtr, beq_iff_eq, Nat.succ_mul] at hAwaits
            omega
        · obtain ⟨ptr, hClose⟩ := hClose
          refine .kept rfl rfl rfl ?_ ?_
          · rw [hBus.2.frozen]
            exact hClose.frozen
          · intro hAwaits
            have hState : (system.clock input).bus.device.state = .wrSeqEven := hClose.state_eq
            simp [WindowSystem.awaits, hState] at hAwaits
  | closing hBus =>
      obtain ⟨ptr, hOld⟩ := hBus
      rcases Closing.clock ⟨ptr, hOld⟩ hFair.1 with ⟨_, ptr', hClose⟩ | ⟨_, hRest⟩
      · refine .kept rfl rfl rfl ?_ ?_
        · rw [hOld.frozen]
          exact hClose.frozen
        · intro hAwaits
          have hState : (system.clock input).bus.device.state = .wrSeqEven := hClose.state_eq
          simp [WindowSystem.awaits, hState] at hAwaits
      · refine .kept rfl rfl rfl ?_ ?_
        · rw [hOld.frozen]
          exact hRest.frozen_eq
        · intro hAwaits
          have hState : (system.clock input).bus.device.state = .idle := hRest.state
          simp [WindowSystem.awaits, hState] at hAwaits

private theorem stampStep_miss {addr : Nat} {data : BitVec 64} {lost : Bool}
    (hNext : system.nextBeat = some (addr, data)) (hStamps : system.stamps = false)
    (hMiss : (system.mem.writeBeat addr data).window cfg.baseAddr StateAbi.stampWord =
      system.word StateAbi.stampWord) :
    StampStep (.land lost) system (system.land lost) := by
  refine .kept ?_ ?_ ?_ ?_ ?_
  · cases lost with
    | true => simp [WindowSystem.land, hNext, WindowSystem.word]
    | false =>
        simp only [WindowSystem.land, hNext, WindowSystem.word]
        exact hMiss
  · simp [WindowSystem.land, hNext, hStamps]
  · simp [WindowSystem.land, hNext, hStamps]
  · simp [WindowSystem.land, hNext]
  · intro hAwaits
    simp only [WindowSystem.awaits, WindowSystem.land, hNext] at hAwaits ⊢
    cases hState : system.bus.device.state with
    | idle => simp [hState] at hAwaits
    | wrSeqOdd => rfl
    | wrPayload => simp [hState] at hAwaits
    | wrSeqEven => simp [hState] at hAwaits

/-- A beat that stamps writes its number, unless it is lost; any other beat misses
the stamp word. -/
private theorem BusInv.stampStep_land (h : BusInv system.bus) (lost : Bool) :
    StampStep (.land lost) system (system.land lost) := by
  cases hNext : system.nextBeat with
  | none =>
      have hSame : system.land lost = system := by simp [WindowSystem.land, hNext]
      rw [hSame]
      exact .kept rfl rfl rfl rfl id
  | some beat =>
      obtain ⟨addr, data⟩ := beat
      cases h with
      | resting hBus => simp [WindowSystem.nextBeat, hBus.quiet.current] at hNext
      | opening hBus =>
          obtain ⟨rfl, rfl, hLine⟩ := nextBeat_seq hBus (.inl rfl) hNext
          refine stampStep_miss hNext ?_ (window_writeSeq_stamp hLine)
          simp [WindowSystem.stamps, hBus.state_eq]
      | closing hBus =>
          obtain ⟨ptr, hBus⟩ := hBus
          obtain ⟨rfl, rfl, hLine⟩ := nextBeat_seq hBus (.inr rfl) hNext
          refine stampStep_miss hNext ?_ (window_writeSeq_stamp hLine)
          simp [WindowSystem.stamps, hBus.state_eq]
      | @paying earlier sent k hBus =>
          obtain ⟨rfl, rfl⟩ := nextBeat_payload hBus hNext
          have hStamps : system.stamps = (k * cfg.chunk + system.landed == 0) := by
            simp [WindowSystem.stamps, hBus.2.state_eq, hBus.2.payPtr]
          have hAfter : (system.land lost).awaits = false := by
            simp [WindowSystem.awaits, WindowSystem.land, hNext, hBus.2.state_eq]
          by_cases hFirst : k * cfg.chunk + system.landed = 0
          · rw [hFirst, beq_self_eq_true] at hStamps
            cases lost with
            | true =>
                refine .kept ?_ ?_ ?_ ?_ ?_
                · simp [WindowSystem.land, hNext, WindowSystem.word]
                · simp [WindowSystem.land, hNext]
                · simp [WindowSystem.land, hNext]
                · simp [WindowSystem.land, hNext]
                · intro hAwaits
                  simp [hAfter] at hAwaits
            | false =>
                refine .wrote ?_ hBus.2.state_eq ?_ hAfter ?_ ?_ ?_
                · simpa [WindowSystem.awaits, hBus.2.state_eq, hBus.2.payPtr] using hFirst
                · simp [WindowSystem.land, hNext]
                · simp [WindowSystem.land, hNext, hStamps]
                · simp [WindowSystem.land, hNext, hStamps]
                · have hStamp := decodeWords_stamp (holdsBeat_writeBeat system.mem sent 0)
                  rw [hBus.2.numbered earlier.length sent (by simp)] at hStamp
                  rw [hBus.2.frozen, List.length_append, List.length_singleton]
                  simp only [WindowSystem.land, hNext, WindowSystem.word, hFirst]
                  exact hStamp
          · refine stampStep_miss hNext ?_ (window_writePayload_stamp (by omega))
            rw [hStamps]
            exact beq_eq_false_iff_ne.mpr hFirst

theorem WindowSystem.land_bus (lost : Bool) (system : WindowSystem cfg) :
    (system.land lost).bus = system.bus := by
  unfold WindowSystem.land
  split <;> rfl

theorem StampInv.step {step : WindowStep cfg.axes} (h : StampInv system)
    (hFair : system.Fair step) :
    StampInv (system.step step) ∧ StampStep step system (system.step step) := by
  have hBus : BusInv (system.step step).bus := by
    cases step with
    | clock input => exact h.bus.clock hFair.1
    | land lost =>
        rw [WindowSystem.step, WindowSystem.land_bus]
        exact h.bus
  have hStep : StampStep step system (system.step step) := by
    cases step with
    | clock input => exact h.bus.stampStep_clock hFair
    | land lost => exact h.bus.stampStep_land lost
  refine ⟨⟨hBus, ?_, ?_⟩, hStep⟩
  · cases hStep with
    | kept hWord hStamped hClobbered hFrozen hAwaits =>
        rw [hStamped, hFrozen]
        exact h.stamped_le
    | launched hClock hTick hWord hStamped hClobbered hFrozen hState =>
        obtain ⟨sent, hFrozen⟩ := hFrozen
        rw [hStamped, hFrozen, List.length_append]
        exact Nat.le_add_right_of_le h.stamped_le
    | wrote hAwaited hState hFrozen hAwaits hStamped hClobbered hWord =>
        rw [hStamped, hFrozen]
  · intro hFresh
    cases hStep with
    | kept hWord hStamped hClobbered hFrozen hAwaits =>
        rw [hWord, hStamped]
        exact h.stamp (hClobbered ▸ hFresh)
    | launched hClock hTick hWord hStamped hClobbered hFrozen hState =>
        rw [hWord, hStamped]
        exact h.stamp (hClobbered ▸ hFresh)
    | wrote hAwaited hState hFrozen hAwaits hStamped hClobbered hWord =>
        rw [hWord, hStamped]

theorem StampStep.grows {step : WindowStep cfg.axes} {after : WindowSystem cfg}
    (h : StampStep step system after) (hLe : system.stamped ≤ system.bus.frozen.length) :
    system.stamped ≤ after.stamped ∧ system.bus.frozen <+: after.bus.frozen := by
  cases h with
  | kept hWord hStamped hClobbered hFrozen hAwaits => exact ⟨hStamped.ge, hFrozen ▸ List.prefix_refl _⟩
  | launched hClock hTick hWord hStamped hClobbered hFrozen hState =>
      obtain ⟨sent, hFrozen⟩ := hFrozen
      exact ⟨hStamped.ge, hFrozen ▸ List.prefix_append _ _⟩
  | wrote hAwaited hState hFrozen hAwaits hStamped hClobbered hWord =>
      exact ⟨hStamped ▸ hLe, hFrozen ▸ List.prefix_refl _⟩

/-- A stamp word that the bridge has overwritten stays as it is until the next
stamp is written. -/
theorem StampStep.word_of_clobbered {step : WindowStep cfg.axes} {after : WindowSystem cfg}
    (h : StampStep step system after) (hClobbered : after.clobbered = true) :
    system.clobbered = true ∧
      after.word StateAbi.stampWord = system.word StateAbi.stampWord := by
  cases h with
  | kept hWord hStamped hSame hFrozen hAwaits => exact ⟨hSame ▸ hClobbered, hWord⟩
  | launched hClock hTick hWord hStamped hSame hFrozen hState => exact ⟨hSame ▸ hClobbered, hWord⟩
  | wrote hAwaited hState hFrozen hAwaits hStamped hFresh hWord =>
      rw [hFresh] at hClobbered
      exact absurd hClobbered Bool.false_ne_true

theorem StampInv.powerUp (latched : Snapshot cfg.axes) (mem : Memory) :
    StampInv (WindowSystem.powerUp latched mem) := by
  refine ⟨.resting (Resting.powerUp latched), Nat.zero_le _, ?_⟩
  intro hFresh
  nomatch hFresh

theorem StampInv.poke (h : StampInv system) (index : Nat) (value : Word) :
    StampInv (system.poke index value) := by
  refine ⟨h.bus, h.stamped_le, ?_⟩
  intro hFresh
  simp only [WindowSystem.poke, Bool.or_eq_false_iff, beq_eq_false_iff_ne] at hFresh
  refine Eq.trans (Function.update_of_ne ?_ _ _) (h.stamp hFresh.1)
  intro hSame
  refine hFresh.2 ?_
  simp only [StateAbi.wordBytes] at hSame
  omega

theorem WindowSystem.word_poke (index : Nat) (value : Word) :
    (system.poke index value).word index = value :=
  Function.update_self _ _ _

theorem StampInv.run {steps : List (WindowStep cfg.axes)} (h : StampInv system)
    (hFair : WindowSystem.FairRun (fun _ _ => True) steps system) :
    StampInv (WindowSystem.run steps system) := by
  induction steps generalizing system with
  | nil => exact h
  | cons step rest ih => exact ih (h.step hFair.1.1).1 hFair.2

end Lqr
