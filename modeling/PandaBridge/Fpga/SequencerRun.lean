import PandaBridge.Fpga.SequencerStep

/-! What holds in every state of the sequencer with a fixed table: which frame is the current one,
and which one the ring table has on show. -/
namespace Fpga.Seq

open Clocked

variable {s : State} {i : Input}

theorem loadNext_of_sm (hWait : s.seqSm ≠ .waitEnable) (hPhase : s.seqSm ≠ .phase2) :
    loadNext s i = false := by
  rw [loadNext, beq_eq_false_iff_ne.mpr hWait, beq_eq_false_iff_ne.mpr hPhase]
  rfl

theorem loadNext_waitEnable (hSm : s.seqSm = .waitEnable) : loadNext s i = enableRise s i := by
  rw [loadNext, hSm]
  exact Bool.or_false _

theorem loadNext_phase2 (hSm : s.seqSm = .phase2) :
    loadNext s i = (timeElapsed s i && lastLineRepeat s && !lastTableRepeat s i) := by
  rw [loadNext, hSm]
  rfl

theorem playing_iff : playing s = true ↔ s.seqSm ≠ .unready ∧ s.seqSm ≠ .waitEnable := by
  rw [playing, Bool.and_eq_true, bne_iff_ne, bne_iff_ne]

theorem enableRise_of_fall (hFall : enableFall s i = true) : enableRise s i = false := by
  obtain ⟨hEnable, hPrev⟩ := Bool.and_eq_true_iff.mp hFall
  rw [enableRise, hPrev]
  exact Bool.and_false _

theorem stop_spec (hFall : enableFall s i = true) (hError : errorEvent s i = false) :
    Low (step s i) ∧
      (step s i).seqSm =
        (if playing s then if wrappingMode s i then .waitEnable else .unready else s.seqSm) ∧
      (step s i).abortDma = (playing s && !wrappingMode s i) ∧
      (step s i).wrappingModeReset = (playing s && wrappingMode s i) := by
  have hFsm : seqFsm s i = stop s i := seqFsm_stop hFall
  have hStop : stop s i =
      let s' := { cleared s with outVal := 0, active := false }
      if playing s then
        if wrappingMode s i && !errorEvent s i then
          { s' with seqSm := .waitEnable, wrappingModeReset := true }
        else { s' with seqSm := .unready, abortDma := true }
      else s' := rfl
  rw [hStop, hError, Bool.not_false, Bool.and_true] at hFsm
  show Low (seqFsm s i) ∧ (seqFsm s i).seqSm = _ ∧ (seqFsm s i).abortDma = _ ∧
    (seqFsm s i).wrappingModeReset = _
  rw [hFsm]
  cases playing s with
  | false => exact ⟨⟨rfl, rfl⟩, rfl, rfl, rfl⟩
  | true =>
      cases wrappingMode s i with
      | false => exact ⟨⟨rfl, rfl⟩, rfl, rfl, rfl⟩
      | true => exact ⟨⟨rfl, rfl⟩, rfl, rfl, rfl⟩

/-- The pulses of the state machine end with their clock. -/
theorem Goes.clears (h : Goes s i) :
    (step s i).abortDma = false ∧ (step s i).wrappingModeReset = false := by
  have hGoto (s₀ : State) (frame : SeqFrame) (triggered considerTriggers : Bool)
      (hAbort : s₀.abortDma = false) (hReset : s₀.wrappingModeReset = false) :
      (gotoFrame s₀ frame triggered considerTriggers).abortDma = false ∧
        (gotoFrame s₀ frame triggered considerTriggers).wrappingModeReset = false := by
    obtain ⟨sm, nextTs, outVal, -, hFrame⟩ := gotoFrame_entry s₀ frame triggered considerTriggers
    rw [hFrame]
    exact ⟨hAbort, hReset⟩
  show (seqFsm s i).abortDma = false ∧ (seqFsm s i).wrappingModeReset = false
  cases hSm : s.seqSm with
  | unready =>
      rw [h.unready hSm]
      exact ⟨rfl, rfl⟩
  | waitEnable =>
      cases hValid : frameValid s with
      | false =>
          rw [h.seqFsm_eq hSm]
          show (if !frameValid s then _ else _ : State).abortDma = false ∧
            (if !frameValid s then _ else _ : State).wrappingModeReset = false
          rw [hValid]
          exact ⟨rfl, rfl⟩
      | true =>
          cases hRise : enableRise s i with
          | false =>
              rw [h.idle hSm hValid hRise]
              exact ⟨rfl, rfl⟩
          | true =>
              rw [h.rise hSm hValid hRise]
              exact hGoto _ _ _ _ rfl rfl
  | waitTrigger =>
      rw [h.waitTrigger hSm]
      split_ifs
      · exact hGoto _ _ _ _ rfl rfl
      · exact ⟨rfl, rfl⟩
  | phase1 =>
      rw [h.phase1 hSm]
      split_ifs
      · exact ⟨rfl, rfl⟩
      · exact ⟨rfl, rfl⟩
  | phase2 =>
      rw [h.phase2 hSm]
      split_ifs
      · cases hTable : lastTableRepeat s i with
        | true =>
            rw [lineEnd_table hTable]
            exact ⟨rfl, rfl⟩
        | false =>
            cases hLine : lastLineRepeat s with
            | true =>
                rw [lineEnd_line hTable hLine]
                exact hGoto _ _ _ _ rfl rfl
            | false =>
                rw [lineEnd_repeat hTable hLine]
                exact hGoto _ _ _ _ rfl rfl
      · exact ⟨rfl, rfl⟩

section Runs

variable {run : Clocked.Run step} {table : List SeqFrame} {place : Nat → Fin table.length}
  {clock : Nat}

theorem Available.no_error (h : Available run table) (clock : Nat) :
    errorEvent (run.state clock) (run.input clock) = false := by
  have hUnderrun : underrunEvent (run.state clock) (run.input clock) = false := by
    rw [underrunEvent]
    by_cases hSm : (run.state clock).seqSm = .unready
    · have hLoad : loadNext (run.state clock) (run.input clock) = false :=
        loadNext_of_sm (by rw [hSm]; decide) (by rw [hSm]; decide)
      rw [hLoad]
      rfl
    · rw [h.valid clock hSm]
      exact Bool.and_false _
  rw [errorEvent, hUnderrun, (h.fixed clock).noOverrun]
  rfl

/-- A state of the run, with the place of the frame that the ring table has on show. -/
structure Inv (run : Clocked.Run step) (place : Nat → Fin table.length) (clock : Nat) : Prop where
  low : playing (run.state clock) = false → Low (run.state clock)
  /-- Without a frame under way the first one is on show, or will be from the next clock on. -/
  first : playing (run.state clock) = false → (place clock : Nat) = 0 ∨
    ringReset (run.state clock) (run.input clock) = true
  abort : (run.state clock).abortDma = true → (run.state clock).seqSm = .unready
  reset : (run.state clock).wrappingModeReset = true → (run.state clock).seqSm = .waitEnable
  prev : playing (run.state clock) = true → (run.state clock).enablePrev = true
  line : playing (run.state clock) = true →
    ∃ line, AtLine (run.state clock) line ∧ place clock = nextLine line

theorem Inv.not_reset (h : Inv run place clock) (hTable : Available run table)
    (hPlaying : playing (run.state clock) = true) :
    ringReset (run.state clock) (run.input clock) = false := by
  obtain ⟨hReady, hWait⟩ := playing_iff.mp hPlaying
  have hAbort : (run.state clock).abortDma = false :=
    Bool.eq_false_iff.mpr fun hOn => hReady (h.abort hOn)
  have hReset : (run.state clock).wrappingModeReset = false :=
    Bool.eq_false_iff.mpr fun hOn => hWait (h.reset hOn)
  rw [ringReset, resettingDma, hAbort, hReset, hTable.notResetting clock hReady]
  rfl

/-- As long as nothing is played, the first frame is on show or comes on show. -/
theorem Inv.first_succ (h : Inv run place clock) (hServes : Serves run table place)
    (hPlaying : playing (run.state clock) = false)
    (hRise : (run.state clock).seqSm = .waitEnable →
      enableRise (run.state clock) (run.input clock) = false) :
    (place (clock + 1) : Nat) = 0 := by
  by_cases hReset : ringReset (run.state clock) (run.input clock) = true
  · exact hServes.reset clock hReset
  · have hLoad : loadNext (run.state clock) (run.input clock) = false := by
      by_cases hSm : (run.state clock).seqSm = .waitEnable
      · rw [loadNext_waitEnable hSm, hRise hSm]
      · apply loadNext_of_sm hSm
        intro hPhase
        rw [playing, hPhase] at hPlaying
        exact absurd hPlaying (by decide)
    rw [hServes.turns clock (Bool.eq_false_iff.mpr hReset), hLoad]
    exact (h.first hPlaying).resolve_right hReset

theorem Inv.first_rise (h : Inv run place clock) (hTable : Available run table)
    (hClear : 1 < table.length → (run.state clock).wrappingModeReset = false)
    (hSm : (run.state clock).seqSm = .waitEnable) : (place clock : Nat) = 0 := by
  have hPlaying : playing (run.state clock) = false := by
    rw [playing, hSm]
    rfl
  by_cases hMany : 1 < table.length
  · apply (h.first hPlaying).resolve_right
    have hReady : (run.state clock).seqSm ≠ .unready := by
      rw [hSm]
      decide
    have hAbort : (run.state clock).abortDma = false :=
      Bool.eq_false_iff.mpr fun hOn => hReady (h.abort hOn)
    rw [ringReset, resettingDma, hAbort, hClear hMany, hTable.notResetting clock hReady]
    exact Bool.false_ne_true
  · have := (place clock).isLt
    omega

theorem Inv.of_playing (hPlaying : playing (run.state clock) = true)
    (hAbort : (run.state clock).abortDma = false)
    (hReset : (run.state clock).wrappingModeReset = false)
    (hPrev : (run.state clock).enablePrev = true)
    (hLine : ∃ line, AtLine (run.state clock) line ∧ place clock = nextLine line) :
    Inv run place clock where
  low hRest := Bool.noConfusion (hPlaying.symm.trans hRest)
  first hRest := Bool.noConfusion (hPlaying.symm.trans hRest)
  abort hOn := Bool.noConfusion (hAbort.symm.trans hOn)
  reset hOn := Bool.noConfusion (hReset.symm.trans hOn)
  prev _ := hPrev
  line _ := hLine

theorem Inv.of_rest (hPlaying : playing (run.state clock) = false) (hLow : Low (run.state clock))
    (hFirst : (place clock : Nat) = 0 ∨ ringReset (run.state clock) (run.input clock) = true)
    (hAbort : (run.state clock).abortDma = true → (run.state clock).seqSm = .unready)
    (hReset : (run.state clock).wrappingModeReset = true →
      (run.state clock).seqSm = .waitEnable) : Inv run place clock where
  low _ := hLow
  first _ := hFirst
  abort := hAbort
  reset := hReset
  prev hOn := Bool.noConfusion (hPlaying.symm.trans hOn)
  line hOn := Bool.noConfusion (hPlaying.symm.trans hOn)

theorem Goes.enable (h : Goes s i) (hPrev : s.enablePrev = true) : i.enable = true := by
  have hFall := h.fall
  rw [enableFall, hPrev, Bool.and_true, Bool.not_eq_false'] at hFall
  exact hFall

theorem Inv.step_fall (h : Inv run place clock) (hTable : Available run table)
    (hServes : Serves run table place)
    (hFall : enableFall (run.state clock) (run.input clock) = true) :
    Inv run place (clock + 1) := by
  obtain ⟨hLow, hSm, hAbort, hReset⟩ := stop_spec hFall (hTable.no_error clock)
  rw [← run.edge clock] at hLow hSm hAbort hReset
  cases hPlaying : playing (run.state clock) with
  | true =>
      rw [hPlaying, Bool.true_and] at hAbort hReset
      rw [hPlaying, if_pos rfl] at hSm
      cases hWrap : wrappingMode (run.state clock) (run.input clock) with
      | true =>
          rw [hWrap] at hAbort hReset hSm
          apply Inv.of_rest
          · rw [playing, hSm]
            rfl
          · exact hLow
          · rw [ringReset, hReset]
            exact Or.inr (Bool.or_true _)
          · exact fun hOn => Bool.noConfusion (hAbort.symm.trans hOn)
          · exact fun _ => hSm
      | false =>
          rw [hWrap] at hAbort hReset hSm
          apply Inv.of_rest
          · rw [playing, hSm]
            rfl
          · exact hLow
          · rw [ringReset, resettingDma, hAbort]
            exact Or.inr rfl
          · exact fun _ => hSm
          · exact fun hOn => Bool.noConfusion (hReset.symm.trans hOn)
  | false =>
      rw [hPlaying] at hAbort hReset hSm
      apply Inv.of_rest
      · rw [playing, hSm]
        exact hPlaying
      · exact hLow
      · exact Or.inl (h.first_succ hServes hPlaying fun _ => enableRise_of_fall hFall)
      · exact fun hOn => Bool.noConfusion (hAbort.symm.trans hOn)
      · exact fun hOn => Bool.noConfusion (hReset.symm.trans hOn)

/-- A state without a frame under way, and without a rising ENABLE. -/
theorem Inv.step_rest (h : Inv run place clock) (hTable : Available run table)
    (hServes : Serves run table place) (hGoes : Goes (run.state clock) (run.input clock))
    (hPlaying : playing (run.state clock) = false)
    (hRise : (run.state clock).seqSm = .waitEnable →
      enableRise (run.state clock) (run.input clock) = false) :
    Inv run place (clock + 1) := by
  have hFirst := h.first_succ hServes hPlaying hRise
  have hLow := h.low hPlaying
  obtain ⟨hAbort, hReset⟩ := hGoes.clears
  have hRest : playing (step (run.state clock) (run.input clock)) = false ∧
      Low (step (run.state clock) (run.input clock)) := by
    by_cases hSm : (run.state clock).seqSm = .unready
    · have hFsm := hGoes.unready hSm
      have hPlay := congrArg playing hFsm
      refine ⟨hPlay.trans ?_, congrArg State.outVal hFsm, (congrArg State.active hFsm).trans hLow.2⟩
      rw [playing]
      split_ifs <;> rfl
    · have hWait : (run.state clock).seqSm = .waitEnable := by
        by_contra hOther
        exact Bool.noConfusion (hPlaying.symm.trans (playing_iff.mpr ⟨hSm, hOther⟩))
      have hFsm := hGoes.idle hWait (hTable.valid clock hSm) (hRise hWait)
      exact ⟨(congrArg playing hFsm).trans hPlaying, (congrArg State.outVal hFsm).trans hLow.1,
        (congrArg State.active hFsm).trans hLow.2⟩
  rw [← run.edge clock] at hAbort hReset hRest
  apply Inv.of_rest hRest.1 hRest.2 (Or.inl hFirst)
  · exact fun hOn => Bool.noConfusion (hAbort.symm.trans hOn)
  · exact fun hOn => Bool.noConfusion (hReset.symm.trans hOn)

theorem Inv.step_rise (h : Inv run place clock) (hTable : Available run table)
    (hServes : Serves run table place)
    (hClear : 1 < table.length → (run.state clock).wrappingModeReset = false)
    (hGoes : Goes (run.state clock) (run.input clock))
    (hSm : (run.state clock).seqSm = .waitEnable)
    (hRise : enableRise (run.state clock) (run.input clock) = true) :
    Inv run place (clock + 1) := by
  have hReady : (run.state clock).seqSm ≠ .unready := by
    rw [hSm]
    decide
  have hValid := hTable.valid clock hReady
  have hFirst := h.first_rise hTable hClear hSm
  have hEnters := enters_of_gotoFrame (hGoes.rise hSm hValid hRise)
    (.inl (by rw [prescReset, hSm]; rfl))
  obtain ⟨hAbort, hReset⟩ := hGoes.clears
  have hPrev : (step (run.state clock) (run.input clock)).enablePrev = true :=
    (Bool.and_eq_true_iff.mp hRise).1
  have hLine := (AtLine.begun (hServes.shows clock hValid) hFirst).kept hEnters.kept
  have hPlaying := hEnters.playing
  rw [← run.edge clock] at hAbort hReset hPrev hLine hPlaying
  apply Inv.of_playing hPlaying hAbort hReset hPrev
  refine ⟨place clock, hLine, ?_⟩
  by_cases hRing : ringReset (run.state clock) (run.input clock) = true
  · -- the reset comes with the first frame only when it is also the last one
    apply Fin.ext
    rw [hServes.reset clock hRing]
    have hOne : ¬ 1 < table.length := by
      intro hMany
      have hAbort' : (run.state clock).abortDma = false :=
        Bool.eq_false_iff.mpr fun hOn => hReady (h.abort hOn)
      rw [ringReset, resettingDma, hAbort', hClear hMany, hTable.notResetting clock hReady] at hRing
      exact absurd hRing (by decide)
    have := (place clock).isLt
    have hLength : table.length = 1 := by omega
    show 0 = ((place clock : Nat) + 1) % table.length
    rw [hFirst, hLength]
  · rw [hServes.turns clock (Bool.eq_false_iff.mpr hRing), loadNext_waitEnable hSm, hRise, hValid]
    rfl

theorem Inv.of_kept (h : Inv run place clock) (hTable : Available run table)
    (hServes : Serves run table place) (hGoes : Goes (run.state clock) (run.input clock))
    (hPlaying : playing (run.state clock) = true)
    (hLoad : loadNext (run.state clock) (run.input clock) = false)
    (hKept : ∀ line : Fin table.length, AtLine (run.state clock) line →
      AtLine (step (run.state clock) (run.input clock)) line)
    (hPlaying' : playing (step (run.state clock) (run.input clock)) = true) :
    Inv run place (clock + 1) := by
  obtain ⟨hAbort, hReset⟩ := hGoes.clears
  obtain ⟨line, hLine, hPlace⟩ := h.line hPlaying
  have hLine' := hKept line hLine
  have hPrev : (step (run.state clock) (run.input clock)).enablePrev = true :=
    hGoes.enable (h.prev hPlaying)
  rw [← run.edge clock] at hAbort hReset hPrev hLine' hPlaying'
  apply Inv.of_playing hPlaying' hAbort hReset hPrev
  refine ⟨line, hLine', ?_⟩
  rw [hServes.turns clock (h.not_reset hTable hPlaying), hLoad]
  exact hPlace

theorem Inv.step_line (h : Inv run place clock) (hTable : Available run table)
    (hServes : Serves run table place) (hGoes : Goes (run.state clock) (run.input clock))
    (hSm : (run.state clock).seqSm = .phase2)
    (hElapsed : timeElapsed (run.state clock) (run.input clock) = true)
    (hLast : lastTableRepeat (run.state clock) (run.input clock) = false)
    (hRepeat : lastLineRepeat (run.state clock) = true) :
    Inv run place (clock + 1) := by
  have hPlaying : playing (run.state clock) = true := by
    rw [playing, hSm]
    rfl
  have hReady := (playing_iff.mp hPlaying).1
  obtain ⟨line, hLine, hPlace⟩ := h.line hPlaying
  have hFsm := (hGoes.phase2 hSm).trans (if_pos hElapsed)
  rw [lineEnd_line hLast hRepeat] at hFsm
  have hEnters := enters_of_gotoFrame hFsm (.inr hElapsed)
  have hNext := hServes.shows clock (hTable.valid clock hReady)
  rw [hPlace] at hNext
  have hLine' := (hLine.loaded (hTable.fixed clock) hRepeat hNext).kept hEnters.kept
  obtain ⟨hAbort, hReset⟩ := hGoes.clears
  have hPrev : (step (run.state clock) (run.input clock)).enablePrev = true :=
    hGoes.enable (h.prev hPlaying)
  have hPlaying' := hEnters.playing
  rw [← run.edge clock] at hAbort hReset hPrev hLine' hPlaying'
  apply Inv.of_playing hPlaying' hAbort hReset hPrev
  refine ⟨nextLine line, hLine', ?_⟩
  rw [hServes.turns clock (h.not_reset hTable hPlaying), loadNext_phase2 hSm, hElapsed, hRepeat,
    hLast, hTable.valid clock hReady, hPlace]
  rfl

theorem Inv.step_end (h : Inv run place clock) (hTable : Available run table)
    (hServes : Serves run table place) (hGoes : Goes (run.state clock) (run.input clock))
    (hSm : (run.state clock).seqSm = .phase2)
    (hElapsed : timeElapsed (run.state clock) (run.input clock) = true)
    (hLast : lastTableRepeat (run.state clock) (run.input clock) = true) :
    Inv run place (clock + 1) := by
  have hPlaying : playing (run.state clock) = true := by
    rw [playing, hSm]
    rfl
  obtain ⟨line, hLine, hPlace⟩ := h.line hPlaying
  have hFsm := (hGoes.phase2 hSm).trans (if_pos hElapsed)
  rw [lineEnd_table hLast, (hTable.fixed clock).notStreaming] at hFsm
  obtain ⟨hAbort, hReset⟩ := hGoes.clears
  have hPlaying' : playing (step (run.state clock) (run.input clock)) = false :=
    congrArg playing hFsm
  have hLow : Low (step (run.state clock) (run.input clock)) :=
    ⟨congrArg State.outVal hFsm, congrArg State.active hFsm⟩
  have hEnd := ((hLine.lastTableLine_iff (hTable.fixed clock)).mp
    (Bool.and_eq_true_iff.mp hLast).1).2
  rw [← run.edge clock] at hAbort hReset hPlaying' hLow
  apply Inv.of_rest hPlaying' hLow
  · left
    rw [hServes.turns clock (h.not_reset hTable hPlaying), loadNext_phase2 hSm, hLast,
      Bool.not_true, Bool.and_false, Bool.false_and, if_neg Bool.false_ne_true, hPlace]
    show ((line : Nat) + 1) % table.length = 0
    rw [hEnd, Nat.mod_self]
  · exact fun hOn => Bool.noConfusion (hAbort.symm.trans hOn)
  · exact fun hOn => Bool.noConfusion (hReset.symm.trans hOn)

theorem Inv.step_playing (h : Inv run place clock) (hTable : Available run table)
    (hServes : Serves run table place) (hGoes : Goes (run.state clock) (run.input clock))
    (hPlaying : playing (run.state clock) = true) : Inv run place (clock + 1) := by
  obtain ⟨hReady, hWait⟩ := playing_iff.mp hPlaying
  cases hSm : (run.state clock).seqSm with
  | unready => exact absurd hSm hReady
  | waitEnable => exact absurd hSm hWait
  | waitTrigger =>
      have hLoad : loadNext (run.state clock) (run.input clock) = false :=
        loadNext_of_sm hWait (by rw [hSm]; decide)
      have hFsm := hGoes.waitTrigger hSm
      split_ifs at hFsm with hTrig
      · have hEnters := enters_of_gotoFrame hFsm (.inl (by rw [prescReset, hSm]; rfl))
        exact h.of_kept hTable hServes hGoes hPlaying hLoad (fun _ hLine => hLine.kept
          ((kept_cleared _).trans hEnters.kept)) hEnters.playing
      · exact h.of_kept hTable hServes hGoes hPlaying hLoad (fun _ hLine => hLine.kept
          ((kept_cleared _).trans (kept_step hFsm))) ((congrArg playing hFsm).trans hPlaying)
  | phase1 =>
      have hLoad : loadNext (run.state clock) (run.input clock) = false :=
        loadNext_of_sm hWait (by rw [hSm]; decide)
      have hFsm := hGoes.phase1 hSm
      split_ifs at hFsm with hElapsed
      · exact h.of_kept hTable hServes hGoes hPlaying hLoad (fun _ hLine => hLine.kept
          (((kept_cleared _).trans (kept_gotoPhase2 _ _)).trans (kept_step hFsm)))
          (congrArg playing hFsm)
      · exact h.of_kept hTable hServes hGoes hPlaying hLoad (fun _ hLine => hLine.kept
          ((kept_cleared _).trans (kept_step hFsm))) ((congrArg playing hFsm).trans hPlaying)
  | phase2 =>
      cases hElapsed : timeElapsed (run.state clock) (run.input clock) with
      | false =>
          have hLoad : loadNext (run.state clock) (run.input clock) = false := by
            rw [loadNext_phase2 hSm, hElapsed]
            rfl
          have hFsm := (hGoes.phase2 hSm).trans (if_neg (by rw [hElapsed]; decide))
          exact h.of_kept hTable hServes hGoes hPlaying hLoad (fun _ hLine => hLine.kept
            ((kept_cleared _).trans (kept_step hFsm))) ((congrArg playing hFsm).trans hPlaying)
      | true =>
          cases hLast : lastTableRepeat (run.state clock) (run.input clock) with
          | true => exact h.step_end hTable hServes hGoes hSm hElapsed hLast
          | false =>
              cases hRepeat : lastLineRepeat (run.state clock) with
              | true => exact h.step_line hTable hServes hGoes hSm hElapsed hLast hRepeat
              | false =>
                  have hLoad : loadNext (run.state clock) (run.input clock) = false := by
                    rw [loadNext_phase2 hSm, hRepeat, Bool.and_false]
                    rfl
                  have hFsm := (hGoes.phase2 hSm).trans (if_pos hElapsed)
                  rw [lineEnd_repeat hLast hRepeat] at hFsm
                  have hEnters := enters_of_gotoFrame hFsm (.inr hElapsed)
                  exact h.of_kept hTable hServes hGoes hPlaying hLoad (fun _ hLine =>
                    hLine.repeated.kept hEnters.kept)
                    hEnters.playing

theorem falls_of_reset (hError : errorEvent s i = false)
    (hReset : (step s i).wrappingModeReset = true) :
    enableFall s i = true ∧ playing s = true ∧ wrappingMode s i = true := by
  cases hFall : enableFall s i with
  | false => exact Bool.noConfusion ((Goes.mk hFall hError).clears.2.symm.trans hReset)
  | true =>
      rw [(stop_spec hFall hError).2.2.2, Bool.and_eq_true] at hReset
      exact ⟨rfl, hReset⟩

theorem clear_of_rise (hStart : AtRest (run.state 0)) (hTable : Available run table)
    (hTwo : LowForTwo run table) (hMany : 1 < table.length)
    (hRise : enableRise (run.state clock) (run.input clock) = true) :
    (run.state clock).wrappingModeReset = false := by
  cases clock with
  | zero => exact hStart.wrappingModeReset
  | succ clock =>
      by_contra hOn
      rw [Bool.not_eq_false, run.edge clock] at hOn
      obtain ⟨hFall, hPlaying, hWrap⟩ := falls_of_reset (hTable.no_error clock) hOn
      have hHigh := (Bool.and_eq_true_iff.mp hRise).1
      exact Bool.noConfusion (hHigh.symm.trans (hTwo hMany clock hFall hPlaying hWrap))

theorem inv_run (hStart : AtRest (run.state 0)) (hTable : Available run table)
    (hServes : Serves run table place) (hTwo : LowForTwo run table) (clock : Nat) :
    Inv run place clock := by
  induction clock with
  | zero =>
      apply Inv.of_rest hStart.notPlaying hStart.low (.inl hServes.start)
      · exact fun hOn => Bool.noConfusion (hStart.abortDma.symm.trans hOn)
      · exact fun hOn => Bool.noConfusion (hStart.wrappingModeReset.symm.trans hOn)
  | succ clock ih =>
      cases hFall : enableFall (run.state clock) (run.input clock) with
      | true => exact ih.step_fall hTable hServes hFall
      | false =>
          have hGoes : Goes (run.state clock) (run.input clock) := ⟨hFall, hTable.no_error clock⟩
          cases hPlaying : playing (run.state clock) with
          | true => exact ih.step_playing hTable hServes hGoes hPlaying
          | false =>
              by_cases hRise : (run.state clock).seqSm = .waitEnable ∧
                  enableRise (run.state clock) (run.input clock) = true
              · exact ih.step_rise hTable hServes
                  (fun hMany => clear_of_rise hStart hTable hTwo hMany hRise.2) hGoes hRise.1
                  hRise.2
              · apply ih.step_rest hTable hServes hGoes hPlaying
                intro hSm
                exact Bool.eq_false_iff.mpr fun hOn => hRise ⟨hSm, hOn⟩

end Runs

end Fpga.Seq
