import PandaBridge.Fpga.SequencerOrder
import PandaBridge.Fpga.SequencerPhase
import PandaBridge.Fpga.SequencerRing

/-! A fixed table is played exactly, with every rising ENABLE that does not meet the reset of the
ring table. -/
namespace Fpga.Seq

open Clocked

variable {run : Clocked.Run step} {table : List SeqFrame} {s : State} {i : Input}
  {play : Play table}

/-! ### The clocks of a play -/

section Periods

variable {rise first trigger clock later : Nat}

namespace Held

theorem mono (h : Held run rise later) (hOrder : clock ≤ later) : Held run rise clock where
  enable tick hFrom hTo := h.enable tick hFrom (Nat.lt_of_lt_of_le hTo hOrder)
  prescale tick hFrom hTo := h.prescale tick hFrom (Nat.lt_of_lt_of_le hTo hOrder)
  repeats tick hFrom hTo := h.repeats tick hFrom (Nat.lt_of_lt_of_le hTo hOrder)

theorem goes (h : Held run rise (clock + 1)) (hTable : Available run table)
    (hFrom : rise ≤ clock) : Goes (run.state clock) (run.input clock) where
  fall := by
    rw [enableFall, h.enable clock hFrom (Nat.lt_succ_self clock)]
    rfl
  error := hTable.no_error clock

theorem period_eq (h : Held run rise (clock + 1)) (hFrom : rise ≤ clock) :
    period (run.input clock) = period (run.input rise) := by
  rw [period, period, h.prescale clock hFrom (Nat.lt_succ_self clock)]

end Held

/-- A play is entered with the edge after a clock, if ENABLE is high. -/
structure Opened (run : Clocked.Run step) (rise first : Nat) (play : Play table) : Prop where
  le : rise ≤ first
  enters : Held run rise (first + 1) → On (run.state (first + 1)) play ∧
    Entered (run.state (first + 1)) play.frame (period (run.input rise))
      (trigValid play.frame (run.input first)) (run.state first).outVal

namespace Opened

theorem waits (h : Opened run rise first play) (hTable : Available run table)
    (hFirst : first < clock) (hHeld : Held run rise clock)
    (hUnmet : ∀ tick, first ≤ tick → tick < clock → ¬ Met play.frame (run.input tick)) :
    On (run.state clock) play ∧ (run.state clock).seqSm = .waitTrigger ∧
      (run.state clock).outVal = (run.state first).outVal := by
  induction clock, hFirst using Nat.le_induction with
  | base =>
      obtain ⟨hOn, hEntered⟩ := h.enters hHeld
      have hFalse : trigValid play.frame (run.input first) = false :=
        Bool.eq_false_iff.mpr
          (mt (trigValid_iff _ _).mp (hUnmet first le_rfl (Nat.lt_succ_self first)))
      rw [hFalse] at hEntered
      exact ⟨hOn, hEntered⟩
  | succ clock hFirst ih =>
      obtain ⟨hOn, hSm, hOut⟩ := ih (hHeld.mono (Nat.le_succ clock))
        fun tick hFrom hTo => hUnmet tick hFrom (Nat.lt_succ_of_lt hTo)
      have hGoes := hHeld.goes hTable (h.le.trans (Nat.le_of_lt hFirst))
      have hNext := hOn.waits hGoes hSm
        (hUnmet clock (Nat.le_of_lt hFirst) (Nat.lt_succ_self clock))
      rw [← run.edge clock, hOut] at hNext
      exact hNext

theorem phases (h : Opened run rise first play) (hTable : Available run table)
    (hTrigger : Triggers run play.frame first trigger) {elapsed : Nat}
    (hLess : elapsed < play.clocks1 (period (run.input rise)) +
      play.clocks2 (period (run.input rise)))
    (hHeld : Held run rise (trigger + 1 + elapsed)) :
    On (run.state (trigger + 1 + elapsed)) play ∧
      InPhases (run.state (trigger + 1 + elapsed)) play.frame (period (run.input rise))
        elapsed := by
  induction elapsed with
  | zero =>
      have hMet := (trigValid_iff _ _).mpr hTrigger.met
      rcases Nat.eq_or_lt_of_le hTrigger.le with rfl | hLater
      · obtain ⟨hOn, hEntered⟩ := h.enters hHeld
        rw [hMet] at hEntered
        exact ⟨hOn, hEntered⟩
      · obtain ⟨hOn, hSm, -⟩ := h.waits hTable hLater (hHeld.mono (Nat.le_succ trigger))
          hTrigger.unmet
        have hFrom := h.le.trans hTrigger.le
        have hNext := hOn.triggered (hHeld.goes hTable hFrom) hSm hTrigger.met
        rw [← run.edge trigger, hHeld.period_eq hFrom] at hNext
        exact hNext
  | succ elapsed ih =>
      obtain ⟨hOn, hPhases⟩ := ih (Nat.lt_of_succ_lt hLess) (hHeld.mono (Nat.le_succ _))
      have hFrom : rise ≤ trigger + 1 + elapsed := by
        have := h.le.trans hTrigger.le
        omega
      have hPeriod : period (run.input (trigger + 1 + elapsed)) = period (run.input rise) :=
        hHeld.period_eq hFrom
      rw [← hPeriod] at hPhases hLess
      have hGoes : Goes (run.state (trigger + 1 + elapsed)) (run.input (trigger + 1 + elapsed)) :=
        hHeld.goes hTable hFrom
      have hNext := hPhases.goes hOn.line.frame hGoes hLess
      rw [← run.edge, hPeriod] at hNext
      exact ⟨hOn.kept hNext.2, hNext.1⟩

theorem phases_at (h : Opened run rise first play) (hTable : Available run table)
    (hTrigger : Triggers run play.frame first trigger) (hAfter : trigger < clock)
    (hLast : clock ≤ trigger + play.clocks1 (period (run.input rise)) +
      play.clocks2 (period (run.input rise))) (hHeld : Held run rise clock) :
    On (run.state clock) play ∧
      InPhases (run.state clock) play.frame (period (run.input rise)) (clock - trigger - 1) := by
  have hClock : trigger + 1 + (clock - trigger - 1) = clock := by omega
  have hLess : clock - trigger - 1 < play.clocks1 (period (run.input rise)) +
      play.clocks2 (period (run.input rise)) := by omega
  have hPhases := h.phases hTable hTrigger hLess (by rw [hClock]; exact hHeld)
  rw [hClock] at hPhases
  exact hPhases

end Opened

theorem Play.clocks2_pos (play : Play table) (i : Input) : 0 < play.clocks2 (period i) :=
  Nat.mul_pos (Nat.lt_of_lt_of_le Nat.zero_lt_one (Nat.le_max_right _ _)) (period_pos i)

/-- Nothing is played after a clock, if ENABLE is high. -/
structure Ended (run : Clocked.Run step) (rise first : Nat) : Prop where
  le : rise ≤ first
  rests : Held run rise (first + 1) →
    Low (run.state (first + 1)) ∧ (run.state (first + 1)).seqSm = .waitEnable

/-- The last clock of a play opens the next one, or ends the run of the table. -/
theorem Opened.succ {place : Nat → Fin table.length} (h : Opened run rise first play)
    (hTable : Available run table) (hServes : Serves run table place)
    (hInv : ∀ clock, Inv run place clock)
    (hCounts : play.Counts (run.input rise).repeats.toNat)
    (hTrigger : Triggers run play.frame first trigger) {last : Nat}
    (hLast : last = trigger + play.clocks1 (period (run.input rise)) +
      play.clocks2 (period (run.input rise))) :
    (∀ play', play.next? (run.input rise).repeats.toNat = some play' →
      Opened run rise last play') ∧
    (play.next? (run.input rise).repeats.toNat = none → Ended run rise last) := by
  have hSome := play.clocks2_pos (run.input rise)
  have hFrom : rise ≤ last := by
    have := h.le.trans hTrigger.le
    omega
  have hAtLast (hHeld : Held run rise (last + 1)) :
      On (run.state last) play ∧ Goes (run.state last) (run.input last) ∧
        (run.input last).repeats = (run.input rise).repeats ∧
        period (run.input last) = period (run.input rise) ∧
        (run.state last).seqSm = .phase2 ∧
        timeElapsed (run.state last) (run.input last) = true := by
    have hPeriod := hHeld.period_eq hFrom
    obtain ⟨hOn, hPhases⟩ := h.phases_at hTable hTrigger (by omega) (Nat.le_of_eq hLast)
      (hHeld.mono (Nat.le_succ last))
    rw [← hPeriod] at hPhases
    have hEnd := hPhases.last (by
      rw [hPeriod]
      show last - trigger - 1 + 1 = play.clocks1 (period (run.input rise)) +
        play.clocks2 (period (run.input rise))
      omega)
    exact ⟨hOn, hHeld.goes hTable hFrom, hHeld.repeats last hFrom (Nat.lt_succ_self last), hPeriod,
      hEnd⟩
  constructor
  · intro play' hNext
    refine ⟨hFrom, fun hHeld => ?_⟩
    obtain ⟨hOn, hGoes, hRepeats, hPeriod, hSm, hElapsed⟩ := hAtLast hHeld
    have hPlaying : playing (run.state last) = true := by
      rw [playing, hSm]
      rfl
    obtain ⟨line, hLine, hPlace⟩ := (hInv last).line hPlaying
    have hSame : line = play.line := hLine.unique hOn.line (hTable.fixed last)
    have hShown := hServes.shows last (hTable.valid last (by rw [hSm]; decide))
    rw [hPlace, hSame] at hShown
    have hEntered := hOn.next hGoes (hTable.fixed last) (by rw [hRepeats]; exact hCounts) hSm
      hElapsed hShown (by rw [hRepeats]; exact hNext)
    rw [← run.edge last, hPeriod] at hEntered
    exact hEntered
  · intro hNext
    refine ⟨hFrom, fun hHeld => ?_⟩
    obtain ⟨hOn, hGoes, hRepeats, -, hSm, hElapsed⟩ := hAtLast hHeld
    have hDone := hOn.done hGoes (hTable.fixed last) (by rw [hRepeats]; exact hCounts) hSm hElapsed
      (by rw [hRepeats]; exact hNext)
    rw [← run.edge last] at hDone
    exact hDone

theorem opened_first {place : Nat → Fin table.length} (hTable : Available run table)
    (hServes : Serves run table place) (hInv : Inv run place rise)
    (hClear : 1 < table.length → (run.state rise).wrappingModeReset = false)
    (hRise : enableRise (run.state rise) (run.input rise) = true)
    (hSm : (run.state rise).seqSm = .waitEnable)
    (hFirst : playAt table (run.input rise).repeats.toNat 0 = some play) :
    Opened run rise rise play := by
  refine ⟨le_rfl, fun hHeld => ?_⟩
  have hValid := hTable.valid rise (by rw [hSm]; decide)
  have hZero := hInv.first_rise hTable hClear hSm
  rw [playAt] at hFirst
  split_ifs at hFirst with hSome
  obtain rfl := Option.some.inj hFirst
  have hShown := hServes.shows rise hValid
  have hPlace : place rise = ⟨0, hSome⟩ := Fin.ext hZero
  rw [hPlace] at hShown
  have hGoes := hHeld.goes hTable le_rfl
  have hEntered := @On.first table _ _ ⟨⟨0, hSome⟩, 1, 1⟩ hGoes hSm hValid hRise hShown rfl rfl rfl
  rw [← run.edge rise] at hEntered
  exact hEntered

/-- Every play of a rising ENABLE is opened at the clock from which it is next. -/
theorem opened_of_begins {place : Nat → Fin table.length} (hTable : Available run table)
    (hServes : Serves run table place) (hInv : ∀ clock, Inv run place clock)
    (hClear : 1 < table.length → (run.state rise).wrappingModeReset = false)
    (hRise : enableRise (run.state rise) (run.input rise) = true)
    (hSm : (run.state rise).seqSm = .waitEnable) {number : Nat}
    (hBegins : Begins run table rise number first) :
    (∀ play, playAt table (run.input rise).repeats.toNat number = some play →
      Opened run rise first play) ∧
    (playAt table (run.input rise).repeats.toNat number = none → Ended run rise first) := by
  induction hBegins with
  | first =>
      constructor
      · intro play hFirst
        exact opened_first hTable hServes (hInv rise) hClear hRise hSm hFirst
      · intro hNone
        have hSome : 0 < table.length := Nat.zero_lt_of_lt (place rise).isLt
        rw [playAt, dif_pos hSome] at hNone
        cases hNone
  | next hBefore hPlay hTrigger ih =>
      have hSucc := (ih.1 _ hPlay).succ hTable hServes hInv (counts_playAt hPlay) hTrigger rfl
      rw [playAt, hPlay]
      exact hSucc

theorem Ended.low (h : Ended run rise first) (hTable : Available run table)
    (hFirst : first < clock) (hHeld : Held run rise clock) :
    Low (run.state clock) ∧ (run.state clock).seqSm = .waitEnable := by
  induction clock, hFirst using Nat.le_induction with
  | base => exact h.rests hHeld
  | succ clock hFirst ih =>
      obtain ⟨hLow, hSm⟩ := ih (hHeld.mono (Nat.le_succ clock))
      have hFrom : rise ≤ clock - 1 := h.le.trans (Nat.le_sub_one_of_lt hFirst)
      have hClock : clock - 1 + 1 = clock := Nat.sub_add_cancel (Nat.one_le_of_lt hFirst)
      have hPrev : (run.state clock).enablePrev = true := by
        rw [← hClock, run.edge]
        exact hHeld.enable (clock - 1) hFrom (by omega)
      have hRise : enableRise (run.state clock) (run.input clock) = false := by
        rw [enableRise, hPrev]
        exact Bool.and_false _
      have hFsm := (hHeld.goes hTable (h.le.trans (Nat.le_of_lt hFirst))).idle hSm
        (hTable.valid clock (by rw [hSm]; decide)) hRise
      rw [run.edge clock]
      exact ⟨⟨(congrArg State.outVal hFsm).trans hLow.1, (congrArg State.active hFsm).trans hLow.2⟩,
        (congrArg State.seqSm hFsm).trans hSm⟩

theorem plays_of_rise {place : Nat → Fin table.length} (hTable : Available run table)
    (hServes : Serves run table place) (hInv : ∀ clock, Inv run place clock)
    (hClear : 1 < table.length → (run.state rise).wrappingModeReset = false)
    (hRise : enableRise (run.state rise) (run.input rise) = true)
    (hReady : (run.state rise).seqSm ≠ .unready) : Plays run table rise := by
  have hSm : (run.state rise).seqSm = .waitEnable := by
    by_contra hOther
    have hPrev := (hInv rise).prev (playing_iff.mpr ⟨hReady, hOther⟩)
    rw [enableRise, hPrev, Bool.not_true, Bool.and_false] at hRise
    exact Bool.noConfusion hRise
  have hOpened {number first : Nat} (hBegins : Begins run table rise number first) :=
    opened_of_begins hTable hServes hInv hClear hRise hSm hBegins
  constructor
  · intro number first play clock hBegins hPlay hFirst hHeld hUnmet
    obtain ⟨hOn, -, hOut⟩ := ((hOpened hBegins).1 play hPlay).waits hTable hFirst hHeld hUnmet
    exact ⟨hOn.names (hTable.fixed clock), hOut⟩
  · intro number first trigger play clock hBegins hPlay hTrigger hHeld hAfter hTime
    obtain ⟨hOn, hPhases⟩ := ((hOpened hBegins).1 play hPlay).phases_at hTable hTrigger hAfter
      (Nat.le_add_right_of_le hTime) hHeld
    refine ⟨hOn.names (hTable.fixed clock), hPhases.out1 ?_⟩
    show clock - trigger - 1 < play.clocks1 (period (run.input rise))
    omega
  · intro number first trigger play clock hBegins hPlay hTrigger hHeld hAfter hTime
    obtain ⟨hOn, hPhases⟩ := ((hOpened hBegins).1 play hPlay).phases_at hTable hTrigger
      (Nat.lt_of_le_of_lt (Nat.le_add_right _ _) hAfter) hTime hHeld
    refine ⟨hOn.names (hTable.fixed clock), hPhases.out2 ?_⟩
    show play.clocks1 (period (run.input rise)) ≤ clock - trigger - 1
    omega
  · intro number first clock hBegins hNone hFirst hHeld
    exact (((hOpened hBegins).2 hNone).low hTable hFirst hHeld).1

theorem low_of_fall {place : Nat → Fin table.length} {fall : Nat}
    (hInv : ∀ clock, Inv run place clock)
    (hFall : enableFall (run.state fall) (run.input fall) = true) (hAfter : fall < clock)
    (hEnable : ∀ tick, fall < tick → tick < clock → (run.input tick).enable = false) :
    Low (run.state clock) := by
  obtain ⟨before, rfl⟩ : ∃ before, clock = before + 1 := ⟨clock - 1, by omega⟩
  have hBefore : (run.input before).enable = false := by
    rcases Nat.eq_or_lt_of_le (Nat.lt_succ_iff.mp hAfter) with rfl | hLater
    · have hLow := (Bool.and_eq_true_iff.mp hFall).1
      rwa [Bool.not_eq_true'] at hLow
    · exact hEnable before hLater (Nat.lt_succ_self before)
  apply (hInv (before + 1)).low
  refine Bool.eq_false_iff.mpr fun hPlaying => ?_
  have hPrev := (hInv (before + 1)).prev hPlaying
  rw [run.edge before] at hPrev
  exact Bool.noConfusion (hBefore.symm.trans hPrev)

end Periods

/-- Without an error the machine only leaves its play for the wait for ENABLE. -/
theorem Goes.stays_ready (hGoes : Goes s i) (hValid : frameValid s = true)
    (hStreaming : i.streamingMode = false) (hReady : s.seqSm ≠ .unready) :
    (step s i).seqSm ≠ .unready := by
  have hKeeps (hFsm : seqFsm s i = cleared s) : (step s i).seqSm ≠ .unready := by
    have hSame : (step s i).seqSm = s.seqSm := (congrArg State.seqSm hFsm).trans rfl
    rw [hSame]
    exact hReady
  have hEnters {s₀ : State} {frame : SeqFrame} {triggered : Bool}
      (h : Enters s₀ (step s i) frame (period i) triggered) : (step s i).seqSm ≠ .unready :=
    (playing_iff.mp h.playing).1
  cases hSm : s.seqSm with
  | unready => exact absurd hSm hReady
  | waitEnable =>
      have hReset : prescReset s i = true := by
        rw [prescReset, hSm]
        rfl
      cases hRise : enableRise s i with
      | false => exact hKeeps (hGoes.idle hSm hValid hRise)
      | true => exact hEnters (enters_of_gotoFrame (hGoes.rise hSm hValid hRise) (.inl hReset))
  | waitTrigger =>
      have hReset : prescReset s i = true := by
        rw [prescReset, hSm]
        rfl
      have hFsm := hGoes.waitTrigger hSm
      split_ifs at hFsm
      · exact hEnters (enters_of_gotoFrame hFsm (.inl hReset))
      · exact hKeeps hFsm
  | phase1 =>
      have hFsm := hGoes.phase1 hSm
      split_ifs at hFsm
      · have hPhase2 : (step s i).seqSm = .phase2 := congrArg State.seqSm hFsm
        rw [hPhase2]
        decide
      · exact hKeeps hFsm
  | phase2 =>
      have hFsm := hGoes.phase2 hSm
      split_ifs at hFsm with hElapsed
      · cases hTable : lastTableRepeat s i with
        | true =>
            rw [lineEnd_table hTable, hStreaming] at hFsm
            have hWait : (step s i).seqSm = .waitEnable := congrArg State.seqSm hFsm
            rw [hWait]
            decide
        | false =>
            cases hLine : lastLineRepeat s with
            | true =>
                rw [lineEnd_line hTable hLine] at hFsm
                exact hEnters (enters_of_gotoFrame hFsm (.inr hElapsed))
            | false =>
                rw [lineEnd_repeat hTable hLine] at hFsm
                exact hEnters (enters_of_gotoFrame hFsm (.inr hElapsed))
      · exact hKeeps hFsm

/-- A table that the ring holds as a whole does not have to be loaded again. -/
theorem Inv.stays_ready {place : Nat → Fin table.length} {clock : Nat} (h : Inv run place clock)
    (hTable : Available run table) (hKept : table.length < seqFrames)
    (hReady : (run.state clock).seqSm ≠ .unready) : (run.state (clock + 1)).seqSm ≠ .unready := by
  rw [run.edge clock]
  cases hFall : enableFall (run.state clock) (run.input clock) with
  | false =>
      exact (Goes.mk hFall (hTable.no_error clock)).stays_ready (hTable.valid clock hReady)
        (hTable.fixed clock).notStreaming hReady
  | true =>
      have hAbort : (run.state clock).abortDma = false :=
        Bool.eq_false_iff.mpr fun hOn => hReady (h.abort hOn)
      have hWrap : wrappingMode (run.state clock) (run.input clock) = true := by
        rw [wrappingMode, resettingDma, hAbort, hTable.notResetting clock hReady,
          (hTable.fixed clock).frames, (hTable.fixed clock).oneBuffer, decide_eq_true hKept]
        rfl
      rw [(stop_spec hFall (hTable.no_error clock)).2.1, hWrap, if_pos rfl]
      split_ifs
      · decide
      · exact hReady

/-- A fixed table is played exactly with every rising ENABLE, if ENABLE stays low for two clocks
whenever it falls during a play. -/
theorem table_played_exactly (run : Clocked.Run step) (table : List SeqFrame)
    (hStart : AtRest (run.state 0)) (hTable : Available run table)
    (hTwo : LowForTwo run table) : PlaysTable run table := by
  obtain ⟨place, hServes⟩ := hTable.serves
  have hInv := inv_run hStart hTable hServes hTwo
  constructor
  · intro rise hCounted hRepeats number
    apply playAt_eq hCounted (Nat.zero_lt_of_lt (place 0).isLt)
    rw [Nat.pos_iff_ne_zero]
    exact fun hZero => hRepeats (BitVec.eq_of_toNat_eq hZero)
  · intro rise hRise hReady
    exact plays_of_rise hTable hServes hInv
      (fun hMany => clear_of_rise hStart hTable hTwo hMany hRise) hRise hReady
  · intro fall clock hFall hAfter hEnable
    exact low_of_fall hInv hFall hAfter hEnable
  · intro hKept clock hReady
    exact (hInv clock).stays_ready hTable hKept hReady

/-! ### A table of two frames -/

/-- Three clocks of output A, then one of output B. -/
def twoFrames : List SeqFrame :=
  [{ SeqFrame.zero with repeats := 1, out2 := 1, time2 := 3 },
    { SeqFrame.zero with repeats := 1, out2 := 2, time2 := 1 }]

def twoFramesRing : SequencerRingTable.State addressWidth where
  mem address := if address = 0 then 0x00000003000000000000000004000001
    else 0x00000001000000000000000008000001
  seqDout := 0x00000003000000000000000004000001
  dataSr := 0
  waddr := 8
  raddr := 0
  frameValidO := true
  dataReadyO := true

def twoFramesInput (enable : Bool) : Input where
  enable := enable
  bita := false
  bitb := false
  bitc := false
  posa := 0
  posb := 0
  posc := 0
  prescale := 0
  repeats := 1
  tableLength := 8
  dmaData := 0
  dmaValid := false
  dataLast := false
  resetting := false
  overrunEvent := false
  streamingMode := false
  oneBufferMode := true

/-- The table is in the ring, and the sequencer is ready. -/
def twoFramesRun (enable : Nat → Bool) : Clocked.Run step :=
  .ofInputs step { State.boot with seqSm := .waitEnable, ring := twoFramesRing } fun clock =>
    twoFramesInput (enable clock)

theorem twoFrames_loaded : Loaded twoFrames twoFramesRing where
  written := by decide
  frames := by decide
  last := by decide
  reading := by decide
  shown := rfl
  valid := rfl

theorem twoFrames_atRest (enable : Nat → Bool) : AtRest ((twoFramesRun enable).state 0) :=
  ⟨rfl, ⟨rfl, rfl⟩, rfl, rfl⟩

theorem twoFrames_available (enable : Nat → Bool) :
    Available (twoFramesRun enable) twoFrames := by
  have hFrames : ((8 : BitVec 32).extractLsb' 2 19).toNat = 2 := by decide
  apply available_of_loaded twoFrames_loaded rfl rfl
  exact ⟨fun _ => ⟨hFrames, rfl, rfl, rfl⟩, fun _ => rfl, fun _ => rfl⟩

/-- ENABLE rises and stays high. -/
theorem table_played_exactly_two : PlaysTable (twoFramesRun fun _ => true) twoFrames :=
  table_played_exactly _ _ (twoFrames_atRest _) (twoFrames_available _) fun _ _ hFall _ _ =>
    Bool.noConfusion hFall

/-- ENABLE is low for one clock during the first frame: the next run begins with the second one. -/
theorem short_pause_skips_frame :
    AtRest ((twoFramesRun fun clock => clock != 1).state 0) ∧
      Available (twoFramesRun fun clock => clock != 1) twoFrames ∧
      ¬ PlaysTable (twoFramesRun fun clock => clock != 1) twoFrames := by
  refine ⟨twoFrames_atRest _, twoFrames_available _, fun hPlays => ?_⟩
  have hRise := hPlays.replays 2 rfl (by decide)
  have hTrigger : Triggers (twoFramesRun fun clock => clock != 1) (twoFrames.get ⟨0, by decide⟩)
      2 2 := ⟨le_rfl, trivial, fun clock hFrom hTo => absurd hTo (Nat.not_lt.mpr hFrom)⟩
  have hHeld : Held (twoFramesRun fun clock => clock != 1) 2 3 := by
    refine ⟨fun tick hFrom hTo => ?_, fun _ _ _ => rfl, fun _ _ _ => rfl⟩
    obtain rfl : tick = 2 := by omega
    rfl
  have hOut := (hRise.phase2 0 2 2 ⟨⟨0, by decide⟩, 1, 1⟩ 3 .first rfl hTrigger hHeld (by decide)
    (by decide)).2
  exact absurd hOut (by decide)

end Fpga.Seq
