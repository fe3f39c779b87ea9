import PandaBridge.Fpga.SequencerPlay
import Mathlib.Tactic.IntervalCases

/-! What one clock edge does to the play under way. -/
namespace Fpga.Seq

/-! ### Triggers -/

theorem eq_bits_iff (x : BitVec 3) (c b a : Bool) :
    x = bits c b a ↔ c = x.getLsbD 2 ∧ b = x.getLsbD 1 ∧ a = x.getLsbD 0 := by
  revert x c b a
  decide

theorem bits_eq_zero_iff (c b a : Bool) :
    bits c b a = 0#3 ↔ c = false ∧ b = false ∧ a = false := by
  revert c b a
  decide

theorem xnor_eq_iff (x y : BitVec 3) : xnor x y = 7#3 ↔ x = y := by
  revert x y
  decide

theorem trigValid_iff (frame : SeqFrame) (i : Input) : trigValid frame i = true ↔ Met frame i := by
  obtain ⟨repeats, trigger, out1, out2, position, time1, time2⟩ := frame
  obtain ⟨⟨option, hOption⟩⟩ := trigger
  interval_cases option <;>
    simp [trigValid, Met, posInp, posEn, posEnBit, inpVal, immediately, bita0, bita1, bitb0, bitb1,
      bitc0, bitc1, posaGtPosition, posaLtPosition, posbGtPosition, posbLtPosition, poscGtPosition,
      poscLtPosition, BitVec.sle_iff_toInt_le, eq_bits_iff, xnor_eq_iff, bits_eq_zero_iff]

/-! ### The time of a phase -/

/-- The counters of a phase after some clocks of it. -/
structure Elapsed (s : State) (period elapsed : Nat) : Prop where
  low : s.clkCnt.toNat < period
  count : s.tframeCounter.toNat * period + s.clkCnt.toNat = elapsed

variable {s s' : State} {i : Input} {elapsed : Nat}

theorem period_pos (i : Input) : 0 < period i := by
  unfold period
  omega

theorem periodRollover_toNat (i : Input) :
    (PrescalerPos.periodRollover i.prescale).toNat + 1 = period i := by
  unfold PrescalerPos.periodRollover period
  split_ifs with hZero
  · show 0 + 1 = _
    omega
  · bv_omega

theorem prescCe_iff : prescCe s i = true ↔ s.clkCnt.toNat + 1 = period i := by
  rw [← periodRollover_toNat, prescCe, SequencerPrescaler.pulse, PrescalerPos.pulse, beq_iff_eq,
    BitVec.toNat_eq]
  omega

theorem nextTs_pred (hTs : 0 < s.nextTs.toNat) :
    s.tframeCounter = s.nextTs - 1 ↔ s.tframeCounter.toNat + 1 = s.nextTs.toNat := by
  rw [BitVec.toNat_eq]
  bv_omega

namespace Elapsed

theorem timeElapsed_iff (h : Elapsed s (period i) elapsed)
    (hTime : elapsed < s.nextTs.toNat * period i) :
    timeElapsed s i = true ↔ elapsed + 1 = s.nextTs.toNat * period i := by
  have hTs : 0 < s.nextTs.toNat := Nat.pos_of_mul_pos_right (Nat.zero_lt_of_lt hTime)
  have hLow := h.low
  rw [timeElapsed, Bool.and_eq_true, beq_iff_eq, prescCe_iff, nextTs_pred hTs, ← h.count]
  constructor
  · rintro ⟨hClock, hFrame⟩
    rw [← hFrame, Nat.succ_mul, ← hClock]
    omega
  · intro hEnd
    have hFrame : s.tframeCounter.toNat + 1 = s.nextTs.toNat := by
      rcases Nat.lt_trichotomy (s.tframeCounter.toNat + 1) s.nextTs.toNat with hLess | hSame | hMore
      · have := Nat.mul_le_mul_right (period i) hLess
        simp only [Nat.succ_mul] at this
        omega
      · exact hSame
      · have := Nat.mul_le_mul_right (period i) (Nat.le_of_lt_succ hMore)
        rw [← h.count] at hTime
        omega
    rw [← hFrame, Nat.succ_mul] at hEnd
    exact ⟨by omega, hFrame⟩

theorem succ (h : Elapsed s (period i) elapsed) (hReset : prescReset s i = false)
    (hTime : elapsed + 1 < s.nextTs.toNat * period i) :
    Elapsed (step s i) (period i) (elapsed + 1) := by
  have hTs : 0 < s.nextTs.toNat := Nat.pos_of_mul_pos_right (Nat.zero_lt_of_lt hTime)
  have hElapsed : timeElapsed s i = false := by
    rw [Bool.eq_false_iff, Ne, h.timeElapsed_iff (Nat.lt_of_succ_lt hTime)]
    omega
  have hClk : (step s i).clkCnt = if prescCe s i then 0 else s.clkCnt + 1 := by
    show SequencerPrescaler.step s.clkCnt i.prescale (prescReset s i) = _
    rw [SequencerPrescaler.step, PrescalerPos.step, hReset]
    rfl
  have hFrame : (step s i).tframeCounter =
      if prescCe s i then s.tframeCounter + 1 else s.tframeCounter := by
    show nextTframeCounter s i = _
    rw [nextTframeCounter, hReset]
    by_cases hCe : prescCe s i = true
    · rw [timeElapsed, hCe, Bool.true_and] at hElapsed
      rw [if_neg Bool.false_ne_true, if_pos hCe, if_pos hCe, hElapsed]
      rfl
    · rw [if_neg Bool.false_ne_true, if_neg hCe, if_neg hCe]
  have hLow := h.low
  have hCount := h.count
  by_cases hCe : prescCe s i = true
  · have hClock := prescCe_iff.mp hCe
    have hRoom : s.tframeCounter.toNat + 1 < 2 ^ 32 := by
      have hLess : s.tframeCounter.toNat * period i < s.nextTs.toNat * period i := by omega
      have := Nat.lt_of_mul_lt_mul_right hLess
      have := s.nextTs.isLt
      omega
    have hNext : (s.tframeCounter + 1).toNat = s.tframeCounter.toNat + 1 := by
      bv_omega
    constructor
    · rw [hClk, if_pos hCe]
      exact period_pos i
    · rw [hClk, hFrame, if_pos hCe, if_pos hCe, hNext, Nat.succ_mul]
      show _ + 0 = _
      omega
  · have hClock : s.clkCnt.toNat + 1 < period i := by
      have := mt prescCe_iff.mpr hCe
      omega
    have hNext : (s.clkCnt + 1).toNat = s.clkCnt.toNat + 1 := by
      have hWidth : period i ≤ 2 ^ 32 := by
        have := i.prescale.isLt
        unfold period
        omega
      bv_omega
    constructor
    · rw [hClk, if_neg hCe, hNext]
      exact hClock
    · rw [hClk, hFrame, if_neg hCe, if_neg hCe, hNext]
      omega

theorem of_zero (hClk : s.clkCnt = 0) (hFrame : s.tframeCounter = 0) {period : Nat}
    (hPeriod : 0 < period) : Elapsed s period 0 := by
  constructor
  · rw [hClk]
    exact hPeriod
  · rw [hClk, hFrame]
    simp

/-- The counters begin anew with a reset and at the end of a phase. -/
theorem restart (h : prescReset s i = true ∨ timeElapsed s i = true) :
    Elapsed (step s i) (period i) 0 := by
  apply of_zero _ _ (period_pos i)
  · show SequencerPrescaler.step s.clkCnt i.prescale (prescReset s i) = _
    rw [SequencerPrescaler.step, PrescalerPos.step]
    rcases h with hReset | hElapsed
    · rw [if_pos hReset]
    · have hCe : prescCe s i = true := (Bool.and_eq_true_iff.mp hElapsed).1
      rw [prescCe, SequencerPrescaler.pulse, PrescalerPos.pulse] at hCe
      rw [if_pos hCe, ite_self]
  · show nextTframeCounter s i = _
    rw [nextTframeCounter]
    rcases h with hReset | hElapsed
    · rw [if_pos hReset]
    · obtain ⟨hCe, hLast⟩ := Bool.and_eq_true_iff.mp hElapsed
      rw [if_pos hCe, if_pos hLast, ite_self]

end Elapsed

/-! ### Entering a play -/

/-- How a play is entered: with its trigger condition in one of its phases, else waiting with the
outputs as they are. -/
inductive Entry (frame : SeqFrame) (outVal : BitVec 6) :
    Bool → Sm → BitVec 32 → BitVec 6 → Prop
  | waits (nextTs : BitVec 32) : Entry frame outVal false .waitTrigger nextTs outVal
  | phase1 (hTime : frame.time1 ≠ 0) :
      Entry frame outVal true .phase1 frame.time1 frame.out1
  | phase2 (hTime : frame.time1 = 0) :
      Entry frame outVal true .phase2 (if frame.time2 != 0 then frame.time2 else 1) frame.out2

theorem gotoFrame_entry (s : State) (frame : SeqFrame) (triggered considerTriggers : Bool) :
    ∃ sm nextTs outVal, Entry frame s.outVal (triggered || !considerTriggers) sm nextTs outVal ∧
      gotoFrame s frame triggered considerTriggers =
        { s with nextTs := nextTs, outVal := outVal, seqSm := sm } := by
  unfold gotoFrame
  split_ifs with hWaits hTime
  · obtain ⟨hTriggered, hConsider⟩ := Bool.and_eq_true_iff.mp hWaits
    rw [Bool.not_eq_true'] at hTriggered
    rw [hTriggered, hConsider]
    exact ⟨_, _, _, .waits s.nextTs, rfl⟩
  · have hGo : (triggered || !considerTriggers) = true := by
      revert hWaits
      cases triggered <;> cases considerTriggers <;> simp
    rw [hGo]
    exact ⟨_, _, _, .phase1 (bne_iff_ne.mp hTime), rfl⟩
  · have hGo : (triggered || !considerTriggers) = true := by
      revert hWaits
      cases triggered <;> cases considerTriggers <;> simp
    rw [hGo]
    exact ⟨_, _, _, .phase2 (by simpa using hTime), rfl⟩

/-- The state is in the phases of a frame, some clocks after the first of them. -/
inductive InPhases (s : State) (frame : SeqFrame) (period : Nat) : Nat → Prop
  | phase1 {elapsed : Nat} (hSm : s.seqSm = .phase1) (hTs : s.nextTs = frame.time1)
      (hOut : s.outVal = frame.out1) (hElapsed : Elapsed s period elapsed)
      (hLess : elapsed < frame.time1.toNat * period) : InPhases s frame period elapsed
  | phase2 {elapsed : Nat} (hSm : s.seqSm = .phase2)
      (hTs : s.nextTs.toNat = max frame.time2.toNat 1)
      (hOut : s.outVal = frame.out2) (hElapsed : Elapsed s period elapsed)
      (hLess : elapsed < max frame.time2.toNat 1 * period) :
      InPhases s frame period (frame.time1.toNat * period + elapsed)

/-- The state just after a play was entered. -/
def Entered (s : State) (frame : SeqFrame) (period : Nat) (triggered : Bool)
    (outVal : BitVec 6) : Prop :=
  if triggered then InPhases s frame period 0
  else s.seqSm = .waitTrigger ∧ s.outVal = outVal

theorem time2_toNat (frame : SeqFrame) :
    (if frame.time2 != 0 then frame.time2 else 1).toNat = max frame.time2.toNat 1 := by
  split_ifs with hTime
  · have := bne_iff_ne.mp hTime
    bv_omega
  · have hZero : frame.time2 = 0 := by simpa using hTime
    rw [hZero]
    rfl

theorem InPhases.of_phase2 {frame : SeqFrame} {period : Nat} (hSm : s.seqSm = .phase2)
    (hTs : s.nextTs = if frame.time2 != 0 then frame.time2 else 1) (hOut : s.outVal = frame.out2)
    (hZero : Elapsed s period 0) (hPeriod : 0 < period) :
    InPhases s frame period (frame.time1.toNat * period) :=
  .phase2 hSm (by rw [hTs, time2_toNat]) hOut hZero
    (Nat.mul_pos (Nat.lt_of_lt_of_le Nat.zero_lt_one (Nat.le_max_right _ _)) hPeriod)

theorem Entry.entered {frame : SeqFrame} {triggered : Bool} {sm : Sm} {nextTs : BitVec 32}
    {outVal outVal' : BitVec 6} (h : Entry frame outVal triggered sm nextTs outVal')
    (hSm : s.seqSm = sm) (hTs : s.nextTs = nextTs) (hOut : s.outVal = outVal') {period : Nat}
    (hZero : Elapsed s period 0) (hPeriod : 0 < period) :
    Entered s frame period triggered outVal := by
  cases h with
  | waits nextTs => exact ⟨hSm, hOut⟩
  | phase1 hTime =>
      have hPos : 0 < frame.time1.toNat := by
        rw [Nat.pos_iff_ne_zero]
        exact fun hZero => hTime (BitVec.eq_of_toNat_eq hZero)
      exact .phase1 hSm hTs hOut hZero (Nat.mul_pos hPos hPeriod)
  | phase2 hTime =>
      have hPhases := InPhases.of_phase2 hSm hTs hOut hZero hPeriod
      rw [hTime] at hPhases
      simpa [Entered] using hPhases

theorem Entry.playing {frame : SeqFrame} {triggered : Bool} {sm : Sm} {nextTs : BitVec 32}
    {outVal outVal' : BitVec 6} (h : Entry frame outVal triggered sm nextTs outVal') :
    (sm != .unready && sm != .waitEnable) = true := by
  cases h with
  | waits => rfl
  | phase1 => rfl
  | phase2 => rfl

/-! ### The branches of the state machine -/

/-- The two pulses last for one clock. -/
def cleared (s : State) : State := { s with abortDma := false, wrappingModeReset := false }

/-- The first frame was taken over from the ring table. -/
def begun (s : State) : State :=
  { cleared s with
    currentFrame := nextFrame s
    currentFrameLast := nextFrameLast s
    tableRepeatOut := 1
    tableLineOut := 1
    lineRepeatOut := 1
    active := true }

/-- A frame was taken over from the ring table at the end of a line. -/
def loaded (s : State) (i : Input) : State :=
  { cleared s with
    lineRepeatOut := 1
    tableLineOut := if lastTableLine s i then 1 else s.tableLineOut + 1
    tableRepeatOut :=
      if lastTableLine s i && i.oneBufferMode then s.tableRepeatOut + 1 else s.tableRepeatOut
    currentFrame := nextFrame s
    currentFrameLast := nextFrameLast s }

/-- The line is played once more. -/
def repeated (s : State) : State := { cleared s with lineRepeatOut := s.lineRepeatOut + 1 }

/-- Neither does ENABLE fall, nor is there an error. -/
structure Goes (s : State) (i : Input) : Prop where
  fall : enableFall s i = false
  error : errorEvent s i = false

theorem seqFsm_stop (hFall : enableFall s i = true) : seqFsm s i = stop s i := by
  rw [seqFsm, hFall]
  rfl

theorem lineEnd_table (hTable : lastTableRepeat s i = true) : lineEnd (cleared s) i =
    { cleared s with
      active := false
      outVal := 0
      seqSm := if i.streamingMode then .unready else .waitEnable } := by
  rw [lineEnd]
  show (if lastTableRepeat s i then _ else _) = _
  rw [if_pos hTable]

theorem lineEnd_line (hTable : lastTableRepeat s i = false) (hLine : lastLineRepeat s = true) :
    lineEnd (cleared s) i =
      gotoFrame (loaded s i) (nextFrame s) (trigValid (nextFrame s) i) true := by
  rw [lineEnd]
  show (if lastTableRepeat s i then _ else if lastLineRepeat s then
    gotoNextState (if lastTableLine s i then _ else _) i true true else _) = _
  rw [hTable, if_neg Bool.false_ne_true, if_pos hLine, loaded]
  cases lastTableLine s i with
  | true => rfl
  | false => rfl

theorem lineEnd_repeat (hTable : lastTableRepeat s i = false) (hLine : lastLineRepeat s = false) :
    lineEnd (cleared s) i =
      gotoFrame (repeated s) s.currentFrame (trigValid s.currentFrame i) true := by
  rw [lineEnd]
  show (if lastTableRepeat s i then _ else if lastLineRepeat s then _ else _) = _
  rw [hTable, if_neg Bool.false_ne_true, hLine, if_neg Bool.false_ne_true]
  rfl

namespace Goes

theorem seqFsm_eq (h : Goes s i) {sm : Sm} (hSm : s.seqSm = sm) : seqFsm s i = smCase s i sm := by
  rw [seqFsm, h.fall, h.error, hSm]
  rfl

theorem unready (h : Goes s i) (hSm : s.seqSm = .unready) : seqFsm s i =
    { cleared s with
      outVal := 0
      seqSm := if frameValid s && !resettingDma s i then .waitEnable else .unready } := by
  rw [h.seqFsm_eq hSm]
  rfl

theorem idle (h : Goes s i) (hSm : s.seqSm = .waitEnable) (hValid : frameValid s = true)
    (hRise : enableRise s i = false) : seqFsm s i = cleared s := by
  rw [h.seqFsm_eq hSm]
  show (if !frameValid s then _ else if enableRise s i then _ else cleared s) = _
  rw [hValid, hRise]
  rfl

theorem rise (h : Goes s i) (hSm : s.seqSm = .waitEnable) (hValid : frameValid s = true)
    (hRise : enableRise s i = true) :
    seqFsm s i = gotoFrame (begun s) (nextFrame s) (trigValid (nextFrame s) i) true := by
  rw [h.seqFsm_eq hSm]
  show (if !frameValid s then _ else if enableRise s i then
    { resetRepeatCount (gotoFrame _ (nextFrame s) (trigValid (nextFrame s) i) true) 1 with
      active := true } else _) = _
  rw [hValid, hRise, Bool.not_true, if_neg Bool.false_ne_true, if_pos rfl]
  unfold gotoFrame
  split_ifs
  · rfl
  · rfl
  · rfl

theorem waitTrigger (h : Goes s i) (hSm : s.seqSm = .waitTrigger) : seqFsm s i =
    if trigValid s.currentFrame i then gotoFrame (cleared s) s.currentFrame true false
    else cleared s := by
  rw [h.seqFsm_eq hSm]
  show (if trigValid s.currentFrame i then gotoFrame (cleared s) s.currentFrame
    (trigValid s.currentFrame i) false else cleared s) = _
  split_ifs with hTrig
  · rw [hTrig]
  · rfl

theorem phase1 (h : Goes s i) (hSm : s.seqSm = .phase1) : seqFsm s i =
    if timeElapsed s i then gotoPhase2 (cleared s) s.currentFrame else cleared s := by
  rw [h.seqFsm_eq hSm]
  rfl

theorem phase2 (h : Goes s i) (hSm : s.seqSm = .phase2) :
    seqFsm s i = if timeElapsed s i then lineEnd (cleared s) i else cleared s := by
  rw [h.seqFsm_eq hSm]
  rfl

end Goes

/-! ### Lines and plays -/

/-- The registers of a play are the same. -/
structure Kept (s s' : State) : Prop where
  currentFrame : s'.currentFrame = s.currentFrame
  currentFrameLast : s'.currentFrameLast = s.currentFrameLast
  tableLineOut : s'.tableLineOut = s.tableLineOut
  lineRepeatOut : s'.lineRepeatOut = s.lineRepeatOut
  tableRepeatOut : s'.tableRepeatOut = s.tableRepeatOut
  active : s'.active = s.active

theorem Kept.trans {s'' : State} (h : Kept s s') (h' : Kept s' s'') : Kept s s'' where
  currentFrame := h'.currentFrame.trans h.currentFrame
  currentFrameLast := h'.currentFrameLast.trans h.currentFrameLast
  tableLineOut := h'.tableLineOut.trans h.tableLineOut
  lineRepeatOut := h'.lineRepeatOut.trans h.lineRepeatOut
  tableRepeatOut := h'.tableRepeatOut.trans h.tableRepeatOut
  active := h'.active.trans h.active

theorem kept_cleared (s : State) : Kept s (cleared s) := ⟨rfl, rfl, rfl, rfl, rfl, rfl⟩

theorem kept_gotoPhase2 (s : State) (frame : SeqFrame) : Kept s (gotoPhase2 s frame) :=
  ⟨rfl, rfl, rfl, rfl, rfl, rfl⟩

theorem kept_step {s₀ : State} (hFsm : seqFsm s i = s₀) : Kept s₀ (step s i) := by
  subst hFsm
  exact ⟨rfl, rfl, rfl, rfl, rfl, rfl⟩

/-- What entering a play does, wherever the state machine comes from. -/
structure Enters (s₀ s' : State) (frame : SeqFrame) (period : Nat) (triggered : Bool) :
    Prop where
  entered : Entered s' frame period triggered s₀.outVal
  kept : Kept s₀ s'
  playing : playing s' = true
  abortDma : s'.abortDma = s₀.abortDma
  wrappingModeReset : s'.wrappingModeReset = s₀.wrappingModeReset

theorem enters_of_gotoFrame {s₀ : State} {frame : SeqFrame} {triggered considerTriggers : Bool}
    (hFsm : seqFsm s i = gotoFrame s₀ frame triggered considerTriggers)
    (hZero : prescReset s i = true ∨ timeElapsed s i = true) :
    Enters s₀ (step s i) frame (period i) (triggered || !considerTriggers) := by
  obtain ⟨sm, nextTs, outVal, hEntry, hGoto⟩ := gotoFrame_entry s₀ frame triggered considerTriggers
  rw [hGoto] at hFsm
  have hSm : (step s i).seqSm = sm := congrArg State.seqSm hFsm
  have hKept := kept_step hFsm
  exact
    { entered := hEntry.entered hSm (congrArg State.nextTs hFsm) (congrArg State.outVal hFsm)
        (Elapsed.restart hZero) (period_pos i)
      kept := ⟨hKept.1, hKept.2, hKept.3, hKept.4, hKept.5, hKept.6⟩
      playing := by
        rw [Seq.playing, hSm]
        exact hEntry.playing
      abortDma := by
        show (seqFsm s i).abortDma = _
        rw [hFsm]
      wrappingModeReset := by
        show (seqFsm s i).wrappingModeReset = _
        rw [hFsm] }

variable {table : List SeqFrame} {line : Fin table.length} {play play' : Play table}

/-- The current frame is that of a line. -/
structure AtLine (s : State) (line : Fin table.length) : Prop where
  frame : s.currentFrame = table.get line
  last : s.currentFrameLast = true → line + 1 = table.length
  tableLine : s.tableLineOut = BitVec.ofNat 19 (line + 1)

namespace AtLine

theorem kept (h : AtLine s line) (hKept : Kept s s') : AtLine s' line where
  frame := hKept.currentFrame.trans h.frame
  last hLast := h.last (hKept.currentFrameLast.symm.trans hLast)
  tableLine := hKept.tableLineOut.trans h.tableLine

theorem lastTableLine_iff (h : AtLine s line) (hFixed : Fixed table i) :
    lastTableLine s i = true ↔ lastLineRepeat s = true ∧ line + 1 = table.length := by
  have hWidth := (tableFrames i).isLt
  rw [hFixed.frames] at hWidth
  have hLine := line.isLt
  have hCount : s.tableLineOut = tableFrames i ↔ line + 1 = table.length := by
    rw [BitVec.toNat_eq, h.tableLine, hFixed.frames, BitVec.toNat_ofNat,
      Nat.mod_eq_of_lt (by omega)]
  rw [lastTableLine, hFixed.oneBuffer, Bool.true_and, Bool.and_eq_true, Bool.or_eq_true, beq_iff_eq,
    hCount]
  exact and_congr_right fun _ => or_iff_left_of_imp h.last

/-- The register of the line tells the lines apart. -/
theorem unique {line' : Fin table.length} (h : AtLine s line) (h' : AtLine s line')
    (hFixed : Fixed table i) : line = line' := by
  have hWidth := (tableFrames i).isLt
  rw [hFixed.frames] at hWidth
  have hLine := line.isLt
  have hLine' := line'.isLt
  have hSame := congrArg BitVec.toNat (h.tableLine.symm.trans h'.tableLine)
  rw [BitVec.toNat_ofNat, BitVec.toNat_ofNat, Nat.mod_eq_of_lt (by omega),
    Nat.mod_eq_of_lt (by omega)] at hSame
  exact Fin.ext (Nat.succ.inj hSame)

theorem begun (hNext : NextIs s line) (hFirst : (line : Nat) = 0) : AtLine (begun s) line where
  frame := hNext.frame
  last := hNext.last
  tableLine := by
    rw [hFirst]
    rfl

theorem repeated (h : AtLine s line) : AtLine (repeated s) line :=
  ⟨h.frame, h.last, h.tableLine⟩

/-- The line that is taken over at the end of another one. -/
theorem loaded (h : AtLine s line) (hFixed : Fixed table i) (hLine : lastLineRepeat s = true)
    (hNext : NextIs s (nextLine line)) : AtLine (loaded s i) (nextLine line) where
  frame := hNext.frame
  last := hNext.last
  tableLine := by
    show (if lastTableLine s i then 1 else s.tableLineOut + 1) = _
    by_cases hEnd : (line : Nat) + 1 = table.length
    · rw [if_pos ((h.lastTableLine_iff hFixed).mpr ⟨hLine, hEnd⟩), nextLine]
      simp [hEnd]
    · have hLess : (line : Nat) + 1 < table.length := Nat.lt_of_le_of_ne line.isLt hEnd
      rw [if_neg fun hLast => hEnd ((h.lastTableLine_iff hFixed).mp hLast).2, h.tableLine, nextLine]
      simp [Nat.mod_eq_of_lt hLess, BitVec.ofNat_add]

end AtLine

end Fpga.Seq
