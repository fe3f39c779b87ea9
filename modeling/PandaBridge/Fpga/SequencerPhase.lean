import PandaBridge.Fpga.SequencerRun

/-! One clock of a play: it waits, is in its phases, or gives way to the next one. -/
namespace Fpga.Seq

variable {table : List SeqFrame} {s s' : State} {i : Input} {play play' : Play table}
  {repeats : Nat}

/-! ### The plays of a table -/

/-- The numbers of a play are within its counts. -/
structure Play.Counts (repeats : Nat) (play : Play table) : Prop where
  line : play.frame.repeats.toNat ≠ 0 → play.lineRepeat ≤ play.frame.repeats.toNat
  table : repeats ≠ 0 → play.tableRepeat ≤ repeats

theorem counts_playAt {number : Nat} (h : playAt table repeats number = some play) :
    play.Counts repeats := by
  induction number generalizing play with
  | zero =>
      rw [playAt] at h
      split_ifs at h with hSome
      obtain rfl := Option.some.inj h
      exact ⟨Nat.one_le_iff_ne_zero.mpr, Nat.one_le_iff_ne_zero.mpr⟩
  | succ number ih =>
      obtain ⟨before, hBefore, hNext⟩ := Option.bind_eq_some_iff.mp h
      have hCounts := ih hBefore
      unfold Play.next? at hNext
      split_ifs at hNext with hLine hTable hEnd
      · obtain rfl := Option.some.inj hNext
        exact ⟨Nat.one_le_iff_ne_zero.mpr, hCounts.table⟩
      · obtain rfl := Option.some.inj hNext
        refine ⟨Nat.one_le_iff_ne_zero.mpr, fun hCount => ?_⟩
        have hLess := hCounts.table hCount
        have hOther : before.tableRepeat ≠ repeats := fun hSame => hEnd ⟨hCount, hSame⟩
        exact Nat.lt_of_le_of_ne hLess hOther
      · obtain rfl := Option.some.inj hNext
        refine ⟨fun hCount => ?_, hCounts.table⟩
        have hLess := hCounts.line hCount
        have hOther : before.lineRepeat ≠ before.frame.repeats.toNat :=
          fun hSame => hLine ⟨hCount, hSame⟩
        exact Nat.lt_of_le_of_ne hLess hOther

/-! ### One clock of a play -/

/-- The registers are those of a play. -/
structure On (s : State) (play : Play table) : Prop where
  line : AtLine s play.line
  lineRepeat : s.lineRepeatOut = BitVec.ofNat 32 play.lineRepeat
  tableRepeat : s.tableRepeatOut = BitVec.ofNat 32 play.tableRepeat
  active : s.active = true

theorem eq_ofNat_iff_reached {count number : Nat} {register : BitVec 32}
    (hRegister : register.toNat = count) (hCount : count ≠ 0 → number ≤ count) :
    (count ≠ 0 ∧ BitVec.ofNat 32 number = register) ↔ Reached count number := by
  apply and_congr_right
  intro hSome
  have hWidth := register.isLt
  have := hCount hSome
  rw [BitVec.toNat_eq, BitVec.toNat_ofNat, hRegister, Nat.mod_eq_of_lt (by omega)]

namespace On

theorem kept (h : On s play) (hKept : Kept s s') : On s' play where
  line := h.line.kept hKept
  lineRepeat := hKept.lineRepeatOut.trans h.lineRepeat
  tableRepeat := hKept.tableRepeatOut.trans h.tableRepeat
  active := hKept.active.trans h.active

theorem names (h : On s play) (hFixed : Fixed table i) : Names s play where
  active := h.active
  tableLine := by
    have hWidth := (tableFrames i).isLt
    rw [hFixed.frames] at hWidth
    have hLine := play.line.isLt
    apply BitVec.eq_of_toNat_eq
    rw [tableLine, h.line.tableLine, BitVec.toNat_setWidth, BitVec.toNat_ofNat, BitVec.toNat_ofNat,
      Nat.mod_eq_of_lt (a := _ + 1) (by omega)]
  lineRepeat := h.lineRepeat
  tableRepeat := h.tableRepeat

theorem lastLineRepeat_iff (h : On s play) (hCounts : play.Counts repeats) :
    lastLineRepeat s = true ↔ Reached play.frame.repeats.toNat play.lineRepeat := by
  have hFrame : s.currentFrame = play.frame := h.line.frame
  have hZero : play.frame.repeats ≠ 0 ↔ play.frame.repeats.toNat ≠ 0 := by
    rw [Ne, BitVec.toNat_eq]
    rfl
  rw [lastLineRepeat, Bool.and_eq_true, bne_iff_ne, beq_iff_eq, hFrame, h.lineRepeat, hZero]
  apply eq_ofNat_iff_reached _ hCounts.line
  rw [BitVec.toNat_setWidth]
  have := play.frame.repeats.isLt
  omega

theorem lastTableRepeat_iff (h : On s play) (hFixed : Fixed table i)
    (hCounts : play.Counts i.repeats.toNat) :
    lastTableRepeat s i = true ↔ Reached play.frame.repeats.toNat play.lineRepeat ∧
      play.line + 1 = table.length ∧ Reached i.repeats.toNat play.tableRepeat := by
  have hZero : i.repeats ≠ 0 ↔ i.repeats.toNat ≠ 0 := by
    rw [Ne, BitVec.toNat_eq]
    rfl
  have hTable : (i.repeats != 0 && s.tableRepeatOut == i.repeats) = true ↔
      Reached i.repeats.toNat play.tableRepeat := by
    rw [Bool.and_eq_true, bne_iff_ne, beq_iff_eq, h.tableRepeat, hZero]
    exact eq_ofNat_iff_reached rfl hCounts.table
  rw [lastTableRepeat, hFixed.notStreaming, Bool.not_false, Bool.true_and, Bool.or_false,
    Bool.and_eq_true, hTable, h.line.lastTableLine_iff hFixed, h.lastLineRepeat_iff hCounts,
    and_assoc]

/-- A frame is taken over at the end of a line. -/
theorem load (h : On s play) (hGoes : Goes s i) (hFixed : Fixed table i)
    (hSm : s.seqSm = .phase2) (hElapsed : timeElapsed s i = true)
    (hLine : lastLineRepeat s = true) (hTable : lastTableRepeat s i = false)
    (hShown : NextIs s (nextLine play.line)) (hOther : play'.line = nextLine play.line)
    (hRepeat : play'.lineRepeat = 1)
    (hPass : play'.tableRepeat =
      if (play.line : Nat) + 1 = table.length then play.tableRepeat + 1 else play.tableRepeat) :
    On (step s i) play' ∧
      Entered (step s i) play'.frame (period i) (trigValid play'.frame i) s.outVal := by
  have hFsm := (hGoes.phase2 hSm).trans (if_pos hElapsed)
  rw [lineEnd_line hTable hLine] at hFsm
  have hEnters := enters_of_gotoFrame hFsm (.inr hElapsed)
  have hFrame : nextFrame s = play'.frame := by
    rw [hShown.frame, Play.frame, hOther]
  have hLoaded : On (loaded s i) play' :=
    { line := by
        rw [hOther]
        exact h.line.loaded hFixed hLine hShown
      lineRepeat := by
        rw [hRepeat]
        rfl
      tableRepeat := by
        have hLast := h.line.lastTableLine_iff hFixed
        show (if lastTableLine s i && i.oneBufferMode then _ else _) = _
        rw [hFixed.oneBuffer, Bool.and_true, hPass, h.tableRepeat]
        by_cases hEnd : (play.line : Nat) + 1 = table.length
        · rw [if_pos (hLast.mpr ⟨hLine, hEnd⟩), if_pos hEnd, BitVec.ofNat_add]
          rfl
        · rw [if_neg fun hOn => hEnd (hLast.mp hOn).2, if_neg hEnd]
      active := h.active }
  refine ⟨hLoaded.kept hEnters.kept, ?_⟩
  have hEntered := hEnters.entered
  rw [hFrame, Bool.not_true, Bool.or_false] at hEntered
  exact hEntered

theorem next (h : On s play) (hGoes : Goes s i) (hFixed : Fixed table i)
    (hCounts : play.Counts i.repeats.toNat) (hSm : s.seqSm = .phase2)
    (hElapsed : timeElapsed s i = true) (hShown : NextIs s (nextLine play.line))
    (hNext : play.next? i.repeats.toNat = some play') :
    On (step s i) play' ∧
      Entered (step s i) play'.frame (period i) (trigValid play'.frame i) s.outVal := by
  have hLineIff := h.lastLineRepeat_iff hCounts
  have hTableIff := h.lastTableRepeat_iff hFixed hCounts
  unfold Play.next? at hNext
  split_ifs at hNext with hLine hMore hEnd
  · obtain rfl := Option.some.inj hNext
    have hTable : lastTableRepeat s i = false :=
      Bool.eq_false_iff.mpr fun hOn => (Nat.ne_of_lt hMore) (hTableIff.mp hOn).2.1
    apply h.load hGoes hFixed hSm hElapsed (hLineIff.mpr hLine) hTable hShown
    · exact Fin.ext (Nat.mod_eq_of_lt hMore).symm
    · rfl
    · rw [if_neg (Nat.ne_of_lt hMore)]
  · obtain rfl := Option.some.inj hNext
    have hLast : (play.line : Nat) + 1 = table.length :=
      Nat.le_antisymm play.line.isLt (Nat.not_lt.mp hMore)
    have hTable : lastTableRepeat s i = false :=
      Bool.eq_false_iff.mpr fun hOn => hEnd (hTableIff.mp hOn).2.2
    apply h.load hGoes hFixed hSm hElapsed (hLineIff.mpr hLine) hTable hShown
    · apply Fin.ext
      show 0 = ((play.line : Nat) + 1) % table.length
      rw [hLast, Nat.mod_self]
    · rfl
    · rw [if_pos hLast]
  · obtain rfl := Option.some.inj hNext
    have hRepeat : lastLineRepeat s = false :=
      Bool.eq_false_iff.mpr fun hOn => hLine (hLineIff.mp hOn)
    have hTable : lastTableRepeat s i = false :=
      Bool.eq_false_iff.mpr fun hOn => hLine (hTableIff.mp hOn).1
    have hFsm := (hGoes.phase2 hSm).trans (if_pos hElapsed)
    rw [lineEnd_repeat hTable hRepeat] at hFsm
    have hEnters := enters_of_gotoFrame hFsm (.inr hElapsed)
    have hFrame : s.currentFrame = play.frame := h.line.frame
    have hRepeated : On (repeated s)
        { play with lineRepeat := play.lineRepeat + 1 } :=
      { line := h.line.repeated
        lineRepeat := by
          show s.lineRepeatOut + 1 = _
          rw [h.lineRepeat, BitVec.ofNat_add]
          rfl
        tableRepeat := h.tableRepeat
        active := h.active }
    refine ⟨hRepeated.kept hEnters.kept, ?_⟩
    have hEntered := hEnters.entered
    rw [hFrame, Bool.not_true, Bool.or_false] at hEntered
    exact hEntered

/-- At the end of the last play nothing is played any more. -/
theorem done (h : On s play) (hGoes : Goes s i) (hFixed : Fixed table i)
    (hCounts : play.Counts i.repeats.toNat) (hSm : s.seqSm = .phase2)
    (hElapsed : timeElapsed s i = true) (hNext : play.next? i.repeats.toNat = none) :
    Low (step s i) ∧ (step s i).seqSm = .waitEnable := by
  unfold Play.next? at hNext
  split_ifs at hNext with hLine hMore hEnd
  have hLast : (play.line : Nat) + 1 = table.length :=
    Nat.le_antisymm play.line.isLt (Nat.not_lt.mp hMore)
  have hTable := (h.lastTableRepeat_iff hFixed hCounts).mpr ⟨hLine, hLast, hEnd⟩
  have hFsm := (hGoes.phase2 hSm).trans (if_pos hElapsed)
  rw [lineEnd_table hTable, hFixed.notStreaming] at hFsm
  exact ⟨⟨congrArg State.outVal hFsm, congrArg State.active hFsm⟩, congrArg State.seqSm hFsm⟩

theorem first (hGoes : Goes s i) (hSm : s.seqSm = .waitEnable) (hValid : frameValid s = true)
    (hRise : enableRise s i = true) (hShown : NextIs s play.line) (hLine : (play.line : Nat) = 0)
    (hRepeat : play.lineRepeat = 1) (hPass : play.tableRepeat = 1) :
    On (step s i) play ∧
      Entered (step s i) play.frame (period i) (trigValid play.frame i) s.outVal := by
  have hEnters := enters_of_gotoFrame (hGoes.rise hSm hValid hRise)
    (.inl (by rw [prescReset, hSm]; rfl))
  have hFrame : nextFrame s = play.frame := hShown.frame
  have hBegun : On (begun s) play :=
    { line := .begun hShown hLine
      lineRepeat := by
        rw [hRepeat]
        rfl
      tableRepeat := by
        rw [hPass]
        rfl
      active := rfl }
  refine ⟨hBegun.kept hEnters.kept, ?_⟩
  have hEntered := hEnters.entered
  rw [hFrame, Bool.not_true, Bool.or_false] at hEntered
  exact hEntered

theorem waits (h : On s play) (hGoes : Goes s i) (hSm : s.seqSm = .waitTrigger)
    (hUnmet : ¬ Met play.frame i) :
    On (step s i) play ∧ (step s i).seqSm = .waitTrigger ∧ (step s i).outVal = s.outVal := by
  have hFrame : s.currentFrame = play.frame := h.line.frame
  have hFsm := hGoes.waitTrigger hSm
  rw [hFrame, if_neg (mt (trigValid_iff _ _).mp hUnmet)] at hFsm
  exact ⟨h.kept ((kept_cleared s).trans (kept_step hFsm)), (congrArg State.seqSm hFsm).trans hSm,
    (congrArg State.outVal hFsm).trans rfl⟩

theorem triggered (h : On s play) (hGoes : Goes s i) (hSm : s.seqSm = .waitTrigger)
    (hMet : Met play.frame i) :
    On (step s i) play ∧ InPhases (step s i) play.frame (period i) 0 := by
  have hFrame : s.currentFrame = play.frame := h.line.frame
  have hFsm := hGoes.waitTrigger hSm
  rw [hFrame, if_pos ((trigValid_iff _ _).mpr hMet)] at hFsm
  have hEnters := enters_of_gotoFrame hFsm (.inl (by rw [prescReset, hSm]; rfl))
  exact ⟨h.kept ((kept_cleared s).trans hEnters.kept), hEnters.entered⟩

end On

namespace InPhases

variable {frame : SeqFrame} {elapsed : Nat}

theorem goes (h : InPhases s frame (period i) elapsed) (hFrame : s.currentFrame = frame)
    (hGoes : Goes s i)
    (hLess : elapsed + 1 <
      frame.time1.toNat * period i + max frame.time2.toNat 1 * period i) :
    InPhases (step s i) frame (period i) (elapsed + 1) ∧ Kept s (step s i) := by
  cases h with
  | phase1 hSm hTs hOut hElapsed hTime =>
      have hReset : prescReset s i = false := by
        have hLoad : loadNext s i = false :=
          loadNext_of_sm (by rw [hSm]; decide) (by rw [hSm]; decide)
        rw [prescReset, hLoad, hSm]
        rfl
      have hEnd := hElapsed.timeElapsed_iff (by rw [hTs]; exact hTime)
      rw [hTs] at hEnd
      have hFsm := hGoes.phase1 hSm
      by_cases hLast : elapsed + 1 = frame.time1.toNat * period i
      · rw [if_pos (hEnd.mpr hLast), hFrame] at hFsm
        refine ⟨?_, ((kept_cleared s).trans (kept_gotoPhase2 _ _)).trans (kept_step hFsm)⟩
        rw [hLast]
        exact .of_phase2 (congrArg State.seqSm hFsm) (congrArg State.nextTs hFsm)
          (congrArg State.outVal hFsm) (Elapsed.restart (.inr (hEnd.mpr hLast))) (period_pos i)
      · rw [if_neg (mt hEnd.mp hLast)] at hFsm
        refine ⟨?_, (kept_cleared s).trans (kept_step hFsm)⟩
        exact .phase1 ((congrArg State.seqSm hFsm).trans hSm)
          ((congrArg State.nextTs hFsm).trans hTs)
          ((congrArg State.outVal hFsm).trans hOut)
          (hElapsed.succ hReset (by rw [hTs]; omega)) (by omega)
  | phase2 hSm hTs hOut hElapsed hTime =>
      have hEnd := hElapsed.timeElapsed_iff (by rw [hTs]; exact hTime)
      rw [hTs] at hEnd
      have hStays : timeElapsed s i = false :=
        Bool.eq_false_iff.mpr fun hOn => by
          have := hEnd.mp hOn
          omega
      have hReset : prescReset s i = false := by
        have hLoad : loadNext s i = false := by
          rw [loadNext_phase2 hSm, hStays]
          rfl
        rw [prescReset, hLoad, hSm]
        rfl
      have hFsm := hGoes.phase2 hSm
      rw [if_neg (by rw [hStays]; decide)] at hFsm
      refine ⟨?_, (kept_cleared s).trans (kept_step hFsm)⟩
      rw [Nat.add_assoc]
      exact .phase2 ((congrArg State.seqSm hFsm).trans hSm)
        ((congrArg (fun s' => s'.nextTs.toNat) hFsm).trans hTs)
        ((congrArg State.outVal hFsm).trans hOut)
        (hElapsed.succ hReset (by rw [hTs]; omega)) (by omega)

theorem last (h : InPhases s frame (period i) elapsed)
    (hLast : elapsed + 1 =
      frame.time1.toNat * period i + max frame.time2.toNat 1 * period i) :
    s.seqSm = .phase2 ∧ timeElapsed s i = true := by
  have hSome : 0 < max frame.time2.toNat 1 * period i :=
    Nat.mul_pos (Nat.lt_of_lt_of_le Nat.zero_lt_one (Nat.le_max_right _ _)) (period_pos i)
  cases h with
  | phase1 hSm hTs hOut hElapsed hTime => omega
  | phase2 hSm hTs hOut hElapsed hTime =>
      refine ⟨hSm, (hElapsed.timeElapsed_iff (by rw [hTs]; exact hTime)).mpr ?_⟩
      rw [hTs]
      omega

theorem out1 {period : Nat} (h : InPhases s frame period elapsed)
    (hTime : elapsed < frame.time1.toNat * period) : s.outVal = frame.out1 := by
  cases h with
  | phase1 hSm hTs hOut hElapsed hLess => exact hOut
  | phase2 hSm hTs hOut hElapsed hLess => omega

theorem out2 {period : Nat} (h : InPhases s frame period elapsed)
    (hTime : frame.time1.toNat * period ≤ elapsed) : s.outVal = frame.out2 := by
  cases h with
  | phase1 hSm hTs hOut hElapsed hLess => omega
  | phase2 hSm hTs hOut hElapsed hLess => exact hOut

end InPhases

end Fpga.Seq
