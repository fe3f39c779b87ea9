import PandaBridge.Fpga.BissSlave

/-! The frame that a BiSS slave sends: the position from its highest bit on, the two status bits and
the check code of both. -/
namespace Fpga.BissSlave

open Clocked

section Quiet

/-- The frame waits for the clock of the master. -/
def Waits (smData : SmData) : Prop := smData ≠ .synch ∧ smData ≠ .timeout

/-- What a clock without an edge keeps. -/
structure Keeps (s s' : State) : Prop where
  smData : s'.smData = s.smData
  dataEnable : s'.dataEnable = s.dataEnable
  nEnWEnable : s'.nEnWEnable = s.nEnWEnable
  bissDat : s'.bissDat = s.bissDat
  posnLatched : s'.posnLatched = s.posnLatched
  dataCnt : s'.dataCnt = s.dataCnt
  crcReset : s'.crcReset = s.crcReset

theorem Keeps.trans {s s' s'' : State} (h : Keeps s s') (h' : Keeps s' s'') : Keeps s s'' :=
  ⟨h'.smData.trans h.smData, h'.dataEnable.trans h.dataEnable, h'.nEnWEnable.trans h.nEnWEnable,
    h'.bissDat.trans h.bissDat, h'.posnLatched.trans h.posnLatched, h'.dataCnt.trans h.dataCnt,
    h'.crcReset.trans h.crcReset⟩

theorem onEdge_quiet {s : State} {i : Input} {next : State → State}
    (hQuiet : sckRisingEdge s i = false) (hTime : s.sckTimeoutCnt ≠ 0) :
    onEdge s i next = { s with sckTimeoutCnt := s.sckTimeoutCnt - 1 } := by
  rw [onEdge, if_neg (by simp [hQuiet]), if_neg hTime]

theorem caseStep_quiet {s : State} {i : Input} (hReset : i.reset = false) (hWaits : Waits s.smData)
    (hQuiet : sckRisingEdge s i = false) (hTime : s.sckTimeoutCnt ≠ 0) :
    caseStep s i = { s with sckTimeoutCnt := s.sckTimeoutCnt - 1 } := by
  rw [caseStep, if_neg (by simp [hReset])]
  split <;> rename_i hState
  · exact absurd hState hWaits.1
  all_goals first | exact absurd hState hWaits.2 | exact onEdge_quiet hQuiet hTime

theorem step_quiet {s : State} {i : Input} (hReset : i.reset = false) (hWaits : Waits s.smData)
    (hQuiet : sckRisingEdge s i = false) (hTime : s.sckTimeoutCnt ≠ 0) :
    Keeps s (step s i) ∧ (step s i).sckTimeoutCnt = s.sckTimeoutCnt - 1 ∧
      (step s i).calcEnable = false ∧
      (step s i).crc = BissCrc.step s.crc s.crcReset s.bissDat s.calcEnable := by
  simp only [step, caseStep_quiet hReset hWaits hQuiet hTime, hReset, hQuiet, Bool.and_false,
    Bool.false_or, and_self, and_true]
  exact ⟨rfl, rfl, rfl, rfl, rfl, rfl, rfl⟩

theorem onEdge_rise {s : State} {i : Input} {next : State → State}
    (hRise : sckRisingEdge s i = true) :
    onEdge s i next = { next s with sckTimeoutCnt := maxTimeout, health := 0 } := by
  rw [onEdge, if_pos hRise]

end Quiet

/-! ### Phases of the data range -/

section Phases

/-- The state after so many bits of the data range. -/
def phaseState (bits count : Nat) : SmData :=
  if count < bits then .data
  else if count < bits + 2 then .nEnW
  else if count < bits + 8 then .crc
  else .stop

/-- The registers after so many bits of the data range. -/
structure Phase (bits : Nat) (posn : BitVec 32) (count : Nat) (s : State) : Prop where
  smData : s.smData = phaseState bits count
  dataCnt : s.dataCnt.toNat = bits + 8 - count
  dataEnable : s.dataEnable = decide (count < bits)
  nEnWEnable : s.nEnWEnable = decide (bits ≤ count ∧ count < bits + 2)
  posnLatched : s.posnLatched = posn
  crcReset : s.crcReset = false

theorem Phase.of_keeps {bits count : Nat} {posn : BitVec 32} {s s' : State}
    (h : Phase bits posn count s) (hKeeps : Keeps s s') : Phase bits posn count s' :=
  ⟨hKeeps.smData.trans h.smData, by rw [hKeeps.dataCnt, h.dataCnt],
    hKeeps.dataEnable.trans h.dataEnable, hKeeps.nEnWEnable.trans h.nEnWEnable,
    hKeeps.posnLatched.trans h.posnLatched, hKeeps.crcReset.trans h.crcReset⟩

/-- The bit that an edge sends in a phase. -/
def phaseBit (s : State) (i : Input) (bits count : Nat) : Bool :=
  if count < bits then dataBit s i
  else if count < bits + 2 then s.nEnW.getLsbD (bits + 1 - count)
  else (BissCrc.out s.crc).getLsbD (bits + 7 - count)

theorem dataCnt_eq_iff {cnt : BitVec 8} {bits count : Nat} (hCnt : cnt.toNat = bits + 8 - count)
    (limit : Nat) (hLimit : limit < 256) :
    cnt = BitVec.ofNat 8 limit ↔ bits + 8 - count = limit := by
  rw [← BitVec.toNat_inj, hCnt, BitVec.toNat_ofNat, Nat.mod_eq_of_lt hLimit]

theorem dataCnt_sub {cnt : BitVec 8} {bits count : Nat} (hCnt : cnt.toNat = bits + 8 - count)
    (less : Nat) (hLess : less ≤ bits + 8 - count) (hSmall : less < 256) :
    (cnt - BitVec.ofNat 8 less).toNat = bits + 8 - count - less := by
  have hNat : (BitVec.ofNat 8 less).toNat = less := by
    rw [BitVec.toNat_ofNat, Nat.mod_eq_of_lt hSmall]
  rw [BitVec.toNat_sub_of_le (by rw [BitVec.le_def, hNat, hCnt]; exact hLess), hNat, hCnt]

theorem Phase.edge {bits count : Nat} {posn : BitVec 32} {s : State} {i : Input}
    (h : Phase bits posn count s) (hReset : i.reset = false) (hRise : sckRisingEdge s i = true)
    (hCount : count < bits + 8) :
    Phase bits posn (count + 1) (step s i) ∧ (step s i).bissDat = phaseBit s i bits count ∧
      (step s i).sckTimeoutCnt = maxTimeout ∧
      (step s i).calcEnable = decide (count < bits + 2) ∧ (step s i).crc =
        BissCrc.step s.crc false s.bissDat s.calcEnable := by
  obtain ⟨hState, hCnt, hData, hStatus, hPosn, hCrc⟩ := h
  rcases Nat.lt_or_ge count bits with hInData | hAfterData
  · have hCase : caseStep s i = onEdge s i (dataEdge i) := by
      simp only [caseStep, hReset, hState, phaseState, if_pos hInData, Bool.false_eq_true, if_false]
    have hNine : s.dataCnt = 9 ↔ count + 1 = bits :=
      (dataCnt_eq_iff hCnt 9 (by decide)).trans (by omega)
    rw [onEdge_rise hRise] at hCase
    simp only [step, hCase, dataEdge, hReset, hRise, hData, hStatus]
    refine ⟨⟨?_, ?_, ?_, ?_, hPosn, hCrc⟩, ?_, ?_, ?_, ?_⟩
    · simp only [phaseState, hNine]
      split_ifs <;> first | rfl | omega
    · exact (dataCnt_sub hCnt 1 (by omega) (by decide)).trans (by omega)
    · simp only [hNine]
      split_ifs with hLast
      · exact (decide_eq_false (by omega)).symm
      · exact decide_eq_decide.mpr (by omega)
    · simp only [hNine]
      split_ifs with hLast
      · exact (decide_eq_true (by omega)).symm
      · exact decide_eq_decide.mpr (by omega)
    · rw [phaseBit, if_pos hInData]
    · trivial
    · have hBefore : count < bits + 2 := by omega
      simp [hInData, hBefore]
    · rw [hCrc]
      rfl
  rcases Nat.lt_or_ge count (bits + 2) with hInStatus | hAfterStatus
  · have hCase : caseStep s i = onEdge s i nEnWEdge := by
      simp only [caseStep, hReset, hState, phaseState, if_neg (Nat.not_lt.mpr hAfterData),
        if_pos hInStatus, Bool.false_eq_true, if_false]
    have hSeven : s.dataCnt = 7 ↔ count = bits + 1 :=
      (dataCnt_eq_iff hCnt 7 (by decide)).trans (by omega)
    rw [onEdge_rise hRise] at hCase
    simp only [step, hCase, nEnWEdge, hReset, hRise, hData, hStatus]
    refine ⟨⟨?_, ?_, ?_, ?_, hPosn, hCrc⟩, ?_, ?_, ?_, ?_⟩
    · simp only [phaseState, hSeven]
      split_ifs <;> first | rfl | omega
    · exact (dataCnt_sub hCnt 1 (by omega) (by decide)).trans (by omega)
    · exact decide_eq_decide.mpr (by omega)
    · simp only [hSeven]
      split_ifs with hLast
      · exact (decide_eq_false (by omega)).symm
      · exact decide_eq_decide.mpr (by omega)
    · rw [phaseBit, if_neg (Nat.not_lt.mpr hAfterData), if_pos hInStatus]
      congr 1
      exact (dataCnt_sub hCnt 7 (by omega) (by decide)).trans (by omega)
    · trivial
    · simp [hAfterData, hInStatus]
    · rw [hCrc]
      rfl
  · have hCase : caseStep s i = onEdge s i crcEdge := by
      simp only [caseStep, hReset, hState, phaseState, if_neg (Nat.not_lt.mpr hAfterData),
        if_neg (Nat.not_lt.mpr hAfterStatus), if_pos hCount, Bool.false_eq_true, if_false]
    have hOne : s.dataCnt = 1 ↔ count = bits + 7 :=
      (dataCnt_eq_iff hCnt 1 (by decide)).trans (by omega)
    rw [onEdge_rise hRise] at hCase
    simp only [step, hCase, crcEdge, hReset, hRise, hData, hStatus]
    refine ⟨⟨?_, ?_, ?_, ?_, hPosn, hCrc⟩, ?_, ?_, ?_, ?_⟩
    · simp only [phaseState, hOne]
      split_ifs <;> first | rfl | omega
    · exact (dataCnt_sub hCnt 1 (by omega) (by decide)).trans (by omega)
    · exact decide_eq_decide.mpr (by omega)
    · exact decide_eq_decide.mpr (by omega)
    · rw [phaseBit, if_neg (Nat.not_lt.mpr hAfterData), if_neg (Nat.not_lt.mpr hAfterStatus)]
      congr 1
      exact (dataCnt_sub hCnt 1 (by omega) (by decide)).trans (by omega)
    · trivial
    · rw [decide_eq_false (Nat.not_lt.mpr hAfterData), decide_eq_false (Nat.not_lt.mpr hAfterStatus),
        decide_eq_false (fun hIn => Nat.not_lt.mpr hAfterStatus hIn.2)]
      rfl
    · rw [hCrc]
      rfl

end Phases

theorem frameCount_toNat {i : Input} {bits : BitVec 8} (hBits : i.bits = bits)
    (hSmall : bits.toNat ≤ 32) : (frameCount i).toNat = bits.toNat + 8 := by
  rw [frameCount, hBits, BitVec.toNat_add, BitVec.toNat_add]
  show ((bits.toNat + 2) % 2 ^ 8 + 6) % 2 ^ 8 = _
  omega

section Run

variable {run : Run step}

/-- A rising edge of the serial clock. -/
def Rises (run : Run step) (clock : Nat) : Prop :=
  sckRisingEdge (run.state clock) (run.input clock) = true

theorem rises_apart {first second : Nat} (hFirst : Rises run first) (hSecond : Rises run second)
    (hOrder : first < second) : first + 2 ≤ second := by
  by_contra hClose
  obtain rfl : second = first + 1 := by omega
  rw [Rises, sckRisingEdge, Bool.and_eq_true] at hFirst hSecond
  have hPrev : (run.state (first + 1)).bissSckPrev = (run.input first).bissSck := by
    rw [run.edge]
    rfl
  rw [hPrev, hFirst.2] at hSecond
  exact absurd hSecond.1 (by decide)

theorem wait_edge {first second : Nat} (hFirst : Rises run first)
    (hNext : Next (Rises run) first second) (hGap : second ≤ first + 5001)
    (hReset : ∀ clock, first < clock → clock < second → (run.input clock).reset = false)
    (hWaits : Waits (run.state (first + 1)).smData)
    (hTime : (run.state (first + 1)).sckTimeoutCnt = maxTimeout) :
    Keeps (run.state (first + 1)) (run.state second) ∧
      (run.state second).calcEnable = false ∧
      (run.state second).crc = BissCrc.step (run.state (first + 1)).crc
        (run.state (first + 1)).crcReset (run.state (first + 1)).bissDat
        (run.state (first + 1)).calcEnable := by
  have hApart := rises_apart hFirst hNext.occurs hNext.ordered
  have hWait : ∀ passed, first + 1 + passed ≤ second →
      Keeps (run.state (first + 1)) (run.state (first + 1 + passed)) ∧
      (run.state (first + 1 + passed)).sckTimeoutCnt.toNat = 5000 - passed ∧
      (0 < passed → (run.state (first + 1 + passed)).calcEnable = false ∧
        (run.state (first + 1 + passed)).crc = BissCrc.step (run.state (first + 1)).crc
          (run.state (first + 1)).crcReset (run.state (first + 1)).bissDat
          (run.state (first + 1)).calcEnable) := by
    intro passed
    induction passed with
    | zero =>
        intro hTo
        refine ⟨⟨rfl, rfl, rfl, rfl, rfl, rfl, rfl⟩, ?_, fun hPos => absurd hPos (Nat.lt_irrefl 0)⟩
        rw [Nat.add_zero, hTime]
        rfl
    | succ passed ih =>
        intro hTo
        obtain ⟨hKeeps, hCount, hCrc⟩ := ih (by omega)
        have hLeft : (run.state (first + 1 + passed)).sckTimeoutCnt ≠ 0 := by
          intro hZero
          rw [hZero] at hCount
          have : 5000 - passed = 0 := hCount.symm
          omega
        have hQuiet : sckRisingEdge (run.state (first + 1 + passed))
            (run.input (first + 1 + passed)) = false :=
          Bool.eq_false_iff.mpr (hNext.quiet _ (by omega) (by omega))
        have hStep := step_quiet (hReset _ (by omega) (by omega)) (by rwa [hKeeps.smData]) hQuiet
          hLeft
        rw [← run.edge] at hStep
        obtain ⟨hKeeps', hTime', hCalc', hCrc'⟩ := hStep
        refine ⟨hKeeps.trans hKeeps', ?_, fun _ => ⟨hCalc', ?_⟩⟩
        · rw [← Nat.add_assoc, hTime', BitVec.toNat_sub_of_le, hCount]
          · show 5000 - passed - 1 = _
            omega
          · rw [BitVec.le_def, hCount]
            show 1 ≤ _
            omega
        · rw [← Nat.add_assoc, hCrc']
          rcases Nat.eq_zero_or_pos passed with rfl | hPos
          · rfl
          · obtain ⟨hCalc, hSame⟩ := hCrc hPos
            rw [hCalc, hSame, hKeeps.crcReset]
            cases (run.state (first + 1)).crcReset <;> rfl
  obtain ⟨passed, rfl⟩ : ∃ passed, second = first + 1 + passed := ⟨second - (first + 1), by omega⟩
  obtain ⟨hKeeps, -, hCrc⟩ := hWait passed le_rfl
  exact ⟨hKeeps, hCrc (by omega)⟩

/-! ### The frame -/

/-- The enables are on in their own states only. -/
structure Enabled (s : State) : Prop where
  data : s.dataEnable = true → s.smData = .data
  status : s.nEnWEnable = true → s.smData = .nEnW

/-- A frame of so many data bits: the clocks of its edges from the one that starts it to the one of
its last bit. -/
structure Frame (run : Run step) (bits : BitVec 8) (encoding : Encoding) (edge : Nat → Nat) :
    Prop where
  idle : (run.state (edge 0)).smData = .synch
  enable : (run.input (edge 0)).enable = true
  first : Rises run (edge 0)
  next : ∀ count, count < bits.toNat + 11 → Next (Rises run) (edge count) (edge (count + 1))
  gap : ∀ count, count < bits.toNat + 11 → edge (count + 1) ≤ edge count + 5001
  running : ∀ clock, edge 0 ≤ clock → clock ≤ edge (bits.toNat + 11) →
    (run.input clock).reset = false ∧ (run.input clock).bits = bits ∧
      (run.input clock).encoding = encoding

/-- A bit of the data range as it is sent. -/
def sent (run : Run step) (edge : Nat → Nat) (place : Nat) : Bool :=
  (run.state (edge (place + 4) + 1)).bissDat

/-- The first bits of the data range. -/
def sentBits (run : Run step) (edge : Nat → Nat) (count : Nat) : List Bool :=
  (List.range count).map (sent run edge)

theorem sentBits_succ (edge : Nat → Nat) (count : Nat) :
    sentBits run edge (count + 1) = sentBits run edge count ++ [sent run edge count] := by
  rw [sentBits, List.range_succ, List.map_append]
  rfl

theorem Enabled.off {s : State} (h : Enabled s) (hData : s.smData ≠ .data)
    (hStatus : s.smData ≠ .nEnW) : s.dataEnable = false ∧ s.nEnWEnable = false :=
  ⟨Bool.eq_false_iff.mpr fun hOn => hData (h.data hOn),
    Bool.eq_false_iff.mpr fun hOn => hStatus (h.status hOn)⟩

theorem Enabled.of_off {s : State} (hData : s.dataEnable = false) (hStatus : s.nEnWEnable = false) :
    Enabled s :=
  ⟨fun hOn => absurd (hData.symm.trans hOn) Bool.false_ne_true,
    fun hOn => absurd (hStatus.symm.trans hOn) Bool.false_ne_true⟩

theorem Enabled.onEdge {s : State} {i : Input} {next : State → State} (h : Enabled s)
    (hNext : Enabled (next s)) : Enabled (onEdge s i next) := by
  rw [BissSlave.onEdge]
  split_ifs
  · exact ⟨hNext.data, hNext.status⟩
  · exact .of_off rfl rfl
  · exact ⟨h.data, h.status⟩

theorem Enabled.step {s : State} {i : Input} (h : Enabled s) : Enabled (BissSlave.step s i) := by
  have hCase : Enabled (caseStep s i) := by
    rw [caseStep]
    split
    · exact .of_off rfl rfl
    split <;> rename_i hState
    · obtain ⟨hData, hStatus⟩ := h.off (by simp [hState]) (by simp [hState])
      split_ifs
      · exact .of_off hData hStatus
      · exact .of_off rfl rfl
      · exact .of_off rfl rfl
      · exact .of_off rfl rfl
    · obtain ⟨hData, hStatus⟩ := h.off (by simp [hState]) (by simp [hState])
      exact h.onEdge (.of_off hData hStatus)
    · obtain ⟨hData, hStatus⟩ := h.off (by simp [hState]) (by simp [hState])
      exact h.onEdge (.of_off hData hStatus)
    · refine h.onEdge ⟨fun _ => rfl, fun hOn => ?_⟩
      exact absurd (hState.symm.trans (h.status hOn)) (by decide)
    · refine h.onEdge ⟨?_, ?_⟩ <;> simp only [dataEdge] <;> split_ifs
      · exact fun hOn => hOn.elim
      · exact fun _ => rfl
      · exact fun _ => rfl
      · exact fun hOn => absurd (hState.symm.trans (h.status hOn)) (by decide)
    · refine h.onEdge ⟨?_, ?_⟩ <;> simp only [nEnWEdge] <;> split_ifs
      · exact fun hOn => absurd (hState.symm.trans (h.data hOn)) (by decide)
      · exact fun hOn => absurd (hState.symm.trans (h.data hOn)) (by decide)
      · exact fun hOn => hOn.elim
      · exact fun _ => rfl
    · obtain ⟨hData, hStatus⟩ := h.off (by simp [hState]) (by simp [hState])
      exact h.onEdge (.of_off hData hStatus)
    · obtain ⟨hData, hStatus⟩ := h.off (by simp [hState]) (by simp [hState])
      exact h.onEdge (.of_off hData hStatus)
    · obtain ⟨hData, hStatus⟩ := h.off (by simp [hState]) (by simp [hState])
      exact .of_off hData hStatus
  exact ⟨hCase.data, hCase.status⟩

section Frame

variable {bits : BitVec 8} {encoding : Encoding} {edge : Nat → Nat}

theorem Frame.rises (h : Frame run bits encoding edge) (count : Nat)
    (hCount : count ≤ bits.toNat + 11) : Rises run (edge count) := by
  cases count with
  | zero => exact h.first
  | succ count => exact (h.next count hCount).occurs

theorem Frame.edge_mono (h : Frame run bits encoding edge) {count later : Nat}
    (hOrder : count ≤ later) (hLater : later ≤ bits.toNat + 11) : edge count ≤ edge later := by
  induction later, hOrder using Nat.le_induction with
  | base => exact le_rfl
  | succ later hOrder ih =>
      exact (ih (by omega)).trans (Nat.le_of_lt (h.next later hLater).ordered)

theorem Frame.running_between (h : Frame run bits encoding edge) (count : Nat) {clock : Nat}
    (hCount : count < bits.toNat + 11) (hFrom : edge count ≤ clock)
    (hTo : clock ≤ edge (count + 1)) : (run.input clock).reset = false ∧
      (run.input clock).bits = bits ∧ (run.input clock).encoding = encoding := by
  have hFirst := h.edge_mono (Nat.zero_le count) (Nat.le_of_lt hCount)
  have hLast : edge (count + 1) ≤ edge (bits.toNat + 11) := h.edge_mono hCount le_rfl
  exact h.running clock (by omega) (by omega)

theorem Frame.wait (h : Frame run bits encoding edge) {count : Nat}
    (hCount : count < bits.toNat + 11) (hWaits : Waits (run.state (edge count + 1)).smData)
    (hTime : (run.state (edge count + 1)).sckTimeoutCnt = maxTimeout) :
    Keeps (run.state (edge count + 1)) (run.state (edge (count + 1))) ∧
      (run.state (edge (count + 1))).calcEnable = false ∧
      (run.state (edge (count + 1))).crc = BissCrc.step (run.state (edge count + 1)).crc
        (run.state (edge count + 1)).crcReset (run.state (edge count + 1)).bissDat
        (run.state (edge count + 1)).calcEnable :=
  wait_edge (h.rises count (Nat.le_of_lt hCount)) (h.next count hCount) (h.gap count hCount)
    (fun _ hFrom hTo => (h.running_between count hCount (Nat.le_of_lt hFrom) (Nat.le_of_lt hTo)).1)
    hWaits hTime

/-- The registers before the data range: the check code is cleared with the acknowledgement. -/
structure Prelude (bits : BitVec 8) (phase : SmData) (s : State) : Prop where
  smData : s.smData = phase
  dataCnt : s.dataCnt.toNat = bits.toNat + 8
  dataEnable : s.dataEnable = false
  nEnWEnable : s.nEnWEnable = false
  crcReset : s.crcReset = decide (phase = .ack)
  crc : s.crcReset = false → s.crc = 0
  calcEnable : s.calcEnable = false

theorem Prelude.wait (h : Frame run bits encoding edge) {count : Nat} {phase : SmData}
    (hCount : count < bits.toNat + 11) (hWaits : Waits phase)
    (hTime : (run.state (edge count + 1)).sckTimeoutCnt = maxTimeout)
    (hBefore : Prelude bits phase (run.state (edge count + 1))) :
    Prelude bits phase (run.state (edge (count + 1))) := by
  obtain ⟨hState, hCnt, hData, hStatus, hReset, hCrc, hCalc⟩ := hBefore
  obtain ⟨hKeeps, hCalc', hCrc'⟩ := h.wait hCount (by rwa [hState]) hTime
  refine ⟨hKeeps.smData.trans hState, by rw [hKeeps.dataCnt, hCnt], hKeeps.dataEnable.trans hData,
    hKeeps.nEnWEnable.trans hStatus, hKeeps.crcReset.trans hReset, fun hOff => ?_, hCalc'⟩
  rw [hKeeps.crcReset] at hOff
  rw [hCrc', hCalc, hOff, hCrc hOff]
  rfl

variable (h : Frame run bits encoding edge) (hEnabled : Enabled (run.state (edge 0)))
  (hBits : bits.toNat ≤ 32)

include h hEnabled hBits in
theorem Frame.after_first : Prelude bits .ack (run.state (edge 0 + 1)) ∧
    (run.state (edge 0 + 1)).sckTimeoutCnt = maxTimeout := by
  obtain ⟨hReset, hBitsNow, -⟩ := h.running_between 0 (by omega) le_rfl
    (Nat.le_of_lt (h.next 0 (by omega)).ordered)
  obtain ⟨hData, hStatus⟩ := hEnabled.off (by simp [h.idle]) (by simp [h.idle])
  have hRise : sckRisingEdge (run.state (edge 0)) (run.input (edge 0)) = true := h.first
  rw [run.edge]
  simp only [step, caseStep, hReset, h.idle, h.enable, hRise, if_true, Bool.false_eq_true, if_false,
    hData, hStatus, Bool.or_self, Bool.false_and]
  refine ⟨⟨rfl, ?_, rfl, rfl, rfl, fun hOff => absurd hOff.symm Bool.false_ne_true, rfl⟩, trivial⟩
  exact frameCount_toNat hBitsNow hBits

include h hEnabled hBits in
theorem Frame.after_second : Prelude bits .start (run.state (edge 1 + 1)) ∧
    (run.state (edge 1 + 1)).sckTimeoutCnt = maxTimeout := by
  obtain ⟨hFirst, hTime⟩ := h.after_first hEnabled hBits
  have hNow := hFirst.wait h (by omega) ⟨by decide, by decide⟩ hTime
  obtain ⟨hReset, -, -⟩ := h.running_between 1 (by omega) le_rfl
    (Nat.le_of_lt (h.next 1 (by omega)).ordered)
  have hRise : sckRisingEdge (run.state (edge 1)) (run.input (edge 1)) = true :=
    h.rises 1 (by omega)
  obtain ⟨hState, hCnt, hData, hStatus, hCrcReset, hCrc, hCalc⟩ := hNow
  rw [run.edge]
  simp only [step, caseStep, hReset, hState, onEdge_rise hRise, ackEdge, hData, hStatus, hCrcReset,
    Bool.false_eq_true, if_false, Bool.or_self, Bool.false_and]
  exact ⟨⟨rfl, hCnt, rfl, rfl, rfl, fun _ => rfl, rfl⟩, trivial⟩

include h hEnabled hBits in
theorem Frame.after_third : Prelude bits .zero (run.state (edge 2 + 1)) ∧
    (run.state (edge 2 + 1)).sckTimeoutCnt = maxTimeout := by
  obtain ⟨hSecond, hTime⟩ := h.after_second hEnabled hBits
  have hNow := hSecond.wait h (by omega) ⟨by decide, by decide⟩ hTime
  obtain ⟨hReset, -, -⟩ := h.running_between 2 (by omega) le_rfl
    (Nat.le_of_lt (h.next 2 (by omega)).ordered)
  have hRise : sckRisingEdge (run.state (edge 2)) (run.input (edge 2)) = true :=
    h.rises 2 (by omega)
  obtain ⟨hState, hCnt, hData, hStatus, hCrcReset, hCrc, hCalc⟩ := hNow
  have hOff : (run.state (edge 2)).crcReset = false := hCrcReset
  rw [run.edge]
  simp only [step, caseStep, hReset, hState, onEdge_rise hRise, startEdge, hData, hStatus, hOff,
    Bool.false_eq_true, if_false, Bool.or_self, Bool.false_and, hCrc hOff, hCalc]
  exact ⟨⟨rfl, hCnt, rfl, rfl, rfl, fun _ => rfl, rfl⟩, trivial⟩

/-- The data range after so many bits: the phase, and the check code of all but the last bit. -/
structure InRange (run : Run step) (bits : BitVec 8) (edge : Nat → Nat) (count : Nat) : Prop where
  phase : Phase bits.toNat (run.input (edge 3)).posn count (run.state (edge (count + 3) + 1))
  time : (run.state (edge (count + 3) + 1)).sckTimeoutCnt = maxTimeout
  calcEnable : (run.state (edge (count + 3) + 1)).calcEnable =
    decide (0 < count ∧ count ≤ bits.toNat + 2)
  crc : (run.state (edge (count + 3) + 1)).crc =
    Coding.feed 3 0 (sentBits run edge (min (count - 1) (bits.toNat + 2)))

include h hEnabled hBits in
theorem Frame.after_fourth (hSome : 0 < bits.toNat) : InRange run bits edge 0 := by
  obtain ⟨hThird, hTime⟩ := h.after_third hEnabled hBits
  have hNow := hThird.wait h (by omega) ⟨by decide, by decide⟩ hTime
  obtain ⟨hReset, -, -⟩ := h.running_between 3 (by omega) le_rfl
    (Nat.le_of_lt (h.next 3 (by omega)).ordered)
  have hRise : sckRisingEdge (run.state (edge 3)) (run.input (edge 3)) = true :=
    h.rises 3 (by omega)
  obtain ⟨hState, hCnt, hData, hStatus, hCrcReset, hCrc, hCalc⟩ := hNow
  have hOff : (run.state (edge 3)).crcReset = false := hCrcReset
  have hStep : (run.state (edge (0 + 3) + 1)) = step (run.state (edge 3)) (run.input (edge 3)) :=
    run.edge _
  have hLess : ¬ bits.toNat ≤ 0 := Nat.not_le.mpr hSome
  constructor
  · rw [hStep]
    simp only [step, caseStep, hReset, hState, onEdge_rise hRise, zeroEdge, Bool.false_eq_true,
      if_false]
    exact ⟨by rw [phaseState, if_pos hSome], hCnt, (decide_eq_true hSome).symm,
      hStatus.trans (decide_eq_false fun hIn => hLess hIn.1).symm, rfl, hOff⟩
  · rw [hStep]
    simp only [step, caseStep, hReset, hState, onEdge_rise hRise, Bool.false_eq_true, if_false]
  · rw [hStep]
    simp [step, hData, hStatus]
  · rw [hStep]
    simp only [step, hOff, hReset, hCrc hOff, hCalc]
    rfl

theorem waits_phaseState {bits count : Nat} : Waits (phaseState bits count) := by
  rw [phaseState]
  split_ifs <;> exact ⟨by decide, by decide⟩

include h in
/-- Up to the next edge the check code takes the bit that was sent last. -/
theorem InRange.wait {count : Nat} (hCount : count < bits.toNat + 8)
    (hRange : InRange run bits edge count) :
    Phase bits.toNat (run.input (edge 3)).posn count (run.state (edge (count + 4))) ∧
      (run.state (edge (count + 4))).calcEnable = false ∧
      (run.state (edge (count + 4))).crc =
        Coding.feed 3 0 (sentBits run edge (min count (bits.toNat + 2))) := by
  obtain ⟨hPhase, hTime, hCalc, hCrc⟩ := hRange
  obtain ⟨hKeeps, hCalc', hCrc'⟩ := h.wait (by omega)
    (by rw [hPhase.smData]; exact waits_phaseState) hTime
  refine ⟨hPhase.of_keeps hKeeps, hCalc', hCrc'.trans ?_⟩
  rw [hPhase.crcReset, hCalc, hCrc]
  cases count with
  | zero => rfl
  | succ count =>
      by_cases hIn : count + 1 ≤ bits.toNat + 2
      · rw [decide_eq_true ⟨Nat.succ_pos count, hIn⟩, BissCrc.step_strobe, Nat.add_sub_cancel,
          Nat.min_eq_left (by omega), Nat.min_eq_left hIn, sentBits_succ, Coding.feed_append]
        rfl
      · rw [decide_eq_false fun hBoth => hIn hBoth.2, Nat.add_sub_cancel,
          Nat.min_eq_right (by omega), Nat.min_eq_right (by omega)]
        rfl

include h in
theorem InRange.next {count : Nat} (hCount : count < bits.toNat + 8)
    (hRange : InRange run bits edge count) : InRange run bits edge (count + 1) ∧
      sent run edge count = phaseBit (run.state (edge (count + 4))) (run.input (edge (count + 4)))
        bits.toNat count := by
  obtain ⟨hPhase, hCalc, hCrc⟩ := hRange.wait h hCount
  have hRise : sckRisingEdge (run.state (edge (count + 4))) (run.input (edge (count + 4))) = true :=
    h.rises (count + 4) (by omega)
  have hReset := (h.running_between (count + 3) (by omega)
    (Nat.le_of_lt (h.next (count + 3) (by omega)).ordered) le_rfl).1
  obtain ⟨hPhase', hBit, hTime', hCalc', hCrc'⟩ := hPhase.edge hReset hRise hCount
  have hSame : count + 1 + 3 = count + 4 := by omega
  rw [← run.edge] at hPhase' hBit hTime' hCalc' hCrc'
  refine ⟨⟨by rwa [hSame], by rwa [hSame], ?_, ?_⟩, hBit⟩
  · rw [hSame, hCalc']
    exact decide_eq_decide.mpr (by omega)
  · rw [hSame, hCrc', hCalc, hCrc, Nat.add_sub_cancel]
    rfl

include h hEnabled hBits in
theorem Frame.inRange (hSome : 0 < bits.toNat) {count : Nat} (hCount : count ≤ bits.toNat + 8) :
    InRange run bits edge count := by
  induction count with
  | zero => exact h.after_fourth hEnabled hBits hSome
  | succ count ih => exact ((ih (by omega)).next h hCount).1

include h hEnabled hBits in
theorem Frame.sent_check (hSome : 0 < bits.toNat) {place : Nat} (hPlace : place < 6) :
    sent run edge (bits.toNat + 2 + place) =
      BissCrc.checkBit (Coding.feed 3 0 (sentBits run edge (bits.toNat + 2))) place := by
  have hRange := h.inRange hEnabled hBits hSome
    (show bits.toNat + 2 + place ≤ bits.toNat + 8 by omega)
  obtain ⟨-, -, hCrc⟩ := hRange.wait h (by omega)
  rw [(hRange.next h (by omega)).2, phaseBit, if_neg (by omega), if_neg (by omega), hCrc,
    Nat.min_eq_right (by omega), BissCrc.checkBit]
  congr 1
  omega

/-- A bit of a position as it is sent: a Gray code is the change from the bit above. -/
def positionBit (encoding : Encoding) (bits : Nat) (posn : BitVec 32) (place : Nat) : Bool :=
  if encoding.isBinary then posn.getLsbD (bits - 1 - place)
  else if place = 0 then posn.getLsbD (bits - 1)
  else posn.getLsbD (bits - 1 - place) ^^ posn.getLsbD (bits - place)

include h hEnabled hBits in
theorem Frame.sent_data {place : Nat} (hPlace : place < bits.toNat) :
    sent run edge place = positionBit encoding bits.toNat (run.input (edge 3)).posn place := by
  have hRange := h.inRange hEnabled hBits (by omega) (show place ≤ bits.toNat + 8 by omega)
  obtain ⟨hPhase, -, -⟩ := hRange.wait h (by omega)
  obtain ⟨-, hBitsNow, hEncoding⟩ := h.running_between (place + 3) (by omega)
    (Nat.le_of_lt (h.next (place + 3) (by omega)).ordered) le_rfl
  have hNine : ((run.state (edge (place + 4))).dataCnt - 9).toNat = bits.toNat - 1 - place :=
    (dataCnt_sub hPhase.dataCnt 9 (by omega) (by decide)).trans (by omega)
  have hEight : ((run.state (edge (place + 4))).dataCnt - 8).toNat = bits.toNat - place :=
    (dataCnt_sub hPhase.dataCnt 8 (by omega) (by decide)).trans (by omega)
  have hFirst : (run.state (edge (place + 4))).dataCnt = frameCount (run.input (edge (place + 4))) ↔
      place = 0 := by
    rw [← BitVec.toNat_inj, hPhase.dataCnt, frameCount_toNat hBitsNow hBits]
    omega
  rw [(hRange.next h (by omega)).2, phaseBit, if_pos hPlace, dataBit, hEncoding, hPhase.posnLatched,
    positionBit, hNine, hEight]
  simp only [hFirst]
  split_ifs with hBinary hZero
  · rfl
  · rw [hZero]
    rfl
  · rfl

include h hEnabled hBits in
/-- The error bit is low when the generator had an error, and the warning bit is not used. -/
theorem Frame.sent_status (hSome : 0 < bits.toNat) :
    (∃ before, edge (bits.toNat + 4) = before + 1 ∧
      sent run edge bits.toNat = !(run.input before).generatorError) ∧
    sent run edge (bits.toNat + 1) = true := by
  have hBit : ∀ place, place < 2 → sent run edge (bits.toNat + place) =
      (run.state (edge (bits.toNat + place + 4))).nEnW.getLsbD (1 - place) := by
    intro place hPlace
    have hRange := h.inRange hEnabled hBits hSome
      (show bits.toNat + place ≤ bits.toNat + 8 by omega)
    rw [(hRange.next h (by omega)).2, phaseBit, if_neg (by omega), if_pos (by omega)]
    congr 1
    omega
  have hWord : ∀ place, place < 2 → ∃ before, edge (bits.toNat + place + 4) = before + 1 ∧
      (run.state (edge (bits.toNat + place + 4))).nEnW =
        BitVec.ofBool (!(run.input before).generatorError) ++ 1#1 := by
    intro place hPlace
    have hLater : edge (bits.toNat + place + 3) < edge (bits.toNat + place + 4) :=
      (h.next (bits.toNat + place + 3) (by omega)).ordered
    obtain ⟨before, hBefore⟩ : ∃ before, edge (bits.toNat + place + 4) = before + 1 :=
      ⟨edge (bits.toNat + place + 4) - 1, by omega⟩
    refine ⟨before, hBefore, ?_⟩
    rw [hBefore, run.edge]
    rfl
  constructor
  · obtain ⟨before, hBefore, hStatus⟩ := hWord 0 (by decide)
    refine ⟨before, hBefore, (hBit 0 (by decide)).trans ?_⟩
    rw [hStatus]
    cases (run.input before).generatorError <;> rfl
  · obtain ⟨before, -, hStatus⟩ := hWord 1 (by decide)
    rw [hBit 1 (by decide), hStatus]
    cases (run.input before).generatorError <;> rfl

end Frame

end Run

end Fpga.BissSlave
