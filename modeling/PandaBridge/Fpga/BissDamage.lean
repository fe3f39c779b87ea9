import PandaBridge.Fpga.BissFrame
import PandaBridge.Fpga.BissReception
import PandaBridge.Fpga.SnifferReception

/-! What the BiSS receivers make of a frame with inverted bits, and of an intact one. -/
namespace Fpga

open Clocked

namespace BissSlave

theorem enabled_of_boot {run : Run step} (hBoot : run.state 0 = .boot) (clock : Nat) :
    Enabled (run.state clock) := by
  refine run.invariant Enabled ?_ (fun _ _ h => h.step) clock
  rw [hBoot]
  exact .of_off rfl rfl

variable {run : Run step} {bits : BitVec 8} {encoding : Encoding} {edge : Nat → Nat}

theorem Frame.coded (h : Frame run bits encoding edge) (hBoot : run.state 0 = .boot)
    (hSome : 0 < bits.toNat) (hSmall : bits.toNat ≤ 32) :
    BissCrc.Coded (sent run edge) (bits.toNat + 2) :=
  fun _ hPlace => h.sent_check (enabled_of_boot hBoot _) hSmall hSome hPlace

end BissSlave

namespace BissMaster

theorem ready_of_boot {run : Run step} (hBoot : run.state 0 = .boot) (clock : Nat) :
    Ready (run.state clock) := by
  refine run.invariant Ready ?_ (fun _ _ h => h.step) clock
  rw [hBoot]
  exact ready_boot

/-- No later frame is checked, and the link stays up. -/
def Quiet (run : Run step) (tick : Nat) : Prop :=
  (run.input tick).reset = false ∧ (run.state tick).linkUp = true ∧
    (run.state tick).shifterCrc.dataValid = false

theorem health_quiet {run : Run step} {first last : Nat} (hOrder : first < last)
    (hQuiet : ∀ tick, first < tick → tick < last → Quiet run tick) :
    (run.state last).health = (run.state (first + 1)).health := by
  refine stable_of_kept (fun tick => (run.state tick).health) (first + 1) last
    (fun tick hFrom hTo => ?_) hOrder le_rfl
  obtain ⟨hReset, hLink, hValid⟩ := hQuiet tick hFrom hTo
  rw [run.edge]
  show (check _ _).health = _
  simp only [check, hReset, hLink, hValid, Bool.false_eq_true, if_false, Bool.not_true]

end BissMaster

namespace BissSniffer

theorem ready_of_boot {run : Run step} (hBoot : run.state 0 = .boot) (clock : Nat) :
    Ready (run.state clock) := by
  refine run.invariant Ready ?_ (fun _ _ h => h.step) clock
  rw [hBoot]
  exact ready_boot

/-- No later frame is checked, and the link stays up. -/
def Quiet (run : Run step) (tick : Nat) : Prop :=
  (run.input tick).reset = false ∧ (run.state tick).linkDetect.linkUp = true ∧
    (run.state tick).crcIn.dataValid = false

theorem health_quiet {run : Run step} {first last : Nat} (hOrder : first < last)
    (hQuiet : ∀ tick, first < tick → tick < last → Quiet run tick) :
    (run.state last).health = (run.state (first + 1)).health := by
  refine stable_of_kept (fun tick => (run.state tick).health) (first + 1) last
    (fun tick hFrom hTo => ?_) hOrder le_rfl
  obtain ⟨hReset, hLink, hValid⟩ := hQuiet tick hFrom hTo
  rw [run.edge]
  show (check _ _).1 = _
  simp only [check, hReset, hLink, hValid, Bool.false_eq_true, if_false, Bool.not_true]

end BissSniffer

/-! ### Damaged frames -/

namespace BissCrc

/-- What a receiver has made of a frame between its zero bit and the check: a frame with one or two
inverted bits leaves the position as it is, and is reported as long as nothing else is; an intact
frame is not reported for its code. -/
structure Judged (posn health : Nat → BitVec 32) (inverted : Nat) (reports : Prop)
    (quiet : Nat → Prop) (start check : Nat) : Prop where
  rejected : 1 ≤ inverted → inverted ≤ 2 → ∀ tick, start < tick → tick ≤ check + 1 →
    posn tick = posn (start + 1)
  reported : 1 ≤ inverted → inverted ≤ 2 → reports → ∀ last, check < last →
    (∀ tick, check < tick → tick < last → quiet tick) → health last = 3
  intact : inverted = 0 → health (check + 1) ≠ 3

theorem judged_of_verdict {posn health : Nat → BitVec 32} {frame received : Nat → Bool}
    {reports : Prop} {quiet : Nat → Prop} {start check : Nat} {linkUp : Bool} {bits : Nat}
    {encoding : Encoding} (hCoded : Coded frame (bits + 2)) (hSmall : bits ≤ 32)
    (hKept : ∀ tick, start < tick → tick ≤ check → posn tick = posn (start + 1))
    (hVerdict : (health (check + 1), posn (check + 1)) =
      BissMaster.verdict linkUp bits encoding (posn (start + 1)) received)
    (hReports : reports → linkUp = true)
    (hQuiet : ∀ last, check < last → (∀ tick, check < tick → tick < last → quiet tick) →
      health last = health (check + 1)) :
    Judged posn health (inverted frame received (bits + 2)) reports quiet start check := by
  rw [BissMaster.verdict] at hVerdict
  refine ⟨fun hOne hTwo tick hFrom hTo => ?_, fun hOne hTwo hUp last hLast hNone => ?_,
    fun hIntact hCode => ?_⟩
  · have hBad := not_accepted_of_inverted hCoded (by omega) hOne hTwo
    rcases Nat.lt_or_ge check tick with hAfter | hBefore
    · obtain rfl : tick = check + 1 := by omega
      rw [if_pos hBad] at hVerdict
      have hPosn := congrArg Prod.snd hVerdict
      simp only at hPosn
      rw [hPosn]
      split_ifs <;> rfl
    · exact hKept tick hFrom hBefore
  · have hBad := not_accepted_of_inverted hCoded (by omega) hOne hTwo
    rw [if_neg (by simp [hReports hUp]), if_pos hBad] at hVerdict
    rw [hQuiet last hLast hNone]
    exact congrArg Prod.fst hVerdict
  · have hGood := accepted_of_intact hCoded hIntact
    rw [if_neg (not_not.mpr hGood)] at hVerdict
    have hHealth := congrArg Prod.fst hVerdict
    simp only [hCode] at hHealth
    split_ifs at hHealth
    · exact absurd (show (3 : BitVec 32) = 2 from hHealth) (by decide)
    · exact absurd (show (3 : BitVec 32) = 4 from hHealth) (by decide)
    · exact absurd (show (3 : BitVec 32) = 0 from hHealth) (by decide)

end BissCrc

/-- Every frame of a slave with one or two of its bits inverted is rejected by a master and by a
sniffer, and reported for its code when the link is up; an intact one is not. -/
theorem biss_damage (slave : Run BissSlave.step) (hSlave : slave.state 0 = .boot) (bits : BitVec 8)
    (hSome : 0 < bits.toNat) (hSmall : bits.toNat ≤ 32) (sentAs : Encoding) (edge : Nat → Nat)
    (hFrame : BissSlave.Frame slave bits sentAs edge) :
    (∀ (run : Run BissMaster.step) (encoding : Encoding) (rise : Nat → Nat),
      run.state 0 = .boot → BissMaster.Frame run bits encoding rise →
      BissCrc.Judged (fun tick => (run.state tick).posn) (fun tick => (run.state tick).health)
        (BissCrc.inverted (BissSlave.sent slave edge) (BissMaster.received run rise)
          (bits.toNat + 2))
        ((run.state (rise 0)).linkUp = true) (BissMaster.Quiet run) (rise 0)
        (rise (bits.toNat + 8) + 2)) ∧
    ∀ (run : Run BissSniffer.step) (encoding : Encoding) (rise : Nat → Nat),
      run.state 0 = .boot → BissSniffer.Frame run bits encoding rise →
      BissCrc.Judged (fun tick => (run.state tick).posn) (fun tick => (run.state tick).health)
        (BissCrc.inverted (BissSlave.sent slave edge) (BissSniffer.received run rise)
          (bits.toNat + 2))
        True (BissSniffer.Quiet run) (rise 0) (rise (bits.toNat + 8) + 4) := by
  have hCoded := hFrame.coded hSlave hSome hSmall
  constructor
  · intro run encoding rise hBoot h
    have hReady := BissMaster.ready_of_boot hBoot (rise 0)
    exact BissCrc.judged_of_verdict hCoded hSmall
      (fun tick hFrom hTo => h.posn_kept hReady hSome hSmall hFrom hTo)
      (h.checked hReady hSome hSmall) (h.linkUp_kept hReady hSome hSmall)
      fun last hLast hNone => BissMaster.health_quiet hLast hNone
  · intro run encoding rise hBoot h
    have hReady := BissSniffer.ready_of_boot hBoot (rise 0)
    exact BissCrc.judged_of_verdict hCoded hSmall
      (fun tick hFrom hTo => h.posn_kept hReady hSome hSmall hFrom hTo)
      (h.checked hReady hSome hSmall) (fun _ => rfl)
      fun last hLast hNone => BissSniffer.health_quiet hLast hNone

/-! ### Inverted bits -/

/-- A slave with the position 6 in four bits on a serial clock of two clocks. -/
def fourBitSlave : Run BissSlave.step := .ofInputs BissSlave.step .boot fun clock =>
  ⟨false, .unsignedGray, 4, true, false, 6, decide (clock % 2 = 1)⟩

theorem fourBitSlave_rises : ∀ clock, clock < 32 →
    (BissSlave.Rises fourBitSlave clock ↔ clock % 2 = 1) := by
  have hAll : ∀ clock, clock < 32 → BissSlave.sckRisingEdge (fourBitSlave.state clock)
      (fourBitSlave.input clock) = decide (clock % 2 = 1) := by
    decide
  intro clock hClock
  rw [BissSlave.Rises, hAll clock hClock, decide_eq_true_iff]

theorem fourBitSlave_frame :
    BissSlave.Frame fourBitSlave 4 .unsignedGray fun count => 2 * count + 1 where
  idle := by decide
  enable := rfl
  first := (fourBitSlave_rises 1 (by decide)).mpr rfl
  next count hCount := by
    have hFew : count < 15 := hCount
    refine ⟨by omega, (fourBitSlave_rises _ (by omega)).mpr (by omega), fun clock hFrom hTo => ?_⟩
    rw [fourBitSlave_rises clock (by omega)]
    omega
  gap count _ := by omega
  running clock _ _ := ⟨rfl, rfl, rfl⟩

/-- The first frame of a master, with one data bit of that slave inverted. -/
def damagedMaster : Run BissMaster.step := .ofInputs BissMaster.step .boot fun clock =>
  ⟨false, .unsignedGray, 4, 2, 1,
    decide (clock < 3 ∨ 4 < clock ∧ clock < 7 ∨ 10 < clock ∧ clock < 21 ∨ 26 < clock ∧ clock < 31)⟩

theorem damagedMaster_frame :
    BissMaster.Frame damagedMaster 4 .unsignedGray fun count => 8 + 2 * count := by
  have hAll : ∀ clock, clock < 33 → 4 ≤ clock →
      BissMaster.sckRisingEdge (damagedMaster.state clock) = decide (clock % 2 = 0) := by
    decide
  have hRises : ∀ clock, clock < 33 → 4 ≤ clock →
      (BissMaster.Rises damagedMaster clock ↔ clock % 2 = 0) := by
    intro clock hClock hLate
    rw [BissMaster.Rises, hAll clock hClock hLate, decide_eq_true_iff]
  refine ⟨by decide, (hRises 8 (by decide) (by decide)).mpr rfl, rfl, ⟨fun count hCount => ?_⟩,
    fun clock _ _ => ⟨rfl, rfl, rfl⟩⟩
  have hFew : count < 12 := hCount
  refine ⟨by omega, (hRises _ (by omega) (by omega)).mpr (by omega), fun clock hFrom hTo => ?_⟩
  rw [hRises clock (by omega) (by omega)]
  omega

/-- A sniffer that hears this on a serial clock of four clocks. -/
def snifferOf (heard : Nat → Bool) : Run BissSniffer.step :=
  .ofInputs BissSniffer.step .boot fun clock =>
    ⟨false, .unsignedGray, 4, decide (clock < 640 ∨ 2 ≤ clock % 4), heard clock⟩

theorem snifferOf_frame {heard : Nat → Bool}
    (hWait : ((snifferOf heard).state 650).fsm = .waitZero) (hZero : heard 650 = false)
    (hAll : ∀ later, later < 53 → BissSniffer.serialClockRise ((snifferOf heard).state (650 + later))
      ((snifferOf heard).input (650 + later)) = decide ((650 + later) % 4 = 2) ∧
        ((snifferOf heard).state (650 + later)).linkDetect.linkUp = true) :
    BissSniffer.Frame (snifferOf heard) 4 .unsignedGray fun count => 650 + 4 * count := by
  have hRises : ∀ later, later < 53 →
      (BissSniffer.Rises (snifferOf heard) (650 + later) ↔ (650 + later) % 4 = 2) := by
    intro later hLater
    rw [BissSniffer.Rises, (hAll later hLater).1, decide_eq_true_iff]
  refine ⟨hWait, (hRises 0 (by decide)).mpr rfl, hZero, ⟨fun count hCount => ?_⟩, ?_,
    fun clock hFrom hTo => ?_⟩
  · have hFew : count < 12 := hCount
    refine ⟨by omega, (hRises (4 * (count + 1)) (by omega)).mpr (by omega),
      fun clock hFrom hTo => ?_⟩
    obtain ⟨later, rfl⟩ := Nat.exists_eq_add_of_le (show 650 ≤ clock by omega)
    rw [hRises later (by omega)]
    omega
  · show ¬ BissSniffer.Rises (snifferOf heard) (650 + 50)
    rw [hRises 50 (by decide)]
    decide
  · have hLast : clock ≤ 702 := hTo
    obtain ⟨later, rfl⟩ := Nat.exists_eq_add_of_le (show 650 ≤ clock from hFrom)
    exact ⟨rfl, (hAll later (by omega)).2, rfl, rfl⟩

/-- A data bit and a bit of the check code are inverted on their way to the sniffer. -/
def damagedSniffer : Run BissSniffer.step := snifferOf fun clock =>
  decide (clock < 640 ∨ 646 ≤ clock ∧ clock < 650 ∨ 666 ≤ clock ∧ clock < 678 ∨
    686 ≤ clock ∧ clock < 698)

set_option maxRecDepth 20000 in
theorem damagedSniffer_frame :
    BissSniffer.Frame damagedSniffer 4 .unsignedGray fun count => 650 + 4 * count :=
  snifferOf_frame (by decide) rfl (by decide)

set_option maxRecDepth 2000 in
/-- One inverted bit is rejected by the master, and two are reported by the sniffer. -/
theorem biss_damage_four_bits :
    fourBitSlave.state 0 = .boot ∧ (0 < (4 : BitVec 8).toNat ∧ (4 : BitVec 8).toNat ≤ 32) ∧
      (damagedSniffer.state 703).health = 3 ∧
      (damagedMaster.state 35).posn = (damagedMaster.state 9).posn := by
  have hAll := biss_damage fourBitSlave rfl 4 (by decide) (by decide) .unsignedGray _
    fourBitSlave_frame
  refine ⟨rfl, by decide, ?_, ?_⟩
  · exact (hAll.2 damagedSniffer .unsignedGray _ rfl damagedSniffer_frame).reported
      (by decide) (by decide) trivial 703 (by decide)
      fun tick hFrom hTo => by
        have hFrom' : 702 < tick := hFrom
        omega
  · exact (hAll.1 damagedMaster .unsignedGray _ rfl damagedMaster_frame).rejected
      (by decide) (by decide) 35 (by decide) (by decide)

set_option maxRecDepth 2000 in
/-- The first frame of a master is not reported for its code, since its link is not up yet. -/
theorem first_frame_not_reported : ¬ ∀ (slave : Run BissSlave.step), slave.state 0 = .boot →
    ∀ bits : BitVec 8, 0 < bits.toNat → bits.toNat ≤ 32 → ∀ sentAs edge,
      BissSlave.Frame slave bits sentAs edge → ∀ (run : Run BissMaster.step) encoding rise,
        run.state 0 = .boot → BissMaster.Frame run bits encoding rise →
        BissCrc.Judged (fun tick => (run.state tick).posn) (fun tick => (run.state tick).health)
          (BissCrc.inverted (BissSlave.sent slave edge) (BissMaster.received run rise)
            (bits.toNat + 2))
          True (BissMaster.Quiet run) (rise 0) (rise (bits.toNat + 8) + 2) := by
  intro hAll
  have hJudged := hAll fourBitSlave rfl 4 (by decide) (by decide) .unsignedGray _ fourBitSlave_frame
    damagedMaster .unsignedGray _ rfl damagedMaster_frame
  have hHealth := hJudged.reported (by decide) (by decide) trivial 35 (by decide)
    fun tick hFrom hTo => by
      have hFrom' : 34 < tick := hFrom
      omega
  have hOther : (damagedMaster.state 35).health = 2 := by decide
  exact absurd (hOther.symm.trans hHealth) (by decide)

/-! ### Intact frames -/

namespace BissSlave

variable {run : Run step} {bits : BitVec 8} {encoding : Encoding} {edge : Nat → Nat}

theorem wordOf_positionBit (encoding : Encoding) {bits : Nat} (hSmall : bits ≤ 32)
    (posn : BitVec 32) {count place : Nat} (hCount : count ≤ bits) (hPlace : place < count) :
    (ShifterIn.wordOf encoding ((List.range count).map (positionBit encoding bits posn)) :
      BitVec 32).getLsbD place = posn.getLsbD (bits - count + place) := by
  induction count generalizing place with
  | zero => exact absurd hPlace (Nat.not_lt_zero place)
  | succ count ih =>
      rw [List.range_succ, List.map_append, ShifterIn.wordOf, List.foldl_append]
      show (ShifterIn.shiftIn (ShifterIn.wordOf encoding _) _).getLsbD place = _
      rw [ShifterIn.shiftIn_getLsbD _ _ (by omega)]
      cases place with
      | succ place =>
          rw [if_neg (Nat.succ_ne_zero place), Nat.add_sub_cancel, ih (by omega) (by omega)]
          congr 1
          omega
      | zero =>
          rw [if_pos rfl, ShifterIn.decoded, positionBit]
          have hLow : bits - (count + 1) + 0 = bits - 1 - count := by omega
          rw [hLow]
          cases hBinary : encoding.isBinary with
          | true => rfl
          | false =>
              rcases Nat.eq_zero_or_pos count with rfl | hPos
              · show (posn.getLsbD (bits - 1) ^^ (0#32).getLsbD 0) = posn.getLsbD (bits - 1)
                simp
              · have hAbove := ih (by omega) hPos
                rw [ShifterIn.wordOf, Nat.add_zero] at hAbove
                simp only [Bool.false_eq_true, if_false]
                rw [if_neg (Nat.ne_of_gt hPos), hAbove, Bool.xor_assoc, Bool.xor_self,
                  Bool.xor_false]

theorem signExtended_wordOf (encoding : Encoding) {bits : Nat} (hSome : 0 < bits)
    (hSmall : bits ≤ 32) (posn : BitVec 32) :
    signExtended bits (ShifterIn.wordOf encoding
      ((List.range bits).map (positionBit encoding bits posn))) = signExtended bits posn := by
  have hBit : ∀ place, place < bits → (ShifterIn.wordOf encoding
      ((List.range bits).map (positionBit encoding bits posn)) : BitVec 32).getLsbD place =
        posn.getLsbD place := by
    intro place hPlace
    rw [wordOf_positionBit encoding hSmall posn le_rfl hPlace, Nat.sub_self, Nat.zero_add]
  rw [signExtended, signExtended]
  congr 1
  funext place
  split_ifs with hLow
  · exact hBit place.val hLow
  · exact hBit (bits - 1) (by omega)

/-- What a frame tells: a lost link, an error of the generator just before the status bits, or the
position that was latched. -/
def told (run : Run step) (bits : Nat) (edge : Nat → Nat) (linkUp : Bool) (posn : BitVec 32) :
    BitVec 32 × BitVec 32 :=
  if linkUp = false then (2, posn)
  else if (run.input (edge (bits + 4) - 1)).generatorError then (4, posn)
  else (0, signExtended bits (run.input (edge 3)).posn)

theorem Frame.told_of_intact (h : Frame run bits encoding edge) (hBoot : run.state 0 = .boot)
    (hSome : 0 < bits.toNat) (hSmall : bits.toNat ≤ 32) {received : Nat → Bool}
    (hIntact : BissCrc.inverted (sent run edge) received (bits.toNat + 2) = 0) (linkUp : Bool)
    (posn : BitVec 32) : BissMaster.verdict linkUp bits.toNat encoding posn received =
      told run bits.toNat edge linkUp posn := by
  have hEnabled := enabled_of_boot hBoot (edge 0)
  have hGood := BissCrc.accepted_of_intact (h.coded hBoot hSome hSmall) hIntact
  have hSame : ∀ place, place < bits.toNat + 8 → received place = sent run edge place := by
    intro place hPlace
    have hNone := List.count_eq_zero.mp hIntact
    have hBit : (sent run edge place ^^ received place) ≠ true := fun hFlip =>
      hNone (List.mem_map.mpr ⟨place, List.mem_range.mpr (by omega), hFlip⟩)
    revert hBit
    cases sent run edge place <;> cases received place <;> decide
  have hData : (List.range bits.toNat).map received = (List.range bits.toNat).map
      (positionBit encoding bits.toNat (run.input (edge 3)).posn) := by
    refine List.map_congr_left fun place hPlace => ?_
    have hLess := List.mem_range.mp hPlace
    rw [hSame place (by omega), h.sent_data hEnabled hSmall hLess]
  obtain ⟨⟨before, hBefore, hStatus⟩, -⟩ := h.sent_status hEnabled hSmall hSome
  rw [BissMaster.verdict, told, if_neg (not_not.mpr hGood), hSame _ (by omega), hStatus, hData,
    signExtended_wordOf encoding hSome hSmall, hBefore, Nat.add_sub_cancel]
  cases (run.input before).generatorError <;> rfl

end BissSlave

/-- A master and a sniffer that receive a frame of a slave as it was sent, under the same encoding,
come to the position that the slave has latched, or report its error. -/
theorem biss_transfer (slave : Run BissSlave.step) (hSlave : slave.state 0 = .boot)
    (bits : BitVec 8) (hSome : 0 < bits.toNat) (hSmall : bits.toNat ≤ 32) (encoding : Encoding)
    (edge : Nat → Nat) (hFrame : BissSlave.Frame slave bits encoding edge) :
    (∀ (run : Run BissMaster.step) (rise : Nat → Nat), run.state 0 = .boot →
      BissMaster.Frame run bits encoding rise →
      BissCrc.inverted (BissSlave.sent slave edge) (BissMaster.received run rise)
        (bits.toNat + 2) = 0 →
      ((run.state (rise (bits.toNat + 8) + 3)).health,
          (run.state (rise (bits.toNat + 8) + 3)).posn) =
        BissSlave.told slave bits.toNat edge (run.state (rise (bits.toNat + 8) + 2)).linkUp
          (run.state (rise 0 + 1)).posn) ∧
    ∀ (run : Run BissSniffer.step) (rise : Nat → Nat), run.state 0 = .boot →
      BissSniffer.Frame run bits encoding rise →
      BissCrc.inverted (BissSlave.sent slave edge) (BissSniffer.received run rise)
        (bits.toNat + 2) = 0 →
      ((run.state (rise (bits.toNat + 8) + 5)).health,
          (run.state (rise (bits.toNat + 8) + 5)).posn) =
        BissSlave.told slave bits.toNat edge true (run.state (rise 0 + 1)).posn := by
  constructor
  · intro run rise hBoot h hIntact
    rw [h.checked (BissMaster.ready_of_boot hBoot _) hSome hSmall]
    exact hFrame.told_of_intact hSlave hSome hSmall hIntact _ _
  · intro run rise hBoot h hIntact
    rw [h.checked (BissSniffer.ready_of_boot hBoot _) hSome hSmall]
    exact hFrame.told_of_intact hSlave hSome hSmall hIntact _ _

/-- A sniffer that hears the frame of that slave as it was sent. -/
def intactSniffer : Run BissSniffer.step := snifferOf fun clock =>
  decide (clock < 640 ∨ 646 ≤ clock ∧ clock < 650 ∨ 658 ≤ clock ∧ clock < 662 ∨
    666 ≤ clock ∧ clock < 678 ∨ 690 ≤ clock ∧ clock < 698)

set_option maxRecDepth 20000 in
theorem intactSniffer_frame :
    BissSniffer.Frame intactSniffer 4 .unsignedGray fun count => 650 + 4 * count :=
  snifferOf_frame (by decide) rfl (by decide)

set_option maxRecDepth 2000 in
/-- The sniffer shows the position of that slave, which has no error. -/
theorem biss_transfer_four_bits :
    ((intactSniffer.state 703).health, (intactSniffer.state 703).posn) = (0, 6) := by
  have hAll := biss_transfer fourBitSlave rfl 4 (by decide) (by decide) .unsignedGray _
    fourBitSlave_frame
  have hTold := hAll.2 intactSniffer _ rfl intactSniffer_frame (by decide)
  rw [show (4 : BitVec 8).toNat = 4 from rfl] at hTold
  exact hTold.trans (by decide)

end Fpga
