import PandaBridge.Fpga.RegBus

/-! What two calls of the server for a bus tell of its changes. -/
namespace Fpga

open Clocked

namespace RegTop

/-- The flags of a call match its values and those of the call before it: each call returns one
sample of the bus, and an entry is flagged when it differs and only when it has changed between the
two samples. -/
structure FlagsMatch {Entry Value : Type} (bus : Entry → Nat → Value) (former latter : Entry → Value)
    (flags : Entry → Bool) (first second : Nat) : Prop where
  ordered : first < second
  formerSample : ∀ entry, former entry = bus entry first
  latterSample : ∀ entry, latter entry = bus entry second
  differs : ∀ entry, latter entry ≠ former entry → flags entry = true
  flagged : ∀ entry, flags entry = true →
    ∃ clock, first < clock ∧ clock ≤ second ∧ bus entry clock ≠ former entry

/-- An entry changes at the clock after this one. -/
def ChangesAfter {Entry Value : Type} (bus : Entry → Nat → Value) (entry : Entry)
    (clock : Nat) : Prop :=
  bus entry (clock + 1) ≠ bus entry clock

/-- The flags of two calls with their writes at these clocks match exactly when every entry changes
between the two samples, or at both of them, or at neither. -/
theorem flagsMatch_iff {Entry Value : Type} (signal : Entry → ChangeFlag Value)
    {former latter : Entry → Value} {flags : Entry → Bool} {first second : Nat}
    (hStrobes : ∀ entry, (signal entry).Strobes (first + 1) (second + 1))
    (hOrdered : first < second)
    (hFormer : ∀ entry, former entry = (signal entry).value (first + 1))
    (hLatter : ∀ entry, latter entry = (signal entry).value (second + 1))
    (hFlags : ∀ entry, flags entry = (signal entry).flag (second + 1)) :
    FlagsMatch (fun entry => (signal entry).value) former latter flags (first + 1) (second + 1) ↔
      ∀ entry,
        (∃ clock, first < clock ∧ clock < second ∧
          ChangesAfter (fun entry => (signal entry).value) entry clock) ∨
        (ChangesAfter (fun entry => (signal entry).value) entry first ↔
          ChangesAfter (fun entry => (signal entry).value) entry second) := by
  have hChange : ∀ entry clock, (signal entry).ChangesAt (clock + 1) ↔
      ChangesAfter (fun entry => (signal entry).value) entry clock := by
    intro entry clock
    rw [ChangeFlag.ChangesAt, (signal entry).follows, ChangesAfter]
  have hTells : ∀ entry, (signal entry).Tells (first + 1) (second + 1) ↔
      (∃ clock, first < clock ∧ clock < second ∧
        ChangesAfter (fun entry => (signal entry).value) entry clock) ∨
      (ChangesAfter (fun entry => (signal entry).value) entry first ↔
        ChangesAfter (fun entry => (signal entry).value) entry second) := by
    intro entry
    rw [(hStrobes entry).tells_iff, hChange, hChange]
    refine or_congr_left ⟨?_, ?_⟩
    · rintro ⟨clock, hFrom, hTo, hChanges⟩
      obtain ⟨before, rfl⟩ : ∃ before, clock = before + 1 := ⟨clock - 1, by omega⟩
      exact ⟨before, by omega, by omega, (hChange entry before).mp hChanges⟩
    · rintro ⟨clock, hFrom, hTo, hChanges⟩
      exact ⟨clock + 1, by omega, by omega, (hChange entry clock).mpr hChanges⟩
  constructor
  · intro hMatch entry
    refine (hTells entry).mp ⟨fun hDiffers => ?_, fun hFlag => ?_⟩
    · rw [← hFlags]
      exact hMatch.differs entry (by rwa [hFormer, hLatter])
    · rw [← hFlags] at hFlag
      obtain ⟨clock, hFrom, hTo, hOther⟩ := hMatch.flagged entry hFlag
      exact ⟨clock, hFrom, hTo, by rwa [hFormer] at hOther⟩
  · intro hCondition
    have hEntry := fun entry => (hTells entry).mpr (hCondition entry)
    refine ⟨by omega, hFormer, hLatter, fun entry hDiffers => ?_, fun entry hFlag => ?_⟩
    · rw [hFlags]
      exact (hEntry entry).differs (by rwa [hFormer, hLatter] at hDiffers)
    · rw [hFlags] at hFlag
      obtain ⟨clock, hFrom, hTo, hOther⟩ := (hEntry entry).flagged hFlag
      exact ⟨clock, hFrom, hTo, by rwa [hFormer]⟩

section Calls

variable {run : Run step}

/-- Two calls of `hw_read_bits` with no other one between them. -/
structure BitsCalls (run : Run step) (first second : Nat) (former latter : Fin 8 → Nat) : Prop where
  former : BitsCall run first former
  latter : BitsCall run second latter
  ordered : first < second
  next : ∀ clock, writesAt run .bitReadRst clock → first < clock → second ≤ clock

/-- Two calls of `hw_read_positions` with no other one between them. -/
structure PositionsCalls (run : Run step) (first second : Nat) (former latter : Fin 32 → Nat)
    (formerChanges latterChanges : Nat) : Prop where
  former : PositionsCall run first former formerChanges
  latter : PositionsCall run second latter latterChanges
  ordered : first < second
  next : ∀ clock, writesAt run .posReadRst clock → first < clock → second ≤ clock

/-- A strobe comes a clock after each write, so that two writes with none between them give two
strobes with none between them. -/
theorem strobes_of_writes {Value : Type} {address : RegAddress} (signal : ChangeFlag Value)
    {first second : Nat} (hStrobe : ∀ clock, signal.strobe (clock + 1) = true ↔
      writesAt run address clock) (hFirst : writesAt run address first) (hOrdered : first < second)
    (hNext : ∀ clock, writesAt run address clock → first < clock → second ≤ clock) :
    signal.Strobes (first + 1) (second + 1) := by
  refine ⟨by omega, (hStrobe first).mpr hFirst, fun clock hFrom hTo => ?_⟩
  obtain ⟨before, rfl⟩ : ∃ before, clock = before + 1 := ⟨clock - 1, by omega⟩
  rw [Bool.eq_false_iff, Ne, hStrobe]
  intro hWrite
  have := hNext before hWrite (by omega)
  omega

theorem BitsCalls.flagsMatch_iff {first second : Nat} {former latter : Fin 8 → Nat}
    (h : BitsCalls run first second former latter) (hBoot : run.state 0 = .boot)
    (hOne : OneAtATime run) :
    FlagsMatch (bitAt run) (bitsReturned run former).1 (bitsReturned run latter).1
        (bitsReturned run latter).2 (first + 1) (second + 1) ↔
      ∀ bit, (∃ clock, first < clock ∧ clock < second ∧ ChangesAfter (bitAt run) bit clock) ∨
        (ChangesAfter (bitAt run) bit first ↔ ChangesAfter (bitAt run) bit second) :=
  RegTop.flagsMatch_iff (bitFlag run)
    (fun bit => strobes_of_writes (bitFlag run bit) bitReadRst_succ h.former.start h.ordered h.next)
    h.ordered (fun bit => (h.former.returned hBoot hOne bit).1)
    (fun bit => (h.latter.returned hBoot hOne bit).1)
    (fun bit => (h.latter.returned hBoot hOne bit).2)

theorem PositionsCalls.flagsMatch_iff {first second : Nat} {former latter : Fin 32 → Nat}
    {formerChanges latterChanges : Nat}
    (h : PositionsCalls run first second former latter formerChanges latterChanges)
    (hBoot : run.state 0 = .boot) (hOne : OneAtATime run) :
    FlagsMatch (positionAt run) (positionsReturned run former formerChanges).1
        (positionsReturned run latter latterChanges).1
        (positionsReturned run latter latterChanges).2 (first + 1) (second + 1) ↔
      ∀ entry,
        (∃ clock, first < clock ∧ clock < second ∧ ChangesAfter (positionAt run) entry clock) ∨
        (ChangesAfter (positionAt run) entry first ↔ ChangesAfter (positionAt run) entry second) :=
  RegTop.flagsMatch_iff (positionFlag run)
    (fun entry => strobes_of_writes (positionFlag run entry) posReadRst_succ h.former.burst.start
      h.ordered h.next)
    h.ordered (fun entry => (h.former.returned hBoot hOne entry).1)
    (fun entry => (h.latter.returned hBoot hOne entry).1)
    (fun entry => (h.latter.returned hBoot hOne entry).2)

end Calls

/-- The change flags of two calls match the values exactly when no entry changes at the sample of
only one of them without a change between the two. -/
theorem changes_match_iff (run : Run step) (hBoot : run.state 0 = .boot) (hOne : OneAtATime run) :
    (∀ first second former latter, BitsCalls run first second former latter →
      (FlagsMatch (bitAt run) (bitsReturned run former).1 (bitsReturned run latter).1
          (bitsReturned run latter).2 (first + 1) (second + 1) ↔
        ∀ bit, (∃ clock, first < clock ∧ clock < second ∧ ChangesAfter (bitAt run) bit clock) ∨
          (ChangesAfter (bitAt run) bit first ↔ ChangesAfter (bitAt run) bit second))) ∧
    ∀ first second former latter formerChanges latterChanges,
      PositionsCalls run first second former latter formerChanges latterChanges →
      (FlagsMatch (positionAt run) (positionsReturned run former formerChanges).1
          (positionsReturned run latter latterChanges).1
          (positionsReturned run latter latterChanges).2 (first + 1) (second + 1) ↔
        ∀ entry,
          (∃ clock, first < clock ∧ clock < second ∧ ChangesAfter (positionAt run) entry clock) ∨
          (ChangesAfter (positionAt run) entry first ↔
            ChangesAfter (positionAt run) entry second)) :=
  ⟨fun _ _ _ _ h => h.flagsMatch_iff hBoot hOne,
    fun _ _ _ _ _ _ h => h.flagsMatch_iff hBoot hOne⟩

/-! ### A run of the server -/

/-- The register of the read that starts every five clocks. -/
def readSlot (slot : Nat) : RegAddress :=
  if 2 ≤ slot ∧ slot < 10 ∨ 14 ≤ slot ∧ slot < 22 then .bitReadValue
  else if 42 ≤ slot ∧ slot < 74 ∨ 82 ≤ slot ∧ slot < 114 then .posReadValue
  else if slot = 74 ∨ slot = 114 then .posReadChanges
  else .other

/-- Two calls for the bits and then two for the positions, of which one moves between them. -/
def callsInput (bitBus : Nat → BitVec 128) (clock : Nat) : Input where
  readStrobe := decide (clock % 5 = 0)
  readAddress := readSlot (clock / 5)
  writeStrobe := decide (clock = 0 ∨ clock = 60 ∨ clock = 200 ∨ clock = 400)
  writeAddress := if clock < 100 then .bitReadRst else .posReadRst
  bitBus := bitBus clock
  posBus entry := if clock ≤ 300 then 0 else if entry.val = 3 then 7 else 0
  otherData := 0

def callsRun (bitBus : Nat → BitVec 128) : Run step := .ofInputs step .boot (callsInput bitBus)

theorem readSlot_bits (slot : Nat) : readSlot slot = .bitReadValue ↔
    2 ≤ slot ∧ slot < 10 ∨ 14 ≤ slot ∧ slot < 22 := by
  rw [readSlot]
  split_ifs <;> simp_all

theorem readSlot_positions (slot : Nat) : readSlot slot = .posReadValue ↔
    42 ≤ slot ∧ slot < 74 ∨ 82 ≤ slot ∧ slot < 114 := by
  rw [readSlot]
  split_ifs <;> first | (simp_all; done) | (simp only [false_iff]; omega)

variable (bitBus : Nat → BitVec 128)

theorem callsRun_oneAtATime : OneAtATime (callsRun bitBus) := by
  intro clock hRead later hFrom hTo
  have hStart : clock % 5 = 0 := of_decide_eq_true hRead
  have hSlot : later / 5 = clock / 5 := by omega
  refine ⟨decide_eq_false (by omega), ?_⟩
  show readSlot (later / 5) = readSlot (clock / 5)
  rw [hSlot]

theorem callsRun_reads (address : RegAddress) (clock : Nat) :
    readsAt (callsRun bitBus) address clock ↔ clock % 5 = 0 ∧ readSlot (clock / 5) = address := by
  simp [readsAt, callsRun, Run.ofInputs, callsInput]

theorem callsRun_writes_bits (clock : Nat) :
    writesAt (callsRun bitBus) .bitReadRst clock ↔ clock = 0 ∨ clock = 60 := by
  simp only [writesAt, callsRun, Run.ofInputs, callsInput, decide_eq_true_iff]
  split_ifs <;> simp <;> omega

theorem callsRun_writes_positions (clock : Nat) :
    writesAt (callsRun bitBus) .posReadRst clock ↔ clock = 200 ∨ clock = 400 := by
  simp only [writesAt, callsRun, Run.ofInputs, callsInput, decide_eq_true_iff]
  split_ifs <;> simp <;> omega

theorem burst_of_slots {run : Run step} {rst value : RegAddress} {count reset slot : Nat}
    (hStart : writesAt run rst reset) (hAfter : reset + 2 ≤ 5 * slot)
    (hReads : ∀ clock, reset ≤ clock + 3 → clock < 5 * (slot + count) →
      (readsAt run value clock ↔ clock % 5 = 0 ∧ slot ≤ clock / 5))
    (hSingle : ∀ clock, writesAt run rst clock → reset < clock → 5 * (slot + count) ≤ clock) :
    Burst run rst value count reset fun word => 5 * (slot + word.val) where
  start := hStart
  reads word := (hReads _ (by omega) (by omega)).mpr ⟨by omega, by omega⟩
  after word := by omega
  ordered word later hOrder := by
    have : word.val < later.val := hOrder
    omega
  only clock hRead hFrom := by
    rintro ⟨word, hTo⟩
    obtain ⟨hPlace, hLow⟩ := (hReads clock hFrom (by omega)).mp hRead
    exact ⟨⟨clock / 5 - slot, by omega⟩, by show clock = 5 * (slot + (clock / 5 - slot)); omega⟩
  single clock hWrite hLate word := by
    have := hSingle clock hWrite hLate
    omega

theorem callsRun_bits : BitsCalls (callsRun bitBus) 0 60 (fun word => 5 * (2 + word.val))
    (fun word => 5 * (14 + word.val)) where
  former := by
    refine burst_of_slots ?_ (by omega) (fun clock hFrom hTo => ?_) fun clock => ?_
    · exact (callsRun_writes_bits bitBus 0).mpr (.inl rfl)
    · rw [callsRun_reads, readSlot_bits]
      omega
    · rw [callsRun_writes_bits]
      omega
  latter := by
    refine burst_of_slots ?_ (by omega) (fun clock hFrom hTo => ?_) fun clock => ?_
    · exact (callsRun_writes_bits bitBus 60).mpr (.inr rfl)
    · rw [callsRun_reads, readSlot_bits]
      omega
    · rw [callsRun_writes_bits]
      omega
  ordered := by decide
  next clock hWrite hFrom := by
    rw [callsRun_writes_bits] at hWrite
    omega

theorem callsRun_positions : PositionsCalls (callsRun bitBus) 200 400
    (fun word => 5 * (42 + word.val)) (fun word => 5 * (82 + word.val)) 370 570 where
  former := by
    refine ⟨burst_of_slots ?_ (by omega) (fun clock hFrom hTo => ?_) fun clock => ?_, ?_, ?_, ?_⟩
    · exact (callsRun_writes_positions bitBus 200).mpr (.inl rfl)
    · rw [callsRun_reads, readSlot_positions]
      omega
    · rw [callsRun_writes_positions]
      omega
    · exact (callsRun_reads bitBus _ 370).mpr ⟨rfl, rfl⟩
    · intro word
      omega
    · intro clock hWrite hLate
      rw [callsRun_writes_positions] at hWrite
      omega
  latter := by
    refine ⟨burst_of_slots ?_ (by omega) (fun clock hFrom hTo => ?_) fun clock => ?_, ?_, ?_, ?_⟩
    · exact (callsRun_writes_positions bitBus 400).mpr (.inr rfl)
    · rw [callsRun_reads, readSlot_positions]
      omega
    · rw [callsRun_writes_positions]
      omega
    · exact (callsRun_reads bitBus _ 570).mpr ⟨rfl, rfl⟩
    · intro word
      omega
    · intro clock hWrite hLate
      rw [callsRun_writes_positions] at hWrite
      omega
  ordered := by decide
  next clock hWrite hFrom := by
    rw [callsRun_writes_positions] at hWrite
    omega

/-- Two bits that rise between the samples. -/
def movedBus (clock : Nat) : BitVec 128 := if clock ≤ 30 then 0 else 5

/-- Two bits and a position that change between the samples are flagged. -/
theorem changes_match_moved :
    FlagsMatch (bitAt (callsRun movedBus))
        (bitsReturned (callsRun movedBus) fun word => 5 * (2 + word.val)).1
        (bitsReturned (callsRun movedBus) fun word => 5 * (14 + word.val)).1
        (bitsReturned (callsRun movedBus) fun word => 5 * (14 + word.val)).2 1 61 ∧
      FlagsMatch (positionAt (callsRun movedBus))
        (positionsReturned (callsRun movedBus) (fun word => 5 * (42 + word.val)) 370).1
        (positionsReturned (callsRun movedBus) (fun word => 5 * (82 + word.val)) 570).1
        (positionsReturned (callsRun movedBus) (fun word => 5 * (82 + word.val)) 570).2 201 401 ∧
      (bitsReturned (callsRun movedBus) fun word => 5 * (14 + word.val)).2 2 = true ∧
      (positionsReturned (callsRun movedBus) (fun word => 5 * (82 + word.val)) 570).2 3 = true := by
  have hMatch := changes_match_iff (callsRun movedBus) rfl (callsRun_oneAtATime _)
  -- at both samples every entry stands still
  have hBits := (hMatch.1 0 60 _ _ (callsRun_bits _)).mpr fun _ =>
    .inr (iff_of_false (fun h => h rfl) fun h => h rfl)
  have hPositions := (hMatch.2 200 400 _ _ 370 570 (callsRun_positions _)).mpr fun _ =>
    .inr (iff_of_false (fun h => h rfl) fun h => h rfl)
  refine ⟨hBits, hPositions, hBits.differs 2 ?_, hPositions.differs 3 ?_⟩
  · rw [hBits.latterSample, hBits.formerSample]
    decide
  · rw [hPositions.latterSample, hPositions.formerSample]
    decide

/-- A bit that rises in the clock of the second sample is returned as one without its flag. -/
theorem rising_bit_without_flag : ¬ ∀ run : Run step, run.state 0 = .boot → OneAtATime run →
    ∀ first second former latter, BitsCalls run first second former latter →
      FlagsMatch (bitAt run) (bitsReturned run former).1 (bitsReturned run latter).1
        (bitsReturned run latter).2 (first + 1) (second + 1) := by
  intro hAll
  have hOne := callsRun_oneAtATime fun clock => if clock ≤ 60 then 0 else 1
  have hCalls := callsRun_bits fun clock => if clock ≤ 60 then 0 else 1
  have hBit : ∀ clock, bitAt (callsRun fun clock => if clock ≤ 60 then 0 else 1) 0 clock =
      decide (60 < clock) := by
    intro clock
    show (if clock ≤ 60 then 0 else 1 : BitVec 128).getLsbD 0 = _
    by_cases hLow : clock ≤ 60
    · rw [if_pos hLow, decide_eq_false (by omega)]
      rfl
    · rw [if_neg hLow, decide_eq_true (by omega)]
      rfl
  rcases (hCalls.flagsMatch_iff rfl hOne).mp (hAll _ rfl hOne _ _ _ _ hCalls) 0 with
    ⟨clock, -, hTo, hChange⟩ | hBoth
  · rw [ChangesAfter, hBit, hBit, decide_eq_false (by omega), decide_eq_false (by omega)] at hChange
    exact hChange rfl
  · simp only [ChangesAfter, hBit] at hBoth
    exact absurd hBoth (by decide)

end RegTop

end Fpga
