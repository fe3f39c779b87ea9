import PandaBridge.Clocked.ChangeFlag

/-! The readback of the bit and position buses. A write latches a bus with its change flags, and
every read after it gives the next word. -/
namespace Fpga

open Clocked

namespace Reg

structure Input where
  bitReadRst : Bool
  bitReadRstb : Bool
  posReadRst : Bool
  posReadRstb : Bool
  bitBus : BitVec 128
  posBus : Fin 32 → BitVec 32

structure State where
  sbusPrev : Fin 8 → BitVec 16
  sbusLatched : Fin 8 → BitVec 16
  sbusChange : Fin 8 → BitVec 16
  sbusChangeLatched : Fin 8 → BitVec 16
  index : BitVec 3
  pbusPrev : Fin 32 → BitVec 32
  pbusLatched : Fin 32 → BitVec 32
  pbusChange : Fin 32 → Bool
  pbusChangeLatched : Fin 32 → Bool
  pIndex : BitVec 5

/-- The signals before the first clock edge. -/
def State.boot : State where
  sbusPrev _ := 0
  sbusLatched _ := 0
  sbusChange _ := 0
  sbusChangeLatched _ := 0
  index := 0
  pbusPrev _ := 0
  pbusLatched _ := 0
  pbusChange _ := false
  pbusChangeLatched _ := false
  pIndex := 0

/-- The bit bus as an array of words. -/
def sbus (i : Input) (word : Fin 8) : BitVec 16 := i.bitBus.extractLsb' (16 * word.val) 16

/-- `COMP`. -/
def comp (a b : BitVec 32) : Bool := a != b

/-- One rising clock edge. -/
def step (s : State) (i : Input) : State where
  sbusPrev := sbus i
  sbusLatched := if i.bitReadRst then sbus i else s.sbusLatched
  sbusChange word :=
    if i.bitReadRst then sbus i word ^^^ s.sbusPrev word
    else sbus i word ^^^ s.sbusPrev word ||| s.sbusChange word
  sbusChangeLatched := if i.bitReadRst then s.sbusChange else s.sbusChangeLatched
  index := if i.bitReadRst then 0 else if i.bitReadRstb then s.index + 1 else s.index
  pbusPrev := i.posBus
  pbusLatched := if i.posReadRst then i.posBus else s.pbusLatched
  pbusChange entry :=
    if i.posReadRst then comp (i.posBus entry) (s.pbusPrev entry)
    else comp (i.posBus entry) (s.pbusPrev entry) || s.pbusChange entry
  pbusChangeLatched := if i.posReadRst then s.pbusChange else s.pbusChangeLatched
  pIndex := if i.posReadRst then 0 else if i.posReadRstb then s.pIndex + 1 else s.pIndex

def bitReadValue (s : State) : BitVec 32 :=
  s.sbusLatched s.index.toFin ++ s.sbusChangeLatched s.index.toFin

def posReadValue (s : State) : BitVec 32 := s.pbusLatched s.pIndex.toFin

/-- Bits as a word, the first one lowest. -/
def packBits (bits : Fin 32 → Bool) : BitVec 32 :=
  (BitVec.ofBoolListLE (List.ofFn bits)).cast List.length_ofFn

def posReadChanges (s : State) : BitVec 32 := packBits s.pbusChangeLatched

end Reg

namespace RegTop

/-- The registers of the block that the readback uses. -/
inductive RegAddress
  | bitReadRst
  | bitReadValue
  | posReadRst
  | posReadValue
  | posReadChanges
  | other
  deriving DecidableEq

structure Input where
  readStrobe : Bool
  readAddress : RegAddress
  writeStrobe : Bool
  writeAddress : RegAddress
  bitBus : BitVec 128
  posBus : Fin 32 → BitVec 32
  /-- What the registers that are not modelled hold. -/
  otherData : BitVec 32

structure State where
  bitReadRst : Bool
  posReadRst : Bool
  taps : Fin 3 → Bool
  readAck : Bool
  readData : BitVec 32
  reg : Reg.State

/-- The signals before the first clock edge. -/
def State.boot : State := ⟨false, false, fun _ => false, false, 0, .boot⟩

def regInput (s : State) (i : Input) : Reg.Input where
  bitReadRst := s.bitReadRst
  bitReadRstb := s.readAck && decide (i.readAddress = .bitReadValue)
  posReadRst := s.posReadRst
  posReadRstb := s.readAck && decide (i.readAddress = .posReadValue)
  bitBus := i.bitBus
  posBus := i.posBus

/-- `REG_READ`. -/
def readMux (s : State) (i : Input) : BitVec 32 :=
  match i.readAddress with
  | .bitReadValue => Reg.bitReadValue s.reg
  | .posReadValue => Reg.posReadValue s.reg
  | .posReadChanges => Reg.posReadChanges s.reg
  | _ => i.otherData

/-- One rising clock edge. The acknowledgement of a read is delayed by `RD_ADDR2ACK` taps and the
output register. -/
def step (s : State) (i : Input) : State where
  bitReadRst := i.writeStrobe && decide (i.writeAddress = .bitReadRst)
  posReadRst := i.writeStrobe && decide (i.writeAddress = .posReadRst)
  taps := fun tap =>
    match tap with
    | 0 => i.readStrobe
    | 1 => s.taps 0
    | 2 => s.taps 1
  readAck := s.taps 2
  readData := if i.readStrobe then readMux s i else s.readData
  reg := Reg.step s.reg (regInput s i)

/-! ### The calls of the server -/

/-- `hw_read_bits` on the words that it reads: the bits and their change flags. -/
def hwReadBits (words : Fin 8 → BitVec 32) : (Fin 128 → Bool) × (Fin 128 → Bool) :=
  (fun bit => (words ⟨bit.val / 16, by omega⟩).getLsbD (16 + bit.val % 16),
    fun bit => (words ⟨bit.val / 16, by omega⟩).getLsbD (bit.val % 16))

/-- `hw_read_positions` on the words that it reads: the positions and their change flags. -/
def hwReadPositions (words : Fin 32 → BitVec 32) (changes : BitVec 32) :
    (Fin 32 → BitVec 32) × (Fin 32 → Bool) :=
  (words, fun position => changes.getLsbD position.val)

section Calls

variable (run : Run step)

def readsAt (address : RegAddress) (clock : Nat) : Prop :=
  (run.input clock).readStrobe = true ∧ (run.input clock).readAddress = address

def writesAt (address : RegAddress) (clock : Nat) : Prop :=
  (run.input clock).writeStrobe = true ∧ (run.input clock).writeAddress = address

/-- What a read returns: the data that are there with its acknowledgement. -/
def readResult (clock : Nat) : BitVec 32 := (run.state (clock + 4)).readData

/-- The AXI interface keeps the address of a read, and has no other one, until it is
acknowledged. -/
def OneAtATime : Prop :=
  ∀ clock, (run.input clock).readStrobe = true → ∀ later, clock < later → later ≤ clock + 4 →
    (run.input later).readStrobe = false ∧
      (run.input later).readAddress = (run.input clock).readAddress

/-- The accesses of a call: a write to the reset register, and then so many reads of the value
register, the last of a call before it having been acknowledged. -/
structure Burst (rst value : RegAddress) (count : Nat) (reset : Nat) (read : Fin count → Nat) :
    Prop where
  start : writesAt run rst reset
  reads : ∀ word, readsAt run value (read word)
  after : ∀ word, reset + 2 ≤ read word
  ordered : ∀ word later, word < later → read word < read later
  only : ∀ clock, readsAt run value clock → reset ≤ clock + 3 → (∃ word, clock ≤ read word) →
    ∃ word, clock = read word
  single : ∀ clock, writesAt run rst clock → reset < clock → ∀ word, read word < clock

/-- A call of `hw_read_bits`. -/
def BitsCall (reset : Nat) (read : Fin 8 → Nat) : Prop :=
  Burst run .bitReadRst .bitReadValue 8 reset read

/-- A call of `hw_read_positions`: the change flags are read after the positions. -/
structure PositionsCall (reset : Nat) (read : Fin 32 → Nat) (changes : Nat) : Prop where
  burst : Burst run .posReadRst .posReadValue 32 reset read
  flags : readsAt run .posReadChanges changes
  later : ∀ word, read word < changes
  single : ∀ clock, writesAt run .posReadRst clock → reset < clock → changes < clock

end Calls

/-! ### The words of a call -/

theorem loaded_of_strobe {Value : Type} (register source : Nat → Value) (strobe : Nat → Bool)
    (hStep : ∀ clock, register (clock + 1) =
      if strobe clock then source clock else register clock)
    {start clock : Nat} (hStart : strobe start = true) (hFrom : start < clock)
    (hQuiet : ∀ tick, start < tick → tick < clock → strobe tick = false) :
    register clock = source start := by
  have hFirst : register (start + 1) = source start := by rw [hStep, if_pos hStart]
  rw [← hFirst]
  refine stable_of_kept register (start + 1) clock (fun tick hTick hLess => ?_) hFrom le_rfl
  rw [hStep, if_neg (by simp [hQuiet tick hTick hLess])]

/-- The index of the word that is read, when every read counts it up at its acknowledgement. -/
theorem index_at {width count : Nat} {index : Nat → BitVec width} {rst rstb : Nat → Bool}
    (hStep : ∀ clock, index (clock + 1) =
      if rst clock then 0 else if rstb clock then index clock + 1 else index clock)
    {read : Fin count → Nat} {start : Nat} (hStart : rst start = true)
    (hQuiet : ∀ clock word, start < clock → clock ≤ read word → rst clock = false)
    (hCount : ∀ clock word, start < clock → clock ≤ read word →
      (rstb clock = true ↔ ∃ earlier, clock = read earlier + 4))
    (hAfter : ∀ word, start < read word)
    (hSpaced : ∀ word later, word < later → read word + 4 < read later) (word : Fin count) :
    index (read word) = BitVec.ofNat width word.val := by
  obtain ⟨position, hPosition⟩ := word
  induction position with
  | zero =>
      have hFirst : index (start + 1) = 0 := by rw [hStep, if_pos hStart]
      have hStable := stable_of_kept index (start + 1) (read ⟨0, hPosition⟩)
        (fun clock hFrom hLess => ?_) (hAfter ⟨0, hPosition⟩) le_rfl
      · rw [hStable, hFirst]
        rfl
      · have hNone : rstb clock = false := by
          rw [Bool.eq_false_iff, Ne, hCount clock ⟨0, hPosition⟩ hFrom (Nat.le_of_lt hLess)]
          rintro ⟨earlier, rfl⟩
          rcases Nat.eq_zero_or_pos earlier.val with hZero | hPos
          · obtain rfl : earlier = ⟨0, hPosition⟩ := Fin.ext hZero
            omega
          · have := hSpaced ⟨0, hPosition⟩ earlier hPos
            omega
        rw [hStep, if_neg (by simp [hQuiet clock ⟨0, hPosition⟩ hFrom (Nat.le_of_lt hLess)]),
          if_neg (by simp [hNone])]
  | succ position ih =>
      have hBefore : position < count := Nat.lt_of_succ_lt hPosition
      have hNow := ih hBefore
      have hGap := hSpaced ⟨position, hBefore⟩ ⟨position + 1, hPosition⟩ (Nat.lt_succ_self position)
      have hFrom := hAfter ⟨position, hBefore⟩
      -- the index is counted up once, at the acknowledgement of the read before
      have hKept : ∀ clock, read ⟨position, hBefore⟩ ≤ clock → clock < read ⟨position + 1, hPosition⟩ →
          clock ≠ read ⟨position, hBefore⟩ + 4 → index (clock + 1) = index clock := by
        intro clock hLow hHigh hOther
        have hNone : rstb clock = false := by
          rw [Bool.eq_false_iff, Ne,
            hCount clock ⟨position + 1, hPosition⟩ (by omega) (Nat.le_of_lt hHigh)]
          rintro ⟨earlier, rfl⟩
          rcases Nat.lt_trichotomy earlier.val position with hLess | hSame | hMore
          · have := hSpaced earlier ⟨position, hBefore⟩ hLess
            omega
          · obtain rfl : earlier = ⟨position, hBefore⟩ := Fin.ext hSame
            omega
          · rcases Nat.eq_or_lt_of_le (Nat.succ_le_of_lt hMore) with hSame | hMore
            · obtain rfl : earlier = ⟨position + 1, hPosition⟩ := Fin.ext hSame.symm
              omega
            · have := hSpaced ⟨position + 1, hPosition⟩ earlier hMore
              omega
        rw [hStep, if_neg (by simp [hQuiet clock ⟨position + 1, hPosition⟩ (by omega)
          (Nat.le_of_lt hHigh)]), if_neg (by simp [hNone])]
      have hAck : index (read ⟨position, hBefore⟩ + 4) = index (read ⟨position, hBefore⟩) :=
        stable_of_kept index _ (read ⟨position, hBefore⟩ + 4)
          (fun clock hLow hHigh => hKept clock hLow (by omega) (by omega)) (by omega) le_rfl
      have hUp : index (read ⟨position, hBefore⟩ + 5) = index (read ⟨position, hBefore⟩ + 4) + 1 := by
        rw [hStep, if_neg (by simp [hQuiet _ ⟨position + 1, hPosition⟩ (by omega)
          (Nat.le_of_lt hGap)]), if_pos]
        exact (hCount _ ⟨position + 1, hPosition⟩ (by omega) (Nat.le_of_lt hGap)).mpr ⟨_, rfl⟩
      have hRest : index (read ⟨position + 1, hPosition⟩) = index (read ⟨position, hBefore⟩ + 5) :=
        stable_of_kept index _ (read ⟨position + 1, hPosition⟩)
          (fun clock hLow hHigh => hKept clock (by omega) hHigh (by omega)) (by omega) le_rfl
      rw [hRest, hUp, hAck, hNow, BitVec.ofNat_add]
      rfl

section Words

variable {run : Run step}

theorem readAck_eq (clock : Nat) :
    (run.state (clock + 4)).readAck = (run.input clock).readStrobe := by
  rw [run.edge, run.edge, run.edge, run.edge]
  rfl

theorem readResult_eq (hOne : OneAtATime run) {address : RegAddress} {clock : Nat}
    (hRead : readsAt run address clock) :
    readResult run clock = readMux (run.state clock) (run.input clock) := by
  have hFirst : (run.state (clock + 1)).readData = readMux (run.state clock) (run.input clock) := by
    rw [run.edge]
    exact if_pos hRead.1
  rw [readResult, ← hFirst]
  refine stable_of_kept (fun clock => (run.state clock).readData) (clock + 1) (clock + 4)
    (fun later hFrom hTo => ?_) (by omega) le_rfl
  have hQuiet := (hOne clock hRead.1 later hFrom (by omega)).1
  rw [run.edge]
  exact if_neg (by simp [hQuiet])

section Burst

variable {rst value : RegAddress} {count reset : Nat} {read : Fin count → Nat}

theorem Burst.spaced (h : Burst run rst value count reset read) (hOne : OneAtATime run)
    (word later : Fin count) (hOrder : word < later) : read word + 4 < read later := by
  have hLess := h.ordered word later hOrder
  by_contra hClose
  have hQuiet := (hOne (read word) (h.reads word).1 (read later) hLess (by omega)).1
  rw [(h.reads later).1] at hQuiet
  exact absurd hQuiet (by decide)

theorem Burst.counts (h : Burst run rst value count reset read) (hBoot : run.state 0 = .boot)
    (hOne : OneAtATime run) {clock : Nat} {word : Fin count} (hFrom : reset + 1 < clock)
    (hTo : clock ≤ read word) :
    ((run.state clock).readAck && decide ((run.input clock).readAddress = value)) = true ↔
      ∃ earlier, clock = read earlier + 4 := by
  rw [Bool.and_eq_true, decide_eq_true_iff]
  constructor
  · rintro ⟨hAck, hAddress⟩
    obtain ⟨before, rfl⟩ : ∃ before, clock = before + 4 := by
      refine ⟨clock - 4, (Nat.sub_add_cancel ?_).symm⟩
      by_contra hEarly
      rcases (by omega : clock = 2 ∨ clock = 3) with rfl | rfl
      · rw [run.edge, run.edge, hBoot] at hAck
        exact absurd hAck Bool.false_ne_true
      · rw [run.edge, run.edge, run.edge, hBoot] at hAck
        exact absurd hAck Bool.false_ne_true
    rw [readAck_eq] at hAck
    have hSame := (hOne before hAck (before + 4) (by omega) le_rfl).2
    obtain ⟨earlier, rfl⟩ := h.only before ⟨hAck, hSame.symm.trans hAddress⟩ (by omega)
      ⟨word, by omega⟩
    exact ⟨earlier, rfl⟩
  · rintro ⟨earlier, rfl⟩
    have hRead := h.reads earlier
    exact ⟨(readAck_eq _).trans hRead.1,
      (hOne _ hRead.1 _ (by omega) le_rfl).2.trans hRead.2⟩

/-- The strobe of a call comes a clock after its write, and no other one until its last read. -/
theorem Burst.strobes (h : Burst run rst value count reset read) (strobe : Nat → Bool)
    (hRst : ∀ clock, strobe (clock + 1) = true ↔ writesAt run rst clock) :
    strobe (reset + 1) = true ∧
      ∀ clock word, reset + 1 < clock → clock ≤ read word → strobe clock = false := by
  refine ⟨(hRst reset).mpr h.start, fun clock word hFrom hTo => ?_⟩
  obtain ⟨before, rfl⟩ : ∃ before, clock = before + 1 := ⟨clock - 1, by omega⟩
  rw [Bool.eq_false_iff, Ne, hRst]
  intro hWrite
  have := h.single before hWrite (by omega) word
  omega

/-- The word of a read is the one of its number. -/
theorem Burst.index_eq (h : Burst run rst value count reset read) (hBoot : run.state 0 = .boot)
    (hOne : OneAtATime run) {width : Nat} (index : Nat → BitVec width) (strobe : Nat → Bool)
    (hRst : ∀ clock, strobe (clock + 1) = true ↔ writesAt run rst clock)
    (hStep : ∀ clock, index (clock + 1) =
      if strobe clock then 0
      else if (run.state clock).readAck && decide ((run.input clock).readAddress = value) then
        index clock + 1
      else index clock) (word : Fin count) :
    index (read word) = BitVec.ofNat width word.val := by
  obtain ⟨hStart, hQuiet⟩ := h.strobes strobe hRst
  exact index_at hStep hStart hQuiet (fun clock word hFrom hTo => h.counts hBoot hOne hFrom hTo)
    (fun word => h.after word) (h.spaced hOne) word

end Burst

/-! ### Bits -/

/-- A bit of the bus. -/
def bitAt (run : Run step) (bit : Fin 128) (clock : Nat) : Bool :=
  (run.input clock).bitBus.getLsbD bit.val

/-- A bit of the words of the readback. -/
def wordBit (words : Fin 8 → BitVec 16) (bit : Fin 128) : Bool :=
  (words ⟨bit.val / 16, by omega⟩).getLsbD (bit.val % 16)

theorem wordBit_sbus (i : Reg.Input) (bit : Fin 128) :
    wordBit (Reg.sbus i) bit = i.bitBus.getLsbD bit.val := by
  have hPlace : 16 * (bit.val / 16) + bit.val % 16 = bit.val := Nat.div_add_mod _ _
  have hLow : bit.val % 16 < 16 := Nat.mod_lt _ (by decide)
  simp [wordBit, Reg.sbus, hLow, hPlace]

theorem sbusPrev_succ (run : Run step) (bit : Fin 128) (clock : Nat) :
    wordBit (run.state (clock + 1)).reg.sbusPrev bit = bitAt run bit clock := by
  rw [run.edge]
  exact wordBit_sbus _ bit

theorem sbusChange_succ (run : Run step) (bit : Fin 128) (clock : Nat) :
    wordBit (run.state (clock + 1)).reg.sbusChange bit = true ↔
      bitAt run bit clock ≠ wordBit (run.state clock).reg.sbusPrev bit ∨
        (run.state clock).bitReadRst = false ∧
          wordBit (run.state clock).reg.sbusChange bit = true := by
  have hNow := wordBit_sbus (regInput (run.state clock) (run.input clock)) bit
  have hBit : (regInput (run.state clock) (run.input clock)).bitBus.getLsbD bit.val =
      bitAt run bit clock := rfl
  have hStrobe : (regInput (run.state clock) (run.input clock)).bitReadRst =
      (run.state clock).bitReadRst := rfl
  rw [hBit, wordBit] at hNow
  rw [run.edge]
  simp only [wordBit, step, Reg.step, hStrobe]
  cases (run.state clock).bitReadRst <;>
    simp [BitVec.getLsbD_or, BitVec.getLsbD_xor, hNow]

/-- A bit of the bus with its change flag. -/
def bitFlag (run : Run step) (bit : Fin 128) : ChangeFlag Bool where
  value := bitAt run bit
  strobe clock := (run.state clock).bitReadRst
  previous clock := wordBit (run.state clock).reg.sbusPrev bit
  flag clock := wordBit (run.state clock).reg.sbusChange bit
  follows := sbusPrev_succ run bit
  collects := sbusChange_succ run bit

theorem bitReadRst_succ (clock : Nat) :
    (run.state (clock + 1)).bitReadRst = true ↔ writesAt run .bitReadRst clock := by
  rw [run.edge, writesAt]
  simp [step]

/-- What a call of `hw_read_bits` returns. -/
def bitsReturned (run : Run step) (read : Fin 8 → Nat) : (Fin 128 → Bool) × (Fin 128 → Bool) :=
  hwReadBits fun word => readResult run (read word)

theorem BitsCall.returned {reset : Nat} {read : Fin 8 → Nat} (h : BitsCall run reset read)
    (hBoot : run.state 0 = .boot) (hOne : OneAtATime run) (bit : Fin 128) :
    (bitsReturned run read).1 bit = (bitFlag run bit).value (reset + 1) ∧
      (bitsReturned run read).2 bit = (bitFlag run bit).flag (reset + 1) := by
  have hWord : bit.val / 16 < 8 := by omega
  obtain ⟨hStart, hQuiet⟩ := Burst.strobes h (fun clock => (run.state clock).bitReadRst)
    bitReadRst_succ
  have hIndex := Burst.index_eq h hBoot hOne (fun clock => (run.state clock).reg.index)
    (fun clock => (run.state clock).bitReadRst) bitReadRst_succ
    (fun clock => by rw [run.edge]; rfl) ⟨bit.val / 16, hWord⟩
  have hRead := h.reads ⟨bit.val / 16, hWord⟩
  have hAfter := h.after ⟨bit.val / 16, hWord⟩
  have hValue := loaded_of_strobe (fun clock => (run.state clock).reg.sbusLatched)
    (fun clock => Reg.sbus (regInput (run.state clock) (run.input clock)))
    (fun clock => (run.state clock).bitReadRst) (fun clock => by rw [run.edge]; rfl) hStart hAfter
    fun tick hFrom hTo => hQuiet tick ⟨bit.val / 16, hWord⟩ hFrom (Nat.le_of_lt hTo)
  have hChange := loaded_of_strobe (fun clock => (run.state clock).reg.sbusChangeLatched)
    (fun clock => (run.state clock).reg.sbusChange)
    (fun clock => (run.state clock).bitReadRst) (fun clock => by rw [run.edge]; rfl) hStart hAfter
    fun tick hFrom hTo => hQuiet tick ⟨bit.val / 16, hWord⟩ hFrom (Nat.le_of_lt hTo)
  have hResult : readResult run (read ⟨bit.val / 16, hWord⟩) =
      Reg.bitReadValue (run.state (read ⟨bit.val / 16, hWord⟩)).reg := by
    rw [readResult_eq hOne hRead, readMux, hRead.2]
  have hToFin : (BitVec.ofNat 3 (bit.val / 16)).toFin = ⟨bit.val / 16, hWord⟩ :=
    Fin.ext (Nat.mod_eq_of_lt hWord)
  simp only at hIndex hValue hChange
  have hLow : bit.val % 16 < 16 := Nat.mod_lt _ (by decide)
  constructor
  · show (readResult run _).getLsbD _ = bitAt run bit (reset + 1)
    rw [hResult, Reg.bitReadValue, hIndex, hToFin, hValue, BitVec.getLsbD_append,
      if_neg (by omega), Nat.add_sub_cancel_left]
    exact wordBit_sbus _ bit
  · show (readResult run _).getLsbD _ = wordBit _ bit
    rw [hResult, Reg.bitReadValue, hIndex, hToFin, hChange, BitVec.getLsbD_append, if_pos hLow]
    rfl

/-! ### Positions -/

/-- An entry of the position bus. -/
def positionAt (run : Run step) (entry : Fin 32) (clock : Nat) : BitVec 32 :=
  (run.input clock).posBus entry

theorem pbusPrev_succ (run : Run step) (entry : Fin 32) (clock : Nat) :
    (run.state (clock + 1)).reg.pbusPrev entry = positionAt run entry clock := by
  rw [run.edge]
  rfl

theorem pbusChange_succ (run : Run step) (entry : Fin 32) (clock : Nat) :
    (run.state (clock + 1)).reg.pbusChange entry = true ↔
      positionAt run entry clock ≠ (run.state clock).reg.pbusPrev entry ∨
        (run.state clock).posReadRst = false ∧ (run.state clock).reg.pbusChange entry = true := by
  have hStrobe : (regInput (run.state clock) (run.input clock)).posReadRst =
      (run.state clock).posReadRst := rfl
  have hEntry : (regInput (run.state clock) (run.input clock)).posBus entry =
      positionAt run entry clock := rfl
  rw [run.edge]
  simp only [step, Reg.step, hStrobe, hEntry, Reg.comp]
  cases (run.state clock).posReadRst <;> simp

/-- An entry of the position bus with its change flag. -/
def positionFlag (run : Run step) (entry : Fin 32) : ChangeFlag (BitVec 32) where
  value := positionAt run entry
  strobe clock := (run.state clock).posReadRst
  previous clock := (run.state clock).reg.pbusPrev entry
  flag clock := (run.state clock).reg.pbusChange entry
  follows := pbusPrev_succ run entry
  collects := pbusChange_succ run entry

theorem posReadRst_succ (clock : Nat) :
    (run.state (clock + 1)).posReadRst = true ↔ writesAt run .posReadRst clock := by
  rw [run.edge, writesAt]
  simp [step]

theorem packBits_getLsbD (bits : Fin 32 → Bool) (entry : Fin 32) :
    (Reg.packBits bits).getLsbD entry.val = bits entry := by
  rw [Reg.packBits, BitVec.getLsbD_cast, BitVec.getLsbD_ofBoolListLE,
    List.getD_eq_getElem?_getD, List.getElem?_ofFn, dif_pos entry.isLt, Option.getD_some]

/-- What a call of `hw_read_positions` returns. -/
def positionsReturned (run : Run step) (read : Fin 32 → Nat) (changes : Nat) :
    (Fin 32 → BitVec 32) × (Fin 32 → Bool) :=
  hwReadPositions (fun word => readResult run (read word)) (readResult run changes)

theorem PositionsCall.returned {reset changes : Nat} {read : Fin 32 → Nat}
    (h : PositionsCall run reset read changes) (hBoot : run.state 0 = .boot)
    (hOne : OneAtATime run) (entry : Fin 32) :
    (positionsReturned run read changes).1 entry = (positionFlag run entry).value (reset + 1) ∧
      (positionsReturned run read changes).2 entry =
        (positionFlag run entry).flag (reset + 1) := by
  obtain ⟨hStart, hQuiet⟩ := Burst.strobes h.burst (fun clock => (run.state clock).posReadRst)
    posReadRst_succ
  have hIndex := Burst.index_eq h.burst hBoot hOne (fun clock => (run.state clock).reg.pIndex)
    (fun clock => (run.state clock).posReadRst) posReadRst_succ
    (fun clock => by rw [run.edge]; rfl) entry
  have hValue := loaded_of_strobe (fun clock => (run.state clock).reg.pbusLatched)
    (fun clock => (run.input clock).posBus) (fun clock => (run.state clock).posReadRst)
    (fun clock => by rw [run.edge]; rfl) hStart (h.burst.after entry)
    fun tick hFrom hTo => hQuiet tick entry hFrom (Nat.le_of_lt hTo)
  have hLate : reset + 1 < changes := Nat.lt_trans (h.burst.after entry) (h.later entry)
  have hChange := loaded_of_strobe (fun clock => (run.state clock).reg.pbusChangeLatched)
    (fun clock => (run.state clock).reg.pbusChange) (fun clock => (run.state clock).posReadRst)
    (fun clock => by rw [run.edge]; rfl) hStart hLate fun tick hFrom hTo => by
      obtain ⟨before, rfl⟩ : ∃ before, tick = before + 1 := ⟨tick - 1, by omega⟩
      rw [Bool.eq_false_iff, Ne, posReadRst_succ]
      intro hWrite
      have := h.single before hWrite (by omega)
      omega
  have hToFin : (BitVec.ofNat 5 entry.val).toFin = entry :=
    Fin.ext (Nat.mod_eq_of_lt entry.isLt)
  have hRead := h.burst.reads entry
  constructor
  · show readResult run (read entry) = _
    rw [readResult_eq hOne hRead, readMux, hRead.2]
    show Reg.posReadValue _ = _
    rw [Reg.posReadValue, hIndex, hToFin, hValue]
    rfl
  · show (readResult run changes).getLsbD _ = _
    rw [readResult_eq hOne h.flags, readMux, h.flags.2]
    show (Reg.posReadChanges _).getLsbD _ = _
    rw [Reg.posReadChanges, packBits_getLsbD, hChange]
    rfl

end Words

end RegTop

end Fpga
