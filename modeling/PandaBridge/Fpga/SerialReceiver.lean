import PandaBridge.Fpga.SerialParts
import PandaBridge.Clocked.Events

/-! What the shift registers of a receiver make of the bits between two clocks, and what the check
code makes of inverted ones. -/
namespace Fpga

open Clocked

namespace ShifterIn

variable {width : Nat}

theorem shiftIn_getLsbD (word : BitVec width) (bit : Bool) {place : Nat} (hPlace : place < width) :
    (shiftIn word bit).getLsbD place = if place = 0 then bit else word.getLsbD (place - 1) := by
  rw [shiftIn, BitVec.getLsbD_or, BitVec.getLsbD_shiftLeft, BitVec.getLsbD_setWidth]
  cases place with
  | zero => simp [hPlace]
  | succ place => simp [hPlace]

theorem shiftIn_xor (word other : BitVec width) (bit flip : Bool) :
    shiftIn (word ^^^ other) (bit ^^ flip) = shiftIn word bit ^^^ shiftIn other flip := by
  refine BitVec.eq_of_getLsbD_eq fun place hPlace => ?_
  rw [BitVec.getLsbD_xor, shiftIn_getLsbD _ _ hPlace, shiftIn_getLsbD _ _ hPlace,
    shiftIn_getLsbD _ _ hPlace]
  split_ifs
  · rfl
  · rw [BitVec.getLsbD_xor]

/-- The word takes a bit. -/
def takeBit (encoding : Encoding) (word : BitVec width) (bit : Bool) : BitVec width :=
  shiftIn word (decoded encoding word bit)

/-- The word of so many bits. -/
def wordOf (encoding : Encoding) (bits : List Bool) : BitVec width :=
  bits.foldl (takeBit encoding) 0

section Step

variable {s : State width} {i : Input}

theorem step_disabled (hReset : i.reset = false) (hEnable : i.enable = false)
    (hPrev : s.validPrev = false) : step s i = { s with validPrev := false, dataValid := false } := by
  simp [step, hReset, hEnable, hPrev]

theorem step_enabled (hReset : i.reset = false) (hEnable : i.enable = true) :
    step s i =
      { smplHold := if i.clock then takeBit i.encoding s.smplHold i.data else s.smplHold
        validPrev := true
        dataO := s.dataO
        dataValid := false } := by
  simp [step, hReset, hEnable, takeBit]

theorem step_latches (hReset : i.reset = false) (hEnable : i.enable = false)
    (hPrev : s.validPrev = true) :
    step s i = { smplHold := 0, validPrev := false, dataO := s.smplHold, dataValid := true } := by
  simp [step, hReset, hEnable, hPrev]

end Step

variable (run : Run (@step width)) {first last : Nat}

/-- While it is not enabled a shift register stands still. -/
theorem idle (hOrder : first ≤ last)
    (hReset : ∀ clock, first ≤ clock → clock < last → (run.input clock).reset = false)
    (hOff : ∀ clock, first ≤ clock → clock < last → (run.input clock).enable = false)
    (hPrev : (run.state first).validPrev = false) :
    (run.state last).smplHold = (run.state first).smplHold ∧
      (run.state last).dataO = (run.state first).dataO ∧ (run.state last).validPrev = false ∧
      (first < last → (run.state last).dataValid = false) := by
  induction last, hOrder using Nat.le_induction with
  | base => exact ⟨rfl, rfl, hPrev, fun hLess => absurd hLess (Nat.lt_irrefl _)⟩
  | succ last hOrder ih =>
      obtain ⟨hHold, hData, hOld, -⟩ := ih (fun clock hFrom hTo => hReset clock hFrom (by omega))
        fun clock hFrom hTo => hOff clock hFrom (by omega)
      rw [run.edge, step_disabled (hReset last hOrder (Nat.lt_succ_self last))
        (hOff last hOrder (Nat.lt_succ_self last)) hOld]
      exact ⟨hHold, hData, rfl, fun _ => rfl⟩

theorem enabled {encoding : Encoding} (hOrder : first ≤ last)
    (hReset : ∀ clock, first ≤ clock → clock < last → (run.input clock).reset = false)
    (hOn : ∀ clock, first ≤ clock → clock < last → (run.input clock).enable = true ∧
      (run.input clock).encoding = encoding)
    (hClear : (run.state first).smplHold = 0) (clock : Nat → Nat) (count : Nat)
    (hTakes : ∀ tick, first ≤ tick → tick < last →
      ((run.input tick).clock = true ↔ ∃ place, place < count ∧ tick = clock place))
    (hRange : ∀ place, place < count → first ≤ clock place ∧ clock place < last)
    (hStrict : ∀ place later, place < later → later < count → clock place < clock later) :
    (run.state last).smplHold =
      wordOf encoding ((List.range count).map fun place => (run.input (clock place)).data) := by
  have hStep : ∀ tick, first ≤ tick → tick < last → (run.state (tick + 1)).smplHold =
      if (run.input tick).clock then
        takeBit encoding (run.state tick).smplHold (run.input tick).data
      else (run.state tick).smplHold := by
    intro tick hFrom hTo
    obtain ⟨hEnable, hEncoding⟩ := hOn tick hFrom hTo
    rw [run.edge, step_enabled (hReset tick hFrom hTo) hEnable, hEncoding]
  have hCollect := collect (fun tick => (run.state tick).smplHold)
    (fun tick => (run.input tick).clock) (fun tick => (run.input tick).data) (takeBit encoding)
    hOrder hStep clock count hTakes hRange hStrict
  rw [hClear] at hCollect
  exact hCollect

theorem dataValid_enabled {clock : Nat} (hReset : (run.input clock).reset = false)
    (hOn : (run.input clock).enable = true) : (run.state (clock + 1)).dataValid = false := by
  rw [run.edge, step_enabled hReset hOn]

/-- At the end of its enable a shift register gives out its word. -/
theorem latched (hLess : first < last)
    (hReset : ∀ clock, first ≤ clock → clock ≤ last → (run.input clock).reset = false)
    (hOn : (run.input (last - 1)).enable = true) (hOff : (run.input last).enable = false) :
    run.state (last + 1) =
      { smplHold := 0
        validPrev := false
        dataO := (run.state last).smplHold
        dataValid := true } := by
  have hPrev : (run.state last).validPrev = true := by
    obtain ⟨before, rfl⟩ : ∃ before, last = before + 1 := ⟨last - 1, by omega⟩
    rw [Nat.add_sub_cancel] at hOn
    rw [run.edge, step_enabled (hReset before (by omega) (by omega)) hOn]
  rw [run.edge, step_latches (hReset last (by omega) le_rfl) hOff hPrev]

/-- A shift register that is enabled in one window only, at these events. -/
structure Window (encoding : Encoding) (start on off last : Nat) (clock : Nat → Nat)
    (count : Nat) : Prop where
  startOn : start ≤ on
  onOff : on < off
  offLast : off < last
  running : ∀ tick, start ≤ tick → tick < last → (run.input tick).reset = false
  clear : (run.state start).validPrev = false ∧ (run.state start).smplHold = 0
  before : ∀ tick, start ≤ tick → tick < on → (run.input tick).enable = false
  enabled : ∀ tick, on ≤ tick → tick < off → (run.input tick).enable = true ∧
    (run.input tick).encoding = encoding
  after : ∀ tick, off ≤ tick → tick < last → (run.input tick).enable = false
  takes : ∀ tick, on ≤ tick → tick < off →
    ((run.input tick).clock = true ↔ ∃ place, place < count ∧ tick = clock place)
  range : ∀ place, place < count → on ≤ clock place ∧ clock place < off
  strict : ∀ place later, place < later → later < count → clock place < clock later

variable {run} {encoding : Encoding} {start on off count : Nat} {clock : Nat → Nat}

theorem Window.word (h : Window run encoding start on off last clock count) :
    (run.state last).dataO =
      wordOf encoding ((List.range count).map fun place => (run.input (clock place)).data) := by
  have hStart := h.startOn
  have hOnOff := h.onOff
  have hLast := h.offLast
  obtain ⟨hHold, -, -, -⟩ := idle run h.startOn (fun tick hFrom hTo => h.running tick hFrom (by omega))
    h.before h.clear.1
  have hWord := ShifterIn.enabled run (Nat.le_of_lt h.onOff)
    (fun tick hFrom hTo => h.running tick (by omega) (by omega)) h.enabled (hHold.trans h.clear.2)
    clock count h.takes h.range h.strict
  have hLatched := latched run h.onOff (fun tick hFrom hTo => h.running tick (by omega) (by omega))
    (h.enabled (off - 1) (by omega) (by omega)).1 (h.after off le_rfl hLast)
  have hKept := idle run (Nat.succ_le_of_lt hLast)
    (fun tick hFrom hTo => h.running tick (by omega) hTo)
    (fun tick hFrom hTo => h.after tick (Nat.le_of_succ_le hFrom) hTo)
    (show (run.state (off + 1)).validPrev = false by rw [hLatched])
  rw [hKept.2.1, ← hWord]
  show (run.state (off + 1)).dataO = _
  rw [hLatched]

theorem Window.dataValid_iff (h : Window run encoding start on off last clock count) {tick : Nat}
    (hFrom : start < tick) (hTo : tick ≤ last) :
    (run.state tick).dataValid = true ↔ tick = off + 1 := by
  have hStart := h.startOn
  have hOnOff := h.onOff
  have hLast := h.offLast
  have hLatched := latched run h.onOff (fun tick hFrom hTo => h.running tick (by omega) (by omega))
    (h.enabled (off - 1) (by omega) (by omega)).1 (h.after off le_rfl hLast)
  rcases Nat.lt_trichotomy tick (off + 1) with hBefore | rfl | hAfter
  · have hNone : (run.state tick).dataValid = false := by
      rcases Nat.lt_or_ge on tick with hIn | hOut
      · obtain ⟨earlier, rfl⟩ : ∃ earlier, tick = earlier + 1 := ⟨tick - 1, by omega⟩
        exact dataValid_enabled run (h.running earlier (by omega) (by omega))
          (h.enabled earlier (by omega) (by omega)).1
      · exact (idle run (Nat.le_of_lt hFrom) (fun earlier hLow hHigh =>
          h.running earlier hLow (by omega)) (fun earlier hLow hHigh =>
          h.before earlier hLow (by omega)) h.clear.1).2.2.2 hFrom
    simp [hNone]
    omega
  · rw [hLatched]
    simp
  · have hNone := (@idle _ run (off + 1) tick (Nat.le_of_lt hAfter)
      (fun earlier hLow hHigh => h.running earlier (by omega) (by omega))
      (fun earlier hLow hHigh => h.after earlier (by omega) (by omega))
      (show (run.state (off + 1)).validPrev = false by rw [hLatched])).2.2.2 hAfter
    simp [hNone]
    omega

end ShifterIn

/-! ### The check of a frame -/

namespace BissCrc

/-- A frame that is sent: so many bits, and then their code. -/
def Coded (frame : Nat → Bool) (count : Nat) : Prop :=
  ∀ place, place < 6 → frame (count + place) =
    checkBit (Coding.feed 3 0#6 ((List.range count).map frame)) place

/-- The received code is the one of the received bits. -/
def Accepted (frame : Nat → Bool) (count : Nat) : Prop :=
  ShifterIn.wordOf .unsignedBinary ((List.range 6).map fun place => frame (count + place)) =
    out (Coding.feed 3 0#6 ((List.range count).map frame))

/-- How many bits of a frame have been inverted. -/
def inverted (frame received : Nat → Bool) (count : Nat) : Nat :=
  ((List.range (count + 6)).map fun place => frame place ^^ received place).count true

theorem wordOf_xor (bits flips : List Bool) (hLength : bits.length = flips.length) :
    (ShifterIn.wordOf .unsignedBinary (List.zipWith xor bits flips) : BitVec 6) =
      ShifterIn.wordOf .unsignedBinary bits ^^^ ShifterIn.wordOf .unsignedBinary flips := by
  have hFold : ∀ word other : BitVec 6,
      (List.zipWith xor bits flips).foldl (ShifterIn.takeBit .unsignedBinary) (word ^^^ other) =
        bits.foldl (ShifterIn.takeBit .unsignedBinary) word ^^^
          flips.foldl (ShifterIn.takeBit .unsignedBinary) other := by
    induction bits generalizing flips with
    | nil =>
        intro word other
        obtain rfl := List.eq_nil_of_length_eq_zero hLength.symm
        rfl
    | cons bit bits ih =>
        intro word other
        obtain ⟨flip, flips, rfl⟩ := List.exists_cons_of_length_eq_add_one hLength.symm
        have hBit := ShifterIn.shiftIn_xor word other bit flip
        simp only [List.zipWith_cons_cons, List.foldl_cons]
        rw [← ih flips (Nat.succ.inj hLength)]
        exact congrArg (List.foldl (ShifterIn.takeBit .unsignedBinary) · (List.zipWith xor bits flips))
          hBit
  exact hFold 0 0

theorem wordOf_checkBit (code : BitVec 6) :
    ShifterIn.wordOf .unsignedBinary ((List.range 6).map (checkBit code)) = out code := by
  revert code
  decide

/-- Fed with its own bits the register becomes clear. -/
theorem feed_wordOf : ∀ a b c d e f : Bool,
    Coding.feed 3 (ShifterIn.wordOf .unsignedBinary [a, b, c, d, e, f]) [a, b, c, d, e, f] =
      0#6 := by
  decide

/-- The register comes round after 63 bits. -/
theorem period {distance : Nat} (hSome : 0 < distance) (hLess : distance < 63) :
    (Coding.turn 3)^[distance] 3#6 ≠ 3#6 := by
  have hAll : ∀ distance, distance < 63 → 0 < distance →
      (Coding.turn 3)^[distance] 3#6 ≠ 3#6 := by
    decide
  exact hAll distance hLess hSome

/-- Six bits clear a register that holds their word and no other one. -/
theorem feed_eq_zero_iff (crc : BitVec 6) (bits : List Bool) (hLength : bits.length = 6) :
    Coding.feed 3 crc bits = 0#6 ↔ ShifterIn.wordOf .unsignedBinary bits = crc := by
  obtain ⟨a, b, c, d, e, f, rfl⟩ : ∃ a b c d e f, bits = [a, b, c, d, e, f] := by
    match bits, hLength with
    | [a, b, c, d, e, f], _ => exact ⟨a, b, c, d, e, f, rfl⟩
  have hOwn := feed_wordOf a b c d e f
  have hSplit := Coding.feed_xor 3 [a, b, c, d, e, f] (List.replicate 6 false) rfl
    (ShifterIn.wordOf .unsignedBinary [a, b, c, d, e, f])
    (ShifterIn.wordOf .unsignedBinary [a, b, c, d, e, f] ^^^ crc)
  rw [hOwn, BitVec.zero_xor, ← BitVec.xor_assoc, BitVec.xor_self, BitVec.zero_xor,
    Coding.feed_replicate] at hSplit
  have hBits : List.zipWith xor [a, b, c, d, e, f] (List.replicate 6 false) = [a, b, c, d, e, f] := by
    simp [List.replicate]
  rw [hBits] at hSplit
  have hFixed : (Coding.turn 3)^[6] 0#6 = 0#6 := Function.iterate_fixed (Coding.turn_zero 3) 6
  rw [hSplit]
  constructor
  · intro hZero
    exact BitVec.xor_eq_zero_iff.mp
      (Coding.iterate_injective 3 (by decide) 6 (hZero.trans hFixed.symm))
  · rintro rfl
    rw [BitVec.xor_self, hFixed]

theorem zipWith_map_range (frame received : Nat → Bool) (count : Nat) :
    (List.range count).map received =
      List.zipWith xor ((List.range count).map frame)
        ((List.range count).map fun place => frame place ^^ received place) := by
  rw [List.zipWith_map, List.zipWith_self]
  refine List.map_congr_left fun place _ => ?_
  rw [← Bool.xor_assoc, Bool.xor_self, Bool.false_xor]

theorem out_xor (code flips : BitVec 6) : out (code ^^^ flips) = out code ^^^ flips := by
  refine BitVec.eq_of_getLsbD_eq fun place hPlace => ?_
  simp [out, hPlace]

/-- Whether the code is accepted depends on the inverted bits only. -/
theorem accepted_iff {frame received : Nat → Bool} {count : Nat} (hCoded : Coded frame count) :
    Accepted received count ↔
      Coding.feed 3 0#6 ((List.range (count + 6)).map fun place => frame place ^^ received place) =
        0#6 := by
  have hData : Coding.feed 3 0#6 ((List.range count).map received) =
      Coding.feed 3 0#6 ((List.range count).map frame) ^^^ Coding.feed 3 0#6
        ((List.range count).map fun place => frame place ^^ received place) := by
    rw [zipWith_map_range frame received count, ← Coding.feed_xor _ _ _ (by simp), BitVec.xor_zero]
  have hCode : (ShifterIn.wordOf .unsignedBinary
      ((List.range 6).map fun place => received (count + place)) : BitVec 6) =
      out (Coding.feed 3 0#6 ((List.range count).map frame)) ^^^ ShifterIn.wordOf .unsignedBinary
        ((List.range 6).map fun place => frame (count + place) ^^ received (count + place)) := by
    rw [zipWith_map_range (fun place => frame (count + place)) (fun place => received (count + place)),
      wordOf_xor _ _ (by simp), ← wordOf_checkBit]
    congr 2
    exact List.map_congr_left fun place hPlace => hCoded place (List.mem_range.mp hPlace)
  have hFlips : (List.range (count + 6)).map (fun place => frame place ^^ received place) =
      (List.range count).map (fun place => frame place ^^ received place) ++
        (List.range 6).map fun place => frame (count + place) ^^ received (count + place) := by
    rw [List.range_add, List.map_append, List.map_map]
    rfl
  rw [Accepted, hCode, hData, out_xor, BitVec.xor_right_inj, hFlips, Coding.feed_append,
    feed_eq_zero_iff _ _ (by simp)]

theorem accepted_of_intact {frame received : Nat → Bool} {count : Nat} (hCoded : Coded frame count)
    (hIntact : inverted frame received count = 0) : Accepted received count := by
  rw [accepted_iff hCoded, Coding.eq_replicate_of_count hIntact]
  exact Coding.feed_zero_replicate 3 _

theorem not_accepted_of_inverted {frame received : Nat → Bool} {count : Nat}
    (hCoded : Coded frame count) (hLength : count ≤ 57) (hOne : 1 ≤ inverted frame received count)
    (hTwo : inverted frame received count ≤ 2) : ¬ Accepted received count := by
  rw [accepted_iff hCoded]
  refine Coding.feed_flips_ne_zero 3 (by decide) hOne hTwo fun distance hSome hLess => ?_
  rw [List.length_map, List.length_range] at hLess
  exact period hSome (by omega)

end BissCrc

end Fpga
