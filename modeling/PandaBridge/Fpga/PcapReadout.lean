import PandaBridge.Fpga.PcapCore

/-! The capture list and its readout. Each trigger reads the list once, as long as the next one
waits for the end of the list. -/
namespace Fpga.PcapBuffer

open PcapFrame (ModeTsBits)

variable {b : State} {i : Input}

/-- The memory holds the list from its first word on. The length register is one clock late. -/
structure Listed (entries : List (BitVec 32)) (b : State) : Prop where
  mem : ∀ k (hEntry : k < entries.length),
    b.mem (BitVec.ofNat 6 k) = (entries[k]).setWidth 10
  addra : b.maskAddra = BitVec.ofNat 6 entries.length

theorem Listed.start (hStart : i.startWrite = true) : Listed [] (step b i) := by
  refine ⟨fun k hEntry => absurd hEntry (Nat.not_lt_zero k), ?_⟩
  simp [step, hStart]

theorem Listed.write {entries : List (BitVec 32)} (h : Listed entries b)
    (hRoom : entries.length < 64) (hStart : i.startWrite = false) (hWrite : i.writeWstb = true) :
    Listed (entries ++ [i.write]) (step b i) := by
  have hMem : (step b i).mem =
      Function.update b.mem (BitVec.ofNat 6 entries.length) (i.write.setWidth 10) := by
    simp [step, hWrite, h.addra]
  refine ⟨fun k hEntry => ?_, ?_⟩
  · rw [hMem]
    rw [List.length_append, List.length_singleton] at hEntry
    rcases Nat.lt_succ_iff_lt_or_eq.mp hEntry with hOld | rfl
    · have hOther : BitVec.ofNat 6 k ≠ BitVec.ofNat 6 entries.length := by
        intro hSame
        have := congrArg BitVec.toNat hSame
        rw [BitVec.toNat_ofNat, BitVec.toNat_ofNat] at this
        omega
      rw [Function.update_of_ne hOther, h.mem k hOld, List.getElem_append_left hOld]
    · rw [Function.update_self, List.getElem_concat_length rfl]
  · have hAddra : (step b i).maskAddra = b.maskAddra + 1 := by simp [step, hStart, hWrite]
    rw [hAddra, h.addra, List.length_append, List.length_singleton, BitVec.ofNat_add]
    rfl

theorem Listed.keep {entries : List (BitVec 32)} (h : Listed entries b)
    (hStart : i.startWrite = false) (hWrite : i.writeWstb = false) :
    Listed entries (step b i) := by
  have hMem : (step b i).mem = b.mem := by simp [step, hWrite]
  have hAddra : (step b i).maskAddra = b.maskAddra := by simp [step, hStart, hWrite]
  refine ⟨fun k hEntry => ?_, ?_⟩
  · rw [hMem, h.mem k hEntry]
  · rw [hAddra, h.addra]

theorem Listed.length_step {entries : List (BitVec 32)} (h : Listed entries b) :
    (step b i).maskLength = BitVec.ofNat 6 entries.length := h.addra

/-- What has been read out by a clock, for triggers that come at the clocks `trig`. -/
structure Readout (entries : List (BitVec 32)) (trig : Nat → Prop) (clock : Nat) (b : State) :
    Prop where
  listed : Listed entries b
  length : b.maskLength = BitVec.ofNat 6 entries.length
  reading : ∀ s, trig s → s < clock → clock < s + entries.length →
    b.ongoingTrig = true ∧ b.maskAddrb = BitVec.ofNat 6 (clock - s)
  waiting : (∀ s, trig s → s < clock → s + entries.length ≤ clock) →
    b.ongoingTrig = false ∧ b.maskAddrb = 0
  doutb : ∀ s, trig s → s < clock → clock ≤ s + entries.length →
    b.maskDoutb = b.mem (BitVec.ofNat 6 (clock - 1 - s))
  trigDly : b.trigDly = true ↔ ∃ s, trig s ∧ s + 1 = clock
  ongoingDly : b.ongoingTrigDly = true ↔
    ∃ s, trig s ∧ s + 2 ≤ clock ∧ clock ≤ s + entries.length
  valid : b.pcapDatValidO = true ↔
    ∃ s, trig s ∧ s + 2 ≤ clock ∧ clock ≤ s + entries.length + 1
  error : b.errorO = false

theorem Readout.reset {entries : List (BitVec 32)} {trig : Nat → Prop} {clock : Nat}
    (hListed : Listed entries b) (hReset : i.reset = true) (hStart : i.startWrite = false)
    (hWrite : i.writeWstb = false) (hNone : ∀ s, trig s → clock < s) :
    Readout entries trig (clock + 1) (step b i) := by
  have hNever : ∀ s, trig s → ¬ s < clock + 1 := fun s hTrig => by
    have := hNone s hTrig
    omega
  refine ⟨hListed.keep hStart hWrite, hListed.length_step, fun s hTrig hBefore => ?_, fun _ => ?_,
    fun s hTrig hBefore => ?_, ?_, ?_, ?_, ?_⟩
  · exact absurd hBefore (hNever s hTrig)
  · simp [step, readoutReset, hReset]
  · exact absurd hBefore (hNever s hTrig)
  · have hOff : (step b i).trigDly = false := by simp [step, readoutReset, hReset]
    rw [hOff]
    refine ⟨fun h => absurd h Bool.false_ne_true, fun ⟨s, hTrig, hAt⟩ => ?_⟩
    exact absurd (by omega) (hNever s hTrig)
  · have hOff : (step b i).ongoingTrigDly = false := by simp [step, readoutReset, hReset]
    rw [hOff]
    refine ⟨fun h => absurd h Bool.false_ne_true, fun ⟨s, hTrig, hAt⟩ => ?_⟩
    exact absurd (by omega) (hNever s hTrig)
  · have hOff : (step b i).pcapDatValidO = false := by simp [step, readoutReset, hReset]
    rw [hOff]
    refine ⟨fun h => absurd h Bool.false_ne_true, fun ⟨s, hTrig, hAt⟩ => ?_⟩
    exact absurd (by omega) (hNever s hTrig)
  · simp [step, readoutReset, hReset]

section Step

variable {entries : List (BitVec 32)} {trig : Nat → Prop} {clock : Nat}
  (h : Readout entries trig clock b)
include h

theorem Readout.cases :
    (∃ s, trig s ∧ s < clock ∧ clock < s + entries.length ∧ b.ongoingTrig = true ∧
      b.maskAddrb = BitVec.ofNat 6 (clock - s)) ∨
    ((∀ s, trig s → s < clock → s + entries.length ≤ clock) ∧ b.ongoingTrig = false ∧
      b.maskAddrb = 0) := by
  by_cases hReading : ∃ s, trig s ∧ s < clock ∧ clock < s + entries.length
  · obtain ⟨s, hTrig, hBefore, hWithin⟩ := hReading
    exact .inl ⟨s, hTrig, hBefore, hWithin, h.reading s hTrig hBefore hWithin⟩
  · have hDone : ∀ s, trig s → s < clock → s + entries.length ≤ clock := by
      intro s hTrig hBefore
      by_contra hNot
      exact hReading ⟨s, hTrig, hBefore, by omega⟩
    exact .inr ⟨hDone, h.waiting hDone⟩

/-- A position in the list is the last one exactly when the next is the length. -/
theorem Readout.atLast_iff (hLength : 1 ≤ entries.length ∧ entries.length ≤ 64) {k : Nat}
    (hPosition : k < entries.length) (hAddrb : b.maskAddrb = BitVec.ofNat 6 k) :
    atLast b = true ↔ k + 1 = entries.length := by
  rw [atLast, beq_iff_eq, hAddrb, h.length, ← BitVec.toNat_inj]
  bv_omega

theorem Readout.ongoing_iff :
    b.ongoingTrig = true ↔ ∃ s, trig s ∧ s + 1 ≤ clock ∧ clock + 1 ≤ s + entries.length := by
  rcases h.cases with ⟨s, hAt, hBefore, hWithin, hOngoing, _⟩ | ⟨hDone, hOngoing, _⟩
  · exact ⟨fun _ => ⟨s, hAt, hBefore, hWithin⟩, fun _ => hOngoing⟩
  · rw [hOngoing]
    refine ⟨fun hOn => absurd hOn Bool.false_ne_true, fun ⟨s, hAt, hBefore, hWithin⟩ => ?_⟩
    have := hDone s hAt hBefore
    omega

theorem Readout.addrb_eq
    (hSpaced : trig clock → ∀ s, trig s → s < clock → s + entries.length ≤ clock) (s : Nat)
    (hAt : trig s) (hBefore : s < clock + 1) (hWithin : clock + 1 ≤ s + entries.length) :
    b.maskAddrb = BitVec.ofNat 6 (clock - s) := by
  rcases Nat.lt_succ_iff_lt_or_eq.mp hBefore with hOld | rfl
  · exact (h.reading s hAt hOld (by omega)).2
  · rw [Nat.sub_self]
    exact (h.waiting (hSpaced hAt)).2

variable (hLength : 1 ≤ entries.length ∧ entries.length ≤ 64) (hReset : i.reset = false)
include hLength hReset

theorem Readout.too_close {s : Nat} (hEarlier : trig s) (hBefore : s < clock)
    (hWithin : clock < s + entries.length) (hTrig : i.trig = true) :
    (step b i).errorO = true := by
  obtain ⟨hOngoing, hAddrb⟩ := h.reading s hEarlier hBefore hWithin
  have hInside : b.maskAddrb ≤ b.maskLength - 1 := by
    rw [hAddrb, h.length]
    have hPosition : clock - s < entries.length := by omega
    bv_omega
  simp only [step, readout, hReset, hOngoing, hTrig, decide_eq_true hInside, Bool.and_self,
    Bool.false_eq_true, if_true, if_false]

theorem Readout.valid_step :
    (PcapBuffer.step b i).pcapDatValidO = true ↔
      ∃ s, trig s ∧ s + 2 ≤ clock + 1 ∧ clock + 1 ≤ s + entries.length + 1 := by
  have hValid : (PcapBuffer.step b i).pcapDatValidO = (b.trigDly || b.ongoingTrigDly) := by
    simp [PcapBuffer.step, readout, hReset]
  rw [hValid, Bool.or_eq_true, h.trigDly, h.ongoingDly, ← exists_or]
  refine exists_congr fun s => ?_
  rw [← and_or_left]
  refine and_congr_right fun _ => ?_
  omega

variable (hTrig : i.trig = true ↔ trig clock)
include hTrig

theorem Readout.step_reading
    (hSpaced : trig clock → ∀ s, trig s → s < clock → s + entries.length ≤ clock) (s : Nat)
    (hAt : trig s) (hBefore : s < clock + 1)
    (hWithin : clock + 1 < s + entries.length) :
    (step b i).ongoingTrig = true ∧
      (step b i).maskAddrb = BitVec.ofNat 6 (clock + 1 - s) := by
  rcases Nat.lt_succ_iff_lt_or_eq.mp hBefore with hOld | rfl
  · obtain ⟨hOngoing, hAddrb⟩ := h.reading s hAt hOld (by omega)
    have hNotLast : atLast b = false := by
      rw [← Bool.not_eq_true, h.atLast_iff hLength (by omega) hAddrb]
      omega
    refine ⟨?_, ?_⟩
    · simp [step, readout, hReset, hNotLast, hOngoing]
    · have hNext : (step b i).maskAddrb = b.maskAddrb + 1 := by
        simp [step, readout, hReset, hNotLast, hOngoing]
      have hSum : clock + 1 - s = clock - s + 1 := by omega
      rw [hNext, hAddrb, hSum, BitVec.ofNat_add]
      rfl
  · obtain ⟨_, hAddrb⟩ := h.waiting (hSpaced hAt)
    have hNow := hTrig.mpr hAt
    have hNotLast : atLast b = false := by
      rw [← Bool.not_eq_true, h.atLast_iff hLength (k := 0) (by omega) hAddrb]
      omega
    refine ⟨?_, ?_⟩
    · simp [step, readout, hReset, hNotLast, hNow, hAddrb]
    · have hNext : (step b i).maskAddrb = b.maskAddrb + 1 := by
        simp [step, readout, hReset, hNotLast, hNow]
      rw [hNext, hAddrb, Nat.add_sub_cancel_left]
      rfl

theorem Readout.step_waiting
    (hDone : ∀ s, trig s → s < clock + 1 → s + entries.length ≤ clock + 1) :
    (step b i).ongoingTrig = false ∧ (step b i).maskAddrb = 0 := by
  rcases h.cases with ⟨s, hAt, hBefore, hWithin, hOngoing, hAddrb⟩ | ⟨_, hOngoing, hAddrb⟩
  · have hEnd := hDone s hAt (by omega)
    have hLast : atLast b = true := by
      rw [h.atLast_iff hLength (by omega) hAddrb]
      omega
    simp [step, readout, hReset, hLast, hOngoing]
  · cases hNow : i.trig with
    | false => simp [step, readout, hReset, hNow, hOngoing, hAddrb]
    | true =>
        have hOne := hDone clock (hTrig.mp hNow) (by omega)
        have hLast : atLast b = true := by
          rw [h.atLast_iff hLength (k := 0) (by omega) hAddrb]
          omega
        simp [step, readout, hReset, hLast, hNow]

theorem Readout.step
    (hSpaced : trig clock → ∀ s, trig s → s < clock → s + entries.length ≤ clock)
    (hStart : i.startWrite = false) (hWrite : i.writeWstb = false) :
    Readout entries trig (clock + 1) (step b i) := by
  have hMem : (PcapBuffer.step b i).mem = b.mem := by simp [PcapBuffer.step, hWrite]
  refine ⟨h.listed.keep hStart hWrite, h.listed.length_step,
    h.step_reading hLength hReset hTrig hSpaced, h.step_waiting hLength hReset hTrig,
    fun s hAt hBefore hWithin => ?_, ?_, ?_, h.valid_step hLength hReset, ?_⟩
  · have hDoutb : (PcapBuffer.step b i).maskDoutb = b.mem b.maskAddrb := rfl
    rw [hDoutb, hMem, h.addrb_eq hSpaced s hAt hBefore hWithin,
      Nat.add_sub_cancel]
  · have hDly : (PcapBuffer.step b i).trigDly = i.trig := by
      simp [PcapBuffer.step, readout, hReset]
    rw [hDly, hTrig]
    exact ⟨fun hNow => ⟨clock, hNow, rfl⟩, fun ⟨s, hAt, hSame⟩ => Nat.succ.inj hSame ▸ hAt⟩
  · have hDly : (PcapBuffer.step b i).ongoingTrigDly = b.ongoingTrig := by
      simp [PcapBuffer.step, readout, hReset]
    rw [hDly, h.ongoing_iff]
    refine exists_congr fun s => and_congr_right fun _ => ?_
    omega
  · rcases h.cases with ⟨s, hAt, hBefore, hWithin, hOngoing, _⟩ | ⟨_, hOngoing, _⟩
    · have hNow : i.trig = false := by
        refine Bool.eq_false_iff.mpr fun hNow => ?_
        have := hSpaced (hTrig.mp hNow) s hAt hBefore
        omega
      simp [PcapBuffer.step, readout, hReset, hOngoing, hNow, h.error]
    · simp [PcapBuffer.step, readout, hReset, hOngoing, h.error]

end Step

end Fpga.PcapBuffer
