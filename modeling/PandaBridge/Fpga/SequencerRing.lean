import PandaBridge.Fpga.SequencerRun

/-! A table that the ring holds as a whole is always available from it. -/
namespace Fpga.Seq

open Clocked

variable {table : List SeqFrame} {run : Clocked.Run step}

/-- The frames of the table are in the memory, and one of them is on show. -/
structure Loaded (table : List SeqFrame) (ring : SequencerRingTable.State addressWidth) :
    Prop where
  written : (SequencerRingTable.place ring.waddr).toNat = table.length
  frames : ∀ line : Fin table.length,
    SequencerRingTable.frameOf (ring.mem (BitVec.ofNat _ line)) = table.get line
  last : ∀ line : Fin table.length,
    SequencerRingTable.lastOf (ring.mem (BitVec.ofNat _ line)) = true → line + 1 = table.length
  reading : ring.raddr.toNat < table.length
  shown : ring.seqDout = ring.mem ring.raddr
  valid : ring.frameValidO = true

namespace Loaded

variable {ring : SequencerRingTable.State addressWidth} {ports : SequencerRingTable.Ports}

theorem length_lt (h : Loaded table ring) : table.length < seqFrames := by
  rw [← h.written]
  exact (SequencerRingTable.place ring.waddr).isLt

/-- What the read side does with a table that stays. -/
theorem raddr_step (h : Loaded table ring) (hWrapping : ports.wrappingMode = true)
    (hData : ports.dataValid = false) :
    (SequencerRingTable.step ring ports).raddr.toNat =
      if ports.reset then 0
      else if ports.frameReady then (ring.raddr.toNat + 1) % table.length
      else ring.raddr.toNat := by
  have hWaddr : SequencerRingTable.nextWaddr ring ports = ring.waddr := by
    rw [SequencerRingTable.nextWaddr, hWrapping, hData, Bool.not_true, Bool.and_false,
      if_neg Bool.false_ne_true, Bool.false_and, if_neg Bool.false_ne_true]
  show (SequencerRingTable.nextRaddr ring ports).toNat = _
  rw [SequencerRingTable.nextRaddr, hWaddr, hWrapping, h.valid, Bool.true_and, Bool.and_true]
  have hReading := h.reading
  have hLength := h.length_lt
  have hWritten := h.written
  have hNext : (ring.raddr + 1).toNat = ring.raddr.toNat + 1 := by
    rw [BitVec.toNat_add]
    show (ring.raddr.toNat + 1) % 4096 = _
    unfold seqFrames at hLength
    omega
  have hWraps : (ring.raddr + 1 == SequencerRingTable.place ring.waddr) = true ↔
      ring.raddr.toNat + 1 = table.length := by
    rw [beq_iff_eq, BitVec.toNat_eq, hNext, hWritten]
  cases ports.reset with
  | true => rfl
  | false =>
      cases ports.frameReady with
      | false => rfl
      | true =>
          show (if ring.raddr + 1 == SequencerRingTable.place ring.waddr then 0
            else ring.raddr + 1 : BitVec addressWidth).toNat =
              (ring.raddr.toNat + 1) % table.length
          by_cases hEnd : ring.raddr.toNat + 1 = table.length
          · rw [if_pos (hWraps.mpr hEnd), hEnd, Nat.mod_self]
            rfl
          · rw [if_neg (mt hWraps.mp hEnd), hNext, Nat.mod_eq_of_lt (by omega)]

theorem kept (h : Loaded table ring) (hWrapping : ports.wrappingMode = true)
    (hData : ports.dataValid = false) :
    Loaded table (SequencerRingTable.step ring ports) := by
  have hSome : 0 < table.length := Nat.zero_lt_of_lt h.reading
  have hWrites : SequencerRingTable.writes ring ports = false := by
    rw [SequencerRingTable.writes, hData, Bool.false_and, Bool.and_false]
  have hMem : SequencerRingTable.nextMem ring ports = ring.mem := by
    rw [SequencerRingTable.nextMem, hWrites, Bool.false_and, if_neg Bool.false_ne_true]
  have hWaddr : SequencerRingTable.nextWaddr ring ports = ring.waddr := by
    rw [SequencerRingTable.nextWaddr, hWrapping, hData, Bool.not_true, Bool.and_false,
      if_neg Bool.false_ne_true, Bool.false_and, if_neg Bool.false_ne_true]
  constructor
  · show (SequencerRingTable.place (SequencerRingTable.nextWaddr ring ports)).toNat = _
    rw [hWaddr, h.written]
  · intro line
    show SequencerRingTable.frameOf (SequencerRingTable.nextMem ring ports _) = _
    rw [hMem]
    exact h.frames line
  · intro line hLast
    apply h.last line
    rw [← hMem]
    exact hLast
  · rw [h.raddr_step hWrapping hData]
    split_ifs
    · exact hSome
    · exact Nat.mod_lt _ hSome
    · exact h.reading
  · show ring.mem (SequencerRingTable.nextRaddr ring ports) = SequencerRingTable.nextMem ring ports
      (SequencerRingTable.nextRaddr ring ports)
    rw [hMem]
  · show (if ports.wrappingMode then SequencerRingTable.place ring.waddr != 0 else _) = true
    rw [hWrapping, if_pos rfl, bne_iff_ne]
    intro hZero
    have := h.written
    rw [hZero] at this
    exact absurd this hSome.ne

theorem shows {s : State} (h : Loaded table s.ring) :
    NextIs s ⟨s.ring.raddr.toNat, h.reading⟩ := by
  have hAddress : BitVec.ofNat addressWidth s.ring.raddr.toNat = s.ring.raddr := by
    rw [BitVec.ofNat_toNat, BitVec.setWidth_eq]
  have hFrame : SequencerRingTable.frameOf (s.ring.mem (BitVec.ofNat _ s.ring.raddr.toNat)) =
      table.get ⟨s.ring.raddr.toNat, h.reading⟩ := h.frames ⟨s.ring.raddr.toNat, h.reading⟩
  have hLast : SequencerRingTable.lastOf (s.ring.mem (BitVec.ofNat _ s.ring.raddr.toNat)) = true →
      s.ring.raddr.toNat + 1 = table.length := h.last ⟨s.ring.raddr.toNat, h.reading⟩
  rw [hAddress, ← h.shown] at hFrame hLast
  exact ⟨hFrame, hLast⟩

end Loaded

/-- Nothing but the sequencer works on the ring table. -/
structure Undisturbed (run : Clocked.Run step) (table : List SeqFrame) : Prop where
  fixed : ∀ clock, Fixed table (run.input clock)
  noData : ∀ clock, (run.input clock).dmaValid = false
  notResetting : ∀ clock, (run.input clock).resetting = false

/-- Without an error a state keeps its table. -/
theorem loaded_step {s : State} {i : Input} (hLoaded : Loaded table s.ring)
    (hAbort : s.abortDma = false) (hFixed : Fixed table i) (hData : i.dmaValid = false)
    (hResetting : i.resetting = false) :
    wrappingMode s i = true ∧ Loaded table (step s i).ring ∧ (step s i).abortDma = false := by
  have hWrap : wrappingMode s i = true := by
    rw [wrappingMode, resettingDma, hAbort, hResetting, hFixed.frames, hFixed.oneBuffer,
      decide_eq_true hLoaded.length_lt]
    rfl
  have hError : errorEvent s i = false := by
    rw [errorEvent, underrunEvent, frameValid, hLoaded.valid, hFixed.noOverrun, Bool.not_true,
      Bool.and_false]
    rfl
  refine ⟨hWrap, hLoaded.kept hWrap hData, ?_⟩
  cases hFall : enableFall s i with
  | true =>
      rw [(stop_spec hFall hError).2.2.1, hWrap]
      exact Bool.and_false _
  | false => exact (Goes.mk hFall hError).clears.1

theorem loaded_run (hLoaded : Loaded table (run.state 0).ring)
    (hAbort : (run.state 0).abortDma = false) (hQuiet : Undisturbed run table) (clock : Nat) :
    Loaded table (run.state clock).ring ∧ (run.state clock).abortDma = false := by
  induction clock with
  | zero => exact ⟨hLoaded, hAbort⟩
  | succ clock ih =>
      rw [run.edge clock]
      exact (loaded_step ih.1 ih.2 (hQuiet.fixed clock) (hQuiet.noData clock)
        (hQuiet.notResetting clock)).2

theorem available_of_loaded (hLoaded : Loaded table (run.state 0).ring)
    (hFirst : (run.state 0).ring.raddr = 0) (hAbort : (run.state 0).abortDma = false)
    (hQuiet : Undisturbed run table) : Available run table := by
  have hAll := loaded_run hLoaded hAbort hQuiet
  have hStep (clock : Nat) := loaded_step (hAll clock).1 (hAll clock).2 (hQuiet.fixed clock)
    (hQuiet.noData clock) (hQuiet.notResetting clock)
  have hRaddr (clock : Nat) : (run.state (clock + 1)).ring.raddr.toNat =
      if ringReset (run.state clock) (run.input clock) then 0
      else if loadNext (run.state clock) (run.input clock) then
        ((run.state clock).ring.raddr.toNat + 1) % table.length
      else (run.state clock).ring.raddr.toNat := by
    rw [run.edge clock]
    exact (hAll clock).1.raddr_step (hStep clock).1 (hQuiet.noData clock)
  constructor
  · exact hQuiet.fixed
  · refine ⟨fun clock => ⟨(run.state clock).ring.raddr.toNat, (hAll clock).1.reading⟩,
      ?_, ?_, ?_, ?_⟩
    · show (run.state 0).ring.raddr.toNat = 0
      rw [hFirst]
      rfl
    · intro clock _
      exact (hAll clock).1.shows
    · intro clock hReset
      show (run.state (clock + 1)).ring.raddr.toNat = 0
      rw [hRaddr clock, if_pos hReset]
    · intro clock hReset
      apply Fin.ext
      show (run.state (clock + 1)).ring.raddr.toNat = _
      rw [hRaddr clock, hReset, if_neg Bool.false_ne_true, frameValid, (hAll clock).1.valid, Bool.and_true]
      split_ifs <;> rfl
  · intro clock _
    exact (hAll clock).1.valid
  · intro clock _
    exact hQuiet.notResetting clock

end Fpga.Seq
