import PandaBridge.Clocked.Run
import PandaBridge.Fpga.Fifo

/-! The FIFO as a bounded queue. What is held is what the write side has accepted since the last
reset and the read side has not yet transferred. -/
namespace Fpga.Fifo

variable {Data : Type} {bits : Nat}

/-- The word that a clock edge transfers at the read side, if any. -/
def transferred (s : State Data) (p : Ports Data) : Option Data :=
  if s.readValidO && p.readReady then some s.readDataO else none

section Words

variable (run : Clocked.Run (@Fifo.step Data bits))

/-- The words of an interface since the last reset. -/
def sinceReset (word : State Data → Ports Data → Option Data) : Nat → List Data
  | 0 => []
  | clock + 1 =>
      if (run.input clock).resetFifo then []
      else sinceReset word clock ++ (word (run.state clock) (run.input clock)).toList

def acceptedWords : Nat → List Data := sinceReset run accepted

def transferredWords : Nat → List Data := sinceReset run transferred

/-- The words that are held before a clock edge. -/
def heldWords (clock : Nat) : List Data :=
  (acceptedWords run clock).drop (transferredWords run clock).length

/-- A run is that of a queue with `2 ^ bits` places behind its output register. -/
structure IsQueue : Prop where
  /-- Words are transferred in the order in which they were accepted, each of them once. -/
  ordered : ∀ clock, transferredWords run clock <+: acceptedWords run clock
  /-- What is on show is the word that was accepted first. -/
  oldest : ∀ clock, (run.state clock).readValidO = true →
    (heldWords run clock).head? = some (run.state clock).readDataO
  stable : ∀ clock, (run.state clock).readValidO = true → (run.input clock).readReady = false →
    (run.input clock).resetFifo = false → (run.state (clock + 1)).readValidO = true ∧
      (run.state (clock + 1)).readDataO = (run.state clock).readDataO
  /-- No word that was accepted stays behind, if the reader is ready again and again. -/
  delivers : ∀ clock, (∀ later, clock ≤ later → (run.input later).resetFifo = false) →
    (∀ later, ∃ ready, later ≤ ready ∧ (run.input ready).readReady = true) →
    ∃ later, acceptedWords run clock <+: transferredWords run later
  /-- A word is refused only when the places are taken, or in the clock after a reset. -/
  accepts : ∀ clock, (run.input clock).resetFifo = false →
    (heldWords run (clock + 1)).length < 2 ^ bits → (run.state (clock + 1)).writeReadyO = true
  bounded : ∀ clock, (heldWords run clock).length ≤ 2 ^ bits + 1
  depth : ∀ clock, (run.state clock).fifoDepthO = (heldWords run clock).length

end Words

/-! ### The queue behind the signals -/

section Tracking

variable {run : Clocked.Run (@Fifo.step Data bits)}

/-- The words since the last reset are those that were transferred and those in the queue. -/
structure Tracks (run : Clocked.Run (@Fifo.step Data bits)) (clock : Nat)
    (q : Queue Data) : Prop where
  holds : Holds bits (run.state clock) q
  split : acceptedWords run clock = transferredWords run clock ++ q.entries

theorem Holds.transferred_eq {s : State Data} {q : Queue Data} (h : Holds bits s q)
    (p : Ports Data) :
    (transferred s p).toList = if p.readReady then q.shown.toList else [] := by
  rw [transferred, h.shown]
  cases s.readValidO <;> cases p.readReady <;> rfl

theorem Tracks.held {clock : Nat} {q : Queue Data} (h : Tracks run clock q) :
    heldWords run clock = q.entries := by
  rw [heldWords, h.split, List.drop_left]

theorem Tracks.start {zeros : Data} (hBoot : run.state 0 = .boot zeros) :
    Tracks run 0 .empty where
  holds := hBoot ▸ holds_boot zeros
  split := rfl

theorem Tracks.step {clock : Nat} {q : Queue Data} (h : Tracks run clock q) :
    Tracks run (clock + 1) (q.step (run.state clock) (run.input clock)) where
  holds := by
    rw [run.edge]
    exact h.holds.step _
  split := by
    cases hReset : (run.input clock).resetFifo with
    | true => simp [acceptedWords, transferredWords, sinceReset, Queue.step, hReset]
    | false =>
        have hTaken := q.entries_advance (run.input clock).readReady
        rw [← h.holds.transferred_eq] at hTaken
        have hSplit : sinceReset run accepted clock =
            sinceReset run transferred clock ++ q.entries := h.split
        simp only [acceptedWords, transferredWords, sinceReset, Queue.step, hReset,
          Bool.false_eq_true, if_false, Queue.entries_push]
        rw [hSplit, hTaken]
        simp only [List.append_assoc]

theorem exists_tracks {zeros : Data} (hBoot : run.state 0 = .boot zeros) (clock : Nat) :
    ∃ q, Tracks run clock q := by
  induction clock with
  | zero => exact ⟨_, Tracks.start hBoot⟩
  | succ clock ih =>
      obtain ⟨q, hTracks⟩ := ih
      exact ⟨_, hTracks.step⟩

theorem Holds.entries_length {s : State Data} {q : Queue Data} (h : Holds bits s q) :
    q.entries.length = q.stored.length + s.readValidO.toNat := by
  rw [Queue.entries, h.shown, List.length_append, Nat.add_comm]
  cases s.readValidO <;> rfl

/-! ### No word stays behind -/

/-- A word that is held is on show at the next clock, unless one is transferred now. -/
theorem Tracks.shows {clock : Nat} {q : Queue Data} (h : Tracks run clock q)
    (hReset : (run.input clock).resetFifo = false) (hSome : q.entries ≠ [])
    (hNone : transferred (run.state clock) (run.input clock) = none) :
    (run.state (clock + 1)).readValidO = true := by
  have hSame : q.advance (run.input clock).readReady = q.advance false := by
    have hTaken := h.holds.transferred_eq (run.input clock)
    rw [hNone] at hTaken
    cases hReady : (run.input clock).readReady with
    | false => rfl
    | true =>
        rw [hReady, if_pos rfl] at hTaken
        have hHidden : q.shown = none := Option.toList_eq_nil_iff.mp hTaken.symm
        simp [Queue.advance, hHidden]
  have hQueue : (q.step (run.state clock) (run.input clock)).shown = (q.advance false).shown := by
    simp [Queue.step, hReset, Queue.push, hSame]
  have hShown := Queue.shown_advance_idle hSome
  rw [← hQueue, h.step.holds.shown] at hShown
  cases hValid : (run.state (clock + 1)).readValidO with
  | true => rfl
  | false => simp [hValid] at hShown

theorem sinceReset_prefix (word : State Data → Ports Data → Option Data) {first last : Nat}
    (hOrder : first ≤ last)
    (hReset : ∀ clock, first ≤ clock → (run.input clock).resetFifo = false) :
    sinceReset run word first <+: sinceReset run word last := by
  induction last, hOrder using Nat.le_induction with
  | base => exact List.prefix_rfl
  | succ last hFirst ih =>
      rw [sinceReset, if_neg (by simp [hReset last hFirst])]
      exact ih.trans (List.prefix_append _ _)

theorem acceptedWords_initial {first last : Nat} (hOrder : first ≤ last)
    (hReset : ∀ clock, first ≤ clock → (run.input clock).resetFifo = false) :
    acceptedWords run first <+: acceptedWords run last :=
  sinceReset_prefix accepted hOrder hReset

theorem transferredWords_initial {first last : Nat} (hOrder : first ≤ last)
    (hReset : ∀ clock, first ≤ clock → (run.input clock).resetFifo = false) :
    transferredWords run first <+: transferredWords run last :=
  sinceReset_prefix transferred hOrder hReset

theorem transferredWords_succ {clock : Nat} (hReset : (run.input clock).resetFifo = false) :
    transferredWords run (clock + 1) =
      transferredWords run clock ++ (transferred (run.state clock) (run.input clock)).toList :=
  if_neg (by simp [hReset])

variable {zeros : Data} (hBoot : run.state 0 = .boot zeros)
include hBoot

theorem exists_transfer {clock : Nat}
    (hReset : ∀ later, clock ≤ later → (run.input later).resetFifo = false)
    (hReady : ∀ later, ∃ ready, later ≤ ready ∧ (run.input ready).readReady = true)
    (hFewer : (transferredWords run clock).length < (acceptedWords run clock).length) :
    ∃ later, clock ≤ later ∧
      (transferred (run.state later) (run.input later)).isSome = true := by
  by_contra hNever
  have hNone : ∀ later, clock ≤ later →
      transferred (run.state later) (run.input later) = none := fun later hLater => by
    by_contra hSome
    exact hNever ⟨later, hLater, Option.isSome_iff_ne_none.mpr hSome⟩
  have hHeld : ∀ later, clock ≤ later →
      (transferredWords run later).length < (acceptedWords run later).length := by
    intro later hLater
    induction later, hLater using Nat.le_induction with
    | base => exact hFewer
    | succ later hLater ih =>
        have hMore := (acceptedWords_initial (Nat.le_succ later)
          fun c hc => hReset c (hLater.trans hc)).length_le
        have hStill : transferredWords run (later + 1) = transferredWords run later := by
          rw [transferredWords_succ (hReset later hLater), hNone later hLater, Option.toList_none,
            List.append_nil]
        rw [hStill]
        exact ih.trans_le hMore
  obtain ⟨ready, hAfter, hTakes⟩ := hReady (clock + 1)
  obtain ⟨before, rfl⟩ : ∃ before, ready = before + 1 := ⟨ready - 1, by omega⟩
  obtain ⟨q, hTracks⟩ := exists_tracks hBoot before
  have hSome : q.entries ≠ [] := by
    intro hEmpty
    have hLess := hHeld before (by omega)
    rw [hTracks.split, hEmpty, List.append_nil] at hLess
    exact Nat.lt_irrefl _ hLess
  have hValid := hTracks.shows (hReset before (by omega)) hSome (hNone before (by omega))
  have hTransfer := hNone (before + 1) (by omega)
  simp [transferred, hValid, hTakes] at hTransfer

/-- As many words as were accepted at a clock are transferred in the end. -/
theorem transfers_all {clock : Nat}
    (hReset : ∀ later, clock ≤ later → (run.input later).resetFifo = false)
    (hReady : ∀ later, ∃ ready, later ≤ ready ∧ (run.input ready).readReady = true)
    (count : Nat) (hCount : count ≤ (acceptedWords run clock).length) :
    ∃ later, clock ≤ later ∧ count ≤ (transferredWords run later).length := by
  induction count with
  | zero => exact ⟨clock, Nat.le_refl _, Nat.zero_le _⟩
  | succ count ih =>
      obtain ⟨later, hLater, hFewer⟩ := ih (Nat.le_of_succ_le hCount)
      by_cases hDone : count < (transferredWords run later).length
      · exact ⟨later, hLater, hDone⟩
      · have hMore := (acceptedWords_initial hLater hReset).length_le
        obtain ⟨next, hNext, hSome⟩ := exists_transfer hBoot
          (fun c hc => hReset c (hLater.trans hc)) hReady (by omega : _ < _)
        have hGrown := (transferredWords_initial hNext
          fun c hc => hReset c (hLater.trans hc)).length_le
        obtain ⟨word, hWord⟩ := Option.isSome_iff_exists.mp hSome
        refine ⟨next + 1, by omega, ?_⟩
        rw [transferredWords_succ (hReset next (hLater.trans hNext)), hWord, List.length_append]
        exact Nat.succ_le_succ (hFewer.trans hGrown)

/-! ### The bounded queue -/

/-- With an address bit the signals are those of a bounded queue. -/
theorem isQueue (hBits : 0 < bits) : IsQueue run where
  ordered clock := by
    obtain ⟨q, hTracks⟩ := exists_tracks hBoot clock
    rw [hTracks.split]
    exact List.prefix_append _ _
  oldest clock hValid := by
    obtain ⟨q, hTracks⟩ := exists_tracks hBoot clock
    have hShown := hTracks.holds.shown
    rw [hValid, if_pos rfl] at hShown
    rw [hTracks.held, Queue.entries, hShown]
    rfl
  stable clock hValid hReady hReset := by
    obtain ⟨q, hTracks⟩ := exists_tracks hBoot clock
    have hEnable : readEnable (run.state clock) (run.input clock) = false := by
      simp [readEnable, hValid, hReady]
    rw [run.edge]
    simp [step, nextReadValid, hReset, hEnable, hReady, hValid]
  delivers clock hReset hReady := by
    obtain ⟨later, hLater, hAll⟩ := transfers_all hBoot hReset hReady _ (Nat.le_refl _)
    obtain ⟨q, hTracks⟩ := exists_tracks hBoot later
    refine ⟨later, List.prefix_of_prefix_length_le (acceptedWords_initial hLater hReset) ?_ hAll⟩
    rw [hTracks.split]
    exact List.prefix_append _ _
  accepts clock hReset hRoom := by
    obtain ⟨q, hTracks⟩ := exists_tracks hBoot clock
    have hStored : (q.step (run.state clock) (run.input clock)).stored.length < 2 ^ bits := by
      rw [hTracks.step.held, Queue.entries, List.length_append] at hRoom
      omega
    rw [run.edge]
    exact (hTracks.holds.writeReady_step hReset).mpr hStored
  bounded clock := by
    obtain ⟨q, hTracks⟩ := exists_tracks hBoot clock
    have hCapacity := hTracks.holds.capacity
    have hShown := Bool.toNat_le (run.state clock).readValidO
    rw [hTracks.held, hTracks.holds.entries_length]
    omega
  depth clock := by
    obtain ⟨q, hTracks⟩ := exists_tracks hBoot clock
    rw [hTracks.held, hTracks.holds.depth_eq hBits]

end Tracking

/-! ### Without an address bit -/

/-- A word is written in the first clock in which one is accepted, and in the first one after it
was shown. Nothing is read. -/
def twoWrites (word : Data) (clock : Nat) : Ports Data where
  resetFifo := false
  writeValid := clock == 1 || clock == 3
  writeData := word
  readReady := false

/-- The depth of one bit cannot count the word in the memory and the word on show. -/
theorem not_isQueue_zero (zeros : Data) :
    ¬ IsQueue (Clocked.Run.ofInputs (step 0) (.boot zeros) (twoWrites zeros)) := by
  intro hQueue
  have hDepth := hQueue.depth 4
  have hZero : ((Clocked.Run.ofInputs (step 0) (.boot zeros) (twoWrites zeros)).state 4).fifoDepthO
      = 0 := by
    simp [Clocked.Run.ofInputs, Clocked.statesFrom, step, twoWrites, State.boot, nextWritePointer,
      nextReadPointer, readEnable, nextReadValid]
  have hHeld : heldWords (Clocked.Run.ofInputs (step 0) (.boot zeros) (twoWrites zeros)) 4 =
      [zeros, zeros] := by
    simp [heldWords, acceptedWords, transferredWords, sinceReset, accepted, transferred,
      Clocked.Run.ofInputs, Clocked.statesFrom, step, twoWrites, State.boot, nextWritePointer,
      nextReadPointer, readEnable, nextReadValid]
  rw [hZero, hHeld] at hDepth
  exact absurd hDepth (by simp)

/-- The FIFO is a queue of `2 ^ FIFO_BITS + 1` words with its depth, for every pattern of its
inputs, exactly when it has an address bit. -/
theorem fifo_refines_queue_iff (bits : Nat) (zeros : Data) :
    (∀ inputs, IsQueue (Clocked.Run.ofInputs (step bits) (.boot zeros) inputs)) ↔ 0 < bits := by
  constructor
  · intro hAll
    by_contra hNone
    obtain rfl := Nat.eq_zero_of_not_pos hNone
    exact not_isQueue_zero zeros (hAll (twoWrites zeros))
  · intro hBits inputs
    exact isQueue rfl hBits

/-- A FIFO of bytes with `FIFO_BITS = 0` that holds two words says that it holds none. -/
theorem two_words_not_counted :
    ((Clocked.Run.ofInputs (step 0) (.boot (0 : BitVec 8)) (twoWrites 5)).state 4).fifoDepthO = 0 ∧
    heldWords (Clocked.Run.ofInputs (step 0) (.boot (0 : BitVec 8)) (twoWrites 5)) 4 = [5, 5] ∧
    ¬ IsQueue (Clocked.Run.ofInputs (step 0) (.boot (0 : BitVec 8)) (twoWrites 5)) := by
  refine ⟨rfl, rfl, fun hQueue => ?_⟩
  exact absurd (hQueue.depth 4) (by decide)

end Fpga.Fifo
