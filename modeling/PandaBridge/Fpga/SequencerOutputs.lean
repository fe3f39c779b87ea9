import PandaBridge.Clocked.Run
import PandaBridge.Fpga.Sequencer

/-! When the outputs of the SEQ block can be high, in any mode and whatever the table, the triggers
and the errors are. -/
namespace Fpga.Seq

open Clocked

/-- The states in which a table is played. -/
def Sm.isPlaying : Sm → Bool
  | .unready | .waitEnable => false
  | .waitTrigger | .phase1 | .phase2 => true

/-- The block is active while it plays a table, and otherwise its outputs are low. -/
structure GoesOn (s : State) : Prop where
  active : s.active = s.seqSm.isPlaying
  low : s.active = false → s.outVal = 0

/-- It plays a table only if it was enabled. -/
structure Quiet (s : State) : Prop extends GoesOn s where
  enabled : s.active = true → s.enablePrev = true

variable {s : State} {i : Input}

theorem gotoNextState_plays (needNextFrame considerTriggers : Bool) :
    (gotoNextState s i needNextFrame considerTriggers).seqSm.isPlaying = true ∧
      (gotoNextState s i needNextFrame considerTriggers).active = s.active := by
  have hFrame : ∀ (s : State) frame triggered,
      (gotoFrame s frame triggered considerTriggers).seqSm.isPlaying = true ∧
        (gotoFrame s frame triggered considerTriggers).active = s.active := by
    intro s frame triggered
    unfold gotoFrame
    split_ifs
    · exact ⟨rfl, rfl⟩
    · exact ⟨rfl, rfl⟩
    · exact ⟨rfl, rfl⟩
  unfold gotoNextState
  split_ifs
  · exact hFrame _ _ _
  · exact hFrame _ _ _

theorem stop_quiet : (stop s i).active = false ∧ (stop s i).outVal = 0 ∧
    (stop s i).seqSm.isPlaying = false := by
  have hIdle : (s.seqSm != .unready && s.seqSm != .waitEnable) = s.seqSm.isPlaying := by
    cases s.seqSm <;> rfl
  unfold stop
  rw [hIdle]
  split_ifs with hPlays hWraps
  · exact ⟨rfl, rfl, rfl⟩
  · exact ⟨rfl, rfl, rfl⟩
  · exact ⟨rfl, rfl, Bool.eq_false_iff.mpr hPlays⟩

theorem goesOn_of_playing (hActive : s.active = true) (hPlays : s.seqSm.isPlaying = true) :
    GoesOn s :=
  ⟨hActive.trans hPlays.symm, fun hNot => absurd (hActive.symm.trans hNot) (by decide)⟩

theorem goesOn_gotoNextState (hActive : s.active = true) (needNextFrame considerTriggers : Bool) :
    GoesOn (gotoNextState s i needNextFrame considerTriggers) :=
  have hNext := gotoNextState_plays needNextFrame considerTriggers
  goesOn_of_playing (hNext.2.trans hActive) hNext.1

theorem goesOn_lineEnd (hActive : s.active = true) : GoesOn (lineEnd s i) := by
  unfold lineEnd
  split_ifs
  · exact ⟨rfl, fun _ => rfl⟩
  · exact ⟨rfl, fun _ => rfl⟩
  all_goals exact goesOn_gotoNextState (by exact hActive) _ _

/-- On an edge that does not stop the block it goes on, and it starts only when it is enabled with
a frame to play. -/
theorem smCase_goesOn (h : Quiet s) : GoesOn (smCase s i s.seqSm) ∧
    (s.active = false → (smCase s i s.seqSm).active = true →
      enableRise s i = true ∧ frameValid s = true) := by
  have hActive := h.active
  cases hSm : s.seqSm with
  | unready =>
      rw [hSm] at hActive
      refine ⟨⟨hActive.trans ?_, fun _ => rfl⟩, fun _ hNext => ?_⟩
      · change _ = Sm.isPlaying (if _ then _ else _)
        split_ifs <;> rfl
      · exact absurd (hActive.symm.trans hNext) Bool.false_ne_true
  | waitEnable =>
      rw [hSm] at hActive
      simp only [smCase]
      split_ifs with hFrame hRise
      · exact ⟨⟨hActive, h.low⟩, fun _ hNext => absurd (hActive.symm.trans hNext) (by decide)⟩
      · exact ⟨goesOn_of_playing rfl (gotoNextState_plays true true).1,
          fun _ _ => ⟨hRise, by simpa using hFrame⟩⟩
      · exact ⟨⟨h.active, h.low⟩, fun _ hNext => absurd (hActive.symm.trans hNext) (by decide)⟩
  | waitTrigger =>
      rw [hSm] at hActive
      refine ⟨?_, fun hNot => absurd (hActive.symm.trans hNot) (by decide)⟩
      simp only [smCase]
      split_ifs
      · exact goesOn_gotoNextState (by exact hActive) _ _
      · exact ⟨h.active, h.low⟩
  | phase1 =>
      rw [hSm] at hActive
      refine ⟨?_, fun hNot => absurd (hActive.symm.trans hNot) (by decide)⟩
      simp only [smCase]
      split_ifs
      · exact goesOn_of_playing hActive rfl
      · exact ⟨h.active, h.low⟩
  | phase2 =>
      rw [hSm] at hActive
      refine ⟨?_, fun hNot => absurd (hActive.symm.trans hNot) (by decide)⟩
      simp only [smCase]
      split_ifs
      · exact goesOn_lineEnd hActive
      · exact ⟨h.active, h.low⟩

theorem quiet_step (h : Quiet s) : Quiet (step s i) ∧
    ((step s i).active = true → i.enable = true ∧ errorEvent s i = false) ∧
    (s.active = false → (step s i).active = true → enableRise s i = true ∧ frameValid s = true) := by
  by_cases hStop : (enableFall s i || errorEvent s i) = true
  · have hNext : seqFsm s i = stop s i := if_pos hStop
    obtain ⟨hActive, hLow, hSm⟩ := @stop_quiet s i
    rw [← hNext] at hActive hLow hSm
    have hNot : ¬ (step s i).active = true := Bool.eq_false_iff.mp hActive
    exact ⟨⟨⟨hActive.trans hSm.symm, fun _ => hLow⟩, fun hOn => absurd hOn hNot⟩,
      fun hOn => absurd hOn hNot, fun _ hOn => absurd hOn hNot⟩
  · have hNext : seqFsm s i = smCase s i s.seqSm := if_neg hStop
    obtain ⟨hGoes, hStarts⟩ := @smCase_goesOn s i h
    rw [← hNext] at hGoes hStarts
    obtain ⟨hFall, hError⟩ := not_or.mp (mt Bool.or_eq_true_iff.mpr hStop)
    have hEnable : (seqFsm s i).active = true → i.enable = true := by
      intro hOn
      by_cases hWas : s.active = true
      · simpa [enableFall, h.enabled hWas] using hFall
      · exact (Bool.and_eq_true_iff.mp (hStarts (Bool.not_eq_true _ ▸ hWas) hOn).1).1
    exact ⟨⟨⟨hGoes.active, hGoes.low⟩, hEnable⟩,
      fun hOn => ⟨hEnable hOn, Bool.not_eq_true _ ▸ hError⟩, hStarts⟩

/-- Whatever it is given from power up on, the block has its outputs low where it is not active; it
is not active after a clock without ENABLE or with an error of its table; and it becomes active
only when ENABLE rises with a frame to play. -/
theorem outputs_low_unless_played (inputs : Nat → Input) (clock : Nat) :
    let run := Run.ofInputs Seq.step .boot inputs
    ((run.state clock).active = false → (run.state clock).outVal = 0) ∧
      ((inputs clock).enable = false ∨ errorEvent (run.state clock) (inputs clock) = true →
        (run.state (clock + 1)).active = false) ∧
      ((run.state clock).active = false → (run.state (clock + 1)).active = true →
        enableRise (run.state clock) (inputs clock) = true ∧
          frameValid (run.state clock) = true) := by
  intro run
  have hBoot : Quiet State.boot := ⟨⟨rfl, fun _ => rfl⟩, fun h => absurd h Bool.false_ne_true⟩
  have hQuiet := run.invariant Quiet hBoot (fun _ _ hInv => (quiet_step hInv).1) clock
  obtain ⟨-, hEnabled, hStarts⟩ := @quiet_step _ (inputs clock) hQuiet
  refine ⟨hQuiet.low, fun hCause => ?_, hStarts⟩
  by_contra hOn
  obtain ⟨hEnable, hNone⟩ := hEnabled (Bool.not_eq_false _ ▸ hOn)
  rcases hCause with hLow | hError
  · exact absurd (hEnable.symm.trans hLow) (by decide)
  · exact absurd (hNone.symm.trans hError) (by decide)

end Fpga.Seq
