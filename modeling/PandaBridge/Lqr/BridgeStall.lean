import PandaBridge.Lqr.BridgeLoop
import PandaBridge.Lqr.GainSession
import PandaBridge.Lqr.StampWord

/-! The bridge over the whole PL: the gain port and the exporter on one clock.
A tick of the servo starts a pass of the engine and, if the exporter is idle, an
export. While a commit is armed no further export can be launched without a pass
start that swaps it in, so the stamps that a waiting bridge can still see are
numbered, and with them its refused calls. -/
namespace Lqr

open Concurrent

/-- The PL as the bridge sees it. `passStart` is the register of the engine;
`older` counts the exports launched before the last clock and is read by no part
of the design. -/
structure BridgePl (n : Nat) (cfg : ExportConfig) where
  gains : GainSystem n
  window : WindowSystem cfg
  passStart : Bool
  older : Nat

/-- The undetermined inputs of one clock. -/
structure PlInput (axes : Nat) where
  init : Bool
  condValid : Bool
  engineIdle : Bool
  rdAddr : Nat
  snapshot : Snapshot axes
  awready : Bool
  wready : Bool
  bvalid : Bool
  bresp : BitVec 2

/-- The exporter's ports in `lqr_top`, with the export switched on. -/
def PlInput.exportInput {axes : Nat} (input : PlInput axes) : ExportInput axes where
  init := input.init
  tick := input.condValid
  exportEn := true
  valid := true
  snapshot := input.snapshot
  awready := input.awready
  wready := input.wready
  bvalid := input.bvalid
  bresp := input.bresp

inductive PlStep (axes : Nat)
  | clock (input : PlInput axes)
  | land (lost : Bool)

/-- One step by itself, and what an access needs: the clock that serves a register
and the value of the status register. -/
structure PlChoice (axes : Nat) where
  step : PlStep axes
  input : PlInput axes
  answer : Word

namespace BridgePl

variable {n : Nat} {cfg : ExportConfig}

/-- One clock of the PL. An engine that is idle takes the tick as a start. -/
def clock (input : PlInput cfg.axes) (strobe : Strobe) (pl : BridgePl n cfg) : BridgePl n cfg where
  gains := pl.gains.clock ⟨pl.passStart, input.init, input.rdAddr⟩ strobe
  window := pl.window.clock input.exportInput
  passStart := !input.init && input.engineIdle && input.condValid
  older := pl.window.bus.frozen.length

def step : PlStep cfg.axes → BridgePl n cfg → BridgePl n cfg
  | .clock input, pl => pl.clock input .none
  | .land lost, pl => { pl with window := pl.window.land lost }

/-- No reset, the engine is idle at every tick, and the export bus is fair. -/
def Fair (pl : BridgePl n cfg) (input : PlInput cfg.axes) : Prop :=
  input.init = false ∧ (input.condValid = true → input.engineIdle = true) ∧
    pl.window.Fair (.clock input.exportInput)

instance (pl : BridgePl n cfg) (input : PlInput cfg.axes) : Decidable (pl.Fair input) :=
  inferInstanceAs (Decidable (_ ∧ (_ → _) ∧ _))

def FairStep (pl : BridgePl n cfg) : PlStep cfg.axes → Prop
  | .clock input => pl.Fair input
  | .land _ => True

instance (pl : BridgePl n cfg) : (step : PlStep cfg.axes) → Decidable (pl.FairStep step)
  | .clock input => inferInstanceAs (Decidable (pl.Fair input))
  | .land _ => isTrue trivial

/-- The stamp of an export from before the armed commit is still to come. -/
def toCome (pl : BridgePl n cfg) : Nat :=
  if pl.window.awaits = true ∧ pl.older = pl.window.bus.frozen.length then 1 else 0

/-- The stamp word differs from the one read last. -/
def unread (last : Word) (pl : BridgePl n cfg) : Nat :=
  if pl.window.word StateAbi.stampWord = last then 0 else 1

end BridgePl

/-- The PL serving the bridge. A register access takes one clock; a load or a
store of the window takes none of its own. -/
def plWorld (n : Nat) (cfg : ExportConfig) :
    World (BridgePl n cfg) (PlChoice cfg.axes) Access Access.Answer where
  idle choice pl := pl.step choice.step
  serve
    | .read32 .gen, choice, pl => (pl.gains.port.genReg, pl.clock choice.input .none)
    | .read32 _, choice, pl => (choice.answer, pl.clock choice.input .none)
    | .write32 reg value, choice, pl => ((), pl.clock choice.input (reg.strobe value))
    | .word index, _, pl => (pl.window.word index, pl)
    | .writeWord index value, _, pl => ((), { pl with window := pl.window.poke index value })

section Pace

variable {n : Nat} {cfg : ExportConfig}

/-- An export launched in the last clock has its pass start in the next one. -/
structure PlInv (pl : BridgePl n cfg) : Prop where
  stampInv : StampInv pl.window
  older_le : pl.older ≤ pl.window.bus.frozen.length
  launched : pl.older < pl.window.bus.frozen.length →
    pl.passStart = true ∧ pl.window.bus.device.state = .wrSeqOdd

variable {pl : BridgePl n cfg} {input : PlInput cfg.axes}

/-- No step of the window raises what a waiting bridge can still see, as long as
the count of the older exports stands. -/
private theorem StampStep.owed_le {step : WindowStep cfg.axes} {after : BridgePl n cfg}
    (hStep : StampStep step pl.window after.window) (hOlder : after.older = pl.older)
    (hLe : pl.older ≤ pl.window.bus.frozen.length)
    (hLaunched : pl.older < pl.window.bus.frozen.length →
      pl.window.bus.device.state = .wrSeqOdd) (last : Word) :
    after.toCome ≤ pl.toCome ∧ after.toCome + after.unread last ≤ pl.toCome + pl.unread last := by
  cases hStep with
  | kept hWord hStamped hClobbered hFrozen hAwaits =>
      have hCome : after.toCome ≤ pl.toCome := by
        unfold BridgePl.toCome
        by_cases hAfter : after.window.awaits = true ∧
            after.older = after.window.bus.frozen.length
        · rw [if_pos hAfter, if_pos ⟨hAwaits hAfter.1, by rw [← hOlder, ← hFrozen]; exact hAfter.2⟩]
        · rw [if_neg hAfter]
          exact Nat.zero_le _
      refine ⟨hCome, ?_⟩
      rw [BridgePl.unread, BridgePl.unread, hWord]
      exact Nat.add_le_add_right hCome _
  | launched hClock hTick hWord hStamped hClobbered hFrozen hState =>
      obtain ⟨sent, hFrozen⟩ := hFrozen
      have hCome : after.toCome = 0 := by
        refine if_neg fun hAfter => ?_
        have hLength := hAfter.2
        rw [hOlder, hFrozen, List.length_append, List.length_singleton] at hLength
        omega
      refine ⟨hCome ▸ Nat.zero_le _, ?_⟩
      rw [BridgePl.unread, BridgePl.unread, hWord, hCome]
      exact Nat.add_le_add_right (Nat.zero_le _) _
  | wrote hAwaited hState hFrozen hAwaits hStamped hClobbered hWord =>
      have hSame : pl.older = pl.window.bus.frozen.length := by
        by_contra hOther
        have hOpen := hLaunched (by omega)
        rw [hState] at hOpen
        exact absurd hOpen (by decide)
      have hBefore : pl.toCome = 1 := if_pos ⟨hAwaited, hSame⟩
      have hCome : after.toCome = 0 := by
        refine if_neg fun hAfter => ?_
        rw [hAwaits] at hAfter
        exact Bool.false_ne_true hAfter.1
      have hUnread : after.unread last ≤ 1 := by
        unfold BridgePl.unread
        split_ifs
        · exact Nat.zero_le _
        · exact le_refl _
      omega

theorem PlInv.clock (h : PlInv pl) (hFair : pl.Fair input) (strobe : Strobe) :
    PlInv (pl.clock input strobe) := by
  obtain ⟨hInit, hIdle, hBus⟩ := hFair
  obtain ⟨hInv, hStep⟩ := h.stampInv.step hBus
  refine ⟨hInv, (hStep.grows h.stampInv.stamped_le).2.length_le, ?_⟩
  intro hMore
  have hGrown : pl.window.bus.frozen.length <
      (pl.window.step (.clock input.exportInput)).bus.frozen.length := hMore
  cases hStep with
  | kept hWord hStamped hClobbered hFrozen hAwaits =>
      rw [hFrozen] at hGrown
      exact absurd hGrown (lt_irrefl _)
  | launched hClock hTick hWord hStamped hClobbered hFrozen hState =>
      obtain rfl := WindowStep.clock.inj hClock
      refine ⟨?_, hState⟩
      have hValid : input.condValid = true := hTick
      simp [BridgePl.clock, hInit, hIdle hValid, hValid]
  | wrote hAwaited hState hFrozen hAwaits hStamped hClobbered hWord =>
      rw [hFrozen] at hGrown
      exact absurd hGrown (lt_irrefl _)

theorem PlInv.land (h : PlInv pl) (lost : Bool) : PlInv (pl.step (.land lost)) := by
  have hFair : pl.window.Fair (.land lost) := trivial
  have hInv : StampInv (pl.window.land lost) := (h.stampInv.step hFair).1
  have hBus := WindowSystem.land_bus lost pl.window
  refine ⟨hInv, ?_, ?_⟩
  · simp only [BridgePl.step, hBus]
    exact h.older_le
  · simp only [BridgePl.step, hBus]
    exact h.launched

theorem PlInv.poke (h : PlInv pl) (index : Nat) (value : Word) :
    PlInv { pl with window := pl.window.poke index value } :=
  ⟨h.stampInv.poke index value, h.older_le, h.launched⟩

/-- A commit that stays armed through a clock saw no pass start, and nothing that
counts was added. -/
theorem PlInv.clock_owed (h : PlInv pl) (hFair : pl.Fair input) (last : Word)
    (hArmed : (pl.clock input .none).gains.port.buffer.pending = true) :
    pl.gains.port.buffer.pending = true ∧ (pl.clock input .none).toCome ≤ pl.toCome ∧
      (pl.clock input .none).toCome + (pl.clock input .none).unread last ≤
        pl.toCome + pl.unread last := by
  have hKept : pl.passStart = false ∧ pl.gains.port.buffer.pending = true := by
    cases hPass : pl.passStart <;> cases hPending : pl.gains.port.buffer.pending <;>
      simp_all [BridgePl.clock, GainSystem.clock, GainPort.step, BramBuffer.step,
        GainPort.bufferInput, Strobe.input]
  have hSame : pl.older = pl.window.bus.frozen.length := by
    by_contra hOther
    have hLaunched := (h.launched (lt_of_le_of_ne h.older_le hOther)).1
    rw [hKept.1] at hLaunched
    exact absurd hLaunched Bool.false_ne_true
  exact ⟨hKept.2, (h.stampInv.step hFair.2.2).2.owed_le hSame.symm h.older_le
    (fun hMore => (h.launched hMore).2) last⟩

theorem PlInv.land_owed (h : PlInv pl) (lost : Bool) (last : Word) :
    (pl.step (.land lost)).toCome ≤ pl.toCome ∧
      (pl.step (.land lost)).toCome + (pl.step (.land lost)).unread last ≤
        pl.toCome + pl.unread last := by
  have hFair : pl.window.Fair (.land lost) := trivial
  have hStep : StampStep (.land lost) pl.window (pl.step (.land lost)).window :=
    (h.stampInv.step hFair).2
  exact hStep.owed_le rfl h.older_le (fun hMore => (h.launched hMore).2) last

end Pace

section Calls

variable {n : Nat} {cfg : ExportConfig} {Value Gains : Type}

/-- The steps are fair; a register access takes one fair clock. -/
def Paced : Guard (BridgePl n cfg) (Bridge n cfg.axes Value) (PlChoice cfg.axes) Access :=
  fun pl _ label => match label with
    | .idle choice => pl.FairStep choice.step
    | .serve (.read32 _) choice => pl.Fair choice.input
    | .serve (.write32 _ _) choice => pl.Fair choice.input
    | _ => True

instance (pl : BridgePl n cfg) (bridge : Bridge n cfg.axes Value) :
    (label : Label (PlChoice cfg.axes) Access) → Decidable (Paced pl bridge label)
  | .idle choice => inferInstanceAs (Decidable (pl.FairStep choice.step))
  | .serve (.read32 _) choice => inferInstanceAs (Decidable (pl.Fair choice.input))
  | .serve (.write32 _ _) choice => inferInstanceAs (Decidable (pl.Fair choice.input))
  | .serve (.word _) _ => isTrue trivial
  | .serve (.writeWord _ _) _ => isTrue trivial
  | .finished => isTrue trivial

/-- At most two calls in a row were refused, no poll read as a reset, and the
publisher never adopted the tag again. -/
structure NeverStalls (publisher : Publisher n) : Prop where
  stalled : publisher.stalled ≤ 2
  no_reset : .polled .reset ∉ publisher.log
  no_resync : .resynced ∉ publisher.log

/-- Between two calls. A publisher that has not committed yet was never refused. -/
structure Calls (accepted : List (Frame n)) (publisher : Publisher n) (pl : BridgePl n cfg) :
    Prop where
  plInv : PlInv pl
  boundary : Boundary [] accepted publisher pl.gains
  never : NeverStalls publisher
  first : publisher.pending = false → publisher.stalled = 0

/-- While a commit is armed, `count` refusals and the stamps that can still be seen
are two at most. -/
def Pace (count : Nat) (last : Word) (pl : BridgePl n cfg) : Prop :=
  pl.gains.port.buffer.pending = true → count + (pl.toCome + pl.unread last) ≤ 2

/-- The same after a peek that saw another stamp. -/
def FreshPace (count : Nat) (pl : BridgePl n cfg) : Prop :=
  pl.gains.port.buffer.pending = true → count + pl.toCome ≤ 2

variable {accepted : List (Frame n)} {publisher : Publisher n} {pl : BridgePl n cfg}
  {input : PlInput cfg.axes} {count : Nat} {last : Word}

theorem Calls.clock (h : Calls accepted publisher pl) (hFair : pl.Fair input) :
    Calls accepted publisher (pl.clock input .none) :=
  ⟨h.plInv.clock hFair .none, h.boundary.idle hFair.1, h.never, h.first⟩

theorem Calls.idle (h : Calls accepted publisher pl) {step : PlStep cfg.axes}
    (hFair : pl.FairStep step) : Calls accepted publisher (pl.step step) := by
  cases step with
  | clock input => exact h.clock hFair
  | land lost => exact ⟨h.plInv.land lost, h.boundary, h.never, h.first⟩

theorem Pace.clock (h : Pace count last pl) (hInv : PlInv pl) (hFair : pl.Fair input) :
    Pace count last (pl.clock input .none) := by
  intro hArmed
  obtain ⟨hBefore, _, hOwed⟩ := hInv.clock_owed hFair last hArmed
  exact le_trans (Nat.add_le_add_left hOwed _) (h hBefore)

theorem Pace.idle (h : Pace count last pl) (hInv : PlInv pl) {step : PlStep cfg.axes}
    (hFair : pl.FairStep step) : Pace count last (pl.step step) := by
  cases step with
  | clock input => exact h.clock hInv hFair
  | land lost =>
      intro hArmed
      exact le_trans (Nat.add_le_add_left (hInv.land_owed lost last).2 _) (h hArmed)

theorem FreshPace.idle (h : FreshPace count pl) (hInv : PlInv pl) {step : PlStep cfg.axes}
    (hFair : pl.FairStep step) : FreshPace count (pl.step step) := by
  intro hArmed
  cases step with
  | clock input =>
      obtain ⟨hBefore, hCome, _⟩ := hInv.clock_owed hFair 0 hArmed
      exact le_trans (Nat.add_le_add_left hCome _) (h hBefore)
  | land lost => exact le_trans (Nat.add_le_add_left (hInv.land_owed lost 0).1 _) (h hArmed)

/-- A peek at another stamp uses up the stamp it saw. -/
theorem Pace.peek (h : Pace count last pl)
    (hOther : pl.window.word StateAbi.stampWord ≠ last) : FreshPace (count + 1) pl := by
  intro hArmed
  have hOwed := h hArmed
  rw [BridgePl.unread, if_neg hOther] at hOwed
  omega

theorem FreshPace.load (h : FreshPace count pl) :
    Pace count (pl.window.word StateAbi.stampWord) pl := by
  intro hArmed
  rw [BridgePl.unread, if_pos rfl]
  exact h hArmed

theorem Pace.fresh (h : Pace count last pl) : FreshPace count pl := by
  intro hArmed
  have hOwed := h hArmed
  omega

/-- A commit has at most the export under way and the stamp in the window before
it. -/
theorem Pace.zero (last : Word) (pl : BridgePl n cfg) : Pace 0 last pl := by
  intro _
  unfold BridgePl.toCome BridgePl.unread
  split_ifs <;> omega

/-- While a call stages its frame: nothing is armed and nothing was refused since
the last commit. -/
structure Staging (port : Gen → GainSystem n → Prop) (accepted : List (Frame n))
    (publisher : Publisher n) (pl : BridgePl n cfg) : Prop where
  plInv : PlInv pl
  phase : ∃ gen, Tracks accepted gen publisher ∧ port gen pl.gains
  never : NeverStalls publisher
  stalled : publisher.stalled = 0

theorem Staging.idle {port : Gen → GainSystem n → Prop} (h : Staging port accepted publisher pl)
    (hPort : ∀ gen system (choice : GainChoice), choice.init = false → port gen system →
      port gen (system.clock choice .none)) {step : PlStep cfg.axes} (hFair : pl.FairStep step) :
    Staging port accepted publisher (pl.step step) := by
  obtain ⟨gen, hTracks, hGains⟩ := h.phase
  cases step with
  | clock input =>
      exact ⟨h.plInv.clock hFair .none, ⟨gen, hTracks, hPort _ _ _ hFair.1 hGains⟩, h.never,
        h.stalled⟩
  | land lost => exact ⟨h.plInv.land lost, ⟨gen, hTracks, hGains⟩, h.never, h.stalled⟩

/-- One call. A refusal uses up the peek that led to it, and the poll of a settled
port lets the call through. -/
def pacedOutline
    {guard : Guard (BridgePl n cfg) (Publisher n) (PlChoice cfg.axes) Access}
    {inv : BridgePl n cfg → Publisher n → Prop} (accepted : List (Frame n)) (frame : Frame n)
    (last : Word)
    (hIdle : ∀ pl self choice, guard pl self (.idle choice) → pl.FairStep choice.step)
    (hRead : ∀ pl self reg choice, guard pl self (.serve (.read32 reg) choice) →
      pl.Fair choice.input)
    (hWrite : ∀ pl self reg value choice, guard pl self (.serve (.write32 reg value) choice) →
      pl.Fair choice.input)
    (hInv : ∀ pl self, NeverStalls self → inv pl self) :
    PublishOutline (plWorld n cfg) guard inv frame
      (fun self pl => Calls accepted self pl ∧ Pace (self.stalled + 1) last pl)
      (fun _ self pl => ∃ accepted, Calls accepted self pl ∧ Pace self.stalled last pl) where
  poll self pl := self.pending = true ∧ Calls accepted self pl ∧ Pace (self.stalled + 1) last pl
  adopt _ _ := False
  start := Staging (Settled [] accepted) accepted
  fill k := Staging (fun gen => Filling [] accepted gen frame k) accepted
  start_stable self pl choice h hGuard :=
    h.idle (fun _ _ _ hInit hPort => hPort.idle hInit) (hIdle pl self choice hGuard)
  fill_stable k self pl choice h hGuard :=
    h.idle (fun _ _ _ hInit hPort => hPort.idle hInit) (hIdle pl self choice hGuard)
  poll_stable self pl choice h hGuard :=
    ⟨h.1, h.2.1.idle (hIdle pl self choice hGuard),
      h.2.2.idle h.2.1.plInv (hIdle pl self choice hGuard)⟩
  adopt_stable _ _ _ h _ := h
  start_inv self pl h := hInv pl self h.never
  fill_inv _ self pl h := hInv pl self h.never
  poll_inv self pl h := hInv pl self h.2.1.never
  adopt_inv _ _ h := h.elim
  enter_poll self pl h hPending := ⟨hPending, h⟩
  enter_start self pl h hPending := by
    rcases h.1.boundary.phase with ⟨gen, hTracks, hPort⟩ | ⟨gen, earlier, armed, hSplit, hTracks, _⟩
    · exact ⟨h.1.plInv, ⟨gen, hTracks.recount hTracks.stalled _ _ _, hPort⟩,
        ⟨h.1.never.stalled, h.1.never.no_reset, h.1.never.no_resync⟩, h.1.first hPending⟩
    · have hCommitted := (hTracks.last (by simp [hSplit])).1
      simp [hPending] at hCommitted
  poll_confirmed self pl choice h hGuard hSwap := by
    rcases h.2.1.boundary.poll h.1 with ⟨_, gen, hTracks, hPort⟩ | ⟨hWait, _⟩
    · have hFair := hRead pl self .gen choice hGuard
      refine ⟨h.2.1.plInv.clock hFair .none,
        ⟨gen, hTracks.recount Publisher.kResyncAfter_pos _ _ _, hPort.idle hFair.1⟩,
        ⟨Nat.zero_le _, ?_, ?_⟩, rfl⟩
      · simpa using h.2.1.never.no_reset
      · simpa using h.2.1.never.no_resync
    · exact absurd (hSwap.symm.trans hWait) (by decide)
  poll_reset self pl choice h hGuard hSwap := by
    rcases h.2.1.boundary.poll h.1 with ⟨hIn, _⟩ | ⟨hWait, _⟩
    · exact absurd (hSwap.symm.trans hIn) (by decide)
    · exact absurd (hSwap.symm.trans hWait) (by decide)
  poll_refused self pl choice h hGuard hSwap hStalled := by
    have hFair := hRead pl self .gen choice hGuard
    rcases h.2.1.boundary.poll h.1 with ⟨hIn, _⟩ | ⟨_, gen, earlier, armed, hSplit, hTracks, hPort⟩
    · exact absurd (hSwap.symm.trans hIn) (by decide)
    · have hOwed := h.2.2 hPort.pending
      have hNext := h.2.1.clock hFair
      refine ⟨accepted, ⟨hNext.plInv, ⟨hNext.boundary.polls, ?_⟩, ⟨?_, ?_, ?_⟩, ?_⟩, ?_⟩
      · rcases hNext.boundary.phase with
          ⟨gen, hTracks, hPort⟩ | ⟨gen, earlier, armed, hSplit, hTracks, hPort⟩
        · exact .inl ⟨gen, hTracks.recount hStalled _ _ _, hPort⟩
        · exact .inr ⟨gen, earlier, armed, hSplit, hTracks.recount hStalled _ _ _, hPort⟩
      · show self.stalled + 1 ≤ 2
        omega
      · simpa using h.2.1.never.no_reset
      · simpa using h.2.1.never.no_resync
      · intro hFirst
        have hCommitted : self.pending = false := hFirst
        simp [h.1] at hCommitted
      · exact h.2.2.clock h.2.1.plInv hFair
  poll_stalled self pl choice h hGuard hSwap hStalled := by
    rcases h.2.1.boundary.poll h.1 with ⟨hIn, _⟩ | ⟨_, gen, earlier, armed, hSplit, hTracks, hPort⟩
    · exact absurd (hSwap.symm.trans hIn) (by decide)
    · have hOwed := h.2.2 hPort.pending
      have hSixteen : Publisher.kResyncAfter = 16 := rfl
      omega
  adopt_serve _ _ _ h _ := h.elim
  start_serve self pl choice h hGuard := by
    obtain ⟨gen, hTracks, hPort⟩ := h.phase
    have hFair := hWrite pl self .start 0 choice hGuard
    exact ⟨h.plInv.clock hFair _, ⟨gen, hTracks, hPort.start hFair.1⟩, h.never, h.stalled⟩
  fill_serve k hk self pl choice h hGuard := by
    obtain ⟨gen, hTracks, hPort⟩ := h.phase
    have hFair := hWrite pl self .data (frame ⟨k, hk⟩) choice hGuard
    exact ⟨h.plInv.clock hFair _, ⟨gen, hTracks, hPort.data hFair.1 hk⟩, h.never, h.stalled⟩
  commit_serve self pl choice h hGuard := by
    obtain ⟨gen, hTracks, hPort⟩ := h.phase
    have hFair := hWrite pl self .commit 0 choice hGuard
    refine ⟨accepted ++ [frame], ⟨h.plInv.clock hFair _, ⟨by simp, .inr ⟨gen, accepted, frame, rfl,
      hTracks.commit frame, hPort.commit hFair.1⟩⟩,
      ⟨h.never.stalled, h.never.no_reset, h.never.no_resync⟩, ?_⟩, ?_⟩
    · intro _
      exact h.stalled
    · have hZero : self.stalled = 0 := h.stalled
      show Pace self.stalled last _
      rw [hZero]
      exact Pace.zero last _

/-- What holds at every point of a run. -/
def StallInv (_ : BridgePl n cfg) (bridge : Bridge n cfg.axes Value) : Prop :=
  NeverStalls bridge.publisher

/-- The outline of a round over the whole PL. -/
private def stallOutline (solve : OperatingPoint cfg.axes Value → Gains)
    (quantiseInto : Gains → Frame n) :
    RoundOutline (plWorld n cfg) Paced StallInv solve quantiseInto where
  top bridge pl := ∃ accepted, Calls accepted bridge.publisher pl ∧
    Pace bridge.publisher.stalled bridge.lastStamp pl
  fresh bridge pl := ∃ accepted, Calls accepted bridge.publisher pl ∧
    FreshPace (bridge.publisher.stalled + 1) pl
  loaded bridge stamp pl := ∃ accepted, Calls accepted bridge.publisher pl ∧
    Pace (bridge.publisher.stalled + 1) stamp pl
  top_stable bridge pl choice := by
    rintro ⟨accepted, hCalls, hPace⟩ hGuard
    exact ⟨accepted, hCalls.idle hGuard, hPace.idle hCalls.plInv hGuard⟩
  fresh_stable bridge source pl choice := by
    rintro ⟨accepted, hCalls, hPace⟩ hGuard
    exact ⟨accepted, hCalls.idle hGuard, hPace.idle hCalls.plInv hGuard⟩
  loaded_stable bridge source stamp pl choice := by
    rintro ⟨accepted, hCalls, hPace⟩ hGuard
    exact ⟨accepted, hCalls.idle hGuard, hPace.idle hCalls.plInv hGuard⟩
  top_inv bridge pl := by
    rintro ⟨accepted, hCalls, _⟩
    exact hCalls.never
  fresh_inv bridge source pl := by
    rintro ⟨accepted, hCalls, _⟩
    exact hCalls.never
  fresh_of_loaded bridge stamp pl := by
    rintro ⟨accepted, hCalls, hPace⟩
    exact ⟨accepted, hCalls, hPace.fresh⟩
  peek_old bridge pl choice h _ := h
  peek_new bridge pl choice := by
    rintro ⟨accepted, hCalls, hPace⟩ _ hOther
    exact ⟨accepted, hCalls, hPace.peek hOther⟩
  fresh_word bridge source pl index choice h _ := h
  fresh_stamp bridge source pl choice := by
    rintro ⟨accepted, hCalls, hPace⟩ _
    exact ⟨accepted, hCalls, hPace.load⟩
  loaded_word bridge source stamp pl index choice h _ _ := h
  failed bridge source pl := by
    rintro ⟨accepted, hCalls, hPace⟩
    refine ⟨accepted, hCalls, fun hArmed => ?_⟩
    have hOwed := hPace hArmed
    have hUnread : pl.unread bridge.lastStamp ≤ 1 := by
      unfold BridgePl.unread
      split_ifs <;> omega
    show bridge.publisher.stalled + (pl.toCome + pl.unread bridge.lastStamp) ≤ 2
    omega
  status bridge pl choice := by
    rintro ⟨accepted, hCalls, hPace⟩ hGuard
    exact ⟨accepted, hCalls.clock hGuard, hPace.clock hCalls.plInv hGuard⟩
  publish bridge source point pl := by
    rintro ⟨accepted, h⟩
    refine Safe.weaken ?_ ((pacedOutline accepted (quantiseInto (solve point)) point.stamp
      ?_ ?_ ?_ ?_).publish_safe rfl h)
    · intro generation publisher after hAfter
      cases generation with
      | none => exact hAfter
      | some value => exact hAfter
    · intro pl publisher choice hGuard
      exact hGuard
    · intro pl publisher reg choice hGuard
      exact hGuard
    · intro pl publisher reg value choice hGuard
      exact hGuard
    · intro pl publisher hNever
      exact hNever

private theorem bridgeLoop_paced (toFloat : Word → Value)
    (solve : OperatingPoint cfg.axes Value → Gains) (quantiseInto : Gains → Frame n)
    (rounds : Nat) (source : SeqlockStateSource cfg.axes Value) :
    Triple (plWorld n cfg) Paced StallInv
      (fun bridge pl => bridge = Bridge.initial n source ∧ PlInv pl ∧
        ∃ gen, Settled [] [] gen pl.gains)
      (Bridge.bridgeLoop toFloat solve quantiseInto rounds)
      (fun _ bridge pl => ∃ accepted, Calls accepted bridge.publisher pl ∧
        Pace bridge.publisher.stalled bridge.lastStamp pl) := by
  have hInitial : ∀ value : Generation, NeverStalls { Publisher.initial n with expected := value } :=
    fun value => ⟨Nat.zero_le _, List.not_mem_nil, List.not_mem_nil⟩
  have hStable : ∀ (gen : Gen) (bridge : Bridge n cfg.axes Value),
      Stable (plWorld n cfg) Paced bridge fun pl => PlInv pl ∧ Settled [] [] gen pl.gains := by
    rintro gen bridge pl choice ⟨hInv, hPort⟩ hGuard
    cases hStep : choice.step with
    | clock input =>
        have hFair : pl.FairStep choice.step := hGuard
        rw [hStep] at hFair
        simp only [plWorld, hStep]
        exact ⟨hInv.clock hFair .none, hPort.idle hFair.1⟩
    | land lost =>
        simp only [plWorld, hStep]
        exact ⟨hInv.land lost, hPort⟩
  rintro bridge pl ⟨rfl, hInv, gen, hPort⟩
  refine Safe.access _ ⟨hInv, hPort⟩ (hStable gen _) (fun _ _ => hInitial _) ?_
  rintro s choice ⟨hInv, hPort⟩ hGuard
  have hTracks : Tracks [] gen
      { Publisher.initial n with expected := s.gains.port.genReg &&& kGenMask } := by
    refine ⟨?_, fun hSome => absurd rfl hSome, Publisher.kResyncAfter_pos⟩
    show s.gains.port.genReg &&& kGenMask = gen.zeroExtend 32
    rw [GainPort.genReg, hPort.gen_eq, zeroExtend_and_kGenMask]
  have hFair : s.Fair choice.input := hGuard
  refine Safe.access _ ⟨hInv.clock hFair .none, hPort.idle hFair.1⟩ (hStable gen _)
    (fun _ _ => hInitial _) ?_
  rintro s' choice' ⟨hInv, hPort⟩ _
  refine Safe.access _ ⟨hInv.poke _ _, hPort⟩ (hStable gen _) (fun _ _ => hInitial _) ?_
  rintro s'' choice'' ⟨hInv, hPort⟩ _
  refine (stallOutline solve quantiseInto).rounds_triple rounds _ _ ⟨[], ⟨hInv.poke _ _, ⟨?_, ?_⟩,
    hInitial _, fun _ => rfl⟩, Pace.zero _ _⟩
  · intro hPending
    nomatch hPending
  · exact .inl ⟨gen, hTracks, hPort⟩

/-- The bridge starts over a PL whose exports may already be running and whose
gain port has no commit armed. -/
def stallConfig (toFloat : Word → Value) (solve : OperatingPoint cfg.axes Value → Gains)
    (quantiseInto : Gains → Frame n) (rounds : Nat) (source : SeqlockStateSource cfg.axes Value)
    (port : GainPort) (passStart : Bool) (window : WindowSystem cfg) :
    Config (BridgePl n cfg) (Bridge n cfg.axes Value) Access Access.Answer Unit :=
  ⟨⟨⟨port, [], 0⟩, window, passStart, window.bus.frozen.length⟩,
    Bridge.bridgeLoop toFloat solve quantiseInto rounds (Bridge.initial n source)⟩

/-- The running bridge never stalls itself into a resync: in every state of every
run at most two calls in a row were refused, no poll has read as a reset and
`resync` has not run. -/
theorem bridge_never_stalls (cfg : ExportConfig) (toFloat : Word → Value)
    (solve : OperatingPoint cfg.axes Value → Gains) (quantiseInto : Gains → Frame n)
    (rounds : Nat) (source : SeqlockStateSource cfg.axes Value) (port : GainPort)
    (passStart : Bool) (latched : Snapshot cfg.axes) (mem : Memory)
    (before : List (WindowStep cfg.axes)) (schedule : List (Move (PlChoice cfg.axes)))
    (hIdle : port.buffer.pending = false)
    (hBefore : WindowSystem.FairRun (fun _ _ => True) before (WindowSystem.powerUp latched mem))
    (hGuarded : (plWorld n cfg).Guarded Paced schedule
      (stallConfig toFloat solve quantiseInto rounds source port passStart
        (WindowSystem.run before (WindowSystem.powerUp latched mem)))) :
    NeverStalls ((plWorld n cfg).run schedule
      (stallConfig toFloat solve quantiseInto rounds source port passStart
        (WindowSystem.run before
          (WindowSystem.powerUp latched mem)))).thread.fields.publisher := by
  refine (Triple.run ?_ (bridgeLoop_paced toFloat solve quantiseInto rounds source) ?_
    ⟨rfl, ⟨?_, le_refl _, fun hMore => absurd hMore (lt_irrefl _)⟩, port.buffer.gen, ?_⟩
    hGuarded).1
  · rintro result bridge pl choice ⟨accepted, hCalls, hPace⟩ hGuard
    exact ⟨accepted, hCalls.idle hGuard, hPace.idle hCalls.plInv hGuard⟩
  · rintro result bridge pl ⟨accepted, hCalls, _⟩
    exact hCalls.never
  · exact (StampInv.powerUp latched mem).run hBefore
  · exact ⟨hIdle, rfl, rfl, by simp⟩

/-- A clock of the PL as the exporter sees it, with the engine idle. -/
def PlInput.ofExport {axes : Nat} (input : ExportInput axes) : PlInput axes where
  init := input.init
  condValid := input.tick
  engineIdle := true
  rdAddr := 0
  snapshot := input.snapshot
  awready := input.awready
  wready := input.wready
  bvalid := input.bvalid
  bresp := input.bresp

def PlStep.ofWindow {axes : Nat} : WindowStep axes → PlStep axes
  | .clock input => .clock (.ofExport input)
  | .land lost => .land lost

/-- An access served by a clock in which the bus stands still. -/
def quietServe : Move (PlChoice oneAxis.axes) :=
  .serve ⟨.land false,
    .ofExport { readyInput false false with awready := false, wready := false }, 0⟩

def plMoves (steps : List (WindowStep oneAxis.axes)) : List (Move (PlChoice oneAxis.axes)) :=
  steps.map fun step => .idle ⟨.ofWindow step, .ofExport (readyInput false false), 0⟩

/-- The second export is launched between the read and the commit of the first
round, and its stamp lands after the commit: the second call is refused. -/
def refusedRound : List (Move (PlChoice oneAxis.axes)) :=
  List.replicate 3 quietServe ++ plMoves (exportSteps 7 [false, false, false, false] 0) ++
    List.replicate 8 quietServe ++
    plMoves ((exportSteps 20 [false, false, false, false] 0).take 11) ++
    List.replicate 3 quietServe ++
    plMoves ((exportSteps 20 [false, false, false, false] 0).drop 11) ++
    List.replicate 9 quietServe

theorem bridge_never_stalls_refused :
    NeverStalls ((plWorld 1 oneAxis).run refusedRound
      (stallConfig id (fun _ => 5) (fun gain (_ : Fin 1) => gain) 2 emptySource .cleared false
        (WindowSystem.run []
          (WindowSystem.powerUp (oneAxisSnapshot 0) fun _ => 0)))).thread.fields.publisher :=
  bridge_never_stalls oneAxis id (fun _ => 5) (fun gain (_ : Fin 1) => gain) 2 emptySource .cleared
    false (oneAxisSnapshot 0) (fun _ => 0) [] refusedRound rfl (by decide +kernel)
    (by decide +kernel)

end Calls

end Lqr
