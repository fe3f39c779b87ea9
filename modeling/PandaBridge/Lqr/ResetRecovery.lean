import PandaBridge.Lqr.GainSession

/-! A reset of the PL between two calls. The publisher keeps its members while
the tag starts again from zero, so its next polls may read as confirmed, as
pending or as a reset; each of these ways leads back to agreement. -/
namespace Lqr

open Concurrent

section Members

variable {n : Nat} {Gains Shared Choice : Type}

/-- What every call leaves behind in the members, whatever the bus answered. -/
structure Publisher.Sound (publisher : Publisher n) : Prop where
  expected : ∃ gen : Gen, publisher.expected = gen.zeroExtend 32
  last : publisher.pending = true → publisher.last = publisher.expected
  stalled : publisher.stalled < Publisher.kResyncAfter

theorem and_kGenMask_eq_zeroExtend (value : Generation) :
    value &&& kGenMask = (value.setWidth 16).zeroExtend 32 := by
  apply BitVec.eq_of_toNat_eq
  rw [toNat_and_kGenMask]
  bv_omega

/-- One call in any world, as far as the members go. -/
def soundOutline (world : World Shared Choice Access Access.Answer)
    (guard : Guard Shared (Publisher n) Choice Access) (frame : Frame n) :
    PublishOutline world guard (fun _ _ => True) frame (fun self _ => self.Sound)
      (fun _ self _ => self.pending = true ∧ self.Sound) where
  poll self _ := self.pending = true ∧ self.Sound
  adopt _ _ := True
  start self _ := (∃ gen : Gen, self.expected = gen.zeroExtend 32) ∧
    self.stalled < Publisher.kResyncAfter
  fill _ self _ := (∃ gen : Gen, self.expected = gen.zeroExtend 32) ∧
    self.stalled < Publisher.kResyncAfter
  start_stable _ _ _ h _ := h
  fill_stable _ _ _ _ h _ := h
  poll_stable _ _ _ h _ := h
  adopt_stable _ _ _ h _ := h
  start_inv _ _ _ := trivial
  fill_inv _ _ _ _ := trivial
  poll_inv _ _ _ := trivial
  adopt_inv _ _ _ := trivial
  enter_poll _ _ h hPending := ⟨hPending, h⟩
  enter_start _ _ h _ := ⟨h.expected, h.stalled⟩
  poll_confirmed _ _ _ h _ _ := ⟨h.2.expected, Publisher.kResyncAfter_pos⟩
  poll_reset _ _ _ _ _ _ := trivial
  poll_refused _ _ _ h _ _ hStalled := ⟨h.1, h.2.expected, h.2.last, hStalled⟩
  poll_stalled _ _ _ _ _ _ _ := trivial
  adopt_serve self shared choice _ _ := ⟨⟨_, and_kGenMask_eq_zeroExtend _⟩, Publisher.kResyncAfter_pos⟩
  start_serve _ _ _ h _ := h
  fill_serve _ _ _ _ _ h _ := h
  commit_serve self shared choice h _ := by
    obtain ⟨⟨gen, hExpected⟩, hStalled⟩ := h
    refine ⟨rfl, ⟨gen + 1, ?_⟩, fun _ => rfl, hStalled⟩
    rw [← zeroExtend_succ_and_kGenMask, ← hExpected]

/-- After the last call has returned the publisher has committed before and its
members are sound, whatever happened on the bus. -/
theorem program_sound (world : World Shared Choice Access Access.Answer)
    (quantiseInto : Gains → Frame n) (frames : List Gains) :
    Triple world (fun _ _ _ => True) (fun _ _ => True) (fun session _ => session = Session.initial n)
      (Session.program quantiseInto frames)
      (fun _ session _ => session.publisher.Sound ∧
        (frames ≠ [] → session.publisher.pending = true)) := by
  have hCalls : Triple world (fun _ _ _ => True) (fun _ _ => True)
      (fun session _ => session.publisher.Sound) (Session.publishAll quantiseInto frames)
      (fun _ session _ => session.publisher.Sound ∧
        (frames ≠ [] → session.publisher.pending = true)) := by
    refine Triple.consequence (Triple.forEach (L := fun finished session _ =>
      session.publisher.Sound ∧ (finished ≠ [] → session.publisher.pending = true)) ?_) ?_ ?_
    · rintro finished gains rest - session shared ⟨hSound, -⟩
      refine Session.publish_safe (Safe.weaken ?_
        ((soundOutline world _ (quantiseInto gains)).publish_safe rfl hSound))
      rintro result publisher s ⟨hPending, hAfter⟩
      exact ⟨hAfter, fun _ => hPending⟩
    · intro session shared hSound
      exact ⟨hSound, fun hNil => absurd rfl hNil⟩
    · rintro results session shared ⟨hLength, hSound, hPending⟩
      refine ⟨hSound, fun hSome => hPending ?_⟩
      intro hNil
      rcases List.zip_eq_nil_iff.mp hNil with hEmpty | hEmpty
      · exact hSome hEmpty
      · rw [hEmpty] at hLength
        exact hSome (List.eq_nil_of_length_eq_zero hLength.symm)
  rintro session shared rfl
  refine Safe.access (fun _ => True) trivial (fun _ _ _ _ => trivial) (fun _ _ => trivial) ?_
  intro s choice _ _
  refine hCalls _ _ ⟨⟨_, and_kGenMask_eq_zeroExtend _⟩, ?_, Publisher.kResyncAfter_pos⟩
  intro hPending
  simp [Session.initial, Publisher.initial] at hPending

end Members

section Recovery

variable {n : Nat} {Gains : Type}

/-- Between two calls after a reset, before any of them was accepted: the
publisher still waits for a generation of before the reset. -/
structure Recovering (base : List (GainEvent n)) (publisher : Publisher n)
    (system : GainSystem n) : Prop where
  pending : publisher.pending = true
  sound : publisher.Sound
  port : Settled base [] 0 system

theorem Settled.of_reset {choice : GainChoice} (hReset : choice.init = true)
    (system : GainSystem n) :
    Settled (system.clock choice .none).log [] 0 (system.clock choice .none) := by
  refine ⟨?_, ?_, by simp [gainHistory], by simp⟩
  · simp [GainPort.step, BramBuffer.step, GainPort.bufferInput, Strobe.input, hReset]
  · simp [GainPort.step, BramBuffer.step, GainPort.bufferInput, Strobe.input, hReset]

variable {guard : Guard (GainSystem n) (Publisher n) GainChoice Access}
  {inv : GainSystem n → Publisher n → Prop}

/-- One call after a reset. A refused call moves the stall count on, so the
count bounds how many of them there can be; an accepted one ends in agreement. -/
def recoveringOutline (base : List (GainEvent n)) (refused : Nat) (frame : Frame n)
    (hCalm : ∀ system self label, guard system self label → Calm label)
    (hInv : ∀ system self, inv system self) :
    PublishOutline (gainWorld n) guard inv frame
      (fun self system => Recovering base self system ∧ refused ≤ self.stalled)
      (fun result self system => match result with
        | none => Recovering base self system ∧ refused + 1 ≤ self.stalled
        | some _ => Boundary base [frame] self system) where
  toStageOutline := alignedStage base [] frame hCalm (fun system self _ => hInv system self)
    fun _ _ _ _ h => h
  poll self system := Recovering base self system ∧ refused ≤ self.stalled
  adopt _ system := Settled base [] 0 system
  poll_stable self system choice h hGuard :=
    ⟨⟨h.1.pending, h.1.sound, h.1.port.idle (hCalm _ _ _ hGuard)⟩, h.2⟩
  adopt_stable self system choice h hGuard := h.idle (hCalm _ _ _ hGuard)
  poll_inv self system _ := hInv system self
  adopt_inv self system _ := hInv system self
  enter_poll self system h _ := h
  enter_start self system h hPending := by
    have hCommitted := h.1.pending
    simp [hPending] at hCommitted
  poll_confirmed self system choice h hGuard hSwap := by
    obtain ⟨⟨hPending, ⟨⟨gen, hExpected⟩, hLast, hStalled⟩, hPort⟩, -⟩ := h
    have hZero : gen = 0 := by
      have hPoll : Swap.ofPoll system.port.genReg self.last = .confirmed := hSwap
      rw [GainPort.genReg, hPort.gen_eq, hLast hPending, hExpected, Swap.ofPoll_zeroExtend] at hPoll
      split_ifs at hPoll with hSame
      exact hSame.symm
    subst hZero
    exact ⟨0, ⟨hExpected, fun hSome => absurd rfl hSome, Publisher.kResyncAfter_pos⟩,
      hPort.idle (hCalm _ _ _ hGuard)⟩
  poll_reset self system choice h hGuard _ := h.1.port.idle (hCalm _ _ _ hGuard)
  poll_refused self system choice h hGuard _ hStalled :=
    ⟨⟨h.1.pending, ⟨h.1.sound.expected, h.1.sound.last, hStalled⟩,
      h.1.port.idle (hCalm _ _ _ hGuard)⟩, Nat.succ_le_succ h.2⟩
  poll_stalled self system choice h hGuard _ _ := h.1.port.idle (hCalm _ _ _ hGuard)
  adopt_serve self system choice h hGuard := by
    refine ⟨0, ⟨?_, fun hSome => absurd rfl hSome, Publisher.kResyncAfter_pos⟩,
      h.idle (hCalm _ _ _ hGuard)⟩
    show system.port.genReg &&& kGenMask = (0 : Gen).zeroExtend 32
    rw [GainPort.genReg, h.gen_eq, zeroExtend_and_kGenMask]

/-- The poll of this publisher refuses the call if it reads `generation`. -/
def Publisher.Refuses (publisher : Publisher n) (generation : Generation) : Prop :=
  Swap.ofPoll generation publisher.last = .pending ∧
    publisher.stalled + 1 < Publisher.kResyncAfter

instance (publisher : Publisher n) (generation : Generation) :
    Decidable (publisher.Refuses generation) := inferInstanceAs (Decidable (_ ∧ _))

/-- The step is no PL reset, and a poll lets a call through only if a pass has
started since the last commit. -/
def PassBetween : Guard (GainSystem n) (Session n) GainChoice Access :=
  fun system session label => Calm label ∧
    ((label matches .serve (.read32 .gen) _) = true →
      ¬ session.publisher.Refuses system.port.genReg → 0 < system.passes)

instance (system : GainSystem n) (session : Session n) (label : Label GainChoice Access) :
    Decidable (PassBetween system session label) := inferInstanceAs (Decidable (_ ∧ (_ → _)))

/-- The session goes on with further calls after a reset clock. -/
def Session.afterReset (quantiseInto : Gains → Frame n) (frames : List Gains)
    (reset : GainChoice)
    (config : Config (GainSystem n) (Session n) Access Access.Answer (List (Option Generation))) :
    Config (GainSystem n) (Session n) Access Access.Answer (List (Option Generation)) :=
  ⟨config.shared.clock reset .none, Session.publishAll quantiseInto frames config.thread.fields⟩

/-- Between two calls after a reset. `recent` are the calls since then; until one
of them is accepted, each has moved the stall count. -/
structure RecoveryBoundary (base : List (GainEvent n))
    (old recent : List (Frame n × Option Generation)) (session : Session n)
    (system : GainSystem n) : Prop where
  outcomes : session.outcomes = old ++ recent
  phase : (Session.acceptedFrames recent = [] ∧ Recovering base session.publisher system ∧
      recent.length ≤ session.publisher.stalled) ∨
    (Session.acceptedFrames (recent.take Publisher.kResyncAfter) ≠ [] ∧
      Boundary base (Session.acceptedFrames recent) session.publisher system)

/-- What holds at every point after a reset, when `frames` are asked for. -/
def RecoveryInv (base : List (GainEvent n)) (old : List (Frame n × Option Generation))
    (frames : List (Frame n)) (system : GainSystem n) (session : Session n) : Prop :=
  ∃ recent, session.outcomes = old ++ recent ∧ recent.map Prod.fst <+: frames ∧
    ((Session.acceptedFrames recent = [] ∧ recent.length < Publisher.kResyncAfter) ∨
      (Session.acceptedFrames (recent.take Publisher.kResyncAfter) ≠ [] ∧
        Aligned base (Session.acceptedFrames recent) session.publisher system))

theorem RecoveryBoundary.idle {base : List (GainEvent n)}
    {old recent : List (Frame n × Option Generation)} {session : Session n}
    {system : GainSystem n} {choice : GainChoice}
    (h : RecoveryBoundary base old recent session system) (hInit : choice.init = false) :
    RecoveryBoundary base old recent session (system.clock choice .none) := by
  refine ⟨h.outcomes, ?_⟩
  rcases h.phase with ⟨hNone, hRecovering, hStalled⟩ | ⟨hSome, hBoundary⟩
  · exact .inl ⟨hNone, ⟨hRecovering.pending, hRecovering.sound, hRecovering.port.idle hInit⟩,
      hStalled⟩
  · exact .inr ⟨hSome, hBoundary.idle hInit⟩

theorem RecoveryBoundary.recoveryInv {base : List (GainEvent n)} {frames : List (Frame n)}
    {old recent : List (Frame n × Option Generation)} {session : Session n}
    {system : GainSystem n} (h : RecoveryBoundary base old recent session system)
    (hFrames : recent.map Prod.fst <+: frames) : RecoveryInv base old frames system session := by
  refine ⟨recent, h.outcomes, hFrames, ?_⟩
  rcases h.phase with ⟨hNone, hRecovering, hStalled⟩ | ⟨hSome, hBoundary⟩
  · exact .inl ⟨hNone, lt_of_le_of_lt hStalled hRecovering.sound.stalled⟩
  · exact .inr ⟨hSome, hBoundary.aligned⟩

theorem Aligned.active_of_passes {base : List (GainEvent n)} {accepted : List (Frame n)}
    {self : Publisher n} {system : GainSystem n} {frame : Frame n}
    (h : Aligned base accepted self system) (hLast : accepted.getLast? = some frame)
    (hPasses : 0 < system.passes) :
    system.port.genReg = self.last ∧ ∀ i : Fin n, system.port.buffer.activeBank i = frame i := by
  have hSome : accepted ≠ [] := by
    intro hNil
    simp [hNil] at hLast
  unfold GainPort.genReg
  cases h with
  | settled hTracks hPort =>
      refine ⟨?_, hPort.active frame hLast⟩
      rw [hPort.gen_eq, (hTracks.last hSome).2, hTracks.expected]
  | filling hTracks hPort =>
      refine ⟨?_, hPort.active frame hLast⟩
      rw [hPort.gen_eq, (hTracks.last hSome).2, hTracks.expected]
  | armed hSplit hTracks hPort =>
      rw [hPort.passes] at hPasses
      exact absurd hPasses (by decide)

/-- What a reset leads to: `recent` are the calls returned since the session had
the outcomes of `old`. -/
structure Recovers (quantiseInto : Gains → Frame n) (gains : List Gains) (serves : Nat)
    (old session : Session n) (system : GainSystem n)
    (recent : List (Frame n × Option Generation)) : Prop where
  outcomes : session.outcomes = old.outcomes ++ recent
  frames : recent.map Prod.fst <+: gains.map quantiseInto
  returned : gains.length * (n + 4) ≤ serves → recent.length = gains.length
  accepted : Publisher.kResyncAfter ≤ recent.length →
    Session.acceptedFrames (recent.take Publisher.kResyncAfter) ≠ []
  tag : Session.acceptedFrames recent ≠ [] →
    system.port.genReg = session.publisher.expected ∨
      system.port.genReg = (session.publisher.expected - 1) &&& kGenMask
  swapped : ∀ frame, (Session.acceptedFrames recent).getLast? = some frame → 0 < system.passes →
    system.port.genReg = session.publisher.last ∧
      ∀ i : Fin n, system.port.buffer.activeBank i = frame i

variable {quantiseInto : Gains → Frame n} {base : List (GainEvent n)}
  {old recent : List (Frame n × Option Generation)} {frames : List (Frame n)}

private theorem publish_recovery {gains : Gains}
    (hFrames : recent.map Prod.fst <+: frames) :
    Triple (gainWorld n) PassBetween (RecoveryInv base old frames)
      (RecoveryBoundary base old recent) (Session.publish quantiseInto gains)
      (fun result => RecoveryBoundary base old (recent ++ [(quantiseInto gains, result)])) := by
  rintro session system ⟨hOutcomes, hRecovering | hAgreed⟩
  · obtain ⟨hNone, hRecovering, hStalled⟩ := hRecovering
    have hShort : recent.length < Publisher.kResyncAfter :=
      lt_of_le_of_lt hStalled hRecovering.sound.stalled
    refine Session.publish_safe (Safe.weaken ?_
      ((recoveringOutline base recent.length (quantiseInto gains) ?_ ?_).publish_safe rfl
        ⟨hRecovering, hStalled⟩))
    · intro result publisher s hAfter
      refine ⟨by simp [hOutcomes], ?_⟩
      cases result with
      | none => exact .inl ⟨by simpa using hNone, hAfter.1, by simpa using hAfter.2⟩
      | some generation =>
          refine .inr ⟨?_, by simpa [hNone] using hAfter⟩
          rw [List.take_of_length_le (by simpa using Nat.succ_le_of_lt hShort)]
          simp
    · intro s publisher label hGuard
      exact hGuard.1
    · intro s publisher
      exact ⟨recent, hOutcomes, hFrames, .inl ⟨hNone, hShort⟩⟩
  · obtain ⟨hSome, hBoundary⟩ := hAgreed
    refine Session.publish_safe (Safe.weaken ?_
      ((alignedOutline base (Session.acceptedFrames recent) (quantiseInto gains) ?_ ?_ ?_).publish_safe
        rfl hBoundary))
    · rintro result publisher s ⟨-, hAfter⟩
      refine ⟨by simp [hOutcomes], .inr ⟨?_, ?_⟩⟩
      · rw [List.take_append, Session.acceptedFrames_append]
        exact List.append_ne_nil_of_left_ne_nil hSome _
      · cases result with
        | none => simpa using hAfter
        | some generation => simpa using hAfter
    · intro s publisher label hGuard
      exact hGuard.1
    · intro gen earlier armed s publisher choice hArmed _ _ hGuard
      by_contra hStalled
      have hPass := hGuard.2 rfl fun hRefuses => hStalled hRefuses.2
      rw [hArmed.passes] at hPass
      exact absurd hPass (by decide)
    · intro s publisher hAligned
      exact ⟨recent, hOutcomes, hFrames, .inr ⟨hSome, hAligned⟩⟩

private theorem publishAll_recovery (gains : List Gains) :
    Triple (gainWorld n) PassBetween (RecoveryInv base old (gains.map quantiseInto))
      (RecoveryBoundary base old []) (Session.publishAll quantiseInto gains)
      (fun _ session system => ∃ recent, recent.map Prod.fst = gains.map quantiseInto ∧
        RecoveryBoundary base old recent session system) := by
  refine Triple.consequence (Triple.forEach (L := fun finished session system =>
    RecoveryBoundary base old (finished.map fun call => (quantiseInto call.1, call.2))
      session system) ?_) (fun _ _ h => h) ?_
  · rintro finished item rest hAll
    have hPrefix : (finished.map fun call => (quantiseInto call.1, call.2)).map Prod.fst <+:
        gains.map quantiseInto := by
      refine ⟨(item :: rest).map quantiseInto, ?_⟩
      simp [hAll, Function.comp_def]
    simpa using publish_recovery hPrefix
  · rintro results session system ⟨hLength, hBoundary⟩
    refine ⟨_, ?_, hBoundary⟩
    rw [List.map_map, show (Prod.fst ∘ fun call : Gains × Option Generation =>
      (quantiseInto call.1, call.2)) = quantiseInto ∘ Prod.fst from rfl, ← List.map_map,
      List.map_fst_zip (by omega)]

private theorem stage_finishesIn (frame : Frame n) (self : Publisher n) :
    (MmioTransport.stage frame self).FinishesIn (n + 1) := by
  intro answer
  have hWords : (Code.forEach (write32 .data) (List.ofFn frame) self).FinishesIn n := by
    have hWord : ∀ word (self : Publisher n), (write32 .data word self).FinishesIn 1 :=
      fun word self answer => trivial
    simpa using Code.forEach_finishesIn hWord (List.ofFn frame) self
  exact hWords.bind fun _ after => Thread.finishesIn_done 0 after ()

private theorem store_finishesIn (gains : Gains) (self : Publisher n) :
    (Publisher.store quantiseInto gains self).FinishesIn (n + 2) := by
  unfold Publisher.store
  simp only [Code.bind_apply, Code.modify_apply, Code.get_apply, Thread.bind_done]
  rw [show n + 2 = n + 1 + 1 from rfl]
  refine (stage_finishesIn (quantiseInto gains) _).bind fun _ after => ?_
  intro answer
  trivial

private theorem backPressure_finishesIn (last : Generation) (self : Publisher n) :
    (Publisher.backPressure last self).FinishesIn 2 := by
  unfold Publisher.backPressure
  simp only [confirm, MmioTransport.generation, read32, Code.bind_apply, Code.ask_apply,
    Code.modify_apply, Code.pure_apply, Thread.bind_access, Thread.bind_done]
  intro generation
  beta_reduce
  cases Swap.ofPoll generation last with
  | confirmed => trivial
  | reset =>
      intro answer
      trivial
  | pending =>
      simp only [Code.bind_apply, Code.modify_apply, Code.get_apply, Thread.bind_done]
      split_ifs
      · trivial
      · intro answer
        trivial

/-- The accesses of a call: two reads at most, the start, the words, the commit. -/
theorem Session.publish_finishesIn (gains : Gains) (session : Session n) :
    (Session.publish quantiseInto gains session).FinishesIn (n + 4) := by
  have hPublish : ∀ self : Publisher n,
      (Publisher.publish quantiseInto gains self).FinishesIn (n + 4) := by
    intro self
    unfold Publisher.publish
    rw [Code.bind_apply, Code.get_apply, Thread.bind_done, show n + 4 = 2 + (n + 2) by omega]
    by_cases hPending : self.pending = true
    · rw [if_pos hPending, Code.bind_apply]
      refine (backPressure_finishesIn self.last self).bind fun admitted after => ?_
      cases admitted with
      | false => exact Thread.finishesIn_done _ after none
      | true => exact store_finishesIn gains after
    · rw [if_neg hPending]
      exact (store_finishesIn gains self).mono (by omega)
  exact (hPublish session.publisher).mapFields.bind fun _ after => Thread.finishesIn_done 0 _ _

/-- After a reset of the PL between two calls, one of the next `kResyncAfter`
calls is accepted as long as a pass separates accepted calls. From then on the
tag stays beside the expected generation, and a pass start after the last commit
leaves the tag at `last_` and the last accepted frame active. -/
theorem reset_recovery (quantiseInto : Gains → Frame n) (first second : List Gains)
    (port : GainPort) (before after : List (Move GainChoice)) (reset : GainChoice)
    (hCalled : first ≠ []) (hReset : reset.init = true)
    (hReturned : ((gainWorld n).run before
      (Session.start quantiseInto first port)).thread.result? ≠ none)
    (hGuarded : (gainWorld n).Guarded PassBetween after
      (Session.afterReset quantiseInto second reset
        ((gainWorld n).run before (Session.start quantiseInto first port)))) :
    ∃ recent, Recovers quantiseInto second (serveCount after)
      ((gainWorld n).run before (Session.start quantiseInto first port)).thread.fields
      ((gainWorld n).run after (Session.afterReset quantiseInto second reset
        ((gainWorld n).run before (Session.start quantiseInto first port)))).thread.fields
      ((gainWorld n).run after (Session.afterReset quantiseInto second reset
        ((gainWorld n).run before (Session.start quantiseInto first port)))).shared recent := by
  obtain ⟨hSound, hPending⟩ : Publisher.Sound ((gainWorld n).run before
      (Session.start quantiseInto first port)).thread.fields.publisher ∧
      ((gainWorld n).run before
        (Session.start quantiseInto first port)).thread.fields.publisher.pending = true := by
    obtain ⟨results, hResults⟩ := Option.ne_none_iff_exists'.mp hReturned
    have hRun := (Triple.run (fun _ _ _ _ h _ => h)
      (program_sound (gainWorld n) quantiseInto first) (fun _ _ _ _ => trivial) rfl
      (World.guarded_true _ before _)).2 results hResults
    exact ⟨hRun.1, hRun.2 hCalled⟩
  generalize (gainWorld n).run before (Session.start quantiseInto first port) = config at *
  have hStart : RecoveryBoundary (config.shared.clock reset .none).log
      config.thread.fields.outcomes [] config.thread.fields (config.shared.clock reset .none) :=
    ⟨by simp, .inl ⟨rfl, ⟨hPending, hSound, Settled.of_reset hReset _⟩, Nat.zero_le _⟩⟩
  obtain ⟨⟨recent, hOutcomes, hFrames, hPhase⟩, hEnd⟩ := Triple.run
    (by
      rintro result session system choice ⟨recent, hFrames, hBoundary⟩ hGuard
      exact ⟨recent, hFrames, hBoundary.idle hGuard.1⟩)
    (publishAll_recovery second)
    (by
      rintro result session system ⟨recent, hFrames, hBoundary⟩
      exact hBoundary.recoveryInv (by simp [hFrames]))
    hStart hGuarded
  refine ⟨recent, hOutcomes, hFrames, ?_, ?_, ?_, ?_⟩
  · intro hServes
    obtain ⟨results, hResults⟩ := (gainWorld n).run_finishes after
      (Session.afterReset quantiseInto second reset config)
      ((Code.forEach_finishesIn Session.publish_finishesIn second _).mono hServes)
    obtain ⟨finished, hAll, hBoundary⟩ := hEnd results hResults
    obtain rfl : recent = finished :=
      List.append_cancel_left (hOutcomes.symm.trans hBoundary.outcomes)
    simpa using congrArg List.length hAll
  · intro hMany
    rcases hPhase with ⟨_, hFew⟩ | ⟨hSome, _⟩
    · exact absurd hFew (by omega)
    · exact hSome
  · intro hSome
    rcases hPhase with ⟨hNone, _⟩ | ⟨_, hAligned⟩
    · exact absurd hNone hSome
    · have hTag := hAligned.genReg
      split_ifs at hTag
      · exact .inr hTag
      · exact .inl hTag
  · intro frame hLast hPasses
    rcases hPhase with ⟨hNone, _⟩ | ⟨_, hAligned⟩
    · simp [hNone] at hLast
    · exact hAligned.active_of_passes hLast hPasses

/-- A publisher whose commit was generation 1 meets a tag that restarts at 0: its
polls read as pending until the stall count runs out. -/
theorem reset_recovery_after_first :
    ∃ recent, Recovers id (List.replicate 17 fun _ => 9)
      (serveCount (List.replicate 100 (.serve (.plain true) : Move GainChoice)))
      ((gainWorld 1).run (List.replicate 4 (.serve (.plain false)))
        (Session.start id [fun _ => 7] .cleared)).thread.fields
      ((gainWorld 1).run (List.replicate 100 (.serve (.plain true)))
        (Session.afterReset id (List.replicate 17 fun _ => 9) ⟨false, true, 0⟩
          ((gainWorld 1).run (List.replicate 4 (.serve (.plain false)))
            (Session.start id [fun _ => 7] .cleared)))).thread.fields
      ((gainWorld 1).run (List.replicate 100 (.serve (.plain true)))
        (Session.afterReset id (List.replicate 17 fun _ => 9) ⟨false, true, 0⟩
          ((gainWorld 1).run (List.replicate 4 (.serve (.plain false)))
            (Session.start id [fun _ => 7] .cleared)))).shared recent :=
  reset_recovery id [fun _ => 7] (List.replicate 17 fun _ => 9) .cleared
    (List.replicate 4 (.serve (.plain false))) (List.replicate 100 (.serve (.plain true)))
    ⟨false, true, 0⟩ (by simp) rfl (by decide +kernel) (by decide +kernel)

end Recovery

end Lqr
