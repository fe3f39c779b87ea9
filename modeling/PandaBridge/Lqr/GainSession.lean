import Mathlib.Data.Fin.VecNotation
import PandaBridge.Lqr.GainWorld

/-! A client of the publisher: construct the transport, then publish one frame
after another. `Aligned` is the invariant that ties the publisher's counters to
the armed flag, the tag and the log of the gain port. -/
namespace Lqr

open Concurrent

/-- The publisher, whether its transport has been constructed, and the record of
its finished calls in call order. -/
structure Session (n : Nat) where
  publisher : Publisher n
  constructed : Bool
  outcomes : List (Frame n × Option Generation)

namespace Session

variable {n : Nat} {Gains Result : Type}

def initial (n : Nat) : Session n := ⟨Publisher.initial n, false, []⟩

/-- The frames whose call returned a generation, in call order. -/
def acceptedFrames (outcomes : List (Frame n × Option Generation)) : List (Frame n) :=
  outcomes.filterMap fun outcome => outcome.2.map fun _ => outcome.1

def accepted (session : Session n) : List (Frame n) := acceptedFrames session.outcomes

def onPublisher (code : PublisherCode n Result) : BridgeCode (Session n) Result :=
  Code.focus Session.publisher (fun publisher session => { session with publisher := publisher }) code

def publish (quantiseInto : Gains → Frame n) (gains : Gains) :
    BridgeCode (Session n) (Option Generation) := do
  let result ← onPublisher (Publisher.publish quantiseInto gains)
  Code.modify fun session =>
    { session with outcomes := session.outcomes ++ [(quantiseInto gains, result)] }
  pure result

def publishAll (quantiseInto : Gains → Frame n) (frames : List Gains) :
    BridgeCode (Session n) (List (Option Generation)) :=
  Code.forEach (publish quantiseInto) frames

/-- The constructor's read of `GEN`, then one call for each frame. -/
def program (quantiseInto : Gains → Frame n) (frames : List Gains) :
    BridgeCode (Session n) (List (Option Generation)) := do
  onPublisher MmioTransport.seed
  Code.modify fun session => { session with constructed := true }
  publishAll quantiseInto frames

theorem acceptedFrames_append (first second : List (Frame n × Option Generation)) :
    acceptedFrames (first ++ second) = acceptedFrames first ++ acceptedFrames second := by
  simp [acceptedFrames]

@[simp] theorem acceptedFrames_append_some (outcomes : List (Frame n × Option Generation))
    (frame : Frame n) (generation : Generation) :
    acceptedFrames (outcomes ++ [(frame, some generation)]) = acceptedFrames outcomes ++ [frame] := by
  simp [acceptedFrames]

@[simp] theorem acceptedFrames_append_none (outcomes : List (Frame n × Option Generation))
    (frame : Frame n) :
    acceptedFrames (outcomes ++ [(frame, none)]) = acceptedFrames outcomes := by
  simp [acceptedFrames]

variable {Shared Choice : Type} {world : World Shared Choice Access Access.Answer}
  {guard : Guard Shared (Session n) Choice Access} {inv : Shared → Session n → Prop}
  {post : Option Generation → Session n → Shared → Prop}

theorem publish_safe {quantiseInto : Gains → Frame n} {gains : Gains} {session : Session n}
    {shared : Shared}
    (h : Safe world (fun s publisher label => guard s { session with publisher := publisher } label)
      (fun s publisher => inv s { session with publisher := publisher })
      (fun result publisher s => post result
        ⟨publisher, session.constructed, session.outcomes ++ [(quantiseInto gains, result)]⟩ s)
      (Publisher.publish quantiseInto gains session.publisher) shared) :
    Safe world guard inv post (publish quantiseInto gains session) shared := by
  unfold publish
  rw [Code.bind_apply]
  refine Safe.bind (Q := fun result after s => ∃ publisher,
    after = { session with publisher := publisher } ∧
      post result
        ⟨publisher, session.constructed, session.outcomes ++ [(quantiseInto gains, result)]⟩ s) ?_ ?_
  · exact Safe.mapFields (h.weaken fun result publisher s hPost => ⟨publisher, rfl, hPost⟩)
  · rintro result after s ⟨publisher, rfl, hPost⟩
    exact hPost

end Session

section Aligned

variable {n : Nat}

/-- The publisher's members when the tag will be `gen` after every swap that is
still to come. -/
structure Tracks (accepted : List (Frame n)) (gen : Gen) (publisher : Publisher n) :
    Prop where
  expected : publisher.expected = gen.zeroExtend 32
  last : accepted ≠ [] → publisher.pending = true ∧ publisher.last = publisher.expected
  stalled : publisher.stalled < Publisher.kResyncAfter

/-- Publisher and gain port agree. `accepted` lists the frames committed after
`base`; the last of them may still be armed. -/
inductive Aligned (base : List (GainEvent n)) (accepted : List (Frame n)) (self : Publisher n)
    (system : GainSystem n) : Prop
  | settled {gen : Gen} (tracks : Tracks accepted gen self)
      (port : Settled base accepted gen system)
  | armed {gen : Gen} {earlier : List (Frame n)} {frame : Frame n}
      (split : accepted = earlier ++ [frame]) (tracks : Tracks accepted (gen + 1) self)
      (port : Armed base earlier gen frame system)
  | filling {gen : Gen} {frame : Frame n} {k : Nat} (tracks : Tracks accepted gen self)
      (port : Filling base accepted gen frame k system)

/-- The agreement between two calls: no frame is being streamed, and a publisher
that will poll has committed before. -/
structure Boundary (base : List (GainEvent n)) (accepted : List (Frame n)) (publisher : Publisher n)
    (system : GainSystem n) : Prop where
  polls : publisher.pending = true → accepted ≠ []
  phase : (∃ gen, Tracks accepted gen publisher ∧ Settled base accepted gen system) ∨
    ∃ gen earlier frame, accepted = earlier ++ [frame] ∧ Tracks accepted (gen + 1) publisher ∧
      Armed base earlier gen frame system

variable {base : List (GainEvent n)} {accepted : List (Frame n)} {self : Publisher n}
  {system : GainSystem n} {choice : GainChoice}

theorem Boundary.aligned (h : Boundary base accepted self system) :
    Aligned base accepted self system := by
  rcases h.phase with ⟨gen, hTracks, hPort⟩ | ⟨gen, earlier, frame, hSplit, hTracks, hPort⟩
  · exact .settled hTracks hPort
  · exact .armed hSplit hTracks hPort

theorem Boundary.idle (h : Boundary base accepted self system) (hInit : choice.init = false) :
    Boundary base accepted self (system.clock choice .none) := by
  refine ⟨h.polls, ?_⟩
  rcases h.phase with ⟨gen, hTracks, hPort⟩ | ⟨gen, earlier, frame, rfl, hTracks, hPort⟩
  · exact .inl ⟨gen, hTracks, hPort.idle hInit⟩
  · rcases hPort.idle hInit with ⟨_, hWait⟩ | ⟨_, hSwap⟩
    · exact .inr ⟨gen, earlier, frame, rfl, hTracks, hWait⟩
    · exact .inl ⟨gen + 1, hTracks, hSwap⟩

/-- The tag is the expected generation, or one behind it while a frame is armed. -/
theorem Aligned.genReg (h : Aligned base accepted self system) :
    system.port.genReg = if system.port.buffer.pending then (self.expected - 1) &&& kGenMask
      else self.expected := by
  unfold GainPort.genReg
  cases h with
  | settled hTracks hPort => simp [hPort.pending, hPort.gen_eq, hTracks.expected]
  | filling hTracks hPort => simp [hPort.pending, hPort.gen_eq, hTracks.expected]
  | armed hSplit hTracks hPort =>
      rw [if_pos hPort.pending, hPort.gen_eq, hTracks.expected, zeroExtend_pred_and_kGenMask]

/-- After the first accepted frame a poll tells an armed frame from a settled port. -/
theorem Aligned.ofPoll (h : Aligned base accepted self system) (hSome : accepted ≠ []) :
    Swap.ofPoll system.port.genReg self.last =
      if system.port.buffer.pending then .pending else .confirmed := by
  unfold GainPort.genReg
  cases h with
  | settled hTracks hPort =>
      rw [(hTracks.last hSome).2, hTracks.expected, hPort.gen_eq, Swap.ofPoll_zeroExtend,
        if_pos rfl, hPort.pending, if_neg (by decide)]
  | filling hTracks hPort =>
      rw [(hTracks.last hSome).2, hTracks.expected, hPort.gen_eq, Swap.ofPoll_zeroExtend,
        if_pos rfl, hPort.pending, if_neg (by decide)]
  | armed hSplit hTracks hPort =>
      rw [(hTracks.last hSome).2, hTracks.expected, hPort.gen_eq, Swap.ofPoll_zeroExtend,
        if_neg (by bv_omega), if_pos rfl, if_pos hPort.pending]

/-- Between two calls a poll says whether the last commit was swapped in. -/
theorem Boundary.poll (h : Boundary base accepted self system) (hPending : self.pending = true) :
    (Swap.ofPoll system.port.genReg self.last = .confirmed ∧
        ∃ gen, Tracks accepted gen self ∧ Settled base accepted gen system) ∨
      (Swap.ofPoll system.port.genReg self.last = .pending ∧
        ∃ gen earlier frame, accepted = earlier ++ [frame] ∧ Tracks accepted (gen + 1) self ∧
          Armed base earlier gen frame system) := by
  have hPoll := h.aligned.ofPoll (h.polls hPending)
  rcases h.phase with ⟨gen, hTracks, hPort⟩ | ⟨gen, earlier, frame, hSplit, hTracks, hPort⟩
  · exact .inl ⟨by simpa [hPort.pending] using hPoll, gen, hTracks, hPort⟩
  · exact .inr ⟨by simpa [hPort.pending] using hPoll, gen, earlier, frame, hSplit, hTracks, hPort⟩

/-- Commits and swaps alternate: an armed frame is the last accepted one, and a
frame is staged only after every earlier one was swapped in. -/
def SwappedInOrder (accepted : List (Frame n)) (system : GainSystem n) : Prop :=
  if system.port.buffer.pending then
    ∃ earlier frame, accepted = earlier ++ [frame] ∧
      system.log = gainHistory earlier ++ [.start, .commit]
  else system.log = gainHistory accepted ∨ system.log = gainHistory accepted ++ [.start]

theorem Aligned.swappedInOrder (h : Aligned [] accepted self system) :
    SwappedInOrder accepted system := by
  cases h with
  | settled hTracks hPort => simp [SwappedInOrder, hPort.pending, hPort.log]
  | filling hTracks hPort => simp [SwappedInOrder, hPort.pending, hPort.log]
  | @armed gen earlier frame hSplit hTracks hPort =>
      rw [SwappedInOrder, if_pos hPort.pending]
      exact ⟨earlier, frame, hSplit, hPort.log⟩

/-- The frames that became active: all accepted ones, less the armed one. -/
theorem SwappedInOrder.swapped (h : SwappedInOrder accepted system) :
    system.swapped = if system.port.buffer.pending then accepted.dropLast else accepted := by
  unfold SwappedInOrder at h
  unfold GainSystem.swapped
  split_ifs at h ⊢ with hPending
  · obtain ⟨earlier, frame, rfl, hLog⟩ := h
    simp [hLog, List.filterMap_cons, GainEvent.bank?]
  · rcases h with hLog | hLog
    · simp [hLog]
    · simp [hLog, List.filterMap_cons, GainEvent.bank?]

theorem Aligned.swapped_of_passStart (h : Aligned [] accepted self system)
    (hInit : choice.init = false) (hPass : choice.passStart = true) :
    (system.clock choice .none).swapped = accepted := by
  unfold GainSystem.swapped
  cases h with
  | settled hTracks hPort => simp [(hPort.idle hInit).log]
  | filling hTracks hPort => simp [(hPort.idle hInit).log, List.filterMap_cons, GainEvent.bank?]
  | armed hSplit hTracks hPort =>
      rcases hPort.idle hInit with ⟨hNoPass, _⟩ | ⟨_, hSwap⟩
      · simp [hPass] at hNoPass
      · simp [hSwap.log, hSplit]

/-- The stall count, the drop count, the scratch bank and the log are free. -/
theorem Tracks.recount {gen : Gen} (h : Tracks accepted gen self) {stalled : Nat}
    (hStalled : stalled < Publisher.kResyncAfter) (dropped : Nat) (scratch : Frame n)
    (log : List PublisherEvent) :
    Tracks accepted gen
      { self with stalled := stalled, dropped := dropped, scratch := scratch, log := log } :=
  ⟨h.expected, h.last, hStalled⟩

theorem Tracks.commit {gen : Gen} (h : Tracks accepted gen self) (frame : Frame n) :
    Tracks (accepted ++ [frame]) (gen + 1)
      { self with
        expected := (self.expected + 1) &&& kGenMask
        last := (self.expected + 1) &&& kGenMask
        pending := true } := by
  refine ⟨?_, fun _ => ⟨rfl, rfl⟩, h.stalled⟩
  rw [← zeroExtend_succ_and_kGenMask]
  simp only [h.expected]

end Aligned

/-- The label does not carry a PL reset. -/
def Calm {Request : Type} : Label GainChoice Request → Prop
  | .idle choice => choice.init = false
  | .serve _ choice => choice.init = false
  | .finished => True

instance {Request : Type} : (label : Label GainChoice Request) → Decidable (Calm label)
  | .idle choice => inferInstanceAs (Decidable (choice.init = false))
  | .serve _ choice => inferInstanceAs (Decidable (choice.init = false))
  | .finished => inferInstanceAs (Decidable True)

section Outline

variable {n : Nat} {guard : Guard (GainSystem n) (Publisher n) GainChoice Access}
  {inv : GainSystem n → Publisher n → Prop}
  {post : Option Generation → Publisher n → GainSystem n → Prop}

/-- The writes of one call that starts over a settled port. -/
def alignedStage (base : List (GainEvent n)) (accepted : List (Frame n)) (frame : Frame n)
    (hCalm : ∀ system self label, guard system self label → Calm label)
    (hInv : ∀ system self, Aligned base accepted self system → inv system self)
    (hPost : ∀ generation self system, self.pending = true →
      Boundary base (accepted ++ [frame]) self system → post (some generation) self system) :
    StageOutline (gainWorld n) guard inv frame post where
  start self system := ∃ gen, Tracks accepted gen self ∧ Settled base accepted gen system
  fill k self system := ∃ gen, Tracks accepted gen self ∧ Filling base accepted gen frame k system
  start_stable self system choice := by
    rintro ⟨gen, hTracks, hPort⟩ hGuard
    exact ⟨gen, hTracks, hPort.idle (hCalm _ _ _ hGuard)⟩
  fill_stable k self system choice := by
    rintro ⟨gen, hTracks, hPort⟩ hGuard
    exact ⟨gen, hTracks, hPort.idle (hCalm _ _ _ hGuard)⟩
  start_inv self system := by
    rintro ⟨gen, hTracks, hPort⟩
    exact hInv system self (.settled hTracks hPort)
  fill_inv k self system := by
    rintro ⟨gen, hTracks, hPort⟩
    exact hInv system self (.filling hTracks hPort)
  start_serve self system choice := by
    rintro ⟨gen, hTracks, hPort⟩ hGuard
    exact ⟨gen, hTracks, hPort.start (hCalm _ _ _ hGuard)⟩
  fill_serve k hk self system choice := by
    rintro ⟨gen, hTracks, hPort⟩ hGuard
    exact ⟨gen, hTracks, hPort.data (hCalm _ _ _ hGuard) hk⟩
  commit_serve self system choice := by
    rintro ⟨gen, hTracks, hPort⟩ hGuard
    exact hPost _ _ _ rfl ⟨by simp, .inr ⟨gen, accepted, frame, rfl, hTracks.commit frame,
      hPort.commit (hCalm _ _ _ hGuard)⟩⟩

/-- One call in step with the gain port, under any guard that excludes resets
and never lets a call give up on an armed commit. -/
def alignedOutline (base : List (GainEvent n)) (accepted : List (Frame n)) (frame : Frame n)
    (hCalm : ∀ system self label, guard system self label → Calm label)
    (hPatient : ∀ gen earlier armed system self choice, Armed base earlier gen armed system →
      self.pending = true → Swap.ofPoll system.port.genReg self.last = .pending →
      guard system self (.serve (.read32 .gen) choice) →
      self.stalled + 1 < Publisher.kResyncAfter)
    (hInv : ∀ system self, Aligned base accepted self system → inv system self) :
    PublishOutline (gainWorld n) guard inv frame (Boundary base accepted)
      (fun result self system => self.pending = true ∧
        Boundary base (accepted ++ result.toList.map fun _ => frame) self system) where
  toStageOutline := alignedStage base accepted frame hCalm hInv fun _ _ _ hPending h =>
    ⟨hPending, h⟩
  poll self system := self.pending = true ∧ Boundary base accepted self system
  adopt _ _ := False
  poll_stable self system choice h hGuard := ⟨h.1, h.2.idle (hCalm _ _ _ hGuard)⟩
  adopt_stable _ _ _ h _ := h
  poll_inv self system h := hInv system self h.2.aligned
  adopt_inv _ _ h := h.elim
  enter_poll self system h hPending := ⟨hPending, h⟩
  enter_start self system h hPending := by
    rcases h.phase with ⟨gen, hTracks, hPort⟩ | ⟨gen, earlier, armed, hSplit, hTracks, hPort⟩
    · exact ⟨gen, hTracks.recount hTracks.stalled _ _ _, hPort⟩
    · have hCommitted := (hTracks.last (by simp [hSplit])).1
      simp [hPending] at hCommitted
  poll_confirmed self system choice h hGuard hSwap := by
    rcases h.2.poll h.1 with ⟨_, gen, hTracks, hPort⟩ | ⟨hWait, _⟩
    · exact ⟨gen, hTracks.recount Publisher.kResyncAfter_pos _ _ _,
        hPort.idle (hCalm _ _ _ hGuard)⟩
    · exact absurd (hSwap.symm.trans hWait) (by decide)
  poll_reset self system choice h hGuard hSwap := by
    rcases h.2.poll h.1 with ⟨hIn, _⟩ | ⟨hWait, _⟩
    · exact absurd (hSwap.symm.trans hIn) (by decide)
    · exact absurd (hSwap.symm.trans hWait) (by decide)
  poll_refused self system choice h hGuard hSwap hStalled := by
    have hNext := h.2.idle (hCalm _ _ _ hGuard)
    simp only [Option.toList_none, List.map_nil, List.append_nil]
    refine ⟨h.1, hNext.polls, ?_⟩
    rcases hNext.phase with ⟨gen, hTracks, hPort⟩ | ⟨gen, earlier, armed, hSplit, hTracks, hPort⟩
    · exact .inl ⟨gen, hTracks.recount hStalled _ _ _, hPort⟩
    · exact .inr ⟨gen, earlier, armed, hSplit, hTracks.recount hStalled _ _ _, hPort⟩
  poll_stalled self system choice h hGuard hSwap hStalled := by
    rcases h.2.poll h.1 with ⟨hIn, _⟩ | ⟨hWait, gen, earlier, armed, hSplit, hTracks, hPort⟩
    · exact absurd (hSwap.symm.trans hIn) (by decide)
    · have := hPatient gen earlier armed system self choice hPort h.1 hWait hGuard
      omega
  adopt_serve _ _ _ h _ := h.elim

end Outline

section Claims

variable {n : Nat} {Gains : Type}

/-- The next poll of `GEN` makes this publisher give up on a commit that is
still armed. -/
def StallEscape (system : GainSystem n) (publisher : Publisher n) : Prop :=
  publisher.pending = true ∧ Publisher.kResyncAfter ≤ publisher.stalled + 1 ∧
    Swap.ofPoll system.port.genReg publisher.last = .pending

instance (system : GainSystem n) (publisher : Publisher n) :
    Decidable (StallEscape system publisher) := inferInstanceAs (Decidable (_ ∧ _ ∧ _))

/-- The step is no PL reset. -/
def NoReset : Guard (GainSystem n) (Session n) GainChoice Access := fun _ _ label => Calm label

/-- The step is no PL reset, and no call takes the stall escape in it. -/
def NoStallEscape : Guard (GainSystem n) (Session n) GainChoice Access :=
  fun system session label => Calm label ∧
    ((label matches .serve (.read32 .gen) _) = true → ¬ StallEscape system session.publisher)

instance (system : GainSystem n) (session : Session n) (label : Label GainChoice Access) :
    Decidable (NoReset system session label) := inferInstanceAs (Decidable (Calm label))

instance (system : GainSystem n) (session : Session n) (label : Label GainChoice Access) :
    Decidable (NoStallEscape system session label) := inferInstanceAs (Decidable (_ ∧ (_ → _)))

/-- A session over an idle gain port, before the transport is constructed. -/
def Session.start (quantiseInto : Gains → Frame n) (frames : List Gains) (port : GainPort) :
    Config (GainSystem n) (Session n) Access Access.Answer (List (Option Generation)) :=
  ⟨⟨port, [], 0⟩, Session.program quantiseInto frames (Session.initial n)⟩

/-- Every accepted frame is one that the caller asked to publish, and the first
call is never refused. -/
structure Session.Recorded (quantiseInto : Gains → Frame n) (frames : List Gains)
    (session : Session n) : Prop where
  requested : ∀ frame ∈ session.accepted, ∃ gains ∈ frames, frame = quantiseInto gains
  nonempty : session.outcomes ≠ [] → session.accepted ≠ []

/-- What holds between two calls of a session that began over an idle port. -/
structure SessionBoundary (quantiseInto : Gains → Frame n) (frames : List Gains)
    (session : Session n) (system : GainSystem n) : Prop where
  constructed : session.constructed = true
  boundary : Boundary [] session.accepted session.publisher system
  recorded : session.Recorded quantiseInto frames

/-- What holds at every point of such a session: before the constructor has read
`GEN` nothing has happened yet. -/
def SessionInv (quantiseInto : Gains → Frame n) (frames : List Gains) (system : GainSystem n)
    (session : Session n) : Prop :=
  if session.constructed then
    Aligned [] session.accepted session.publisher system ∧ session.Recorded quantiseInto frames
  else system.log = []

variable {quantiseInto : Gains → Frame n} {frames : List Gains}

private theorem publish_triple {gains : Gains} (hGains : gains ∈ frames) :
    Triple (gainWorld n) NoStallEscape (SessionInv quantiseInto frames)
      (SessionBoundary quantiseInto frames) (Session.publish quantiseInto gains)
      (fun _ => SessionBoundary quantiseInto frames) := by
  rintro session system ⟨hConstructed, hBoundary, hRecorded⟩
  refine Session.publish_safe (Safe.weaken ?_
    ((alignedOutline [] session.accepted (quantiseInto gains) ?_ ?_ ?_).publish_safe rfl hBoundary))
  · rintro result publisher s ⟨hPending, hAfter⟩
    cases result with
    | none =>
        simp only [Option.toList_none, List.map_nil, List.append_nil] at hAfter
        refine ⟨hConstructed, by simpa [Session.accepted] using hAfter, ?_, ?_⟩
        · simpa [Session.accepted] using hRecorded.requested
        · intro _
          simpa [Session.accepted] using hAfter.polls hPending
    | some generation =>
        refine ⟨hConstructed, by simpa [Session.accepted] using hAfter, ?_, by simp [Session.accepted]⟩
        intro frame hMem
        simp only [Session.accepted, Session.acceptedFrames_append_some, List.mem_append,
          List.mem_singleton] at hMem
        rcases hMem with hOld | rfl
        · exact hRecorded.requested frame hOld
        · exact ⟨gains, hGains, rfl⟩
  · intro s publisher label hGuard
    exact hGuard.1
  · intro gen earlier armed s publisher choice hArmed hPending hPoll hGuard
    by_contra hStalled
    exact hGuard.2 rfl ⟨hPending, by simpa using hStalled, hPoll⟩
  · intro s publisher hAligned
    rw [SessionInv, if_pos hConstructed]
    exact ⟨hAligned, hRecorded.requested, hRecorded.nonempty⟩

/-- The constructor reads the tag of an idle port, so the first call starts in
agreement with it. -/
private theorem program_triple :
    Triple (gainWorld n) NoStallEscape (SessionInv quantiseInto frames)
      (fun session system => session = Session.initial n ∧ ∃ gen, Settled [] [] gen system)
      (Session.program quantiseInto frames)
      (fun _ => SessionBoundary quantiseInto frames) := by
  have hCalls : Triple (gainWorld n) NoStallEscape (SessionInv quantiseInto frames)
      (SessionBoundary quantiseInto frames) (Session.publishAll quantiseInto frames)
      (fun _ => SessionBoundary quantiseInto frames) := by
    refine Triple.consequence (Triple.forEach (L := fun _ => SessionBoundary quantiseInto frames) ?_)
      (fun _ _ h => h) (fun _ _ _ h => h.2)
    intro finished gains rest hAll
    exact publish_triple (by simp [hAll])
  rintro session system ⟨rfl, gen, hPort⟩
  refine Safe.access (fun s => Settled [] [] gen s) hPort ?_ ?_ ?_
  · intro s choice hs hGuard
    exact hs.idle hGuard.1
  · intro s hs
    simpa [SessionInv, Session.initial, gainHistory] using hs.log
  · intro s choice hs hGuard
    refine hCalls _ _ ⟨rfl, ⟨?_, Or.inl ⟨gen, ⟨?_, ?_, ?_⟩, hs.idle hGuard.1⟩⟩, ?_, ?_⟩
    · intro hPending
      exact absurd hPending (by simp [Session.initial, Publisher.initial])
    · show s.port.genReg &&& kGenMask = gen.zeroExtend 32
      rw [GainPort.genReg, hs.gen_eq, zeroExtend_and_kGenMask]
    · intro hSome
      exact absurd rfl hSome
    · simp [Session.initial, Publisher.initial, Publisher.kResyncAfter]
    · intro frame hMem
      simp [Session.initial, Session.accepted, Session.acceptedFrames] at hMem
    · intro hCalled
      exact absurd rfl hCalled

/-- Every configuration that a session reaches without a reset and without the
stall escape satisfies the session invariant. -/
theorem session_run {port : GainPort} (hIdle : port.buffer.pending = false)
    {schedule : List (Move GainChoice)}
    (hGuarded : (gainWorld n).Guarded NoStallEscape schedule
      (Session.start quantiseInto frames port)) :
    SessionInv quantiseInto frames
      ((gainWorld n).run schedule (Session.start quantiseInto frames port)).shared
      ((gainWorld n).run schedule (Session.start quantiseInto frames port)).thread.fields := by
  refine (Triple.run ?_ program_triple ?_ ⟨rfl, port.buffer.gen, ?_⟩ hGuarded).1
  · rintro result session system choice ⟨hConstructed, hBoundary, hRecorded⟩ hGuard
    exact ⟨hConstructed, hBoundary.idle hGuard.1, hRecorded⟩
  · rintro result session system ⟨hConstructed, hBoundary, hRecorded⟩
    rw [SessionInv, if_pos hConstructed]
    exact ⟨hBoundary.aligned, hRecorded⟩
  · exact ⟨hIdle, rfl, rfl, by simp⟩

/-- Without a reset and without the stall escape, every bank that becomes active
is one published frame. -/
theorem swapped_banks_published (quantiseInto : Gains → Frame n) (frames : List Gains)
    (port : GainPort) (schedule : List (Move GainChoice)) (hIdle : port.buffer.pending = false)
    (hGuarded : (gainWorld n).Guarded NoStallEscape schedule
      (Session.start quantiseInto frames port)) :
    ∀ bank ∈ ((gainWorld n).run schedule (Session.start quantiseInto frames port)).shared.swapped,
      ∃ gains ∈ frames, bank = quantiseInto gains := by
  intro bank hBank
  have hInv := session_run hIdle hGuarded
  unfold SessionInv at hInv
  split_ifs at hInv with hConstructed
  · obtain ⟨hAligned, hRecorded⟩ := hInv
    rw [hAligned.swappedInOrder.swapped] at hBank
    split_ifs at hBank
    · exact hRecorded.requested bank (List.mem_of_mem_dropLast hBank)
    · exact hRecorded.requested bank hBank
  · simp [GainSystem.swapped, hInv] at hBank

/-- A gain port after a reset, with cleared banks. -/
def GainPort.cleared : GainPort where
  fill := { cnt := 0, wrAddr := 0, wrData := 0, wrEn := false }
  buffer :=
    { stores := fun _ => { ram := fun _ => 0, rdM := 0, rdR := 0 }
      activeBuf := engineBuffers - 1
      pending := false
      gen := 0 }

/-- One clock without a reset; the engine's read address plays no role here. -/
def GainChoice.plain (passStart : Bool) : GainChoice := ⟨passStart, false, 0⟩

theorem swapped_banks_published_two :
    ![1, 2] ∈ ((gainWorld 2).run
        (List.replicate 5 (.serve (.plain false)) ++ [.idle (.plain true)])
        (Session.start id [![1, 2]] .cleared)).shared.swapped ∧
      ∃ gains ∈ [(![1, 2] : Frame 2)], ![1, 2] = id gains := by
  have hSwapped : ![1, 2] ∈ ((gainWorld 2).run
      (List.replicate 5 (.serve (.plain false)) ++ [.idle (.plain true)])
      (Session.start id [![1, 2]] .cleared)).shared.swapped := by decide +kernel
  constructor
  · exact hSwapped
  · have hPublished := swapped_banks_published (n := 2) (id : Frame 2 → Frame 2) [![1, 2]] .cleared
      (List.replicate 5 (.serve (.plain false)) ++ [.idle (.plain true)]) rfl (by decide +kernel)
    exact hPublished _ hSwapped

/-- The stall escape restages a bank whose commit is still armed: a pass start
after the first word of the second frame activates words of both. -/
theorem stall_escape_tears_bank :
    (gainWorld 2).Guarded NoReset
        (List.replicate 24 (.serve (.plain false)) ++ [.idle (.plain true)])
        (Session.start id (![1, 2] :: List.replicate 16 ![3, 4]) .cleared) ∧
      ∃ bank ∈ ((gainWorld 2).run
          (List.replicate 24 (.serve (.plain false)) ++ [.idle (.plain true)])
          (Session.start id (![1, 2] :: List.replicate 16 ![3, 4]) .cleared)).shared.swapped,
        ∀ gains ∈ (![1, 2] : Frame 2) :: List.replicate 16 ![3, 4], bank ≠ id gains := by
  constructor
  · decide +kernel
  · refine ⟨![3, 2], by decide +kernel, ?_⟩
    intro gains hGains
    rcases List.mem_cons.mp hGains with hFirst | hLater
    · rw [hFirst]
      decide
    · rw [List.eq_of_mem_replicate hLater]
      decide

/-- What `confirm(transport, last_, 0)` returns in one clock of the port. -/
def confirmNow (publisher : Publisher n) (choice : GainChoice) (system : GainSystem n) :
    Option Swap :=
  ((gainWorld n).move (.serve choice)
    ⟨system, confirm publisher.last 0 publisher⟩).thread.result?

/-- The tag never leaves the expected generation by more than the armed commit, a
poll tells exactly whether the last commit was swapped in, and every accepted
frame is swapped in once, in order, by the first pass start after its commit. -/
structure GenerationAgreement (session : Session n) (system : GainSystem n) : Prop where
  tag : system.port.genReg = session.publisher.expected ∨
    system.port.genReg = (session.publisher.expected - 1) &&& kGenMask
  confirmed : session.outcomes ≠ [] → ∀ choice,
    (confirmNow session.publisher choice system = some .confirmed ↔
      system.swapped = session.accepted)
  pending : session.outcomes ≠ [] → ∀ choice,
    (confirmNow session.publisher choice system = some .pending ↔
      system.port.buffer.pending = true)
  no_reset : session.outcomes ≠ [] → ∀ choice,
    confirmNow session.publisher choice system ≠ some .reset
  order : SwappedInOrder session.accepted system
  next_pass : ∀ choice : GainChoice, choice.init = false → choice.passStart = true →
    (system.clock choice .none).swapped = session.accepted

/-- As long as no call takes the stall escape, publisher and port agree in every
state after the transport is constructed. -/
theorem generation_agreement (quantiseInto : Gains → Frame n) (frames : List Gains)
    (port : GainPort) (schedule : List (Move GainChoice)) (hIdle : port.buffer.pending = false)
    (hGuarded : (gainWorld n).Guarded NoStallEscape schedule
      (Session.start quantiseInto frames port))
    (hConstructed : ((gainWorld n).run schedule
      (Session.start quantiseInto frames port)).thread.fields.constructed = true) :
    GenerationAgreement
      ((gainWorld n).run schedule (Session.start quantiseInto frames port)).thread.fields
      ((gainWorld n).run schedule (Session.start quantiseInto frames port)).shared := by
  have hInv := session_run hIdle hGuarded
  rw [SessionInv, if_pos hConstructed] at hInv
  generalize ((gainWorld n).run schedule (Session.start quantiseInto frames port)).shared =
    system at *
  generalize ((gainWorld n).run schedule
    (Session.start quantiseInto frames port)).thread.fields = session at *
  obtain ⟨hAligned, hRecorded⟩ := hInv
  have hPoll : session.outcomes ≠ [] → ∀ choice, confirmNow session.publisher choice system =
      some (if system.port.buffer.pending then .pending else .confirmed) :=
    fun hCalled choice => congrArg some (hAligned.ofPoll (hRecorded.nonempty hCalled))
  have hArmed : session.outcomes ≠ [] → session.accepted.dropLast ≠ session.accepted := by
    intro hCalled hSame
    have hSome := List.length_pos_iff.mpr (hRecorded.nonempty hCalled)
    have hLength := congrArg List.length hSame
    rw [List.length_dropLast] at hLength
    omega
  refine ⟨?_, ?_, ?_, ?_, hAligned.swappedInOrder, ?_⟩
  · rw [hAligned.genReg]
    split_ifs
    · exact .inr rfl
    · exact .inl rfl
  · intro hCalled choice
    rw [hPoll hCalled choice, hAligned.swappedInOrder.swapped]
    cases system.port.buffer.pending <;> simp [hArmed hCalled]
  · intro hCalled choice
    rw [hPoll hCalled choice]
    cases system.port.buffer.pending <;> simp
  · intro hCalled choice
    rw [hPoll hCalled choice]
    cases system.port.buffer.pending <;> simp
  · intro choice hInit hPass
    exact hAligned.swapped_of_passStart hInit hPass

/-- The tag of this port wraps in the second swap. -/
def GainPort.beforeWrap : GainPort :=
  { GainPort.cleared with buffer := { GainPort.cleared.buffer with gen := 0xFFFE } }

/-- Two frames of one word, each swapped in by the clock after its commit. -/
def wrapSchedule : List (Move GainChoice) :=
  List.replicate 4 (.serve (.plain false)) ++ .idle (.plain true) ::
    List.replicate 4 (.serve (.plain false)) ++ [.idle (.plain true)]

theorem generation_agreement_wrap :
    GenerationAgreement
      ((gainWorld 1).run wrapSchedule
        (Session.start id [fun _ => 7, fun _ => 8] .beforeWrap)).thread.fields
      ((gainWorld 1).run wrapSchedule
        (Session.start id [fun _ => 7, fun _ => 8] .beforeWrap)).shared :=
  generation_agreement id [fun _ => 7, fun _ => 8] .beforeWrap wrapSchedule rfl
    (by decide +kernel) (by decide +kernel)

end Claims

end Lqr
