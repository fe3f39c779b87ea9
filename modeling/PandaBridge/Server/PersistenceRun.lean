import PandaBridge.Server.PersistenceWrite

/-! Runs of the server with its persistence: what is not in the state file is found by the next
check, unless a write that was to save it has failed. -/
namespace Server

open Transition

variable {Lock Value : Type} {layout : ChangeLayout Lock}

/-- Where a failing write loses a change: the thread's own write has the check before it, and any
write has moved the change context once its file is open. -/
def writeSucceeds (state : PersistState Lock Value) : PersistEvent Lock Value → Bool
  | .fopen false => (state.writer.map PersistWriter.byThread) != some true
  | .fclose false | .rename false => false
  | _ => true

namespace PersistState

variable [DecidableEq Lock] {state next : PersistState Lock Value}

theorem Inv.fopen (hInv : state.Inv layout) {writer : PersistWriter Lock Value}
    (hWriter : state.writer = some writer) {ok : Bool}
    (hGuard : writeSucceeds state (.fopen ok) = true)
    (hStep : state.write layout writer (.fopen ok) = some next) : next.Inv layout := by
  obtain ⟨byThread, phase⟩ := writer
  cases phase with
  | opening =>
      cases ok with
      | true =>
          obtain rfl := Option.some.inj hStep
          exact hInv.covering (Nat.le_refl _) hInv.context nofun nofun fun _ => trivial
      | false =>
          obtain rfl := Option.some.inj hStep
          have hClient : byThread ≠ true := by
            rintro rfl
            simp [writeSucceeds, hWriter] at hGuard
          refine hInv.endWrite byThread (fun h => hClient ?_) (fun lock h => ?_) fun entry h => ?_
          · rw [hWriter] at h
            exact (PersistWriter.mk.inj (Option.some.inj h)).1
          · unfold WillVisit at h
            rw [hWriter] at h
            exact h
          · unfold Saved at h
            rw [hWriter] at h
            exact h
  | refreshing fresh todo => exact absurd hStep (by simp [write_refreshing])
  | _ => exact absurd hStep (by simp [write])

theorem Inv.fclose (hInv : state.Inv layout) {writer : PersistWriter Lock Value}
    (hWriter : state.writer = some writer)
    (hStep : state.write layout writer (.fclose true) = some next) : next.Inv layout := by
  obtain ⟨byThread, phase⟩ := writer
  cases phase with
  | closing lines =>
      obtain rfl := Option.some.inj hStep
      refine hInv.writing hWriter (Nat.le_refl _) (by simp) (by simp) (by simp) ?_ ?_
      · intro lock _ _ h
        unfold WillVisit at h
        rw [hWriter] at h
        exact absurd h id
      · intro entry _ _ _ h
        unfold Saved at h
        rw [hWriter] at h
        exact h
  | refreshing fresh todo => exact absurd hStep (by simp [write_refreshing])
  | _ => exact absurd hStep (by simp [write])

theorem Inv.rename (hInv : state.Inv layout) {writer : PersistWriter Lock Value}
    (hWriter : state.writer = some writer)
    (hStep : state.write layout writer (.rename true) = some next) : next.Inv layout := by
  obtain ⟨byThread, phase⟩ := writer
  cases phase with
  | closing lines => exact absurd hStep (by simp [write])
  | closed lines =>
      obtain rfl := Option.some.inj hStep
      refine hInv.endWrite byThread (by rw [hWriter]; simp) (fun lock h => ?_) fun entry h => ?_
      · unfold WillVisit at h
        rw [hWriter] at h
        exact h
      · unfold Saved at h
        rw [hWriter] at h
        exact h
  | refreshing fresh todo => exact absurd hStep (by simp [write_refreshing])
  | _ => exact absurd hStep (by simp [write])

theorem Inv.step (hInv : state.Inv layout) (hLayout : Persisted layout)
    {event : PersistEvent Lock Value} (hGuard : writeSucceeds state event = true)
    (hStep : persistSystem layout state event = some next) : next.Inv layout := by
  cases event with
  | server event =>
      obtain ⟨server, hServer, rfl⟩ := Option.map_eq_some_iff.mp hStep
      exact hInv.serverStep (changeSystem_step hServer)
  | wake => exact hInv.wake hStep
  | refresh => exact hInv.refresh hStep
  | check => exact hInv.check hStep
  | lock => exact hInv.lock hStep
  | save => exact hInv.save hStep
  | stop =>
      simp only [persistSystem] at hStep
      split_ifs at hStep
      obtain rfl := Option.some.inj hStep
      exact hInv.keep hInv.sound rfl rfl (Nat.le_refl _) rfl rfl hInv.context hInv.refreshing
        hInv.checking fun entry index _ h => by
          cases h with
          | ahead h => exact .ahead ⟨h.context, h.refresh⟩
          | noticing h => exact .noticing h
          | committed h => exact .committed h
  | fopen ok =>
      obtain ⟨writer, hWriter, hWrite⟩ := Option.bind_eq_some_iff.mp hStep
      exact hInv.fopen hWriter hGuard hWrite
  | update =>
      obtain ⟨writer, hWriter, hWrite⟩ := Option.bind_eq_some_iff.mp hStep
      exact hInv.update hWriter hWrite
  | generate =>
      obtain ⟨writer, hWriter, hWrite⟩ := Option.bind_eq_some_iff.mp hStep
      exact hInv.generate hLayout hWriter hWrite
  | fclose ok =>
      obtain ⟨writer, hWriter, hWrite⟩ := Option.bind_eq_some_iff.mp hStep
      cases ok with
      | true => exact hInv.fclose hWriter hWrite
      | false => exact absurd hGuard nofun
  | rename ok =>
      obtain ⟨writer, hWriter, hWrite⟩ := Option.bind_eq_some_iff.mp hStep
      cases ok with
      | true => exact hInv.rename hWriter hWrite
      | false => exact absurd hGuard nofun

/-- The server has started its persistence: the state file was loaded, or there was none and the
context is still zero. -/
structure Started (layout : ChangeLayout Lock) (state : PersistState Lock Value) : Prop where
  server : state.server.Fresh
  context : ∀ ix, state.context ix ≤ state.server.index
  thread : state.thread = .waiting
  writer : state.writer = none
  loaded : (∀ entry, layout.Has entry → layout.listed entry.1 = true →
    0 < (state.server.cells entry).updateIndex → state.file entry = state.current entry) ∨
      ∀ ix, state.context ix = 0

theorem Started.inv (h : state.Started layout) : state.Inv layout := by
  refine ⟨(ChangeInv.start h.server).sound, h.context, ?_, ?_, ?_, ?_, ?_, ?_⟩
  · rw [h.thread]
    nofun
  · rw [h.thread]
    nofun
  · rw [h.writer]
    nofun
  · rw [h.writer]
    nofun
  · intro updater entry version index hUpdater
    rw [h.server.updaters] at hUpdater
    exact absurd hUpdater nofun
  · intro entry hHas hListed hIndex
    rcases h.loaded with hFile | hZero
    · refine .inl ?_
      unfold Saved
      rw [h.writer]
      exact hFile entry hHas hListed hIndex
    · refine .inr (.inr (.ahead (.of_context ?_ ?_)))
      · rw [hZero]
        exact hIndex
      · rw [h.thread]
        nofun

/-! ### The next check -/

/-- The state file does not hold the value of some entry. -/
def Differs (layout : ChangeLayout Lock) (state : PersistState Lock Value) : Prop :=
  ∃ entry, layout.Has entry ∧ layout.listed entry.1 = true ∧
    0 < (state.server.cells entry).updateIndex ∧ state.file entry ≠ state.current entry

/-- The check that is on its way, or else the next one, finds the update. -/
def Watching (layout : ChangeLayout Lock) (state : PersistState Lock Value)
    (entry : ChangeEntry Lock) (index : Nat) : Prop :=
  match state.thread with
  | .waiting | .starting _ => state.context (layout.changeIx entry.1) < index
  | .refreshing _ report todo _ =>
      .read (layout.changeIx entry.1) ∈ todo ∧ state.context (layout.changeIx entry.1) < index ∨
        ∃ since, report (layout.changeIx entry.1) = some since ∧ since < index
  | .checking _ _ => Noticing layout entry index state.thread
  | _ => False

/-- No write is past its start. -/
def Unopened (state : PersistState Lock Value) : Prop :=
  ∀ writer, state.writer = some writer → writer.phase = .opening

/-- Since these many checks and attempts, an update leads to a write. -/
inductive Alert (layout : ChangeLayout Lock) (checks attempts : Nat) (entry : ChangeEntry Lock)
    (index : Nat) (state : PersistState Lock Value) : Prop
  | attempted (h : attempts < state.attempts)
  | watching (hInv : state.Inv layout) (hUnopened : state.Unopened)
      (hQuiet : ∀ updater, state.server.updaters updater = none)
      (hVisible : Visible layout state.server entry index) (hChecks : state.checks = checks)
      (hWatching : state.Watching layout entry index) (hAttempts : attempts ≤ state.attempts)
  | committed (hUnopened : state.Unopened) (h : state.Committed)
      (hAttempts : attempts ≤ state.attempts)

theorem attempts_write {writer : PersistWriter Lock Value} {event : PersistEvent Lock Value}
    (hStep : state.write layout writer event = some next) : state.attempts ≤ next.attempts := by
  unfold write at hStep
  split at hStep
  · split_ifs at hStep
    · obtain rfl := Option.some.inj hStep
      exact Nat.le_succ _
    · obtain rfl := Option.some.inj hStep
      exact Nat.le_succ _
  · obtain rfl := Option.some.inj hStep
    exact Nat.le_refl _
  · obtain rfl := Option.some.inj hStep
    exact Nat.le_refl _
  · obtain rfl := Option.some.inj hStep
    exact Nat.le_refl _
  · obtain rfl := Option.some.inj hStep
    exact Nat.le_refl _
  · split at hStep
    · obtain ⟨after, -, rfl⟩ := Option.map_eq_some_iff.mp hStep
      exact Nat.le_refl _
    · obtain rfl := Option.some.inj hStep
      exact Nat.le_refl _
    · obtain rfl := Option.some.inj hStep
      exact Nat.le_refl _
  · split_ifs at hStep
    · obtain rfl := Option.some.inj hStep
      exact Nat.le_refl _
    · obtain rfl := Option.some.inj hStep
      exact Nat.le_refl _
  · split_ifs at hStep
    · obtain rfl := Option.some.inj hStep
      exact Nat.le_refl _
    · obtain rfl := Option.some.inj hStep
      exact Nat.le_refl _
  · cases hStep

omit [DecidableEq Lock] in
theorem refresh_frame (hStep : state.refresh layout = some next) :
    next.server.cells = state.server.cells ∧ next.server.updaters = state.server.updaters ∧
      next.server.held = state.server.held ∧ next.checks = state.checks ∧
      next.writer = state.writer ∧ next.attempts = state.attempts := by
  unfold PersistState.refresh at hStep
  split at hStep
  · obtain rfl := Option.some.inj hStep
    exact ⟨rfl, rfl, rfl, rfl, rfl, rfl⟩
  · obtain rfl := Option.some.inj hStep
    exact ⟨rfl, rfl, rfl, rfl, rfl, rfl⟩
  · obtain rfl := Option.some.inj hStep
    exact ⟨rfl, rfl, rfl, rfl, rfl, rfl⟩
  · obtain rfl := Option.some.inj hStep
    exact ⟨rfl, rfl, rfl, rfl, rfl, rfl⟩
  · exact absurd hStep nofun

/-- What the thread does between two writes leaves the writer and the attempts alone. -/
theorem thread_frame {event : PersistEvent Lock Value}
    (hStep : persistSystem layout state event = some next)
    (hEvent : event = .wake ∨ event = .refresh ∨ event = .check ∨ event = .stop ∨
      ∃ other, event = .server other) :
    next.writer = state.writer ∧ next.attempts = state.attempts := by
  rcases hEvent with rfl | rfl | rfl | rfl | ⟨other, rfl⟩
  · simp only [persistSystem, wake] at hStep
    split_ifs at hStep
    split at hStep
    · obtain rfl := Option.some.inj hStep
      exact ⟨rfl, rfl⟩
    · obtain rfl := Option.some.inj hStep
      exact ⟨rfl, rfl⟩
    · obtain rfl := Option.some.inj hStep
      exact ⟨rfl, rfl⟩
    · exact absurd hStep nofun
  · exact (refresh_frame hStep).2.2.2.2
  · simp only [persistSystem, PersistState.check] at hStep
    split at hStep
    · obtain ⟨after, -, rfl⟩ := Option.map_eq_some_iff.mp hStep
      split
      · exact ⟨rfl, rfl⟩
      · exact ⟨rfl, rfl⟩
    · exact absurd hStep nofun
  · simp only [persistSystem] at hStep
    split_ifs at hStep
    obtain rfl := Option.some.inj hStep
    exact ⟨rfl, rfl⟩
  · obtain ⟨server, -, rfl⟩ := Option.map_eq_some_iff.mp hStep
    exact ⟨rfl, rfl⟩

theorem attempts_le {event : PersistEvent Lock Value}
    (hStep : persistSystem layout state event = some next) : state.attempts ≤ next.attempts := by
  cases event with
  | server _ | wake | refresh | check | stop => exact (thread_frame hStep (by simp)).2.ge
  | lock =>
      simp only [persistSystem, PersistState.lock] at hStep
      split at hStep
      · unfold beginWrite at hStep
        split_ifs at hStep
        obtain rfl := Option.some.inj hStep
        exact Nat.le_refl _
      · exact absurd hStep nofun
  | save =>
      simp only [persistSystem, beginWrite] at hStep
      split_ifs at hStep
      obtain rfl := Option.some.inj hStep
      exact Nat.le_refl _
  | fopen _ | update | generate | fclose _ | rename _ =>
      obtain ⟨writer, -, hWrite⟩ := Option.bind_eq_some_iff.mp hStep
      exact attempts_write hWrite

/-- A write that has not got past its start can only open its file, and that is an attempt. -/
theorem Unopened.write (hUnopened : state.Unopened) {writer : PersistWriter Lock Value}
    (hWriter : state.writer = some writer) {event : PersistEvent Lock Value}
    (hStep : state.write layout writer event = some next) : state.attempts < next.attempts := by
  obtain ⟨byThread, phase⟩ := writer
  obtain rfl : phase = .opening := hUnopened _ hWriter
  cases event with
  | fopen ok =>
      cases ok with
      | true =>
          obtain rfl := Option.some.inj hStep
          exact Nat.lt_succ_self _
      | false =>
          obtain rfl := Option.some.inj hStep
          exact Nat.lt_succ_self _
  | _ => exact absurd hStep (by simp [PersistState.write])

omit [DecidableEq Lock] in
theorem Unopened.congr (h : state.Unopened) (hWriter : next.writer = state.writer) :
    next.Unopened := by
  unfold Unopened
  rw [hWriter]
  exact h

omit [DecidableEq Lock] in
theorem Unopened.begin {byThread : Bool}
    (hWriter : next.writer = some { byThread, phase := .opening }) : next.Unopened := by
  intro writer h
  rw [hWriter] at h
  rw [← Option.some.inj h]

/-- A thread that is going to write cannot do anything else before it has tried. -/
theorem Committed.step (h : state.Committed) (hUnopened : state.Unopened)
    {event : PersistEvent Lock Value} (hStep : persistSystem layout state event = some next) :
    state.attempts < next.attempts ∨ next.Unopened ∧ next.Committed := by
  -- what does not touch the thread or the writer
  have hSame : next.thread = state.thread → next.writer = state.writer →
      next.Unopened ∧ next.Committed := by
    intro hThread hWriter
    refine ⟨hUnopened.congr hWriter, ?_⟩
    unfold Committed
    rw [hThread, hWriter]
    exact h
  -- a check cannot be on its way unless the write is
  have hWriting : next.writer = state.writer → state.thread ≠ .holdoff →
      (∀ final, state.thread ≠ .blocked final) → next.Unopened ∧ next.Committed :=
    fun hWriter hHoldoff hBlocked =>
      ⟨hUnopened.congr hWriter, h.writer hHoldoff hBlocked hWriter⟩
  cases event with
  | server event =>
      obtain ⟨server, -, rfl⟩ := Option.map_eq_some_iff.mp hStep
      exact .inr (hSame rfl rfl)
  | wake =>
      simp only [persistSystem, wake] at hStep
      split_ifs at hStep with hIdle
      have hNone : state.writer = none := Option.isNone_iff_eq_none.mp hIdle
      split at hStep
      · next hThread =>
          rw [Committed, hThread, hNone] at h
          exact absurd h (by simp)
      · obtain rfl := Option.some.inj hStep
        exact .inr ⟨hUnopened.congr rfl, .inr (.inl ⟨false, rfl⟩)⟩
      · next hThread =>
          rw [Committed, hThread, hNone] at h
          exact absurd h (by simp)
      · cases hStep
  | refresh =>
      have hWriter := (thread_frame hStep (by simp)).1
      simp only [persistSystem, PersistState.refresh] at hStep
      split at hStep
      · next hThread => exact .inr (hWriting hWriter (by simp [hThread]) (by simp [hThread]))
      · next hThread => exact .inr (hWriting hWriter (by simp [hThread]) (by simp [hThread]))
      · next hThread => exact .inr (hWriting hWriter (by simp [hThread]) (by simp [hThread]))
      · next hThread => exact .inr (hWriting hWriter (by simp [hThread]) (by simp [hThread]))
      · cases hStep
  | check =>
      have hWriter := (thread_frame hStep (by simp)).1
      simp only [persistSystem, PersistState.check] at hStep
      split at hStep
      · next hThread => exact .inr (hWriting hWriter (by simp [hThread]) (by simp [hThread]))
      · cases hStep
  | lock =>
      simp only [persistSystem, PersistState.lock] at hStep
      split at hStep
      · unfold beginWrite at hStep
        split_ifs at hStep
        obtain rfl := Option.some.inj hStep
        exact .inr ⟨.begin rfl, .inr (.inr rfl)⟩
      · cases hStep
  | save =>
      simp only [persistSystem, beginWrite] at hStep
      split_ifs at hStep with hIdle
      have hNone : state.writer = none := Option.isNone_iff_eq_none.mp hIdle
      obtain rfl := Option.some.inj hStep
      refine .inr ⟨.begin rfl, ?_⟩
      rcases h with hHoldoff | hBlocked | hWriter
      · exact .inl hHoldoff
      · exact .inr (.inl hBlocked)
      · cases hNone.symm.trans hWriter
  | stop =>
      simp only [persistSystem] at hStep
      split_ifs at hStep
      obtain rfl := Option.some.inj hStep
      exact .inr (hSame rfl rfl)
  | fopen _ | update | generate | fclose _ | rename _ =>
      obtain ⟨writer, hWriter, hWrite⟩ := Option.bind_eq_some_iff.mp hStep
      exact .inl (hUnopened.write hWriter hWrite)

/-! ### Without further updates -/

/-- The event that starts an update. -/
def startsUpdate : PersistEvent Lock Value → Bool
  | .server (.lockWrite _ _ _) | .server (.write _ _ _) => true
  | _ => false

/-- While nobody updates anything, the server only answers requests. -/
theorem quiet_server {server : ChangeServer Lock Value}
    (hQuiet : ∀ updater, state.server.updaters updater = none) {event : ChangeEvent Lock Value}
    (hEvent : startsUpdate (.server event) = false)
    (hStep : changeSystem layout state.server event = some server) :
    server.cells = state.server.cells ∧ server.updaters = state.server.updaters ∧
      server.held = state.server.held := by
  cases event with
  | lockWrite updater entry value => exact absurd hEvent nofun
  | write updater entry value => exact absurd hEvent nofun
  | lock updater => exact absurd hStep (by simp [changeSystem, hQuiet])
  | allocate updater => exact absurd hStep (by simp [changeSystem, hQuiet])
  | store updater => exact absurd hStep (by simp [changeSystem, hQuiet])
  | request asker sets generates printTables =>
      simp only [changeSystem] at hStep
      split_ifs at hStep
      obtain rfl := Option.some.inj hStep
      exact ⟨rfl, rfl, rfl⟩
  | advance asker =>
      simp only [changeSystem] at hStep
      obtain ⟨request, -, hMap⟩ := Option.bind_eq_some_iff.mp hStep
      obtain ⟨after, -, rfl⟩ := Option.map_eq_some_iff.mp hMap
      exact ⟨rfl, rfl, rfl⟩

theorem Watching.refresh {entry : ChangeEntry Lock} {index : Nat}
    (h : state.Watching layout entry index) (hInv : state.Inv layout) (hLayout : Persisted layout)
    (hHas : layout.Has entry) (hStep : state.refresh layout = some next) :
    next.Watching layout entry index := by
  unfold PersistState.refresh at hStep
  split at hStep
  · next final hThread =>
      obtain rfl := Option.some.inj hStep
      simp only [Watching, hThread] at h
      have hRead : ∀ ix ∈ persistChanges, ContextAccess.read ix ∈ contextAccesses := by decide
      exact .inl ⟨hRead _ (hLayout entry.1), h⟩
  · next fresh report ix rest final hThread =>
      have hSound := (hInv.refreshing _ _ _ _ hThread).2
      obtain rfl := Option.some.inj hStep
      simp only [Watching, hThread] at h
      rcases h with ⟨hRead, hContext⟩ | ⟨since, hReport, hSince⟩
      · by_cases hSame : layout.changeIx entry.1 = ix
        · subst hSame
          exact .inr ⟨_, Function.update_self _ _ _, hContext⟩
        · refine .inl ⟨(List.mem_cons.mp hRead).resolve_left fun hHead => hSame ?_, hContext⟩
          exact ContextAccess.read.inj hHead
      · have hNe : layout.changeIx entry.1 ≠ ix := by
          rintro rfl
          exact hSound.read _ _ hReport List.mem_cons_self
        exact .inr ⟨since, (Function.update_of_ne hNe _ _).trans hReport, hSince⟩
  · next fresh report ix rest final hThread =>
      have hSound := (hInv.refreshing _ _ _ _ hThread).2
      obtain rfl := Option.some.inj hStep
      simp only [Watching, hThread] at h
      rcases h with ⟨hRead, hContext⟩ | hReport
      · have hRest := (List.mem_cons.mp hRead).resolve_left nofun
        have hNe : layout.changeIx entry.1 ≠ ix := by
          rintro rfl
          exact hSound.not_mem_store hRest
        refine .inl ⟨hRest, ?_⟩
        simp only [Function.update_of_ne hNe]
        exact hContext
      · exact .inr hReport
  · next fresh report final hThread =>
      obtain rfl := Option.some.inj hStep
      simp only [Watching, hThread] at h
      rcases h with ⟨hRead, -⟩ | ⟨since, hReport, hSince⟩
      · exact absurd hRead List.not_mem_nil
      · exact .checking hReport hSince (List.mem_append.mpr (.inr hHas.1))
  · exact absurd hStep nofun

omit [DecidableEq Lock] in
theorem Visible.congr {entry : ChangeEntry Lock} {index : Nat} {server after : ChangeServer Lock Value}
    (h : Visible layout server entry index) (hCells : after.cells = server.cells)
    (hHeld : after.held = server.held) : Visible layout after entry index where
  has := h.has
  listed := h.listed
  newer := by
    rw [hHeld, hCells]
    exact h.newer

theorem Watching.check {entry : ChangeEntry Lock} {index : Nat}
    (h : state.Watching layout entry index) (hInv : state.Inv layout)
    (hVisible : Visible layout state.server entry index)
    (hStep : state.check layout = some next) :
    next.checks = state.checks ∧ next.server = state.server ∧ next.Watching layout entry index ∨
      next.Committed := by
  unfold PersistState.check at hStep
  split at hStep
  · next request final hThread =>
      obtain ⟨hGenerates, hReading⟩ := hInv.checking request final hThread
      have hNoticing : Noticing layout entry index (.checking request final) := by
        simp only [Watching, hThread] at h
        exact h
      obtain ⟨after, hAdvance, hNext⟩ := Option.map_eq_some_iff.mp hStep
      cases advance_step hAdvance with
      | read hOther => exact absurd (hReading.symm.trans hOther) nofun
      | visit _ hLocks hFree =>
          obtain rfl := hNext
          exact .inl ⟨rfl, rfl, noticing_visit hNoticing hVisible hLocks hFree⟩
      | found _ _ _ hOther => exact absurd (hGenerates.symm.trans hOther) nofun
      | changed =>
          obtain rfl := hNext
          cases final with
          | true => exact .inr (.inr (.inl ⟨true, rfl⟩))
          | false => exact .inr (.inl rfl)
      | group _ hLocks _ hGroups =>
          obtain rfl := hNext
          exact .inl ⟨rfl, rfl, noticing_group hNoticing hLocks hGroups⟩
      | finish _ hLocks hChanged hGroups =>
          cases hNoticing with
          | found hFound => exact absurd hChanged hFound
          | checking hReport hSince hAhead =>
              rw [hLocks, hGroups] at hAhead
              exact absurd hAhead List.not_mem_nil
  · exact absurd hStep nofun

/-- Without further updates an alert stays, whatever else happens. -/
theorem Alert.step {checks attempts : Nat} {entry : ChangeEntry Lock} {index : Nat}
    (h : state.Alert layout checks attempts entry index) (hLayout : Persisted layout)
    {event : PersistEvent Lock Value} (hEvent : startsUpdate event = false)
    (hStep : persistSystem layout state event = some next) :
    next.Alert layout checks attempts entry index := by
  cases h with
  | attempted h => exact .attempted (h.trans_le (attempts_le hStep))
  | committed hUnopened h hAttempts =>
      rcases h.step hUnopened hStep with hTried | ⟨hNext, hCommitted⟩
      · exact .attempted (hAttempts.trans_lt hTried)
      · exact .committed hNext hCommitted (hAttempts.trans (attempts_le hStep))
  | watching hInv hUnopened hQuiet hVisible hChecks hWatching hAttempts =>
      have hLe := hAttempts.trans (attempts_le hStep)
      cases event with
      | server event =>
          have hNext := hInv.step hLayout rfl hStep
          obtain ⟨server, hServer, rfl⟩ := Option.map_eq_some_iff.mp hStep
          obtain ⟨hCells, hUpdaters, hHeld⟩ := quiet_server hQuiet hEvent hServer
          exact .watching hNext (hUnopened.congr rfl) (by rw [hUpdaters]; exact hQuiet)
            (hVisible.congr hCells hHeld) hChecks hWatching hLe
      | wake =>
          have hNext := hInv.step hLayout rfl hStep
          simp only [persistSystem, wake] at hStep
          split_ifs at hStep
          split at hStep
          · next hThread =>
              obtain rfl := Option.some.inj hStep
              simp only [Watching, hThread] at hWatching
              exact .watching hNext (hUnopened.congr rfl) hQuiet hVisible hChecks hWatching hLe
          · next hThread => exact absurd hWatching (by simp [Watching, hThread])
          · next hThread => exact absurd hWatching (by simp [Watching, hThread])
          · exact absurd hStep nofun
      | refresh =>
          have hNext := hInv.step hLayout rfl hStep
          obtain ⟨hCells, hUpdaters, hHeld, hSame, hWriter, -⟩ := refresh_frame hStep
          exact .watching hNext (hUnopened.congr hWriter) (by rw [hUpdaters]; exact hQuiet)
            (hVisible.congr hCells hHeld) (hSame.trans hChecks)
            (hWatching.refresh hInv hLayout hVisible.has hStep) hLe
      | check =>
          have hNext := hInv.step hLayout rfl hStep
          have hWriter := (thread_frame hStep (by simp)).1
          rcases hWatching.check hInv hVisible hStep with ⟨hSame, hServer, hStill⟩ | hCommitted
          · exact .watching hNext (hUnopened.congr hWriter) (by rw [hServer]; exact hQuiet)
              (by rw [hServer]; exact hVisible) (hSame.trans hChecks) hStill hLe
          · exact .committed (hUnopened.congr hWriter) hCommitted hLe
      | lock =>
          simp only [persistSystem, PersistState.lock] at hStep
          split at hStep
          · next hThread => exact absurd hWatching (by simp [Watching, hThread])
          · exact absurd hStep nofun
      | save =>
          have hNext := hInv.step hLayout rfl hStep
          simp only [persistSystem, beginWrite] at hStep
          split_ifs at hStep
          obtain rfl := Option.some.inj hStep
          exact .watching hNext (.begin rfl) hQuiet hVisible hChecks hWatching hLe
      | stop =>
          have hNext := hInv.step hLayout rfl hStep
          simp only [persistSystem] at hStep
          split_ifs at hStep
          obtain rfl := Option.some.inj hStep
          exact .watching hNext (hUnopened.congr rfl) hQuiet hVisible hChecks hWatching hLe
      | fopen _ | update | generate | fclose _ | rename _ =>
          obtain ⟨writer, hWriter, hWrite⟩ := Option.bind_eq_some_iff.mp hStep
          exact .attempted (hAttempts.trans_lt (hUnopened.write hWriter hWrite))

/-- Between two checks and without an update or a write on its way, whatever the file does not
hold is ahead of the context. -/
theorem Inv.alert (hInv : state.Inv layout) (hThread : state.thread = .waiting)
    (hWriter : state.writer = none) (hQuiet : ∀ updater, state.server.updaters updater = none)
    (hDiffers : state.Differs layout) :
    ∃ entry index, state.Alert layout state.checks state.attempts entry index := by
  obtain ⟨entry, hHas, hListed, hIndex, hFile⟩ := hDiffers
  refine ⟨entry, (state.server.cells entry).updateIndex, ?_⟩
  refine .watching hInv (fun writer h => absurd (hWriter.symm.trans h) nofun) hQuiet
    ⟨hHas, hListed, fun _ => Nat.le_refl _⟩ rfl ?_ (Nat.le_refl _)
  simp only [Watching, hThread]
  rcases hInv.stored entry hHas hListed hIndex with hSaved | ⟨updater, updating, hUpdater, -⟩ | hPending
  · unfold Saved at hSaved
    rw [hWriter] at hSaved
    exact absurd hSaved hFile
  · exact absurd ((hQuiet updater).symm.trans hUpdater) nofun
  · cases hPending with
    | ahead h => exact h.context
    | noticing h =>
        rw [hThread] at h
        exact absurd h nofun
    | committed h =>
        rw [Committed, hThread, hWriter] at h
        exact absurd h (by simp)

end PersistState

theorem Database.persisted (db : Database) : PersistState.Persisted db.layout := by
  intro lock
  cases lock <;> simp [Database.layout, persistChanges]

/-- For every database and every run in which writes succeed: if the state differs from the state
file while the thread waits and no update or write is on its way, then, whatever happens next
short of another update, once a further check is over a write was attempted or the thread is
going to write and can do nothing else before it has. -/
theorem changes_reach_the_file (db : Database) {Value : Type}
    {start state last : PersistState ChangeLock Value} (hStart : start.Started db.layout)
    {events later : List (PersistEvent ChangeLock Value)}
    (hGuarded : (persistSystem db.layout).Guarded
      (fun state event => writeSucceeds state event = true) events start)
    (hRun : (persistSystem db.layout).run events start = some state)
    (hThread : state.thread = .waiting) (hWriter : state.writer = none)
    (hQuiet : ∀ updater, state.server.updaters updater = none)
    (hDiffers : state.Differs db.layout)
    (hUpdates : ∀ event ∈ later, PersistState.startsUpdate event = false)
    (hLater : (persistSystem db.layout).run later state = some last)
    (hChecked : state.checks < last.checks) :
    state.attempts < last.attempts ∨ last.Committed := by
  have hInv : state.Inv db.layout :=
    System.run_invariant (PersistState.Inv db.layout)
      (fun _ _ _ h hGuard hStep => h.step db.persisted hGuard hStep) hGuarded hStart.inv hRun
  obtain ⟨entry, index, hAlert⟩ := hInv.alert hThread hWriter hQuiet hDiffers
  have hGuardedLater : (persistSystem db.layout).Guarded
      (fun _ event => PersistState.startsUpdate event = false) later state := by
    rw [System.guarded_iff]
    rintro first event rest middle rfl -
    exact hUpdates event (List.mem_append.mpr (.inr List.mem_cons_self))
  have hLast := System.run_invariant
    (PersistState.Alert db.layout state.checks state.attempts entry index)
    (fun _ _ _ h hEvent hStep => h.step db.persisted hEvent hStep) hGuardedLater hAlert hLater
  cases hLast with
  | attempted h => exact .inl h
  | watching _ _ _ _ hChecks => exact absurd hChecks hChecked.ne'
  | committed _ h => exact .inr h

/-! ### One field -/

/-- The server has loaded its state file. -/
def loadedState : PersistState ChangeLock Nat where
  server := quietServer
  context := fun _ => 1
  running := true
  thread := .waiting
  writer := none
  file := fun _ => some 0
  checks := 0
  attempts := 0

theorem loadedState_started : loadedState.Started (oneField false).layout :=
  ⟨⟨fun _ => rfl, rfl, fun _ => rfl, fun _ => rfl, fun _ _ => Nat.zero_le _⟩,
    fun _ => Nat.le_refl _, rfl, rfl, .inl fun _ _ _ _ => rfl⟩

def PersistState.after (state : PersistState ChangeLock Nat)
    (events : List (PersistEvent ChangeLock Nat)) : PersistState ChangeLock Nat :=
  ((persistSystem (oneField false).layout).run events state).getD state

/-- The field is set. -/
def fieldPut : List (PersistEvent ChangeLock Nat) :=
  [.server (.lockWrite 0 (.field 0 0, 0) 5), .server (.allocate 0), .server (.store 0)]

/-- A check of the thread, with so many steps after its refresh. -/
def threadCheck (steps : Nat) : List (PersistEvent ChangeLock Nat) :=
  .wake :: (List.replicate 10 .refresh ++ List.replicate steps .check)

/-- The field is set and the check finds it, but the file cannot be opened. -/
def failedWrite : List (PersistEvent ChangeLock Nat) :=
  fieldPut ++ threadCheck 3 ++ [.wake, .lock, .fopen false, .wake]

theorem field_put_differs :
    (loadedState.after fieldPut).Differs (oneField false).layout :=
  ⟨(.field 0 0, 0), by decide, rfl, by decide, by decide⟩

theorem field_put_reaches_the_file :
    loadedState.Started (oneField false).layout ∧
    (loadedState.after fieldPut).Differs (oneField false).layout ∧
    ((loadedState.after fieldPut).attempts <
        ((loadedState.after fieldPut).after (threadCheck 3)).attempts ∨
      ((loadedState.after fieldPut).after (threadCheck 3)).Committed) := by
  refine ⟨loadedState_started, field_put_differs, ?_⟩
  exact @changes_reach_the_file (oneField false) Nat loadedState (loadedState.after fieldPut)
    ((loadedState.after fieldPut).after (threadCheck 3)) loadedState_started fieldPut
    (threadCheck 3) (by decide) rfl rfl rfl
    (fun updater => by cases updater <;> rfl) field_put_differs (by decide) rfl (by decide)

/-- After a write that has failed, the next check finds nothing, though the file is out of date. -/
theorem failed_write_lost :
    loadedState.Started (oneField false).layout ∧
    (persistSystem (oneField false).layout).run failedWrite loadedState =
      some (loadedState.after failedWrite) ∧
    (loadedState.after failedWrite).thread = .waiting ∧
    (loadedState.after failedWrite).writer = none ∧
    (∀ updater, (loadedState.after failedWrite).server.updaters updater = none) ∧
    (loadedState.after failedWrite).Differs (oneField false).layout ∧
    (persistSystem (oneField false).layout).run (threadCheck 5) (loadedState.after failedWrite) =
      some ((loadedState.after failedWrite).after (threadCheck 5)) ∧
    (loadedState.after failedWrite).checks <
      ((loadedState.after failedWrite).after (threadCheck 5)).checks ∧
    ¬ ((loadedState.after failedWrite).attempts <
        ((loadedState.after failedWrite).after (threadCheck 5)).attempts ∨
      ((loadedState.after failedWrite).after (threadCheck 5)).Committed) := by
  refine ⟨loadedState_started, rfl, rfl, rfl, fun updater => by cases updater <;> rfl,
    ⟨(.field 0 0, 0), by decide, rfl, by decide, by decide⟩, rfl, by decide, ?_⟩
  have hThread : ((loadedState.after failedWrite).after (threadCheck 5)).thread = .waiting := rfl
  have hWriter : ((loadedState.after failedWrite).after (threadCheck 5)).writer = none := rfl
  rintro (hAttempts | hCommitted)
  · exact absurd hAttempts (by decide)
  · rw [PersistState.Committed, hThread, hWriter] at hCommitted
    simp at hCommitted

end Server
