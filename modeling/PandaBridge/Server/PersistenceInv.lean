import PandaBridge.Server.ChangeReport
import PandaBridge.Server.Persistence

/-! Changes on their way to the state file. As long as writes succeed, whatever the file does not
hold is still ahead of the change context, or will be found by the check on its way, or is about
to be written. -/
namespace Server

open Transition

variable {Lock Value : Type} (layout : ChangeLayout Lock)

/-- `generate_change_sets` has yet to visit the lock. -/
def Unvisited (connection : ChangeConnection Lock Value) (passes : List ChangeIx) (lock : Lock) :
    Prop :=
  layout.changeIx lock ∈ passes ∨ ∃ request, connection.request = some request ∧
    request.report (layout.changeIx lock) = some 0 ∧
    lock ∈ request.locks ++ request.groups.flatten

/-- The entry was found changed, and its value is still to be read. -/
def Noted (connection : ChangeConnection Lock Value) (entry : ChangeEntry Lock) : Prop :=
  ∃ request, connection.request = some request ∧ entry ∈ request.changed ++ request.reading

/-- The reports of a write are of everything, with all values. -/
structure GenerateSound (connection : ChangeConnection Lock Value) (passes : List ChangeIx) :
    Prop where
  nodup : passes.Nodup
  context : ∀ ix ∈ passes, connection.context ix = 0
  request : ∀ request, connection.request = some request →
    request.generates = true ∧ request.printTables = true

/-- The check on its way finds an update with this index, or has found something. -/
inductive Noticing (entry : ChangeEntry Lock) (index : Nat) : PersistThread Lock → Prop
  | refreshing {fresh since : Nat} {report : ReportIndex} {todo : List ContextAccess} {final : Bool}
      (hReport : report (layout.changeIx entry.1) = some since) (hSince : since < index) :
      Noticing entry index (.refreshing fresh report todo final)
  | checking {request : ChangeRequest Lock} {final : Bool} {since : Nat}
      (hReport : request.report (layout.changeIx entry.1) = some since) (hSince : since < index)
      (hAhead : entry.1 ∈ request.locks ++ request.groups.flatten) :
      Noticing entry index (.checking request final)
  | found {request : ChangeRequest Lock} {final : Bool} (hFound : request.changed ≠ []) :
      Noticing entry index (.checking request final)

/-- A check reads a set before it stores it, and each once. -/
structure RefreshSound (report : ReportIndex) (todo : List ContextAccess) : Prop where
  suffix : todo <:+ contextAccesses
  read : ∀ ix since, report ix = some since → .read ix ∉ todo

namespace PersistState

section Pending

variable (state : PersistState Lock Value)

/-- An update of the entry is on its way. -/
def Updates (entry : ChangeEntry Lock) : Prop :=
  ∃ updater updating, state.server.updaters updater = some updating ∧ updating.entry = entry

/-- The next check will find an update with this index: the context is behind it, and the check on
its way does not change that before it has read the context itself. -/
structure Ahead (ix : ChangeIx) (index : Nat) : Prop where
  context : state.context ix < index
  refresh : ∀ fresh report todo final, state.thread = .refreshing fresh report todo final →
    .store ix ∈ todo → .read ix ∈ todo ∨ fresh < index

/-- The thread is going to write. -/
def Committed : Prop :=
  state.thread = .holdoff ∨ (∃ final, state.thread = .blocked final) ∨
    state.writer = some { byThread := true, phase := .opening }

/-- An update with this index will lead to a write. -/
inductive Pending (entry : ChangeEntry Lock) (index : Nat) : Prop
  | ahead (h : state.Ahead (layout.changeIx entry.1) index)
  | noticing (h : Noticing layout entry index state.thread)
  | committed (h : state.Committed)

variable [DecidableEq Lock]

/-- The file holds the value of the entry, or will hold it when the write on its way is over. -/
def Saved (entry : ChangeEntry Lock) : Prop :=
  match state.writer.map PersistWriter.phase with
  | none | some .opening => state.file entry = state.current entry
  | some .allocating | some (.refreshing _ _) => True
  | some (.generating connection passes) =>
      contentOf connection.reports entry = state.current entry ∨ Noted connection entry ∨
        Unvisited layout connection passes entry.1
  | some (.closing lines) | some (.closed lines) => contentOf lines entry = state.current entry

/-- The write on its way will visit the lock. -/
def WillVisit (lock : Lock) : Prop :=
  match state.writer.map PersistWriter.phase with
  | some .allocating | some (.refreshing _ _) => True
  | some (.generating connection passes) => Unvisited layout connection passes lock
  | _ => False

end Pending

/-- Nothing is lost. -/
structure Inv [DecidableEq Lock] (state : PersistState Lock Value) : Prop where
  sound : UpdatesSound layout state.server
  context : ∀ ix, state.context ix ≤ state.server.index
  refreshing : ∀ fresh report todo final, state.thread = .refreshing fresh report todo final →
    fresh ≤ state.server.index ∧ RefreshSound report todo
  checking : ∀ request final, state.thread = .checking request final →
    request.generates = false ∧ request.reading = []
  updating : ∀ byThread fresh todo,
    state.writer = some { byThread, phase := .refreshing fresh todo } → fresh ≤ state.server.index
  generating : ∀ byThread connection passes,
    state.writer = some { byThread, phase := .generating connection passes } →
      GenerateSound connection passes
  allocated : ∀ updater entry version index,
    state.server.updaters updater = some (.allocated entry version index) →
      layout.listed entry.1 = true →
        state.WillVisit layout entry.1 ∨ state.Pending layout entry index
  stored : ∀ entry, layout.Has entry → layout.listed entry.1 = true →
    0 < (state.server.cells entry).updateIndex →
      state.Saved layout entry ∨ state.Updates entry ∨
        state.Pending layout entry (state.server.cells entry).updateIndex

end PersistState

/-! ### Walks over everything -/

/-- What a step of `generate_change_sets` or `check_change_set` does. -/
inductive WalkStep (layout : ChangeLayout Lock) (server : ChangeServer Lock Value)
    (connection : ChangeConnection Lock Value) (request : ChangeRequest Lock) :
    ChangeConnection Lock Value → Prop
  | read {entry : ChangeEntry Lock} {rest : List (ChangeEntry Lock)}
      (hReading : request.reading = entry :: rest) :
      WalkStep layout server connection request
        { connection with
          request := some { request with reading := rest }
          reports := connection.reports ++ [server.reportValue layout request.printTables entry] }
  | visit {lock : Lock} {rest : List Lock} (hReading : request.reading = [])
      (hLocks : request.locks = lock :: rest) (hFree : server.held lock = none) :
      WalkStep layout server connection request
        { connection with
          request := some { request with
            locks := rest
            changed := request.changed ++ server.changes layout request.report lock } }
  | found (hReading : request.reading = []) (hLocks : request.locks = [])
      (hChanged : request.changed ≠ []) (hGenerates : request.generates = true) :
      WalkStep layout server connection request
        { connection with
          request := some { request with changed := [], reading := request.changed } }
  | changed (hReading : request.reading = []) (hLocks : request.locks = [])
      (hChanged : request.changed ≠ []) (hGenerates : request.generates = false) :
      WalkStep layout server connection request
        { connection with
          request := none
          reports := connection.reports ++ [.changed request.report request.fresh]
          completed := connection.completed + 1 }
  | group {group : List Lock} {rest : List (List Lock)} (hReading : request.reading = [])
      (hLocks : request.locks = []) (hChanged : request.changed = [])
      (hGroups : request.groups = group :: rest) :
      WalkStep layout server connection request
        { connection with
          request := some { request with
            groups := rest
            locks := group.filter fun lock => (request.report (layout.changeIx lock)).isSome } }
  | finish (hReading : request.reading = []) (hLocks : request.locks = [])
      (hChanged : request.changed = []) (hGroups : request.groups = []) :
      WalkStep layout server connection request
        { connection with request := none, completed := connection.completed + 1 }

variable {layout} in
theorem advance_step {server : ChangeServer Lock Value}
    {connection next : ChangeConnection Lock Value} {request : ChangeRequest Lock}
    (hStep : server.advance layout connection request = some next) :
    WalkStep layout server connection request next := by
  unfold ChangeServer.advance at hStep
  split at hStep
  · next entry rest hReading =>
      obtain rfl := Option.some.inj hStep
      exact .read hReading
  · next lock rest hReading hLocks =>
      split_ifs at hStep with hFree
      obtain rfl := Option.some.inj hStep
      exact .visit hReading hLocks hFree
  · next first others hReading hLocks hChanged =>
      have hFound : request.changed ≠ [] := by
        rw [hChanged]
        exact List.cons_ne_nil _ _
      split_ifs at hStep with hGenerates
      · obtain rfl := Option.some.inj hStep
        rw [← hChanged]
        exact .found hReading hLocks hFound hGenerates
      · obtain rfl := Option.some.inj hStep
        exact .changed hReading hLocks hFound (Bool.eq_false_iff.mpr hGenerates)
  · next group rest hReading hLocks hChanged hGroups =>
      obtain rfl := Option.some.inj hStep
      exact .group hReading hLocks hChanged hGroups
  · next hReading hLocks hChanged hGroups =>
      obtain rfl := Option.some.inj hStep
      exact .finish hReading hLocks hChanged hGroups

/-! ### Updates -/

section Updates

variable [DecidableEq Lock] {layout}

/-- What a step of the updating threads or of a connection does. -/
inductive ServerStep (layout : ChangeLayout Lock) (server : ChangeServer Lock Value) :
    ChangeServer Lock Value → Prop
  | put {updater : Nat} {entry : ChangeEntry Lock} {value : Value} {phase : Updating Lock}
      {held : Lock → Option Nat} (hFree : server.updaters updater = none) (hHas : layout.Has entry)
      (hPhase : phase = .locked entry (server.version entry) ∧ server.held entry.1 = none ∧
          held = Function.update server.held entry.1 (some updater) ∨
        phase = .written entry (server.version entry) ∧ held = server.held) :
      ServerStep layout server { server.put updater entry value phase with held := held }
  | lock {updater : Nat} {entry : ChangeEntry Lock} {version : Nat}
      (hPhase : server.updaters updater = some (.written entry version))
      (hFree : server.held entry.1 = none) :
      ServerStep layout server
        { server with
          held := Function.update server.held entry.1 (some updater)
          updaters := Function.update server.updaters updater (some (.locked entry version)) }
  | allocate {updater : Nat} {entry : ChangeEntry Lock} {version : Nat}
      (hPhase : server.updaters updater = some (.locked entry version)) :
      ServerStep layout server
        { server with
          index := server.index + 1
          updaters := Function.update server.updaters updater
            (some (.allocated entry version (server.index + 1))) }
  | store {updater : Nat} {entry : ChangeEntry Lock} {version index : Nat}
      (hPhase : server.updaters updater = some (.allocated entry version index)) :
      ServerStep layout server
        { server with
          cells := Function.update server.cells entry
            { server.cells entry with updateIndex := index }
          held := Function.update server.held entry.1 none
          updaters := Function.update server.updaters updater none
          updates := server.updates ++ [⟨entry, version, index⟩] }
  | asked {index : Nat} {connections : Nat → ChangeConnection Lock Value}
      (hIndex : server.index ≤ index) :
      ServerStep layout server { server with index := index, connections := connections }

theorem changeSystem_step {server next : ChangeServer Lock Value} {event : ChangeEvent Lock Value}
    (hStep : changeSystem layout server event = some next) : ServerStep layout server next := by
  cases event with
  | lockWrite updater entry value =>
      simp only [changeSystem] at hStep
      split_ifs at hStep with hFree
      obtain rfl := Option.some.inj hStep
      exact .put hFree.1 hFree.2.2 (.inl ⟨rfl, hFree.2.1, rfl⟩)
  | write updater entry value =>
      simp only [changeSystem] at hStep
      split_ifs at hStep with hFree
      obtain rfl := Option.some.inj hStep
      exact .put hFree.1 hFree.2 (.inr ⟨rfl, rfl⟩)
  | lock updater =>
      simp only [changeSystem] at hStep
      split at hStep
      · next entry version hPhase =>
          split_ifs at hStep with hFree
          obtain rfl := Option.some.inj hStep
          exact .lock hPhase hFree
      · cases hStep
  | allocate updater =>
      simp only [changeSystem] at hStep
      split at hStep
      · next entry version hPhase =>
          obtain rfl := Option.some.inj hStep
          exact .allocate hPhase
      · cases hStep
  | store updater =>
      simp only [changeSystem] at hStep
      split at hStep
      · next entry version index hPhase =>
          obtain rfl := Option.some.inj hStep
          exact .store hPhase
      · cases hStep
  | request asker sets generates printTables =>
      simp only [changeSystem] at hStep
      split_ifs at hStep
      obtain rfl := Option.some.inj hStep
      exact .asked (Nat.le_succ _)
  | advance asker =>
      simp only [changeSystem] at hStep
      obtain ⟨request, -, hMap⟩ := Option.bind_eq_some_iff.mp hStep
      obtain ⟨after, -, rfl⟩ := Option.map_eq_some_iff.mp hMap
      exact .asked (Nat.le_refl _)

theorem UpdatesSound.serverStep {server next : ChangeServer Lock Value}
    (h : UpdatesSound layout server) (hStep : ServerStep layout server next) :
    UpdatesSound layout next := by
  cases hStep with
  | put hFree hHas hPhase => exact h.put _ hHas hPhase
  | lock hPhase hFree => exact h.lock hPhase hFree
  | allocate hPhase => exact h.allocate hPhase
  | store hPhase => exact h.store hPhase
  | asked hIndex => exact h.index hIndex _

theorem ServerStep.index_le {server next : ChangeServer Lock Value}
    (hStep : ServerStep layout server next) : server.index ≤ next.index := by
  cases hStep with
  | put hFree hHas hPhase => exact Nat.le_refl _
  | lock hPhase hFree => exact Nat.le_refl _
  | allocate hPhase => exact Nat.le_succ _
  | store hPhase => exact Nat.le_refl _
  | asked hIndex => exact hIndex

namespace PersistState

variable {state : PersistState Lock Value}

omit [DecidableEq Lock] in
theorem Pending.withServer {entry : ChangeEntry Lock} {index : Nat}
    (h : state.Pending layout entry index) (server : ChangeServer Lock Value) :
    ({ state with server } : PersistState Lock Value).Pending layout entry index := by
  cases h with
  | ahead h => exact .ahead ⟨h.context, h.refresh⟩
  | noticing h => exact .noticing h
  | committed h => exact .committed h

theorem Saved.withServer {entry : ChangeEntry Lock} (h : state.Saved layout entry)
    {server : ChangeServer Lock Value}
    (hValue : (server.cells entry).values = (state.server.cells entry).values) :
    ({ state with server } : PersistState Lock Value).Saved layout entry := by
  have hCurrent : ({ state with server } : PersistState Lock Value).current entry =
      state.current entry := by
    simp only [current, hValue]
  unfold Saved at h ⊢
  rw [hCurrent]
  exact h

theorem WillVisit.saved {entry : ChangeEntry Lock} (h : state.WillVisit layout entry.1) :
    state.Saved layout entry := by
  unfold WillVisit at h
  unfold Saved
  split at h
  · next hPhase => simp only [hPhase]
  · next hPhase => simp only [hPhase]
  · next hPhase =>
      simp only [hPhase]
      exact .inr (.inr h)
  · exact absurd h id

theorem Inv.ahead_fresh (hInv : state.Inv layout) (ix : ChangeIx) {server : ChangeServer Lock Value} :
    ({ state with server } : PersistState Lock Value).Ahead ix (state.server.index + 1) where
  context := Nat.lt_succ_of_le (hInv.context ix)
  refresh := fun fresh report todo final hThread _ =>
    .inr (Nat.lt_succ_of_le (hInv.refreshing fresh report todo final hThread).1)

theorem Inv.withServer (hInv : state.Inv layout) {server : ChangeServer Lock Value}
    (hStep : ServerStep layout state.server server)
    (hAllocated : ∀ updater entry version index,
      server.updaters updater = some (.allocated entry version index) →
        layout.listed entry.1 = true →
          state.WillVisit layout entry.1 ∨
            ({ state with server } : PersistState Lock Value).Pending layout entry index)
    (hStored : ∀ entry, layout.Has entry → layout.listed entry.1 = true →
      0 < (server.cells entry).updateIndex →
        ({ state with server } : PersistState Lock Value).Saved layout entry ∨
          ({ state with server } : PersistState Lock Value).Updates entry ∨
          ({ state with server } : PersistState Lock Value).Pending layout entry
            (server.cells entry).updateIndex) :
    ({ state with server } : PersistState Lock Value).Inv layout where
  sound := hInv.sound.serverStep hStep
  context := fun ix => (hInv.context ix).trans hStep.index_le
  refreshing := fun fresh report todo final hThread =>
    ⟨(hInv.refreshing fresh report todo final hThread).1.trans hStep.index_le,
      (hInv.refreshing fresh report todo final hThread).2⟩
  checking := hInv.checking
  updating := fun byThread fresh todo hWriter =>
    (hInv.updating byThread fresh todo hWriter).trans hStep.index_le
  generating := hInv.generating
  allocated := hAllocated
  stored := hStored

/-- Whatever the updating threads and the connections do, nothing is lost. -/
theorem Inv.serverStep (hInv : state.Inv layout) {server : ChangeServer Lock Value}
    (hStep : ServerStep layout state.server server) :
    ({ state with server } : PersistState Lock Value).Inv layout := by
  refine hInv.withServer hStep ?_ ?_
  · intro updater entry version index hUpdater hListed
    cases hStep with
    | put hFree hHas hPhase =>
        rcases cases_update hUpdater with ⟨rfl, hNew⟩ | ⟨_, hOld⟩
        · obtain rfl := Option.some.inj hNew
          rcases hPhase with ⟨hPhase, -⟩ | ⟨hPhase, -⟩
          · exact absurd hPhase nofun
          · exact absurd hPhase nofun
        · exact (hInv.allocated updater entry version index hOld hListed).imp_right
            (·.withServer _)
    | lock hPhase hFree =>
        rcases cases_update hUpdater with ⟨rfl, hNew⟩ | ⟨_, hOld⟩
        · exact absurd (Option.some.inj hNew) nofun
        · exact (hInv.allocated updater entry version index hOld hListed).imp_right
            (·.withServer _)
    | allocate hPhase =>
        rcases cases_update hUpdater with ⟨rfl, hNew⟩ | ⟨_, hOld⟩
        · obtain ⟨rfl, rfl, rfl⟩ := Updating.allocated.inj (Option.some.inj hNew)
          exact .inr (.ahead (hInv.ahead_fresh _))
        · exact (hInv.allocated updater entry version index hOld hListed).imp_right
            (·.withServer _)
    | store hPhase =>
        rcases cases_update hUpdater with ⟨rfl, hNew⟩ | ⟨_, hOld⟩
        · exact absurd hNew nofun
        · exact (hInv.allocated updater entry version index hOld hListed).imp_right
            (·.withServer _)
    | asked hIndex =>
        exact (hInv.allocated updater entry version index hUpdater hListed).imp_right
          (·.withServer _)
  · intro entry hHas hListed hIndex
    cases hStep with
    | @put updater changed value phase held hFree _ hPhase =>
        by_cases hSame : entry = changed
        · subst hSame
          refine .inr (.inl ⟨updater, phase, Function.update_self _ _ _, ?_⟩)
          rcases hPhase with ⟨rfl, -⟩ | ⟨rfl, -⟩ <;> rfl
        · have hCell : (state.server.put updater changed value phase).cells entry =
              state.server.cells entry := Function.update_of_ne hSame _ _
          simp only [hCell] at hIndex ⊢
          rcases hInv.stored entry hHas hListed hIndex with hSaved | ⟨other, updating, hOther, hEntry⟩ |
            hPending
          · exact .inl (hSaved.withServer (by simp only [hCell]))
          · have hNe : other ≠ updater := by
              rintro rfl
              exact absurd (hFree.symm.trans hOther) nofun
            exact .inr (.inl ⟨other, updating, (Function.update_of_ne hNe _ _).trans hOther, hEntry⟩)
          · exact .inr (.inr (hPending.withServer _))
    | @lock updater changed version hPhase hFree =>
        rcases hInv.stored entry hHas hListed hIndex with hSaved | ⟨other, updating, hOther, hEntry⟩ |
          hPending
        · exact .inl (hSaved.withServer rfl)
        · by_cases hSame : other = updater
          · subst hSame
            obtain rfl : Updating.written changed version = updating :=
              Option.some.inj (hPhase.symm.trans hOther)
            exact .inr (.inl ⟨other, .locked changed version, Function.update_self _ _ _, hEntry⟩)
          · exact .inr (.inl ⟨other, updating, (Function.update_of_ne hSame _ _).trans hOther, hEntry⟩)
        · exact .inr (.inr (hPending.withServer _))
    | @allocate updater changed version hPhase =>
        rcases hInv.stored entry hHas hListed hIndex with hSaved | ⟨other, updating, hOther, hEntry⟩ |
          hPending
        · exact .inl (hSaved.withServer rfl)
        · by_cases hSame : other = updater
          · subst hSame
            obtain rfl : Updating.locked changed version = updating :=
              Option.some.inj (hPhase.symm.trans hOther)
            exact .inr (.inl ⟨other, .allocated changed version (state.server.index + 1),
              Function.update_self _ _ _, hEntry⟩)
          · exact .inr (.inl ⟨other, updating, (Function.update_of_ne hSame _ _).trans hOther, hEntry⟩)
        · exact .inr (.inr (hPending.withServer _))
    | @store updater changed version index hPhase =>
        by_cases hSame : entry = changed
        · subst hSame
          -- the update is over, and what was known of its index is now known of the entry
          simp only [Function.update_self]
          rcases hInv.allocated updater entry version index hPhase hListed with hVisit | hPending
          · exact .inl (hVisit.saved.withServer (by simp only [Function.update_self]))
          · exact .inr (.inr (hPending.withServer _))
        · simp only [Function.update_of_ne hSame] at hIndex ⊢
          rcases hInv.stored entry hHas hListed hIndex with hSaved | ⟨other, updating, hOther, hEntry⟩ |
            hPending
          · exact .inl (hSaved.withServer (by simp only [Function.update_of_ne hSame]))
          · have hNe : other ≠ updater := by
              rintro rfl
              obtain rfl : Updating.allocated changed version index = updating :=
                Option.some.inj (hPhase.symm.trans hOther)
              exact hSame hEntry.symm
            exact .inr (.inl ⟨other, updating, (Function.update_of_ne hNe _ _).trans hOther, hEntry⟩)
          · exact .inr (.inr (hPending.withServer _))
    | asked hAsked =>
        rcases hInv.stored entry hHas hListed hIndex with hSaved | hUpdates | hPending
        · exact .inl (hSaved.withServer rfl)
        · exact .inr (.inl hUpdates)
        · exact .inr (.inr (hPending.withServer _))

end PersistState

end Updates

end Server
