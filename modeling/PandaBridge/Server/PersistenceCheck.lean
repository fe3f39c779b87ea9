import Mathlib.Data.List.Infix
import PandaBridge.Server.PersistenceInv

/-! The check of the persistence thread keeps what is pending: it reads the context before it
moves it, and visits every lock after that. -/
namespace Server

open Transition

variable {Lock Value : Type} {layout : ChangeLayout Lock}

theorem contextAccesses_order : ∀ todo ∈ contextAccesses.tails, ∀ ix : ChangeIx,
    (∀ rest, todo = .read ix :: rest → .read ix ∉ rest) ∧
      ∀ rest, todo = .store ix :: rest → .read ix ∉ rest := by
  have hAll : ∀ todo ∈ contextAccesses.tails, ∀ ix ∈ persistChanges,
      (todo.head? = some (.read ix) → .read ix ∉ todo.tail) ∧
        (todo.head? = some (.store ix) → .read ix ∉ todo.tail) := by
    decide
  have hIx : ∀ ix ∉ persistChanges, ∀ todo ∈ contextAccesses.tails, .read ix ∉ todo := by
    intro ix
    cases ix <;> decide
  intro todo hTodo ix
  by_cases hMember : ix ∈ persistChanges
  · obtain ⟨hRead, hStore⟩ := hAll todo hTodo ix hMember
    constructor
    · rintro rest rfl
      exact hRead rfl
    · rintro rest rfl
      exact hStore rfl
  · have hNever := hIx ix hMember todo hTodo
    constructor
    · rintro rest rfl hRest
      exact hNever (List.mem_cons_of_mem _ hRest)
    · rintro rest rfl hRest
      exact hNever (List.mem_cons_of_mem _ hRest)

namespace RefreshSound

variable {report : ReportIndex} {ix : ChangeIx} {rest : List ContextAccess}

theorem begin : RefreshSound (fun _ => none) contextAccesses :=
  ⟨List.suffix_rfl, fun _ _ h => absurd h nofun⟩

theorem not_mem_read (h : RefreshSound report (.read ix :: rest)) : .read ix ∉ rest :=
  (contextAccesses_order _ ((List.mem_tails _ _).mpr h.suffix) ix).1 rest rfl

theorem not_mem_store (h : RefreshSound report (.store ix :: rest)) : .read ix ∉ rest :=
  (contextAccesses_order _ ((List.mem_tails _ _).mpr h.suffix) ix).2 rest rfl

theorem afterRead (h : RefreshSound report (.read ix :: rest)) (value : Nat) :
    RefreshSound (Function.update report ix (some value)) rest where
  suffix := (List.suffix_cons _ _).trans h.suffix
  read := fun other since hOther hMem => by
    by_cases hSame : other = ix
    · subst hSame
      exact h.not_mem_read hMem
    · rw [Function.update_of_ne hSame] at hOther
      exact h.read other since hOther (List.mem_cons_of_mem _ hMem)

theorem afterStore (h : RefreshSound report (.store ix :: rest)) : RefreshSound report rest where
  suffix := (List.suffix_cons _ _).trans h.suffix
  read := fun other since hOther hMem => h.read other since hOther (List.mem_cons_of_mem _ hMem)

end RefreshSound

namespace PersistState

variable [DecidableEq Lock] {state next : PersistState Lock Value}

theorem Saved.congr {entry : ChangeEntry Lock} (h : state.Saved layout entry)
    (hWriter : next.writer = state.writer) (hFile : next.file = state.file)
    (hCells : next.server.cells = state.server.cells) : next.Saved layout entry := by
  unfold Saved current at h ⊢
  rw [hWriter, hFile, hCells]
  exact h

omit [DecidableEq Lock] in
theorem WillVisit.congr {lock : Lock} (h : state.WillVisit layout lock)
    (hWriter : next.writer = state.writer) : next.WillVisit layout lock := by
  unfold WillVisit at h ⊢
  rw [hWriter]
  exact h

/-- An update that is pending can be seen unless its lock is held. -/
structure Visible (layout : ChangeLayout Lock) (server : ChangeServer Lock Value)
    (entry : ChangeEntry Lock) (index : Nat) : Prop where
  has : layout.Has entry
  listed : layout.listed entry.1 = true
  newer : server.held entry.1 = none → index ≤ (server.cells entry).updateIndex

/-- A step that leaves the writer, the file and the updates alone keeps the invariant if it keeps
what is pending. -/
theorem Inv.keep (hInv : state.Inv layout) (hSound : UpdatesSound layout next.server)
    (hCells : next.server.cells = state.server.cells)
    (hUpdaters : next.server.updaters = state.server.updaters)
    (hIndex : state.server.index ≤ next.server.index)
    (hWriter : next.writer = state.writer) (hFile : next.file = state.file)
    (hContext : ∀ ix, next.context ix ≤ next.server.index)
    (hRefreshing : ∀ fresh report todo final, next.thread = .refreshing fresh report todo final →
      fresh ≤ next.server.index ∧ RefreshSound report todo)
    (hChecking : ∀ request final, next.thread = .checking request final →
      request.generates = false ∧ request.reading = [])
    (hPending : ∀ entry index, Visible layout state.server entry index →
      state.Pending layout entry index → next.Pending layout entry index) : next.Inv layout where
  sound := hSound
  context := hContext
  refreshing := hRefreshing
  checking := hChecking
  updating := fun byThread fresh todo h =>
    (hInv.updating byThread fresh todo (hWriter ▸ h)).trans hIndex
  generating := fun byThread connection passes h =>
    hInv.generating byThread connection passes (hWriter ▸ h)
  allocated := fun updater entry version index hUpdater hListed => by
    rw [hUpdaters] at hUpdater
    have hHeld := (hInv.sound.allocated updater entry version index hUpdater).1
    have hHas := (hInv.sound.known updater _ hUpdater).1
    rcases hInv.allocated updater entry version index hUpdater hListed with hVisit | hOld
    · exact .inl (hVisit.congr hWriter)
    · refine .inr (hPending entry index ⟨hHas, hListed, fun hFree => ?_⟩ hOld)
      exact absurd (hFree.symm.trans hHeld) nofun
  stored := fun entry hHas hListed hStored => by
    rw [hCells] at hStored ⊢
    rcases hInv.stored entry hHas hListed hStored with hSaved | hUpdates | hOld
    · exact .inl (hSaved.congr hWriter hFile hCells)
    · refine .inr (.inl ?_)
      unfold Updates
      rw [hUpdaters]
      exact hUpdates
    · exact .inr (.inr (hPending entry _ ⟨hHas, hListed, fun _ => Nat.le_refl _⟩ hOld))

/-! ### Waiting -/

omit [DecidableEq Lock] in
/-- A thread that is not in a refresh has nothing to store. -/
theorem Ahead.of_context {ix : ChangeIx} {index : Nat} (hContext : state.context ix < index)
    (hThread : ∀ fresh report todo final, state.thread ≠ .refreshing fresh report todo final) :
    state.Ahead ix index :=
  ⟨hContext, fun fresh report todo final h => absurd h (hThread fresh report todo final)⟩

omit [DecidableEq Lock] in
/-- What is neither noticed nor committed is ahead of the context. -/
theorem Pending.context {entry : ChangeEntry Lock} {index : Nat}
    (h : Pending layout state entry index) (hNoticing : ¬ Noticing layout entry index state.thread)
    (hCommitted : ¬ state.Committed) : state.context (layout.changeIx entry.1) < index := by
  cases h with
  | ahead h => exact h.context
  | noticing h => exact absurd h hNoticing
  | committed h => exact absurd h hCommitted

theorem Inv.wake (hInv : state.Inv layout) (hStep : state.wake = some next) : next.Inv layout := by
  unfold PersistState.wake at hStep
  split_ifs at hStep with hIdle
  have hNone : state.writer = none := Option.isNone_iff_eq_none.mp hIdle
  split at hStep
  · next hThread =>
      obtain rfl := Option.some.inj hStep
      refine hInv.keep hInv.sound rfl rfl (Nat.le_refl _) rfl rfl hInv.context nofun nofun ?_
      intro entry index _ hPending
      refine .ahead (.of_context (hPending.context ?_ ?_) nofun)
      · rw [hThread]
        nofun
      · rw [Committed, hThread, hNone]
        simp
  · obtain rfl := Option.some.inj hStep
    refine hInv.keep hInv.sound rfl rfl (Nat.le_refl _) rfl rfl hInv.context nofun nofun ?_
    exact fun entry index _ _ => .committed (.inr (.inl ⟨false, rfl⟩))
  · next hThread =>
      obtain rfl := Option.some.inj hStep
      refine hInv.keep hInv.sound rfl rfl (Nat.le_refl _) rfl rfl hInv.context nofun nofun ?_
      intro entry index _ hPending
      refine .ahead (.of_context (hPending.context ?_ ?_) nofun)
      · rw [hThread]
        nofun
      · rw [Committed, hThread, hNone]
        simp
  · exact absurd hStep nofun

/-! ### Refreshing the context -/

omit [DecidableEq Lock] in
theorem Committed.writer (h : state.Committed) (hHoldoff : state.thread ≠ .holdoff)
    (hBlocked : ∀ final, state.thread ≠ .blocked final) (hWriter : next.writer = state.writer) :
    next.Committed := by
  rcases h with h | ⟨final, h⟩ | h
  · exact absurd h hHoldoff
  · exact absurd h (hBlocked final)
  · exact .inr (.inr (hWriter.trans h))

theorem Inv.starting (hInv : state.Inv layout) {final : Bool}
    (hThread : state.thread = .starting final) :
    ({ state with
      server := state.withIndex
      thread := .refreshing state.fresh (fun _ => none) contextAccesses final } :
      PersistState Lock Value).Inv layout := by
  have hBoth : ∀ ix, ContextAccess.store ix ∈ contextAccesses →
      ContextAccess.read ix ∈ contextAccesses := by
    intro ix
    cases ix <;> decide
  refine hInv.keep (hInv.sound.index (Nat.le_succ _) _) rfl rfl (Nat.le_succ _) rfl rfl
    (fun ix => Nat.le_succ_of_le (hInv.context ix)) ?_ nofun ?_
  · intro fresh report todo last h
    obtain ⟨rfl, rfl, rfl, rfl⟩ := PersistThread.refreshing.inj h
    exact ⟨Nat.le_refl _, .begin⟩
  · intro entry index _ hPending
    cases hPending with
    | ahead h =>
        refine .ahead ⟨h.context, fun fresh report todo last hNext hStore => .inl ?_⟩
        obtain ⟨rfl, rfl, rfl, rfl⟩ := PersistThread.refreshing.inj hNext
        exact hBoth _ hStore
    | noticing h => exact absurd h (by rw [hThread]; nofun)
    | committed h =>
        exact .committed (h.writer (by rw [hThread]; nofun) (by rw [hThread]; nofun) rfl)

theorem Inv.read (hInv : state.Inv layout) {fresh : Nat} {report : ReportIndex} {ix : ChangeIx}
    {rest : List ContextAccess} {final : Bool}
    (hThread : state.thread = .refreshing fresh report (.read ix :: rest) final) :
    ({ state with
      thread := .refreshing fresh (Function.update report ix (some (state.context ix))) rest final } :
      PersistState Lock Value).Inv layout := by
  obtain ⟨hFresh, hSound⟩ := hInv.refreshing _ _ _ _ hThread
  refine hInv.keep hInv.sound rfl rfl (Nat.le_refl _) rfl rfl hInv.context ?_ nofun ?_
  · intro fresh' report' todo last h
    obtain ⟨rfl, rfl, rfl, rfl⟩ := PersistThread.refreshing.inj h
    exact ⟨hFresh, hSound.afterRead _⟩
  · intro entry index _ hPending
    cases hPending with
    | ahead h =>
        by_cases hSame : layout.changeIx entry.1 = ix
        · -- the check has read a context that is behind the update
          refine .noticing (.refreshing (by rw [hSame]; exact Function.update_self _ _ _) ?_)
          exact hSame ▸ h.context
        · refine .ahead ⟨h.context, fun fresh' report' todo last hNext hStore => ?_⟩
          obtain ⟨rfl, rfl, rfl, rfl⟩ := PersistThread.refreshing.inj hNext
          rcases h.refresh _ _ _ _ hThread (List.mem_cons_of_mem _ hStore) with hRead | hLess
          · refine .inl ((List.mem_cons.mp hRead).resolve_left fun hHead => hSame ?_)
            exact ContextAccess.read.inj hHead
          · exact .inr hLess
    | noticing h =>
        rw [hThread] at h
        cases h with
        | @refreshing _ since _ _ _ hReport hSince =>
            refine .noticing (.refreshing ?_ hSince)
            have hNe : layout.changeIx entry.1 ≠ ix := by
              rintro rfl
              exact hSound.read _ _ hReport List.mem_cons_self
            rw [Function.update_of_ne hNe]
            exact hReport
    | committed h =>
        exact .committed (h.writer (by rw [hThread]; nofun) (by rw [hThread]; nofun) rfl)

theorem Inv.store (hInv : state.Inv layout) {fresh : Nat} {report : ReportIndex} {ix : ChangeIx}
    {rest : List ContextAccess} {final : Bool}
    (hThread : state.thread = .refreshing fresh report (.store ix :: rest) final) :
    ({ state with
      context := Function.update state.context ix fresh
      thread := .refreshing fresh report rest final } : PersistState Lock Value).Inv layout := by
  obtain ⟨hFresh, hSound⟩ := hInv.refreshing _ _ _ _ hThread
  refine hInv.keep hInv.sound rfl rfl (Nat.le_refl _) rfl rfl ?_ ?_ nofun ?_
  · intro other
    by_cases hSame : other = ix
    · subst hSame
      simp only [Function.update_self]
      exact hFresh
    · simp only [Function.update_of_ne hSame]
      exact hInv.context other
  · intro fresh' report' todo last h
    obtain ⟨rfl, rfl, rfl, rfl⟩ := PersistThread.refreshing.inj h
    exact ⟨hFresh, hSound.afterStore⟩
  · intro entry index _ hPending
    cases hPending with
    | ahead h =>
        by_cases hSame : layout.changeIx entry.1 = ix
        · -- the set was read before, so the new index is older than the update
          subst hSame
          have hLess : fresh < index :=
            (h.refresh _ _ _ _ hThread List.mem_cons_self).resolve_left fun hRead =>
              hSound.not_mem_store ((List.mem_cons.mp hRead).resolve_left nofun)
          refine .ahead ⟨?_, fun fresh' report' todo last hNext _ => ?_⟩
          · simp only [Function.update_self]
            exact hLess
          · obtain ⟨rfl, rfl, rfl, rfl⟩ := PersistThread.refreshing.inj hNext
            exact .inr hLess
        · refine .ahead ⟨?_, fun fresh' report' todo last hNext hStore => ?_⟩
          · simp only [Function.update_of_ne hSame]
            exact h.context
          · obtain ⟨rfl, rfl, rfl, rfl⟩ := PersistThread.refreshing.inj hNext
            rcases h.refresh _ _ _ _ hThread (List.mem_cons_of_mem _ hStore) with hRead | hLess
            · exact .inl ((List.mem_cons.mp hRead).resolve_left nofun)
            · exact .inr hLess
    | noticing h =>
        rw [hThread] at h
        cases h with
        | refreshing hReport hSince => exact .noticing (.refreshing hReport hSince)
    | committed h =>
        exact .committed (h.writer (by rw [hThread]; nofun) (by rw [hThread]; nofun) rfl)

theorem Inv.refresh (hInv : state.Inv layout) (hStep : state.refresh layout = some next) :
    next.Inv layout := by
  unfold PersistState.refresh at hStep
  split at hStep
  · next final hThread =>
      obtain rfl := Option.some.inj hStep
      exact hInv.starting hThread
  · next fresh report ix rest final hThread =>
      obtain rfl := Option.some.inj hStep
      exact hInv.read hThread
  · next fresh report ix rest final hThread =>
      obtain rfl := Option.some.inj hStep
      exact hInv.store hThread
  · next fresh report final hThread =>
      obtain rfl := Option.some.inj hStep
      refine hInv.keep hInv.sound rfl rfl (Nat.le_refl _) rfl rfl hInv.context nofun ?_ ?_
      · intro request last h
        obtain ⟨rfl, rfl⟩ := PersistThread.checking.inj h
        exact ⟨rfl, rfl⟩
      · intro entry index hVisible hPending
        cases hPending with
        | ahead h => exact .ahead (.of_context h.context nofun)
        | noticing h =>
            rw [hThread] at h
            cases h with
            | refreshing hReport hSince =>
                exact .noticing (.checking hReport hSince
                  (List.mem_append.mpr (.inr hVisible.has.1)))
        | committed h =>
            exact .committed (h.writer (by rw [hThread]; nofun) (by rw [hThread]; nofun) rfl)
  · exact absurd hStep nofun

/-! ### Checking -/

theorem Inv.checkOn (hInv : state.Inv layout) {request after : ChangeRequest Lock} {final : Bool}
    (hThread : state.thread = .checking request final)
    (hKinds : after.generates = false ∧ after.reading = [])
    (hNoticing : ∀ entry index, Visible layout state.server entry index →
      Noticing layout entry index (.checking request final) →
        Noticing layout entry index (.checking after final)) :
    ({ state with thread := .checking after final } : PersistState Lock Value).Inv layout := by
  refine hInv.keep hInv.sound rfl rfl (Nat.le_refl _) rfl rfl hInv.context nofun ?_ ?_
  · intro other last h
    obtain ⟨rfl, rfl⟩ := PersistThread.checking.inj h
    exact hKinds
  · intro entry index hVisible hPending
    cases hPending with
    | ahead h => exact .ahead (.of_context h.context nofun)
    | noticing h =>
        rw [hThread] at h
        exact .noticing (hNoticing entry index hVisible h)
    | committed h =>
        exact .committed (h.writer (by rw [hThread]; nofun) (by rw [hThread]; nofun) rfl)

/-- A check that has found something leads to a write, and one that has not has missed nothing. -/
theorem Inv.endCheck (hInv : state.Inv layout) {request : ChangeRequest Lock} {final : Bool}
    (hThread : state.thread = .checking request final) (changed : Bool)
    (hNoticing : changed = false → ∀ entry index,
      ¬ Noticing layout entry index (.checking request final)) :
    (state.endCheck changed final).Inv layout := by
  have hNext : ∀ {thread : PersistThread Lock}, (state.endCheck changed final).thread = thread →
      (∃ last, thread = .blocked last) ∨ thread = .holdoff ∨ thread = .exited ∨
        thread = .waiting := by
    rintro thread rfl
    cases changed with
    | true =>
        cases final with
        | true => exact .inl ⟨true, rfl⟩
        | false => exact .inr (.inl rfl)
    | false =>
        cases final with
        | true => exact .inr (.inr (.inl rfl))
        | false => exact .inr (.inr (.inr rfl))
  refine hInv.keep hInv.sound rfl rfl (Nat.le_refl _) rfl rfl hInv.context ?_ ?_ ?_
  · intro fresh report todo last h
    have hKind := hNext h
    simp at hKind
  · intro other last h
    have hKind := hNext h
    simp at hKind
  · intro entry index _ hPending
    cases hPending with
    | ahead h =>
        refine .ahead (.of_context h.context fun fresh report todo last hRefreshing => ?_)
        have hKind := hNext hRefreshing
        simp at hKind
    | noticing h =>
        rw [hThread] at h
        cases changed with
        | false => exact absurd h (hNoticing rfl entry index)
        | true =>
            cases final with
            | true => exact .committed (.inr (.inl ⟨true, rfl⟩))
            | false => exact .committed (.inl rfl)
    | committed h =>
        exact .committed (h.writer (by rw [hThread]; nofun) (by rw [hThread]; nofun) rfl)

omit [DecidableEq Lock] in
theorem noticing_visit {entry : ChangeEntry Lock} {index : Nat} {request : ChangeRequest Lock}
    {final : Bool} {server : ChangeServer Lock Value} {lock : Lock} {rest : List Lock}
    (h : Noticing layout entry index (.checking request final))
    (hVisible : Visible layout server entry index) (hLocks : request.locks = lock :: rest)
    (hFree : server.held lock = none) :
    Noticing layout entry index (.checking { request with
      locks := rest
      changed := request.changed ++ server.changes layout request.report lock } final) := by
  cases h with
  | found hFound => exact .found fun h => hFound (List.append_eq_nil_iff.mp h).1
  | @checking _ _ since hReport hSince hAhead =>
      rw [hLocks, List.cons_append] at hAhead
      rcases List.mem_cons.mp hAhead with hHere | hLater
      · -- the lock is free, so the update is stored and seen
        rw [← hHere] at hFree ⊢
        have hMember := mem_changes server hVisible.listed hVisible.has.2 hReport
          (hSince.trans_le (hVisible.newer hFree))
        refine .found fun h => ?_
        rw [(List.append_eq_nil_iff.mp h).2] at hMember
        exact absurd hMember List.not_mem_nil
      · exact .checking hReport hSince hLater

omit [DecidableEq Lock] in
theorem noticing_group {entry : ChangeEntry Lock} {index : Nat} {request : ChangeRequest Lock}
    {final : Bool} {group : List Lock} {rest : List (List Lock)}
    (h : Noticing layout entry index (.checking request final)) (hLocks : request.locks = [])
    (hGroups : request.groups = group :: rest) :
    Noticing layout entry index (.checking { request with
      groups := rest
      locks := group.filter fun lock => (request.report (layout.changeIx lock)).isSome } final) := by
  cases h with
  | found hFound => exact .found hFound
  | @checking _ _ since hReport hSince hAhead =>
      rw [hLocks, hGroups, List.nil_append, List.flatten_cons] at hAhead
      refine .checking hReport hSince (List.mem_append.mpr ?_)
      refine (List.mem_append.mp hAhead).imp_left fun hGroup => List.mem_filter.mpr ⟨hGroup, ?_⟩
      rw [hReport]
      rfl

theorem Inv.check (hInv : state.Inv layout) (hStep : state.check layout = some next) :
    next.Inv layout := by
  unfold PersistState.check at hStep
  split at hStep
  · next request final hThread =>
      obtain ⟨hGenerates, hReading⟩ := hInv.checking request final hThread
      obtain ⟨after, hAdvance, hNext⟩ := Option.map_eq_some_iff.mp hStep
      cases advance_step hAdvance with
      | read hOther => exact absurd (hReading.symm.trans hOther) nofun
      | visit _ hLocks hFree =>
          obtain rfl := hNext
          exact hInv.checkOn hThread ⟨hGenerates, hReading⟩ fun entry index hVisible h =>
            noticing_visit h hVisible hLocks hFree
      | found _ _ _ hOther => exact absurd (hGenerates.symm.trans hOther) nofun
      | changed =>
          obtain rfl := hNext
          exact hInv.endCheck hThread true nofun
      | group _ hLocks _ hGroups =>
          obtain rfl := hNext
          exact hInv.checkOn hThread ⟨hGenerates, hReading⟩ fun entry index _ h =>
            noticing_group h hLocks hGroups
      | finish _ hLocks hChanged hGroups =>
          obtain rfl := hNext
          refine hInv.endCheck hThread false fun _ entry index h => ?_
          cases h with
          | found hFound => exact hFound hChanged
          | checking hReport hSince hAhead =>
              rw [hLocks, hGroups] at hAhead
              exact absurd hAhead List.not_mem_nil
  · exact absurd hStep nofun

end PersistState

end Server
