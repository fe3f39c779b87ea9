import Mathlib.Order.Nat
import PandaBridge.Server.ChangeSets

/-! No update is lost. An index is allocated under the lock of its entry, so a request that
took its own index later and comes to that lock finds the update there. -/
namespace Server

open Transition

variable {Lock Value : Type} {layout : ChangeLayout Lock}

namespace Updating

def entry : Updating Lock → ChangeEntry Lock
  | written entry _ => entry
  | locked entry _ => entry
  | allocated entry _ _ => entry

def version : Updating Lock → Nat
  | written _ version => version
  | locked _ version => version
  | allocated _ version _ => version

end Updating

namespace ChangeConnection

variable (layout) (connection : ChangeConnection Lock Value)

/-- The next request of the connection covers the index, or the one on its way does and has
yet to visit the lock of the entry. -/
def Owes (entry : ChangeEntry Lock) (index : Nat) : Prop :=
  connection.context (layout.changeIx entry.1) < index ∨
    ∃ request since, connection.request = some request ∧
      request.report (layout.changeIx entry.1) = some since ∧ since < index ∧
      entry.1 ∈ request.locks ++ request.groups.flatten

/-- The request on its way has found the entry changed. -/
def Noticed (entry : ChangeEntry Lock) (index : Nat) : Prop :=
  ∃ request since, connection.request = some request ∧
    request.report (layout.changeIx entry.1) = some since ∧ since < index ∧
    entry ∈ request.changed ++ request.reading

/-- A `check_change_set` that covers the index has found a change. -/
def Checked (entry : ChangeEntry Lock) (index : Nat) : Prop :=
  ∃ report fresh since, ChangeReport.changed report fresh ∈ connection.reports ∧
    report (layout.changeIx entry.1) = some since ∧ since < index ∧ index ≤ fresh

/-- The connection was told of an update: with the value it made or a later one, or by a check
that covers its index. -/
def Told (update : ChangeUpdate Lock) : Prop :=
  (∃ version value, ChangeReport.value update.entry version value ∈ connection.reports ∧
    update.version ≤ version) ∨
  connection.Checked layout update.entry update.index

end ChangeConnection

/-- The updating threads keep to their locks. -/
structure UpdatesSound (layout : ChangeLayout Lock) (server : ChangeServer Lock Value) : Prop where
  locked : ∀ updater entry version,
    server.updaters updater = some (.locked entry version) → server.held entry.1 = some updater
  allocated : ∀ updater entry version index,
    server.updaters updater = some (.allocated entry version index) →
      server.held entry.1 = some updater ∧ index ≤ server.index ∧
        ∀ update ∈ server.updates, update.entry = entry → update.index < index
  known : ∀ updater updating, server.updaters updater = some updating →
    layout.Has updating.entry ∧ updating.version < server.version updating.entry
  updates : ∀ update ∈ server.updates, layout.Has update.entry ∧
    update.version < server.version update.entry ∧
    update.index ≤ (server.cells update.entry).updateIndex ∧ update.index ≤ server.index

/-- Nothing is lost for a connection. -/
structure Covers (layout : ChangeLayout Lock) (server : ChangeServer Lock Value)
    (connection : ChangeConnection Lock Value) : Prop where
  context : ∀ ix, connection.context ix ≤ server.index
  request : ∀ request, connection.request = some request → ∀ ix since,
    request.report ix = some since → connection.context ix = request.fresh
  updating : ∀ updater entry version index,
    server.updaters updater = some (.allocated entry version index) →
      connection.Owes layout entry index ∨ connection.Checked layout entry index
  updates : ∀ update ∈ server.updates, layout.listed update.entry.1 = true →
    connection.Owes layout update.entry update.index ∨
      connection.Noticed layout update.entry update.index ∨ connection.Told layout update
  values : ∀ entry version value, .value entry version (some value) ∈ connection.reports →
    (server.cells entry).values[version]? = some value

/-! ### The updating threads -/

section Updates

variable {server next : ChangeServer Lock Value} {connection : ChangeConnection Lock Value}

/-- What the other threads may do while a connection rests. -/
theorem Covers.mono (h : Covers layout server connection) (hIndex : server.index ≤ next.index)
    (hUpdating : ∀ updater entry version index,
      next.updaters updater = some (.allocated entry version index) →
        server.updaters updater = some (.allocated entry version index) ∨ server.index < index)
    (hUpdates : ∀ update ∈ next.updates, update ∈ server.updates ∨
      ∃ updater, server.updaters updater =
        some (.allocated update.entry update.version update.index))
    (hValues : ∀ entry, (server.cells entry).values <+: (next.cells entry).values) :
    Covers layout next connection := by
  refine ⟨fun ix => (h.context ix).trans hIndex, h.request, ?_, ?_, ?_⟩
  · intro updater entry version index hNext
    rcases hUpdating updater entry version index hNext with hOld | hFresh
    · exact h.updating updater entry version index hOld
    · exact .inl (.inl (Nat.lt_of_le_of_lt (h.context _) hFresh))
  · intro update hUpdate hListed
    rcases hUpdates update hUpdate with hOld | ⟨updater, hNew⟩
    · exact h.updates update hOld hListed
    · rcases h.updating updater _ _ _ hNew with hOwes | hChecked
      · exact .inl hOwes
      · exact .inr (.inr (.inr hChecked))
  · intro entry version value hReport
    have hValue := h.values entry version value hReport
    obtain ⟨more, hMore⟩ := hValues entry
    rw [← hMore, List.getElem?_append_left (List.getElem?_eq_some_iff.mp hValue).1]
    exact hValue

theorem UpdatesSound.index (h : UpdatesSound layout server) {index : Nat}
    (hIndex : server.index ≤ index) (connections : Nat → ChangeConnection Lock Value) :
    UpdatesSound layout { server with index := index, connections := connections } := by
  refine ⟨h.locked, ?_, h.known, ?_⟩
  · intro updater entry version allocated hUpdater
    obtain ⟨hHeld, hLe, hNew⟩ := h.allocated updater entry version allocated hUpdater
    exact ⟨hHeld, hLe.trans hIndex, hNew⟩
  · intro update hUpdate
    obtain ⟨hHas, hVersion, hCell, hLe⟩ := h.updates update hUpdate
    exact ⟨hHas, hVersion, hCell, hLe.trans hIndex⟩

theorem cases_update {Value' : Type} {state : Nat → Option Value'} {thread other : Nat}
    {new : Option Value'} {value : Value'} (h : Function.update state thread new other = some value) :
    other = thread ∧ new = some value ∨ other ≠ thread ∧ state other = some value := by
  by_cases hSame : other = thread
  · subst hSame
    rw [Function.update_self] at h
    exact .inl ⟨rfl, h⟩
  · rw [Function.update_of_ne hSame] at h
    exact .inr ⟨hSame, h⟩

/-- `get_change_index` under the lock. -/
theorem UpdatesSound.allocate (h : UpdatesSound layout server) {updater : Nat}
    {entry : ChangeEntry Lock} {version : Nat}
    (hPhase : server.updaters updater = some (.locked entry version)) :
    UpdatesSound layout
      { server with
        index := server.index + 1
        updaters := Function.update server.updaters updater
          (some (.allocated entry version (server.index + 1))) } := by
  refine ⟨?_, ?_, ?_, ?_⟩
  · intro other entry' version' hOther
    rcases cases_update hOther with ⟨rfl, hNew⟩ | ⟨_, hOld⟩
    · exact absurd hNew (by simp)
    · exact h.locked other entry' version' hOld
  · intro other entry' version' index hOther
    rcases cases_update hOther with ⟨rfl, hNew⟩ | ⟨_, hOld⟩
    · obtain ⟨rfl, _, rfl⟩ : entry = entry' ∧ version = version' ∧ server.index + 1 = index := by
        simpa using hNew
      refine ⟨h.locked other entry version hPhase, Nat.le_refl _, fun update hUpdate _ => ?_⟩
      exact Nat.lt_succ_of_le (h.updates update hUpdate).2.2.2
    · obtain ⟨hLock, hLe, hRest⟩ := h.allocated other entry' version' index hOld
      exact ⟨hLock, Nat.le_succ_of_le hLe, hRest⟩
  · intro other updating hOther
    rcases cases_update hOther with ⟨rfl, hNew⟩ | ⟨_, hOld⟩
    · obtain rfl : Updating.allocated entry version (server.index + 1) = updating := by
        simpa using hNew
      exact h.known other (.locked entry version) hPhase
    · exact h.known other updating hOld
  · intro update hUpdate
    obtain ⟨hKnown, hVersion, hCell, hLe⟩ := h.updates update hUpdate
    exact ⟨hKnown, hVersion, hCell, Nat.le_succ_of_le hLe⟩

variable [DecidableEq Lock]

theorem values_put (server : ChangeServer Lock Value) (updater : Nat) (entry : ChangeEntry Lock)
    (value : Value) (phase : Updating Lock) (other : ChangeEntry Lock) :
    (server.cells other).values <+: ((server.put updater entry value phase).cells other).values := by
  by_cases hSame : other = entry
  · subst hSame
    simp [ChangeServer.put]
  · simp [ChangeServer.put, Function.update_of_ne hSame]

theorem version_put (server : ChangeServer Lock Value) (updater : Nat) (entry : ChangeEntry Lock)
    (value : Value) (phase : Updating Lock) (other : ChangeEntry Lock) :
    server.version other ≤ (server.put updater entry value phase).version other :=
  (values_put server updater entry value phase other).length_le

/-- Another thread's lock does not get in the way of one that is free. -/
theorem held_update {held : Lock → Option Nat} {lock other : Lock} {updater : Nat}
    (hFree : held lock = none) (hHeld : held other = some updater) (new : Option Nat) :
    Function.update held lock new other = some updater := by
  have hNe : other ≠ lock := by
    rintro rfl
    rw [hFree] at hHeld
    exact absurd hHeld (by simp)
  rw [Function.update_of_ne hNe]
  exact hHeld

/-- A new value. The thread holds the lock from now on, or has not taken it yet. -/
theorem UpdatesSound.put (h : UpdatesSound layout server) {updater : Nat} {entry : ChangeEntry Lock}
    (value : Value) (hHas : layout.Has entry) {phase : Updating Lock} {held : Lock → Option Nat}
    (hPhase : phase = .locked entry (server.version entry) ∧ server.held entry.1 = none ∧
        held = Function.update server.held entry.1 (some updater) ∨
      phase = .written entry (server.version entry) ∧ held = server.held) :
    UpdatesSound layout { server.put updater entry value phase with held := held } := by
  have hHeld : ∀ lock other, server.held lock = some other → held lock = some other := by
    intro lock other hOther
    rcases hPhase with ⟨_, hFree, rfl⟩ | ⟨_, rfl⟩
    · exact held_update hFree hOther _
    · exact hOther
  refine ⟨?_, ?_, ?_, ?_⟩
  · intro other entry' version hOther
    rcases cases_update hOther with ⟨rfl, hNew⟩ | ⟨_, hOld⟩
    · rcases hPhase with ⟨hLocked, _, rfl⟩ | ⟨hWritten, _⟩
      · rw [hLocked] at hNew
        obtain ⟨rfl, _⟩ : entry = entry' ∧ _ := by simpa using hNew
        exact Function.update_self _ _ _
      · rw [hWritten] at hNew
        exact absurd hNew (by simp)
    · exact hHeld _ _ (h.locked other entry' version hOld)
  · intro other entry' version index hOther
    rcases cases_update hOther with ⟨rfl, hNew⟩ | ⟨_, hOld⟩
    · rcases hPhase with ⟨hLocked, _, _⟩ | ⟨hWritten, _⟩
      · rw [hLocked] at hNew
        exact absurd hNew (by simp)
      · rw [hWritten] at hNew
        exact absurd hNew (by simp)
    · obtain ⟨hLock, hLe, hNew⟩ := h.allocated other entry' version index hOld
      exact ⟨hHeld _ _ hLock, hLe, hNew⟩
  · intro other updating hOther
    rcases cases_update hOther with ⟨rfl, hNew⟩ | ⟨_, hOld⟩
    · obtain rfl : phase = updating := by simpa using hNew
      have hPlace : phase.entry = entry ∧ phase.version = server.version entry := by
        rcases hPhase with ⟨rfl, _⟩ | ⟨rfl, _⟩ <;> exact ⟨rfl, rfl⟩
      rw [hPlace.1, hPlace.2]
      refine ⟨hHas, ?_⟩
      simp [ChangeServer.version, ChangeServer.put]
    · obtain ⟨hKnown, hVersion⟩ := h.known other updating hOld
      exact ⟨hKnown, hVersion.trans_le (version_put server updater entry value phase _)⟩
  · intro update hUpdate
    obtain ⟨hKnown, hVersion, hCell, hLe⟩ := h.updates update hUpdate
    refine ⟨hKnown, hVersion.trans_le (version_put server updater entry value phase _), ?_, hLe⟩
    by_cases hSame : update.entry = entry
    · simpa [ChangeServer.put, hSame] using hCell
    · simpa [ChangeServer.put, Function.update_of_ne hSame] using hCell

theorem UpdatesSound.lock (h : UpdatesSound layout server) {updater : Nat}
    {entry : ChangeEntry Lock} {version : Nat}
    (hPhase : server.updaters updater = some (.written entry version))
    (hFree : server.held entry.1 = none) :
    UpdatesSound layout
      { server with
        held := Function.update server.held entry.1 (some updater)
        updaters := Function.update server.updaters updater (some (.locked entry version)) } := by
  refine ⟨?_, ?_, ?_, h.updates⟩
  · intro other entry' version' hOther
    rcases cases_update hOther with ⟨rfl, hNew⟩ | ⟨_, hOld⟩
    · obtain ⟨rfl, _⟩ : entry = entry' ∧ _ := by simpa using hNew
      exact Function.update_self _ _ _
    · exact held_update hFree (h.locked other entry' version' hOld) _
  · intro other entry' version' index hOther
    rcases cases_update hOther with ⟨rfl, hNew⟩ | ⟨_, hOld⟩
    · exact absurd hNew (by simp)
    · obtain ⟨hLock, hRest⟩ := h.allocated other entry' version' index hOld
      exact ⟨held_update hFree hLock _, hRest⟩
  · intro other updating hOther
    rcases cases_update hOther with ⟨rfl, hNew⟩ | ⟨_, hOld⟩
    · obtain rfl : Updating.locked entry version = updating := by simpa using hNew
      exact h.known other (.written entry version) hPhase
    · exact h.known other updating hOld

/-- The new index is stored and the lock released. -/
theorem UpdatesSound.store (h : UpdatesSound layout server) {updater : Nat}
    {entry : ChangeEntry Lock} {version index : Nat}
    (hPhase : server.updaters updater = some (.allocated entry version index)) :
    UpdatesSound layout
      { server with
        cells := Function.update server.cells entry
          { server.cells entry with updateIndex := index }
        held := Function.update server.held entry.1 none
        updaters := Function.update server.updaters updater none
        updates := server.updates ++ [⟨entry, version, index⟩] } := by
  obtain ⟨hHeld, hIndex, hNewer⟩ := h.allocated updater entry version index hPhase
  -- No other thread is under this lock.
  have hApart : ∀ other lock, other ≠ updater → server.held lock = some other → lock ≠ entry.1 := by
    rintro other lock hOther hLock rfl
    rw [hHeld] at hLock
    exact hOther (Option.some.inj hLock).symm
  have hVersions : ∀ other, ChangeServer.version
      { server with
        cells := Function.update server.cells entry
          { server.cells entry with updateIndex := index } } other = server.version other := by
    intro other
    by_cases hSame : other = entry
    · simp [ChangeServer.version, hSame]
    · simp [ChangeServer.version, Function.update_of_ne hSame]
  refine ⟨?_, ?_, ?_, ?_⟩
  · intro other entry' version' hOther
    rcases cases_update hOther with ⟨_, hNew⟩ | ⟨hNe, hOld⟩
    · exact absurd hNew (by simp)
    · have hLock := h.locked other entry' version' hOld
      exact (Function.update_of_ne (hApart other _ hNe hLock) _ _).trans hLock
  · intro other entry' version' index' hOther
    rcases cases_update hOther with ⟨_, hNew⟩ | ⟨hNe, hOld⟩
    · exact absurd hNew (by simp)
    · obtain ⟨hLock, hLe, hRest⟩ := h.allocated other entry' version' index' hOld
      have hOtherLock := hApart other _ hNe hLock
      refine ⟨(Function.update_of_ne hOtherLock _ _).trans hLock, hLe, ?_⟩
      intro update hUpdate hEntry
      rcases List.mem_append.mp hUpdate with hBefore | hLast
      · exact hRest update hBefore hEntry
      · rw [List.mem_singleton] at hLast
        rw [hLast] at hEntry
        exact absurd (congrArg Prod.fst hEntry.symm) hOtherLock
  · intro other updating hOther
    rcases cases_update hOther with ⟨_, hNew⟩ | ⟨_, hOld⟩
    · exact absurd hNew (by simp)
    · obtain ⟨hKnown, hVersion⟩ := h.known other updating hOld
      exact ⟨hKnown, hVersion.trans_eq (hVersions _).symm⟩
  · intro update hUpdate
    rcases List.mem_append.mp hUpdate with hBefore | hLast
    · obtain ⟨hKnown, hVersion, hCell, hLe⟩ := h.updates update hBefore
      refine ⟨hKnown, hVersion.trans_eq (hVersions _).symm, ?_, hLe⟩
      by_cases hSame : update.entry = entry
      · simpa [hSame] using (hNewer update hBefore hSame).le
      · simpa [Function.update_of_ne hSame] using hCell
    · rw [List.mem_singleton] at hLast
      subst hLast
      obtain ⟨hKnown, hVersion⟩ := h.known updater _ hPhase
      exact ⟨hKnown, hVersion.trans_eq (hVersions _).symm, by simp, hIndex⟩

end Updates

/-! ### The connections -/

section Connections

variable {server : ChangeServer Lock Value} {connection next : ChangeConnection Lock Value}
variable {request : ChangeRequest Lock}

theorem mem_changes (server : ChangeServer Lock Value) {report : ReportIndex}
    {entry : ChangeEntry Lock} {since : Nat}
    (hListed : layout.listed entry.1 = true) (hCount : entry.2 < layout.count entry.1)
    (hReport : report (layout.changeIx entry.1) = some since)
    (hNewer : since < (server.cells entry).updateIndex) :
    entry ∈ server.changes layout report entry.1 := by
  refine List.mem_map.mpr ⟨entry.2, List.mem_filter.mpr ⟨List.mem_range.mpr hCount, ?_⟩, rfl⟩
  rw [hListed, Bool.true_and, changedSince_eq_true]
  exact ⟨since, hReport, hNewer⟩

theorem Covers.begin (h : Covers layout server connection) (hSound : UpdatesSound layout server)
    (hNone : connection.request = none) (sets : ChangeIx → Bool) (generates printTables : Bool)
    (connections : Nat → ChangeConnection Lock Value) :
    Covers layout { server with index := server.index + 1, connections := connections }
      (server.beginRequest layout connection sets generates printTables) := by
  have hOwes : ∀ entry index, layout.Has entry → connection.Owes layout entry index →
      (server.beginRequest layout connection sets generates printTables).Owes layout entry index := by
    intro entry index hHas hOwes
    have hNewer : connection.context (layout.changeIx entry.1) < index := by
      rcases hOwes with hNewer | ⟨old, _, hOld, _⟩
      · exact hNewer
      · rw [hNone] at hOld
        exact absurd hOld (by simp)
    by_cases hAsked : sets (layout.changeIx entry.1) = true
    · refine .inr ⟨_, connection.context (layout.changeIx entry.1), rfl, if_pos hAsked, hNewer, ?_⟩
      exact hHas.1
    · refine .inl ?_
      simp only [ChangeServer.beginRequest, updateChangeIndex]
      rw [if_neg hAsked]
      exact hNewer
  refine ⟨?_, ?_, ?_, ?_, h.values⟩
  · exact updateChangeIndex_le fun ix => Nat.lt_succ_of_le (h.context ix)
  · rintro _ ⟨⟩ ix since hReport
    simp only [ChangeServer.beginRequest, updateChangeIndex] at hReport ⊢
    split_ifs at hReport ⊢ with hAsked
    rfl
  · intro updater entry version index hUpdater
    rcases h.updating updater entry version index hUpdater with hOwed | hChecked
    · exact .inl (hOwes entry index (hSound.known updater _ hUpdater).1 hOwed)
    · exact .inr hChecked
  · intro update hUpdate hListed
    rcases h.updates update hUpdate hListed with hOwed | ⟨old, _, hOld, _⟩ | hTold
    · exact .inl (hOwes _ _ (hSound.updates update hUpdate).1 hOwed)
    · rw [hNone] at hOld
      exact absurd hOld (by simp)
    · exact .inr (.inr hTold)

theorem checked_append {entry : ChangeEntry Lock} {index : Nat}
    (h : connection.Checked layout entry index) {more : List (ChangeReport Lock Value)}
    (hReports : next.reports = connection.reports ++ more) : next.Checked layout entry index := by
  obtain ⟨report, fresh, since, hMem, hRest⟩ := h
  refine ⟨report, fresh, since, ?_, hRest⟩
  rw [hReports]
  exact List.mem_append_left _ hMem

theorem told_append {update : ChangeUpdate Lock} (h : connection.Told layout update)
    {more : List (ChangeReport Lock Value)} (hReports : next.reports = connection.reports ++ more) :
    next.Told layout update := by
  rcases h with ⟨version, value, hMem, hLe⟩ | hChecked
  · refine .inl ⟨version, value, ?_, hLe⟩
    rw [hReports]
    exact List.mem_append_left _ hMem
  · exact .inr (checked_append hChecked hReports)

theorem Covers.keep (h : Covers layout server connection)
    (hContext : next.context = connection.context)
    (hRequest : ∀ after, next.request = some after → ∃ before, connection.request = some before ∧
      after.report = before.report ∧ after.fresh = before.fresh)
    {more : List (ChangeReport Lock Value)} (hReports : next.reports = connection.reports ++ more)
    (hMore : ∀ entry version value, .value entry version (some value) ∈ more →
      (server.cells entry).values[version]? = some value)
    (hUpdating : ∀ updater entry version index,
      server.updaters updater = some (.allocated entry version index) →
      connection.Owes layout entry index →
        next.Owes layout entry index ∨ next.Checked layout entry index)
    (hUpdates : ∀ update ∈ server.updates, layout.listed update.entry.1 = true →
      connection.Owes layout update.entry update.index ∨
        connection.Noticed layout update.entry update.index →
      next.Owes layout update.entry update.index ∨
        next.Noticed layout update.entry update.index ∨ next.Told layout update) :
    Covers layout server next := by
  refine ⟨?_, ?_, ?_, ?_, ?_⟩
  · rw [hContext]
    exact h.context
  · intro after hAfter ix since hSince
    obtain ⟨before, hBefore, hReport, hFresh⟩ := hRequest after hAfter
    rw [hReport] at hSince
    rw [hContext, hFresh]
    exact h.request before hBefore ix since hSince
  · intro updater entry version index hUpdater
    rcases h.updating updater entry version index hUpdater with hOwed | hChecked
    · exact hUpdating updater entry version index hUpdater hOwed
    · exact .inr (checked_append hChecked hReports)
  · intro update hUpdate hListed
    rcases h.updates update hUpdate hListed with hOwed | hNoticed | hTold
    · exact hUpdates update hUpdate hListed (.inl hOwed)
    · exact hUpdates update hUpdate hListed (.inr hNoticed)
    · exact .inr (.inr (told_append hTold hReports))
  · intro entry version value hMem
    rw [hReports] at hMem
    rcases List.mem_append.mp hMem with hOld | hNew
    · exact h.values entry version value hOld
    · exact hMore entry version value hNew

theorem Covers.reading (h : Covers layout server connection) (hSound : UpdatesSound layout server)
    (hRequest : connection.request = some request) {entry : ChangeEntry Lock}
    {rest : List (ChangeEntry Lock)} (hReading : request.reading = entry :: rest) :
    Covers layout server
      { connection with
        request := some { request with reading := rest }
        reports := connection.reports ++ [server.reportValue layout request.printTables entry] } := by
  have hOwes : ∀ other index, connection.Owes layout other index → ChangeConnection.Owes layout
      { connection with
        request := some { request with reading := rest }
        reports := connection.reports ++ [server.reportValue layout request.printTables entry] }
      other index := by
    rintro other index (hNewer | ⟨old, since, hOld, hSince⟩)
    · exact .inl hNewer
    · obtain rfl := Option.some.inj (hRequest.symm.trans hOld)
      exact .inr ⟨_, since, rfl, hSince⟩
  refine h.keep rfl ?_ rfl ?_ (fun _ _ _ _ _ hOwed => .inl (hOwes _ _ hOwed)) ?_
  · rintro _ ⟨⟩
    exact ⟨request, hRequest, rfl, rfl⟩
  · intro other version value hMem
    rw [List.mem_singleton, ChangeServer.reportValue] at hMem
    obtain ⟨rfl, rfl, hValue⟩ := ChangeReport.value.inj hMem
    split_ifs at hValue
    rw [← List.getLast?_eq_getElem?]
    exact hValue.symm
  · rintro update hUpdate hListed (hOwed | ⟨old, since, hOld, hSince, hLess, hMem⟩)
    · exact .inl (hOwes _ _ hOwed)
    · obtain rfl := Option.some.inj (hRequest.symm.trans hOld)
      rw [hReading, List.mem_append, List.mem_cons] at hMem
      rcases hMem with hChanged | hHere | hLater
      · exact .inr (.inl ⟨_, since, rfl, hSince, hLess, List.mem_append_left _ hChanged⟩)
      · -- The value that is reported is at least as new as that of the update.
        subst hHere
        have hVersion := (hSound.updates update hUpdate).2.1
        exact .inr (.inr (.inl ⟨_, _, List.mem_append_right _ (List.mem_singleton_self _),
          Nat.le_sub_one_of_lt hVersion⟩))
      · exact .inr (.inl ⟨_, since, rfl, hSince, hLess, List.mem_append_right _ hLater⟩)

theorem Covers.visit (h : Covers layout server connection) (hSound : UpdatesSound layout server)
    (hRequest : connection.request = some request) {lock : Lock} {rest : List Lock}
    (hLocks : request.locks = lock :: rest) (hFree : server.held lock = none) :
    Covers layout server
      { connection with
        request := some { request with
          locks := rest
          changed := request.changed ++ server.changes layout request.report lock } } := by
  obtain ⟨after, hAfter⟩ : ∃ after, after = { connection with
    request := some { request with
      locks := rest
      changed := request.changed ++ server.changes layout request.report lock } } := ⟨_, rfl⟩
  rw [← hAfter]
  have hOwes : ∀ other index, connection.Owes layout other index →
      after.Owes layout other index ∨ other.1 = lock ∧ ∃ since,
        request.report (layout.changeIx other.1) = some since ∧ since < index := by
    rw [hAfter]
    rintro other index (hNewer | ⟨old, since, hOld, hSince, hLess, hMem⟩)
    · exact .inl (.inl hNewer)
    · obtain rfl := Option.some.inj (hRequest.symm.trans hOld)
      rw [hLocks, List.cons_append, List.mem_cons] at hMem
      rcases hMem with hHere | hAhead
      · exact .inr ⟨hHere, since, hSince, hLess⟩
      · exact .inl (.inr ⟨_, since, rfl, hSince, hLess, hAhead⟩)
  refine h.keep (by rw [hAfter]) ?_ (by rw [hAfter]; exact (List.append_nil _).symm) (by simp) ?_ ?_
  · rw [hAfter]
    rintro _ ⟨⟩
    exact ⟨request, hRequest, rfl, rfl⟩
  · intro updater entry version index hUpdater hOwed
    rcases hOwes entry index hOwed with hOwes | ⟨rfl, _⟩
    · exact .inl hOwes
    · rw [(hSound.allocated updater entry version index hUpdater).1] at hFree
      exact absurd hFree (by simp)
  · rintro update hUpdate hListed (hOwed | ⟨old, since, hOld, hSince, hLess, hMem⟩)
    · rcases hOwes _ _ hOwed with hOwes | ⟨rfl, since, hSince, hLess⟩
      · exact .inl hOwes
      · obtain ⟨hHas, _, hCell, _⟩ := hSound.updates update hUpdate
        have hFound := mem_changes server hListed hHas.2 hSince (hLess.trans_le hCell)
        rw [hAfter]
        exact .inr (.inl ⟨_, since, rfl, hSince, hLess,
          List.mem_append_left _ (List.mem_append_right _ hFound)⟩)
    · obtain rfl := Option.some.inj (hRequest.symm.trans hOld)
      rw [hAfter]
      refine .inr (.inl ⟨_, since, rfl, hSince, hLess, ?_⟩)
      rcases List.mem_append.mp hMem with hChanged | hReading
      · exact List.mem_append_left _ (List.mem_append_left _ hChanged)
      · exact List.mem_append_right _ hReading

/-- Another request takes the place of one that has reported the same, with all that is yet to be
visited or reported. -/
theorem Covers.replace (h : Covers layout server connection)
    (hRequest : connection.request = some request) {following : ChangeRequest Lock}
    (hReport : following.report = request.report) (hFresh : following.fresh = request.fresh)
    (hVisits : ∀ lock since, request.report (layout.changeIx lock) = some since →
      lock ∈ request.locks ++ request.groups.flatten →
        lock ∈ following.locks ++ following.groups.flatten)
    (hChanged : ∀ entry ∈ request.changed ++ request.reading,
      entry ∈ following.changed ++ following.reading) :
    Covers layout server { connection with request := some following } := by
  have hOwes : ∀ other index, connection.Owes layout other index →
      ChangeConnection.Owes layout { connection with request := some following } other index := by
    rintro other index (hNewer | ⟨old, since, hOld, hSince, hLess, hMem⟩)
    · exact .inl hNewer
    · obtain rfl := Option.some.inj (hRequest.symm.trans hOld)
      exact .inr ⟨following, since, rfl, hReport ▸ hSince, hLess,
        hVisits other.1 since hSince hMem⟩
  refine h.keep rfl ?_ (List.append_nil _).symm (by simp)
    (fun _ _ _ _ _ hOwed => .inl (hOwes _ _ hOwed)) ?_
  · rintro _ ⟨⟩
    exact ⟨request, hRequest, hReport, hFresh⟩
  · rintro update hUpdate hListed (hOwed | ⟨old, since, hOld, hSince, hLess, hMem⟩)
    · exact .inl (hOwes _ _ hOwed)
    · obtain rfl := Option.some.inj (hRequest.symm.trans hOld)
      exact .inr (.inl ⟨following, since, rfl, hReport ▸ hSince, hLess, hChanged _ hMem⟩)

theorem Covers.report (h : Covers layout server connection)
    (hRequest : connection.request = some request) (hReading : request.reading = []) :
    Covers layout server
      { connection with
        request := some { request with changed := [], reading := request.changed } } := by
  refine h.replace hRequest rfl rfl (fun _ _ _ hMem => hMem) fun entry hMem => ?_
  rw [hReading, List.append_nil] at hMem
  exact hMem

/-- The next group. Of its locks those are left out that were not asked for. -/
theorem Covers.group (h : Covers layout server connection)
    (hRequest : connection.request = some request) {group : List Lock} {rest : List (List Lock)}
    (hGroups : request.groups = group :: rest) (hLocks : request.locks = []) :
    Covers layout server
      { connection with
        request := some { request with
          groups := rest
          locks := group.filter fun lock => (request.report (layout.changeIx lock)).isSome } } := by
  refine h.replace hRequest rfl rfl (fun lock since hSince hMem => ?_) fun _ hMem => hMem
  rw [hLocks, hGroups, List.nil_append, List.flatten_cons, List.mem_append] at hMem
  rcases hMem with hHere | hLater
  · refine List.mem_append_left _ (List.mem_filter.mpr ⟨hHere, ?_⟩)
    rw [hSince]
    rfl
  · exact List.mem_append_right _ hLater

theorem Covers.found (h : Covers layout server connection)
    (hRequest : connection.request = some request) :
    Covers layout server
      { connection with
        request := none
        reports := connection.reports ++ [.changed request.report request.fresh]
        completed := connection.completed + 1 } := by
  have hChecked : ∀ other index since,
      request.report (layout.changeIx other.1) = some since → since < index →
      connection.context (layout.changeIx other.1) < index ∨ ChangeConnection.Checked layout
        { connection with
          request := none
          reports := connection.reports ++ [.changed request.report request.fresh]
          completed := connection.completed + 1 } other index := by
    intro other index since hSince hLess
    rcases Nat.lt_or_ge (connection.context (layout.changeIx other.1)) index with hNewer | hCovered
    · exact .inl hNewer
    · rw [h.request request hRequest _ since hSince] at hCovered
      exact .inr ⟨request.report, request.fresh, since,
        List.mem_append_right _ (List.mem_singleton_self _), hSince, hLess, hCovered⟩
  refine h.keep rfl nofun rfl (by simp) ?_ ?_
  · rintro updater entry version index hUpdater (hNewer | ⟨old, since, hOld, hSince, hLess, _⟩)
    · exact .inl (.inl hNewer)
    · obtain rfl := Option.some.inj (hRequest.symm.trans hOld)
      rcases hChecked entry index since hSince hLess with hNewer | hTold
      · exact .inl (.inl hNewer)
      · exact .inr hTold
  · rintro update hUpdate hListed
      ((hNewer | ⟨old, since, hOld, hSince, hLess, _⟩) | ⟨old, since, hOld, hSince, hLess, _⟩)
    · exact .inl (.inl hNewer)
    all_goals
      obtain rfl := Option.some.inj (hRequest.symm.trans hOld)
      rcases hChecked update.entry update.index since hSince hLess with hNewer | hTold
      · exact .inl (.inl hNewer)
      · exact .inr (.inr (.inr hTold))

theorem Covers.finish (h : Covers layout server connection)
    (hRequest : connection.request = some request) (hAhead : request.locks ++ request.groups.flatten = [])
    (hFound : request.changed ++ request.reading = []) :
    Covers layout server
      { connection with request := none, completed := connection.completed + 1 } := by
  have hOwes : ∀ other index, connection.Owes layout other index →
      connection.context (layout.changeIx other.1) < index := by
    rintro other index (hNewer | ⟨old, since, hOld, _, _, hMem⟩)
    · exact hNewer
    · obtain rfl := Option.some.inj (hRequest.symm.trans hOld)
      rw [hAhead] at hMem
      exact absurd hMem List.not_mem_nil
  refine h.keep rfl nofun (List.append_nil _).symm (by simp)
    (fun _ _ _ _ _ hOwed => .inl (.inl (hOwes _ _ hOwed))) ?_
  rintro update hUpdate hListed (hOwed | ⟨old, _, hOld, _, _, hMem⟩)
  · exact .inl (.inl (hOwes _ _ hOwed))
  · obtain rfl := Option.some.inj (hRequest.symm.trans hOld)
    rw [hFound] at hMem
    exact absurd hMem List.not_mem_nil

theorem Covers.advance (h : Covers layout server connection) (hSound : UpdatesSound layout server)
    (hRequest : connection.request = some request)
    (hNext : server.advance layout connection request = some next) :
    Covers layout server next := by
  unfold ChangeServer.advance at hNext
  split at hNext
  · next entry rest hReading =>
      obtain rfl := Option.some.inj hNext
      exact h.reading hSound hRequest hReading
  · next lock rest _ hLocks =>
      split_ifs at hNext with hFree
      obtain rfl := Option.some.inj hNext
      exact h.visit hSound hRequest hLocks hFree
  · next first others hReading _ hChanged =>
      split_ifs at hNext
      · obtain rfl := Option.some.inj hNext
        rw [← hChanged]
        exact h.report hRequest hReading
      · obtain rfl := Option.some.inj hNext
        exact h.found hRequest
  · next group rest _ hLocks _ hGroups =>
      obtain rfl := Option.some.inj hNext
      exact h.group hRequest hGroups hLocks
  · next hReading hLocks hChanged hGroups =>
      obtain rfl := Option.some.inj hNext
      exact h.finish hRequest (by rw [hLocks, hGroups]; rfl) (by rw [hChanged, hReading]; rfl)

end Connections

/-! ### The whole server -/

/-- The server before its first connection: no update or request is on its way. -/
structure ChangeServer.Fresh (server : ChangeServer Lock Value) : Prop where
  updaters : ∀ updater, server.updaters updater = none
  updates : server.updates = []
  request : ∀ connection, (server.connections connection).request = none
  reports : ∀ connection, (server.connections connection).reports = []
  context : ∀ connection ix, (server.connections connection).context ix ≤ server.index

/-- What holds in every state that the server gets into. -/
structure ChangeInv (layout : ChangeLayout Lock) (server : ChangeServer Lock Value) : Prop where
  sound : UpdatesSound layout server
  covers : ∀ connection, Covers layout server (server.connections connection)

theorem ChangeInv.start {server : ChangeServer Lock Value} (h : server.Fresh) :
    ChangeInv layout server := by
  have hNone : ∀ updater updating, server.updaters updater ≠ some updating := by
    intro updater updating hSome
    rw [h.updaters] at hSome
    exact absurd hSome (by simp)
  refine ⟨⟨?_, ?_, ?_, ?_⟩, fun connection => ⟨h.context connection, ?_, ?_, ?_, ?_⟩⟩
  · exact fun updater entry version hSome => absurd hSome (hNone _ _)
  · exact fun updater entry version index hSome => absurd hSome (hNone _ _)
  · exact fun updater updating hSome => absurd hSome (hNone _ _)
  · intro update hUpdate
    rw [h.updates] at hUpdate
    exact absurd hUpdate List.not_mem_nil
  · intro request hSome
    rw [h.request] at hSome
    exact absurd hSome (by simp)
  · exact fun updater entry version index hSome => absurd hSome (hNone _ _)
  · intro update hUpdate
    rw [h.updates] at hUpdate
    exact absurd hUpdate List.not_mem_nil
  · intro entry version value hReport
    rw [h.reports] at hReport
    exact absurd hReport List.not_mem_nil

variable [DecidableEq Lock] {server next : ChangeServer Lock Value}

/-- The connections do not mind a new value. -/
theorem Covers.put {connection : ChangeConnection Lock Value} (h : Covers layout server connection)
    (updater : Nat) (entry : ChangeEntry Lock) (value : Value) {phase : Updating Lock}
    (hPhase : ∀ other version index, phase ≠ .allocated other version index)
    (held : Lock → Option Nat) :
    Covers layout { server.put updater entry value phase with held := held } connection := by
  refine h.mono (Nat.le_refl _) ?_ (fun update hUpdate => .inl hUpdate)
    (values_put server updater entry value phase)
  intro other entry' version index hOther
  rcases cases_update hOther with ⟨_, hNew⟩ | ⟨_, hOld⟩
  · exact absurd (Option.some.inj hNew) (hPhase _ _ _)
  · exact .inl hOld

theorem ChangeInv.step (h : ChangeInv layout server) {event : ChangeEvent Lock Value}
    (hStep : changeSystem layout server event = some next) : ChangeInv layout next := by
  cases event with
  | lockWrite updater entry value =>
      simp only [changeSystem] at hStep
      split_ifs at hStep with hReady
      obtain rfl := Option.some.inj hStep
      exact ⟨h.sound.put value hReady.2.2 (.inl ⟨rfl, hReady.2.1, rfl⟩), fun connection =>
        (h.covers connection).put updater entry value (by simp) _⟩
  | write updater entry value =>
      simp only [changeSystem] at hStep
      split_ifs at hStep with hReady
      obtain rfl := Option.some.inj hStep
      exact ⟨h.sound.put value hReady.2 (.inr ⟨rfl, rfl⟩), fun connection =>
        (h.covers connection).put updater entry value (by simp) _⟩
  | lock updater =>
      simp only [changeSystem] at hStep
      split at hStep
      · next entry version hPhase =>
          split_ifs at hStep with hFree
          obtain rfl := Option.some.inj hStep
          refine ⟨h.sound.lock hPhase hFree, fun connection => ?_⟩
          refine (h.covers connection).mono (Nat.le_refl _) ?_ (fun _ hUpdate => .inl hUpdate)
            fun _ => List.prefix_rfl
          intro other entry' version' index hOther
          rcases cases_update hOther with ⟨_, hNew⟩ | ⟨_, hOld⟩
          · exact absurd hNew (by simp)
          · exact .inl hOld
      · exact absurd hStep (by simp)
  | allocate updater =>
      simp only [changeSystem] at hStep
      split at hStep
      · next entry version hPhase =>
          obtain rfl := Option.some.inj hStep
          refine ⟨h.sound.allocate hPhase, fun connection => ?_⟩
          refine (h.covers connection).mono (Nat.le_succ _) ?_ (fun _ hUpdate => .inl hUpdate)
            fun _ => List.prefix_rfl
          intro other entry' version' index hOther
          rcases cases_update hOther with ⟨_, hNew⟩ | ⟨_, hOld⟩
          · obtain ⟨_, _, rfl⟩ : entry = entry' ∧ version = version' ∧ server.index + 1 = index := by
              simpa using hNew
            exact .inr (Nat.lt_succ_self _)
          · exact .inl hOld
      · exact absurd hStep (by simp)
  | store updater =>
      simp only [changeSystem] at hStep
      split at hStep
      · next entry version index hPhase =>
          obtain rfl := Option.some.inj hStep
          refine ⟨h.sound.store hPhase, fun connection => ?_⟩
          refine (h.covers connection).mono (Nat.le_refl _) ?_ ?_ ?_
          · intro other entry' version' index' hOther
            rcases cases_update hOther with ⟨_, hNew⟩ | ⟨_, hOld⟩
            · exact absurd hNew (by simp)
            · exact .inl hOld
          · intro update hUpdate
            rcases List.mem_append.mp hUpdate with hOld | hNew
            · exact .inl hOld
            · rw [List.mem_singleton] at hNew
              subst hNew
              exact .inr ⟨updater, hPhase⟩
          · intro other
            by_cases hSame : other = entry
            · simp [hSame]
            · simp [Function.update_of_ne hSame]
      · exact absurd hStep (by simp)
  | request asker sets generates printTables =>
      simp only [changeSystem] at hStep
      split_ifs at hStep with hIdle
      obtain rfl := Option.some.inj hStep
      refine ⟨h.sound.index (Nat.le_succ _) _, fun connection => ?_⟩
      by_cases hSame : connection = asker
      · subst hSame
        simp only [Function.update_self]
        exact (h.covers connection).begin h.sound hIdle sets generates printTables _
      · simp only [Function.update_of_ne hSame]
        exact (h.covers connection).mono (Nat.le_succ _) (fun _ _ _ _ hOld => .inl hOld)
          (fun _ hUpdate => .inl hUpdate) fun _ => List.prefix_rfl
  | advance asker =>
      simp only [changeSystem] at hStep
      obtain ⟨request, hRequest, hMap⟩ := Option.bind_eq_some_iff.mp hStep
      obtain ⟨after, hAdvance, rfl⟩ := Option.map_eq_some_iff.mp hMap
      refine ⟨h.sound.index (Nat.le_refl _) _, fun connection => ?_⟩
      have hSame : ∀ {one}, Covers layout server one → Covers layout
          { server with connections := Function.update server.connections asker after } one :=
        fun hOne => hOne.mono (Nat.le_refl _) (fun _ _ _ _ hOld => .inl hOld)
          (fun _ hUpdate => .inl hUpdate) fun _ => List.prefix_rfl
      by_cases hAsker : connection = asker
      · subst hAsker
        simp only [Function.update_self]
        exact hSame ((h.covers connection).advance h.sound hRequest hAdvance)
      · simp only [Function.update_of_ne hAsker]
        exact hSame (h.covers connection)

/-! ### From one request to its end -/

/-- What every step leaves alone in a connection: contexts grow, reports are added, and a
request that counts as completed is over. -/
structure Progress (before after : ChangeConnection Lock Value) : Prop where
  context : ∀ ix, before.context ix ≤ after.context ix
  reports : before.reports <+: after.reports
  completed : after.completed = before.completed ∨ after.request = none

omit [DecidableEq Lock] in
theorem Progress.refl (connection : ChangeConnection Lock Value) :
    Progress connection connection :=
  ⟨fun _ => Nat.le_refl _, List.prefix_rfl, .inl rfl⟩

omit [DecidableEq Lock] in
theorem Progress.advance {connection after : ChangeConnection Lock Value}
    {request : ChangeRequest Lock}
    (hNext : server.advance layout connection request = some after) : Progress connection after := by
  unfold ChangeServer.advance at hNext
  split at hNext
  · obtain rfl := Option.some.inj hNext
    exact ⟨fun _ => Nat.le_refl _, List.prefix_append _ _, .inl rfl⟩
  · split_ifs at hNext
    obtain rfl := Option.some.inj hNext
    exact ⟨fun _ => Nat.le_refl _, List.prefix_rfl, .inl rfl⟩
  · split_ifs at hNext
    · obtain rfl := Option.some.inj hNext
      exact ⟨fun _ => Nat.le_refl _, List.prefix_rfl, .inl rfl⟩
    · obtain rfl := Option.some.inj hNext
      exact ⟨fun _ => Nat.le_refl _, List.prefix_append _ _, .inr rfl⟩
  · obtain rfl := Option.some.inj hNext
    exact ⟨fun _ => Nat.le_refl _, List.prefix_rfl, .inl rfl⟩
  · obtain rfl := Option.some.inj hNext
    exact ⟨fun _ => Nat.le_refl _, List.prefix_rfl, .inr rfl⟩

/-- A step of the server, as one connection and one update see it. -/
theorem ChangeInv.progress (h : ChangeInv layout server) {event : ChangeEvent Lock Value}
    (hStep : changeSystem layout server event = some next) (connection : Nat) :
    Progress (server.connections connection) (next.connections connection) ∧
      server.updates <+: next.updates := by
  cases event with
  | lockWrite updater entry value =>
      simp only [changeSystem] at hStep
      split_ifs at hStep
      obtain rfl := Option.some.inj hStep
      exact ⟨Progress.refl _, List.prefix_rfl⟩
  | write updater entry value =>
      simp only [changeSystem] at hStep
      split_ifs at hStep
      obtain rfl := Option.some.inj hStep
      exact ⟨Progress.refl _, List.prefix_rfl⟩
  | lock updater =>
      simp only [changeSystem] at hStep
      split at hStep
      · split_ifs at hStep
        obtain rfl := Option.some.inj hStep
        exact ⟨Progress.refl _, List.prefix_rfl⟩
      · exact absurd hStep (by simp)
  | allocate updater =>
      simp only [changeSystem] at hStep
      split at hStep
      · obtain rfl := Option.some.inj hStep
        exact ⟨Progress.refl _, List.prefix_rfl⟩
      · exact absurd hStep (by simp)
  | store updater =>
      simp only [changeSystem] at hStep
      split at hStep
      · obtain rfl := Option.some.inj hStep
        exact ⟨Progress.refl _, List.prefix_append _ _⟩
      · exact absurd hStep (by simp)
  | request asker sets generates printTables =>
      simp only [changeSystem] at hStep
      split_ifs at hStep
      obtain rfl := Option.some.inj hStep
      refine ⟨?_, List.prefix_rfl⟩
      by_cases hAsker : connection = asker
      · subst hAsker
        simp only [Function.update_self]
        refine ⟨fun ix => ?_, List.prefix_rfl, .inl rfl⟩
        simp only [ChangeServer.beginRequest, updateChangeIndex]
        split_ifs
        · exact Nat.le_succ_of_le ((h.covers connection).context ix)
        · exact Nat.le_refl _
      · simp only [Function.update_of_ne hAsker]
        exact Progress.refl _
  | advance asker =>
      simp only [changeSystem] at hStep
      obtain ⟨request, _, hMap⟩ := Option.bind_eq_some_iff.mp hStep
      obtain ⟨after, hAdvance, rfl⟩ := Option.map_eq_some_iff.mp hMap
      refine ⟨?_, List.prefix_rfl⟩
      by_cases hAsker : connection = asker
      · subst hAsker
        simp only [Function.update_self]
        exact Progress.advance hAdvance
      · simp only [Function.update_of_ne hAsker]
        exact Progress.refl _

omit [DecidableEq Lock] in
theorem Covers.told {connection : ChangeConnection Lock Value} (h : Covers layout server connection)
    (hNone : connection.request = none) {update : ChangeUpdate Lock}
    (hUpdate : update ∈ server.updates) (hListed : layout.listed update.entry.1 = true)
    (hCovered : update.index ≤ connection.context (layout.changeIx update.entry.1)) :
    connection.Told layout update := by
  have hIdle : ∀ request, connection.request ≠ some request := by
    intro request hSome
    rw [hNone] at hSome
    exact absurd hSome (by simp)
  rcases h.updates update hUpdate hListed with (hNewer | ⟨_, _, hSome, _⟩) | ⟨_, _, hSome, _⟩ | hTold
  · exact absurd hCovered (Nat.not_le.mpr hNewer)
  · exact absurd hSome (hIdle _)
  · exact absurd hSome (hIdle _)
  · exact hTold

/-- Until a covering request has ended, and told from then on. -/
structure CoveredUntil (layout : ChangeLayout Lock) (connection completed : Nat)
    (update : ChangeUpdate Lock) (server : ChangeServer Lock Value) : Prop where
  inv : ChangeInv layout server
  stored : update ∈ server.updates
  covered : update.index ≤ (server.connections connection).context (layout.changeIx update.entry.1)
  told : (server.connections connection).completed = completed ∨
    (server.connections connection).Told layout update

theorem CoveredUntil.step {connection completed : Nat} {update : ChangeUpdate Lock}
    (h : CoveredUntil layout connection completed update server)
    (hListed : layout.listed update.entry.1 = true) {event : ChangeEvent Lock Value}
    (hStep : changeSystem layout server event = some next) :
    CoveredUntil layout connection completed update next := by
  obtain ⟨hProgress, hUpdates⟩ := h.inv.progress hStep connection
  have hInv := h.inv.step hStep
  have hUpdate := hUpdates.subset h.stored
  have hCovered := h.covered.trans (hProgress.context _)
  refine ⟨hInv, hUpdate, hCovered, ?_⟩
  rcases h.told with hSame | hTold
  · rcases hProgress.completed with hStill | hNone
    · exact .inl (hStill.trans hSame)
    · exact .inr ((hInv.covers connection).told hNone hUpdate hListed hCovered)
  · obtain ⟨more, hMore⟩ := hProgress.reports
    exact .inr (told_append hTold hMore.symm)

/-- Whatever was updated before a request began is told when that request has ended, with the
value of the update or a later one; whoever else updates and asks meanwhile. -/
theorem updates_reported (db : Database) {Value : Type}
    {first middle begun last : ChangeServer ChangeLock Value} (hFresh : first.Fresh)
    {before after : List (ChangeEvent ChangeLock Value)}
    (hBefore : (changeSystem db.layout).run before first = some middle)
    {update : ChangeUpdate ChangeLock} (hUpdate : update ∈ middle.updates)
    (hListed : db.layout.listed update.entry.1 = true)
    {connection : Nat} {sets : ChangeIx → Bool} {generates printTables : Bool}
    (hRequest : changeSystem db.layout middle (.request connection sets generates printTables) =
      some begun)
    (hAsked : sets (db.layout.changeIx update.entry.1) = true)
    (hAfter : (changeSystem db.layout).run after begun = some last)
    (hDone : (begun.connections connection).completed < (last.connections connection).completed) :
    (∃ version value,
      ChangeReport.value update.entry version value ∈ (last.connections connection).reports ∧
      update.version ≤ version ∧
      ∀ printed, value = some printed → (last.cells update.entry).values[version]? = some printed) ∨
    (last.connections connection).Checked db.layout update.entry update.index := by
  have hMiddle : ChangeInv db.layout middle :=
    System.Reachable.invariant (ChangeInv db.layout) (ChangeInv.start hFresh)
      (fun _ _ _ h hStep => h.step hStep) ⟨before, hBefore⟩
  have hCovered : update.index ≤ (begun.connections connection).context
      (db.layout.changeIx update.entry.1) := by
    simp only [changeSystem] at hRequest
    split_ifs at hRequest
    obtain rfl := Option.some.inj hRequest
    simp only [Function.update_self, ChangeServer.beginRequest, updateChangeIndex, if_pos hAsked]
    exact Nat.le_succ_of_le (hMiddle.sound.updates update hUpdate).2.2.2
  have hBegun : CoveredUntil db.layout connection (begun.connections connection).completed update
      begun :=
    ⟨hMiddle.step hRequest, (hMiddle.progress hRequest connection).2.subset hUpdate, hCovered,
      .inl rfl⟩
  have hLast : CoveredUntil db.layout connection (begun.connections connection).completed update
      last :=
    System.Reachable.invariant _ hBegun (fun _ _ _ h hStep => h.step hListed hStep) ⟨after, hAfter⟩
  rcases hLast.told with hSame | ⟨version, value, hMem, hVersion⟩ | hChecked
  · omega
  · refine .inl ⟨version, value, hMem, hVersion, ?_⟩
    rintro printed rfl
    exact (hLast.inv.covers connection).values _ _ _ hMem
  · exact .inr hChecked

/-! ### One field with one attribute -/

/-- A parameter and its attribute. -/
def oneField (inChangeSet : Bool) : Database :=
  { blocks := [{ count := 1, fields := [{ fieldClass := .param, attrs := [inChangeSet] }] }]
    metadata := [] }

/-- Nothing was asked so far. -/
def quietServer : ChangeServer ChangeLock Nat where
  index := 1
  cells := fun _ => { values := [0], updateIndex := 1 }
  held := fun _ => none
  updaters := fun _ => none
  connections := fun _ => { context := fun _ => 0, request := none, reports := [], completed := 0 }
  updates := []

/-- The attribute is written, as `RAW` is: first the value of its field, then `attr_changed`. -/
def attrPut : List (ChangeEvent ChangeLock Nat) :=
  [.lockWrite 0 (.field 0 0, 0) 5, .allocate 0, .store 0,
    .write 0 (.attr 0 0 0, 0) 5, .lock 0, .allocate 0, .store 0]

def ChangeServer.after (server : ChangeServer ChangeLock Nat) (inChangeSet : Bool)
    (events : List (ChangeEvent ChangeLock Nat)) : ChangeServer ChangeLock Nat :=
  ((changeSystem (oneField inChangeSet).layout).run events server).getD server

/-- The server when `*CHANGES?` has begun. -/
def putServer (inChangeSet : Bool) : ChangeServer ChangeLock Nat :=
  quietServer.after inChangeSet attrPut

def askedServer (inChangeSet : Bool) : ChangeServer ChangeLock Nat :=
  (putServer inChangeSet).after inChangeSet [.request 0 (fun _ => true) true true]

def answeredServer (inChangeSet : Bool) (steps : Nat) : ChangeServer ChangeLock Nat :=
  (askedServer inChangeSet).after inChangeSet (List.replicate steps (.advance 0))

theorem attribute_update_reported :
    quietServer.Fresh ∧
    ((∃ version value,
      ChangeReport.value (.attr 0 0 0, 0) version value ∈
        ((answeredServer true 9).connections 0).reports ∧
      1 ≤ version ∧
      ∀ printed, value = some printed →
        ((answeredServer true 9).cells (.attr 0 0 0, 0)).values[version]? = some printed) ∨
    ((answeredServer true 9).connections 0).Checked (oneField true).layout (.attr 0 0 0, 0) 3) := by
  have hFresh : quietServer.Fresh :=
    ⟨fun _ => rfl, rfl, fun _ => rfl, fun _ => rfl, fun _ _ => Nat.zero_le _⟩
  have hUpdates : (putServer true).updates =
      [⟨(.field 0 0, 0), 1, 2⟩, ⟨(.attr 0 0 0, 0), 1, 3⟩] := rfl
  refine ⟨hFresh, ?_⟩
  exact @updates_reported (oneField true) Nat quietServer (putServer true) (askedServer true)
    (answeredServer true 9) hFresh attrPut (List.replicate 9 (.advance 0)) rfl
    ⟨(.attr 0 0 0, 0), 1, 3⟩ (by rw [hUpdates]; simp) rfl 0 (fun _ => true) true true rfl rfl
    rfl (by decide)

/-- An attribute that is not `in_change_set` is not reported, only its field is. -/
theorem raw_attribute_not_reported :
    quietServer.Fresh ∧
    (changeSystem (oneField false).layout).run attrPut quietServer = some (putServer false) ∧
    ⟨(.attr 0 0 0, 0), 1, 3⟩ ∈ (putServer false).updates ∧
    changeSystem (oneField false).layout (putServer false)
      (.request 0 (fun _ => true) true true) = some (askedServer false) ∧
    (changeSystem (oneField false).layout).run (List.replicate 7 (.advance 0))
      (askedServer false) = some (answeredServer false 7) ∧
    ((answeredServer false 7).connections 0).request = none ∧
    ((answeredServer false 7).connections 0).completed = 1 ∧
    ¬ ((answeredServer false 7).connections 0).Told (oneField false).layout
      ⟨(.attr 0 0 0, 0), 1, 3⟩ := by
  have hUpdates : (putServer false).updates =
      [⟨(.field 0 0, 0), 1, 2⟩, ⟨(.attr 0 0 0, 0), 1, 3⟩] := rfl
  have hReports : ((answeredServer false 7).connections 0).reports =
      [.value (.field 0 0, 0) 1 (some 5)] := rfl
  refine ⟨⟨fun _ => rfl, rfl, fun _ => rfl, fun _ => rfl, fun _ _ => Nat.zero_le _⟩, rfl,
    by rw [hUpdates]; simp, rfl, rfl, rfl, rfl, ?_⟩
  rintro (⟨version, value, hMem, _⟩ | ⟨report, fresh, since, hMem, _⟩)
  · rw [hReports] at hMem
    simp at hMem
  · rw [hReports] at hMem
    simp at hMem

end Server
