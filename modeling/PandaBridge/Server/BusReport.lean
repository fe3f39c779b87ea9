import PandaBridge.Server.BusRefresh

/-! What a refresh has observed stays newer than the contexts of the connections that have not
asked since, and is reported to the first of their requests that comes. A single field read
that has taken its index early can break this. -/
namespace Server

open Transition

variable {Entry Value : Type} {fields : List (BusField Entry)}
  {server next : BusServer Entry Value}

/-- The event is a refresh that finds this entry flagged. -/
def BusServer.Observes (server : BusServer Entry Value) (bus : Bus) (entry : Entry) :
    BusEvent Entry Value → Prop
  | .refresh reader => server.changed bus entry = true ∧
      ∃ index, server.readers reader = some (bus, index)
  | .advance connection => server.changed bus entry = true ∧
      server.changeMutex = some connection ∧
      ∃ request rest, (server.connections connection).request = some request ∧
        request.refreshing = bus :: rest
  | _ => False

/-- A single field read comes with an index that no connection has passed, or finds an update
index there that none has passed. -/
def BusServer.Prompt (server : BusServer Entry Value) : BusEvent Entry Value → Prop
  | .refresh reader => ∀ bus index, server.readers reader = some (bus, index) →
      ∀ entry, server.changed bus entry = true → ∀ connection,
        (server.connections connection).context bus.changeIx <
          max index (server.updateIndex bus entry)
  | _ => True

/-! ### What a refresh and a request do -/

namespace BusServer

theorem le_doRefresh (server : BusServer Entry Value) (bus : Bus) (index : Nat) (other : Bus)
    (entry : Entry) :
    server.updateIndex other entry ≤ (server.doRefresh bus index).updateIndex other entry := by
  by_cases hSame : other = bus
  · subst hSame
    simp only [doRefresh, Function.update_self]
    split_ifs with hNewer
    · exact Nat.le_of_lt hNewer.2
    · exact Nat.le_refl _
  · simp only [doRefresh, Function.update_of_ne hSame]
    exact Nat.le_refl _

/-- A flagged entry gets the index, unless it has a newer one. -/
theorem max_le_doRefresh {bus : Bus} {entry : Entry} (h : server.changed bus entry = true)
    (index : Nat) :
    max index (server.updateIndex bus entry) ≤ (server.doRefresh bus index).updateIndex bus entry := by
  simp only [doRefresh, Function.update_self, h, true_and]
  split_ifs with hNewer
  · exact max_le (Nat.le_refl _) (Nat.le_of_lt hNewer)
  · exact max_le (Nat.not_lt.mp hNewer) (Nat.le_refl _)

theorem le_advance (server : BusServer Entry Value) (connection : Nat)
    (request : BusRequest Entry Value) (bus : Bus) (entry : Entry) :
    server.updateIndex bus entry ≤ (server.advance connection request).updateIndex bus entry := by
  unfold advance
  split_ifs
  · split
    · exact le_doRefresh server _ _ bus entry
    · exact Nat.le_refl _
  · split
    · exact Nat.le_refl _
    · exact Nat.le_refl _
    · exact Nat.le_refl _

/-- A request leaves the other connections alone, and its own context too. -/
theorem advance_connections (server : BusServer Entry Value) {connection other : Nat}
    (request : BusRequest Entry Value) (h : other ≠ connection) :
    (server.advance connection request).connections other = server.connections other := by
  unfold advance
  split_ifs
  · split
    · exact Function.update_of_ne h _ _
    · rfl
  · split
    · exact Function.update_of_ne h _ _
    · exact Function.update_of_ne h _ _
    · exact Function.update_of_ne h _ _

theorem advance_context (server : BusServer Entry Value) (connection other : Nat)
    (request : BusRequest Entry Value) :
    ((server.advance connection request).connections other).context =
      (server.connections other).context := by
  by_cases h : other = connection
  · subst h
    unfold advance
    split_ifs
    · split <;> simp [setRequest, setConnection, doRefresh]
    · split <;> simp [setRequest, setConnection]
  · rw [advance_connections server request h]

theorem advance_index (server : BusServer Entry Value) (connection : Nat)
    (request : BusRequest Entry Value) :
    (server.advance connection request).index = server.index := by
  unfold advance
  split_ifs
  · split <;> rfl
  · split <;> rfl

end BusServer

variable [DecidableEq Entry] {event : BusEvent Entry Value}

theorem le_updateIndex (hStep : busSystem fields server event = some next) (bus : Bus)
    (entry : Entry) : server.updateIndex bus entry ≤ next.updateIndex bus entry := by
  cases event with
  | change => obtain rfl := Option.some.inj hStep; exact Nat.le_refl _
  | allocate reader =>
      simp only [busSystem] at hStep
      split_ifs at hStep
      obtain rfl := Option.some.inj hStep
      exact Nat.le_refl _
  | refresh reader =>
      obtain ⟨read, _, rfl⟩ := Option.map_eq_some_iff.mp hStep
      exact BusServer.le_doRefresh server _ _ bus entry
  | request connection sets =>
      simp only [busSystem] at hStep
      split_ifs at hStep
      obtain rfl := Option.some.inj hStep
      exact Nat.le_refl _
  | advance connection =>
      obtain ⟨request, _, rfl⟩ := Option.map_eq_some_iff.mp hStep
      exact BusServer.le_advance server connection request bus entry

theorem connections_step (hStep : busSystem fields server event = some next) {connection : Nat}
    (hRequest : ∀ sets, event ≠ .request connection sets) (hAdvance : event ≠ .advance connection) :
    next.connections connection = server.connections connection := by
  cases event with
  | change => obtain rfl := Option.some.inj hStep; rfl
  | allocate reader =>
      simp only [busSystem] at hStep
      split_ifs at hStep
      obtain rfl := Option.some.inj hStep
      rfl
  | refresh reader =>
      obtain ⟨read, _, rfl⟩ := Option.map_eq_some_iff.mp hStep
      rfl
  | request asker sets =>
      have hOther : connection ≠ asker := fun h => hRequest sets (h ▸ rfl)
      simp only [busSystem] at hStep
      split_ifs at hStep
      obtain rfl := Option.some.inj hStep
      exact Function.update_of_ne hOther _ _
  | advance asker =>
      have hOther : connection ≠ asker := fun h => hAdvance (h ▸ rfl)
      obtain ⟨request, _, rfl⟩ := Option.map_eq_some_iff.mp hStep
      exact BusServer.advance_connections server request hOther

/-- A context moves only when its connection asks for that change set. -/
theorem context_step (hStep : busSystem fields server event = some next) (connection : Nat)
    (ix : ChangeIx) (hOther : ∀ sets, event = .request connection sets → sets ix = false) :
    (next.connections connection).context ix = (server.connections connection).context ix := by
  by_cases hAdvance : event = .advance connection
  · subst hAdvance
    obtain ⟨request, _, rfl⟩ := Option.map_eq_some_iff.mp hStep
    rw [BusServer.advance_context]
  · by_cases hRequest : ∃ sets, event = .request connection sets
    · obtain ⟨sets, rfl⟩ := hRequest
      simp only [busSystem] at hStep
      split_ifs at hStep
      obtain rfl := Option.some.inj hStep
      simp [BusServer.beginRequest, BusServer.setConnection, updateChangeIndex, hOther sets rfl]
    · rw [connections_step hStep (fun sets h => hRequest ⟨sets, h⟩) hAdvance]

/-! ### The indices of the requests -/

/-- The buses before the first connection. -/
structure BusServer.Fresh (server : BusServer Entry Value) : Prop where
  mutex : server.changeMutex = none
  request : ∀ connection, (server.connections connection).request = none
  context : ∀ connection ix, (server.connections connection).context ix ≤ server.index

/-- Under `change_mutex` a request is newer than what the others know of. -/
structure BusInv (fields : List (BusField Entry)) (server : BusServer Entry Value) : Prop where
  context : ∀ connection ix, (server.connections connection).context ix ≤ server.index
  report : ∀ connection request, (server.connections connection).request = some request →
    ∀ ix since, request.report ix = some since → since < request.fresh
  mutex : ∀ connection, server.changeMutex = some connection →
    ∃ request, (server.connections connection).request = some request ∧
      request.fields = fields ∧
      (∀ bus ∈ request.refreshing, (request.report bus.changeIx).isSome) ∧
      ∀ other ix, other ≠ connection → (server.connections other).context ix < request.fresh

omit [DecidableEq Entry] in
theorem BusInv.start (h : server.Fresh) : BusInv fields server := by
  refine ⟨h.context, ?_, ?_⟩
  · intro connection request hRequest
    rw [h.request] at hRequest
    exact absurd hRequest (by simp)
  · intro connection hMutex
    rw [h.mutex] at hMutex
    exact absurd hMutex (by simp)

omit [DecidableEq Entry] in
/-- What leaves the connections and `change_mutex` alone. -/
theorem BusInv.keep (h : BusInv fields server) (hIndex : server.index ≤ next.index)
    (hMutex : next.changeMutex = server.changeMutex)
    (hConnections : next.connections = server.connections) : BusInv fields next := by
  refine ⟨fun connection ix => ?_, ?_, ?_⟩
  · rw [hConnections]
    exact (h.context connection ix).trans hIndex
  · rw [hConnections]
    exact h.report
  · rw [hMutex, hConnections]
    exact h.mutex

omit [DecidableEq Entry] in
theorem BusInv.begin (h : BusInv fields server) (connection : Nat) (sets : ChangeIx → Bool) :
    BusInv fields (server.beginRequest fields connection sets) := by
  have hOther : ∀ other, other ≠ connection →
      (server.beginRequest fields connection sets).connections other = server.connections other :=
    fun other hNe => Function.update_of_ne hNe _ _
  have hSelf : (server.beginRequest fields connection sets).connections connection = _ :=
    Function.update_self _ _ _
  refine ⟨fun other ix => ?_, ?_, ?_⟩
  · by_cases hSame : other = connection
    · subst hSame
      rw [hSelf]
      exact updateChangeIndex_le (fun ix => Nat.lt_succ_of_le (h.context other ix)) ix
    · rw [hOther other hSame]
      exact Nat.le_succ_of_le (h.context other ix)
  · intro other request hRequest ix since hSince
    by_cases hSame : other = connection
    · subst hSame
      rw [hSelf] at hRequest
      obtain rfl := Option.some.inj hRequest
      simp only [updateChangeIndex] at hSince
      split_ifs at hSince
      obtain rfl := Option.some.inj hSince
      exact Nat.lt_succ_of_le (h.context other ix)
    · rw [hOther other hSame] at hRequest
      exact h.report other request hRequest ix since hSince
  · intro holder hHolder
    obtain rfl : connection = holder := Option.some.inj hHolder
    refine ⟨_, by rw [hSelf], rfl, ?_, ?_⟩
    · intro bus hBus
      simp [updateChangeIndex, (List.mem_filter.mp hBus).2]
    · intro other ix hNe
      rw [hOther other hNe]
      exact Nat.lt_succ_of_le (h.context other ix)

omit [DecidableEq Entry] in
/-- The connection goes on with its request, or ends it when `change_mutex` is no longer its. -/
theorem BusInv.setRequest (h : BusInv fields server) {connection : Nat}
    {request : BusRequest Entry Value} (hRequest : (server.connections connection).request = some request)
    (hIndex : next.index = server.index)
    (hOther : ∀ other, other ≠ connection → next.connections other = server.connections other)
    (hContext : (next.connections connection).context = (server.connections connection).context)
    (hReport : ∀ after, (next.connections connection).request = some after →
      after.report = request.report ∧ after.fresh = request.fresh)
    (hMutex : ∀ holder, next.changeMutex = some holder → server.changeMutex = some holder)
    (hHeld : next.changeMutex = some connection → ∃ after,
      (next.connections connection).request = some after ∧ after.fields = request.fields ∧
      ∀ bus ∈ after.refreshing, bus ∈ request.refreshing) :
    BusInv fields next := by
  refine ⟨fun other ix => ?_, ?_, ?_⟩
  · rw [hIndex]
    by_cases hSame : other = connection
    · rw [hSame, hContext]
      exact h.context connection ix
    · rw [hOther other hSame]
      exact h.context other ix
  · intro other after hAfter ix since hSince
    by_cases hSame : other = connection
    · subst hSame
      obtain ⟨hSameReport, hFresh⟩ := hReport after hAfter
      rw [hSameReport] at hSince
      rw [hFresh]
      exact h.report other request hRequest ix since hSince
    · rw [hOther other hSame] at hAfter
      exact h.report other after hAfter ix since hSince
  · intro holder hHolder
    obtain ⟨held, hRequest', hFields, hSome, hNewer⟩ := h.mutex holder (hMutex holder hHolder)
    by_cases hSame : holder = connection
    · subst hSame
      obtain rfl := Option.some.inj (hRequest.symm.trans hRequest')
      obtain ⟨after, hAfter, hSameFields, hRefreshing⟩ := hHeld hHolder
      obtain ⟨hSameReport, hFresh⟩ := hReport after hAfter
      refine ⟨after, hAfter, hSameFields.trans hFields, fun bus hBus => ?_, fun other ix hNe => ?_⟩
      · rw [hSameReport]
        exact hSome bus (hRefreshing bus hBus)
      · rw [hOther other hNe, hFresh]
        exact hNewer other ix hNe
    · refine ⟨held, by rw [hOther holder hSame]; exact hRequest', hFields, hSome, ?_⟩
      intro other ix hNe
      by_cases hOne : other = connection
      · rw [hOne, hContext]
        exact hNewer connection ix (Ne.symm hSame)
      · rw [hOther other hOne]
        exact hNewer other ix hNe

omit [DecidableEq Entry] in
theorem BusInv.advance (h : BusInv fields server) {connection : Nat}
    {request : BusRequest Entry Value}
    (hRequest : (server.connections connection).request = some request) :
    BusInv fields (server.advance connection request) := by
  refine h.setRequest hRequest (server.advance_index connection request)
    (fun other hNe => server.advance_connections request hNe)
    (server.advance_context connection connection request) ?_ ?_ ?_
  · unfold BusServer.advance
    split_ifs
    · split
      · intro after hAfter
        simp only [BusServer.setRequest, BusServer.setConnection, Function.update_self] at hAfter
        obtain rfl := Option.some.inj hAfter
        exact ⟨rfl, rfl⟩
      · intro after hAfter
        obtain rfl := Option.some.inj (hRequest.symm.trans hAfter)
        exact ⟨rfl, rfl⟩
    · split
      · intro after hAfter
        simp only [BusServer.setRequest, BusServer.setConnection, Function.update_self] at hAfter
        obtain rfl := Option.some.inj hAfter
        exact ⟨rfl, rfl⟩
      · intro after hAfter
        simp only [BusServer.setRequest, BusServer.setConnection, Function.update_self] at hAfter
        obtain rfl := Option.some.inj hAfter
        exact ⟨rfl, rfl⟩
      · intro after hAfter
        simp [BusServer.setConnection] at hAfter
  · unfold BusServer.advance
    split_ifs
    · split
      · exact fun _ hHolder => hHolder
      · exact fun _ hHolder => absurd hHolder (by simp)
    · split <;> exact fun _ hHolder => hHolder
  · unfold BusServer.advance
    split_ifs with hMutex
    · split
      · next bus rest hRefreshing =>
          refine fun _ => ⟨{ request with refreshing := rest }, ?_, rfl, fun other hOther => ?_⟩
          · simp only [BusServer.setRequest, BusServer.setConnection, Function.update_self]
          · rw [hRefreshing]
            exact List.mem_cons_of_mem _ hOther
      · exact fun hHolder => absurd hHolder (by simp)
    · split <;> exact fun hHolder => absurd hHolder hMutex

theorem BusInv.step (h : BusInv fields server) (hStep : busSystem fields server event = some next) :
    BusInv fields next := by
  cases event with
  | change =>
      obtain rfl := Option.some.inj hStep
      exact h.keep (Nat.le_refl _) rfl rfl
  | allocate reader =>
      simp only [busSystem] at hStep
      split_ifs at hStep
      obtain rfl := Option.some.inj hStep
      exact h.keep (Nat.le_succ _) rfl rfl
  | refresh reader =>
      obtain ⟨read, _, rfl⟩ := Option.map_eq_some_iff.mp hStep
      exact h.keep (Nat.le_refl _) rfl rfl
  | request connection sets =>
      simp only [busSystem] at hStep
      split_ifs at hStep
      obtain rfl := Option.some.inj hStep
      exact h.begin connection sets
  | advance connection =>
      obtain ⟨request, hRequest, rfl⟩ := Option.map_eq_some_iff.mp hStep
      exact h.advance hRequest

theorem BusInv.run {first last : BusServer Entry Value} (hFresh : first.Fresh)
    {events : List (BusEvent Entry Value)} (hRun : (busSystem fields).run events first = some last) :
    BusInv fields last :=
  System.Reachable.invariant (BusInv fields) (BusInv.start hFresh)
    (fun _ _ _ h hStep => h.step hStep) ⟨events, hRun⟩

/-! ### From the refresh to the report -/

/-- The next request of the connection for this bus reports the entry. -/
def BusServer.Owed (server : BusServer Entry Value) (connection : Nat) (bus : Bus) (entry : Entry) :
    Prop :=
  (server.connections connection).context bus.changeIx < server.updateIndex bus entry

/-- The request has yet to come to the entry, has found it changed or has reported it. -/
def BusRequest.Reports (request : BusRequest Entry Value) (updateIndex : Nat) (bus : Bus)
    (entry : Entry) : Prop :=
  (∃ since, request.report bus.changeIx = some since ∧ since < updateIndex ∧
    ∃ field ∈ request.fields, field.bus = bus ∧ entry ∈ field.entries) ∨
  (bus, entry) ∈ request.reading ∨ ∃ value, (bus, entry, value) ∈ request.reports

/-- The request with this number reports the entry. -/
def BusServer.Answers (server : BusServer Entry Value) (connection number : Nat) (bus : Bus)
    (entry : Entry) : Prop :=
  ((server.connections connection).answers.length = number ∧
    ∃ request, (server.connections connection).request = some request ∧
      request.Reports (server.updateIndex bus entry) bus entry) ∨
  ∃ reports value, (server.connections connection).answers[number]? = some reports ∧
    (bus, entry, value) ∈ reports

theorem owed_of_observes (h : BusInv fields server) {bus : Bus} {entry : Entry}
    (hObserves : server.Observes bus entry event) (hPrompt : server.Prompt event)
    (hStep : busSystem fields server event = some next) {connection : Nat}
    (hOther : event ≠ .advance connection) : next.Owed connection bus entry := by
  cases event with
  | change => exact absurd hObserves (by simp [BusServer.Observes])
  | allocate => exact absurd hObserves (by simp [BusServer.Observes])
  | request => exact absurd hObserves (by simp [BusServer.Observes])
  | refresh reader =>
      obtain ⟨hChanged, index, hReader⟩ := hObserves
      simp only [busSystem, hReader, Option.map_some, Option.some.injEq] at hStep
      subst hStep
      exact (hPrompt bus index hReader entry hChanged connection).trans_le
        (BusServer.max_le_doRefresh hChanged index)
  | advance asker =>
      obtain ⟨hChanged, hMutex, request, rest, hRequest, hRefreshing⟩ := hObserves
      have hNe : connection ≠ asker := fun hSame => hOther (hSame ▸ rfl)
      obtain ⟨held, hHeld, _, _, hNewer⟩ := h.mutex asker hMutex
      obtain rfl := Option.some.inj (hRequest.symm.trans hHeld)
      simp only [busSystem, hRequest, Option.map_some, Option.some.injEq] at hStep
      subst hStep
      rw [BusServer.Owed, BusServer.advance_context]
      have hIndex : request.fresh ≤ (server.advance asker request).updateIndex bus entry := by
        simp only [BusServer.advance, hMutex, if_true, hRefreshing]
        exact (le_max_left _ _).trans (BusServer.max_le_doRefresh hChanged request.fresh)
      exact (hNewer connection _ hNe).trans_le hIndex

theorem answers_of_observes (h : BusInv fields server) {bus : Bus} {entry : Entry}
    {connection : Nat} (hObserves : server.Observes bus entry (.advance connection))
    (hListed : ∃ field ∈ fields, field.bus = bus ∧ entry ∈ field.entries)
    (hStep : busSystem fields server (.advance connection) = some next) :
    next.Answers connection (server.connections connection).answers.length bus entry := by
  obtain ⟨hChanged, hMutex, request, rest, hRequest, hRefreshing⟩ := hObserves
  obtain ⟨held, hHeld, hFields, hSome, _⟩ := h.mutex connection hMutex
  obtain rfl := Option.some.inj (hRequest.symm.trans hHeld)
  obtain ⟨since, hSince⟩ := Option.isSome_iff_exists.mp
    (hSome bus (by rw [hRefreshing]; exact List.mem_cons_self))
  simp only [busSystem, hRequest, Option.map_some, Option.some.injEq] at hStep
  subst hStep
  simp only [BusServer.advance, hMutex, if_true, hRefreshing]
  refine .inl ⟨by simp [BusServer.setRequest, BusServer.setConnection, BusServer.doRefresh],
    { request with refreshing := rest },
    by simp [BusServer.setRequest, BusServer.setConnection], .inl ⟨since, hSince, ?_, ?_⟩⟩
  · have hFresh := h.report connection request hRequest bus.changeIx since hSince
    exact hFresh.trans_le
      ((le_max_left _ _).trans (BusServer.max_le_doRefresh hChanged request.fresh))
  · rw [hFields]
    exact hListed

theorem answers_of_owed {connection : Nat} {bus : Bus} {entry : Entry}
    (h : server.Owed connection bus entry)
    (hListed : ∃ field ∈ fields, field.bus = bus ∧ entry ∈ field.entries) {sets : ChangeIx → Bool}
    (hAsked : sets bus.changeIx = true)
    (hStep : busSystem fields server (.request connection sets) = some next) :
    next.Answers connection (next.connections connection).answers.length bus entry := by
  simp only [busSystem] at hStep
  split_ifs at hStep
  obtain rfl := Option.some.inj hStep
  refine .inl ⟨rfl, _, by simp only [BusServer.beginRequest, BusServer.setConnection,
    Function.update_self]; rfl, .inl ⟨_, ?_, h, hListed⟩⟩
  simp only [updateChangeIndex, if_pos hAsked]

omit [DecidableEq Entry] in
theorem BusRequest.Reports.advance {connection : Nat} {request : BusRequest Entry Value} {bus : Bus}
    {entry : Entry} (hRequest : (server.connections connection).request = some request)
    (h : request.Reports (server.updateIndex bus entry) bus entry) :
    (server.advance connection request).Answers connection
      (server.connections connection).answers.length bus entry := by
  unfold BusServer.advance
  split_ifs
  · split
    · next other rest _ =>
        refine .inl ⟨by simp [BusServer.setRequest, BusServer.setConnection, BusServer.doRefresh],
          { request with refreshing := rest },
          by simp [BusServer.setRequest, BusServer.setConnection], ?_⟩
        rcases h with ⟨since, hSince, hNewer, hField⟩ | hFound
        · exact .inl ⟨since, hSince,
            hNewer.trans_le (server.le_doRefresh other request.fresh bus entry), hField⟩
        · exact .inr hFound
    · exact .inl ⟨rfl, request, hRequest, h⟩
  · split
    · next first rest _ hReading =>
        refine .inl ⟨by simp [BusServer.setRequest, BusServer.setConnection], _,
          by simp only [BusServer.setRequest, BusServer.setConnection, Function.update_self]; rfl, ?_⟩
        rcases h with hAhead | hFound | ⟨value, hReported⟩
        · exact .inl hAhead
        · rw [hReading] at hFound
          rcases List.mem_cons.mp hFound with rfl | hRest
          · exact .inr (.inr ⟨server.values bus entry, List.mem_append_right _ List.mem_cons_self⟩)
          · exact .inr (.inl hRest)
        · exact .inr (.inr ⟨value, List.mem_append_left _ hReported⟩)
    · next field rest hReading hFields =>
        refine .inl ⟨by simp [BusServer.setRequest, BusServer.setConnection], _,
          by simp only [BusServer.setRequest, BusServer.setConnection, Function.update_self]; rfl, ?_⟩
        rcases h with ⟨since, hSince, hNewer, found, hFound, hBus, hEntry⟩ | hFound | hReported
        · rw [hFields] at hFound
          rcases List.mem_cons.mp hFound with rfl | hRest
          · subst hBus
            refine .inr (.inl (List.mem_map.mpr ⟨entry, List.mem_filter.mpr ⟨hEntry, ?_⟩, rfl⟩))
            exact changedSince_eq_true.mpr ⟨since, hSince, hNewer⟩
          · exact .inl ⟨since, hSince, hNewer, found, hRest, hBus, hEntry⟩
        · rw [hReading] at hFound
          exact absurd hFound List.not_mem_nil
        · exact .inr (.inr hReported)
    · next hReading hFields =>
        rcases h with ⟨_, _, _, found, hFound, _⟩ | hFound | ⟨value, hReported⟩
        · rw [hFields] at hFound
          exact absurd hFound List.not_mem_nil
        · rw [hReading] at hFound
          exact absurd hFound List.not_mem_nil
        · refine .inr ⟨request.reports, value, ?_, hReported⟩
          simp [BusServer.setConnection]

omit [DecidableEq Entry] in
theorem advance_answers (server : BusServer Entry Value) (connection : Nat)
    (request : BusRequest Entry Value) :
    (server.connections connection).answers <+:
      ((server.advance connection request).connections connection).answers := by
  unfold BusServer.advance
  split_ifs
  · split <;> simp [BusServer.setRequest, BusServer.setConnection, BusServer.doRefresh]
  · split <;> simp [BusServer.setRequest, BusServer.setConnection]

theorem BusServer.Answers.step {connection number : Nat} {bus : Bus} {entry : Entry}
    (h : server.Answers connection number bus entry)
    (hStep : busSystem fields server event = some next) :
    next.Answers connection number bus entry := by
  by_cases hAdvance : event = .advance connection
  · subst hAdvance
    obtain ⟨request, hRequest, rfl⟩ := Option.map_eq_some_iff.mp hStep
    rcases h with ⟨rfl, own, hOwn, hReports⟩ | ⟨reports, value, hAnswer, hValue⟩
    · obtain rfl := Option.some.inj (hRequest.symm.trans hOwn)
      exact hReports.advance hRequest
    · obtain ⟨more, hMore⟩ := advance_answers server connection request
      refine .inr ⟨reports, value, ?_, hValue⟩
      rw [← hMore, List.getElem?_append_left (List.getElem?_eq_some_iff.mp hAnswer).1]
      exact hAnswer
  · by_cases hRequest : ∃ sets, event = .request connection sets
    · obtain ⟨sets, rfl⟩ := hRequest
      simp only [busSystem] at hStep
      split_ifs at hStep with hIdle
      obtain rfl := Option.some.inj hStep
      rcases h with ⟨_, own, hOwn, _⟩ | ⟨reports, value, hAnswer, hValue⟩
      · rw [hOwn] at hIdle
        exact absurd hIdle.2 (by simp)
      · exact .inr ⟨reports, value,
          by simpa [BusServer.beginRequest, BusServer.setConnection] using hAnswer, hValue⟩
    · have hSame := connections_step hStep (fun sets h => hRequest ⟨sets, h⟩) hAdvance
      rcases h with ⟨hNumber, own, hOwn, hReports⟩ | hAnswered
      · refine .inl ⟨by rw [hSame]; exact hNumber, own, by rw [hSame]; exact hOwn, ?_⟩
        rcases hReports with ⟨since, hSince, hNewer, hField⟩ | hFound
        · exact .inl ⟨since, hSince, hNewer.trans_le (le_updateIndex hStep bus entry), hField⟩
        · exact .inr hFound
      · rw [BusServer.Answers, hSame]
        exact .inr hAnswered

theorem BusServer.Answers.run {connection number : Nat} {bus : Bus} {entry : Entry}
    (h : server.Answers connection number bus entry) {events : List (BusEvent Entry Value)}
    {last : BusServer Entry Value} (hRun : (busSystem fields).run events server = some last)
    (hEnded : number < (last.connections connection).answers.length) :
    ∃ reports value, (last.connections connection).answers[number]? = some reports ∧
      (bus, entry, value) ∈ reports := by
  have hLast : last.Answers connection number bus entry :=
    System.Reachable.invariant (fun state => state.Answers connection number bus entry) h
      (fun _ _ _ h hStep => h.step hStep) ⟨events, hRun⟩
  rcases hLast with ⟨hNumber, _⟩ | hAnswer
  · exact absurd hEnded (by omega)
  · exact hAnswer

theorem BusServer.Owed.run {connection : Nat} {bus : Bus} {entry : Entry}
    {events : List (BusEvent Entry Value)}
    (hOther : ∀ sets, .request connection sets ∈ events → sets bus.changeIx = false)
    {last : BusServer Entry Value} (h : server.Owed connection bus entry)
    (hRun : (busSystem fields).run events server = some last) : last.Owed connection bus entry := by
  induction events generalizing server with
  | nil =>
      obtain rfl := Option.some.inj hRun
      exact h
  | cons event rest ih =>
      obtain ⟨middle, hStep, hRest⟩ := Option.bind_eq_some_iff.mp hRun
      refine ih (fun sets hMem => hOther sets (List.mem_cons_of_mem _ hMem)) ?_ hRest
      have hContext := context_step hStep connection bus.changeIx
        fun sets hEvent => hOther sets (hEvent ▸ List.mem_cons_self)
      rw [BusServer.Owed, hContext]
      exact h.trans_le (le_updateIndex hStep bus entry)

/-- A change that a refresh has observed is reported: by the request that has made the refresh,
and to every other connection by its first request for that bus that begins afterwards. -/
theorem observed_changes_reported {first before seen : BusServer Entry Value} (hFresh : first.Fresh)
    {earlier : List (BusEvent Entry Value)}
    (hBefore : (busSystem fields).run earlier first = some before)
    {bus : Bus} {entry : Entry}
    (hListed : ∃ field ∈ fields, field.bus = bus ∧ entry ∈ field.entries)
    {event : BusEvent Entry Value} (hObserves : before.Observes bus entry event)
    (hPrompt : before.Prompt event) (hSeen : busSystem fields before event = some seen)
    (connection : Nat) :
    (event = .advance connection → ∀ after last, (busSystem fields).run after seen = some last →
      (seen.connections connection).answers.length < (last.connections connection).answers.length →
      ∃ reports value,
        (last.connections connection).answers[(seen.connections connection).answers.length]? =
          some reports ∧ (bus, entry, value) ∈ reports) ∧
    (event ≠ .advance connection → ∀ between ready, (busSystem fields).run between seen = some ready →
      (∀ sets, .request connection sets ∈ between → sets bus.changeIx = false) →
      ∀ sets begun, sets bus.changeIx = true →
      busSystem fields ready (.request connection sets) = some begun →
      ∀ after last, (busSystem fields).run after begun = some last →
      (begun.connections connection).answers.length < (last.connections connection).answers.length →
      ∃ reports value,
        (last.connections connection).answers[(begun.connections connection).answers.length]? =
          some reports ∧ (bus, entry, value) ∈ reports) := by
  have hInv := BusInv.run hFresh hBefore
  constructor
  · rintro rfl after last hAfter hEnded
    have hAnswers := answers_of_observes hInv hObserves hListed hSeen
    have hSame : (seen.connections connection).answers = (before.connections connection).answers := by
      obtain ⟨_, hMutex, request, rest, hRequest, hRefreshing⟩ := hObserves
      simp only [busSystem, hRequest, Option.map_some, Option.some.injEq] at hSeen
      subst hSeen
      simp [BusServer.advance, hMutex, hRefreshing, BusServer.setRequest, BusServer.setConnection,
        BusServer.doRefresh]
    rw [← hSame] at hAnswers
    exact hAnswers.run hAfter hEnded
  · intro hOther between ready hBetween hQuiet sets begun hAsked hBegun after last hAfter hEnded
    have hOwed := (owed_of_observes hInv hObserves hPrompt hSeen hOther).run hQuiet hBetween
    exact (answers_of_owed hOwed hListed hAsked hBegun).run hAfter hEnded

/-! ### One bit -/

def oneBit : List (BusField Nat) := [{ bus := .bits, entries := [0] }]

def quietBus : BusServer Nat Bool where
  index := 1
  hardware := fun _ _ => false
  changed := fun _ _ => false
  values := fun _ _ => false
  updateIndex := fun _ _ => 1
  changeMutex := none
  readers := fun _ => none
  connections := fun _ => { context := fun _ => 0, request := none, answers := [] }

def BusServer.after (server : BusServer Nat Bool) (events : List (BusEvent Nat Bool)) :
    BusServer Nat Bool :=
  ((busSystem oneBit).run events server).getD server

/-- `*CHANGES.BITS?` of the connection, from its first step to its last. -/
def bitsRequest (steps : Nat) : List (BusEvent Nat Bool) :=
  .request 0 (fun ix => ix == .bits) :: List.replicate steps (.advance 0)

/-- The bit changes and a single field read is about to refresh. -/
def promptRead : BusServer Nat Bool :=
  quietBus.after (bitsRequest 5 ++ [.change .bits 0 true, .allocate 0 .bits])

def lateRead : BusServer Nat Bool :=
  quietBus.after (.allocate 0 .bits :: bitsRequest 5 ++ [.change .bits 0 true])

theorem prompt_read_reported :
    promptRead.Observes .bits 0 (.refresh 0) ∧ promptRead.Prompt (.refresh 0) ∧
    ∃ reports value,
      ((promptRead.after (.refresh 0 :: bitsRequest 5)).connections 0).answers[1]? = some reports ∧
      (Bus.bits, 0, value) ∈ reports := by
  have hFresh : quietBus.Fresh := ⟨rfl, fun _ => rfl, fun _ _ => Nat.zero_le _⟩
  have hObserves : promptRead.Observes .bits 0 (.refresh 0) := ⟨rfl, 3, rfl⟩
  have hPrompt : promptRead.Prompt (.refresh 0) := by
    intro bus index hReader entry hChanged connection
    obtain ⟨rfl, rfl⟩ : Bus.bits = bus ∧ 3 = index := by
      have hRead : promptRead.readers 0 = some (Bus.bits, 3) := rfl
      simpa using hRead.symm.trans hReader
    -- The index is newer than all there were when it was taken.
    have hInv : BusInv oneBit (quietBus.after (bitsRequest 5 ++ [.change .bits 0 true])) :=
      BusInv.run hFresh (rfl : (busSystem oneBit).run (bitsRequest 5 ++ [.change .bits 0 true]) _ = _)
    have hContext : (promptRead.connections connection).context .bits ≤ 2 :=
      hInv.context connection .bits
    exact (Nat.lt_succ_of_le hContext).trans_le (le_max_left _ _)
  refine ⟨hObserves, hPrompt, ?_⟩
  exact (@observed_changes_reported Nat Bool oneBit _ quietBus promptRead
    (promptRead.after [.refresh 0]) hFresh
    (bitsRequest 5 ++ [.change .bits 0 true, .allocate 0 .bits]) rfl .bits 0
    ⟨_, List.mem_cons_self, rfl, List.mem_cons_self⟩ (.refresh 0) hObserves hPrompt rfl 0).2
    nofun [] _ rfl nofun _ (promptRead.after [.refresh 0, .request 0 (fun ix => ix == .bits)]) rfl rfl
    (List.replicate 5 (.advance 0)) _ rfl (by decide)

/-- The single field read took its index before the request did: its change is lost. -/
theorem late_read_lost :
    (busSystem oneBit).run (.allocate 0 .bits :: bitsRequest 5 ++ [.change .bits 0 true]) quietBus =
      some lateRead ∧
    lateRead.Observes .bits 0 (.refresh 0) ∧
    (busSystem oneBit).run (.refresh 0 :: bitsRequest 4) lateRead =
      some (lateRead.after (.refresh 0 :: bitsRequest 4)) ∧
    ((lateRead.after (.refresh 0 :: bitsRequest 4)).connections 0).answers =
      [[(.bits, 0, false)], []] := by
  refine ⟨rfl, ⟨rfl, 2, rfl⟩, rfl, ?_⟩
  decide

end Server
