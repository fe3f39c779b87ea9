import PandaBridge.Server.PersistenceCheck

/-! A write of the state file. It moves the change context first, so everything it has to cover is
read after that; when it succeeds the file holds every value that was not changed meanwhile. -/
namespace Server

open Transition

variable {Lock Value : Type} {layout : ChangeLayout Lock} [DecidableEq Lock]

theorem contentOf_append (lines : List (ChangeReport Lock Value)) (entry : ChangeEntry Lock)
    (version : Nat) (value : Option Value) :
    contentOf (lines ++ [.value entry version value]) =
      Function.update (contentOf lines) entry value := by
  unfold contentOf
  rw [List.foldl_append]
  rfl

/-! ### The lines of a write -/

/-- The value of an entry will be, or is, among the lines. -/
def Covered (layout : ChangeLayout Lock) (server : ChangeServer Lock Value)
    (connection : ChangeConnection Lock Value) (passes : List ChangeIx) (entry : ChangeEntry Lock) :
    Prop :=
  contentOf connection.reports entry = (server.cells entry).values.getLast? ∨
    Noted connection entry ∨ Unvisited layout connection passes entry.1

section Walk

variable {server : ChangeServer Lock Value} {connection next : ChangeConnection Lock Value}
  {request : ChangeRequest Lock} {passes : List ChangeIx}

omit [DecidableEq Lock] in
theorem GenerateSound.step (h : GenerateSound connection passes)
    (hRequest : connection.request = some request)
    (hStep : WalkStep layout server connection request next) : GenerateSound next passes := by
  obtain ⟨hGenerates, hPrint⟩ := h.request request hRequest
  have hKinds : ∀ after : ChangeRequest Lock, after.generates = request.generates →
      after.printTables = request.printTables → ∀ other, some after = some other →
        other.generates = true ∧ other.printTables = true := by
    intro after hSame hSamePrint other hOther
    obtain rfl := Option.some.inj hOther
    exact ⟨hSame.trans hGenerates, hSamePrint.trans hPrint⟩
  cases hStep with
  | read hReading => exact ⟨h.nodup, h.context, hKinds _ rfl rfl⟩
  | visit hReading hLocks hFree => exact ⟨h.nodup, h.context, hKinds _ rfl rfl⟩
  | found hReading hLocks hChanged => exact ⟨h.nodup, h.context, hKinds _ rfl rfl⟩
  | changed hReading hLocks hChanged => exact ⟨h.nodup, h.context, fun _ hNone => absurd hNone nofun⟩
  | group hReading hLocks hChanged hGroups => exact ⟨h.nodup, h.context, hKinds _ rfl rfl⟩
  | finish hReading hLocks hChanged hGroups =>
      exact ⟨h.nodup, h.context, fun _ hNone => absurd hNone nofun⟩

omit [DecidableEq Lock] in
/-- A lock stays ahead until it is visited, and then it is free. -/
theorem Unvisited.step {lock : Lock} (h : Unvisited layout connection passes lock)
    (hSound : GenerateSound connection passes) (hRequest : connection.request = some request)
    (hStep : WalkStep layout server connection request next) :
    Unvisited layout next passes lock ∨ server.held lock = none ∧
      request.report (layout.changeIx lock) = some 0 ∧
      ∃ after, next.request = some after ∧
        after.changed = request.changed ++ server.changes layout request.report lock := by
  rcases h with hLater | ⟨found, hFound, hReport, hAhead⟩
  · exact .inl (.inl hLater)
  · obtain rfl : found = request := Option.some.inj (hFound.symm.trans hRequest)
    cases hStep with
    | read hReading => exact .inl (.inr ⟨_, rfl, hReport, hAhead⟩)
    | visit hReading hLocks hFree =>
        rw [hLocks, List.cons_append] at hAhead
        rcases List.mem_cons.mp hAhead with rfl | hRest
        · exact .inr ⟨hFree, hReport, _, rfl, rfl⟩
        · exact .inl (.inr ⟨_, rfl, hReport, hRest⟩)
    | found hReading hLocks hChanged => exact .inl (.inr ⟨_, rfl, hReport, hAhead⟩)
    | changed hReading hLocks hChanged hGenerates =>
        exact absurd ((hSound.request found hFound).1.symm.trans hGenerates) nofun
    | group hReading hLocks hChanged hGroups =>
        rw [hLocks, hGroups, List.nil_append, List.flatten_cons] at hAhead
        refine .inl (.inr ⟨_, rfl, hReport, List.mem_append.mpr ?_⟩)
        refine (List.mem_append.mp hAhead).imp_left fun hGroup => List.mem_filter.mpr ⟨hGroup, ?_⟩
        rw [hReport]
        rfl
    | finish hReading hLocks hChanged hGroups =>
        rw [hLocks, hGroups] at hAhead
        exact absurd hAhead List.not_mem_nil

/-- What was found changed is read, and nothing else is read in its place. -/
theorem Noted.step {entry : ChangeEntry Lock} (h : Noted connection entry)
    (hSound : GenerateSound connection passes) (hRequest : connection.request = some request)
    (hStep : WalkStep layout server connection request next) :
    Noted next entry ∨ contentOf next.reports entry = (server.cells entry).values.getLast? := by
  obtain ⟨found, hFound, hMember⟩ := h
  obtain rfl : found = request := Option.some.inj (hFound.symm.trans hRequest)
  obtain ⟨hGenerates, hPrint⟩ := hSound.request found hFound
  cases hStep with
  | @read first rest hReading =>
      rw [hReading] at hMember
      by_cases hFirst : entry = first
      · subst hFirst
        refine .inr ?_
        simp only [ChangeServer.reportValue, contentOf_append, Function.update_self, hPrint]
        simp
      · refine .inl ⟨_, rfl, List.mem_append.mpr ?_⟩
        exact (List.mem_append.mp hMember).imp_right fun hRest =>
          (List.mem_cons.mp hRest).resolve_left hFirst
  | visit hReading hLocks hFree =>
      refine .inl ⟨_, rfl, ?_⟩
      rw [hReading, List.append_nil] at hMember
      exact List.mem_append_left _ (List.mem_append_left _ hMember)
  | found hReading hLocks hChanged =>
      rw [hReading, List.append_nil] at hMember
      exact .inl ⟨_, rfl, hMember⟩
  | changed hReading hLocks hChanged hOther => cases hGenerates.symm.trans hOther
  | group hReading hLocks hChanged hGroups =>
      rw [hReading, hChanged] at hMember
      exact absurd hMember List.not_mem_nil
  | finish hReading hLocks hChanged hGroups =>
      rw [hReading, hChanged] at hMember
      exact absurd hMember List.not_mem_nil

/-- A line that has the value of an entry is followed by no other for that entry. -/
theorem content_step {entry : ChangeEntry Lock}
    (h : contentOf connection.reports entry = (server.cells entry).values.getLast?)
    (hSound : GenerateSound connection passes) (hRequest : connection.request = some request)
    (hStep : WalkStep layout server connection request next) :
    contentOf next.reports entry = (server.cells entry).values.getLast? := by
  obtain ⟨hGenerates, hPrint⟩ := hSound.request request hRequest
  cases hStep with
  | @read first rest hReading =>
      simp only [ChangeServer.reportValue, contentOf_append, hPrint]
      by_cases hFirst : entry = first
      · subst hFirst
        simp
      · rw [Function.update_of_ne hFirst]
        exact h
  | visit hReading hLocks hFree => exact h
  | found hReading hLocks hChanged => exact h
  | changed hReading hLocks hChanged hOther => cases hGenerates.symm.trans hOther
  | group hReading hLocks hChanged hGroups => exact h
  | finish hReading hLocks hChanged hGroups => exact h

theorem Covered.step {entry : ChangeEntry Lock} (h : Covered layout server connection passes entry)
    (hHas : layout.Has entry) (hListed : layout.listed entry.1 = true)
    (hIndex : 0 < (server.cells entry).updateIndex)
    (hSound : GenerateSound connection passes) (hRequest : connection.request = some request)
    (hStep : WalkStep layout server connection request next) :
    Covered layout server next passes entry := by
  rcases h with hContent | hNoted | hUnvisited
  · exact .inl (content_step hContent hSound hRequest hStep)
  · rcases hNoted.step hSound hRequest hStep with hStill | hContent
    · exact .inr (.inl hStill)
    · exact .inl hContent
  · rcases hUnvisited.step hSound hRequest hStep with hStill | ⟨_, hReport, after, hAfter, hChanged⟩
    · exact .inr (.inr hStill)
    · refine .inr (.inl ⟨after, hAfter, List.mem_append_left _ ?_⟩)
      rw [hChanged]
      exact List.mem_append_right _ (mem_changes server hListed hHas.2 hReport hIndex)

omit [DecidableEq Lock] in
/-- The next set of changes is begun from zero. -/
theorem Unvisited.begin {ix : ChangeIx} {rest : List ChangeIx} {lock : Lock}
    (h : Unvisited layout connection (ix :: rest) lock) (hNone : connection.request = none)
    (hSound : GenerateSound connection (ix :: rest)) (hLock : lock ∈ layout.groups.flatten) :
    Unvisited layout (server.beginRequest layout connection (fun other => other = ix) true true)
      rest lock := by
  rcases h with hLater | ⟨request, hRequest, -⟩
  · rcases List.mem_cons.mp hLater with hSame | hRest
    · refine .inr ⟨_, rfl, ?_, List.mem_append.mpr (.inr hLock)⟩
      simp only [updateChangeIndex, hSame, decide_true, if_true]
      rw [hSound.context ix List.mem_cons_self]
    · exact .inl hRest
  · cases hNone.symm.trans hRequest

omit [DecidableEq Lock] in
theorem GenerateSound.begin {ix : ChangeIx} {rest : List ChangeIx}
    (h : GenerateSound connection (ix :: rest)) :
    GenerateSound (server.beginRequest layout connection (fun other => other = ix) true true)
      rest where
  nodup := (List.nodup_cons.mp h.nodup).2
  context := fun other hOther => by
    have hNe : other ≠ ix := by
      rintro rfl
      exact (List.nodup_cons.mp h.nodup).1 hOther
    simp only [ChangeServer.beginRequest, updateChangeIndex, hNe, decide_false, Bool.false_eq_true,
      if_false]
    exact h.context other (List.mem_cons_of_mem _ hOther)
  request := fun request hRequest => by
    obtain rfl := Option.some.inj hRequest
    exact ⟨rfl, rfl⟩

end Walk

namespace PersistState

variable {state next : PersistState Lock Value}

omit [DecidableEq Lock] in
theorem Pending.ofWriter {entry : ChangeEntry Lock} {index : Nat}
    (h : state.Pending layout entry index) (hContext : next.context = state.context)
    (hThread : next.thread = state.thread)
    (hWriter : state.writer ≠ some { byThread := true, phase := .opening }) :
    next.Pending layout entry index := by
  cases h with
  | ahead h =>
      refine .ahead ⟨?_, ?_⟩
      · rw [hContext]
        exact h.context
      · rw [hThread]
        exact h.refresh
  | noticing h => exact .noticing (hThread ▸ h)
  | committed h =>
      rcases h with h | h | h
      · exact .committed (.inl (hThread.trans h))
      · exact .committed (.inr (.inl (by rw [hThread]; exact h)))
      · exact absurd h hWriter

theorem Inv.covering (hInv : state.Inv layout) {index : Nat} {context : ChangeContext}
    {writer : PersistWriter Lock Value} {attempts : Nat} (hIndex : state.server.index ≤ index)
    (hContext : ∀ ix, context ix ≤ index)
    (hUpdating : ∀ fresh todo, writer.phase = .refreshing fresh todo → fresh ≤ index)
    (hGenerating : ∀ connection passes, writer.phase = .generating connection passes →
      GenerateSound connection passes)
    (hVisit : ∀ lock, ({ state with
        server := { state.server with index }
        context, attempts
        writer := some writer } : PersistState Lock Value).WillVisit layout lock) :
    ({ state with
      server := { state.server with index }
      context, attempts
      writer := some writer } : PersistState Lock Value).Inv layout where
  sound := hInv.sound.index hIndex _
  context := hContext
  refreshing := fun fresh report todo final h =>
    ⟨(hInv.refreshing fresh report todo final h).1.trans hIndex,
      (hInv.refreshing fresh report todo final h).2⟩
  checking := hInv.checking
  updating := fun byThread fresh todo h => hUpdating fresh todo (by rw [Option.some.inj h])
  generating := fun byThread connection passes h =>
    hGenerating connection passes (by rw [Option.some.inj h])
  allocated := fun updater entry version index _ _ => .inl (hVisit entry.1)
  stored := fun entry _ _ _ => .inl (hVisit entry.1).saved

theorem Inv.writing (hInv : state.Inv layout) {index : Nat}
    {writer after : PersistWriter Lock Value} (hWriter : state.writer = some writer)
    (hIndex : state.server.index ≤ index) (hPhase : writer.phase ≠ .opening)
    (hUpdating : ∀ fresh todo, after.phase ≠ .refreshing fresh todo)
    (hGenerating : ∀ connection passes, after.phase = .generating connection passes →
      GenerateSound connection passes)
    (hVisit : ∀ lock, lock ∈ layout.groups.flatten → state.server.held lock ≠ none →
      state.WillVisit layout lock →
      ({ state with
        server := { state.server with index }
        writer := some after } : PersistState Lock Value).WillVisit layout lock)
    (hSaved : ∀ entry, layout.Has entry → layout.listed entry.1 = true →
      0 < (state.server.cells entry).updateIndex → state.Saved layout entry →
      ({ state with
        server := { state.server with index }
        writer := some after } : PersistState Lock Value).Saved layout entry) :
    ({ state with
      server := { state.server with index }
      writer := some after } : PersistState Lock Value).Inv layout where
  sound := hInv.sound.index hIndex _
  context := fun ix => (hInv.context ix).trans hIndex
  refreshing := fun fresh report todo final h =>
    ⟨(hInv.refreshing fresh report todo final h).1.trans hIndex,
      (hInv.refreshing fresh report todo final h).2⟩
  checking := hInv.checking
  updating := fun byThread fresh todo h =>
    absurd (by rw [Option.some.inj h]) (hUpdating fresh todo)
  generating := fun byThread connection passes h =>
    hGenerating connection passes (by rw [Option.some.inj h])
  allocated := fun updater entry version index hUpdater hListed => by
    have hHeld := (hInv.sound.allocated updater entry version index hUpdater).1
    have hHas := (hInv.sound.known updater _ hUpdater).1
    rcases hInv.allocated updater entry version index hUpdater hListed with hOld | hPending
    · exact .inl (hVisit entry.1 hHas.1 (by rw [hHeld]; nofun) hOld)
    · refine .inr (hPending.ofWriter rfl rfl fun h => hPhase ?_)
      rw [hWriter] at h
      rw [Option.some.inj h]
  stored := fun entry hHas hListed hStored => by
    rcases hInv.stored entry hHas hListed hStored with hOld | hUpdates | hPending
    · exact .inl (hSaved entry hHas hListed hStored hOld)
    · exact .inr (.inl hUpdates)
    · refine .inr (.inr (hPending.ofWriter rfl rfl fun h => hPhase ?_))
      rw [hWriter] at h
      rw [Option.some.inj h]

omit [DecidableEq Lock] in
theorem endWrite_thread (state : PersistState Lock Value) (byThread : Bool) :
    (state.endWrite byThread).thread = state.thread ∨
      (∃ final, state.thread = .writing final) ∧
        ((state.endWrite byThread).thread = .backoff ∨
          (state.endWrite byThread).thread = .exited) := by
  unfold endWrite
  cases byThread with
  | false => exact .inl rfl
  | true =>
      simp only [if_true]
      split
      · next hThread => exact .inr ⟨⟨true, hThread⟩, .inr rfl⟩
      · next hThread => exact .inr ⟨⟨false, hThread⟩, .inl rfl⟩
      · exact .inl rfl

omit [DecidableEq Lock] in
theorem Pending.endWrite {entry : ChangeEntry Lock} {index : Nat} {byThread : Bool}
    (h : state.Pending layout entry index) (hContext : next.context = state.context)
    (hThread : next.thread = (state.endWrite byThread).thread)
    (hWriter : state.writer ≠ some { byThread := true, phase := .opening }) :
    next.Pending layout entry index := by
  rcases endWrite_thread state byThread with hSame | ⟨⟨final, hWas⟩, hNow⟩
  · exact h.ofWriter hContext (hThread.trans hSame) hWriter
  · cases h with
    | ahead h =>
        refine .ahead (.of_context (by rw [hContext]; exact h.context) ?_)
        rw [hThread]
        rcases hNow with hNow | hNow
        · rw [hNow]
          nofun
        · rw [hNow]
          nofun
    | noticing h =>
        rw [hWas] at h
        exact absurd h nofun
    | committed h =>
        rcases h with h | ⟨_, h⟩ | h
        · exact absurd (hWas.symm.trans h) nofun
        · exact absurd (hWas.symm.trans h) nofun
        · exact absurd h hWriter

theorem Inv.endWrite (hInv : state.Inv layout) (byThread : Bool)
    {file : ChangeEntry Lock → Option Value} {attempts : Nat}
    (hWriter : state.writer ≠ some { byThread := true, phase := .opening })
    (hVisit : ∀ lock, ¬ state.WillVisit layout lock)
    (hFile : ∀ entry, state.Saved layout entry → file entry = state.current entry) :
    ({ state.endWrite byThread with file, attempts } : PersistState Lock Value).Inv layout := by
  have hThread : ∀ {thread : PersistThread Lock}, (state.endWrite byThread).thread = thread →
      state.thread = thread ∨ thread = .backoff ∨ thread = .exited := by
    rintro thread rfl
    rcases endWrite_thread state byThread with hSame | ⟨-, hNow⟩
    · exact .inl hSame.symm
    · exact .inr hNow
  refine ⟨hInv.sound, hInv.context, ?_, ?_, fun _ _ _ h => absurd h nofun,
    fun _ _ _ h => absurd h nofun, ?_, ?_⟩
  · intro fresh report todo final h
    rcases hThread h with hOld | hNow | hNow
    · exact hInv.refreshing fresh report todo final hOld
    · exact absurd hNow nofun
    · exact absurd hNow nofun
  · intro request final h
    rcases hThread h with hOld | hNow | hNow
    · exact hInv.checking request final hOld
    · exact absurd hNow nofun
    · exact absurd hNow nofun
  · intro updater entry version index hUpdater hListed
    rcases hInv.allocated updater entry version index hUpdater hListed with hOld | hPending
    · exact absurd hOld (hVisit entry.1)
    · exact .inr (hPending.endWrite rfl rfl hWriter)
  · intro entry hHas hListed hIndex
    rcases hInv.stored entry hHas hListed hIndex with hSaved | hUpdates | hPending
    · exact .inl (hFile entry hSaved)
    · exact .inr (.inl hUpdates)
    · exact .inr (.inr (hPending.endWrite rfl rfl hWriter))

theorem Inv.lock (hInv : state.Inv layout) (hStep : state.lock = some next) : next.Inv layout := by
  unfold PersistState.lock at hStep
  split at hStep
  · next final hThread =>
      unfold beginWrite at hStep
      split_ifs at hStep with hIdle
      obtain rfl := Option.some.inj hStep
      have hNone : state.writer = none := Option.isNone_iff_eq_none.mp hIdle
      refine ⟨hInv.sound, hInv.context, by simp, by simp, fun _ _ _ h => absurd h (by simp),
        fun _ _ _ h => absurd h (by simp), ?_, ?_⟩
      · exact fun _ _ _ _ _ _ => .inr (.committed (.inr (.inr rfl)))
      · exact fun _ _ _ _ => .inr (.inr (.committed (.inr (.inr rfl))))
  · cases hStep

theorem Inv.save (hInv : state.Inv layout) (hStep : state.beginWrite false = some next) :
    next.Inv layout := by
  unfold beginWrite at hStep
  split_ifs at hStep with hIdle
  obtain rfl := Option.some.inj hStep
  have hNone : state.writer = none := Option.isNone_iff_eq_none.mp hIdle
  refine ⟨hInv.sound, hInv.context, hInv.refreshing, hInv.checking,
    fun _ _ _ h => absurd h (by simp), fun _ _ _ h => absurd h (by simp), ?_, ?_⟩
  · intro updater entry version index hUpdater hListed
    rcases hInv.allocated updater entry version index hUpdater hListed with hOld | hPending
    · unfold WillVisit at hOld
      rw [hNone] at hOld
      exact absurd hOld id
    · exact .inr (hPending.ofWriter rfl rfl (by rw [hNone]; nofun))
  · intro entry hHas hListed hIndex
    rcases hInv.stored entry hHas hListed hIndex with hSaved | hUpdates | hPending
    · unfold Saved at hSaved
      rw [hNone] at hSaved
      exact .inl hSaved
    · exact .inr (.inl hUpdates)
    · exact .inr (.inr (hPending.ofWriter rfl rfl (by rw [hNone]; nofun)))

/-! ### The steps of a write -/

/-- The sets of `PERSIST_CHANGES` are all that there is to save. -/
def Persisted (layout : ChangeLayout Lock) : Prop := ∀ lock, layout.changeIx lock ∈ persistChanges

/-- While the context is refreshed, nothing else of a write can happen. -/
theorem write_refreshing {byThread : Bool} {fresh : Nat} {todo : List ContextAccess}
    {event : PersistEvent Lock Value} (hUpdate : event ≠ .update) (hGenerate : event ≠ .generate) :
    state.write layout { byThread, phase := .refreshing fresh todo } event = none := by
  cases event with
  | update => exact absurd rfl hUpdate
  | generate => exact absurd rfl hGenerate
  | _ => cases todo with
      | nil => rfl
      | cons access rest => cases access <;> rfl

theorem Inv.update (hInv : state.Inv layout) {writer : PersistWriter Lock Value}
    (hWriter : state.writer = some writer)
    (hStep : state.write layout writer .update = some next) : next.Inv layout := by
  obtain ⟨byThread, phase⟩ := writer
  have hVisitAny : ∀ (other : PersistState Lock Value) fresh todo lock,
      other.writer = some { byThread, phase := .refreshing fresh todo } →
        other.WillVisit layout lock := by
    intro other fresh todo lock h
    unfold WillVisit
    rw [h]
    exact trivial
  cases phase with
  | allocating =>
      obtain rfl := Option.some.inj hStep
      refine hInv.covering (Nat.le_succ _) (fun ix => Nat.le_succ_of_le (hInv.context ix)) ?_ nofun
        fun lock => hVisitAny _ _ _ lock rfl
      intro fresh todo h
      obtain ⟨rfl, rfl⟩ := WritePhase.refreshing.inj h
      exact Nat.le_refl _
  | refreshing fresh todo =>
      have hFresh := hInv.updating byThread fresh todo hWriter
      have hKept : ∀ rest other after, (WritePhase.refreshing fresh rest : WritePhase Lock Value) =
          .refreshing other after → other ≤ state.server.index := by
        intro rest other after h
        obtain ⟨rfl, rfl⟩ := WritePhase.refreshing.inj h
        exact hFresh
      cases todo with
      | nil => exact absurd hStep (by simp [write])
      | cons access rest =>
          cases access with
          | read ix =>
              obtain rfl := Option.some.inj hStep
              exact hInv.covering (Nat.le_refl _) hInv.context (hKept rest) nofun
                fun lock => hVisitAny _ _ _ lock rfl
          | store ix =>
              obtain rfl := Option.some.inj hStep
              refine hInv.covering (Nat.le_refl _) (fun other => ?_) (hKept rest) nofun
                fun lock => hVisitAny _ _ _ lock rfl
              by_cases hSame : other = ix
              · subst hSame
                rw [Function.update_self]
                exact hFresh
              · rw [Function.update_of_ne hSame]
                exact hInv.context other
  | _ => exact absurd hStep (by simp [write])

theorem Inv.generate (hInv : state.Inv layout) (hLayout : Persisted layout)
    {writer : PersistWriter Lock Value} (hWriter : state.writer = some writer)
    (hStep : state.write layout writer .generate = some next) : next.Inv layout := by
  obtain ⟨byThread, phase⟩ := writer
  cases phase with
  | refreshing fresh todo =>
      cases todo with
      | cons access rest => exact absurd hStep (by cases access <;> simp [write])
      | nil =>
          obtain rfl := Option.some.inj hStep
          refine hInv.covering (Nat.le_refl _) hInv.context nofun ?_ fun lock => ?_
          · intro connection passes h
            obtain ⟨rfl, rfl⟩ := WritePhase.generating.inj h
            exact ⟨by decide, fun _ _ => rfl, nofun⟩
          · have hMember : ∀ ix ∈ persistChanges, ix ∈ [ChangeIx.attr, .config, .table, .metadata] := by
              decide
            exact .inl (hMember _ (hLayout lock))
  | generating connection passes =>
      have hSound := hInv.generating byThread connection passes hWriter
      have hSavedOld : ∀ entry, state.Saved layout entry →
          Covered layout state.server connection passes entry := by
        intro entry h
        unfold Saved at h
        rw [hWriter] at h
        exact h
      have hVisitOld : ∀ lock, state.WillVisit layout lock →
          Unvisited layout connection passes lock := by
        intro lock h
        unfold WillVisit at h
        rw [hWriter] at h
        exact h
      cases hRequest : connection.request with
      | some request =>
          simp only [write, hRequest] at hStep
          obtain ⟨after, hAdvance, rfl⟩ := Option.map_eq_some_iff.mp hStep
          have hWalk := advance_step hAdvance
          refine hInv.writing hWriter (Nat.le_refl _) nofun nofun ?_ ?_ ?_
          · intro other rest h
            obtain ⟨rfl, rfl⟩ := WritePhase.generating.inj h
            exact hSound.step hRequest hWalk
          · intro lock _ hHeld h
            exact ((hVisitOld lock h).step hSound hRequest hWalk).resolve_right fun hVisited =>
              hHeld hVisited.1
          · intro entry hHas hListed hIndex h
            exact (hSavedOld entry h).step hHas hListed hIndex hSound hRequest hWalk
      | none =>
          cases passes with
          | cons ix rest =>
              simp only [write, hRequest] at hStep
              obtain rfl := Option.some.inj hStep
              refine hInv.writing hWriter (Nat.le_succ _) nofun nofun ?_ ?_ ?_
              · intro other passes h
                obtain ⟨rfl, rfl⟩ := WritePhase.generating.inj h
                exact hSound.begin
              · intro lock hLock _ h
                exact (hVisitOld lock h).begin hRequest hSound hLock
              · intro entry hHas _ _ h
                rcases hSavedOld entry h with hContent | ⟨request, hSome, -⟩ | hUnvisited
                · exact .inl hContent
                · exact absurd (hRequest.symm.trans hSome) nofun
                · exact .inr (.inr (hUnvisited.begin hRequest hSound hHas.1))
          | nil =>
              simp only [write, hRequest] at hStep
              obtain rfl := Option.some.inj hStep
              have hNot : ∀ lock, ¬ Unvisited layout connection [] lock := by
                rintro lock (hLater | ⟨request, hSome, -⟩)
                · exact absurd hLater List.not_mem_nil
                · exact absurd (hRequest.symm.trans hSome) nofun
              refine hInv.writing hWriter (Nat.le_refl _) nofun nofun nofun ?_ ?_
              · exact fun lock _ _ h => absurd (hVisitOld lock h) (hNot lock)
              · intro entry _ _ _ h
                rcases hSavedOld entry h with hContent | ⟨request, hSome, -⟩ | hUnvisited
                · exact hContent
                · exact absurd (hRequest.symm.trans hSome) nofun
                · exact absurd hUnvisited (hNot entry.1)
  | _ => exact absurd hStep (by simp [write])

end PersistState

end Server
