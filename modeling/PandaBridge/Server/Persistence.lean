import PandaBridge.Server.ChangeSets

/-! The persistence thread and `*SAVESTATE`. Both write the state file under one mutex; the thread
looks for changes without it, so that its check and the writes of others may touch the change
context in any order. -/
namespace Server

open Transition

/-- `PERSIST_CHANGES`, in the order of the bits. -/
def persistChanges : List ChangeIx := [.config, .attr, .table, .metadata]

/-- One access of `update_change_index` to the change context. -/
inductive ContextAccess
  | read (ix : ChangeIx)
  | store (ix : ChangeIx)
  deriving DecidableEq

/-- The loop of `update_change_index`: a set is read and then stored. -/
def contextAccesses : List ContextAccess := persistChanges.flatMap fun ix => [.read ix, .store ix]

section States

variable (Lock Value : Type)

/-- Where `persistence_thread` is. The check and the write after the loop are final. -/
inductive PersistThread
  | waiting
  | starting (final : Bool)
  | refreshing (fresh : Nat) (report : ReportIndex) (todo : List ContextAccess) (final : Bool)
  | checking (request : ChangeRequest Lock) (final : Bool)
  | holdoff
  | blocked (final : Bool)
  | writing (final : Bool)
  | backoff
  | exited

/-- Where `write_changed_state` is. What `generate_change_sets` reports is written to the backup
file, one set of changes after the other. -/
inductive WritePhase
  | opening
  | allocating
  | refreshing (fresh : Nat) (todo : List ContextAccess)
  | generating (connection : ChangeConnection Lock Value) (passes : List ChangeIx)
  | closing (lines : List (ChangeReport Lock Value))
  | closed (lines : List (ChangeReport Lock Value))

/-- A write under the mutex, by the thread or by `save_persistent_state`. -/
structure PersistWriter where
  byThread : Bool
  phase : WritePhase Lock Value

/-- The server with its persistence: what the state file holds for every entry, how many checks
are over and how many writes were attempted. -/
structure PersistState where
  server : ChangeServer Lock Value
  context : ChangeContext
  running : Bool
  thread : PersistThread Lock
  writer : Option (PersistWriter Lock Value)
  file : ChangeEntry Lock → Option Value
  checks : Nat
  attempts : Nat

inductive PersistEvent
  | server (event : ChangeEvent Lock Value)
  | wake
  | refresh
  | check
  | lock
  | save
  | stop
  | fopen (ok : Bool)
  | update
  | generate
  | fclose (ok : Bool)
  | rename (ok : Bool)

end States

variable {Lock Value : Type} [DecidableEq Lock]

/-- What a file with these lines holds for every entry. -/
def contentOf (lines : List (ChangeReport Lock Value)) : ChangeEntry Lock → Option Value :=
  lines.foldl (fun content line =>
    match line with
    | .value entry _ value => Function.update content entry value
    | .changed _ _ => content) fun _ => none

/-- `zero_change_set`, with nothing written so far. -/
def zeroChangeSet : ChangeConnection Lock Value where
  context := fun _ => 0
  request := none
  reports := []
  completed := 0

namespace PersistState

variable (layout : ChangeLayout Lock) (state : PersistState Lock Value)

/-- `get_change_index`. -/
def fresh : Nat := state.server.index + 1

def withIndex : ChangeServer Lock Value := { state.server with index := state.server.index + 1 }

/-- The value of an entry as it is now. -/
def current (entry : ChangeEntry Lock) : Option Value := (state.server.cells entry).values.getLast?

/-- `interruptible_timeout` returns, while nobody holds the mutex. -/
def wake : Option (PersistState Lock Value) :=
  if state.writer.isNone then
    match state.thread with
    | .waiting => some { state with thread := .starting !state.running }
    | .holdoff => some { state with thread := .blocked false }
    | .backoff => some { state with thread := .waiting }
    | _ => none
  else none

/-- The check is over. Without a change the thread waits again, or is done. -/
def endCheck (changed final : Bool) : PersistState Lock Value :=
  { state with
    checks := state.checks + 1
    thread :=
      if changed then if final then .blocked true else .holdoff
      else if final then .exited else .waiting }

/-- `refresh_change_index` of the check. -/
def refresh : Option (PersistState Lock Value) :=
  match state.thread with
  | .starting final =>
      some { state with
        server := state.withIndex
        thread := .refreshing state.fresh (fun _ => none) contextAccesses final }
  | .refreshing fresh report (.read ix :: rest) final =>
      some { state with
        thread := .refreshing fresh (Function.update report ix (some (state.context ix))) rest final }
  | .refreshing fresh report (.store ix :: rest) final =>
      some { state with
        context := Function.update state.context ix fresh
        thread := .refreshing fresh report rest final }
  | .refreshing fresh report [] final =>
      some { state with
        thread := .checking
          { generates := false
            printTables := false
            report := report
            fresh := fresh
            groups := layout.groups
            locks := []
            changed := []
            reading := [] } final }
  | _ => none

/-- `check_change_set` after its refresh. -/
def check : Option (PersistState Lock Value) :=
  match state.thread with
  | .checking request final =>
      (state.server.advance layout { zeroChangeSet with request := some request } request).map
        fun next =>
          match next.request with
          | some request => { state with thread := .checking request final }
          | none => state.endCheck (!next.reports.isEmpty) final
  | _ => none

/-- The mutex is taken for a write. -/
def beginWrite (byThread : Bool) : Option (PersistState Lock Value) :=
  if state.writer.isNone then some { state with writer := some { byThread, phase := .opening } }
  else none

/-- The thread has the mutex. -/
def lock : Option (PersistState Lock Value) :=
  match state.thread with
  | .blocked final => ({ state with thread := .writing final } : PersistState Lock Value).beginWrite true
  | _ => none

/-- The mutex is released. The thread backs off, or is done after its final write. -/
def endWrite (byThread : Bool) : PersistState Lock Value :=
  { state with
    writer := none
    thread :=
      if byThread then
        match state.thread with
        | .writing true => .exited
        | .writing false => .backoff
        | thread => thread
      else state.thread }

/-- The next step of `write_changed_state`, if it is where this event says. An error is only
reported. -/
def write (writer : PersistWriter Lock Value) (event : PersistEvent Lock Value) :
    Option (PersistState Lock Value) :=
  let goOn := fun phase => { state with writer := some { writer with phase } }
  match writer.phase, event with
  | .opening, .fopen ok =>
      let attempted := { state with attempts := state.attempts + 1 }
      if ok then some { attempted with writer := some { writer with phase := .allocating } }
      else some (attempted.endWrite writer.byThread)
  | .allocating, .update =>
      some { goOn (.refreshing state.fresh contextAccesses) with server := state.withIndex }
  | .refreshing fresh (.read _ :: rest), .update => some (goOn (.refreshing fresh rest))
  | .refreshing fresh (.store ix :: rest), .update =>
      some { goOn (.refreshing fresh rest) with context := Function.update state.context ix fresh }
  | .refreshing _ [], .generate =>
      some (goOn (.generating zeroChangeSet [.attr, .config, .table, .metadata]))
  | .generating connection passes, .generate =>
      match connection.request, passes with
      | some request, _ =>
          (state.server.advance layout connection request).map fun next =>
            goOn (.generating next passes)
      | none, ix :: rest =>
          some { goOn (.generating
              (state.server.beginRequest layout connection (fun other => other = ix) true true)
              rest) with
            server := state.withIndex }
      | none, [] => some (goOn (.closing connection.reports))
  | .closing lines, .fclose ok =>
      if ok then some (goOn (.closed lines)) else some (state.endWrite writer.byThread)
  | .closed lines, .rename ok =>
      if ok then some { state.endWrite writer.byThread with file := contentOf lines }
      else some (state.endWrite writer.byThread)
  | _, _ => none

end PersistState

/-- One step of the server with its persistence. -/
def persistSystem (layout : ChangeLayout Lock) :
    System (PersistState Lock Value) (PersistEvent Lock Value)
  | state, .server event =>
      (changeSystem layout state.server event).map fun server => { state with server }
  | state, .wake => state.wake
  | state, .refresh => state.refresh layout
  | state, .check => state.check layout
  | state, .lock => state.lock
  | state, .save => state.beginWrite false
  | state, .stop => if state.writer.isNone then some { state with running := false } else none
  | state, event => state.writer.bind fun writer => state.write layout writer event

end Server
