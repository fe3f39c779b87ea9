import PandaBridge.Server.ChangeIndex
import PandaBridge.Transition.System

/-! The change sets of the configuration server: updates under the locks of their fields, and
the requests of any number of connections, which take a fresh index and then visit one lock
after the other. -/
namespace Server

open Transition

/-! ### What there is to report -/

/-- The field classes that keep their own values. -/
inductive FieldClass
  | param
  | bitMux
  | posMux
  | time
  | table
  deriving DecidableEq

/-- A field with its attributes; of an attribute, whether it is `in_change_set`. -/
structure FieldInfo where
  fieldClass : FieldClass
  attrs : List Bool

structure BlockInfo where
  count : Nat
  fields : List FieldInfo

/-- The blocks and the metadata keys; of a key, whether its value is `METADATA_MULTILINE`. -/
structure Database where
  blocks : List BlockInfo
  metadata : List Bool

/-- A mutex that guards update indices: one for a field or an attribute with all its
instances, one for each instance of a table, one for each metadata key. -/
inductive ChangeLock
  | field (block field : Nat)
  | table (block field number : Nat)
  | attr (block field attr : Nat)
  | metadata (key : Nat)
  deriving DecidableEq

/-- What a walk over everything needs to know. A group is what is checked before anything of
it is reported. -/
structure ChangeLayout (Lock : Type) where
  groups : List (List Lock)
  count : Lock → Nat
  changeIx : Lock → ChangeIx
  listed : Lock → Bool
  multiline : Lock → Bool

namespace Database

variable (db : Database)

def field? (block field : Nat) : Option FieldInfo :=
  db.blocks[block]?.bind fun info => info.fields[field]?

/-- The locks of a field's own values, and those of its attributes. -/
def fieldGroups (count block field : Nat) (info : FieldInfo) : List (List ChangeLock) :=
  (if info.fieldClass = .table then (List.range count).map (ChangeLock.table block field)
    else [.field block field]) ::
  (List.range info.attrs.length).map fun attr => [.attr block field attr]

/-- `FOR_EACH_BLOCK`, `FOR_EACH_FIELD`, then the metadata. -/
def layout : ChangeLayout ChangeLock where
  groups :=
    (db.blocks.zipIdx.flatMap fun block => block.1.fields.zipIdx.flatMap fun field =>
      fieldGroups block.1.count block.2 field.2 field.1) ++
    (List.range db.metadata.length).map fun key => [.metadata key]
  count
    | .field block _ => (db.blocks[block]?.map BlockInfo.count).getD 0
    | .table _ _ _ => 1
    | .attr block _ _ => (db.blocks[block]?.map BlockInfo.count).getD 0
    | .metadata _ => 1
  changeIx
    | .field _ _ => .config
    | .table _ _ _ => .table
    | .attr _ _ _ => .attr
    | .metadata _ => .metadata
  listed
    | .attr block field attr => ((db.field? block field).bind fun info => info.attrs[attr]?).getD false
    | _ => true
  multiline
    | .table _ _ _ => true
    | .metadata key => db.metadata.getD key false
    | _ => false

end Database

/-! ### The server -/

section Server

variable (Lock Value : Type)

/-- An instance behind a lock. -/
abbrev ChangeEntry := Lock × Nat

/-- A value with everything it has been so far, and its update index. -/
structure ChangeCell where
  values : List Value
  updateIndex : Nat

/-- An update that is over: its place among the values of its entry, and its index. -/
structure ChangeUpdate where
  entry : ChangeEntry Lock
  version : Nat
  index : Nat

/-- An update on its way: the value of an attribute is there before `attr_changed` takes the
mutex, else the value is written under it. -/
inductive Updating
  | written (entry : ChangeEntry Lock) (version : Nat)
  | locked (entry : ChangeEntry Lock) (version : Nat)
  | allocated (entry : ChangeEntry Lock) (version index : Nat)

/-- What a connection is told: the value of an entry, if it is printed, or by
`check_change_set` that something has changed. -/
inductive ChangeReport
  | value (entry : ChangeEntry Lock) (version : Nat) (value : Option Value)
  | changed (report : ReportIndex) (fresh : Nat)

/-- A request on its way. `generate_change_sets` reports, `check_change_set` does not. The
groups are still ahead, the locks are those of the current group, `changed` holds what they
have shown so far, and `reading` what is still to be reported. -/
structure ChangeRequest where
  generates : Bool
  printTables : Bool
  report : ReportIndex
  fresh : Nat
  groups : List (List Lock)
  locks : List Lock
  changed : List (ChangeEntry Lock)
  reading : List (ChangeEntry Lock)

structure ChangeConnection where
  context : ChangeContext
  request : Option (ChangeRequest Lock)
  reports : List (ChangeReport Lock Value)
  completed : Nat

/-- The server. `updates` records the updates that are over. -/
structure ChangeServer where
  index : Nat
  cells : ChangeEntry Lock → ChangeCell Value
  held : Lock → Option Nat
  updaters : Nat → Option (Updating Lock)
  connections : Nat → ChangeConnection Lock Value
  updates : List (ChangeUpdate Lock)

/-- The steps of the updating threads and of the connections. -/
inductive ChangeEvent
  | lockWrite (updater : Nat) (entry : ChangeEntry Lock) (value : Value)
  | write (updater : Nat) (entry : ChangeEntry Lock) (value : Value)
  | lock (updater : Nat)
  | allocate (updater : Nat)
  | store (updater : Nat)
  | request (connection : Nat) (sets : ChangeIx → Bool) (generates printTables : Bool)
  | advance (connection : Nat)

end Server

variable {Lock Value : Type} [DecidableEq Lock]

/-- There is this entry. -/
def ChangeLayout.Has (layout : ChangeLayout Lock) (entry : ChangeEntry Lock) : Prop :=
  entry.1 ∈ layout.groups.flatten ∧ entry.2 < layout.count entry.1

instance (layout : ChangeLayout Lock) (entry : ChangeEntry Lock) : Decidable (layout.Has entry) :=
  inferInstanceAs (Decidable (_ ∧ _))

namespace ChangeServer

variable (layout : ChangeLayout Lock) (server : ChangeServer Lock Value)

/-- A new value of an entry, by one updating thread. -/
def put (updater : Nat) (entry : ChangeEntry Lock) (value : Value) (next : Updating Lock) :
    ChangeServer Lock Value :=
  { server with
    cells := Function.update server.cells entry
      { server.cells entry with values := (server.cells entry).values ++ [value] }
    updaters := Function.update server.updaters updater (some next) }

/-- The number that the next value of an entry gets. -/
def version (entry : ChangeEntry Lock) : Nat := (server.cells entry).values.length

/-- The flags that a lock's change set shows a request. -/
def changes (report : ReportIndex) (lock : Lock) : List (ChangeEntry Lock) :=
  ((List.range (layout.count lock)).filter fun i =>
    layout.listed lock &&
      changedSince (report (layout.changeIx lock)) (server.cells (lock, i)).updateIndex).map
    (Prod.mk lock)

/-- The report of an entry, with the value it has now. -/
def reportValue (printTables : Bool) (entry : ChangeEntry Lock) : ChangeReport Lock Value :=
  .value entry ((server.cells entry).values.length - 1)
    (if layout.multiline entry.1 && !printTables then none
    else (server.cells entry).values.getLast?)

/-- The next step of a request: it reports what it has found, visits the next lock when it
is free, ends a group, or goes on to the next one. -/
def advance (connection : ChangeConnection Lock Value) (request : ChangeRequest Lock) :
    Option (ChangeConnection Lock Value) :=
  match request.reading, request.locks, request.changed, request.groups with
  | entry :: rest, _, _, _ =>
      some { connection with
        request := some { request with reading := rest }
        reports := connection.reports ++ [server.reportValue layout request.printTables entry] }
  | [], lock :: rest, _, _ =>
      if server.held lock = none then
        some { connection with
          request := some { request with
            locks := rest
            changed := request.changed ++ server.changes layout request.report lock } }
      else none
  | [], [], first :: others, _ =>
      if request.generates then
        some { connection with
          request := some { request with changed := [], reading := first :: others } }
      else
        some { connection with
          request := none
          reports := connection.reports ++ [.changed request.report request.fresh]
          completed := connection.completed + 1 }
  | [], [], [], group :: rest =>
      some { connection with
        request := some { request with
          groups := rest
          locks := group.filter fun lock => (request.report (layout.changeIx lock)).isSome } }
  | [], [], [], [] =>
      some { connection with request := none, completed := connection.completed + 1 }

/-- A new request: `refresh_change_index`, and everything is ahead. -/
def beginRequest (connection : ChangeConnection Lock Value) (sets : ChangeIx → Bool)
    (generates printTables : Bool) : ChangeConnection Lock Value :=
  { connection with
    context := (updateChangeIndex (server.index + 1) sets connection.context).1
    request := some
      { generates := generates
        printTables := printTables
        report := (updateChangeIndex (server.index + 1) sets connection.context).2
        fresh := server.index + 1
        groups := layout.groups
        locks := []
        changed := []
        reading := [] } }

end ChangeServer

open ChangeServer in
/-- One step of the server. -/
def changeSystem (layout : ChangeLayout Lock) :
    System (ChangeServer Lock Value) (ChangeEvent Lock Value)
  | server, .lockWrite updater entry value =>
      if server.updaters updater = none ∧ server.held entry.1 = none ∧ layout.Has entry then
        some { server.put updater entry value (.locked entry (server.version entry)) with
          held := Function.update server.held entry.1 (some updater) }
      else none
  | server, .write updater entry value =>
      if server.updaters updater = none ∧ layout.Has entry then
        some (server.put updater entry value (.written entry (server.version entry)))
      else none
  | server, .lock updater =>
      match server.updaters updater with
      | some (.written entry version) =>
          if server.held entry.1 = none then
            some { server with
              held := Function.update server.held entry.1 (some updater)
              updaters := Function.update server.updaters updater (some (.locked entry version)) }
          else none
      | _ => none
  | server, .allocate updater =>
      match server.updaters updater with
      | some (.locked entry version) =>
          some { server with
            index := server.index + 1
            updaters := Function.update server.updaters updater
              (some (.allocated entry version (server.index + 1))) }
      | _ => none
  | server, .store updater =>
      match server.updaters updater with
      | some (.allocated entry version index) =>
          some { server with
            cells := Function.update server.cells entry
              { server.cells entry with updateIndex := index }
            held := Function.update server.held entry.1 none
            updaters := Function.update server.updaters updater none
            updates := server.updates ++ [⟨entry, version, index⟩] }
      | _ => none
  | server, .request connection sets generates printTables =>
      if (server.connections connection).request = none then
        some { server with
          index := server.index + 1
          connections := Function.update server.connections connection
            (server.beginRequest layout (server.connections connection) sets generates printTables) }
      else none
  | server, .advance connection =>
      (server.connections connection).request.bind fun request =>
        (server.advance layout (server.connections connection) request).map fun next =>
          { server with connections := Function.update server.connections connection next }

end Server
