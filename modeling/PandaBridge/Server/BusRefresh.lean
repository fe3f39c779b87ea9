import Mathlib.Order.Nat
import PandaBridge.Server.ChangeIndex
import PandaBridge.Transition.System

/-! The bit and position buses. The hardware flags what has changed since it was last read, so
whoever reads first takes the flag and has to leave an update index for everybody else: a
request with the index it took under `change_mutex`, a single field read with one of its own. -/
namespace Server

open Transition

inductive Bus
  | bits
  | position
  deriving DecidableEq

def Bus.changeIx : Bus → ChangeIx
  | bits => .bits
  | position => .position

section State

variable (Entry Value : Type)

/-- A `bit_out` or `pos_out` field: the bus entry of each instance. -/
structure BusField where
  bus : Bus
  entries : List Entry

/-- A request: the buses it has yet to refresh under `change_mutex`, the fields it has yet to
visit, what it has found changed in the last one, and what it has reported. -/
structure BusRequest where
  report : ReportIndex
  fresh : Nat
  refreshing : List Bus
  fields : List (BusField Entry)
  reading : List (Bus × Entry)
  reports : List (Bus × Entry × Value)

/-- A connection with the reports of each request that has ended. -/
structure BusConnection where
  context : ChangeContext
  request : Option (BusRequest Entry Value)
  answers : List (List (Bus × Entry × Value))

/-- The buses in hardware, the values and update indices that the server keeps of them, and the
index of every single field read that has yet to take the mutex. -/
structure BusServer where
  index : Nat
  hardware : Bus → Entry → Value
  changed : Bus → Entry → Bool
  values : Bus → Entry → Value
  updateIndex : Bus → Entry → Nat
  changeMutex : Option Nat
  readers : Nat → Option (Bus × Nat)
  connections : Nat → BusConnection Entry Value

inductive BusEvent
  | change (bus : Bus) (entry : Entry) (value : Value)
  | allocate (reader : Nat) (bus : Bus)
  | refresh (reader : Nat)
  | request (connection : Nat) (sets : ChangeIx → Bool)
  | advance (connection : Nat)

end State

variable {Entry Value : Type}

namespace BusServer

variable (server : BusServer Entry Value)

/-- `do_bit_out_refresh` and `do_pos_out_refresh`. -/
def doRefresh (bus : Bus) (changeIndex : Nat) : BusServer Entry Value :=
  { server with
    values := Function.update server.values bus (server.hardware bus)
    changed := Function.update server.changed bus fun _ => false
    updateIndex := Function.update server.updateIndex bus fun entry =>
      if server.changed bus entry = true ∧ server.updateIndex bus entry < changeIndex then changeIndex
      else server.updateIndex bus entry }

def setConnection (connection : Nat) (next : BusConnection Entry Value) : BusServer Entry Value :=
  { server with connections := Function.update server.connections connection next }

/-- The connection with another state of its request. -/
def setRequest (connection : Nat) (request : BusRequest Entry Value) : BusServer Entry Value :=
  server.setConnection connection
    { server.connections connection with request := some request }

/-- `bit_out_change_set` and `pos_out_change_set`. -/
def changeSet (report : ReportIndex) (field : BusField Entry) : List (Bus × Entry) :=
  (field.entries.filter fun entry =>
    changedSince (report field.bus.changeIx) (server.updateIndex field.bus entry)).map
    (Prod.mk field.bus)

/-- The next step of a request: under `change_mutex` it refreshes the buses it asks for, and
then reports one field after the other. -/
def advance (connection : Nat) (request : BusRequest Entry Value) : BusServer Entry Value :=
  if server.changeMutex = some connection then
    match request.refreshing with
    | bus :: rest =>
        (server.doRefresh bus request.fresh).setRequest connection { request with refreshing := rest }
    | [] => { server with changeMutex := none }
  else
    match request.reading, request.fields with
    | entry :: rest, _ =>
        server.setRequest connection { request with
          reading := rest
          reports := request.reports ++ [(entry.1, entry.2, server.values entry.1 entry.2)] }
    | [], field :: rest =>
        server.setRequest connection { request with
          fields := rest
          reading := server.changeSet request.report field }
    | [], [] =>
        server.setConnection connection { server.connections connection with
          request := none
          answers := (server.connections connection).answers ++ [request.reports] }

/-- `refresh_change_index` has taken its index. -/
def beginRequest (fields : List (BusField Entry)) (connection : Nat) (sets : ChangeIx → Bool) :
    BusServer Entry Value :=
  { server.setConnection connection
      { server.connections connection with
        context := (updateChangeIndex (server.index + 1) sets
          (server.connections connection).context).1
        request := some
          { report := (updateChangeIndex (server.index + 1) sets
              (server.connections connection).context).2
            fresh := server.index + 1
            refreshing := [Bus.bits, .position].filter fun bus => sets bus.changeIx
            fields := fields
            reading := []
            reports := [] } } with
    index := server.index + 1
    changeMutex := some connection }

end BusServer

/-- One step of the buses, of a single field read or of a request. -/
def busSystem [DecidableEq Entry] (fields : List (BusField Entry)) :
    System (BusServer Entry Value) (BusEvent Entry Value)
  | server, .change bus entry value =>
      some { server with
        hardware := Function.update server.hardware bus
          (Function.update (server.hardware bus) entry value)
        changed := Function.update server.changed bus
          (Function.update (server.changed bus) entry true) }
  | server, .allocate reader bus =>
      if server.readers reader = none then
        some { server with
          index := server.index + 1
          readers := Function.update server.readers reader (some (bus, server.index + 1)) }
      else none
  | server, .refresh reader =>
      (server.readers reader).map fun read =>
        { server.doRefresh read.1 read.2 with
          readers := Function.update server.readers reader none }
  | server, .request connection sets =>
      if server.changeMutex = none ∧ (server.connections connection).request.isNone then
        some (server.beginRequest fields connection sets)
      else none
  | server, .advance connection =>
      (server.connections connection).request.map (server.advance connection)

end Server
