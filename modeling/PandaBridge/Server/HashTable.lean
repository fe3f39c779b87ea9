import Mathlib.Logic.Function.Basic
import PandaBridge.Probe.Perturbed

/-! The hash table: open addressing over a power of two of slots, with marks for slots that are
unused and for those whose key was deleted. -/
namespace Server

/-- `key_ops`, as far as it concerns the table: keys are equal when `compare` says so, and
`hash_t` has this width. -/
structure HashOps (Key : Type) where
  width : Nat
  wide : 2 ≤ width
  hash : Key → Nat

/-- A value of the table is a pointer, and may be null. -/
structure TableEntry (Key Value : Type) where
  hash : Nat
  key : Option Key
  value : Option Value

structure HashTable (Key Value : Type) where
  entries : Nat
  deleted : Nat
  sizeMask : Nat
  table : Nat → TableEntry Key Value

def initialSize : Nat := 8

namespace HashOps

variable {Key : Type} (ops : HashOps Key)

def emptyHash : Nat := 0

/-- `(hash_t) -1`. -/
def deletedHash : Nat := 2 ^ ops.width - 1

/-- `compute_hash`. -/
def computeHash (key : Key) : Nat :=
  let hash := ops.hash key % 2 ^ ops.width
  if hash = emptyHash ∨ hash = ops.deletedHash then 2 ^ ops.width - 2 else hash

/-- `empty_entry`. -/
def emptyEntry {Value : Type} (entry : TableEntry Key Value) : Bool :=
  entry.hash == emptyHash || entry.hash == ops.deletedHash

end HashOps

namespace HashTable

variable {Key Value : Type} [DecidableEq Key] (ops : HashOps Key)

def size (table : HashTable Key Value) : Nat := table.sizeMask + 1

def blankEntry : TableEntry Key Value := { hash := HashOps.emptyHash, key := none, value := none }

/-- `hash_table_create`. -/
def create : HashTable Key Value where
  entries := 0
  deleted := 0
  sizeMask := initialSize - 1
  table := fun _ => blankEntry

/-- The loop of `lookup`, for at most so many rounds: the slot with the key, or where it can be
put, and whether it was found. -/
def lookupLoop (table : HashTable Key Value) (key : Key) (hash : Nat) :
    Nat → (perturb ix : Nat) → (deletedEntry : Option Nat) → Option (Nat × Bool)
  | 0, _, _, _ => none
  | rounds + 1, perturb, ix, deletedEntry =>
      let place := ix &&& table.sizeMask
      let entry := table.table place
      if entry.hash = hash ∧ entry.key = some key then some (place, true)
      else if entry.hash = HashOps.emptyHash then some (deletedEntry.getD place, false)
      else
        lookupLoop table key hash rounds (perturb >>> 5) (1 + 5 * ix + perturb >>> 5)
          (if entry.hash = ops.deletedHash ∧ deletedEntry = none then some place else deletedEntry)

/-- `lookup`, with rounds enough for the bits of the hash and then for every slot. -/
def lookup (table : HashTable Key Value) (key : Key) (hash : Nat) : Option (Nat × Bool) :=
  lookupLoop ops table key hash (ops.width + table.size) hash hash none

def setEntry (table : HashTable Key Value) (place : Nat) (entry : TableEntry Key Value) :
    HashTable Key Value :=
  { table with table := Function.update table.table place entry }

/-- `hash_table_lookup_bool`: the value, and whether the key was found. -/
def hashTableLookup (table : HashTable Key Value) (key : Key) : Option (Option Value × Bool) :=
  (lookup ops table key (ops.computeHash key)).map fun found =>
    ((table.table found.1).value, found.2)

/-- The size that the loop of `resize_table` comes to. -/
def growSize (size minSize : Nat) : Nat :=
  if h : 0 < size ∧ size < minSize then growSize (2 * size) minSize else size
termination_by minSize - size

/-- One slot of the old table moves to the new one. -/
def moveEntry (entry : TableEntry Key Value) (table : HashTable Key Value) :
    Option (HashTable Key Value) :=
  match ops.emptyEntry entry, entry.key with
  | false, some key =>
      (lookup ops table key entry.hash).map fun found =>
        table.setEntry found.1
          { hash := entry.hash, key := some key, value := entry.value }
  | _, _ => some table

/-- `resize_table`. -/
def resizeTable (table : HashTable Key Value) (minSize : Nat) : Option (HashTable Key Value) :=
  let live := table.entries - table.deleted
  let newSize := growSize initialSize (max minSize (2 * live))
  (List.range table.size).foldlM (fun next place => moveEntry ops (table.table place) next)
    { entries := live
      deleted := 0
      sizeMask := newSize - 1
      table := fun _ => blankEntry }

/-- `hash_table_insert`: the table, and the value that was replaced. -/
def hashTableInsert (table : HashTable Key Value) (key : Key) (value : Option Value) :
    Option (HashTable Key Value × Option Value) :=
  (lookup ops table key (ops.computeHash key)).bind fun found =>
    let entry := table.table found.1
    let next : HashTable Key Value :=
      { table.setEntry found.1
          { hash := if found.2 then entry.hash else ops.computeHash key
            key := some key
            value := value } with
        entries := if entry.hash = HashOps.emptyHash then table.entries + 1 else table.entries
        deleted :=
          if entry.hash = HashOps.emptyHash then table.deleted
          else if entry.hash = ops.deletedHash then table.deleted - 1
          else table.deleted }
    if 3 * next.entries ≥ 2 * next.sizeMask then
      (resizeTable ops next 0).map fun resized => (resized, entry.value)
    else some (next, entry.value)

/-- `hash_table_delete`: the table, and the value that was removed. -/
def hashTableDelete (table : HashTable Key Value) (key : Key) :
    Option (HashTable Key Value × Option Value) :=
  (lookup ops table key (ops.computeHash key)).map fun found =>
    if found.2 then
      ({ table.setEntry found.1 { hash := ops.deletedHash, key := none, value := none } with
        deleted := table.deleted + 1 }, (table.table found.1).value)
    else (table, (table.table found.1).value)

/-- `hash_table_count`. -/
def hashTableCount (table : HashTable Key Value) : Nat := table.entries - table.deleted

/-- `hash_table_walk`: the next binding from a slot on, and where to go on. -/
def hashTableWalk (table : HashTable Key Value) (ix : Nat) :
    Option (Nat × Option Key × Option Value) :=
  ((List.range' ix (table.size - ix)).find? fun place => !ops.emptyEntry (table.table place)).map
    fun place => (place + 1, (table.table place).key, (table.table place).value)

/-- A walk over the whole table. -/
def walkFrom (table : HashTable Key Value) : Nat → Nat → List (Option Key × Option Value)
  | 0, _ => []
  | rounds + 1, ix =>
      match hashTableWalk ops table ix with
      | none => []
      | some (next, key, value) => (key, value) :: walkFrom table rounds next

end HashTable

/-! ### Calls -/

/-- The calls that a user of a table makes. A walk is a whole one: the table must stay unchanged
during it. -/
inductive TableCall (Key Value : Type)
  | insert (key : Key) (value : Option Value)
  | delete (key : Key)
  | resize (minSize : Nat)
  | lookup (key : Key)
  | count
  | walk

/-- What the calls return. -/
inductive TableResult (Key Value : Type)
  | value (value : Option Value)
  | found (value : Option Value) (found : Bool)
  | resized
  | count (count : Nat)
  | bindings (bindings : List (Option Key × Option Value))

namespace HashTable

variable {Key Value : Type} [DecidableEq Key] (ops : HashOps Key)

def call (table : HashTable Key Value) :
    TableCall Key Value → Option (HashTable Key Value × TableResult Key Value)
  | .insert key value =>
      (hashTableInsert ops table key value).map fun result => (result.1, .value result.2)
  | .delete key => (hashTableDelete ops table key).map fun result => (result.1, .value result.2)
  | .resize minSize => (resizeTable ops table minSize).map fun resized => (resized, .resized)
  | .lookup key =>
      (hashTableLookup ops table key).map fun result => (table, .found result.1 result.2)
  | .count => some (table, .count table.hashTableCount)
  | .walk => some (table, .bindings (walkFrom ops table (table.size + 1) 0))

/-- The calls in turn, with their results. -/
def calls : List (TableCall Key Value) → HashTable Key Value →
    Option (HashTable Key Value × List (TableResult Key Value))
  | [], table => some (table, [])
  | first :: rest, table =>
      (call ops table first).bind fun done =>
        (calls rest done.1).map fun later => (later.1, done.2 :: later.2)

end HashTable

end Server
