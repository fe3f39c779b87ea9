import Mathlib.Data.List.ReduceOption
import PandaBridge.Server.HashTableResize

/-! The calls on a table answer as a map does, whatever the hash function, the keys and the order
of the calls. -/
namespace Server

namespace HashTable

variable {Key Value : Type}

/-! ### The map -/

/-- The number of bindings. -/
def Counts (map : Key → Option (Option Value)) (count : Nat) : Prop :=
  ∃ keys : List Key, keys.Nodup ∧ (∀ key, key ∈ keys ↔ (map key).isSome) ∧ keys.length = count

/-- A list that has every binding once. -/
structure Lists (map : Key → Option (Option Value)) (bindings : List (Option Key × Option Value)) :
    Prop where
  once : (bindings.map Prod.fst).Nodup
  keyed : ∀ binding ∈ bindings, binding.1 ≠ none
  bound : ∀ key value, (some key, value) ∈ bindings ↔ map key = some value

/-- What a map returns. For a walk the order is left open. -/
def Answers (map : Key → Option (Option Value)) :
    TableCall Key Value → TableResult Key Value → Prop
  | .insert key _, result => result = .value (map key).join
  | .delete key, result => result = .value (map key).join
  | .resize _, result => result = .resized
  | .lookup key, result => result = .found (map key).join (map key).isSome
  | .count, result => ∃ count, result = .count count ∧ Counts map count
  | .walk, result => ∃ bindings, result = .bindings bindings ∧ Lists map bindings

variable [DecidableEq Key]

/-- What a call does to a map. -/
def callMap (map : Key → Option (Option Value)) : TableCall Key Value → Key → Option (Option Value)
  | .insert key value => Function.update map key (some value)
  | .delete key => Function.update map key none
  | _ => map

/-- The results of calls, one for each. -/
def AnswersAll (map : Key → Option (Option Value)) :
    List (TableCall Key Value) → List (TableResult Key Value) → Prop
  | [], [] => True
  | first :: rest, result :: results =>
      Answers map first result ∧ AnswersAll (callMap map first) rest results
  | _, _ => False

variable {ops : HashOps Key} {order : Nat}
variable {table : HashTable Key Value} {map : Key → Option (Option Value)}

/-! ### Lookup, insert and delete -/

omit [DecidableEq Key] in
theorem Inv.used_lt (hInv : Inv ops table map) : table.entries < table.size := by
  have hRoom := hInv.room
  rw [size]
  omega

omit [DecidableEq Key] in
/-- Whether the lookup found the key or not, the value of the slot is that of the map. -/
theorem value_eq_join {slot : Nat} {key : Key} {found : Bool}
    (hBound : map key = if found then some (table.table slot).value else none)
    (hVacant : found = false →
      ops.emptyEntry (table.table slot) = true ∧ (table.table slot).value = none) :
    (table.table slot).value = (map key).join ∧ found = (map key).isSome := by
  cases found with
  | true =>
      rw [hBound]
      exact ⟨rfl, rfl⟩
  | false =>
      rw [hBound]
      exact ⟨(hVacant rfl).2, rfl⟩

theorem hashTableLookup_spec (hInv : Inv ops table map) (key : Key) :
    hashTableLookup ops table key = some ((map key).join, (map key).isSome) := by
  obtain ⟨order, hStores⟩ := hInv.stores
  obtain ⟨slot, -, found, hLookup, hBound, hVacant, -, -⟩ := hStores.lookup hInv.used_lt key
  obtain ⟨hValue, hFound⟩ := value_eq_join hBound hVacant
  rw [hashTableLookup, hLookup, Option.map_some, hValue, ← hFound]

theorem hashTableInsert_spec (hInv : Inv ops table map) (key : Key) (value : Option Value) :
    ∃ next, hashTableInsert ops table key value = some (next, (map key).join) ∧
      Inv ops next (Function.update map key (some value)) := by
  obtain ⟨order, hStores⟩ := hInv.stores
  obtain ⟨slot, hSlot, found, hLookup, hBound, hVacant, hHolds, hFits⟩ :=
    hStores.lookup hInv.used_lt key
  obtain ⟨hValue, -⟩ := value_eq_join hBound hVacant
  have hRoom : ∀ other, table.Holds ops slot other → other = key := by
    intro other hOther
    cases found with
    | true => exact Option.some.inj (hOther.2.symm.trans (hHolds rfl).2)
    | false => exact absurd hOther.1 (by simp [(hVacant rfl).1])
  -- a key that was found has its own hash in the slot
  have hHash : (if found then (table.table slot).hash else ops.computeHash key) =
      ops.computeHash key := by
    cases found with
    | true =>
        obtain ⟨held, hHeld, hHash⟩ := hStores.sound.keyed slot hSlot (hHolds rfl).1
        obtain rfl : held = key := Option.some.inj (hHeld.symm.trans (hHolds rfl).2)
        exact hHash
    | false => rfl
  have hPut := hStores.put hSlot (hFits value) hRoom
  have hDeleted : (if (table.table slot).hash = HashOps.emptyHash then table.deleted
      else if (table.table slot).hash = ops.deletedHash then table.deleted - 1
      else table.deleted) =
      if (table.table slot).hash = ops.deletedHash then table.deleted - 1 else table.deleted := by
    split_ifs with hUnused hMark
    · exact absurd (hMark.symm.trans hUnused) deletedHash_ne_emptyHash
    · rfl
    · rfl
    · rfl
  unfold hashTableInsert
  simp only [hLookup, Option.bind_some, hHash, hValue, hDeleted]
  generalize (if (table.table slot).hash = HashOps.emptyHash then table.entries + 1
    else table.entries) = entries at hPut ⊢
  generalize (if (table.table slot).hash = ops.deletedHash then table.deleted - 1
    else table.deleted) = gone at hPut ⊢
  have hNext := hPut.withCounts entries gone
  split_ifs with hFull
  · obtain ⟨resized, hResize, hResized⟩ := resizeTable_spec hNext 0
    refine ⟨resized, ?_, hResized⟩
    rw [hResize]
    rfl
  · exact ⟨_, rfl, ⟨order, hNext⟩, by simpa using hFull⟩

theorem hashTableDelete_spec (hInv : Inv ops table map) (key : Key) :
    ∃ next, hashTableDelete ops table key = some (next, (map key).join) ∧
      Inv ops next (Function.update map key none) := by
  obtain ⟨order, hStores⟩ := hInv.stores
  obtain ⟨slot, hSlot, found, hLookup, hBound, hVacant, hHolds, -⟩ :=
    hStores.lookup hInv.used_lt key
  obtain ⟨hValue, -⟩ := value_eq_join hBound hVacant
  unfold hashTableDelete
  rw [hLookup, Option.map_some]
  cases found with
  | true =>
      have hRemove := @Stores.remove _ _ _ _ _ _ _
        { hash := ops.deletedHash, key := none, value := none } _ _ _ hStores hSlot _ (hHolds rfl)
        rfl rfl
      rw [if_pos rfl, hValue]
      exact ⟨_, rfl, ⟨order, hRemove.withCounts table.entries (table.deleted + 1)⟩, hInv.room⟩
  | false =>
      rw [if_neg (by simp), hValue]
      refine ⟨table, rfl, ?_⟩
      have hSame : Function.update map key none = map := by
        rw [Function.update_eq_self_iff, hBound]
        rfl
      rw [hSame]
      exact hInv

/-! ### Walk -/

omit [DecidableEq Key] in
theorem find_full {slots ix : Nat} (hSlots : ix + slots = table.size) :
    match (List.range' ix slots).find? fun place => !ops.emptyEntry (table.table place) with
    | none => (List.range' ix slots).filter (fun place => !ops.emptyEntry (table.table place)) = []
    | some place => ix ≤ place ∧ place < table.size ∧
        (List.range' ix slots).filter (fun place => !ops.emptyEntry (table.table place)) =
          place :: (List.range' (place + 1) (table.size - (place + 1))).filter
            fun place => !ops.emptyEntry (table.table place) := by
  induction slots generalizing ix with
  | zero => rfl
  | succ slots ih =>
      rw [List.range'_succ, List.find?_cons, List.filter_cons]
      cases hFull : !ops.emptyEntry (table.table ix) with
      | true =>
          simp only [if_true]
          refine ⟨Nat.le_refl _, by omega, ?_⟩
          rw [show table.size - (ix + 1) = slots by omega]
      | false =>
          simp only [Bool.false_eq_true, if_false]
          have hRest := ih (show ix + 1 + slots = table.size by omega)
          split at hRest
          · exact hRest
          · exact ⟨by omega, hRest.2⟩

omit [DecidableEq Key] in
/-- A whole walk goes over the slots that hold a key, once and in order. -/
theorem walkFrom_eq {rounds ix : Nat} (hIx : ix ≤ table.size) (hRounds : table.size - ix < rounds) :
    walkFrom ops table rounds ix =
      ((List.range' ix (table.size - ix)).filter fun place => !ops.emptyEntry (table.table place)).map
        fun place => ((table.table place).key, (table.table place).value) := by
  induction rounds generalizing ix with
  | zero => omega
  | succ rounds ih =>
      have hFind := @find_full _ _ ops table (table.size - ix) ix (by omega)
      unfold walkFrom hashTableWalk
      split at hFind
      · rename_i hNone
        rw [hNone, hFind]
        rfl
      · rename_i place hSome
        obtain ⟨hLe, hLt, hFilter⟩ := hFind
        rw [hSome, hFilter, Option.map_some, List.map_cons]
        simp only
        rw [ih (by omega) (by omega)]

omit [DecidableEq Key] in
theorem mem_full {place : Nat} :
    place ∈ (List.range' 0 (table.size - 0)).filter
        (fun place => !ops.emptyEntry (table.table place)) ↔
      place < table.size ∧ ops.emptyEntry (table.table place) = false := by
  simp

omit [DecidableEq Key] in
theorem walk_lists (hInv : Inv ops table map) :
    Lists map (walkFrom ops table (table.size + 1) 0) := by
  obtain ⟨order, hStores⟩ := hInv.stores
  rw [walkFrom_eq (Nat.zero_le _) (by omega)]
  refine ⟨?_, ?_, ?_⟩
  · rw [List.map_map]
    refine List.Nodup.map_on ?_ ((List.nodup_range' 1).filter _)
    intro first hFirst second hSecond hSame
    rw [mem_full] at hFirst hSecond
    obtain ⟨key, hKey, -⟩ := hStores.sound.keyed first hFirst.1 hFirst.2
    exact hStores.sound.unique first hFirst.1 second hSecond.1 key ⟨hFirst.2, hKey⟩
      ⟨hSecond.2, hSame.symm.trans hKey⟩
  · intro binding hBinding
    obtain ⟨slot, hSlot, rfl⟩ := List.mem_map.mp hBinding
    rw [mem_full] at hSlot
    obtain ⟨key, hKey, -⟩ := hStores.sound.keyed slot hSlot.1 hSlot.2
    simp [hKey]
  · intro key value
    rw [hStores.represents key value, List.mem_map]
    constructor
    · rintro ⟨slot, hSlot, hEq⟩
      rw [mem_full] at hSlot
      obtain ⟨hKey, hValue⟩ := Prod.mk.inj hEq
      exact ⟨slot, hSlot.1, ⟨hSlot.2, hKey⟩, hValue⟩
    · rintro ⟨slot, hSlot, ⟨hFull, hKey⟩, hValue⟩
      exact ⟨slot, mem_full.mpr ⟨hSlot, hFull⟩, by rw [hKey, hValue]⟩

omit [DecidableEq Key] in
theorem length_walkFrom (hInv : Inv ops table map) :
    (walkFrom ops table (table.size + 1) 0).length = table.hashTableCount := by
  obtain ⟨order, hStores⟩ := hInv.stores
  have hCount := @fullBelow_size Key Value ops table
  rw [hStores.deletedSlots, hStores.usedSlots] at hCount
  have hFull : ((List.range' 0 (table.size - 0)).filter
      fun place => !ops.emptyEntry (table.table place)).length =
        fullBelow ops table table.size := by
    rw [fullBelow, Nat.sub_zero, ← List.range_eq_range', ← List.toFinset_card_of_nodup
      (List.nodup_range.filter _)]
    congr 1
    ext slot
    simp
  rw [walkFrom_eq (Nat.zero_le _) (by omega), List.length_map, hFull, hashTableCount]
  omega

omit [DecidableEq Key] in
theorem count_counts (hInv : Inv ops table map) : Counts map table.hashTableCount := by
  have hLists := walk_lists hInv
  refine ⟨((walkFrom ops table (table.size + 1) 0).map Prod.fst).reduceOption, ?_, ?_, ?_⟩
  · rw [List.reduceOption]
    refine List.Nodup.filterMap ?_ hLists.once
    intro first second key hFirst hSecond
    exact hFirst.trans hSecond.symm
  · intro key
    rw [List.reduceOption_mem_iff, List.mem_map, Option.isSome_iff_exists]
    constructor
    · rintro ⟨⟨held, value⟩, hMem, rfl⟩
      exact ⟨value, (hLists.bound key value).mp hMem⟩
    · rintro ⟨value, hBound⟩
      exact ⟨(some key, value), (hLists.bound key value).mpr hBound, rfl⟩
  · rw [← length_walkFrom hInv]
    rw [List.reduceOption_length_eq_iff.mpr, List.length_map]
    intro held hHeld
    obtain ⟨binding, hBinding, rfl⟩ := List.mem_map.mp hHeld
    exact Option.isSome_iff_ne_none.mpr (hLists.keyed binding hBinding)

/-! ### Calls -/

omit [DecidableEq Key] in
theorem create_inv : Inv ops (create : HashTable Key Value) fun _ => none :=
  ⟨⟨3, stores_blank 0 0 rfl⟩, show 3 * 0 < 2 * 7 by decide⟩

theorem call_spec (hInv : Inv ops table map) (request : TableCall Key Value) :
    ∃ next result, call ops table request = some (next, result) ∧ Answers map request result ∧
      Inv ops next (callMap map request) := by
  cases request with
  | insert key value =>
      obtain ⟨next, hInsert, hNext⟩ := hashTableInsert_spec hInv key value
      exact ⟨next, .value (map key).join, by rw [call, hInsert]; rfl, rfl, hNext⟩
  | delete key =>
      obtain ⟨next, hDelete, hNext⟩ := hashTableDelete_spec hInv key
      exact ⟨next, .value (map key).join, by rw [call, hDelete]; rfl, rfl, hNext⟩
  | resize minSize =>
      obtain ⟨order, hStores⟩ := hInv.stores
      obtain ⟨next, hResize, hNext⟩ := resizeTable_spec hStores minSize
      exact ⟨next, .resized, by rw [call, hResize]; rfl, rfl, hNext⟩
  | lookup key =>
      have hLookup := hashTableLookup_spec hInv key
      exact ⟨table, .found (map key).join (map key).isSome, by rw [call, hLookup]; rfl, rfl, hInv⟩
  | count => exact ⟨table, _, rfl, ⟨_, rfl, count_counts hInv⟩, hInv⟩
  | walk => exact ⟨table, _, rfl, ⟨_, rfl, walk_lists hInv⟩, hInv⟩

theorem calls_spec (hInv : Inv ops table map) (requests : List (TableCall Key Value)) :
    ∃ next results, calls ops requests table = some (next, results) ∧
      AnswersAll map requests results ∧ Inv ops next (requests.foldl callMap map) := by
  induction requests generalizing table map with
  | nil => exact ⟨table, [], rfl, trivial, hInv⟩
  | cons first rest ih =>
      obtain ⟨next, result, hCall, hAnswers, hNext⟩ := call_spec hInv first
      obtain ⟨last, results, hCalls, hAll, hLast⟩ := ih hNext
      refine ⟨last, result :: results, ?_, ⟨hAnswers, hAll⟩, hLast⟩
      rw [calls, hCall, Option.bind_some, hCalls]
      rfl

end HashTable

open HashTable in
/-- For every hash function and every sequence of calls on a new table: each call returns, with
what a map returns that is driven by the same calls; the bindings are then those of the map, a
slot is unused, and the probe sequence of any hash comes to every slot. -/
theorem hash_table_refines_map {Key Value : Type} [DecidableEq Key] (ops : HashOps Key)
    (requests : List (TableCall Key Value)) :
    ∃ table results, calls ops requests create = some (table, results) ∧
      AnswersAll (fun _ => none) requests results ∧
      table.Represents ops (requests.foldl callMap fun _ => none) ∧
      (∃ free < table.size, (table.table free).hash = HashOps.emptyHash) ∧
      ∀ hash < 2 ^ ops.width, ∀ slot < table.size, ∃ step < ops.width + table.size,
        Probe.index hash step &&& table.sizeMask = slot := by
  have hCreate : Inv ops (create : HashTable Key Value) fun _ => none := create_inv
  obtain ⟨table, results, hCalls, hAnswers, hInv⟩ := calls_spec hCreate requests
  obtain ⟨order, hStores⟩ := hInv.stores
  refine ⟨table, results, hCalls, hAnswers, hStores.represents, ?_, ?_⟩
  · exact exists_unused (hStores.usedSlots ▸ hInv.used_lt)
  · intro hash hHash slot hSlot
    obtain ⟨step, hStep, hVisit⟩ := Probe.exists_index hHash (hStores.sound.size ▸ hSlot)
    refine ⟨step, hStores.sound.size ▸ hStep, ?_⟩
    rw [and_sizeMask hStores.sound.size, hStores.sound.size]
    exact hVisit

end Server
