import PandaBridge.Search.Sorted
import PandaBridge.Server.FieldTypes
import PandaBridge.Server.HashTableCalls

/-! The tables of enumerations: entries sorted by value, and from a certain size on a hash table
of their names. -/
namespace Server

/-- `HASH_TABLE_THRESHOLD`. -/
def hashTableThreshold : Nat := 4

/-- `INITIAL_CAPACITY`. -/
def initialCapacity : Nat := 4

/-- `struct enumeration`: its capacity, its entries, and its hash table. -/
structure EnumTable (Name : Type) where
  setCapacity : Nat
  enums : List (Nat × Name)
  map : Option (HashTable Name Nat)

inductive EnumError (Name : Type)
  | repeatedIndex (ix : Nat)
  | repeatedName (name : Name)
  deriving DecidableEq

/-- A value as a pointer, which is null for 0. -/
def valuePointer (value : Nat) : Option Nat := if value = 0 then none else some value

variable {Name : Type} [DecidableEq Name] (ops : HashOps Name)

/-- `linear_search`. -/
def linearSearch (enums : List (Nat × Name)) (name : Name) : Option Nat :=
  (enums.find? fun entry => entry.2 == name).map Prod.fst

/-- `binary_search`. -/
def binarySearch (enums : List (Nat × Name)) (value : Nat) : Nat :=
  Search.lowerBound Prod.fst enums value

/-- `hash_table_insert_const` of an entry, with the assertion that its name is new. -/
def insertEntry (table : HashTable Name Nat) (entry : Nat × Name) : Option (HashTable Name Nat) :=
  (table.hashTableInsert ops entry.2 (valuePointer entry.1)).bind fun result =>
    if result.2 = none then some result.1 else none

/-- `create_hash_table`. -/
def createHashTable (enums : List (Nat × Name)) : Option (HashTable Name Nat) :=
  enums.foldlM (insertEntry ops) HashTable.create

namespace EnumTable

/-- `create_dynamic_enumeration`. -/
def createDynamic : EnumTable Name where
  setCapacity := initialCapacity
  enums := []
  map := none

/-- `enum_index_to_name`. -/
def enumIndexToName (table : EnumTable Name) (value : Nat) : Option Name :=
  (table.enums[binarySearch table.enums value]?.filter fun entry => entry.1 == value).map Prod.snd

/-- `enum_name_to_index`: the value if there is one, or nothing where the hash table fails. -/
def enumNameToIndex (table : EnumTable Name) (name : Name) : Option (Option Nat) :=
  match table.map with
  | some map =>
      (map.hashTableLookup ops name).map fun result =>
        if result.2 then some (result.1.getD 0) else none
  | none => some (linearSearch table.enums name)

/-- `insert_new_enum`. -/
def insertNewEnum (table : EnumTable Name) (entry : Nat × Name) (ix : Nat) :
    Option (EnumTable Name) :=
  let inserted := { table with enums := Search.insertAt table.enums ix entry }
  match table.map with
  | none => some inserted
  | some map => (insertEntry ops map entry).map fun next => { inserted with map := some next }

/-- `add_enumeration`: nothing where an assertion or the hash table fails. -/
def addEnumeration (table : EnumTable Name) (name : Name) (value : Nat) :
    Option (EnumTable Name × Option (EnumError Name)) :=
  if table.setCapacity = 0 then none
  else
    let grown := { table with
      setCapacity :=
        if table.enums.length ≥ table.setCapacity then table.setCapacity * 2
        else table.setCapacity }
    let hashed :=
      if table.map.isNone ∧ table.enums.length ≥ hashTableThreshold then
        (createHashTable ops table.enums).map fun map => { grown with map := some map }
      else some grown
    hashed.bind fun table =>
      let ix := binarySearch table.enums value
      if ¬ (table.enums.length - ix = 0 ∨
          ∀ entry ∈ table.enums[ix]?, value < entry.1) then
        some (table, some (.repeatedIndex ix))
      else
        (table.enumNameToIndex ops name).bind fun found =>
          if found.isSome then some (table, some (.repeatedName name))
          else (table.insertNewEnum ops (value, name) ix).map fun next => (next, none)

end EnumTable

/-! ### The search by name -/

section Names

variable {enums : List (Nat × Name)} {ops : HashOps Name}

theorem linearSearch_eq_some (hDistinct : (enums.map Prod.snd).Nodup) {name : Name} {value : Nat} :
    linearSearch enums name = some value ↔ (value, name) ∈ enums := by
  constructor
  · intro hFound
    obtain ⟨entry, hEntry, rfl⟩ := Option.map_eq_some_iff.mp hFound
    obtain rfl : entry.2 = name := by simpa using List.find?_some hEntry
    exact List.mem_of_find?_eq_some hEntry
  · intro hMem
    obtain ⟨other, hOther⟩ : ∃ other, enums.find? (fun entry => entry.2 == name) = some other := by
      rw [← Option.isSome_iff_exists, List.find?_isSome]
      exact ⟨(value, name), hMem, by simp⟩
    have hName : other.2 = name := by simpa using List.find?_some hOther
    have hSame := List.inj_on_of_nodup_map hDistinct (List.mem_of_find?_eq_some hOther) hMem hName
    rw [linearSearch, hOther, hSame]
    rfl

theorem linearSearch_eq_none {name : Name} :
    linearSearch enums name = none ↔ ∀ entry ∈ enums, entry.2 ≠ name := by
  simp [linearSearch]

/-- The order of the entries does not matter. -/
theorem linearSearch_perm {others : List (Nat × Name)} (hPerm : enums.Perm others)
    (hDistinct : (enums.map Prod.snd).Nodup) (name : Name) :
    linearSearch enums name = linearSearch others name := by
  have hOthers : (others.map Prod.snd).Nodup := (hPerm.map Prod.snd).nodup hDistinct
  apply Option.ext
  intro value
  rw [linearSearch_eq_some hDistinct, linearSearch_eq_some hOthers, hPerm.mem_iff]

/-- What the hash table holds for the entries. -/
def nameMap (enums : List (Nat × Name)) (name : Name) : Option (Option Nat) :=
  (linearSearch enums name).map valuePointer

theorem nameMap_insert {others : List (Nat × Name)} {entry : Nat × Name}
    (hPerm : others.Perm (entry :: enums)) (hDistinct : (others.map Prod.snd).Nodup) :
    nameMap others = Function.update (nameMap enums) entry.2 (some (valuePointer entry.1)) := by
  funext name
  rw [nameMap, linearSearch_perm hPerm hDistinct, linearSearch, List.find?_cons]
  by_cases hSame : name = entry.2
  · subst hSame
    rw [Function.update_self, beq_self_eq_true]
    rfl
  · rw [Function.update_of_ne hSame, beq_false_of_ne (Ne.symm hSame)]
    rfl

theorem insertEntry_spec {map : HashTable Name Nat} (hInv : HashTable.Inv ops map (nameMap enums))
    {others : List (Nat × Name)} {entry : Nat × Name} (hPerm : others.Perm (entry :: enums))
    (hDistinct : (others.map Prod.snd).Nodup) :
    ∃ next, insertEntry ops map entry = some next ∧ HashTable.Inv ops next (nameMap others) := by
  obtain ⟨next, hInsert, hNext⟩ :=
    HashTable.hashTableInsert_spec hInv entry.2 (valuePointer entry.1)
  have hNew : linearSearch enums entry.2 = none := by
    have hAll := (hPerm.map Prod.snd).nodup hDistinct
    rw [List.map_cons, List.nodup_cons] at hAll
    exact linearSearch_eq_none.mpr fun other hMem hSame => hAll.1 (List.mem_map.mpr ⟨other, hMem, hSame⟩)
  refine ⟨next, ?_, ?_⟩
  · rw [insertEntry, hInsert, nameMap, hNew]
    rfl
  · rw [nameMap_insert hPerm hDistinct]
    exact hNext

theorem createHashTable_spec (hDistinct : (enums.map Prod.snd).Nodup) :
    ∃ map, createHashTable ops enums = some map ∧ HashTable.Inv ops map (nameMap enums) := by
  have hLoop : ∀ (rest done : List (Nat × Name)) (map : HashTable Name Nat),
      ((done ++ rest).map Prod.snd).Nodup → HashTable.Inv ops map (nameMap done) →
      ∃ next, rest.foldlM (insertEntry ops) map = some next ∧
        HashTable.Inv ops next (nameMap (done ++ rest)) := by
    intro rest
    induction rest with
    | nil =>
        intro done map _ hInv
        rw [List.append_nil]
        exact ⟨map, rfl, hInv⟩
    | cons entry rest ih =>
        intro done map hNodup hInv
        rw [← List.singleton_append, ← List.append_assoc] at hNodup
        have hDone : ((done ++ [entry]).map Prod.snd).Nodup := by
          rw [List.map_append] at hNodup
          exact (List.nodup_append.mp hNodup).1
        obtain ⟨middle, hInsert, hMiddle⟩ :=
          insertEntry_spec hInv (@List.perm_append_comm _ done [entry]) hDone
        obtain ⟨next, hRest, hNext⟩ := ih (done ++ [entry]) middle hNodup hMiddle
        refine ⟨next, ?_, ?_⟩
        · rw [List.foldlM_cons, hInsert]
          exact hRest
        · rw [← List.singleton_append, ← List.append_assoc]
          exact hNext
  exact hLoop enums [] HashTable.create hDistinct HashTable.create_inv

end Names

/-! ### The table between two calls -/

namespace EnumTable

variable {ops : HashOps Name} {table : EnumTable Name}

/-- The entries are sorted and have names of their own, there is room for them, and the hash table
holds what they say. -/
structure Sound (ops : HashOps Name) (table : EnumTable Name) : Prop where
  sorted : table.enums.Pairwise fun first second => first.1 < second.1
  distinct : (table.enums.map Prod.snd).Nodup
  hashed : ∀ map, table.map = some map → HashTable.Inv ops map (nameMap table.enums)
  capacity : 0 < table.setCapacity
  room : table.enums.length ≤ table.setCapacity

theorem Sound.enumNameToIndex_eq (hSound : Sound ops table) (name : Name) :
    table.enumNameToIndex ops name = some (linearSearch table.enums name) := by
  unfold enumNameToIndex
  split
  · rename_i map hMap
    rw [HashTable.hashTableLookup_spec (hSound.hashed map hMap), nameMap]
    cases linearSearch table.enums name with
    | none => rfl
    | some value =>
        have hPointer : (valuePointer value).getD 0 = value := by
          unfold valuePointer
          split
          · rename_i hZero
            exact hZero.symm
          · rfl
        simp only [Option.map_some, Option.join_some, Option.isSome_some, if_true, hPointer]
  · rfl

theorem Sound.enumIndexToName_eq_some (hSound : Sound ops table) {value : Nat} {name : Name} :
    table.enumIndexToName value = some name ↔ (value, name) ∈ table.enums := by
  have hFind := fun entry : Nat × Name =>
    @Search.getElem?_lowerBound (Nat × Name) Nat _ Prod.fst table.enums hSound.sorted value entry
  unfold enumIndexToName
  rw [Option.map_eq_some_iff]
  constructor
  · rintro ⟨entry, hEntry, rfl⟩
    obtain ⟨hAt, hValue⟩ := Option.filter_eq_some_iff.mp hEntry
    have hValue : entry.1 = value := by simpa using hValue
    obtain rfl := hValue
    exact (hFind entry rfl).mp hAt
  · intro hMem
    refine ⟨(value, name), Option.filter_eq_some_iff.mpr ⟨?_, by simp⟩, rfl⟩
    exact (hFind (value, name) rfl).mpr hMem

/-- The new entry is put where the binary search has come to. -/
theorem Sound.insertNewEnum_spec (hSound : Sound ops table) (hRoom : table.enums.length < table.setCapacity)
    {value : Nat} {name : Name} (hValue : ∀ entry ∈ table.enums, entry.1 ≠ value)
    (hName : ∀ entry ∈ table.enums, entry.2 ≠ name) :
    ∃ next, table.insertNewEnum ops (value, name) (binarySearch table.enums value) = some next ∧
      Sound ops next ∧ next.enums.Perm ((value, name) :: table.enums) := by
  have hPerm := @Search.insertAt_perm _ table.enums (binarySearch table.enums value) (value, name)
  have hSorted := @Search.insertAt_sorted (Nat × Name) Nat _ Prod.fst table.enums hSound.sorted
    (value, name) hValue
  have hDistinct : ((Search.insertAt table.enums (binarySearch table.enums value)
      (value, name)).map Prod.snd).Nodup := by
    refine (hPerm.map Prod.snd).symm.nodup ?_
    rw [List.map_cons, List.nodup_cons]
    refine ⟨fun hMem => ?_, hSound.distinct⟩
    obtain ⟨entry, hEntry, hSame⟩ := List.mem_map.mp hMem
    exact hName entry hEntry hSame
  have hLength : (Search.insertAt table.enums (binarySearch table.enums value)
      (value, name)).length ≤ table.setCapacity := by
    rw [hPerm.length_eq, List.length_cons]
    exact hRoom
  unfold insertNewEnum
  cases hMap : table.map with
  | none =>
      refine ⟨_, rfl, ⟨hSorted, hDistinct, fun map hSome => ?_, hSound.capacity, hLength⟩, hPerm⟩
      cases hSome
  | some map =>
      obtain ⟨next, hInsert, hNext⟩ := insertEntry_spec (hSound.hashed map hMap) hPerm hDistinct
      simp only [hInsert, Option.map_some]
      refine ⟨_, rfl, ⟨hSorted, hDistinct, fun other hSome => ?_, hSound.capacity, hLength⟩, hPerm⟩
      obtain rfl := Option.some.inj hSome
      exact hNext

/-- Before the new entry is looked at there is room for it, and the hash table may be created. -/
theorem Sound.grow (hSound : Sound ops table) :
    ∃ grown, (if table.map.isNone ∧ table.enums.length ≥ hashTableThreshold then
        (createHashTable ops table.enums).map fun map =>
          { table with
            setCapacity :=
              if table.enums.length ≥ table.setCapacity then table.setCapacity * 2
              else table.setCapacity
            map := some map }
      else some { table with
        setCapacity :=
          if table.enums.length ≥ table.setCapacity then table.setCapacity * 2
          else table.setCapacity }) = some grown ∧
      Sound ops grown ∧ grown.enums = table.enums ∧ grown.enums.length < grown.setCapacity := by
  have hCapacity := hSound.capacity
  have hRoom := hSound.room
  have hGrown : table.enums.length < (if table.enums.length ≥ table.setCapacity then
      table.setCapacity * 2 else table.setCapacity) := by
    split <;> omega
  have hAll : ∀ map : Option (HashTable Name Nat),
      (∀ some', map = some some' → HashTable.Inv ops some' (nameMap table.enums)) →
      Sound ops { table with
        setCapacity :=
          if table.enums.length ≥ table.setCapacity then table.setCapacity * 2
          else table.setCapacity
        map := map } :=
    fun map hMap => ⟨hSound.sorted, hSound.distinct, hMap, Nat.zero_lt_of_lt hGrown, hGrown.le⟩
  split
  · obtain ⟨map, hCreate, hInv⟩ := @createHashTable_spec Name _ table.enums ops hSound.distinct
    rw [hCreate]
    refine ⟨_, rfl, hAll (some map) fun other hSome => ?_, rfl, hGrown⟩
    obtain rfl := Option.some.inj hSome
    exact hInv
  · exact ⟨_, rfl, hAll table.map hSound.hashed, rfl, hGrown⟩

/-- One call: the entry is added if its value and its name are new, and refused otherwise. -/
theorem Sound.addEnumeration_spec (hSound : Sound ops table) (name : Name) (value : Nat) :
    ∃ next error, table.addEnumeration ops name value = some (next, error) ∧ Sound ops next ∧
      ((error = none ∧ (∀ entry ∈ table.enums, entry.1 ≠ value ∧ entry.2 ≠ name) ∧
          next.enums.Perm ((value, name) :: table.enums)) ∨
        (error ≠ none ∧ (∃ entry ∈ table.enums, entry.1 = value ∨ entry.2 = name) ∧
          next.enums = table.enums)) := by
  obtain ⟨grown, hGrow, hGrown, hSame, hRoom⟩ := hSound.grow
  unfold addEnumeration
  rw [if_neg (Nat.pos_iff_ne_zero.mp hSound.capacity)]
  simp only
  rw [hGrow, Option.bind_some, ← hSame]
  obtain ⟨hBelow, hAbove⟩ := @Search.lowerBound_spec (Nat × Name) Nat _ Prod.fst grown.enums
    hGrown.sorted value
  split
  · rename_i hRepeated
    obtain ⟨_, hAt⟩ := not_or.mp hRepeated
    obtain ⟨entry, hEntry, hLess⟩ : ∃ entry ∈ grown.enums[binarySearch grown.enums value]?,
        ¬ value < entry.1 := by
      simpa using hAt
    have hMem := List.mem_of_getElem? hEntry
    have hDrop : entry ∈ grown.enums.drop (binarySearch grown.enums value) := by
      rw [← List.head?_drop] at hEntry
      exact List.mem_of_mem_head? hEntry
    have hValue : entry.1 = value := Nat.le_antisymm (Nat.not_lt.mp hLess) (hAbove entry hDrop)
    exact ⟨grown, _, rfl, hGrown, .inr ⟨by simp, ⟨entry, hMem, .inl hValue⟩, rfl⟩⟩
  · rename_i hNew
    have hValues : ∀ entry ∈ grown.enums, entry.1 ≠ value := by
      intro entry hMem hValue
      have hAt := (@Search.getElem?_lowerBound (Nat × Name) Nat _ Prod.fst grown.enums
        hGrown.sorted value entry hValue).mpr hMem
      obtain ⟨hIndex, _⟩ := List.getElem?_eq_some_iff.mp hAt
      rcases not_not.mp hNew with hNone | hLess
      · unfold binarySearch at hNone
        omega
      · exact absurd hValue (hLess entry hAt).ne'
    rw [hGrown.enumNameToIndex_eq, Option.bind_some]
    split
    · rename_i hFound
      obtain ⟨other, hOther⟩ := Option.isSome_iff_exists.mp hFound
      have hMem := (linearSearch_eq_some hGrown.distinct).mp hOther
      exact ⟨grown, _, rfl, hGrown, .inr ⟨by simp, ⟨(other, name), hMem, .inr rfl⟩, rfl⟩⟩
    · rename_i hMissing
      have hNames := linearSearch_eq_none.mp (by simpa using hMissing)
      obtain ⟨next, hInsert, hNext, hPerm⟩ := hGrown.insertNewEnum_spec hRoom hValues hNames
      refine ⟨next, none, by rw [hInsert]; rfl, hNext, .inl ⟨rfl, fun entry hMem => ?_, hPerm⟩⟩
      exact ⟨hValues entry hMem, hNames entry hMem⟩

/-- The calls of `add_enumeration` one after the other. -/
def addAll (ops : HashOps Name) (entries : List (Name × Nat)) (table : EnumTable Name) :
    Option (EnumTable Name) :=
  entries.foldlM (fun table entry => (table.addEnumeration ops entry.1 entry.2).map Prod.fst) table

theorem Sound.addAll_spec (hSound : Sound ops table) (entries : List (Name × Nat)) :
    ∃ next, addAll ops entries table = some next ∧ Sound ops next := by
  induction entries generalizing table with
  | nil => exact ⟨table, rfl, hSound⟩
  | cons entry entries ih =>
      obtain ⟨middle, _, hAdd, hMiddle, _⟩ := hSound.addEnumeration_spec entry.1 entry.2
      obtain ⟨next, hRest, hNext⟩ := ih hMiddle
      refine ⟨next, ?_, hNext⟩
      rw [addAll, List.foldlM_cons, hAdd]
      exact hRest

theorem createDynamic_sound (ops : HashOps Name) : Sound ops (createDynamic : EnumTable Name) where
  sorted := List.Pairwise.nil
  distinct := List.nodup_nil
  hashed _ hSome := by cases hSome
  capacity := Nat.succ_pos 3
  room := Nat.zero_le 4

end EnumTable

open EnumTable

/-- After any calls of `add_enumeration`, accepted or refused: the entries are sorted, their names
are distinct, the lookups by value and by name find the entries and nothing else, and the linear
search and the hash table agree. One more call never fails an assertion; it adds its entry if that
is new, and otherwise it is refused and no lookup changes. -/
theorem enumeration_stays_bijective (ops : HashOps Name) (entries : List (Name × Nat)) :
    ∃ table, addAll ops entries createDynamic = some table ∧
      (table.enums.Pairwise fun first second => first.1 < second.1) ∧
      (table.enums.map Prod.snd).Nodup ∧
      (∀ value name, table.enumIndexToName value = some name ↔ (value, name) ∈ table.enums) ∧
      (∀ value name, table.enumNameToIndex ops name = some (some value) ↔
        (value, name) ∈ table.enums) ∧
      (∀ name, table.enumNameToIndex ops name = some (linearSearch table.enums name)) ∧
      ∀ name value, ∃ next error, table.addEnumeration ops name value = some (next, error) ∧
        (error = none ↔ ∀ entry ∈ table.enums, entry.1 ≠ value ∧ entry.2 ≠ name) ∧
        (error = none → next.enums.Perm ((value, name) :: table.enums)) ∧
        (error ≠ none → (∀ other, next.enumIndexToName other = table.enumIndexToName other) ∧
          ∀ other, next.enumNameToIndex ops other = table.enumNameToIndex ops other) := by
  obtain ⟨table, hRun, hSound⟩ := (createDynamic_sound ops).addAll_spec entries
  refine ⟨table, hRun, hSound.sorted, hSound.distinct, fun _ _ => hSound.enumIndexToName_eq_some,
    fun value name => ?_, hSound.enumNameToIndex_eq, fun name value => ?_⟩
  · rw [hSound.enumNameToIndex_eq, Option.some.injEq, linearSearch_eq_some hSound.distinct]
  · obtain ⟨next, error, hAdd, hNext, hAccepted | hRefused⟩ :=
      hSound.addEnumeration_spec name value
    · exact ⟨next, error, hAdd, iff_of_true hAccepted.1 hAccepted.2.1, fun _ => hAccepted.2.2,
        fun hError => absurd hAccepted.1 hError⟩
    · obtain ⟨entry, hMem, hOld⟩ := hRefused.2.1
      have hNotNew : ¬ ∀ entry ∈ table.enums, entry.1 ≠ value ∧ entry.2 ≠ name := fun hAll =>
        hOld.elim (hAll entry hMem).1 (hAll entry hMem).2
      refine ⟨next, error, hAdd, iff_of_false hRefused.1 hNotNew,
        fun hNone => absurd hNone hRefused.1, fun _ => ⟨?_, ?_⟩⟩
      · intro other
        apply Option.ext
        intro label
        rw [hNext.enumIndexToName_eq_some, hSound.enumIndexToName_eq_some, hRefused.2.2]
      · intro other
        rw [hNext.enumNameToIndex_eq, hSound.enumNameToIndex_eq, hRefused.2.2]

def collidingOps : HashOps Nat := { width := 64, wide := by decide, hash := fun name => name % 2 }

/-- Six calls, the fifth of which changes to the hash table and the last of which repeats a name:
the table finds what was added. -/
theorem enumeration_stays_bijective_hashed :
    ∃ table, addAll collidingOps [(10, 3), (12, 1), (14, 0), (16, 7), (11, 5), (12, 9)]
        createDynamic = some table ∧ table.map.isSome = true ∧
      table.enumNameToIndex collidingOps 14 = some (some 0) ∧
      table.enumNameToIndex collidingOps 12 = some (some 1) ∧
      table.enumIndexToName 9 = none := by
  obtain ⟨table, hRun, _, _, hValues, hNames, _⟩ := enumeration_stays_bijective collidingOps
    [(10, 3), (12, 1), (14, 0), (16, 7), (11, 5), (12, 9)]
  have hFacts : (addAll collidingOps [(10, 3), (12, 1), (14, 0), (16, 7), (11, 5), (12, 9)]
      createDynamic).map (fun table => (table.map.isSome, table.enums)) =
      some (true, [(0, 14), (1, 12), (3, 10), (5, 11), (7, 16)]) := by decide +kernel
  rw [hRun, Option.map_some, Option.some.injEq, Prod.mk.injEq] at hFacts
  refine ⟨table, hRun, hFacts.1, (hNames 0 14).mpr ?_, (hNames 1 12).mpr ?_, ?_⟩
  · rw [hFacts.2]
    decide
  · rw [hFacts.2]
    decide
  · refine Option.eq_none_iff_forall_ne_some.mpr fun name hName => ?_
    have hMem := (hValues 9 name).mp hName
    rw [hFacts.2] at hMem
    simp at hMem

end Server
