import Mathlib.Algebra.BigOperators.Group.Finset.Basic
import Mathlib.Algebra.Order.BigOperators.Group.Finset
import PandaBridge.Server.HashTableSlots

/-! What the slots stand for: a map from keys to values, with the number of the slots that are
not unused and of those that are deleted. Each change of one slot is one change of the map. -/
namespace Server

namespace HashTable

variable {Key Value : Type} (ops : HashOps Key)

/-- The bindings of the table are those of the map. A bound value may itself be null. -/
def Represents (table : HashTable Key Value) (map : Key → Option (Option Value)) : Prop :=
  ∀ key value, map key = some value ↔
    ∃ slot < table.size, table.Holds ops slot key ∧ (table.table slot).value = value

/-- How many slots have a hash that meets the condition. -/
def countHash (table : HashTable Key Value) (condition : Nat → Bool) : Nat :=
  ((Finset.range table.size).filter fun slot => condition (table.table slot).hash).card

def usedSlots (table : HashTable Key Value) : Nat := table.countHash (· != HashOps.emptyHash)

def deletedSlots (table : HashTable Key Value) : Nat := table.countHash (· == ops.deletedHash)

/-- The slots with what they stand for. -/
structure Stores (order : Nat) (table : HashTable Key Value) (map : Key → Option (Option Value))
    (used deleted : Nat) : Prop where
  sound : table.Sound ops order
  represents : table.Represents ops map
  usedSlots : table.usedSlots = used
  deletedSlots : table.deletedSlots ops = deleted

variable {ops} {order : Nat} {table : HashTable Key Value} {map : Key → Option (Option Value)}
variable {slot : Nat} {entry : TableEntry Key Value}

/-! ### One slot changes -/

@[simp] theorem setEntry_size : (table.setEntry slot entry).size = table.size := rfl

@[simp] theorem setEntry_place (hash step : Nat) :
    (table.setEntry slot entry).place hash step = table.place hash step := rfl

@[simp] theorem setEntry_self : (table.setEntry slot entry).table slot = entry := by
  simp [setEntry]

theorem setEntry_of_ne {other : Nat} (h : other ≠ slot) :
    (table.setEntry slot entry).table other = table.table other := by
  simp [setEntry, h]

theorem Passes.setEntry {hash step : Nat} (hPasses : table.Passes hash step)
    (hEntry : entry.hash ≠ HashOps.emptyHash) : (table.setEntry slot entry).Passes hash step := by
  intro earlier hEarlier
  rw [setEntry_place]
  by_cases hSame : table.place hash earlier = slot
  · rw [hSame, setEntry_self]
    exact hEntry
  · rw [setEntry_of_ne hSame]
    exact hPasses earlier hEarlier

theorem holds_setEntry_self {key : Key} : (table.setEntry slot entry).Holds ops slot key ↔
    ops.emptyEntry entry = false ∧ entry.key = some key := by
  rw [Holds, setEntry_self]

theorem holds_setEntry_of_ne {other : Nat} (h : other ≠ slot) {key : Key} :
    (table.setEntry slot entry).Holds ops other key ↔ table.Holds ops other key := by
  rw [Holds, setEntry_of_ne h, Holds]

/-- A key may stand in a slot: it has its hash, no other slot has the key, and a lookup of it
comes this far. -/
structure Fits (ops : HashOps Key) (table : HashTable Key Value) (slot : Nat)
    (entry : TableEntry Key Value) (key : Key) : Prop where
  named : entry.key = some key
  hash : entry.hash = ops.computeHash key
  alone : ∀ other < table.size, table.Holds ops other key → other = slot
  reach : ∃ step, table.place (ops.computeHash key) step = slot ∧
    table.Passes (ops.computeHash key) step

theorem Fits.emptyEntry {key : Key} (hFits : Fits ops table slot entry key) :
    ops.emptyEntry entry = false := by
  rw [emptyEntry_eq_false, hFits.hash]
  exact computeHash_ne key

/-- A slot may get a key that fits, or be marked as deleted. -/
theorem Sound.setEntry (hSound : table.Sound ops order)
    (hEntry : (entry.hash = ops.deletedHash ∧ entry.value = none) ∨
      ∃ key, Fits ops table slot entry key) : (table.setEntry slot entry).Sound ops order := by
  have hNonempty : entry.hash ≠ HashOps.emptyHash := by
    obtain ⟨hDeleted, -⟩ | ⟨key, hFits⟩ := hEntry
    · rw [hDeleted]
      exact deletedHash_ne_emptyHash
    · exact (emptyEntry_eq_false.mp hFits.emptyEntry).1
  -- whatever key the new entry holds, it fits
  have hHeld : ∀ key, (table.setEntry slot entry).Holds ops slot key →
      Fits ops table slot entry key := by
    intro key hHolds
    rw [holds_setEntry_self] at hHolds
    obtain ⟨hDeleted, -⟩ | ⟨other, hFits⟩ := hEntry
    · exact absurd hDeleted (emptyEntry_eq_false.mp hHolds.1).2
    · obtain rfl : other = key := Option.some.inj (hFits.named.symm.trans hHolds.2)
      exact hFits
  refine ⟨hSound.size, ?_, ?_, ?_, ?_⟩
  · intro other hOther hFull
    by_cases hSame : other = slot
    · subst hSame
      rw [setEntry_self] at hFull ⊢
      obtain ⟨hDeleted, -⟩ | ⟨key, hFits⟩ := hEntry
      · exact absurd hDeleted (emptyEntry_eq_false.mp hFull).2
      · exact ⟨key, hFits.named, hFits.hash⟩
    · rw [setEntry_of_ne hSame] at hFull ⊢
      exact hSound.keyed other hOther hFull
  · intro other hOther hVacant
    by_cases hSame : other = slot
    · subst hSame
      rw [setEntry_self] at hVacant ⊢
      obtain ⟨-, hNull⟩ | ⟨key, hFits⟩ := hEntry
      · exact hNull
      · exact absurd hVacant (by simp [hFits.emptyEntry])
    · rw [setEntry_of_ne hSame] at hVacant ⊢
      exact hSound.null other hOther hVacant
  · intro first hFirst second hSecond key hHoldsFirst hHoldsSecond
    by_cases hSame : first = slot
    · subst hSame
      by_contra hNe
      have hFits := hHeld key hHoldsFirst
      rw [holds_setEntry_of_ne (Ne.symm hNe)] at hHoldsSecond
      exact hNe (hFits.alone second hSecond hHoldsSecond).symm
    · rw [holds_setEntry_of_ne hSame] at hHoldsFirst
      by_cases hOther : second = slot
      · subst hOther
        exact (hHeld key hHoldsSecond).alone first hFirst hHoldsFirst
      · rw [holds_setEntry_of_ne hOther] at hHoldsSecond
        exact hSound.unique first hFirst second hSecond key hHoldsFirst hHoldsSecond
  · intro other hOther key hHolds
    by_cases hSame : other = slot
    · subst hSame
      obtain ⟨step, hPlace, hPasses⟩ := (hHeld key hHolds).reach
      exact ⟨step, hPlace, hPasses.setEntry hNonempty⟩
    · rw [holds_setEntry_of_ne hSame] at hHolds
      obtain ⟨step, hPlace, hPasses⟩ := hSound.reach other hOther key hHolds
      exact ⟨step, hPlace, hPasses.setEntry hNonempty⟩

variable [DecidableEq Key]

/-- A key that is put into a vacant slot, or into its own, is bound to the new value. -/
theorem Represents.setEntry (hMap : table.Represents ops map) (hSlot : slot < table.size) {key : Key}
    (hFits : Fits ops table slot entry key)
    (hRoom : ∀ other, table.Holds ops slot other → other = key) :
    (table.setEntry slot entry).Represents ops (Function.update map key (some entry.value)) := by
  have hSelf : (table.setEntry slot entry).Holds ops slot key :=
    holds_setEntry_self.mpr ⟨hFits.emptyEntry, hFits.named⟩
  intro other value
  by_cases hKey : other = key
  · subst hKey
    rw [Function.update_self, Option.some.injEq]
    constructor
    · intro hValue
      exact ⟨slot, hSlot, hSelf, by rw [setEntry_self, hValue]⟩
    · rintro ⟨held, hHeld, hHolds, hValue⟩
      obtain rfl : held = slot := by
        by_contra hNe
        rw [holds_setEntry_of_ne hNe] at hHolds
        exact hNe (hFits.alone held hHeld hHolds)
      rw [setEntry_self] at hValue
      exact hValue
  · rw [Function.update_of_ne hKey, hMap]
    constructor
    · rintro ⟨held, hHeld, hHolds, hValue⟩
      have hNe : held ≠ slot := by
        rintro rfl
        exact hKey (hRoom other hHolds)
      exact ⟨held, hHeld, (holds_setEntry_of_ne hNe).mpr hHolds, by rw [setEntry_of_ne hNe, hValue]⟩
    · rintro ⟨held, hHeld, hHolds, hValue⟩
      have hNe : held ≠ slot := by
        rintro rfl
        have hOther := (holds_setEntry_self.mp hHolds).2
        exact hKey (Option.some.inj (hOther.symm.trans hFits.named))
      exact ⟨held, hHeld, (holds_setEntry_of_ne hNe).mp hHolds, by rw [← hValue, setEntry_of_ne hNe]⟩

/-- A key whose slot is marked as deleted is not bound any more. -/
theorem Represents.setEntry_deleted (hMap : table.Represents ops map)
    (hSound : table.Sound ops order) (hSlot : slot < table.size) {key : Key}
    (hHeld : table.Holds ops slot key) (hEntry : entry.hash = ops.deletedHash) :
    (table.setEntry slot entry).Represents ops (Function.update map key none) := by
  have hNone : ∀ other, ¬ (table.setEntry slot entry).Holds ops slot other := by
    intro other hHolds
    exact (emptyEntry_eq_false.mp (holds_setEntry_self.mp hHolds).1).2 hEntry
  intro other value
  by_cases hKey : other = key
  · subst hKey
    simp only [Function.update_self, reduceCtorEq, false_iff]
    rintro ⟨held, hLt, hHolds, -⟩
    by_cases hNe : held = slot
    · exact hNone other (hNe ▸ hHolds)
    · rw [holds_setEntry_of_ne hNe] at hHolds
      exact hNe (hSound.unique held hLt slot hSlot other hHolds hHeld)
  · rw [Function.update_of_ne hKey, hMap]
    constructor
    · rintro ⟨held, hLt, hHolds, hValue⟩
      have hNe : held ≠ slot := by
        rintro rfl
        exact hKey (Option.some.inj (hHolds.2.symm.trans hHeld.2))
      exact ⟨held, hLt, (holds_setEntry_of_ne hNe).mpr hHolds, by rw [setEntry_of_ne hNe, hValue]⟩
    · rintro ⟨held, hLt, hHolds, hValue⟩
      have hNe : held ≠ slot := by
        rintro rfl
        exact hNone other hHolds
      exact ⟨held, hLt, (holds_setEntry_of_ne hNe).mp hHolds, by rw [← hValue, setEntry_of_ne hNe]⟩

/-! ### Counts -/

omit [DecidableEq Key] in
theorem countHash_setEntry (condition : Nat → Bool) (hSlot : slot < table.size) :
    (table.setEntry slot entry).countHash condition +
        (if condition (table.table slot).hash then 1 else 0) =
      table.countHash condition + if condition entry.hash then 1 else 0 := by
  have hMem : slot ∈ Finset.range table.size := Finset.mem_range.mpr hSlot
  simp only [countHash, setEntry_size, Finset.card_filter]
  rw [← Finset.add_sum_erase _ _ hMem, ← Finset.add_sum_erase _ _ hMem, setEntry_self]
  have hRest : ∑ other ∈ (Finset.range table.size).erase slot,
        (if condition ((table.setEntry slot entry).table other).hash then 1 else 0) =
      ∑ other ∈ (Finset.range table.size).erase slot,
        if condition (table.table other).hash then 1 else 0 := by
    refine Finset.sum_congr rfl fun other hOther => ?_
    rw [setEntry_of_ne (Finset.ne_of_mem_erase hOther)]
  rw [hRest]
  omega

omit [DecidableEq Key] in
theorem exists_unused (hRoom : table.usedSlots < table.size) :
    ∃ free < table.size, (table.table free).hash = HashOps.emptyHash := by
  by_contra hNone
  have hAll : table.usedSlots = table.size := by
    rw [usedSlots, countHash, Finset.filter_true_of_mem, Finset.card_range]
    intro slot hSlot
    rw [bne_iff_ne]
    exact fun hUnused => hNone ⟨slot, Finset.mem_range.mp hSlot, hUnused⟩
  omega

omit [DecidableEq Key] in
theorem deletedSlots_pos (hSlot : slot < table.size)
    (hDeleted : (table.table slot).hash = ops.deletedHash) : 0 < table.deletedSlots ops := by
  unfold deletedSlots countHash
  refine Finset.card_pos.mpr ⟨slot, ?_⟩
  simp [hSlot, hDeleted]

omit [DecidableEq Key] in
theorem usedSlots_setEntry (hSlot : slot < table.size) (hEntry : entry.hash ≠ HashOps.emptyHash) :
    (table.setEntry slot entry).usedSlots =
      if (table.table slot).hash = HashOps.emptyHash then table.usedSlots + 1
      else table.usedSlots := by
  have hCount := @countHash_setEntry _ _ table slot entry (· != HashOps.emptyHash) hSlot
  simp only [bne_iff_ne, ne_eq, hEntry, not_false_eq_true, if_true] at hCount
  unfold usedSlots
  split_ifs at hCount ⊢ <;> omega

omit [DecidableEq Key] in
theorem deletedSlots_setEntry (hSlot : slot < table.size) (hEntry : entry.hash ≠ ops.deletedHash) :
    (table.setEntry slot entry).deletedSlots ops =
      if (table.table slot).hash = ops.deletedHash then table.deletedSlots ops - 1
      else table.deletedSlots ops := by
  have hCount := @countHash_setEntry _ _ table slot entry (· == ops.deletedHash) hSlot
  simp only [beq_iff_eq, hEntry, if_false] at hCount
  unfold deletedSlots
  split_ifs at hCount ⊢ <;> omega

omit [DecidableEq Key] in
theorem deletedSlots_setEntry_deleted (hSlot : slot < table.size)
    (hHeld : (table.table slot).hash ≠ ops.deletedHash) (hEntry : entry.hash = ops.deletedHash) :
    (table.setEntry slot entry).deletedSlots ops = table.deletedSlots ops + 1 := by
  have hCount := @countHash_setEntry _ _ table slot entry (· == ops.deletedHash) hSlot
  simp only [beq_iff_eq, hEntry, hHeld, if_false, if_true] at hCount
  exact hCount

/-! ### The three changes -/

variable {used deleted : Nat}

theorem Stores.put (hStores : Stores ops order table map used deleted) (hSlot : slot < table.size)
    {key : Key} (hFits : Fits ops table slot entry key)
    (hRoom : ∀ other, table.Holds ops slot other → other = key) :
    Stores ops order (table.setEntry slot entry) (Function.update map key (some entry.value))
      (if (table.table slot).hash = HashOps.emptyHash then used + 1 else used)
      (if (table.table slot).hash = ops.deletedHash then deleted - 1 else deleted) := by
  obtain ⟨hNonempty, hNotDeleted⟩ := emptyEntry_eq_false.mp hFits.emptyEntry
  refine ⟨hStores.sound.setEntry (.inr ⟨key, hFits⟩),
    hStores.represents.setEntry hSlot hFits hRoom, ?_, ?_⟩
  · rw [usedSlots_setEntry hSlot hNonempty, hStores.usedSlots]
  · rw [deletedSlots_setEntry hSlot hNotDeleted, hStores.deletedSlots]

theorem Stores.remove (hStores : Stores ops order table map used deleted) (hSlot : slot < table.size)
    {key : Key} (hHeld : table.Holds ops slot key) (hEntry : entry.hash = ops.deletedHash)
    (hNull : entry.value = none) :
    Stores ops order (table.setEntry slot entry) (Function.update map key none) used
      (deleted + 1) := by
  obtain ⟨hNonempty, hNotDeleted⟩ := emptyEntry_eq_false.mp hHeld.1
  refine ⟨hStores.sound.setEntry (.inl ⟨hEntry, hNull⟩),
    hStores.represents.setEntry_deleted hStores.sound hSlot hHeld hEntry, ?_, ?_⟩
  · rw [usedSlots_setEntry hSlot (hEntry ▸ deletedHash_ne_emptyHash), if_neg hNonempty,
      hStores.usedSlots]
  · rw [deletedSlots_setEntry_deleted hSlot hNotDeleted hEntry, hStores.deletedSlots]

omit [DecidableEq Key] in
theorem Stores.withCounts (hStores : Stores ops order table map used deleted) (entries gone : Nat) :
    Stores ops order { table with entries := entries, deleted := gone } map used deleted :=
  ⟨⟨hStores.sound.size, hStores.sound.keyed, hStores.sound.null, hStores.sound.unique,
    hStores.sound.reach⟩, hStores.represents, hStores.usedSlots, hStores.deletedSlots⟩

theorem Stores.lookup (hStores : Stores ops order table map used deleted)
    (hRoom : used < table.size) (key : Key) :
    ∃ slot < table.size, ∃ found, HashTable.lookup ops table key (ops.computeHash key) =
        some (slot, found) ∧ map key = (if found then some (table.table slot).value else none) ∧
      (found = false → ops.emptyEntry (table.table slot) = true ∧ (table.table slot).value = none) ∧
      (found = true → table.Holds ops slot key) ∧
      ∀ value, Fits ops table slot { hash := ops.computeHash key, key := some key, value } key := by
  obtain ⟨free, hFree, hUnused⟩ := exists_unused (hStores.usedSlots ▸ hRoom)
  obtain ⟨slot, hSlot, hLookup, hHolds⟩ | ⟨step, hLookup, hVacant, hPasses, hNone⟩ :=
    lookup_spec hStores.sound hFree hUnused key
  · refine ⟨slot, hSlot, true, hLookup, ?_, by simp, fun _ => hHolds, fun value => ⟨rfl, rfl, ?_, ?_⟩⟩
    · exact (hStores.represents key _).mpr ⟨slot, hSlot, hHolds, rfl⟩
    · intro other hOther hHeld
      exact hStores.sound.unique other hOther slot hSlot key hHeld hHolds
    · exact hStores.sound.reach slot hSlot key hHolds
  · refine ⟨_, place_lt _ _, false, hLookup, ?_,
      fun _ => ⟨hVacant, hStores.sound.null _ (place_lt _ _) hVacant⟩, by simp,
      fun value => ⟨rfl, rfl, fun other hOther hHeld => absurd hHeld (hNone other hOther),
        step, rfl, hPasses⟩⟩
    rw [if_neg (by simp), Option.eq_none_iff_forall_ne_some]
    intro value hBound
    obtain ⟨slot, hSlot, hHolds, -⟩ := (hStores.represents key value).mp hBound
    exact hNone slot hSlot hHolds

end HashTable

end Server
