import PandaBridge.Server.HashTableMap

/-! A table is rebuilt: the new one is a power of two, at most half of it is used, and after each
slot of the old table it has the bindings of the slots so far. -/
namespace Server

namespace HashTable

variable {Key Value : Type} {ops : HashOps Key} {order : Nat}
variable {table : HashTable Key Value} {map : Key → Option (Option Value)} {used deleted : Nat}

/-- A table between two calls. -/
structure Inv (ops : HashOps Key) (table : HashTable Key Value)
    (map : Key → Option (Option Value)) : Prop where
  stores : ∃ order, Stores ops order table map table.entries table.deleted
  room : 3 * table.entries < 2 * table.sizeMask

/-! ### The new size -/

theorem growSize_spec {order minSize : Nat} : ∃ bigger, order ≤ bigger ∧
    growSize (2 ^ order) minSize = 2 ^ bigger ∧ minSize ≤ 2 ^ bigger := by
  obtain ⟨gap, hGap⟩ : ∃ gap, gap = minSize - 2 ^ order := ⟨_, rfl⟩
  induction gap using Nat.strong_induction_on generalizing order with
  | _ gap ih =>
      have hPos : 0 < 2 ^ order := Nat.two_pow_pos order
      rw [growSize]
      by_cases hSmall : 2 ^ order < minSize
      · obtain ⟨bigger, hBigger, hGrow, hEnough⟩ :=
          @ih (minSize - 2 ^ (order + 1)) (by rw [Nat.pow_succ]; omega) (order + 1) rfl
        rw [dif_pos ⟨hPos, hSmall⟩, ← Nat.pow_succ']
        exact ⟨bigger, by omega, hGrow, hEnough⟩
      · rw [dif_neg (fun h => hSmall h.2)]
        exact ⟨order, Nat.le_refl _, rfl, by omega⟩

/-! ### The slots so far -/

/-- The slots before one that hold a key. -/
def fullBelow (ops : HashOps Key) (table : HashTable Key Value) (slot : Nat) : Nat :=
  ((Finset.range slot).filter fun other => ops.emptyEntry (table.table other) = false).card

theorem fullBelow_succ (slot : Nat) : fullBelow ops table (slot + 1) =
    fullBelow ops table slot + if ops.emptyEntry (table.table slot) = false then 1 else 0 := by
  rw [fullBelow, Finset.range_add_one, Finset.filter_insert]
  split_ifs
  · rw [Finset.card_insert_of_notMem (by simp)]
    rfl
  · rfl

/-- All slots that hold a key, with the deleted ones, are those in use. -/
theorem fullBelow_size : fullBelow ops table table.size + table.deletedSlots ops =
    table.usedSlots := by
  simp only [fullBelow, deletedSlots, usedSlots, countHash, Finset.card_filter]
  rw [← Finset.sum_add_distrib]
  refine Finset.sum_congr rfl fun slot _ => ?_
  have hNe : ops.deletedHash ≠ HashOps.emptyHash := deletedHash_ne_emptyHash
  simp only [emptyEntry_eq_false, beq_iff_eq, bne_iff_ne]
  split_ifs <;> simp_all

theorem fullBelow_mono {slot : Nat} (hSlot : slot ≤ table.size) :
    fullBelow ops table slot ≤ fullBelow ops table table.size :=
  Finset.card_le_card (Finset.filter_subset_filter _ (Finset.range_subset_range.mpr hSlot))

open Classical in
/-- The bindings of the slots before one. -/
noncomputable def mapBelow (ops : HashOps Key) (table : HashTable Key Value)
    (map : Key → Option (Option Value)) (slot : Nat) (key : Key) : Option (Option Value) :=
  if ∃ other < slot, table.Holds ops other key then map key else none

theorem mapBelow_zero : mapBelow ops table map 0 = fun _ => none := by
  funext key
  simp [mapBelow]

theorem mapBelow_size (hMap : table.Represents ops map) : mapBelow ops table map table.size = map := by
  funext key
  unfold mapBelow
  split_ifs with hHeld
  · rfl
  · symm
    rw [Option.eq_none_iff_forall_ne_some]
    intro value hBound
    obtain ⟨slot, hSlot, hHolds, -⟩ := (hMap key value).mp hBound
    exact hHeld ⟨slot, hSlot, hHolds⟩

theorem mapBelow_succ_of_empty {slot : Nat} (hEmpty : ops.emptyEntry (table.table slot) = true) :
    mapBelow ops table map (slot + 1) = mapBelow ops table map slot := by
  funext key
  unfold mapBelow
  congr 1
  refine propext ⟨?_, fun ⟨other, hOther, hHolds⟩ => ⟨other, by omega, hHolds⟩⟩
  rintro ⟨other, hOther, hHolds⟩
  have hNe : other ≠ slot := by
    rintro rfl
    exact Bool.noConfusion (hEmpty.symm.trans hHolds.1)
  exact ⟨other, by omega, hHolds⟩

variable [DecidableEq Key]

theorem mapBelow_succ_of_holds (hMap : table.Represents ops map) {slot : Nat}
    (hSlot : slot < table.size) {key : Key} (hHolds : table.Holds ops slot key) :
    mapBelow ops table map (slot + 1) =
      Function.update (mapBelow ops table map slot) key (some (table.table slot).value) := by
  funext other
  by_cases hKey : other = key
  · subst hKey
    rw [Function.update_self, mapBelow, if_pos ⟨slot, by omega, hHolds⟩]
    exact (hMap other _).mpr ⟨slot, hSlot, hHolds, rfl⟩
  · rw [Function.update_of_ne hKey]
    unfold mapBelow
    congr 1
    refine propext ⟨?_, fun ⟨held, hHeld, hOther⟩ => ⟨held, by omega, hOther⟩⟩
    rintro ⟨held, hHeld, hOther⟩
    have hNe : held ≠ slot := by
      rintro rfl
      exact hKey (Option.some.inj (hOther.2.symm.trans hHolds.2))
    exact ⟨held, by omega, hOther⟩

/-! ### The rebuild -/

theorem moveEntry_spec (hStores : Stores ops order table map used deleted) {slot newOrder : Nat}
    (hSlot : slot < table.size) {next : HashTable Key Value}
    (hNext : Stores ops newOrder next (mapBelow ops table map slot) (fullBelow ops table slot) 0)
    (hRoom : fullBelow ops table slot < next.size) :
    ∃ after, moveEntry ops (table.table slot) next = some after ∧
      Stores ops newOrder after (mapBelow ops table map (slot + 1))
        (fullBelow ops table (slot + 1)) 0 ∧
      after.sizeMask = next.sizeMask ∧ after.entries = next.entries ∧
      after.deleted = next.deleted := by
  cases hEmpty : ops.emptyEntry (table.table slot) with
  | true =>
      refine ⟨next, ?_, ?_, rfl, rfl, rfl⟩
      · unfold moveEntry
        rw [hEmpty]
      · rw [mapBelow_succ_of_empty hEmpty, fullBelow_succ, if_neg (by simp [hEmpty])]
        exact hNext
  | false =>
      obtain ⟨key, hKey, hHash⟩ := hStores.sound.keyed slot hSlot hEmpty
      have hHolds : table.Holds ops slot key := ⟨hEmpty, hKey⟩
      have hFresh : mapBelow ops table map slot key = none := by
        refine if_neg ?_
        rintro ⟨other, hOther, hHeld⟩
        have hSame := hStores.sound.unique other (by omega) slot hSlot key hHeld hHolds
        omega
      obtain ⟨place, hPlace, found, hLookup, hBound, hVacant, -, hFits⟩ := hNext.lookup hRoom key
      obtain rfl : found = false := by
        by_contra hFound
        rw [if_pos (by simpa using hFound), hFresh] at hBound
        exact Option.some_ne_none _ hBound.symm
      obtain ⟨hVacant, -⟩ := hVacant rfl
      -- nothing is ever deleted from the new table
      have hUnused : (next.table place).hash = HashOps.emptyHash := by
        obtain hUnused | hDeleted := emptyEntry_eq_true.mp hVacant
        · exact hUnused
        · have hPos := deletedSlots_pos hPlace hDeleted
          rw [hNext.deletedSlots] at hPos
          omega
      have hPut := hNext.put hPlace (hFits (table.table slot).value)
        (fun other hHeld => absurd hHeld.1 (by simp [hVacant]))
      rw [if_pos hUnused, if_neg (by rw [hUnused]; exact deletedHash_ne_emptyHash.symm),
        ← mapBelow_succ_of_holds hStores.represents hSlot hHolds] at hPut
      have hMove : moveEntry ops (table.table slot) next = some (next.setEntry place
          { hash := ops.computeHash key, key := some key, value := (table.table slot).value }) := by
        unfold moveEntry
        rw [hEmpty, hKey, hHash]
        simp only [hLookup, Option.map_some]
      refine ⟨_, hMove, ?_, rfl, rfl, rfl⟩
      rw [fullBelow_succ, if_pos hEmpty]
      exact hPut

theorem move_slots (hStores : Stores ops order table map used deleted) {newOrder slots : Nat}
    (hSlots : slots ≤ table.size) {next : HashTable Key Value}
    (hNext : Stores ops newOrder next (fun _ => none) 0 0)
    (hRoom : fullBelow ops table table.size < next.size) :
    ∃ after, (List.range slots).foldlM
        (fun next place => moveEntry ops (table.table place) next) next = some after ∧
      Stores ops newOrder after (mapBelow ops table map slots) (fullBelow ops table slots) 0 ∧
      after.sizeMask = next.sizeMask ∧ after.entries = next.entries ∧
      after.deleted = next.deleted := by
  induction slots with
  | zero =>
      refine ⟨next, rfl, ?_, rfl, rfl, rfl⟩
      rw [mapBelow_zero]
      exact hNext
  | succ slots ih =>
      obtain ⟨before, hBefore, hHas, hMask, hEntries, hDeleted⟩ := ih (by omega)
      have hFew : fullBelow ops table slots < before.size := by
        rw [size, hMask]
        exact (fullBelow_mono (by omega)).trans_lt hRoom
      obtain ⟨after, hMove, hAfter, hMask', hEntries', hDeleted'⟩ :=
        moveEntry_spec hStores (by omega) hHas hFew
      refine ⟨after, ?_, hAfter, hMask'.trans hMask, hEntries'.trans hEntries,
        hDeleted'.trans hDeleted⟩
      rw [List.range_succ, List.foldlM_append, hBefore]
      simpa using hMove

omit [DecidableEq Key] in
theorem stores_blank {mask : Nat} (entries gone : Nat) (hMask : mask + 1 = 2 ^ order) :
    Stores ops order
      ({ entries := entries, deleted := gone, sizeMask := mask, table := fun _ => blankEntry } :
        HashTable Key Value) (fun _ => none) 0 0 := by
  have hEmpty : ops.emptyEntry (blankEntry : TableEntry Key Value) = true := by
    simp [HashOps.emptyEntry, blankEntry]
  have hBlank : (blankEntry : TableEntry Key Value).hash = HashOps.emptyHash := rfl
  refine ⟨⟨hMask, ?_, fun _ _ _ => rfl, ?_, ?_⟩, ?_, ?_, ?_⟩
  · intro slot _ hFull
    exact Bool.noConfusion (hEmpty.symm.trans hFull)
  · intro slot _ other _ key hHolds
    exact Bool.noConfusion (hEmpty.symm.trans hHolds.1)
  · intro slot _ key hHolds
    exact Bool.noConfusion (hEmpty.symm.trans hHolds.1)
  · intro key value
    simp only [reduceCtorEq, false_iff]
    rintro ⟨slot, -, hHolds, -⟩
    exact Bool.noConfusion (hEmpty.symm.trans hHolds.1)
  · simp [usedSlots, countHash, hBlank]
  · simp [deletedSlots, countHash, hBlank, deletedHash_ne_emptyHash.symm]

theorem resizeTable_spec
    (hStores : Stores ops order table map table.entries table.deleted) (minSize : Nat) :
    ∃ next, resizeTable ops table minSize = some next ∧ Inv ops next map := by
  obtain ⟨newOrder, hOrder, hGrow, hEnough⟩ :=
    @growSize_spec 3 (max minSize (2 * (table.entries - table.deleted)))
  have hFull : fullBelow ops table table.size = table.entries - table.deleted := by
    have hCount := @fullBelow_size Key Value ops table
    rw [hStores.deletedSlots, hStores.usedSlots] at hCount
    omega
  have hEight : 2 ^ 3 ≤ 2 ^ newOrder := Nat.pow_le_pow_right (by decide) hOrder
  have hHalf : 2 * (table.entries - table.deleted) ≤ 2 ^ newOrder :=
    (le_max_right _ _).trans hEnough
  have hMask : 2 ^ newOrder - 1 + 1 = 2 ^ newOrder := by omega
  have hRoom : fullBelow ops table table.size < 2 ^ newOrder - 1 + 1 := by omega
  obtain ⟨next, hFold, hNext, hSize, hEntries, hDeleted⟩ := move_slots hStores (Nat.le_refl _)
    (stores_blank (table.entries - table.deleted) 0 hMask) hRoom
  refine ⟨next, ?_, ⟨newOrder, ?_⟩, ?_⟩
  · unfold resizeTable
    simp only [show initialSize = 2 ^ 3 from rfl, hGrow]
    exact hFold
  · rw [mapBelow_size hStores.represents, hFull] at hNext
    rw [hEntries, hDeleted]
    exact hNext
  · rw [hEntries, hSize]
    simp only
    omega

end HashTable

end Server
