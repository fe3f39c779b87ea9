import PandaBridge.Server.HashTable

/-! Where a key stands. The slots before the one of a key, in the order in which that key is
looked for, are never unused: so a lookup does not stop too early, whatever was deleted. -/
namespace Server

namespace HashTable

variable {Key Value : Type} (ops : HashOps Key)

/-- The slot that step `step` of a lookup looks at. -/
def place (table : HashTable Key Value) (hash step : Nat) : Nat := Probe.index hash step % table.size

/-- The slot holds this key. -/
def Holds (table : HashTable Key Value) (slot : Nat) (key : Key) : Prop :=
  ops.emptyEntry (table.table slot) = false ∧ (table.table slot).key = some key

/-- The slots that a lookup of the hash passes before a step are in use or deleted. -/
def Passes (table : HashTable Key Value) (hash step : Nat) : Prop :=
  ∀ earlier < step, (table.table (table.place hash earlier)).hash ≠ HashOps.emptyHash

/-- The slots of a table of `2 ^ order`. -/
structure Sound (order : Nat) (table : HashTable Key Value) : Prop where
  size : table.size = 2 ^ order
  keyed : ∀ slot < table.size, ops.emptyEntry (table.table slot) = false →
    ∃ key, (table.table slot).key = some key ∧ (table.table slot).hash = ops.computeHash key
  null : ∀ slot < table.size, ops.emptyEntry (table.table slot) = true →
    (table.table slot).value = none
  unique : ∀ slot < table.size, ∀ other < table.size, ∀ key,
    table.Holds ops slot key → table.Holds ops other key → slot = other
  reach : ∀ slot < table.size, ∀ key, table.Holds ops slot key →
    ∃ step, table.place (ops.computeHash key) step = slot ∧
      table.Passes (ops.computeHash key) step

section Hashes

variable {ops}

theorem four_le_two_pow (ops : HashOps Key) : 4 ≤ 2 ^ ops.width := by
  have hPow : 2 ^ 2 ≤ 2 ^ ops.width := Nat.pow_le_pow_right (by decide) ops.wide
  omega

theorem computeHash_lt (key : Key) : ops.computeHash key < 2 ^ ops.width := by
  have hPow := four_le_two_pow ops
  unfold HashOps.computeHash
  simp only
  split_ifs
  · omega
  · exact Nat.mod_lt _ (by omega)

theorem computeHash_ne (key : Key) :
    ops.computeHash key ≠ HashOps.emptyHash ∧ ops.computeHash key ≠ ops.deletedHash := by
  have hPow := four_le_two_pow ops
  unfold HashOps.computeHash
  simp only
  split_ifs with hReserved
  · simp only [HashOps.emptyHash, HashOps.deletedHash]
    omega
  · exact not_or.mp hReserved

theorem emptyEntry_eq_false {entry : TableEntry Key Value} :
    ops.emptyEntry entry = false ↔
      entry.hash ≠ HashOps.emptyHash ∧ entry.hash ≠ ops.deletedHash := by
  simp [HashOps.emptyEntry]

theorem emptyEntry_eq_true {entry : TableEntry Key Value} :
    ops.emptyEntry entry = true ↔
      entry.hash = HashOps.emptyHash ∨ entry.hash = ops.deletedHash := by
  simp [HashOps.emptyEntry]

theorem deletedHash_ne_emptyHash : ops.deletedHash ≠ HashOps.emptyHash := by
  have hPow := four_le_two_pow ops
  simp only [HashOps.emptyHash, HashOps.deletedHash]
  omega

end Hashes

variable {ops} {order : Nat} {table : HashTable Key Value}

/-! ### The loop -/

theorem and_sizeMask (hSize : table.size = 2 ^ order) (ix : Nat) :
    ix &&& table.sizeMask = ix % table.size := by
  have hMask : table.sizeMask = 2 ^ order - 1 := by
    rw [← hSize, size]
    rfl
  rw [hMask, Nat.and_two_pow_sub_one_eq_mod, hSize]

theorem place_lt (hash step : Nat) : table.place hash step < table.size :=
  Nat.mod_lt _ (Nat.succ_pos _)

variable [DecidableEq Key]

/-- The lookup ends at this step: the key is there, or the slot is unused. -/
def Stops (table : HashTable Key Value) (key : Key) (hash step : Nat) : Prop :=
  ((table.table (table.place hash step)).hash = hash ∧
    (table.table (table.place hash step)).key = some key) ∨
  (table.table (table.place hash step)).hash = HashOps.emptyHash

/-- Where the loop ends: at the first step that stops it. What it has met of deleted slots is
where a new key goes. -/
theorem lookupLoop_eq (hSize : table.size = 2 ^ order) {key : Key} {hash last : Nat}
    (hStops : table.Stops key hash last)
    (hPasses : ∀ step < last, ¬ table.Stops key hash step) {rounds step : Nat}
    (hStep : step ≤ last) (hRounds : last < step + rounds) {deletedEntry : Option Nat}
    (hDeleted : ∀ slot, deletedEntry = some slot → ∃ earlier < step,
      slot = table.place hash earlier ∧ (table.table slot).hash = ops.deletedHash) :
    lookupLoop ops table key hash rounds (Probe.perturb hash step) (Probe.index hash step)
        deletedEntry = some (table.place hash last, true) ∧
      (table.table (table.place hash last)).hash = hash ∧
      (table.table (table.place hash last)).key = some key ∨
    ∃ found ≤ last, lookupLoop ops table key hash rounds (Probe.perturb hash step)
        (Probe.index hash step) deletedEntry = some (table.place hash found, false) ∧
      ops.emptyEntry (table.table (table.place hash found)) = true ∧
      (table.table (table.place hash last)).hash = HashOps.emptyHash := by
  induction rounds generalizing step deletedEntry with
  | zero => omega
  | succ rounds ih =>
      have hPlace : Probe.index hash step &&& table.sizeMask = table.place hash step :=
        and_sizeMask hSize _
      simp only [lookupLoop, hPlace]
      by_cases hMatch : (table.table (table.place hash step)).hash = hash ∧
          (table.table (table.place hash step)).key = some key
      · obtain rfl : step = last := by
          by_contra hNe
          exact hPasses step (by omega) (.inl hMatch)
        rw [if_pos hMatch]
        exact .inl ⟨rfl, hMatch⟩
      · rw [if_neg hMatch]
        by_cases hEmpty : (table.table (table.place hash step)).hash = HashOps.emptyHash
        · obtain rfl : step = last := by
            by_contra hNe
            exact hPasses step (by omega) (.inr hEmpty)
          rw [if_pos hEmpty]
          right
          cases deletedEntry with
          | none => exact ⟨step, Nat.le_refl _, rfl, emptyEntry_eq_true.mpr (.inl hEmpty), hEmpty⟩
          | some slot =>
              obtain ⟨earlier, hEarlier, rfl, hHash⟩ := hDeleted slot rfl
              exact ⟨earlier, by omega, rfl, emptyEntry_eq_true.mpr (.inr hHash), hEmpty⟩
        · rw [if_neg hEmpty]
          have hNext : step ≠ last := by
            rintro rfl
            exact hStops.elim hMatch hEmpty
          have hPerturb : Probe.perturb hash step >>> 5 = Probe.perturb hash (step + 1) := by
            rw [Probe.perturb, Probe.perturb, Nat.shiftRight_eq_div_pow, Nat.div_div_eq_div_mul,
              Nat.pow_succ]
            rfl
          have hIndex : 1 + 5 * Probe.index hash step + Probe.perturb hash step >>> 5 =
              Probe.index hash (step + 1) := by
            rw [hPerturb]
            rfl
          rw [hIndex, hPerturb]
          refine ih (by omega) (by omega) fun slot hSlot => ?_
          split_ifs at hSlot with hFresh
          · obtain rfl := Option.some.inj hSlot
            exact ⟨step, by omega, rfl, hFresh.1⟩
          · obtain ⟨earlier, hEarlier, hRest⟩ := hDeleted slot hSlot
            exact ⟨earlier, by omega, hRest⟩

/-- What a lookup comes to as long as a slot is unused: the slot of the key, or a slot where the
key can be put. -/
theorem lookup_spec (hSound : table.Sound ops order) {free : Nat} (hFree : free < table.size)
    (hUnused : (table.table free).hash = HashOps.emptyHash) (key : Key) :
    (∃ slot < table.size, lookup ops table key (ops.computeHash key) = some (slot, true) ∧
      table.Holds ops slot key) ∨
    ∃ step, lookup ops table key (ops.computeHash key) =
        some (table.place (ops.computeHash key) step, false) ∧
      ops.emptyEntry (table.table (table.place (ops.computeHash key) step)) = true ∧
      table.Passes (ops.computeHash key) step ∧ ∀ slot < table.size, ¬ table.Holds ops slot key := by
  classical
  have hHash : ops.computeHash key < 2 ^ ops.width := computeHash_lt key
  obtain ⟨step, hStep, hVisit⟩ := Probe.exists_index hHash (hSound.size ▸ hFree)
  have hPlace : table.place (ops.computeHash key) step = free := by
    rw [place, hSound.size, hVisit]
  have hSome : ∃ step, table.Stops key (ops.computeHash key) step :=
    ⟨step, .inr (by rw [hPlace, hUnused])⟩
  have hLast := Nat.find_spec hSome
  have hPasses : ∀ earlier < Nat.find hSome, ¬ table.Stops key (ops.computeHash key) earlier :=
    fun earlier hEarlier => Nat.find_min hSome hEarlier
  have hWithin : Nat.find hSome ≤ step := Nat.find_min' hSome (.inr (by rw [hPlace, hUnused]))
  have hRounds : Nat.find hSome < 0 + (ops.width + table.size) := by
    rw [hSound.size]
    omega
  have hLoop := @lookupLoop_eq _ _ ops _ _ _ hSound.size _ _ _ hLast hPasses _ 0 (Nat.zero_le _)
    hRounds none (by simp)
  have hStart : lookup ops table key (ops.computeHash key) =
      lookupLoop ops table key (ops.computeHash key) (ops.width + table.size)
        (Probe.perturb (ops.computeHash key) 0) (Probe.index (ops.computeHash key) 0) none := by
    simp [lookup, Probe.perturb, Probe.index]
  obtain ⟨hFound, hHash, hKey⟩ | ⟨found, hLe, hFound, hVacant, hEmpty⟩ := hLoop
  · refine .inl ⟨_, place_lt _ _, hStart.trans hFound, ?_, hKey⟩
    rw [emptyEntry_eq_false, hHash]
    exact computeHash_ne key
  · refine .inr ⟨found, hStart.trans hFound, hVacant, fun earlier hEarlier hUnusedEarlier => ?_, ?_⟩
    · exact hPasses earlier (by omega) (.inr hUnusedEarlier)
    · -- the key would have been met before the unused slot
      intro slot hSlot hHolds
      obtain ⟨other, hOther, hReach⟩ := hSound.reach slot hSlot key hHolds
      obtain ⟨held, hHeldKey, hHeldHash⟩ := hSound.keyed slot hSlot hHolds.1
      obtain rfl : held = key := Option.some.inj (hHeldKey.symm.trans hHolds.2)
      have hStops : table.Stops held (ops.computeHash held) other :=
        .inl ⟨by rw [hOther, hHeldHash], by rw [hOther, hHeldKey]⟩
      rcases Nat.lt_trichotomy other (Nat.find hSome) with hBefore | hSame | hAfter
      · exact hPasses other hBefore hStops
      · rw [← hSame, hOther] at hEmpty
        exact (emptyEntry_eq_false.mp hHolds.1).1 hEmpty
      · exact hReach _ hAfter hEmpty

end HashTable

end Server
