import PandaBridge.Ring.Index

/-! The FIFO with handshakes that several blocks use. It is a memory between two pointers
behind one output register. The register keeps its data when it is no longer valid. -/
namespace Fpga.Fifo

variable {Data : Type} {bits : Nat}

/-- The inputs at one clock edge. -/
structure Ports (Data : Type) where
  resetFifo : Bool
  writeValid : Bool
  writeData : Data
  readReady : Bool

structure State (Data : Type) where
  fifo : Nat → Data
  writePointer : Nat
  readPointer : Nat
  readValid : Bool
  writeReadyO : Bool
  readValidO : Bool
  readDataO : Data
  fifoDepthO : Nat

/-- The signals before the first clock edge. -/
def State.boot (zeros : Data) : State Data where
  fifo _ := zeros
  writePointer := 0
  readPointer := 0
  readValid := false
  writeReadyO := false
  readValidO := false
  readDataO := zeros
  fifoDepthO := 0

def readEnable (s : State Data) (p : Ports Data) : Bool :=
  !p.resetFifo && (s.readValid && (p.readReady || !s.readValidO))

def nextWritePointer (bits : Nat) (s : State Data) (p : Ports Data) : Nat :=
  if p.resetFifo then 0
  else if p.writeValid && s.writeReadyO then (s.writePointer + 1) % 2 ^ (bits + 1)
  else s.writePointer

def nextReadPointer (bits : Nat) (s : State Data) (p : Ports Data) : Nat :=
  if p.resetFifo then 0
  else if readEnable s p then (s.readPointer + 1) % 2 ^ (bits + 1)
  else s.readPointer

def nextReadValid (s : State Data) (p : Ports Data) : Bool :=
  if p.resetFifo then false
  else if readEnable s p then true
  else if p.readReady then false
  else s.readValidO

/-- One rising clock edge. The top bits of the pointers only tell full from empty. -/
def step (bits : Nat) (s : State Data) (p : Ports Data) : State Data where
  fifo address :=
    if p.writeValid && s.writeReadyO && address == s.writePointer % 2 ^ bits then p.writeData
    else s.fifo address
  writePointer := nextWritePointer bits s p
  readPointer := nextReadPointer bits s p
  readValid := !p.resetFifo && nextWritePointer bits s p != nextReadPointer bits s p
  writeReadyO := !p.resetFifo && nextWritePointer bits s p != nextReadPointer bits s p ^^^ 2 ^ bits
  readValidO := nextReadValid s p
  readDataO := if readEnable s p then s.fifo (s.readPointer % 2 ^ bits) else s.readDataO
  fifoDepthO :=
    (nextWritePointer bits s p + 2 ^ (bits + 1) - nextReadPointer bits s p +
      (nextReadValid s p).toNat) % 2 ^ (bits + 1)

/-- What the FIFO is for: the entry on show and the entries behind it. -/
structure Queue (Data : Type) where
  shown : Option Data
  stored : List Data

namespace Queue

def empty : Queue Data := ⟨none, []⟩

/-- A reader that is ready takes the entry on show, and whenever nothing is on show the
next entry moves up. -/
def advance (q : Queue Data) (ready : Bool) : Queue Data :=
  if ready || q.shown.isNone then ⟨q.stored.head?, q.stored.tail⟩ else q

def push (q : Queue Data) (accepted : Option Data) : Queue Data :=
  ⟨q.shown, q.stored ++ accepted.toList⟩

def entries (q : Queue Data) : List Data := q.shown.toList ++ q.stored

@[simp] theorem entries_empty : (empty : Queue Data).entries = [] := rfl

@[simp] theorem entries_push (q : Queue Data) (accepted : Option Data) :
    (q.push accepted).entries = q.entries ++ accepted.toList := by
  simp [push, entries]

theorem entries_advance (q : Queue Data) (ready : Bool) :
    q.entries = (if ready then q.shown.toList else []) ++ (q.advance ready).entries := by
  obtain ⟨shown, stored⟩ := q
  cases shown with
  | none => cases stored <;> cases ready <;> rfl
  | some entry => cases stored <;> cases ready <;> rfl

theorem mem_of_mem_advance {q : Queue Data} {ready : Bool} {entry : Data}
    (hEntry : entry ∈ (q.advance ready).entries) : entry ∈ q.entries := by
  rw [q.entries_advance ready]
  exact List.mem_append_right _ hEntry

/-- Nothing is on show only when nothing is there. -/
theorem entries_advance_of_hidden {q : Queue Data} {ready : Bool}
    (hHidden : (q.advance ready).shown = none) : (q.advance ready).entries = [] := by
  obtain ⟨shown, stored⟩ := q
  cases shown with
  | none => cases stored with
    | nil => cases ready <;> rfl
    | cons next rest => cases ready <;> simp [advance] at hHidden
  | some entry => cases stored with
    | nil => cases ready <;> simp [advance, entries] at hHidden ⊢
    | cons next rest => cases ready <;> simp [advance] at hHidden

theorem stored_advance_le (q : Queue Data) (ready : Bool) :
    (q.advance ready).stored.length ≤ q.stored.length := by
  rw [advance]
  split_ifs
  · exact List.length_tail.trans_le (Nat.sub_le _ _)
  · exact le_rfl

/-- Whatever is in the queue is on show at the next clock if nothing is taken. -/
theorem shown_advance_idle {q : Queue Data} (hSome : q.entries ≠ []) :
    (q.advance false).shown.isSome = true := by
  obtain ⟨shown, stored⟩ := q
  cases shown with
  | none => cases stored with
    | nil => exact absurd rfl hSome
    | cons entry rest => rfl
  | some entry => rfl

theorem shown_advance_ready {q : Queue Data} (hShown : q.shown.isSome = true)
    (hMore : 2 ≤ q.entries.length) : (q.advance true).shown.isSome = true := by
  obtain ⟨shown, stored⟩ := q
  cases shown with
  | none => simp at hShown
  | some entry => cases stored with
    | nil => simp [entries] at hMore
    | cons next rest => rfl

end Queue

/-- The entry that a clock edge writes, if any. -/
def accepted (s : State Data) (p : Ports Data) : Option Data :=
  if p.writeValid && s.writeReadyO then some p.writeData else none

def Queue.step (q : Queue Data) (s : State Data) (p : Ports Data) : Queue Data :=
  if p.resetFifo then .empty else (q.advance p.readReady).push (accepted s p)

theorem Queue.mem_step {q : Queue Data} {s : State Data} {p : Ports Data} {entry : Data}
    (hEntry : entry ∈ (q.step s p).entries) :
    entry ∈ q.entries ∨ p.writeValid = true ∧ entry = p.writeData := by
  unfold Queue.step at hEntry
  split at hEntry
  · simp at hEntry
  · rw [entries_push, List.mem_append] at hEntry
    rcases hEntry with hOld | hNew
    · exact .inl (mem_of_mem_advance hOld)
    · right
      unfold accepted at hNew
      split at hNew
      · simp_all
      · simp at hNew

/-- The signals hold a queue. -/
structure Holds (bits : Nat) (s : State Data) (q : Queue Data) : Prop where
  read : s.readPointer < 2 ^ (bits + 1)
  write : s.writePointer = (s.readPointer + q.stored.length) % 2 ^ (bits + 1)
  capacity : q.stored.length ≤ 2 ^ bits
  cells : ∀ i (h : i < q.stored.length), s.fifo ((s.readPointer + i) % 2 ^ bits) = q.stored[i]
  valid : s.readValid = !q.stored.isEmpty
  ready : s.writeReadyO = true → q.stored.length < 2 ^ bits
  shown : q.shown = if s.readValidO then some s.readDataO else none
  depth : s.fifoDepthO = (q.stored.length + s.readValidO.toNat) % 2 ^ (bits + 1)

theorem holds_boot (zeros : Data) : Holds bits (State.boot zeros) .empty where
  read := Nat.two_pow_pos _
  write := (Nat.zero_mod _).symm
  capacity := Nat.zero_le _
  cells _ h := absurd h (Nat.not_lt_zero _)
  valid := rfl
  ready h := absurd h Bool.false_ne_true
  shown := rfl
  depth := (Nat.zero_mod _).symm

/-- The depth counts every entry, since the register on show adds no further bit. -/
theorem Holds.depth_eq {s : State Data} {q : Queue Data} (h : Holds bits s q) (hBits : 0 < bits) :
    s.fifoDepthO = q.entries.length := by
  have hLength : q.entries.length = q.stored.length + s.readValidO.toNat := by
    rw [Queue.entries, h.shown, List.length_append, Nat.add_comm]
    cases s.readValidO <;> rfl
  have hPow : 2 ^ (bits + 1) = 2 ^ bits + 2 ^ bits := by omega
  have hTwo : 2 ^ 1 ≤ 2 ^ bits := Nat.pow_le_pow_right (by decide) hBits
  have hBit : s.readValidO.toNat ≤ 1 := Bool.toNat_le _
  have hCapacity := h.capacity
  rw [h.depth, hLength, Nat.mod_eq_of_lt (by omega)]

theorem Holds.depth_eq_zero {s : State Data} {q : Queue Data} (h : Holds bits s q)
    (hEmpty : q.entries = []) : s.fifoDepthO = 0 := by
  obtain ⟨hShown, hStored⟩ : q.shown = none ∧ q.stored = [] := by
    simpa [Queue.entries] using hEmpty
  have hNotValid : s.readValidO = false := by
    simpa [hShown] using h.shown
  rw [h.depth, hStored, hNotValid]
  exact Nat.zero_mod _

/-! Pointers that are one bit wider than the addresses. -/
section Pointers

variable {pointer count : Nat}

theorem xor_top_bit (hPointer : pointer < 2 ^ (bits + 1)) :
    pointer ^^^ 2 ^ bits = (pointer + 2 ^ bits) % 2 ^ (bits + 1) := by
  apply Nat.eq_of_testBit_eq
  intro i
  rw [Nat.testBit_xor, Nat.testBit_mod_two_pow, Nat.testBit_two_pow, Nat.add_comm pointer]
  rcases Nat.lt_trichotomy i bits with hi | hi | hi
  · simp [Nat.testBit_two_pow_add_gt hi, show i < bits + 1 by omega, show bits ≠ i by omega]
  · subst hi
    simp [Nat.testBit_two_pow_add_eq]
  · have hPow : 2 ^ (bits + 1) ≤ 2 ^ i := Nat.pow_le_pow_right (by omega) (by omega)
    simp [Nat.testBit_lt_two_pow (Nat.lt_of_lt_of_le hPointer hPow), show ¬ i < bits + 1 by omega,
      show bits ≠ i by omega]

theorem add_mod_ne {other : Nat} (hLess : count < other) (hOther : other ≤ 2 ^ bits) :
    (pointer + count) % 2 ^ (bits + 1) ≠ (pointer + other) % 2 ^ (bits + 1) := by
  have hPow : 2 ^ (bits + 1) = 2 ^ bits + 2 ^ bits := by omega
  have hPos := Nat.two_pow_pos bits
  exact Ring.slot_ne (by omega) (by omega)

theorem pointers_eq_iff (hPointer : pointer < 2 ^ (bits + 1)) (hCount : count ≤ 2 ^ bits) :
    (pointer + count) % 2 ^ (bits + 1) = pointer ↔ count = 0 := by
  constructor
  · intro hEq
    by_contra hZero
    refine @add_mod_ne bits pointer 0 count (Nat.pos_of_ne_zero hZero) hCount ?_
    rw [hEq, Nat.add_zero, Nat.mod_eq_of_lt hPointer]
  · rintro rfl
    rw [Nat.add_zero, Nat.mod_eq_of_lt hPointer]

theorem pointers_full_iff (hPointer : pointer < 2 ^ (bits + 1)) (hCount : count ≤ 2 ^ bits) :
    (pointer + count) % 2 ^ (bits + 1) = pointer ^^^ 2 ^ bits ↔ count = 2 ^ bits := by
  rw [xor_top_bit hPointer]
  constructor
  · intro hEq
    by_contra hNotFull
    exact add_mod_ne (Nat.lt_of_le_of_ne hCount hNotFull) Nat.le.refl hEq
  · rintro rfl
    rfl

theorem pointers_sub (hPointer : pointer < 2 ^ (bits + 1)) (extra : Nat) :
    ((pointer + count) % 2 ^ (bits + 1) + 2 ^ (bits + 1) - pointer + extra) % 2 ^ (bits + 1) =
      (count + extra) % 2 ^ (bits + 1) := by
  have hSplit : (pointer + count) % 2 ^ (bits + 1) + 2 ^ (bits + 1) - pointer + extra =
      (pointer + count) % 2 ^ (bits + 1) + (2 ^ (bits + 1) - pointer + extra) := by omega
  rw [hSplit, Nat.mod_add_mod]
  have hSum : pointer + count + (2 ^ (bits + 1) - pointer + extra) =
      count + extra + 2 ^ (bits + 1) := by omega
  rw [hSum, Nat.add_mod_right]

end Pointers

/-! One clock edge without reset, first its reading side and then its writing side. -/
section Edge

variable {s : State Data} {q : Queue Data} {p : Ports Data}

theorem Holds.readEnable_eq (h : Holds bits s q) (hReset : p.resetFifo = false) :
    readEnable s p = (!q.stored.isEmpty && (p.readReady || q.shown.isNone)) := by
  rw [readEnable, hReset, h.valid, h.shown]
  cases s.readValidO <;> simp

theorem Holds.read_side (h : Holds bits s q) (hReset : p.resetFifo = false) :
    nextReadPointer bits s p < 2 ^ (bits + 1) ∧
      s.writePointer =
        (nextReadPointer bits s p + (q.advance p.readReady).stored.length) % 2 ^ (bits + 1) ∧
      (q.advance p.readReady).stored.length ≤ q.stored.length ∧
      ∀ i (hi : i < (q.advance p.readReady).stored.length),
        s.fifo ((nextReadPointer bits s p + i) % 2 ^ bits) = (q.advance p.readReady).stored[i] := by
  have hEnable := h.readEnable_eq hReset
  have hPow : 2 ^ bits ∣ 2 ^ (bits + 1) := Nat.pow_dvd_pow 2 (Nat.le_succ bits)
  rcases hTake : (p.readReady || q.shown.isNone) with _ | _
  · have hKeep : readEnable s p = false := by simp [hEnable, hTake]
    have hPointer : nextReadPointer bits s p = s.readPointer := by
      simp [nextReadPointer, hReset, hKeep]
    have hQueue : q.advance p.readReady = q := by simp [Queue.advance, hTake]
    rw [hPointer, hQueue]
    exact ⟨h.read, h.write, Nat.le.refl, h.cells⟩
  · have hQueue : (q.advance p.readReady).stored = q.stored.tail := by simp [Queue.advance, hTake]
    cases hStored : q.stored with
    | nil =>
        have hPointer : nextReadPointer bits s p = s.readPointer := by
          simp [nextReadPointer, hReset, hEnable, hStored]
        have hWrite := h.write
        rw [hStored] at hQueue hWrite
        simp only [hPointer, hQueue]
        exact ⟨h.read, hWrite, Nat.le.refl, fun i hi => absurd hi (Nat.not_lt_zero i)⟩
    | cons head rest =>
        have hPointer : nextReadPointer bits s p = (s.readPointer + 1) % 2 ^ (bits + 1) := by
          simp [nextReadPointer, hReset, hEnable, hStored, hTake]
        have hWrite := h.write
        have hCells := h.cells
        simp only [hStored, List.tail_cons, List.length_cons] at hQueue hWrite hCells
        simp only [hPointer, hQueue]
        refine ⟨Nat.mod_lt _ (Nat.two_pow_pos _), ?_, Nat.le_succ _, ?_⟩
        · rw [hWrite, Nat.mod_add_mod]
          congr 1
          omega
        · intro i hi
          rw [← Nat.mod_add_mod, Nat.mod_mod_of_dvd _ hPow, Nat.mod_add_mod, Nat.add_assoc,
            Nat.add_comm 1 i]
          exact hCells (i + 1) (Nat.succ_lt_succ hi)

theorem Holds.shown_step (h : Holds bits s q) (hReset : p.resetFifo = false) :
    (q.advance p.readReady).shown =
      if (step bits s p).readValidO then some (step bits s p).readDataO else none := by
  have hEnable := h.readEnable_eq hReset
  rcases hTake : (p.readReady || q.shown.isNone) with _ | _
  · obtain ⟨hReady, hSome⟩ : p.readReady = false ∧ q.shown.isNone = false := by simpa using hTake
    have hQueue : q.advance p.readReady = q := by simp [Queue.advance, hTake]
    have hKeep : readEnable s p = false := by simp [hEnable, hTake]
    rw [hQueue, h.shown]
    simp [step, nextReadValid, hReset, hKeep, hReady]
  · have hQueue : (q.advance p.readReady).shown = q.stored.head? := by simp [Queue.advance, hTake]
    cases hStored : q.stored with
    | nil =>
        have hValid : p.readReady = false → s.readValidO = false := by
          intro hReady
          simpa [hReady, h.shown] using hTake
        rw [hQueue, hStored]
        cases hReady : p.readReady <;> simp_all [step, nextReadValid]
    | cons head rest =>
        have hCell : s.fifo (s.readPointer % 2 ^ bits) = head := by
          have := h.cells 0 (by simp [hStored])
          simpa [hStored] using this
        rw [hQueue, hStored]
        simp [step, nextReadValid, hReset, hEnable, hStored, hTake, hCell]

theorem holds_of_reset (hReset : p.resetFifo = true) : Holds bits (step bits s p) .empty where
  read := by
    have hZero : (step bits s p).readPointer = 0 := by simp [step, nextReadPointer, hReset]
    rw [hZero]
    exact Nat.two_pow_pos _
  write := by simp [step, nextReadPointer, nextWritePointer, hReset, Queue.empty]
  capacity := Nat.zero_le _
  cells _ h := absurd h (Nat.not_lt_zero _)
  valid := by simp [step, hReset, Queue.empty]
  ready := by simp [step, hReset]
  shown := by simp [step, nextReadValid, hReset, Queue.empty]
  depth := by simp [step, nextReadPointer, nextWritePointer, nextReadValid, hReset, Queue.empty]

theorem Holds.write_side (h : Holds bits s q) (hReset : p.resetFifo = false) {left : List Data}
    {pointer : Nat} (hWrite : s.writePointer = (pointer + left.length) % 2 ^ (bits + 1))
    (hLength : left.length ≤ q.stored.length)
    (hCells : ∀ i (hi : i < left.length), s.fifo ((pointer + i) % 2 ^ bits) = left[i]) :
    nextWritePointer bits s p =
        (pointer + (left ++ (accepted s p).toList).length) % 2 ^ (bits + 1) ∧
      (left ++ (accepted s p).toList).length ≤ 2 ^ bits ∧
      ∀ i (hi : i < (left ++ (accepted s p).toList).length),
        (step bits s p).fifo ((pointer + i) % 2 ^ bits) = (left ++ (accepted s p).toList)[i] := by
  have hPow : 2 ^ bits ∣ 2 ^ (bits + 1) := Nat.pow_dvd_pow 2 (Nat.le_succ bits)
  have hCapacity := h.capacity
  cases hAccept : p.writeValid && s.writeReadyO with
  | false =>
      have hNone : accepted s p = none := by simp [accepted, hAccept]
      have hPointer : nextWritePointer bits s p = s.writePointer := by
        simp [nextWritePointer, hReset, hAccept]
      simp only [hNone, Option.toList_none, List.append_nil, hPointer]
      refine ⟨hWrite, by omega, fun i hi => ?_⟩
      simp only [step, hAccept, Bool.false_and, Bool.false_eq_true, if_false]
      exact hCells i hi
  | true =>
      have hSome : accepted s p = some p.writeData := by simp [accepted, hAccept]
      have hPointer : nextWritePointer bits s p = (s.writePointer + 1) % 2 ^ (bits + 1) := by
        simp [nextWritePointer, hReset, hAccept]
      have hRoom : q.stored.length < 2 ^ bits := h.ready (by simp_all)
      have hAddress : s.writePointer % 2 ^ bits = (pointer + left.length) % 2 ^ bits := by
        rw [hWrite, Nat.mod_mod_of_dvd _ hPow]
      simp only [hSome, Option.toList_some, List.length_append, List.length_singleton, hPointer]
      refine ⟨?_, by omega, fun i hi => ?_⟩
      · rw [hWrite, Nat.mod_add_mod, Nat.add_assoc]
      · simp only [step, hAccept, Bool.true_and, hAddress, beq_iff_eq]
        rcases Nat.lt_succ_iff_lt_or_eq.mp hi with hOld | rfl
        · have hOther : (pointer + i) % 2 ^ bits ≠ (pointer + left.length) % 2 ^ bits :=
            Ring.slot_ne (by omega) (by omega)
          rw [if_neg hOther, hCells i hOld, List.getElem_append_left hOld]
        · rw [if_pos rfl]
          simp

/-- Every clock edge does to the queue what the queue is for. -/
theorem Holds.step (h : Holds bits s q) (p : Ports Data) :
    Holds bits (step bits s p) (q.step s p) := by
  cases hReset : p.resetFifo with
  | true =>
      have hQueue : q.step s p = .empty := by simp [Queue.step, hReset]
      rw [hQueue]
      exact holds_of_reset hReset
  | false =>
      obtain ⟨hRead, hOld, hLength, hCells⟩ := h.read_side hReset
      obtain ⟨hWrite, hCapacity, hFilled⟩ := h.write_side hReset hOld hLength hCells
      have hQueue : q.step s p = (q.advance p.readReady).push (accepted s p) := by
        simp [Queue.step, hReset]
      rw [hQueue]
      refine ⟨hRead, hWrite, hCapacity, hFilled, ?_, ?_, h.shown_step hReset, ?_⟩
      · have hEmpty := pointers_eq_iff hRead hCapacity
        rw [List.length_eq_zero_iff, ← hWrite] at hEmpty
        rw [Bool.eq_iff_iff]
        simpa [Fifo.step, hReset, Queue.push] using not_congr hEmpty
      · intro hReady
        have hFull := pointers_full_iff hRead hCapacity
        rw [← hWrite] at hFull
        have hNotFull : nextWritePointer bits s p ≠ nextReadPointer bits s p ^^^ 2 ^ bits := by
          simpa [Fifo.step, hReset] using hReady
        exact Nat.lt_of_le_of_ne hCapacity (fun h => hNotFull (hFull.mpr h))
      · simp only [Fifo.step, hWrite]
        exact pointers_sub hRead _

/-- Without a reset there is room unless the memory is full. -/
theorem Holds.writeReady_step (h : Holds bits s q) (hReset : p.resetFifo = false) :
    (Fifo.step bits s p).writeReadyO = true ↔ (q.step s p).stored.length < 2 ^ bits := by
  refine ⟨(h.step p).ready, fun hRoom => ?_⟩
  have hNext := h.step p
  have hFull := pointers_full_iff hNext.read hNext.capacity
  rw [← hNext.write] at hFull
  have hNotFull : nextWritePointer bits s p ≠ nextReadPointer bits s p ^^^ 2 ^ bits :=
    fun hEq => absurd (hFull.mp hEq) hRoom.ne
  simpa [Fifo.step, hReset] using hNotFull

end Edge

end Fpga.Fifo
