import PandaBridge.Fpga.SequencerPlay
import Mathlib.Data.List.Range

/-! Without a count of zero the plays of a table are a list: the passes of the table, the lines of a
pass and the repeats of a line. -/
namespace Fpga.Seq

section Chains

variable {α β : Type} {follows : β → β → Prop} {part : α → List β} {first last : α → β}

theorem isChain_flatMap {items : List α} (hFirst : ∀ item, (part item).head? = some (first item))
    (hLast : ∀ item, (part item).getLast? = some (last item))
    (hParts : ∀ item, (part item).IsChain follows)
    (hNext : items.IsChain fun item next => follows (last item) (first next)) :
    (items.flatMap part).IsChain follows ∧
      (items.flatMap part).head? = items.head?.map first ∧
      (items.flatMap part).getLast? = items.getLast?.map last := by
  induction items with
  | nil => exact ⟨.nil, rfl, rfl⟩
  | cons item items ih =>
      obtain ⟨hChain, hHead, hEnd⟩ := ih hNext.tail
      rw [List.flatMap_cons]
      refine ⟨List.isChain_append.mpr ⟨hParts item, hChain, ?_⟩, ?_, ?_⟩
      · intro before hBefore after hAfter
        rw [hLast, Option.mem_some_iff] at hBefore
        cases items with
        | nil => cases hAfter
        | cons next items =>
            rw [hHead] at hAfter
            rw [← hBefore, ← Option.some.inj hAfter]
            exact (List.isChain_cons_cons.mp hNext).1
      · rw [List.head?_append, hFirst]
        rfl
      · rw [List.getLast?_append, hEnd, hLast]
        cases items with
        | nil => rfl
        | cons next items =>
            rw [List.getLast?_cons_cons, List.getLast?_eq_some_getLast (List.cons_ne_nil _ _)]
            rfl

/-- What a function makes of one place after another is the chain that it follows. -/
theorem eq_getElem?_of_isChain {value : Nat → Option β} {next : β → Option β} {items : List β}
    (hZero : value 0 = items.head?) (hSucc : ∀ place, value (place + 1) = (value place).bind next)
    (hChain : items.IsChain fun item after => next item = some after)
    (hEnd : ∀ item ∈ items.getLast?, next item = none) (place : Nat) :
    value place = items[place]? := by
  induction place with
  | zero => rw [hZero, List.head?_eq_getElem?]
  | succ place ih =>
      rw [hSucc, ih]
      rcases Nat.lt_trichotomy (place + 1) items.length with hLess | hSame | hMore
      · rw [List.getElem?_eq_getElem (Nat.lt_of_succ_lt hLess), List.getElem?_eq_getElem hLess]
        exact List.isChain_iff_getElem.mp hChain place hLess
      · rw [List.getElem?_eq_none hSame.ge]
        have hLast : items[place]? = items.getLast? := by
          rw [List.getLast?_eq_getElem?, ← hSame, Nat.add_sub_cancel]
        rw [hLast]
        cases hItem : items.getLast? with
        | none => rfl
        | some item => exact hEnd item hItem
      · rw [List.getElem?_eq_none (Nat.le_of_lt_succ hMore), List.getElem?_eq_none hMore.le]
        rfl

end Chains

variable {table : List SeqFrame} {repeats : Nat}

/-- The repeats of a line in a pass. -/
def linePlays (pass : Nat) (line : Fin table.length) : List (Play table) :=
  (List.range (table.get line).repeats.toNat).map fun count => ⟨line, count + 1, pass⟩

/-- The lines of a pass. -/
def passPlays (table : List SeqFrame) (pass : Nat) : List (Play table) :=
  (List.finRange table.length).flatMap (linePlays pass)

theorem Counted.pos (h : Counted table) (line : Fin table.length) :
    0 < (table.get line).repeats.toNat := by
  rw [Nat.pos_iff_ne_zero]
  exact fun hZero => h _ (List.get_mem table line) (BitVec.eq_of_toNat_eq hZero)

theorem next?_repeat {play : Play table}
    (h : play.lineRepeat ≠ play.frame.repeats.toNat) :
    play.next? repeats = some { play with lineRepeat := play.lineRepeat + 1 } :=
  if_pos fun hReached => h hReached.2

theorem next?_line {play : Play table} (hCount : 0 < play.frame.repeats.toNat)
    (h : play.lineRepeat = play.frame.repeats.toNat) : play.next? repeats =
      if hMore : play.line + 1 < table.length then
        some ⟨⟨play.line + 1, hMore⟩, 1, play.tableRepeat⟩
      else if Reached repeats play.tableRepeat then none
      else some ⟨⟨0, Nat.zero_lt_of_lt play.line.isLt⟩, 1, play.tableRepeat + 1⟩ :=
  if_neg fun hOther => hOther ⟨Nat.pos_iff_ne_zero.mp hCount, h⟩

/-- The first and the last play of a line. -/
def lineFirst (pass : Nat) (line : Fin table.length) : Play table := ⟨line, 1, pass⟩

def lineLast (pass : Nat) (line : Fin table.length) : Play table :=
  ⟨line, (table.get line).repeats.toNat, pass⟩

theorem linePlays_chain (repeats : Nat) (hCounted : Counted table) (pass : Nat)
    (line : Fin table.length) :
    (linePlays pass line).IsChain (fun play after => play.next? repeats = some after) ∧
      (linePlays pass line).head? = some (lineFirst pass line) ∧
      (linePlays pass line).getLast? = some (lineLast pass line) := by
  obtain ⟨count, hCount⟩ : ∃ count, (table.get line).repeats.toNat = count + 1 :=
    ⟨_, (Nat.sub_add_cancel (hCounted.pos line)).symm⟩
  rw [linePlays, hCount]
  refine ⟨?_, ?_, ?_⟩
  · apply (List.isChain_map _).mpr
    apply (List.isChain_range_succ _ _).mpr
    intro place hPlace
    apply next?_repeat
    show place + 1 ≠ (table.get line).repeats.toNat
    omega
  · rw [List.head?_map, List.head?_range]
    rfl
  · rw [List.getLast?_map, List.getLast?_range, lineLast, hCount]
    rfl

theorem passPlays_chain (repeats : Nat) (hCounted : Counted table) (hSome : 0 < table.length)
    (pass : Nat) :
    (passPlays table pass).IsChain (fun play after => play.next? repeats = some after) ∧
      (passPlays table pass).head? = some (lineFirst pass ⟨0, hSome⟩) ∧
      (passPlays table pass).getLast? =
        some (lineLast pass ⟨table.length - 1, Nat.sub_one_lt_of_lt hSome⟩) := by
  have hNext : (List.finRange table.length).IsChain fun line next =>
      (lineLast pass line).next? repeats = some (lineFirst pass next) := by
    apply List.isChain_iff_getElem.mpr
    intro place hPlace
    rw [List.length_finRange] at hPlace
    rw [List.getElem_finRange, List.getElem_finRange, next?_line (hCounted.pos _) rfl]
    exact dif_pos hPlace
  have hLine := linePlays_chain repeats hCounted pass
  obtain ⟨hChain, hHead, hLast⟩ := isChain_flatMap (fun line => (hLine line).2.1)
    (fun line => (hLine line).2.2) (fun line => (hLine line).1) hNext
  refine ⟨hChain, hHead.trans ?_, hLast.trans ?_⟩
  · rw [List.head?_eq_getElem?, List.getElem?_eq_getElem (by rwa [List.length_finRange]),
      List.getElem_finRange]
    rfl
  · rw [List.getLast?_eq_getElem?, List.length_finRange,
      List.getElem?_eq_getElem (by rw [List.length_finRange]; omega), List.getElem_finRange]
    rfl

theorem playAt_eq (hCounted : Counted table) (hSome : 0 < table.length) (hRepeats : 0 < repeats)
    (number : Nat) : playAt table repeats number = (plays table repeats)[number]? := by
  have hPlays : plays table repeats =
      (List.range repeats).flatMap fun pass => passPlays table (pass + 1) := rfl
  rw [hPlays]
  obtain ⟨before, rfl⟩ : ∃ before, repeats = before + 1 :=
    ⟨_, (Nat.sub_add_cancel hRepeats).symm⟩
  have hPass (pass : Nat) := passPlays_chain (before + 1) hCounted hSome (pass + 1)
  have hNext : (List.range (before + 1)).IsChain fun pass next =>
      (lineLast (pass + 1) ⟨table.length - 1, Nat.sub_one_lt_of_lt hSome⟩).next? (before + 1) =
        some (lineFirst (next + 1) ⟨0, hSome⟩) := by
    apply (List.isChain_range_succ _ _).mpr
    intro pass hLess
    rw [next?_line (hCounted.pos _) rfl, dif_neg, if_neg]
    · rfl
    · rintro ⟨-, hReached⟩
      have hSame : pass + 1 = before + 1 := hReached
      omega
    · show ¬ table.length - 1 + 1 < table.length
      omega
  obtain ⟨hChain, hHead, hLast⟩ := isChain_flatMap (fun pass => (hPass pass).2.1)
    (fun pass => (hPass pass).2.2) (fun pass => (hPass pass).1) hNext
  apply eq_getElem?_of_isChain _ (fun _ => rfl) hChain
  · intro play hPlay
    rw [hLast, List.getLast?_range] at hPlay
    obtain rfl := Option.some.inj hPlay
    rw [next?_line (hCounted.pos _) rfl, dif_neg, if_pos]
    · exact ⟨Nat.succ_ne_zero before, rfl⟩
    · show ¬ table.length - 1 + 1 < table.length
      omega
  · rw [hHead, List.head?_range, playAt, dif_pos hSome]
    rfl

end Fpga.Seq
