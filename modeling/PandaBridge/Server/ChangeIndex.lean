import Mathlib.Logic.Function.Basic
import Mathlib.Tactic.SplitIfs

/-! Change indices. Every update takes a fresh index, every connection remembers for each
change set the index of its last request, and a request reports what is newer than that. -/
namespace Server

/-- The change sets of `config_server.h`. -/
inductive ChangeIx
  | config
  | bits
  | position
  | read
  | attr
  | table
  | metadata
  deriving DecidableEq

/-- `change_set_context`. -/
abbrev ChangeContext := ChangeIx → Nat

/-- What a request reports from, for the change sets it asks for. The others are reported from
the indefinite future on, that is, not at all. -/
abbrev ReportIndex := ChangeIx → Option Nat

/-- `update_change_index`, with the index that `get_change_index` has returned to it. -/
def updateChangeIndex (fresh : Nat) (sets : ChangeIx → Bool) (context : ChangeContext) :
    ChangeContext × ReportIndex :=
  (fun ix => if sets ix then fresh else context ix,
    fun ix => if sets ix then some (context ix) else none)

/-- The comparison that every change set makes. -/
def changedSince (report : Option Nat) (updateIndex : Nat) : Bool :=
  match report with
  | some index => decide (index < updateIndex)
  | none => false

@[simp] theorem changedSince_eq_true {report : Option Nat} {updateIndex : Nat} :
    changedSince report updateIndex = true ↔ ∃ index, report = some index ∧ index < updateIndex := by
  cases report with
  | none => simp [changedSince]
  | some index => simp [changedSince]

/-- A fresh index is newer than all that the context knows, and stays so for what was not
asked for. -/
theorem updateChangeIndex_le {fresh : Nat} {sets : ChangeIx → Bool} {context : ChangeContext}
    (h : ∀ ix, context ix < fresh) (ix : ChangeIx) :
    (updateChangeIndex fresh sets context).1 ix ≤ fresh := by
  simp only [updateChangeIndex]
  split_ifs
  · exact Nat.le_refl _
  · exact Nat.le_of_lt (h ix)

end Server
