import Mathlib.Data.List.Basic

/-! What is obtained and given back over time. A log is in order when nothing is obtained twice
before it is given back, and nothing is given back that is not held. -/
namespace Resource

inductive Action (Item : Type)
  | acquire (item : Item)
  | release (item : Item)
  deriving DecidableEq

variable {Item : Type} [DecidableEq Item]

/-- What is held after these actions, the last item first, if they are in order. -/
def held : List (Action Item) → List Item → Option (List Item)
  | [], items => some items
  | .acquire item :: rest, items => if item ∈ items then none else held rest (item :: items)
  | .release item :: rest, items =>
      if item ∈ items then held rest (items.erase item) else none

/-- Everything that was obtained was given back, once. -/
def Balanced (log : List (Action Item)) : Prop := held log [] = some []

instance (log : List (Action Item)) : Decidable (Balanced log) :=
  inferInstanceAs (Decidable (held log [] = some []))

theorem held_append (first second : List (Action Item)) (items : List Item) :
    held (first ++ second) items = (held first items).bind (held second) := by
  induction first generalizing items with
  | nil => rfl
  | cons action first ih =>
      cases action with
      | acquire item =>
          rw [List.cons_append, held, held]
          split
          · rfl
          · exact ih _
      | release item =>
          rw [List.cons_append, held, held]
          split
          · exact ih _
          · rfl

theorem held_acquire {item : Item} {items : List Item} (hNew : item ∉ items)
    (rest : List (Action Item)) :
    held (.acquire item :: rest) items = held rest (item :: items) :=
  if_neg hNew

/-- What was obtained last is given back first. -/
theorem held_release_head (item : Item) (items : List Item) (rest : List (Action Item)) :
    held (.release item :: rest) (item :: items) = held rest items := by
  rw [held, if_pos List.mem_cons_self, List.erase_cons_head]

theorem held_releases {released items : List Item} (hPerm : released.Perm items) :
    held (released.map .release) items = some [] := by
  induction released generalizing items with
  | nil =>
      obtain rfl := hPerm.nil_eq
      rfl
  | cons item released ih =>
      obtain ⟨hMem, hRest⟩ := List.cons_perm_iff_perm_erase.mp hPerm
      rw [List.map_cons, held, if_pos hMem]
      exact ih hRest

end Resource
