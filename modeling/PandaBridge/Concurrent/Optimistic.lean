import PandaBridge.Concurrent.Logic

/-! Optimistic reading. The shared state carries a version that never goes back;
a reader notes the version, loads what it wants, and looks at the version again.
What it loaded is known under the proviso that the version has not moved. -/
namespace Concurrent

variable {Fields Request Result Shared Choice : Type} {Answer : Request → Type}
variable {world : World Shared Choice Request Answer} {guard : Guard Shared Fields Choice Request}
  {inv : Shared → Fields → Prop} {version : Shared → Nat} {frame : Shared → Prop}

/-- `fact` is known as long as the version is still `noted`. -/
structure AtVersion (version : Shared → Nat) (frame : Shared → Prop) (noted : Nat) (fact : Prop)
    (shared : Shared) : Prop where
  frame : frame shared
  noted_le : noted ≤ version shared
  fact : version shared = noted → fact

/-- The world only moves the version forward while the frame holds. -/
structure Forward (world : World Shared Choice Request Answer)
    (guard : Guard Shared Fields Choice Request) (version : Shared → Nat)
    (frame : Shared → Prop) : Prop where
  stable : ∀ fields, Stable world guard fields frame
  version_le : ∀ fields shared choice, frame shared → guard shared fields (.idle choice) →
    version shared ≤ version (world.idle choice shared)

theorem AtVersion.stable (hForward : Forward world guard version frame) (fields : Fields)
    (noted : Nat) (fact : Prop) :
    Stable world guard fields (AtVersion version frame noted fact) := by
  intro shared choice h hGuard
  have hLe := hForward.version_le fields shared choice h.frame hGuard
  refine ⟨hForward.stable fields shared choice h.frame hGuard, Nat.le_trans h.noted_le hLe, ?_⟩
  intro hSame
  have hNoted := h.noted_le
  exact h.fact (by omega)

theorem AtVersion.mono {noted : Nat} {fact weaker : Prop} {shared : Shared}
    (h : AtVersion version frame noted fact shared) (hWeaker : fact → weaker) :
    AtVersion version frame noted weaker shared :=
  ⟨h.frame, h.noted_le, fun hSame => hWeaker (h.fact hSame)⟩

theorem Triple.load {request : Request} {noted : Nat} {value : Answer request}
    {P : Fields → Prop} (hForward : Forward world guard version frame)
    (hInv : ∀ shared fields, frame shared → inv shared fields)
    (hFrame : ∀ choice shared, frame shared → frame (world.serve request choice shared).2)
    (hVersion : ∀ choice shared, version (world.serve request choice shared).2 = version shared)
    (hValue : ∀ choice shared, frame shared → version shared = noted →
      (world.serve request choice shared).1 = value) :
    Triple world guard inv (fun fields => AtVersion version frame noted (P fields))
      (Code.ask request)
      (fun answer fields => AtVersion version frame noted (P fields ∧ answer = value)) := by
  refine Triple.ask ?_ ?_ ?_
  · intro fields
    exact AtVersion.stable hForward fields noted (P fields)
  · intro fields shared h
    exact hInv shared fields h.frame
  · intro fields shared choice h _
    refine ⟨hFrame choice shared h.frame, ?_, ?_⟩
    · rw [hVersion]
      exact h.noted_le
    · rw [hVersion]
      intro hSame
      exact ⟨h.fact hSame, hValue choice shared h.frame hSame⟩

end Concurrent
