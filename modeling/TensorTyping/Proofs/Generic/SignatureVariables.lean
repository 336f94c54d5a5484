import TensorTyping.Proofs.Generic.Substitution

/-!
# Variables that are left in an instance

Bindings to types without variables do not leave any among the children of an instance. But a variable
can also stand in the signature of an interface, where instantiation does not look: an interface has no
children, and it is taken over as it stands. So the variables in an instance, looked for through all
parts, are those in the signatures of the interfaces that the type contains, no more and no fewer.
-/

set_option autoImplicit false

namespace TensorTyping

namespace Ty

/-- No variable occurs in the type, nor in a signature inside it. -/
def VariableFree (t : Ty) : Prop := ∀ x, ¬ t.Reaches (var x)

theorem variableFree_prim (p : Primitive) : (prim p).VariableFree := by
  intro x hx
  rcases reaches_iff.1 hx with h | ⟨c, hc, _⟩
  · simp at h
  · simp [parts, children] at hc

variable {b : Bindings} {t r : Ty}

/-- An interface in a type stays in the instance. -/
theorem contains_interface_of_instantiate (h : t.instantiate b = .ok (some r)) {x : String}
    {ms : List (Signature Ty)} (ht : t.Contains (interface x ms)) : r.Contains (interface x ms) := by
  rw [eq_substitute_of_instantiate h]
  exact contains_substitute ht

/-- What an instance under bindings to types without variables has of variables in signatures, the
type has as well. -/
theorem reachesInSignature_of_instantiate (hb : ∀ x v, b.get? x = some v → v.VariableFree)
    (h : t.instantiate b = .ok (some r)) {y : String} (hr : r.ReachesInSignature (var y)) :
    t.ReachesInSignature (var y) := by
  obtain ⟨x, ms, hinterface, hinside⟩ := hr
  rcases contains_of_instantiate (isAtom_interface x ms) h hinterface with
    ⟨ht, _⟩ | ⟨z, v, _, hz, hv⟩
  · exact ⟨x, ms, ht, hinside⟩
  · -- an interface that comes from a binding has no variables
    have hreaches : v.Reaches (var y) := reaches_iff_contains_or.2 (.inr ⟨x, ms, hv, hinside⟩)
    exact absurd hreaches (hb z v hz y)

/-- **Only variables in signatures are left.** An instance under bindings to types without variables
contains no variable, and the variables that it has in signatures are those that the type has there. -/
theorem variables_left_in_instance (hb : ∀ x v, b.get? x = some v → v.VariableFree)
    (h : t.instantiate b = .ok (some r)) :
    (∀ y, ¬ r.Contains (var y)) ∧ ∀ y, r.Reaches (var y) ↔ t.ReachesInSignature (var y) := by
  have hclosed : ¬ r.hasVars := by
    refine not_hasVars_of_instantiate (fun x v hx hv => ?_) h
    obtain ⟨y, hy⟩ := hasVars_iff.1 hv
    exact hb x v hx y hy.reaches
  have hchildren : ∀ y, ¬ r.Contains (var y) := fun y hy => hclosed (hasVars_iff.2 ⟨y, hy⟩)
  refine ⟨hchildren, fun y => ⟨fun hr => ?_, ?_⟩⟩
  · rcases reaches_iff_contains_or.1 hr with hy | hy
    · exact absurd hy (hchildren y)
    · exact reachesInSignature_of_instantiate hb h hy
  · rintro ⟨x, ms, hinterface, hinside⟩
    have hr : r.Contains (interface x ms) := contains_interface_of_instantiate h hinterface
    exact reaches_iff_contains_or.2 (.inr ⟨x, ms, hr, hinside⟩)

/-- A tuple of a variable and a list of interfaces. The variable is replaced, and the one in the
signature is left. -/
theorem variables_left_in_instance_tuple :
    let i := interface "I" [⟨"f", [("x", prim .int)], [optional (var "s")]⟩]
    let b : Bindings := ⟨[("t", prim .int), ("s", prim .int)]⟩
    let t := tuple none [var "t", list i]
    let r := tuple none [prim .int, list i]
    ((∀ x v, b.get? x = some v → v.VariableFree) ∧ t.instantiate b = .ok (some r)) ∧
      (∀ y, ¬ r.Contains (var y)) ∧ r.Reaches (var "s") := by
  intro i b t r
  have hb : ∀ x v, b.get? x = some v → v.VariableFree :=
    Bindings.forall_get?_of_entries (by simp [b, variableFree_prim])
  have h : t.instantiate b = .ok (some r) := rfl
  obtain ⟨hnone, hleft⟩ := variables_left_in_instance hb h
  refine ⟨⟨hb, h⟩, hnone, (hleft "s").2 ?_⟩
  have hi : t.Contains i := by simp [t, contains_self]
  have hs : (optional (var "s")).Reaches (var "s") := Contains.reaches (by simp)
  exact ⟨"I", _, hi, _, List.mem_singleton_self _, _, by simp [Signature.types], hs⟩

/-- A variable survives in a well-formed interface, although it is bound to a type without variables. -/
theorem variable_survives_in_signature :
    let i := interface "I" [⟨"f", [("x", var "t")], []⟩]
    let b : Bindings := ⟨[("t", prim .int)]⟩
    i.WellFormed ∧ (∀ x v, b.get? x = some v → v.VariableFree) ∧
      i.instantiate b = .ok (some i) ∧ i.Reaches (var "t") := by
  intro i b
  have hwf : i.WellFormed := wellFormed_interface_of_not_contains (by decide)
    (by simp [Signature.types]) (by simp [Signature.types])
  have hpart : var "t" ∈ i.parts := by simp [i, parts, Signature.types]
  refine ⟨hwf, Bindings.forall_get?_of_entries (by simp [b, variableFree_prim]), rfl, ?_⟩
  exact reaches_iff.2 (.inr ⟨var "t", hpart, reaches_self _⟩)

end Ty

end TensorTyping
