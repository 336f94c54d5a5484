import TensorTyping.Generic.Instantiate
import TensorTyping.Proofs.InStep
import TensorTyping.Proofs.Ty.Member

/-!
# Instances, through children

Instantiation is written out form by form, with a short cut for types without variables. Seen from
outside it is the same for all forms: the children are instantiated and the type is rebuilt from
them, which is `Ty.instantiate_eq_rebuild`, and a variable is looked up. The short cut shows in one
place only, the names of tuples: a tuple that is taken over as it stands is not checked again.

So a successful instance is read off its formal type by `Ty.children_of_instantiate`: it is the same
type with instances in the place of the children.
-/

set_option autoImplicit false

namespace TensorTyping

namespace Ty

/-! ## Instances of lists -/

theorem forall₂_of_instantiateAll {b : Bindings} {ts us : List Ty}
    (h : instantiateAll b ts = .ok (some us)) :
    List.Forall₂ (fun t u => t.instantiate b = .ok (some u)) ts us := by
  induction ts generalizing us with
  | nil =>
    obtain rfl : [] = us := by simpa [instantiateAll] using h
    exact .nil
  | cons t ts ih =>
    rw [instantiateAll] at h
    obtain ⟨t', ht, h⟩ := exists_of_bind_eq_ok_some h rfl
    obtain ⟨ts', hts, h⟩ := exists_of_bind_eq_ok_some h rfl
    obtain rfl : t' :: ts' = us := by simpa [pure, Except.pure] using h
    exact .cons ht (ih hts)

/-! ## Instances of types -/

theorem instantiate_of_closed (b : Bindings) {t : Ty} (h : ¬ t.hasVars) :
    t.instantiate b = .ok (some t) := by
  rw [instantiate.eq_def, if_neg h]

theorem instantiate_var (b : Bindings) (x : String) :
    (var x).instantiate b = .ok (b.get? x) := by
  rw [instantiate.eq_def]
  rfl

/-- The instance of a type with variables inside is rebuilt from the instances of its children. -/
theorem instantiate_eq_rebuild (b : Bindings) {t : Ty} (h : t.hasVars) (hvar : ∀ x, t ≠ var x) :
    t.instantiate b = (do
      let some cs ← instantiateAll b t.children | return none
      return some (← t.rebuild cs)) := by
  rw [instantiate.eq_def, if_pos h]
  cases t with
  | list e | optional e | future e =>
    simp only [children, instantiateAll]
    rcases e.instantiate b with _ | _ | e' <;> rfl
  | dict k v =>
    simp only [children, instantiateAll]
    rcases k.instantiate b with _ | _ | k' <;> rcases v.instantiate b with _ | _ | v' <;> rfl
  | tuple s es => rfl
  | var x => exact absurd rfl (hvar x)
  | _ => simp [hasVars] at h

/-- **An instance is its formal type with instances for children.** -/
theorem children_of_instantiate {b : Bindings} {t a : Ty} (hvar : ∀ x, t ≠ var x)
    (h : t.instantiate b = .ok (some a)) :
    ∃ cs, a = t.withChildren cs ∧
      List.Forall₂ (fun c c' => c.instantiate b = .ok (some c')) t.children cs := by
  by_cases hv : t.hasVars
  · rw [instantiate_eq_rebuild b hv hvar] at h
    obtain ⟨cs, hcs, h⟩ := exists_of_bind_eq_ok_some h rfl
    obtain ⟨u, hu, h⟩ := bind_eq_ok_iff.1 h
    obtain rfl : u = a := by simpa [pure, Except.pure] using h
    exact ⟨cs, eq_withChildren_of_rebuild hu, forall₂_of_instantiateAll hcs⟩
  · -- the short cut: the type is its own instance, and so is each of its children
    rw [instantiate_of_closed b hv] at h
    obtain rfl : t = a := by simpa using h
    refine ⟨t.children, (withChildren_children t).symm, List.forall₂_same.2 ?_⟩
    intro c hc
    exact instantiate_of_closed b (not_hasVars_of_mem_children hv hc)

/-! ## Instances by form -/

theorem eq_of_instantiate_closed {b : Bindings} {t a : Ty} (hclosed : ¬ t.hasVars)
    (h : t.instantiate b = .ok (some a)) : a = t := by
  rw [instantiate_of_closed b hclosed] at h
  simpa using h.symm

/-- The instance of a type with a single child is that type around an instance of the child. -/
theorem exists_of_instantiate_single {b : Bindings} {t e a : Ty} (hvar : ∀ x, t ≠ var x)
    (hchildren : t.children = [e]) (h : t.instantiate b = .ok (some a)) :
    ∃ e', a = t.withChildren [e'] ∧ e.instantiate b = .ok (some e') := by
  obtain ⟨cs, rfl, hcs⟩ := children_of_instantiate hvar h
  rw [hchildren] at hcs
  obtain ⟨e', cs', he, hnil, rfl⟩ := List.forall₂_cons_left_iff.1 hcs
  rw [List.forall₂_nil_left_iff.1 hnil]
  exact ⟨e', rfl, he⟩

theorem exists_of_instantiate_list {b : Bindings} {e a : Ty}
    (h : (list e).instantiate b = .ok (some a)) :
    ∃ e', a = list e' ∧ e.instantiate b = .ok (some e') :=
  exists_of_instantiate_single (by simp) rfl h

theorem exists_of_instantiate_optional {b : Bindings} {e a : Ty}
    (h : (optional e).instantiate b = .ok (some a)) :
    ∃ e', a = optional e' ∧ e.instantiate b = .ok (some e') :=
  exists_of_instantiate_single (by simp) rfl h

theorem exists_of_instantiate_future {b : Bindings} {e a : Ty}
    (h : (future e).instantiate b = .ok (some a)) :
    ∃ e', a = future e' ∧ e.instantiate b = .ok (some e') :=
  exists_of_instantiate_single (by simp) rfl h

theorem exists_of_instantiate_dict {b : Bindings} {k v a : Ty}
    (h : (dict k v).instantiate b = .ok (some a)) :
    ∃ k' v', a = dict k' v' ∧ k.instantiate b = .ok (some k') ∧
      v.instantiate b = .ok (some v') := by
  obtain ⟨cs, rfl, hcs⟩ := children_of_instantiate (by simp) h
  obtain ⟨k', cs₁, hk, hcs₁, rfl⟩ := List.forall₂_cons_left_iff.1 hcs
  obtain ⟨v', cs₂, hv, hnil, rfl⟩ := List.forall₂_cons_left_iff.1 hcs₁
  rw [List.forall₂_nil_left_iff.1 hnil]
  exact ⟨k', v', rfl, hk, hv⟩

theorem exists_of_instantiate_tuple {b : Bindings} {s : Option TupleNames} {es : List Ty} {a : Ty}
    (h : (tuple s es).instantiate b = .ok (some a)) :
    ∃ es', a = tuple s es' ∧
      List.Forall₂ (fun e e' => e.instantiate b = .ok (some e')) es es' := by
  obtain ⟨cs, rfl, hcs⟩ := children_of_instantiate (by simp) h
  exact ⟨cs, rfl, hcs⟩

end Ty

end TensorTyping
