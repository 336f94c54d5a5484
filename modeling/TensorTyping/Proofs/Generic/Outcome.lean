import TensorTyping.Proofs.Generic.Instance

/-!
# What an instantiation comes to

Instantiation ends in one of three ways, and each has its reason in the type and in the bindings.

* *There is no instance.* Then a variable of the type is unbound.
* *It is an error.* Then a named tuple in the type has a field whose instance contains the type of all
  values, and the error is about that field.
* *There is an instance.* Its atoms are those of the type and those of the bound types. The variables
  of the type itself are gone, all at once: what is bound in their place is not looked at again.

The reasons are found by following the walk that failed, or the atom, down to where it started.
-/

set_option autoImplicit false

namespace TensorTyping

namespace Ty

/-! ## No instance -/

/-- A list of types has no instances because one of the types has none. -/
theorem exists_of_instantiateAll_eq_none {b : Bindings} {ts : List Ty}
    (h : instantiateAll b ts = .ok none) : ∃ t ∈ ts, t.instantiate b = .ok none := by
  induction ts with
  | nil => simp [instantiateAll] at h
  | cons t ts ih =>
    rw [instantiateAll] at h
    obtain ⟨o, ht, h⟩ := bind_eq_ok_iff.1 h
    cases o with
    | none => exact ⟨t, List.mem_cons_self, ht⟩
    | some t' =>
      obtain ⟨os, hts, h⟩ := bind_eq_ok_iff.1 h
      cases os with
      | none =>
        obtain ⟨s, hs, hnone⟩ := ih hts
        exact ⟨s, List.mem_cons_of_mem t hs, hnone⟩
      | some ts' => simp [pure, Except.pure] at h

/-- **A type without an instance has an unbound variable.** -/
theorem exists_unbound_of_instantiate {b : Bindings} {t : Ty} (h : t.instantiate b = .ok none) :
    ∃ x, t.Contains (var x) ∧ b.get? x = none := by
  induction t using ind_size with
  | step t ih =>
    by_cases hopen : t.hasVars
    · by_cases hvar : ∃ x, t = var x
      · obtain ⟨x, rfl⟩ := hvar
        rw [instantiate_var, Except.ok.injEq] at h
        exact ⟨x, contains_self _, h⟩
      · rw [instantiate_eq_rebuild b hopen fun x hx => hvar ⟨x, hx⟩] at h
        obtain ⟨o, hcs, h⟩ := bind_eq_ok_iff.1 h
        cases o with
        | none =>
          obtain ⟨c, hc, hnone⟩ := exists_of_instantiateAll_eq_none hcs
          obtain ⟨x, hx, hunbound⟩ := ih c (sizeOf_lt_of_mem_children hc) hnone
          exact ⟨x, contains_of_mem_children hc hx, hunbound⟩
        | some cs =>
          -- with instances for all children there is one for the type, or an error
          obtain ⟨u, _, h⟩ := bind_eq_ok_iff.1 h
          simp [pure, Except.pure] at h
    · rw [instantiate_of_closed b hopen] at h
      simp at h

/-! ## Errors -/

/-- The instantiation of a list of types fails because that of one of them does. -/
theorem exists_of_instantiateAll_eq_error {b : Bindings} {ts : List Ty} {e : MemberError}
    (h : instantiateAll b ts = .error e) : ∃ t ∈ ts, t.instantiate b = .error e := by
  induction ts with
  | nil => simp [instantiateAll] at h
  | cons t ts ih =>
    rw [instantiateAll] at h
    rcases bind_eq_error_iff.1 h with ht | ⟨o, _, h⟩
    · exact ⟨t, List.mem_cons_self, ht⟩
    · cases o with
      | none => simp [pure, Except.pure] at h
      | some t' =>
        rcases bind_eq_error_iff.1 h with hts | ⟨os, _, h⟩
        · obtain ⟨s, hs, herr⟩ := ih hts
          exact ⟨s, List.mem_cons_of_mem t hs, herr⟩
        · cases os <;> simp [pure, Except.pure] at h

/-- **An instantiation that fails would put the type of all values into a named tuple.** The error is
about the field of which this is the instance. -/
theorem exists_field_of_instantiate_error {b : Bindings} {t : Ty} {e : MemberError}
    (h : t.instantiate b = .error e) :
    ∃ names es es' x u, t.Contains (tuple (some names) es) ∧
      List.Forall₂ (fun c c' => c.instantiate b = .ok (some c')) es es' ∧
      (x, u) ∈ names.fields.zip es' ∧ u.Contains (prim .any) ∧
      e = .containsAny names.container .field x u := by
  induction t using ind_size with
  | step t ih =>
    by_cases hopen : t.hasVars
    · by_cases hvar : ∃ x, t = var x
      · obtain ⟨x, rfl⟩ := hvar
        simp [instantiate_var] at h
      · rw [instantiate_eq_rebuild b hopen fun x hx => hvar ⟨x, hx⟩] at h
        rcases bind_eq_error_iff.1 h with hcs | ⟨o, hcs, h⟩
        · -- the failure comes from a child, and so does the named tuple
          obtain ⟨c, hc, herr⟩ := exists_of_instantiateAll_eq_error hcs
          obtain ⟨names, es, es', x, u, hcontains, hrest⟩ := ih c (sizeOf_lt_of_mem_children hc) herr
          exact ⟨names, es, es', x, u, contains_of_mem_children hc hcontains, hrest⟩
        · cases o with
          | none => simp [pure, Except.pure] at h
          | some cs =>
            rcases bind_eq_error_iff.1 h with hrebuild | ⟨_, _, h⟩
            · obtain ⟨names, es, x, u, rfl, hmem, hany, rfl⟩ := rebuild_eq_error hrebuild
              have hinst := forall₂_of_instantiateAll hcs
              exact ⟨names, es, cs, x, u, contains_self _, hinst, hmem, hany, rfl⟩
            · simp [pure, Except.pure] at h
    · rw [instantiate_of_closed b hopen] at h
      simp at h

/-! ## Instances -/

/-- **An atom in an instance was in the type or comes from a binding.** In the first case it is not a
variable, and in the second the binding is that of a variable of the type. -/
theorem contains_of_instantiate {b : Bindings} {s t u : Ty} (hs : s.IsAtom)
    (h : t.instantiate b = .ok (some u)) (hu : u.Contains s) :
    (t.Contains s ∧ ∀ x, s ≠ var x) ∨
      ∃ x v, t.Contains (var x) ∧ b.get? x = some v ∧ v.Contains s := by
  induction t using ind_size generalizing u with
  | step t ih =>
    by_cases hvar : ∃ x, t = var x
    · obtain ⟨x, rfl⟩ := hvar
      rw [instantiate_var, Except.ok.injEq] at h
      exact .inr ⟨x, u, contains_self _, h, hu⟩
    · have hvar : ∀ x, t ≠ var x := fun x hx => hvar ⟨x, hx⟩
      obtain ⟨cs, rfl, hcs⟩ := children_of_instantiate hvar h
      rcases contains_iff.1 hu with rfl | ⟨c', hc', hc's⟩
      · -- the instance is the atom, so it is the type as it was
        rw [withChildren_of_isAtom hs]
        exact .inl ⟨contains_self t, hvar⟩
      · rw [children_withChildren hcs.length_eq.symm] at hc'
        obtain ⟨c, hc, hinst⟩ := exists_mem_left_of_forall₂ hcs hc'
        rcases ih c (sizeOf_lt_of_mem_children hc) hinst hc's with ⟨hcs, hne⟩ | ⟨x, v, hx, hrest⟩
        · exact .inl ⟨contains_of_mem_children hc hcs, hne⟩
        · exact .inr ⟨x, v, contains_of_mem_children hc hx, hrest⟩

/-- The instance under bindings to types without variables has none. -/
theorem not_hasVars_of_instantiate {b : Bindings} {t u : Ty}
    (hb : ∀ x v, b.get? x = some v → ¬ v.hasVars) (h : t.instantiate b = .ok (some u)) :
    ¬ u.hasVars := by
  intro hu
  obtain ⟨y, hy⟩ := hasVars_iff.1 hu
  rcases contains_of_instantiate (isAtom_var y) h hy with ⟨_, hne⟩ | ⟨x, v, _, hx, hv⟩
  · exact hne y rfl
  · exact hb x v hx (hasVars_iff.2 ⟨y, hv⟩)

end Ty

end TensorTyping
