import TensorTyping.Proofs.Generic.Outcome
import TensorTyping.Proofs.WellFormed.Operations

/-!
# Instantiation is guarded substitution

Instantiation does several things in one walk. It looks variables up and gives up at the first one that
is unbound, it takes types without variables over as they stand, and it checks every named tuple that
it puts together. `Ty.substitute` is the part of it that makes the result: all variables are replaced
at once, by types that are not looked at again, and nothing can fail.

The rest is a guard. On well-formed types, instantiation succeeds exactly when every variable is bound
and the substituted type has no field that contains the type of all values, and then the substituted
type is what it gives. So the order of the walk shows only in which of two failures is reported, and
the short cut does not show at all.
-/

set_option autoImplicit false

namespace TensorTyping

/-- The type that a variable stands for. A variable that is unbound stands for itself. -/
def Bindings.valueOf (b : Bindings) (x : String) : Ty := (b.get? x).getD (.var x)

theorem Bindings.valueOf_of_get? {b : Bindings} {x : String} {t : Ty} (h : b.get? x = some t) :
    b.valueOf x = t := by
  rw [valueOf, h, Option.getD_some]

/-- What holds of the types in all entries holds of the types that are bound. -/
theorem Bindings.forall_get?_of_entries {P : Ty → Prop} {b : Bindings}
    (h : ∀ q ∈ b.entries, P q.2) : ∀ x t, b.get? x = some t → P t := by
  intro x t hx
  obtain ⟨_, _, hentries, _⟩ := List.lookup_eq_some_iff.1 hx
  exact h (x, t) (by simp [hentries])

namespace Ty

/-! ## Substitution -/

mutual

/-- The type with every variable, reached through children, replaced by the type given for it. -/
def substitute (σ : String → Ty) : Ty → Ty
  | var x => σ x
  | list e => list (substitute σ e)
  | optional e => optional (substitute σ e)
  | future e => future (substitute σ e)
  | dict k v => dict (substitute σ k) (substitute σ v)
  | tuple s es => tuple s (substituteAll σ es)
  | t => t

/-- The types with every variable replaced. -/
def substituteAll (σ : String → Ty) : List Ty → List Ty
  | [] => []
  | t :: ts => substitute σ t :: substituteAll σ ts

end

variable {σ : String → Ty} {b : Bindings} {t : Ty}

theorem substituteAll_eq_map (σ : String → Ty) (ts : List Ty) :
    substituteAll σ ts = ts.map (substitute σ) := by
  induction ts with
  | nil => rfl
  | cons t ts ih => rw [substituteAll, ih, List.map_cons]

theorem ne_var_of_mem_children {c : Ty} (hc : c ∈ t.children) (x : String) : t ≠ var x := by
  rintro rfl
  simp [children] at hc

/-- Outside of variables, substitution exchanges the children. -/
theorem substitute_eq_withChildren (hvar : ∀ x, t ≠ var x) :
    t.substitute σ = t.withChildren (t.children.map (substitute σ)) := by
  cases t with
  | var x => exact absurd rfl (hvar x)
  | tuple s es => rw [substitute, substituteAll_eq_map, children, withChildren]
  | _ => rfl

theorem children_substitute (hvar : ∀ x, t ≠ var x) :
    (t.substitute σ).children = t.children.map (substitute σ) := by
  rw [substitute_eq_withChildren hvar]
  exact children_withChildren (List.length_map _)

/-- What is met on the way through a type is met, substituted, on the way through the substituted
type. -/
theorem contains_substitute {c : Ty} (h : t.Contains c) :
    (t.substitute σ).Contains (c.substitute σ) := by
  induction h using Relation.ReflTransGen.head_induction_on with
  | refl => exact contains_self _
  | head hp _ ih =>
    apply contains_of_mem_children _ ih
    rw [children_substitute (ne_var_of_mem_children hp)]
    exact List.mem_map_of_mem hp

/-! ## Successful instances -/

/-- **An instance is the substituted type.** -/
theorem eq_substitute_of_instantiate {r : Ty} (h : t.instantiate b = .ok (some r)) :
    r = t.substitute b.valueOf := by
  induction t using ind_size generalizing r with
  | step t ih =>
    by_cases hvar : ∃ x, t = var x
    · obtain ⟨x, rfl⟩ := hvar
      rw [instantiate_var, Except.ok.injEq] at h
      rw [substitute, Bindings.valueOf_of_get? h]
    · have hvar : ∀ x, t ≠ var x := fun x hx => hvar ⟨x, hx⟩
      obtain ⟨cs, rfl, hcs⟩ := children_of_instantiate hvar h
      have heq : List.Forall₂ (fun c c' => c.substitute b.valueOf = c') t.children cs := by
        refine forall₂_imp_of_mem (fun c hc c' _ hinst => ?_) hcs
        exact (ih c (sizeOf_lt_of_mem_children hc) hinst).symm
      rw [← List.forall₂_map_left_iff, List.forall₂_eq_eq_eq] at heq
      rw [substitute_eq_withChildren hvar, heq]

/-- All variables of a type with an instance are bound. -/
theorem isSome_get?_of_instantiate {r : Ty} (h : t.instantiate b = .ok (some r)) {x : String}
    (hx : t.Contains (var x)) : (b.get? x).isSome := by
  induction t using ind_size generalizing r with
  | step t ih =>
    rcases contains_iff.1 hx with rfl | ⟨c, hc, hcx⟩
    · rw [instantiate_var, Except.ok.injEq] at h
      rw [h, Option.isSome_some]
    · obtain ⟨cs, _, hcs⟩ := children_of_instantiate (ne_var_of_mem_children hc) h
      obtain ⟨c', _, hinst⟩ := exists_mem_left_of_forall₂ hcs.flip hc
      exact ih c (sizeOf_lt_of_mem_children hc) hinst hcx

/-! ## The guard -/

/-- No field of a named tuple, reached through children, contains the type of all values. -/
def FieldsAvoidAny (t : Ty) : Prop :=
  ∀ names es, t.Contains (tuple (some names) es) → ∀ e ∈ es, ¬ e.Contains (prim .any)

theorem WellFormed.fieldsAvoidAny (ht : t.WellFormed) : t.FieldsAvoidAny := by
  intro names es htuple e he hany
  have hmembers : (tuple (some names) es).MembersInOrder := ht _ htuple.reaches
  exact hmembers.2.2 e he hany.reaches

/-- An instantiation that fails does so at a field of a named tuple in the type: the field has an
instance, which contains the type of all values, and the error is about it. -/
theorem exists_substituted_field_of_error {e : MemberError} (h : t.instantiate b = .error e) :
    ∃ names es x c, t.Contains (tuple (some names) es) ∧ (x, c) ∈ names.fields.zip es ∧
      c.instantiate b = .ok (some (c.substitute b.valueOf)) ∧
      (c.substitute b.valueOf).Contains (prim .any) ∧
      e = .containsAny names.container .field x (c.substitute b.valueOf) := by
  obtain ⟨names, es, es', x, u, htuple, hinst, hmem, hany, rfl⟩ :=
    exists_field_of_instantiate_error h
  -- the instances of the elements are the substituted elements, so the field can be told by its place
  have hes' : es.map (substitute b.valueOf) = es' := by
    rw [← List.forall₂_eq_eq_eq, List.forall₂_map_left_iff]
    exact hinst.imp fun c c' hc => (eq_substitute_of_instantiate hc).symm
  rw [← hes', List.zip_map_right] at hmem
  obtain ⟨⟨y, c⟩, hc, hyc⟩ := List.mem_map.1 hmem
  obtain ⟨rfl, rfl⟩ := Prod.mk.inj hyc
  obtain ⟨c', _, hc'⟩ := exists_mem_left_of_forall₂ hinst.flip (List.of_mem_zip hc).2
  rw [eq_substitute_of_instantiate hc'] at hc'
  exact ⟨names, es, _, c, htuple, hc, hc', hany, rfl⟩

/-- A type has an instance when its variables are bound and the substituted type passes the guard.
There are three ways for an instantiation to end, and these rule out two. -/
theorem instantiate_of_guard (hbound : ∀ x, t.Contains (var x) → (b.get? x).isSome)
    (hfields : (t.substitute b.valueOf).FieldsAvoidAny) :
    t.instantiate b = .ok (some (t.substitute b.valueOf)) := by
  rcases h : t.instantiate b with e | _ | r
  · obtain ⟨names, es, x, c, htuple, hc, _, hany, _⟩ := exists_substituted_field_of_error h
    have htuple' := contains_substitute (σ := b.valueOf) htuple
    rw [substitute, substituteAll_eq_map] at htuple'
    have hmem := List.mem_map_of_mem (f := substitute b.valueOf) (List.of_mem_zip hc).2
    exact absurd hany (hfields names _ htuple' _ hmem)
  · obtain ⟨x, hx, hunbound⟩ := exists_unbound_of_instantiate h
    have hsome := hbound x hx
    rw [hunbound, Option.isSome_none] at hsome
    contradiction
  · rw [eq_substitute_of_instantiate h]

/-! ## Guarded substitution -/

/-- **Instantiation is substitution behind a guard.** A well-formed type has an instance under bindings
to well-formed types exactly when all its variables are bound and no field of a named tuple in the
substituted type contains the type of all values, and the instance is the substituted type. Where there
is none a variable is unbound, and an error is about a field of a named tuple in the type, the instance
of which contains the type of all values. -/
theorem instantiate_guarded_substitution (ht : t.WellFormed) (hb : b.WellFormed) :
    (∀ r, t.instantiate b = .ok (some r) ↔
      (∀ x, t.Contains (var x) → (b.get? x).isSome) ∧
        (t.substitute b.valueOf).FieldsAvoidAny ∧ r = t.substitute b.valueOf) ∧
    (t.instantiate b = .ok none → ∃ x, t.Contains (var x) ∧ b.get? x = none) ∧
    ∀ e, t.instantiate b = .error e →
      ∃ names es x c, t.Contains (tuple (some names) es) ∧ (x, c) ∈ names.fields.zip es ∧
        c.instantiate b = .ok (some (c.substitute b.valueOf)) ∧
        (c.substitute b.valueOf).Contains (prim .any) ∧
        e = .containsAny names.container .field x (c.substitute b.valueOf) := by
  refine ⟨fun r => ⟨fun h => ?_, ?_⟩, exists_unbound_of_instantiate,
    fun e => exists_substituted_field_of_error⟩
  · obtain rfl := eq_substitute_of_instantiate h
    have hr : (t.substitute b.valueOf).WellFormed := wellFormed_of_instantiate hb ht h
    exact ⟨fun x => isSome_get?_of_instantiate h, hr.fieldsAvoidAny, rfl⟩
  · rintro ⟨hbound, hfields, rfl⟩
    exact instantiate_of_guard hbound hfields

/-- Two variables that are bound to types with the other variable in them, each of which is replaced
once. With the type of all values in one of the bindings, the guard stops the same type. -/
theorem instantiate_guarded_substitution_exchange :
    let t := tuple (some ⟨some "P", ["x", "y"]⟩) [list (var "a"), dict (var "b") (var "a")]
    let r := tuple (some ⟨some "P", ["x", "y"]⟩) [list (var "b"), dict (list (var "a")) (var "b")]
    let b : Bindings := ⟨[("a", var "b"), ("b", list (var "a"))]⟩
    let b' : Bindings := ⟨[("a", var "b"), ("b", list (prim .any))]⟩
    (t.WellFormed ∧ b.WellFormed ∧ b'.WellFormed) ∧ t.instantiate b = .ok (some r) ∧
      ∀ u, t.instantiate b' ≠ .ok (some u) := by
  intro t r b b'
  have ht : t.WellFormed :=
    wellFormed_named_of_not_contains rfl (by decide) (by simp) (by simp)
  have hb : b.WellFormed := Bindings.forall_get?_of_entries (by simp [b])
  have hb' : b'.WellFormed := Bindings.forall_get?_of_entries (by simp [b'])
  refine ⟨⟨ht, hb, hb'⟩, ?_, fun u hu => ?_⟩
  · rw [(instantiate_guarded_substitution ht hb).1]
    have hr : r = t.substitute b.valueOf := rfl
    refine ⟨by simp [t, b, Bindings.get?], ?_, hr⟩
    rw [← hr]
    simp [FieldsAvoidAny, r]
  · obtain ⟨_, hfields, _⟩ := ((instantiate_guarded_substitution ht hb').1 u).1 hu
    have hsub : t.substitute b'.valueOf = tuple (some ⟨some "P", ["x", "y"]⟩)
      [list (var "b"), dict (list (prim .any)) (var "b")] := rfl
    rw [hsub] at hfields
    simp [FieldsAvoidAny] at hfields

end Ty

end TensorTyping
