import TensorTyping.Proofs.Generic.Outcome
import TensorTyping.Proofs.Unify.Atoms
import TensorTyping.Proofs.WellFormed.Operations

/-!
# A generic call goes through

A call of a generic operation matches the actual types against the formal ones and then instantiates
other formal types, such as that of the result, under the bindings found. This module says when the
second step cannot go wrong after the first has succeeded.

Everything rests on where the bound types come from. Each is a part of an actual type or what such
parts unify to, and neither makes a new atom (`Ty.atomFree_of_matchTypes`). So:

* if the type of all values is in no actual type, it is in no binding. Then an instance has it only
  where the formal type had it, which is never under a field name, and no instantiation fails;
* if none is in no actual type, it never stands in the place of an optional, and that is the only way
  for a variable to be passed over. Then exactly the variables of the formal types are bound, and every
  formal type made of these has an instance;
* if no actual type has variables, then no binding and no instance has any.
-/

set_option autoImplicit false

namespace TensorTyping

namespace Ty

/-! ## What the bound types contain -/

/-- An atom that is in no actual type is in no bound type. -/
theorem atomFree_of_matchTypes {s : Ty} (hs : s.IsAtom) {fs as : List Ty} {e : Bindings}
    (has : ∀ a ∈ as, ¬ a.Contains s) (h : matchTypes fs as = .ok e) {x : String} {t : Ty}
    (hx : e.get? x = some t) : ¬ t.Contains s :=
  of_get?_matchTypes not_contains_of_mem_children (not_contains_of_unify hs) has h hx

theorem closed_of_matchTypes {fs as : List Ty} {e : Bindings} (has : ∀ a ∈ as, ¬ a.hasVars)
    (h : matchTypes fs as = .ok e) {x : String} {t : Ty} (hx : e.get? x = some t) :
    ¬ t.hasVars := by
  intro ht
  obtain ⟨y, hy⟩ := hasVars_iff.1 ht
  have hfree : ∀ a ∈ as, ¬ a.Contains (var y) := by
    intro a ha hay
    exact has a ha (hasVars_iff.2 ⟨y, hay⟩)
  exact atomFree_of_matchTypes (isAtom_var y) hfree h hx hy

/-! ## Which variables are bound -/

/-- Where the actual type is not none, every child of the formal type faces something. -/
theorem Faces.map_fst {f a : Ty} {ps : List (Ty × Ty)} (h : Faces f a ps) (ha : a ≠ prim .none) :
    ps.map Prod.fst = f.children := by
  cases h with
  | tuples hlen => exact List.map_fst_zip (Nat.le_of_eq hlen)
  | optionalNone => exact absurd rfl ha
  | _ => rfl

/-- A walk along a type without none that comes to its end has met every variable. -/
theorem exists_met_of_contains_var {f a : Ty} {x : String} (hnone : ¬ a.Contains (prim .none))
    (hfault : (walk f a).fault = none) (hx : f.Contains (var x)) :
    ∃ t, (x, t) ∈ (walk f a).met := by
  induction f, a using walk_ind with
  | closed f a hclosed => exact absurd (hasVars_iff.2 ⟨x, hx⟩) hclosed
  | var y a =>
    obtain rfl : x = y := by simpa using hx
    rw [walk_var]
    exact ⟨a, List.mem_cons_self⟩
  | rule f a ps hopen hps hwalk ih =>
    rw [hwalk] at hfault ⊢
    have hne : a ≠ prim .none := by
      rintro rfl
      exact hnone (contains_self _)
    -- the variable is in a child, the child is the formal side of a pair, and the pair is walked
    obtain hself | ⟨c, hc, hcx⟩ := contains_iff.1 hx
    · exact absurd hself.symm (hps.ne_var x)
    rw [← hps.map_fst hne] at hc
    obtain ⟨q, hq, rfl⟩ := List.mem_map.1 hc
    have hq₂ : ¬ q.2.Contains (prim .none) :=
      hps.snd_of not_contains_of_mem_children (not_contains_of_unify (isAtom_prim .none)) hnone q hq
    obtain ⟨hfault', hsub⟩ := walkPairs_complete hfault hq
    obtain ⟨t, ht⟩ := ih q hq hq₂ hfault' hcx
    exact ⟨t, hsub ht⟩
  | misfit f a m _ hwalk => simp [hwalk, Walk.fail] at hfault

/-- **A match without none binds the variables of the formal types, all of them and no others.** -/
theorem isSome_get?_matchTypes_iff {fs as : List Ty} {e : Bindings}
    (hnone : ∀ a ∈ as, ¬ a.Contains (prim .none)) (h : matchTypes fs as = .ok e) (x : String) :
    (e.get? x).isSome ↔ ∃ f ∈ fs, f.Contains (var x) := by
  obtain ⟨hlen, hrun⟩ := matchTypes_eq_ok_iff.1 h
  obtain ⟨hfault, he⟩ := Walk.complete_of_replay hrun
  rw [he, List.lookup_isSome_iff]
  constructor
  · rintro ⟨⟨y, t⟩, hmem, hxy⟩
    obtain rfl : x = y := by simpa using hxy
    obtain ⟨q, hq, hmeets⟩ := meets_of_mem_met_walkEach hmem
    exact ⟨q.1, (List.of_mem_zip hq).1, hmeets.contains_fst⟩
  · rintro ⟨f, hf, hfx⟩
    rw [← List.map_fst_zip (Nat.le_of_eq hlen)] at hf
    obtain ⟨q, hq, rfl⟩ := List.mem_map.1 hf
    rw [walkEach_eq_walkPairs] at hfault ⊢
    obtain ⟨hfault', hsub⟩ := walkPairs_complete hfault hq
    have hq₂ : ¬ q.2.Contains (prim .none) := hnone q.2 (List.of_mem_zip hq).2
    obtain ⟨t, ht⟩ := exists_met_of_contains_var hq₂ hfault' hfx
    exact ⟨(x, t), hsub ht, by simp⟩

/-! ## Instances under the bindings -/

/-- Under bindings to types without the type of all values, no well-formed type fails to
instantiate. -/
theorem instantiate_ne_error {e : Bindings} (he : ∀ x t, e.get? x = some t → ¬ t.Contains (prim .any))
    {r : Ty} (hr : r.WellFormed) (err : MemberError) : r.instantiate e ≠ .error err := by
  intro h
  obtain ⟨names, es, es', x, u, htuple, hinst, hmem, hany, _⟩ := exists_field_of_instantiate_error h
  obtain ⟨c, hc, hcu⟩ := exists_mem_left_of_forall₂ hinst (List.of_mem_zip hmem).2
  -- the field would have it from the formal type, which is well formed, or from a binding
  rcases contains_of_instantiate (isAtom_prim .any) hcu hany with ⟨hcany, _⟩ | ⟨y, v, _, hy, hv⟩
  · have hmembers : (tuple (some names) es).MembersInOrder := hr _ htuple.reaches
    exact hmembers.2.2 c hc hcany.reaches
  · exact he y v hy hv

/-- **A generic call goes through.** Let formal types match actual types that do not contain the type
of all values. Then no well-formed type fails to instantiate under the bindings found. If moreover no
actual type contains none, then exactly the variables of the formal types are bound, every well-formed
type made of these variables has an instance, and the instance has no variables if the actual types
have none. -/
theorem instantiate_of_matchTypes {fs as : List Ty} {e : Bindings}
    (hmatch : matchTypes fs as = .ok e) (hany : ∀ a ∈ as, ¬ a.containsAny) :
    (∀ r : Ty, r.WellFormed → ∃ o, r.instantiate e = .ok o) ∧
    ((∀ a ∈ as, ¬ a.Contains (prim .none)) →
      (∀ x, (e.get? x).isSome ↔ ∃ f ∈ fs, f.Contains (var x)) ∧
      ∀ r : Ty, r.WellFormed → (∀ x, r.Contains (var x) → ∃ f ∈ fs, f.Contains (var x)) →
        ∃ t, r.instantiate e = .ok (some t) ∧ ((∀ a ∈ as, ¬ a.hasVars) → ¬ t.hasVars)) := by
  have hbound : ∀ x t, e.get? x = some t → ¬ t.Contains (prim .any) := by
    intro x t
    have hfree : ∀ a ∈ as, ¬ a.Contains (prim .any) := by
      intro a ha
      rw [← containsAny_iff]
      exact hany a ha
    exact atomFree_of_matchTypes (isAtom_prim .any) hfree hmatch
  have hok : ∀ r : Ty, r.WellFormed → ∃ o, r.instantiate e = .ok o := by
    intro r hr
    rcases h : r.instantiate e with err | o
    · exact absurd h (instantiate_ne_error hbound hr err)
    · exact ⟨o, rfl⟩
  refine ⟨hok, fun hnone => ⟨isSome_get?_matchTypes_iff hnone hmatch, fun r hr hvars => ?_⟩⟩
  obtain ⟨_ | t, ht⟩ := hok r hr
  · -- a variable without a binding would be one that the formal types do not have
    obtain ⟨x, hx, hunbound⟩ := exists_unbound_of_instantiate ht
    have hsome : (e.get? x).isSome := (isSome_get?_matchTypes_iff hnone hmatch x).2 (hvars x hx)
    simp [hunbound] at hsome
  · refine ⟨t, ht, fun hclosed => ?_⟩
    exact not_hasVars_of_instantiate (fun x v => closed_of_matchTypes hclosed hmatch) ht

/-- A tuple in the place of a list, so that a variable is bound to what two tensors share, and a type
other than none in the place of an optional. The formal result is a named tuple, whose fields are
looked at again, and an instance of it has no variables. -/
theorem instantiate_of_matchTypes_named :
    let f := TensorFacts.dense .float .cpu [2]
    let g := TensorFacts.dense .float .cpu [3]
    let fs := [list (var "t"), optional (var "k")]
    let as := [tuple none [tensor f, tensor g], dict (prim .string) (prim .int)]
    let e : Bindings := ⟨[("k", dict (prim .string) (prim .int)), ("t", tensor (f.merge g))]⟩
    let r := tuple (some ⟨some "P", ["x", "y"]⟩) [dict (prim .string) (var "t"), optional (var "k")]
    (matchTypes fs as = .ok e ∧ r.WellFormed ∧
      ∀ a ∈ as, ¬ a.containsAny ∧ ¬ a.Contains (prim .none) ∧ ¬ a.hasVars) ∧
      ∃ t, r.instantiate e = .ok (some t) ∧ ¬ t.hasVars := by
  intro f g fs as e r
  have hu : unifyAll [tensor f, tensor g] = some (tensor (f.merge g)) := by decide +kernel
  have hmatch : matchTypes fs as = .ok e := by
    simp only [matchTypes, bindEach, bindVars, hasVars, hu, fs, as]
    rfl
  have hany : ∀ a ∈ as, ¬ a.containsAny := by decide +kernel
  have hnone : ∀ a ∈ as, ¬ a.Contains (prim .none) := by simp [as]
  have hclosed : ∀ a ∈ as, ¬ a.hasVars := by decide
  have hr : r.WellFormed := by
    have hfields : ∀ c ∈ r.children, c.WellFormed := by simp [r, children]
    have hmembers : ∀ c ∈ r.children, ¬ c.Contains (prim .any) := by simp [r, children]
    refine wellFormed_tuple_some.2 ⟨⟨rfl, by decide, fun c hc => ?_⟩, hfields⟩
    exact (hfields c hc).not_reaches_any (hmembers c hc)
  have hvars : ∀ x, r.Contains (var x) → ∃ f ∈ fs, f.Contains (var x) := by simp [r, fs]
  obtain ⟨t, ht, hfree⟩ := ((instantiate_of_matchTypes hmatch hany).2 hnone).2 r hr hvars
  exact ⟨⟨hmatch, hr, fun a ha => ⟨hany a ha, hnone a ha, hclosed a ha⟩⟩, t, ht, hfree hclosed⟩

end Ty

end TensorTyping
