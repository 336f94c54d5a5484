import TensorTyping.Proofs.Unify.Atoms
import TensorTyping.Proofs.WellFormed.Basic

/-!
# Forgetting tensor facts is a closure operator

Forgetting facts replaces the elements of a tuple, and for elements that cannot stand under its field
names there is a fallback that keeps the tuple as it was. On well-formed types the fallback is never
taken, since forgetting facts makes no type of all values where there was none
(`Ty.rebuild_forgetFacts`). So on well-formed types it is an exchange of children all the way down to
the tensors, and no tensor is missed.

With that, types that compare do so without their facts as well. Only the larger type has to be well
formed: a tuple that keeps its facts is still below a tuple that has forgotten them.
-/

set_option autoImplicit false

namespace TensorTyping

namespace Ty

/-! ## The fallback -/

/-- Under the names of a well-formed tuple, its elements can stand without their facts. -/
theorem checkElems_map_forgetFacts {s : Option TupleNames} {es : List Ty}
    (h : (tuple s es).WellFormed) : checkElems s (es.map forgetFacts) = .ok () := by
  refine checkElems_eq_ok_iff.2 ?_
  rintro names rfl ⟨x, e'⟩ hmem hany
  obtain ⟨e, he, rfl⟩ := List.mem_map.1 (List.of_mem_zip hmem).2
  have hcontains : e.Contains (prim .any) :=
    contains_of_contains_forgetFacts (isAtom_prim .any) hany
  exact (wellFormed_tuple_some.1 h).1.2.2 e he hcontains.reaches

/-- In a well-formed tuple, forgetting facts reaches every element. -/
theorem forgetFacts_tuple {s : Option TupleNames} {es : List Ty} (h : (tuple s es).WellFormed) :
    (tuple s es).forgetFacts = tuple s (es.map forgetFacts) := by
  rw [forgetFacts, forgetFactsAll_eq_map, rebuildD, rebuild, checkElems_map_forgetFacts h]
  rfl

/-- **The fallback is never taken.** A well-formed type other than a tensor can always be rebuilt from
its children without their facts, and forgetting facts does so. -/
theorem rebuild_forgetFacts {t : Ty} (ht : t.WellFormed) (htensor : ∀ f, t ≠ tensor f) :
    t.rebuild (t.children.map forgetFacts) = .ok t.forgetFacts := by
  cases t with
  | tensor f => exact absurd rfl (htensor f)
  | tuple s es =>
    rw [forgetFacts_tuple ht, children, rebuild, checkElems_map_forgetFacts ht]
    rfl
  | _ => rfl

/-! ## What is left of tensors -/

/-- Every tensor in a well-formed type without its facts is generic. -/
theorem eq_unknown_of_contains_forgetFacts {t : Ty} (ht : t.WellFormed) {f : TensorFacts}
    (h : t.forgetFacts.Contains (tensor f)) : f = .unknown := by
  induction t using ind_size with
  | step t ih =>
    by_cases htensor : ∃ g, t = tensor g
    · obtain ⟨g, rfl⟩ := htensor
      rw [forgetFacts, genericTensor, contains_tensor, tensor.injEq] at h
      exact h
    · have htensor : ∀ g, t ≠ tensor g := fun g hg => htensor ⟨g, hg⟩
      rw [eq_withChildren_of_rebuild (rebuild_forgetFacts ht htensor)] at h
      rcases contains_iff.1 h with heq | ⟨c', hc', hf⟩
      · -- the exchange of children makes a tensor out of a tensor only
        cases t <;> simp [withChildren, children] at heq htensor
      · rw [children_withChildren (List.length_map _)] at hc'
        obtain ⟨c, hc, rfl⟩ := List.mem_map.1 hc'
        exact ih c (sizeOf_lt_of_mem_children hc) (ht.of_mem_children hc) hf

theorem forgetFacts_forgetFacts {t : Ty} (ht : t.WellFormed) :
    t.forgetFacts.forgetFacts = t.forgetFacts :=
  forgetFacts_eq_self fun _ => eq_unknown_of_contains_forgetFacts ht

/-! ## Order -/

/-- **Forgetting facts is monotone.** The induction is on the larger type, whose form picks the rule
by which the two compare, and the same rule serves without the facts. -/
theorem forgetFacts_mono {a b : Ty} (hb : b.WellFormed) (h : a ≤ b) :
    a.forgetFacts ≤ b.forgetFacts := by
  induction b generalizing a with
  | prim p =>
    rcases le_prim_iff.1 h with rfl | rfl | ⟨rfl, rfl | rfl⟩
    · exact le_refl _
    · exact le_any _
    · exact h
    · exact h
  | tensor g =>
    obtain ⟨f, rfl, _⟩ := le_tensor_iff.1 h
    exact le_refl _
  | list b₁ ih =>
    obtain ⟨a₁, rfl, h₁⟩ := le_list_iff.1 h
    rw [forgetFacts, forgetFacts, le_list_iff]
    exact ⟨_, rfl, ih (wellFormed_list.1 hb) h₁⟩
  | optional b₁ ih =>
    have hb₁ : b₁.WellFormed := wellFormed_optional.1 hb
    rw [forgetFacts]
    rcases le_optional_iff.1 h with rfl | h₁ | ⟨a₁, rfl, h₁⟩
    · exact none_le_optional _
    · exact le_optional_of_le (ih hb₁ h₁)
    · exact optional_le_optional (ih hb₁ h₁)
  | future b₁ ih =>
    obtain ⟨a₁, rfl, h₁⟩ := le_future_iff.1 h
    rw [forgetFacts, forgetFacts, le_future_iff]
    exact ⟨_, rfl, ih (wellFormed_future.1 hb) h₁⟩
  | dict k v ihk ihv =>
    obtain ⟨k₀, v₀, rfl, hk, hv⟩ := le_dict_iff.1 h
    obtain ⟨hkwf, hvwf⟩ := wellFormed_dict.1 hb
    rw [forgetFacts, forgetFacts, le_dict_iff]
    exact ⟨_, _, rfl, ihk hkwf hk, ihv hvwf hv⟩
  | tuple t bs ih =>
    obtain ⟨s, as, rfl, hst, habs⟩ := le_tuple_iff.1 h
    rw [forgetFacts, forgetFactsAll_eq_map]
    rcases rebuildD_tuple_cases s as (as.map forgetFacts) with heq | heq
    · rw [heq, forgetFacts_tuple hb, le_tuple_iff]
      refine ⟨s, _, rfl, hst, ?_⟩
      rw [List.forall₂_map_left_iff, List.forall₂_map_right_iff]
      refine forall₂_imp_of_mem (fun a _ b hbs hab => ?_) habs
      exact ih b hbs (hb.of_mem_children hbs) hab
    · -- the smaller tuple has kept its facts, which are forgotten on the way up to the larger one
      rw [heq]
      exact h.trans (le_forgetFacts _)
  | function x =>
    obtain rfl := le_function_iff.1 h
    exact le_refl _
  | interface x ms =>
    rcases le_interface_iff.1 h with rfl | ⟨y, ns, rfl, _⟩
    · exact le_refl _
    · exact h
  | var x =>
    obtain rfl := le_var_iff.1 h
    exact le_refl _

/-- **Forgetting facts is a closure operator.** On well-formed types it goes up, it is monotone, and
doing it twice is doing it once. What it leaves of tensors is the generic tensor everywhere, and at every
type on its way down the exchange of children goes through. -/
theorem forgetFacts_closure {a b : Ty} (ha : a.WellFormed) (hb : b.WellFormed) :
    a.isSubtype a.forgetFacts ∧
    (a.isSubtype b → a.forgetFacts.isSubtype b.forgetFacts) ∧
    a.forgetFacts.forgetFacts = a.forgetFacts ∧
    (∀ f, a.forgetFacts.Contains (tensor f) → tensor f = genericTensor) ∧
    ∀ c, a.Contains c → (∀ f, c ≠ tensor f) →
      c.rebuild (c.children.map forgetFacts) = .ok c.forgetFacts := by
  refine ⟨le_forgetFacts a, forgetFacts_mono hb, forgetFacts_forgetFacts ha, fun f hf => ?_,
    fun c hc htensor => ?_⟩
  · rw [eq_unknown_of_contains_forgetFacts ha hf, genericTensor]
  · have hcwf : c.WellFormed := fun s hs => ha s (hc.reaches.trans hs)
    exact rebuild_forgetFacts hcwf htensor

/-- A named tuple with a refined tensor in a list and in a signature, below a plain tuple with an
optional in front of the list. The one in the signature stays as it is. -/
theorem forgetFacts_closure_named :
    let f := TensorFacts.dense .float .cpu [2, 3]
    let i := interface "I" [⟨"f", [], [tensor f]⟩]
    let a := tuple (some ⟨some "P", ["x", "y"]⟩) [list (tensor f), i]
    let b := tuple none [optional (list (tensor { f with sizes := .unknown })), i]
    (a.WellFormed ∧ b.WellFormed ∧ a.isSubtype b) ∧ a.isSubtype a.forgetFacts ∧
      a.forgetFacts.isSubtype b.forgetFacts ∧ a.forgetFacts.forgetFacts = a.forgetFacts ∧
      a.rebuild [list genericTensor, i] = .ok a.forgetFacts := by
  intro f i a b
  have hi : i.WellFormed := wellFormed_interface_of_not_contains (by decide)
    (by simp [Signature.types]) (by simp [Signature.types])
  have ha : a.WellFormed :=
    wellFormed_named_of_not_contains rfl (by decide) (by simp [hi]) (by simp [i])
  have hb : b.WellFormed := by simp [b, hi]
  have hab : a.isSubtype b := by decide +kernel
  obtain ⟨hup, hmono, hidem, _, hrebuild⟩ := forgetFacts_closure ha hb
  exact ⟨⟨ha, hb, hab⟩, hup, hmono hab, hidem, hrebuild a (contains_self a) (by simp [a])⟩

end Ty

end TensorTyping
