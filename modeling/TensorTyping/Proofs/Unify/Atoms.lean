import TensorTyping.Proofs.Unify.Rules

/-!
# Unification makes no new atoms

What two types unify to is put together from parts of the two. New tensors come in, because facts are
merged or forgotten, and so do optionals and tuples without names around the parts. But a type that is
neither a tensor nor a container is never made: where it occurs in the result, it occurs in one of the
operands. In particular the type of all values, the type of none and variables do not come out of a
unification into which they did not go.
-/

set_option autoImplicit false

namespace TensorTyping

namespace Ty

/-- Forgetting facts leaves tensors behind and nothing else that was not there before. -/
theorem contains_of_contains_forgetFacts {s t : Ty} (hs : s.IsAtom)
    (h : t.forgetFacts.Contains s) : t.Contains s := by
  induction t with
  | tensor f =>
    rw [forgetFacts, genericTensor, contains_tensor] at h
    subst h
    exact hs.elim
  | list e ih =>
    rw [forgetFacts, hs.contains_list] at h
    exact hs.contains_list.2 (ih h)
  | optional e ih =>
    rw [forgetFacts, hs.contains_optional] at h
    exact hs.contains_optional.2 (ih h)
  | future e ih =>
    rw [forgetFacts, hs.contains_future] at h
    exact hs.contains_future.2 (ih h)
  | dict k v ihk ihv =>
    rw [forgetFacts, hs.contains_dict] at h
    exact hs.contains_dict.2 (h.imp ihk ihv)
  | tuple names es ih =>
    rw [forgetFacts, forgetFactsAll_eq_map] at h
    rcases rebuildD_tuple_cases names es (es.map forgetFacts) with heq | heq
    · rw [heq, hs.contains_tuple] at h
      obtain ⟨e', he', h⟩ := h
      obtain ⟨e, he, rfl⟩ := List.mem_map.1 he'
      exact hs.contains_tuple.2 ⟨e, he, ih e he h⟩
    · rwa [heq] at h
  | _ => exact h

theorem contains_of_larger? {s a b u : Ty} (h : larger? a b = some u) (hu : u.Contains s) :
    a.Contains s ∨ b.Contains s := by
  rcases larger?_eq_some_iff.1 h with ⟨_, rfl⟩ | ⟨_, _, rfl⟩
  · exact .inr hu
  · exact .inl hu

/-- The larger of two types without facts contains no atom but those of the types themselves. -/
theorem contains_of_larger?_forgetFacts {s a b u : Ty} (hs : s.IsAtom)
    (h : larger? a.forgetFacts b.forgetFacts = some u) (hu : u.Contains s) :
    a.Contains s ∨ b.Contains s :=
  (contains_of_larger? h hu).imp (contains_of_contains_forgetFacts hs)
    (contains_of_contains_forgetFacts hs)

/-- **Unification makes no new atoms.** An atom in what two types unify to is an atom of one of
them. -/
theorem contains_of_unify {s a b u : Ty} (hs : s.IsAtom) (h : a.unify b = some u)
    (hu : u.Contains s) : a.Contains s ∨ b.Contains s := by
  refine unify_ind (P := fun a b u => u.Contains s → a.Contains s ∨ b.Contains s) ?larger ?tensors
    ?noneLeft ?noneRight ?lists ?tuples ?dicts h hu
  case larger =>
    intro a b u hu
    exact contains_of_larger? hu
  case tensors =>
    intro f g hu
    rw [contains_tensor] at hu
    subst hu
    exact hs.elim
  case noneLeft =>
    intro b _ hu
    exact .inr (hs.contains_optional.1 hu)
  case noneRight =>
    intro a _ hu
    exact .inl (hs.contains_optional.1 hu)
  case lists =>
    intro a b u _ hu
    exact contains_of_larger?_forgetFacts hs hu
  case tuples =>
    intro names names' as bs us hus hu
    obtain ⟨u, hmem, hu⟩ := hs.contains_tuple.1 hu
    obtain ⟨a, ha, b, hb, hparts⟩ := hus.exists_of_mem hmem
    exact (hparts hu).imp (contains_of_mem_children ha) (contains_of_mem_children hb)
  case dicts =>
    intro k v k' v' key value hkey hvalue hu
    rw [hs.contains_dict, hs.contains_dict]
    rcases hs.contains_dict.1 hu with hu | hu
    · exact (hkey hu).imp .inl .inl
    · exact (contains_of_larger?_forgetFacts hs hvalue hu).imp .inr .inr

theorem not_contains_of_unify {s : Ty} (hs : s.IsAtom) {a b u : Ty} (ha : ¬ a.Contains s)
    (hb : ¬ b.Contains s) (h : a.unify b = some u) : ¬ u.Contains s :=
  fun hu => (contains_of_unify hs h hu).elim ha hb

end Ty

end TensorTyping
