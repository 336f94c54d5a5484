import TensorTyping.Proofs.Unify.Bounds
import TensorTyping.Proofs.Unify.Forget

/-!
# Unification among coarse bounds

Unification loses field names, and in lists and in the values of dictionaries it loses tensor facts.
Where it does, the result is not the least common bound. But a bound that has neither field names nor
tensor facts does not notice the loss, and below such bounds the result is found for all operands.

Two things make it so. Forgetting facts is monotone, so what is below a type without facts is below it
without its own facts. And being coarse passes to the parts of a type, so that it is there again when
elements and keys have been unified.
-/

set_option autoImplicit false

namespace TensorTyping

namespace Ty

/-- A well-formed type in which no tuple has field names and no tensor has facts to forget. -/
structure Coarse (t : Ty) : Prop where
  /-- Named members are in order at every depth. -/
  wellFormed : t.WellFormed
  /-- Tuples are plain. -/
  plain : ∀ s es, t.Contains (tuple s es) → s = none
  /-- There are no facts to forget. -/
  generic : t.forgetFacts = t

namespace Coarse

theorem generic_of_mem_children {t c : Ty} (ht : t.WellFormed) (h : t.forgetFacts = t)
    (hc : c ∈ t.children) : c.forgetFacts = c := by
  cases t with
  | list e | optional e | future e =>
    obtain rfl : c = e := by simpa [children] using hc
    simpa [forgetFacts] using h
  | dict k v =>
    have hkv : k.forgetFacts = k ∧ v.forgetFacts = v := by simpa [forgetFacts] using h
    rcases List.mem_pair.1 hc with rfl | rfl
    · exact hkv.1
    · exact hkv.2
  | tuple s es =>
    rw [forgetFacts_tuple ht, tuple.injEq] at h
    have hmap : es.map forgetFacts = es.map id := by rw [h.2, List.map_id]
    exact List.map_inj_left.1 hmap c hc
  | _ => simp [children] at hc

theorem of_mem_children {t c : Ty} (ht : t.Coarse) (hc : c ∈ t.children) : c.Coarse where
  wellFormed := ht.wellFormed.of_mem_children hc
  plain s es h := ht.plain s es (contains_of_mem_children hc h)
  generic := generic_of_mem_children ht.wellFormed ht.generic hc

theorem of_contains {t c : Ty} (ht : t.Coarse) (hc : t.Contains c) : c.Coarse := by
  induction hc with
  | refl => exact ht
  | tail _ hc ih => exact ih.of_mem_children hc

/-- A coarse type that is above another one is above it without its facts. -/
theorem forgetFacts_le {a w : Ty} (hw : w.Coarse) (h : a ≤ w) : a.forgetFacts ≤ w :=
  (forgetFacts_mono hw.wellFormed h).trans_eq hw.generic

end Coarse

/-- **Unification is exact among coarse bounds.** Whatever two types unify to is below every coarse
type that both are below. -/
theorem unify_le_of_coarse {a b u w : Ty} (hw : w.Coarse) (h : a.unify b = some u)
    (haw : a.isSubtype w) (hbw : b.isSubtype w) : u.isSubtype w := by
  refine unify_ind (P := fun a b u => ∀ w, w.Coarse → a ≤ w → b ≤ w → u ≤ w) ?larger ?tensors
    ?noneLeft ?noneRight ?lists ?tuples ?dicts h w hw haw hbw
  case larger =>
    intro a b u hu w _
    exact larger?_le hu
  case tensors =>
    intro f g w _
    exact tensor_merge_le_of_bounds f g w
  case noneLeft =>
    intro b hn w _
    exact optional_le_of_bounds (larger?_eq_none_iff.1 hn).1 w
  case noneRight =>
    intro a hn w _ haw hnw
    exact optional_le_of_bounds (larger?_eq_none_iff.1 hn).2 w hnw haw
  case lists =>
    intro a b u _ hu w hw haw hbw
    exact larger?_le hu (hw.forgetFacts_le haw) (hw.forgetFacts_le hbw)
  case tuples =>
    intro s t as bs us hus w hw
    refine tuple_le_of_bounds_among hus fun names ws hc _ => ?_
    -- the names of the operands are lost, and the bound does not ask for any
    obtain rfl := hw.plain names ws hc
    exact ⟨TupleNames.canStandFor_none _, fun e he => (hw.of_contains hc).of_mem_children he⟩
  case dicts =>
    intro k v k' v' key value hkey hvalue w hw
    refine dict_le_of_bounds_among hkey (fun w hw hv hv' => ?_) fun kw vw hc => ?_
    · exact larger?_le hvalue (hw.forgetFacts_le hv) (hw.forgetFacts_le hv')
    · have hdict : (dict kw vw).Coarse := hw.of_contains hc
      exact ⟨hdict.of_mem_children (by simp [children]), hdict.of_mem_children (by simp [children])⟩

/-- Tuples under different field names, with lists of tensors of different sizes. Their common bound
`v` knows what the tensors share, and it is not above what they unify to. It is not coarse; `w` is. -/
theorem unify_le_of_coarse_named :
    let f := TensorFacts.dense .float .cpu [2]
    let g := TensorFacts.dense .float .cpu [3]
    let a := tuple (some ⟨some "P", ["x", "y"]⟩) [list (tensor f), dict (prim .none) (tensor f)]
    let b := tuple (some ⟨none, ["p", "q"]⟩) [list (tensor g), dict (prim .int) (tensor g)]
    let u := tuple none [list genericTensor, dict (optional (prim .int)) genericTensor]
    let v := tuple none
      [list (tensor (f.merge g)), dict (optional (prim .int)) (tensor (f.merge g))]
    let w := optional (tuple none
      [optional (list genericTensor), dict (optional (prim .number)) (prim .any)])
    (w.Coarse ∧ a.unify b = some u ∧ a.isSubtype w ∧ b.isSubtype w) ∧ u.isSubtype w ∧
      a.isSubtype v ∧ b.isSubtype v ∧ ¬ u.isSubtype v := by
  intro f g a b u v w
  have hw : w.Coarse :=
    { wellFormed := by simp [w, genericTensor]
      plain := by simp +contextual [w, genericTensor]
      generic := by rfl }
  have h : a.unify b = some u := by decide +kernel
  have haw : a.isSubtype w := by decide +kernel
  have hbw : b.isSubtype w := by decide +kernel
  refine ⟨⟨hw, h, haw, hbw⟩, unify_le_of_coarse hw h haw hbw, ?_⟩
  decide +kernel

end Ty

end TensorTyping
