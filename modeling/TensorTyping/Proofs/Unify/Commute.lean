import TensorTyping.Proofs.Subtype.Antisymmetry
import TensorTyping.Proofs.Unify.Forget

/-!
# Unification commutes

The order of the two types plays no role for whether they unify, and none for what they unify to, up to
being subtypes of each other. More generally, either type may be exchanged for another one that is a
subtype of it in both directions. The results may well differ as terms: of two such types the second
one is given back, and equivalent types can carry different names.

Each rule of unification has a mirror image, which is the rule itself or, for none, the rule for the
other side. `Ty.exists_unify_swap` goes through the rules and finds in each case that the exchanged
types are of the form that the mirror image asks for. The larger of two types needs no look at forms,
since it is below every type that is above both (`Ty.exists_larger?_swap`).
-/

set_option autoImplicit false

namespace TensorTyping

namespace Ty

/-! ## The mirror images of the rules -/

theorem Interchangeable.forgetFacts {a b : Ty} (h : Interchangeable a b) :
    AntisymmRel (· ≤ ·) a.forgetFacts b.forgetFacts :=
  ⟨forgetFacts_mono h.right h.rel.le, forgetFacts_mono h.left h.rel.ge⟩

section Larger

variable {a a' b b' : Ty} (ha : AntisymmRel (· ≤ ·) a a') (hb : AntisymmRel (· ≤ ·) b b')
include ha hb

theorem larger?_eq_none_swap : larger? a b = none ↔ larger? b' a' = none := by
  rw [larger?_eq_none_iff, larger?_eq_none_iff, ha.le_congr hb, hb.le_congr ha, and_comm]

/-- The larger one is below whatever is above both types, and either order gives a type above both. -/
theorem exists_larger?_swap {u : Ty} (h : larger? a b = some u) :
    ∃ v, larger? b' a' = some v ∧ AntisymmRel (· ≤ ·) u v := by
  rcases hv : larger? b' a' with _ | v
  · rw [← larger?_eq_none_swap ha hb, h] at hv
    simp at hv
  · obtain ⟨hau, hbu⟩ := le_of_larger? h
    obtain ⟨hbv, hav⟩ := le_of_larger? hv
    have huv : u ≤ v := larger?_le h (ha.le.trans hav) (hb.le.trans hbv)
    have hvu : v ≤ u := larger?_le hv (hb.ge.trans hbu) (ha.ge.trans hau)
    exact ⟨v, rfl, huv, hvu⟩

end Larger

/-- Places can be exchanged in three lists at once when they can one by one. -/
theorem Forall₃.exists_swap {R : Ty → Ty → Ty → Prop} {S T : Ty → Ty → Prop}
    {as as' bs bs' us : List Ty} (hR : Forall₃ R as bs us) (has : List.Forall₂ S as as')
    (hbs : List.Forall₂ S bs bs')
    (h : ∀ a ∈ as, ∀ a' b b' u, S a a' → S b b' → R a b u → ∃ v, R b' a' v ∧ T u v) :
    ∃ vs, Forall₃ R bs' as' vs ∧ List.Forall₂ T us vs := by
  induction hR generalizing as' bs' with
  | nil =>
    obtain rfl := List.forall₂_nil_left_iff.1 has
    obtain rfl := List.forall₂_nil_left_iff.1 hbs
    exact ⟨[], .nil, .nil⟩
  | cons head _ ih =>
    obtain ⟨a', as', haa', has', rfl⟩ := List.forall₂_cons_left_iff.1 has
    obtain ⟨b', bs', hbb', hbs', rfl⟩ := List.forall₂_cons_left_iff.1 hbs
    rw [List.forall_mem_cons] at h
    obtain ⟨v, hv, huv⟩ := h.1 a' _ b' _ haa' hbb' head
    obtain ⟨vs, hvs, huvs⟩ := ih has' hbs' h.2
    exact ⟨v :: vs, .cons hv hvs, .cons huv huvs⟩

/-- **Unification in the other order.** When two types unify, so do types that they may be exchanged
for, in the other order, and what the two pairs unify to are subtypes of each other. -/
theorem exists_unify_swap {a a' b b' u : Ty} (ha : Interchangeable a a')
    (hb : Interchangeable b b') (h : a.unify b = some u) :
    ∃ v, b'.unify a' = some v ∧ AntisymmRel (· ≤ ·) u v := by
  induction a using ind_size generalizing a' b b' u with
  | step a ih =>
    have hswap := larger?_eq_none_swap ha.rel hb.rel
    simp only [unify_eq_some_iff] at h ⊢
    cases h with
    | larger hl =>
      obtain ⟨v, hv, huv⟩ := exists_larger?_swap ha.rel hb.rel hl
      exact ⟨v, .larger hv, huv⟩
    | @tensors f g hn =>
      obtain rfl := ha.eq_of_isSingular trivial
      obtain rfl := hb.eq_of_isSingular trivial
      refine ⟨_, .tensors (hswap.1 hn), ?_⟩
      rw [TensorFacts.merge_comm]
    | noneLeft hn =>
      obtain rfl := ha.eq_of_isSingular (by simp [IsSingular])
      refine ⟨optional b', .noneRight (hswap.1 hn), ?_⟩
      exact ⟨optional_le_optional hb.rel.le, optional_le_optional hb.rel.ge⟩
    | noneRight hn =>
      obtain rfl := hb.eq_of_isSingular (by simp [IsSingular])
      refine ⟨optional a', .noneLeft (hswap.1 hn), ?_⟩
      exact ⟨optional_le_optional ha.rel.le, optional_le_optional ha.rel.ge⟩
    | lists hn hu =>
      obtain ⟨a₁', rfl, _⟩ := ha.exists_list
      obtain ⟨b₁', rfl, _⟩ := hb.exists_list
      obtain ⟨v, hv, huv⟩ := exists_larger?_swap ha.forgetFacts hb.forgetFacts hu
      exact ⟨v, .lists (hswap.1 hn) hv, huv⟩
    | tuples hn hus =>
      obtain ⟨s', as', rfl, _, has⟩ := ha.exists_tuple
      obtain ⟨t', bs', rfl, _, hbs⟩ := hb.exists_tuple
      rw [unifyEach_eq_some_iff] at hus
      obtain ⟨vs, hvs, huvs⟩ := hus.exists_swap has hbs fun c hc _ _ _ _ hcc' hdd' =>
        ih c (sizeOf_lt_of_mem_children hc) hcc' hdd'
      refine ⟨tuple none vs, .tuples (hswap.1 hn) (unifyEach_eq_some_iff.2 hvs), ?_, ?_⟩
      · exact le_tuple_iff.2 ⟨none, _, rfl, rfl, huvs.imp fun _ _ huv => huv.le⟩
      · exact le_tuple_iff.2 ⟨none, _, rfl, rfl, (huvs.imp fun _ _ huv => huv.ge).flip⟩
    | dicts hn hkey hvalue =>
      obtain ⟨k₁, v₁, rfl, hk, hv⟩ := ha.exists_dict
      obtain ⟨k₂, v₂, rfl, hk', hv'⟩ := hb.exists_dict
      obtain ⟨key', hkey', hkeys⟩ :=
        ih _ (sizeOf_lt_of_mem_children (by simp [children])) hk hk' hkey
      obtain ⟨value', hvalue', hvalues⟩ :=
        exists_larger?_swap hv.forgetFacts hv'.forgetFacts hvalue
      refine ⟨dict key' value', .dicts (hswap.1 hn) hkey' hvalue', ?_, ?_⟩
      · exact le_dict_iff.2 ⟨_, _, rfl, hkeys.le, hvalues.le⟩
      · exact le_dict_iff.2 ⟨_, _, rfl, hkeys.ge, hvalues.ge⟩

/-! ## Commutativity -/

/-- **Unification is commutative and respects mutual subtyping.** Let `a` and `a'`, and `b` and `b'`,
be well-formed types that are subtypes of each other. Then `a` and `b` unify exactly when `b'` and `a'`
do, and what the two pairs unify to are subtypes of each other. -/
theorem unify_comm_of_mutual_subtypes {a a' b b' : Ty} (ha : a.WellFormed) (ha' : a'.WellFormed)
    (hb : b.WellFormed) (hb' : b'.WellFormed) (haa' : a.isSubtype a' ∧ a'.isSubtype a)
    (hbb' : b.isSubtype b' ∧ b'.isSubtype b) :
    ((a.unify b).isSome ↔ (b'.unify a').isSome) ∧
      ∀ u v, a.unify b = some u → b'.unify a' = some v → u.isSubtype v ∧ v.isSubtype u := by
  have hA : Interchangeable a a' := ⟨ha, ha', haa'⟩
  have hB : Interchangeable b b' := ⟨hb, hb', hbb'⟩
  refine ⟨?success, ?results⟩
  case success =>
    rw [Option.isSome_iff_exists, Option.isSome_iff_exists]
    constructor
    · rintro ⟨u, hu⟩
      obtain ⟨v, hv, _⟩ := exists_unify_swap hA hB hu
      exact ⟨v, hv⟩
    · rintro ⟨v, hv⟩
      obtain ⟨u, hu, _⟩ := exists_unify_swap hB.symm hA.symm hv
      exact ⟨u, hu⟩
  case results =>
    intro u v hu hv
    obtain ⟨v', hv', huv⟩ := exists_unify_swap hA hB hu
    obtain rfl : v' = v := Option.some.inj (hv'.symm.trans hv)
    exact huv

/-- Dictionaries that differ in the names of a tuple and in optionals around the type of all values.
In the one order the larger of the values is the type of all values, in the other it is an optional of
that, so the two results are not equal. -/
theorem unify_comm_of_mutual_subtypes_dict :
    let f := TensorFacts.dense .float .cpu [2]
    let g := TensorFacts.dense .float .cpu [3]
    let a := dict (tuple (some ⟨some "P", ["x", "y"]⟩) [prim .none, tensor f]) (prim .any)
    let a' := dict (tuple (some ⟨some "Q", ["x", "y"]⟩) [prim .none, tensor f])
      (optional (prim .any))
    let b := dict (tuple none [prim .int, tensor g]) (list (prim .any))
    let b' := dict (tuple none [prim .int, tensor g]) (list (optional (prim .any)))
    let u := dict (tuple none [optional (prim .int), tensor (f.merge g)]) (prim .any)
    let v := dict (tuple none [optional (prim .int), tensor (f.merge g)]) (optional (prim .any))
    ((a.WellFormed ∧ a'.WellFormed ∧ b.WellFormed ∧ b'.WellFormed) ∧
      (a.isSubtype a' ∧ a'.isSubtype a) ∧ b.isSubtype b' ∧ b'.isSubtype b) ∧
    (a.unify b = some u ∧ b'.unify a' = some v ∧ u ≠ v) ∧ u.isSubtype v ∧ v.isSubtype u := by
  intro f g a a' b b' u v
  have hnamed : ∀ name : Option String,
      (tuple (some ⟨name, ["x", "y"]⟩) [prim .none, tensor f]).WellFormed := by
    intro name
    refine wellFormed_tuple_some.2 ⟨⟨rfl, by simp, ?_⟩, by simp⟩
    simp only [List.forall_mem_cons]
    exact ⟨(wellFormed_prim _).not_reaches_any (by simp),
      (wellFormed_tensor _).not_reaches_any (by simp), by simp⟩
  have ha : a.WellFormed := wellFormed_dict.2 ⟨hnamed _, by simp⟩
  have ha' : a'.WellFormed := wellFormed_dict.2 ⟨hnamed _, by simp⟩
  have hb : b.WellFormed := by simp [b]
  have hb' : b'.WellFormed := by simp [b']
  have haa' : a.isSubtype a' ∧ a'.isSubtype a := by decide +kernel
  have hbb' : b.isSubtype b' ∧ b'.isSubtype b := by decide +kernel
  have hu : a.unify b = some u := by decide +kernel
  have hv : b'.unify a' = some v := by decide +kernel
  have huv : u.isSubtype v ∧ v.isSubtype u :=
    (unify_comm_of_mutual_subtypes ha ha' hb hb' haa' hbb').2 u v hu hv
  exact ⟨⟨⟨ha, ha', hb, hb'⟩, haa', hbb'⟩, ⟨hu, hv, by simp [u, v]⟩, huv⟩

end Ty

end TensorTyping
