import TensorTyping.Proofs.Unify.Rules

/-!
# Unification gives bounds

Whatever two types unify to is above both. It is not always the least type with that property: field
names are lost, and in lists and dictionaries all tensor facts are lost as soon as the two sides
differ. These are the only two losses. On the types that have neither field names nor such facts,
which `Ty.RefinementSafe` picks out, the result is below every common bound.

A common bound `w` may be of any form and may wrap the interesting part in any number of optionals.
`Ty.le_of_bounds_of_kind` deals with that once and for all: for operands that are neither primitive
nor optional, only the bounds of their own kind inside `w` need to be looked at.
-/

set_option autoImplicit false

namespace TensorTyping

namespace Ty

/-! ## Upper bounds -/

/-- Every rule gives a type above both operands, when it does so for the parts that it unifies. -/
theorem le_of_unify {a b u : Ty} (h : a.unify b = some u) : a ≤ u ∧ b ≤ u := by
  refine unify_ind (P := fun a b u => a ≤ u ∧ b ≤ u) ?larger ?tensors ?noneLeft ?noneRight ?lists
    ?tuples ?dicts h
  case larger => exact le_of_larger?
  case tensors =>
    intro f g
    have hf : tensor f ≤ tensor (f.merge g) := le_tensor_iff.2 ⟨f, rfl, f.le_merge_left g⟩
    have hg : tensor g ≤ tensor (f.merge g) := le_tensor_iff.2 ⟨g, rfl, f.le_merge_right g⟩
    exact ⟨hf, hg⟩
  case noneLeft =>
    intro b _
    exact ⟨none_le_optional b, le_optional_of_le (le_refl b)⟩
  case noneRight =>
    intro a _
    exact ⟨le_optional_of_le (le_refl a), none_le_optional a⟩
  case lists =>
    intro a b u _ hu
    exact le_of_larger?_forgetFacts hu
  case tuples =>
    intro s t as bs us hus
    obtain ⟨has, hbs⟩ := hus.upper
    -- the result has no names, and every tuple can stand for one without names
    have hs : tuple s as ≤ tuple none us :=
      le_tuple_iff.2 ⟨s, as, rfl, TupleNames.canStandFor_none s, has⟩
    have ht : tuple t bs ≤ tuple none us :=
      le_tuple_iff.2 ⟨t, bs, rfl, TupleNames.canStandFor_none t, hbs⟩
    exact ⟨hs, ht⟩
  case dicts =>
    rintro k v k' v' key value ⟨hk, hk'⟩ hvalue
    obtain ⟨hv, hv'⟩ := le_of_larger?_forgetFacts hvalue
    exact ⟨le_dict_iff.2 ⟨k, v, rfl, hk, hv⟩, le_dict_iff.2 ⟨k', v', rfl, hk', hv'⟩⟩

/-- **Unification is sound.** What two types unify to is above both of them. -/
theorem unify_sound {a b u : Ty} (h : a.unify b = some u) : a.isSubtype u ∧ b.isSubtype u := by
  rw [← le_def, ← le_def]
  exact le_of_unify h

/-- Two dictionaries that go through every rule with a loss: a tuple with names against one with
others, none against an integer, and lists of tensors of different sizes. -/
theorem unify_sound_dict :
    let f := TensorFacts.dense .float .cpu [2, 3]
    let g := TensorFacts.dense .float .cpu [2]
    let a := dict (tuple (some ⟨some "P", ["x"]⟩) [prim .none]) (list (tensor f))
    let b := dict (tuple (some ⟨none, ["y"]⟩) [prim .int]) (list (tensor g))
    let u := dict (tuple none [optional (prim .int)]) (list genericTensor)
    a.unify b = some u ∧ a.isSubtype u ∧ b.isSubtype u := by
  intro f g a b u
  have h : a.unify b = some u := by decide +kernel
  exact ⟨h, unify_sound h⟩

/-! ## Types without losses -/

/-- No tuple in the type has field names, and every tensor inside a list or inside the values of a
dictionary is generic. -/
structure RefinementSafe (t : Ty) : Prop where
  /-- Tuples are plain. -/
  plain : ∀ s es, t.Contains (tuple s es) → s = none
  /-- Lists hold no tensor facts. -/
  list_generic : ∀ e f, t.Contains (list e) → e.Contains (tensor f) → f = .unknown
  /-- The values of dictionaries hold no tensor facts. -/
  dict_generic : ∀ k v f, t.Contains (dict k v) → v.Contains (tensor f) → f = .unknown

namespace RefinementSafe

theorem of_mem_children {t c : Ty} (ht : t.RefinementSafe) (hc : c ∈ t.children) :
    c.RefinementSafe where
  plain s es h := ht.plain s es (contains_of_mem_children hc h)
  list_generic e f h := ht.list_generic e f (contains_of_mem_children hc h)
  dict_generic k v f h := ht.dict_generic k v f (contains_of_mem_children hc h)

theorem forgetFacts_list {e : Ty} (h : (list e).RefinementSafe) :
    (list e).forgetFacts = list e := by
  rw [forgetFacts, forgetFacts_eq_self fun f hf => h.list_generic e f (contains_self _) hf]

theorem forgetFacts_value {k v : Ty} (h : (dict k v).RefinementSafe) : v.forgetFacts = v :=
  forgetFacts_eq_self fun f hf => h.dict_generic k v f (contains_self _) hf

end RefinementSafe

/-! ## Common bounds -/

/-- The type is neither primitive nor optional. -/
def IsRigid : Ty → Prop
  | prim _ | optional _ => False
  | _ => True

/-- What is above a rigid type is the type of all values, an optional of something above it, or a
type of the same kind. -/
theorem cases_of_rigid_le {a w : Ty} (ha : a.IsRigid) (h : a ≤ w) :
    w = prim .any ∨ (∃ e, w = optional e ∧ a ≤ e) ∨ w.kind = a.kind := by
  cases w with
  | prim p =>
    rcases le_prim_iff.1 h with rfl | rfl | ⟨_, rfl | rfl⟩
    · exact ha.elim
    · exact .inl rfl
    · exact ha.elim
    · exact ha.elim
  | optional e =>
    rcases le_optional_iff.1 h with rfl | h | ⟨_, rfl, _⟩
    · exact ha.elim
    · exact .inr (.inl ⟨e, rfl, h⟩)
    · exact ha.elim
  | tensor g =>
    obtain ⟨_, rfl, _⟩ := le_tensor_iff.1 h
    exact .inr (.inr rfl)
  | list e =>
    obtain ⟨_, rfl, _⟩ := le_list_iff.1 h
    exact .inr (.inr rfl)
  | future e =>
    obtain ⟨_, rfl, _⟩ := le_future_iff.1 h
    exact .inr (.inr rfl)
  | dict k v =>
    obtain ⟨_, _, rfl, _⟩ := le_dict_iff.1 h
    exact .inr (.inr rfl)
  | tuple t es =>
    obtain ⟨_, _, rfl, _⟩ := le_tuple_iff.1 h
    exact .inr (.inr rfl)
  | function x =>
    obtain rfl := le_function_iff.1 h
    exact .inr (.inr rfl)
  | interface x ms =>
    rcases le_interface_iff.1 h with rfl | ⟨_, _, rfl, _⟩
    · exact .inr (.inr rfl)
    · exact .inr (.inr rfl)
  | var x =>
    obtain rfl := le_var_iff.1 h
    exact .inr (.inr rfl)

/-- To be below a common bound of two rigid types, it is enough to be below those common bounds inside
it that are of their own kind. The induction takes the optionals off the bound. -/
theorem le_of_bounds_of_kind {a b u w : Ty} (haw : a ≤ w) (hbw : b ≤ w) (ha : a.IsRigid)
    (hb : b.IsRigid) (hkind : ∀ c, w.Contains c → c.kind = a.kind → a ≤ c → b ≤ c → u ≤ c) :
    u ≤ w := by
  induction w using ind_size with
  | step w ih =>
    rcases cases_of_rigid_le ha haw with rfl | ⟨e, rfl, hae⟩ | hw
    · exact le_any u
    · have hbe : b ≤ e := by
        rcases cases_of_rigid_le hb hbw with h | ⟨_, ⟨⟩, hbe⟩ | h
        · simp at h
        · exact hbe
        · -- an optional is not of the kind of a rigid type
          cases b <;> simp [IsRigid, kind] at h hb
      have he : e ∈ (optional e).children := by simp [children]
      have hue : u ≤ e := by
        refine ih e (sizeOf_lt_of_mem_children he) hae hbe fun c hc => ?_
        exact hkind c (contains_of_mem_children he hc)
      exact le_optional_of_le hue
    · exact hkind w (contains_self w) hw haw hbw

/-- The shared facts of two tensors are below all common bounds of the two. -/
theorem tensor_merge_le_of_bounds (f g : TensorFacts) :
    ∀ w, tensor f ≤ w → tensor g ≤ w → tensor (f.merge g) ≤ w := by
  intro w hfw hgw
  refine le_of_bounds_of_kind hfw hgw trivial trivial fun c _ hc hf hg => ?_
  cases c with
  | tensor h =>
    simp only [le_tensor_iff, tensor.injEq, exists_eq_left'] at hf hg ⊢
    exact TensorFacts.merge_le hf hg
  | _ => simp [kind] at hc

/-- The optional of a type is below all common bounds of none and the type, provided that the type
is not such a bound itself. -/
theorem optional_le_of_bounds {t : Ty} (ht : ¬ prim .none ≤ t) :
    ∀ w, prim .none ≤ w → t ≤ w → optional t ≤ w := by
  intro w hnw htw
  cases w with
  | prim p =>
    rcases le_prim_iff.1 hnw with h | rfl | ⟨_, h | h⟩
    · obtain rfl : Primitive.none = p := by simpa using h
      rw [le_none_iff.1 htw] at ht
      exact absurd (le_refl _) ht
    · exact le_any _
    · simp at h
    · simp at h
  | optional e =>
    rcases le_optional_iff.1 htw with rfl | hte | ⟨t', rfl, _⟩
    · exact absurd (le_refl _) ht
    · exact optional_le_optional hte
    · exact absurd (none_le_optional t') ht
  | _ => simp [le_interface_iff] at hnw

section Among

variable {Q : Ty → Prop} {w : Ty}

/-- Plain tuples of bounds that are least among those with the property `Q`. They are below a common
bound of the two tuples if the elements of its tuples have the property and its names, once they are
met by the names on the left, are met by no names as well. -/
theorem tuple_le_of_bounds_among {s t : Option TupleNames} {as bs us : List Ty}
    (h : Forall₃ (fun a b u => ∀ w, Q w → a ≤ w → b ≤ w → u ≤ w) as bs us)
    (hQ : ∀ names ws, w.Contains (tuple names ws) → TupleNames.canStandFor s names →
      TupleNames.canStandFor none names ∧ ∀ c ∈ ws, Q c)
    (haw : tuple s as ≤ w) (hbw : tuple t bs ≤ w) : tuple none us ≤ w := by
  refine le_of_bounds_of_kind haw hbw trivial trivial fun c hc hkind hac hbc => ?_
  cases c with
  | tuple names ws =>
    obtain ⟨_, _, ⟨⟩, hs, has⟩ := le_tuple_iff.1 hac
    obtain ⟨_, _, ⟨⟩, _, hbs⟩ := le_tuple_iff.1 hbc
    obtain ⟨hnone, hws⟩ := hQ names ws hc hs
    exact le_tuple_iff.2 ⟨none, us, rfl, hnone, h.least hws has hbs⟩
  | _ => simp [kind] at hkind

/-- Dictionaries of bounds that are least among those with the property `Q` are below a common bound of
the two dictionaries if the keys and values of its dictionaries have the property. -/
theorem dict_le_of_bounds_among {k v k' v' key value : Ty}
    (hkey : ∀ w, Q w → k ≤ w → k' ≤ w → key ≤ w)
    (hvalue : ∀ w, Q w → v ≤ w → v' ≤ w → value ≤ w)
    (hQ : ∀ kw vw, w.Contains (dict kw vw) → Q kw ∧ Q vw) (h : dict k v ≤ w) (h' : dict k' v' ≤ w) :
    dict key value ≤ w := by
  refine le_of_bounds_of_kind h h' trivial trivial fun c hc hkind hle hle' => ?_
  cases c with
  | dict kw vw =>
    obtain ⟨_, _, ⟨⟩, hk, hv⟩ := le_dict_iff.1 hle
    obtain ⟨_, _, ⟨⟩, hk', hv'⟩ := le_dict_iff.1 hle'
    obtain ⟨hkw, hvw⟩ := hQ kw vw hc
    exact le_dict_iff.2 ⟨key, value, rfl, hkey kw hkw hk hk', hvalue vw hvw hv hv'⟩
  | _ => simp [kind] at hkind

end Among

/-- Plain tuples of least bounds are below all common bounds of the two tuples. -/
theorem tuple_le_of_bounds {as bs us : List Ty}
    (h : Forall₃ (fun a b u => ∀ w, a ≤ w → b ≤ w → u ≤ w) as bs us) :
    ∀ w, tuple none as ≤ w → tuple none bs ≤ w → tuple none us ≤ w := by
  intro w
  refine tuple_le_of_bounds_among (Q := fun _ => True) ?_ fun _ _ _ hnames => ?_
  · exact h.imp_of_mem fun _ _ _ _ _ hle w _ => hle w
  · exact ⟨hnames, fun _ _ => trivial⟩

/-- Dictionaries of least bounds are below all common bounds of the two dictionaries. -/
theorem dict_le_of_bounds {k v k' v' key value : Ty}
    (hkey : ∀ w, k ≤ w → k' ≤ w → key ≤ w) (hvalue : ∀ w, v ≤ w → v' ≤ w → value ≤ w) :
    ∀ w, dict k v ≤ w → dict k' v' ≤ w → dict key value ≤ w := fun _ =>
  dict_le_of_bounds_among (Q := fun _ => True) (fun w _ => hkey w) (fun w _ => hvalue w)
    fun _ _ _ => ⟨trivial, trivial⟩

/-! ## Least upper bounds -/

/-- **Unification is exact where nothing is lost.** What two types without field names, and without
tensor facts inside lists and dictionary values, unify to is below every type that both are below. -/
theorem unify_least {a b u : Ty} (ha : a.RefinementSafe) (hb : b.RefinementSafe)
    (h : a.unify b = some u) :
    ∀ w : Ty, a.isSubtype w → b.isSubtype w → u.isSubtype w := by
  refine unify_ind (P := fun a b u => a.RefinementSafe → b.RefinementSafe →
    ∀ w, a ≤ w → b ≤ w → u ≤ w) ?larger ?tensors ?noneLeft ?noneRight ?lists ?tuples ?dicts h ha hb
  case larger =>
    intro a b u hu _ _ w
    exact larger?_le hu
  case tensors =>
    intro f g _ _
    exact tensor_merge_le_of_bounds f g
  case noneLeft =>
    intro b hn _ _
    exact optional_le_of_bounds (larger?_eq_none_iff.1 hn).1
  case noneRight =>
    intro a hn _ _ w haw hnw
    exact optional_le_of_bounds (larger?_eq_none_iff.1 hn).2 w hnw haw
  case lists =>
    -- without facts to forget, the second look at the lists finds what the first one found
    intro a b u hn hu ha hb
    rw [ha.forgetFacts_list, hb.forgetFacts_list, hn] at hu
    simp at hu
  case tuples =>
    intro s t as bs us hus ha hb
    obtain rfl := ha.plain s as (contains_self _)
    obtain rfl := hb.plain t bs (contains_self _)
    refine tuple_le_of_bounds (hus.imp_of_mem fun a' ha' b' hb' u' hu' => ?_)
    exact hu' (ha.of_mem_children ha') (hb.of_mem_children hb')
  case dicts =>
    intro k v k' v' key value hkey hvalue ha hb
    rw [ha.forgetFacts_value, hb.forgetFacts_value] at hvalue
    have hk : k.RefinementSafe := ha.of_mem_children (by simp [children])
    have hk' : k'.RefinementSafe := hb.of_mem_children (by simp [children])
    exact dict_le_of_bounds (hkey hk hk') fun w => larger?_le hvalue

/-- Tuples whose elements are widened by three different rules, below a bound that wraps the tuple
in an optional. -/
theorem unify_least_tuple :
    let f := TensorFacts.dense .float .cpu [2]
    let g := TensorFacts.dense .float .cpu [3]
    let a := tuple none [prim .none, tensor f, dict (prim .none) (list genericTensor)]
    let b := tuple none [prim .int, tensor g, dict (prim .int) (list genericTensor)]
    let u := tuple none
      [optional (prim .int), tensor (f.merge g), dict (optional (prim .int)) (list genericTensor)]
    let w := optional (tuple none [optional (prim .number), genericTensor, prim .any])
    (a.RefinementSafe ∧ b.RefinementSafe ∧ a.unify b = some u) ∧
      a.isSubtype w ∧ b.isSubtype w ∧ u.isSubtype w := by
  intro f g a b u w
  have ha : a.RefinementSafe := by constructor <;> simp +contextual [a, genericTensor]
  have hb : b.RefinementSafe := by constructor <;> simp +contextual [b, genericTensor]
  have h : a.unify b = some u := by decide +kernel
  have haw : a.isSubtype w := by decide +kernel
  have hbw : b.isSubtype w := by decide +kernel
  exact ⟨⟨ha, hb, h⟩, haw, hbw, unify_least ha hb h w haw hbw⟩

end Ty

end TensorTyping
