import TensorTyping.Proofs.Subtype.Preorder
import TensorTyping.Unify

/-!
# The rules of unification

What later modules use in the place of the definitions of `larger?`, `forgetFacts` and `unify`.

* `Ty.UnifyStep` lists the rules by which two types unify, each with the condition under which it is
  reached, and `Ty.unify_eq_some_iff` says that these are all.
* `Ty.unify_ind` is the induction over the rounds of a unification. What holds of the rules one by
  one, given that it holds of the parts that were unified on the way, holds of every result.

Forgetting tensor facts has a fallback that gives a tuple back unchanged, for elements that cannot
stand under its field names. The lemmas on `forgetFacts` here hold either way: the rebuilt tuple and
the unchanged one are both above the original.
-/

set_option autoImplicit false

namespace TensorTyping

namespace Ty

/-! ## The larger of two types -/

theorem larger?_eq_some_iff {a b u : Ty} :
    larger? a b = some u ↔ (a ≤ b ∧ u = b) ∨ (¬ a ≤ b ∧ b ≤ a ∧ u = a) := by
  rw [larger?, le_def, le_def]
  by_cases hab : a.isSubtype b
  · simp [hab, eq_comm (a := b)]
  · by_cases hba : b.isSubtype a
    · simp [hab, hba, eq_comm (a := a)]
    · simp [hab, hba]

theorem larger?_eq_none_iff {a b : Ty} : larger? a b = none ↔ ¬ a ≤ b ∧ ¬ b ≤ a := by
  rw [larger?, le_def, le_def]
  by_cases hab : a.isSubtype b
  · simp [hab]
  · by_cases hba : b.isSubtype a
    · simp [hab, hba]
    · simp [hab, hba]

/-- The larger of two types is above both. -/
theorem le_of_larger? {a b u : Ty} (h : larger? a b = some u) : a ≤ u ∧ b ≤ u := by
  rcases larger?_eq_some_iff.1 h with ⟨hab, rfl⟩ | ⟨_, hba, rfl⟩
  · exact ⟨hab, le_refl u⟩
  · exact ⟨le_refl u, hba⟩

/-- The larger of two types is one of them, so whatever is above both is above it. -/
theorem larger?_le {a b u w : Ty} (h : larger? a b = some u) (ha : a ≤ w) (hb : b ≤ w) :
    u ≤ w := by
  rcases larger?_eq_some_iff.1 h with ⟨_, rfl⟩ | ⟨_, _, rfl⟩
  · exact hb
  · exact ha

/-! ## Forgetting tensor facts -/

theorem forgetFactsAll_eq_map (ts : List Ty) : forgetFactsAll ts = ts.map forgetFacts := by
  induction ts with
  | nil => rfl
  | cons t ts ih => rw [forgetFactsAll, ih, List.map_cons]

/-- A tuple takes the new elements, or else it stays as it is. -/
theorem rebuildD_tuple_cases (s : Option TupleNames) (es cs : List Ty) :
    (tuple s es).rebuildD cs = tuple s cs ∨ (tuple s es).rebuildD cs = tuple s es := by
  rw [rebuildD, rebuild]
  rcases checkElems s cs with _ | _
  · exact .inr rfl
  · exact .inl rfl

/-- Forgetting facts goes up. -/
theorem le_forgetFacts (t : Ty) : t ≤ t.forgetFacts := by
  induction t with
  | tensor f =>
    rw [forgetFacts, genericTensor, le_tensor_iff]
    exact ⟨f, rfl, f.le_unknown⟩
  | list e ih =>
    rw [forgetFacts, le_list_iff]
    exact ⟨e, rfl, ih⟩
  | optional e ih =>
    rw [forgetFacts]
    exact optional_le_optional ih
  | future e ih =>
    rw [forgetFacts, le_future_iff]
    exact ⟨e, rfl, ih⟩
  | dict k v ihk ihv =>
    rw [forgetFacts, le_dict_iff]
    exact ⟨k, v, rfl, ihk, ihv⟩
  | tuple s es ih =>
    rw [forgetFacts, forgetFactsAll_eq_map]
    rcases rebuildD_tuple_cases s es (es.map forgetFacts) with h | h
    · rw [h, le_tuple_iff]
      refine ⟨s, es, rfl, TupleNames.canStandFor_self s, ?_⟩
      rw [List.forall₂_map_right_iff, List.forall₂_same]
      exact ih
    · rw [h]
  | _ => exact le_refl _

/-- Where all tensors are generic there is nothing to forget. -/
theorem forgetFacts_eq_self {t : Ty} (h : ∀ f, t.Contains (tensor f) → f = .unknown) :
    t.forgetFacts = t := by
  induction t with
  | tensor f => rw [forgetFacts, genericTensor, h f (contains_self _)]
  | list e ih | optional e ih | future e ih =>
    rw [forgetFacts, ih fun f hf => h f (by simp [hf])]
  | dict k v ihk ihv =>
    rw [forgetFacts, ihk fun f hf => h f (by simp [hf]), ihv fun f hf => h f (by simp [hf])]
  | tuple s es ih =>
    have hes : es.map forgetFacts = es.map id := by
      refine List.map_congr_left fun e he => ih e he fun f hf => h f ?_
      exact contains_of_mem_children he hf
    rw [forgetFacts, forgetFactsAll_eq_map, hes, List.map_id]
    exact (rebuildD_tuple_cases s es es).elim id id
  | _ => rfl

/-- A larger type found without tensor facts is above both types as they are. -/
theorem le_of_larger?_forgetFacts {a b u : Ty} (h : larger? a.forgetFacts b.forgetFacts = some u) :
    a ≤ u ∧ b ≤ u := by
  obtain ⟨ha, hb⟩ := le_of_larger? h
  exact ⟨(le_forgetFacts a).trans ha, (le_forgetFacts b).trans hb⟩

/-! ## Three lists at a time -/

/-- The lists are equally long, and `R` holds of the three types at each place. -/
inductive Forall₃ (R : Ty → Ty → Ty → Prop) : List Ty → List Ty → List Ty → Prop
  | nil : Forall₃ R [] [] []
  | cons {a b u : Ty} {as bs us : List Ty} (head : R a b u) (tail : Forall₃ R as bs us) :
    Forall₃ R (a :: as) (b :: bs) (u :: us)

namespace Forall₃

variable {R S : Ty → Ty → Ty → Prop} {as bs us ws : List Ty}

theorem imp_of_mem (h : ∀ a ∈ as, ∀ b ∈ bs, ∀ u, R a b u → S a b u) (hR : Forall₃ R as bs us) :
    Forall₃ S as bs us := by
  induction hR with
  | nil => exact .nil
  | cons head _ ih =>
    refine .cons (h _ List.mem_cons_self _ List.mem_cons_self _ head) (ih ?_)
    exact fun a ha b hb => h a (List.mem_cons_of_mem _ ha) b (List.mem_cons_of_mem _ hb)

/-- Each member of the third list belongs to members of the first two. -/
theorem exists_of_mem (hR : Forall₃ R as bs us) {u : Ty} (hu : u ∈ us) :
    ∃ a ∈ as, ∃ b ∈ bs, R a b u := by
  induction hR with
  | nil => simp at hu
  | cons head _ ih =>
    rcases List.mem_cons.1 hu with rfl | hu
    · exact ⟨_, List.mem_cons_self, _, List.mem_cons_self, head⟩
    · obtain ⟨a, ha, b, hb, h⟩ := ih hu
      exact ⟨a, List.mem_cons_of_mem _ ha, b, List.mem_cons_of_mem _ hb, h⟩

/-- Upper bounds place by place, as two statements about lists. -/
theorem upper (hR : Forall₃ (fun a b u => a ≤ u ∧ b ≤ u) as bs us) :
    List.Forall₂ (· ≤ ·) as us ∧ List.Forall₂ (· ≤ ·) bs us := by
  induction hR with
  | nil => exact ⟨.nil, .nil⟩
  | cons head _ ih => exact ⟨.cons head.1 ih.1, .cons head.2 ih.2⟩

/-- Bounds that are least among those with the property `Q`, place by place, are least among the lists
of such bounds. -/
theorem least {Q : Ty → Prop}
    (hR : Forall₃ (fun a b u => ∀ w, Q w → a ≤ w → b ≤ w → u ≤ w) as bs us)
    (hws : ∀ w ∈ ws, Q w) (has : List.Forall₂ (· ≤ ·) as ws) (hbs : List.Forall₂ (· ≤ ·) bs ws) :
    List.Forall₂ (· ≤ ·) us ws := by
  induction hR generalizing ws with
  | nil => exact has
  | cons head _ ih =>
    obtain ⟨w, ws, haw, has', rfl⟩ := List.forall₂_cons_left_iff.1 has
    obtain ⟨hbw, hbs'⟩ := List.forall₂_cons.1 hbs
    rw [List.forall_mem_cons] at hws
    exact .cons (head w hws.1 haw hbw) (ih hws.2 has' hbs')

end Forall₃

theorem unifyEach_eq_some_iff {as bs us : List Ty} :
    unifyEach as bs = some us ↔ Forall₃ (fun a b u => a.unify b = some u) as bs us := by
  induction as generalizing bs us with
  | nil =>
    rcases bs with _ | ⟨b, bs⟩
    · simp only [unifyEach, Option.some.injEq]
      constructor
      · rintro rfl
        exact .nil
      · rintro ⟨⟩
        rfl
    · simp only [unifyEach, reduceCtorEq, false_iff]
      rintro ⟨⟩
  | cons a as ih =>
    rcases bs with _ | ⟨b, bs⟩
    · simp only [unifyEach, reduceCtorEq, false_iff]
      rintro ⟨⟩
    · simp only [unifyEach, Option.bind_eq_bind, Option.bind_eq_some_iff, ih]
      constructor
      · rintro ⟨u, hu, us, hus, ⟨⟩⟩
        exact .cons hu hus
      · rintro (_ | ⟨hu, hus⟩)
        exact ⟨_, hu, _, hus, rfl⟩

/-! ## One round of unification -/

/-- The rules by which two types unify. All but the first are for types of which neither is below
the other. -/
inductive UnifyStep : Ty → Ty → Ty → Prop
  /-- The larger of the two. -/
  | larger {a b u : Ty} (h : larger? a b = some u) : UnifyStep a b u
  /-- The facts that two tensors share. -/
  | tensors {f g : TensorFacts} (h : larger? (tensor f) (tensor g) = none) :
    UnifyStep (tensor f) (tensor g) (tensor (f.merge g))
  /-- None on the left makes the other type optional. -/
  | noneLeft {b : Ty} (h : larger? (prim .none) b = none) :
    UnifyStep (prim .none) b (optional b)
  /-- None on the right makes the other type optional. -/
  | noneRight {a : Ty} (h : larger? a (prim .none) = none) :
    UnifyStep a (prim .none) (optional a)
  /-- Lists that are comparable without tensor facts. -/
  | lists {a b u : Ty} (h : larger? (list a) (list b) = none)
    (hu : larger? (list a).forgetFacts (list b).forgetFacts = some u) :
    UnifyStep (list a) (list b) u
  /-- Tuples, element by element and without names. -/
  | tuples {s t : Option TupleNames} {as bs us : List Ty}
    (h : larger? (tuple s as) (tuple t bs) = none) (hus : unifyEach as bs = some us) :
    UnifyStep (tuple s as) (tuple t bs) (tuple none us)
  /-- Dictionaries whose keys unify and whose values are comparable without tensor facts. -/
  | dicts {k v k' v' key value : Ty} (h : larger? (dict k v) (dict k' v') = none)
    (hkey : k.unify k' = some key)
    (hvalue : larger? v.forgetFacts v'.forgetFacts = some value) :
    UnifyStep (dict k v) (dict k' v') (dict key value)

/-- **Two types unify exactly by the rules.** -/
theorem unify_eq_some_iff {a b u : Ty} : a.unify b = some u ↔ UnifyStep a b u := by
  constructor
  · intro h
    rw [unify.eq_def] at h
    split at h
    · rename_i hlarger
      exact .larger (hlarger.trans h)
    · rename_i hnone
      split at h
      · obtain rfl := Option.some.inj h
        exact .tensors hnone
      · obtain rfl := Option.some.inj h
        exact .noneLeft hnone
      · obtain rfl := Option.some.inj h
        exact .noneRight hnone
      · exact .lists hnone h
      · obtain ⟨us, hus, rfl⟩ := Option.map_eq_some_iff.1 h
        exact .tuples hnone hus
      · simp only [Option.bind_eq_bind, Option.bind_eq_some_iff] at h
        obtain ⟨key, hkey, value, hvalue, ⟨⟩⟩ := h
        exact .dicts hnone hkey hvalue
      · simp at h
  · intro h
    rw [unify.eq_def]
    cases h with
    | larger h => rw [h]
    | tensors h => rw [h]
    | noneLeft h => rw [h]
    | noneRight h =>
      rw [h]
      cases a with
      | prim p => cases p <;> rfl
      | _ => rfl
    | lists h hu => rw [h]; exact hu
    | tuples h hus => rw [h]; simp [hus]
    | dicts h hkey hvalue => rw [h]; simp [hkey, hvalue]

/-- Only tensors are below the generic tensor, and two tensors have a rule of their own. So a rule
that gave the generic tensor for types that are both below it would never be reached. -/
theorem unify_of_le_genericTensor {a b : Ty} (ha : a ≤ genericTensor) (hb : b ≤ genericTensor)
    (h : larger? a b = none) :
    ∃ f g, a = tensor f ∧ b = tensor g ∧ a.unify b = some (tensor (f.merge g)) := by
  unfold genericTensor at ha hb
  obtain ⟨f, rfl, _⟩ := le_tensor_iff.1 ha
  obtain ⟨g, rfl, _⟩ := le_tensor_iff.1 hb
  exact ⟨f, g, rfl, rfl, unify_eq_some_iff.2 (.tensors h)⟩

theorem unify_of_le {a b : Ty} (h : a ≤ b) : a.unify b = some b :=
  unify_eq_some_iff.2 (.larger (larger?_eq_some_iff.2 (.inl ⟨h, rfl⟩)))

theorem unify_of_ge {a b : Ty} (hab : ¬ a ≤ b) (hba : b ≤ a) : a.unify b = some a :=
  unify_eq_some_iff.2 (.larger (larger?_eq_some_iff.2 (.inr ⟨hab, hba, rfl⟩)))

/-- A type unifies with itself, and to itself. -/
theorem unify_self (t : Ty) : t.unify t = some t := unify_of_le (le_refl t)

/-- **Induction over the rounds of a unification.** Tuples and dictionaries are the rules that
unify parts, and for them the property is given of those parts. -/
theorem unify_ind {P : Ty → Ty → Ty → Prop}
    (larger : ∀ {a b u}, larger? a b = some u → P a b u)
    (tensors : ∀ {f g}, P (tensor f) (tensor g) (tensor (f.merge g)))
    (noneLeft : ∀ {b}, larger? (prim .none) b = none → P (prim .none) b (optional b))
    (noneRight : ∀ {a}, larger? a (prim .none) = none → P a (prim .none) (optional a))
    (lists : ∀ {a b u}, larger? (list a) (list b) = none →
      larger? (list a).forgetFacts (list b).forgetFacts = some u → P (list a) (list b) u)
    (tuples : ∀ {s t as bs us}, Forall₃ P as bs us →
      P (tuple s as) (tuple t bs) (tuple none us))
    (dicts : ∀ {k v k' v' key value}, P k k' key →
      larger? v.forgetFacts v'.forgetFacts = some value →
      P (dict k v) (dict k' v') (dict key value))
    {a b u : Ty} (h : a.unify b = some u) : P a b u := by
  induction a using ind_size generalizing b u with
  | step a ih =>
    cases unify_eq_some_iff.1 h with
    | larger hl => exact larger hl
    | tensors hn => exact tensors
    | noneLeft hn => exact noneLeft hn
    | noneRight hn => exact noneRight hn
    | lists hn hu => exact lists hn hu
    | tuples hn hus =>
      refine tuples ((unifyEach_eq_some_iff.1 hus).imp_of_mem fun a ha b _ u hu => ?_)
      exact ih a (sizeOf_lt_of_mem_children ha) hu
    | dicts hn hkey hvalue =>
      exact dicts (ih _ (sizeOf_lt_of_mem_children (by simp [children])) hkey) hvalue

/-- One more type at the end is unified with what the others unify to. -/
theorem unifyAll_append_singleton {ts : List Ty} (hts : ts ≠ []) (t : Ty) :
    unifyAll (ts ++ [t]) = (unifyAll ts).bind fun u => u.unify t := by
  obtain ⟨s, ts, rfl⟩ := List.exists_cons_of_ne_nil hts
  rw [List.cons_append, unifyAll, unifyAll, List.foldlM_append]
  simp

/-- What holds of each type in a list and is kept by unification holds of what the list unifies
to. -/
theorem unifyAll_ind {P : Ty → Prop} (hunify : ∀ {a b u}, P a → P b → a.unify b = some u → P u)
    {ts : List Ty} {u : Ty} (hts : ∀ t ∈ ts, P t) (h : unifyAll ts = some u) : P u := by
  rcases ts with _ | ⟨t, ts⟩
  · simp [unifyAll] at h
  · rw [List.forall_mem_cons] at hts
    obtain ⟨ht, hts⟩ := hts
    rw [unifyAll] at h
    induction ts generalizing t with
    | nil =>
      obtain rfl : t = u := by simpa using h
      exact ht
    | cons s ts ih =>
      rw [List.forall_mem_cons] at hts
      rw [List.foldlM_cons, Option.bind_eq_bind, Option.bind_eq_some_iff] at h
      obtain ⟨v, hv, h⟩ := h
      exact ih v h (hunify ht hts.1 hv) hts.2

end Ty

end TensorTyping
