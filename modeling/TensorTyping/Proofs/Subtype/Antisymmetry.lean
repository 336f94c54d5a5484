import Mathlib.Order.Antisymmetrization
import TensorTyping.Proofs.Subtype.Equivalence
import TensorTyping.Proofs.Subtype.Optional

/-!
# Types that are subtypes of each other

Subtyping is not antisymmetric, and `Ty.Equivalent` says by how much. Equivalent well-formed types are
subtypes of each other, and here is the way back.

The form of one type fixes the form of the other, and then the parts are subtypes of each other again
(`Ty.Interchangeable`), in both directions at once because parameters turn the direction. Two forms need
a thought.

* *Optionals.* All layers of an optional are compared at once, and only around the type of all values
  can the number of layers differ (`Ty.equivalent_any_of_le`).
* *Interfaces.* Each side offers the methods of the other under their names, and names are not repeated,
  so the two lists of methods are the same up to their order (`Ty.exists_perm_of_offers`).

The congruence exchanges one place at a time, so types that are equivalent in many places are taken
over place by place (`Ty.Equivalent.of_forall₂`).
-/

set_option autoImplicit false

namespace TensorTyping

namespace Ty

/-! ## From parts to wholes, one place at a time -/

namespace Equivalent

/-- A list inside a type may be exchanged as a whole when each of its places may. -/
theorem of_forall₂ {α : Type} {R : α → α → Prop} (C : List α → Ty)
    (hC : ∀ before after a b, R a b → Equivalent (C (before ++ a :: after)) (C (before ++ b :: after)))
    {as bs : List α} (h : List.Forall₂ R as bs) : Equivalent (C as) (C bs) := by
  -- the places done so far stand in front, and the induction takes the next one over
  suffices hdone : ∀ done, Equivalent (C (done ++ as)) (C (done ++ bs)) from hdone []
  induction h with
  | nil => exact fun done => .refl _
  | @cons a b as bs hab _ ih =>
    intro done
    have hrest : Equivalent (C (done ++ b :: as)) (C (done ++ b :: bs)) := by
      simpa using ih (done ++ [b])
    exact (hC done as a b hab).trans hrest

theorem tuple {names : Option TupleNames} {as bs : List Ty} (h : List.Forall₂ Equivalent as bs) :
    Equivalent (tuple names as) (tuple names bs) :=
  of_forall₂ (Ty.tuple names) (fun _ _ _ _ hab => .elem hab) h

/-- One method of an interface, first the types of its parameters and then those it returns. -/
theorem method {x : String} {ms ns : List (Signature Ty)} {m n : Signature Ty}
    (hname : m.name = n.name)
    (hparams : List.Forall₂ (fun p q => p.1 = q.1 ∧ Equivalent p.2 q.2) m.params n.params)
    (hreturns : List.Forall₂ Equivalent m.returns n.returns) :
    Equivalent (interface x (ms ++ m :: ns)) (interface x (ms ++ n :: ns)) := by
  obtain ⟨name, ps, rs⟩ := m
  obtain ⟨_, qs, ss⟩ := n
  obtain rfl : name = _ := hname
  have hps : Equivalent (interface x (ms ++ ⟨name, ps, rs⟩ :: ns))
      (interface x (ms ++ ⟨name, qs, rs⟩ :: ns)) := by
    refine of_forall₂ (fun ps => interface x (ms ++ ⟨name, ps, rs⟩ :: ns)) ?_ hparams
    rintro before after ⟨p, a⟩ ⟨_, b⟩ ⟨rfl, hab⟩
    exact .param hab
  have hrs : Equivalent (interface x (ms ++ ⟨name, qs, rs⟩ :: ns))
      (interface x (ms ++ ⟨name, qs, ss⟩ :: ns)) :=
    of_forall₂ (fun rs => interface x (ms ++ ⟨name, qs, rs⟩ :: ns))
      (fun _ _ _ _ hab => .result hab) hreturns
  exact hps.trans hrs

end Equivalent

/-! ## Optionals -/

/-- Only the type of all values and its optionals, one around the other, are above the type of all
values. -/
theorem equivalent_any_of_le {b : Ty} (h : prim .any ≤ b) : Equivalent (prim .any) b := by
  induction b with
  | prim p =>
    obtain rfl : Primitive.any = p := by simpa [le_prim_iff, eq_comm] using h
    exact .refl _
  | optional e ih =>
    have he : prim .any ≤ e := by simpa [le_optional_iff] using h
    exact Equivalent.any.trans (ih he).optional
  | interface x ms => simp [le_interface_iff] at h
  | _ => simp at h

/-! ## Types that may be exchanged -/

/-- A tensor, a function, a variable, or a primitive other than the type of all values. -/
def IsSingular : Ty → Prop
  | prim p => p ≠ .any
  | tensor _ | function _ | var _ => True
  | _ => False

theorem eq_of_le_of_ge_of_isSingular {a b : Ty} (hab : a ≤ b) (hba : b ≤ a) (ha : a.IsSingular) :
    a = b := by
  cases a with
  | prim p =>
    rcases le_prim_iff.1 hba with rfl | rfl | ⟨rfl, rfl | rfl⟩
    · rfl
    · exact absurd rfl ha
    · simp [le_prim_iff] at hab
    · simp [le_prim_iff] at hab
  | tensor f =>
    obtain ⟨g, rfl, hgf⟩ := le_tensor_iff.1 hba
    obtain ⟨_, ⟨⟩, hfg⟩ := le_tensor_iff.1 hab
    rw [le_antisymm hfg hgf]
  | function x => rw [le_function_iff.1 hba]
  | var x => rw [le_var_iff.1 hba]
  | _ => exact ha.elim

/-- Well-formed types that are subtypes of each other. -/
structure Interchangeable (a b : Ty) : Prop where
  /-- The first type is well formed. -/
  left : a.WellFormed
  /-- The second type is well formed. -/
  right : b.WellFormed
  /-- Each is a subtype of the other. -/
  rel : AntisymmRel (· ≤ ·) a b

namespace Interchangeable

variable {b : Ty}

theorem symm {a : Ty} (h : Interchangeable a b) : Interchangeable b a :=
  ⟨h.right, h.left, h.rel.symm⟩

theorem eq_of_isSingular {a : Ty} (h : Interchangeable a b) (ha : a.IsSingular) : a = b :=
  eq_of_le_of_ge_of_isSingular h.rel.le h.rel.ge ha

theorem exists_list {e : Ty} (h : Interchangeable (list e) b) :
    ∃ d, b = list d ∧ Interchangeable e d := by
  obtain ⟨d, rfl, hde⟩ := le_list_iff.1 h.rel.ge
  obtain ⟨_, ⟨⟩, hed⟩ := le_list_iff.1 h.rel.le
  exact ⟨d, rfl, wellFormed_list.1 h.left, wellFormed_list.1 h.right, hed, hde⟩

theorem exists_future {e : Ty} (h : Interchangeable (future e) b) :
    ∃ d, b = future d ∧ Interchangeable e d := by
  obtain ⟨d, rfl, hde⟩ := le_future_iff.1 h.rel.ge
  obtain ⟨_, ⟨⟩, hed⟩ := le_future_iff.1 h.rel.le
  exact ⟨d, rfl, wellFormed_future.1 h.left, wellFormed_future.1 h.right, hed, hde⟩

theorem exists_dict {k v : Ty} (h : Interchangeable (dict k v) b) :
    ∃ k' v', b = dict k' v' ∧ Interchangeable k k' ∧ Interchangeable v v' := by
  obtain ⟨k', v', rfl, hk', hv'⟩ := le_dict_iff.1 h.rel.ge
  obtain ⟨_, _, ⟨⟩, hk, hv⟩ := le_dict_iff.1 h.rel.le
  obtain ⟨hkwf, hvwf⟩ := wellFormed_dict.1 h.left
  obtain ⟨hkwf', hvwf'⟩ := wellFormed_dict.1 h.right
  exact ⟨k', v', rfl, ⟨hkwf, hkwf', hk, hk'⟩, ⟨hvwf, hvwf', hv, hv'⟩⟩

theorem exists_tuple {s : Option TupleNames} {as : List Ty} (h : Interchangeable (tuple s as) b) :
    ∃ t bs, b = tuple t bs ∧ s.map TupleNames.fields = t.map TupleNames.fields ∧
      List.Forall₂ Interchangeable as bs := by
  obtain ⟨t, bs, rfl, hts, hge⟩ := le_tuple_iff.1 h.rel.ge
  obtain ⟨_, _, ⟨⟩, hst, hle⟩ := le_tuple_iff.1 h.rel.le
  have hnames := TupleNames.canStandFor_both_iff.1 ⟨hst, hts⟩
  refine ⟨t, bs, rfl, hnames, forall₂_of_both (fun c hc d hd hcd hdc => ?_) hle hge⟩
  exact ⟨h.left.of_mem_children hc, h.right.of_mem_children hd, hcd, hdc⟩

end Interchangeable

/-! ## Methods -/

/-- Methods that stand for each other, under names that are not repeated, are the same up to their
order. -/
theorem exists_perm_of_offers {ms ns : List (Signature Ty)} (hms : (ms.map Signature.name).Nodup)
    (hns : (ns.map Signature.name).Nodup)
    (hle : ∀ n ∈ ns, ∃ m ∈ ms, m.name = n.name ∧ m ≤ n)
    (hge : ∀ m ∈ ms, ∃ n ∈ ns, n.name = m.name ∧ n ≤ m) :
    ∃ ks, ms.Perm ks ∧
      List.Forall₂ (fun k n => (k ∈ ms ∧ n ∈ ns) ∧ k.name = n.name ∧ k ≤ n ∧ n ≤ k) ks ns := by
  -- the methods of the first list in the order in which the second one asks for them
  have hboth : ∀ n ∈ ns, ∃ k, (k ∈ ms ∧ n ∈ ns) ∧ k.name = n.name ∧ k ≤ n ∧ n ≤ k := by
    intro n hn
    obtain ⟨m, hm, hname, hmn⟩ := hle n hn
    obtain ⟨n', hn', hname', hnm⟩ := hge m hm
    obtain rfl : n' = n := List.inj_on_of_nodup_map hns hn' hn (hname'.trans hname)
    exact ⟨m, ⟨hm, hn⟩, hname, hmn, hnm⟩
  obtain ⟨ks, hks⟩ := exists_forall₂_of_forall_exists hboth
  have hks := List.Forall₂.flip hks
  have hnames : ks.map Signature.name = ns.map Signature.name := by
    rw [← List.forall₂_eq_eq_eq, List.forall₂_map_left_iff, List.forall₂_map_right_iff]
    exact hks.imp fun k n hkn => hkn.2.1
  refine ⟨ks, ?_, hks⟩
  have hknodup : ks.Nodup := by
    rw [← hnames] at hns
    exact hns.of_map
  rw [List.perm_ext_iff_of_nodup hms.of_map hknodup]
  intro m
  constructor
  · intro hm
    obtain ⟨n, hn, hname, _⟩ := hge m hm
    obtain ⟨k, hk, hkn⟩ := exists_mem_left_of_forall₂ hks hn
    obtain rfl : k = m := List.inj_on_of_nodup_map hms hkn.1.1 hm (hkn.2.1.trans hname)
    exact hk
  · intro hm
    obtain ⟨n, _, hkn⟩ := exists_mem_left_of_forall₂ (List.Forall₂.flip hks) hm
    exact hkn.1.1

/-! ## From subtyping to equivalence -/

/-- **Well-formed types that are subtypes of each other are equivalent.** -/
theorem Interchangeable.equivalent {a b : Ty} (h : Interchangeable a b) : Equivalent a b := by
  induction a generalizing b with
  | prim p =>
    by_cases hp : p = .any
    · obtain rfl := hp
      exact equivalent_any_of_le h.rel.le
    · rw [h.eq_of_isSingular hp]
      exact .refl b
  | tensor _ | function _ | var _ =>
    rw [h.eq_of_isSingular trivial]
    exact .refl b
  | list e ih =>
    obtain ⟨d, rfl, hed⟩ := h.exists_list
    exact (ih hed).list
  | optional e ih =>
    -- here the other type may be the type of all values, besides another optional
    obtain ⟨he, hb, hle, hge⟩ := h
    cases b with
    | optional d =>
      have hed : e ≤ d := optional_le_optional_iff.1 hle
      have hde : d ≤ e := optional_le_optional_iff.1 hge
      exact (ih ⟨wellFormed_optional.1 he, wellFormed_optional.1 hb, hed, hde⟩).optional
    | prim p =>
      obtain rfl : p = .any := by simpa [le_prim_iff] using hle
      exact (equivalent_any_of_le hge).symm
    | interface x ms => simp [le_interface_iff] at hle
    | _ => simp at hle
  | future e ih =>
    obtain ⟨d, rfl, hed⟩ := h.exists_future
    exact (ih hed).future
  | dict k v ihk ihv =>
    obtain ⟨k', v', rfl, hk, hv⟩ := h.exists_dict
    exact (ihk hk).dict (ihv hv)
  | tuple s as ih =>
    obtain ⟨t, bs, rfl, hnames, hes⟩ := h.exists_tuple
    have helems : List.Forall₂ Equivalent as bs :=
      forall₂_imp_of_mem (fun c hc d _ => ih c hc) hes
    rcases s with _ | s <;> rcases t with _ | t
    · exact .tuple helems
    · simp at hnames
    · simp at hnames
    · have hfields : s.fields = t.fields := by simpa using hnames
      exact (Equivalent.tuple helems).trans (.tupleName hfields)
  | interface x ms ih =>
    obtain ⟨ha, hb, hle, hge⟩ := h
    obtain ⟨y, ns, rfl⟩ : ∃ y ns, b = interface y ns := by
      rcases le_interface_iff.1 hge with rfl | ⟨y, ns, rfl, _⟩
      · exact ⟨x, ms, rfl⟩
      · exact ⟨y, ns, rfl⟩
    obtain ⟨⟨hms, _⟩, hmtypes⟩ := wellFormed_interface.1 ha
    obtain ⟨⟨hns, _⟩, hntypes⟩ := wellFormed_interface.1 hb
    obtain ⟨ks, hperm, hks⟩ := exists_perm_of_offers hms hns ((interface_le_iff hms).1 hle)
      ((interface_le_iff hns).1 hge)
    have hmethods : Equivalent (interface x ks) (interface x ns) := by
      refine Equivalent.of_forall₂ (interface x) ?_ hks
      rintro before after k n ⟨⟨hk, hn⟩, hname, hkn, hnk⟩
      obtain ⟨ihparams, ihreturns⟩ := ih k hk
      obtain ⟨hkparams, hkreturns⟩ := Signature.forall_mem_types.1 (hmtypes k hk)
      obtain ⟨hnparams, hnreturns⟩ := Signature.forall_mem_types.1 (hntypes n hn)
      rw [Signature.le_iff] at hkn hnk
      refine .method hname (forall₂_of_both ?_ hkn.1 hnk.1) (forall₂_of_both ?_ hkn.2 hnk.2)
      · rintro p hp q hq ⟨hpq, hqp⟩ ⟨_, hpq'⟩
        exact ⟨hpq, ihparams p hp ⟨hkparams p hp, hnparams q hq, hpq', hqp⟩⟩
      · intro r hr r' hr' hrr' hrr
        exact ihreturns r hr ⟨hkreturns r hr, hnreturns r' hr', hrr', hrr⟩
    exact ((Equivalent.methodOrder hperm).trans hmethods).trans .interfaceName

/-! ## Mutual subtypes -/

/-- **Mutual subtyping is equivalence.** Two well-formed types are subtypes of each other exactly when
they are equivalent. In particular, a tensor, a function, a variable or a primitive other than the type
of all values is a subtype of another type in both directions only when the two are equal. -/
theorem mutual_subtypes_iff_equivalent :
    (∀ a b : Ty, a.WellFormed → b.WellFormed →
      (a.isSubtype b ∧ b.isSubtype a ↔ a.Equivalent b)) ∧
    ∀ a b : Ty, a.IsSingular → a.isSubtype b → b.isSubtype a → a = b := by
  refine ⟨fun a b ha hb => ⟨fun h => ?_, fun h => ?_⟩, fun a b ha hab hba => ?_⟩
  · exact Interchangeable.equivalent ⟨ha, hb, h⟩
  · exact h.agrees.le_ge ha
  · exact eq_of_le_of_ge_of_isSingular hab hba ha

/-- Two dictionaries that differ in everything that equivalence ignores: the qualified name of a tuple,
the name of an interface, the order of its methods and the layers of optional around the type of all
values. Around another type one more layer of optional does make a difference. -/
theorem mutual_subtypes_iff_equivalent_dict :
    let f : Signature Ty := ⟨"f", [("x", prim .int)], [prim .number]⟩
    let g : Signature Ty := ⟨"g", [], [list (var "t")]⟩
    let a := dict (tuple (some ⟨some "P", ["i"]⟩) [interface "A" [f, g]]) (list (prim .any))
    let b := dict (tuple (some ⟨none, ["i"]⟩) [interface "B" [g, f]])
      (list (optional (optional (prim .any))))
    let c := optional (prim .int)
    ((a.WellFormed ∧ b.WellFormed ∧ a.isSubtype b ∧ b.isSubtype a) ∧ a.Equivalent b) ∧
      (c.WellFormed ∧ (optional c).WellFormed) ∧ ¬ c.Equivalent (optional c) := by
  intro f g a b c
  have hi : ∀ (x : String) (ms : List (Signature Ty)), ms.Perm [f, g] →
      (interface x ms).WellFormed := by
    intro x ms hms
    have hnodup : (ms.map Signature.name).Nodup :=
      (hms.map Signature.name).nodup_iff.2 (by simp [f, g])
    have htypes : ∀ m ∈ ms, ∀ t ∈ m.types, t.WellFormed ∧ ¬ t.Contains (prim .any) := by
      intro m hm
      rcases List.mem_pair.1 (hms.mem_iff.1 hm) with rfl | rfl <;> simp [f, g, Signature.types]
    refine wellFormed_interface.2 ⟨⟨hnodup, fun m hm t ht => ?_⟩, fun m hm t ht => ?_⟩
    · exact (htypes m hm t ht).1.not_reaches_any (htypes m hm t ht).2
    · exact (htypes m hm t ht).1
  have hi' : ∀ x ms, ¬ (interface x ms).Contains (prim .any) := by simp
  have ht : ∀ (name : Option String) (x : String) (ms : List (Signature Ty)), ms.Perm [f, g] →
      (tuple (some ⟨name, ["i"]⟩) [interface x ms]).WellFormed := by
    intro name x ms hms
    refine wellFormed_tuple_some.2 ⟨⟨rfl, by simp, ?_⟩, ?_⟩
    · simpa using (hi x ms hms).not_reaches_any (hi' x ms)
    · simpa using hi x ms hms
  have ha : a.WellFormed := wellFormed_dict.2 ⟨ht _ _ _ (.refl _), by simp⟩
  have hb : b.WellFormed := wellFormed_dict.2 ⟨ht _ _ _ (.swap _ _ _), by simp⟩
  have hab : a.isSubtype b := by decide +kernel
  have hba : b.isSubtype a := by decide +kernel
  have hc : c.WellFormed := by simp [c]
  have hc' : (optional c).WellFormed := by simp [c]
  refine ⟨⟨⟨ha, hb, hab, hba⟩, ?_⟩, ⟨hc, hc'⟩, ?_⟩
  · exact (mutual_subtypes_iff_equivalent.1 a b ha hb).1 ⟨hab, hba⟩
  · rw [← mutual_subtypes_iff_equivalent.1 c (optional c) hc hc']
    decide +kernel

end Ty

end TensorTyping
