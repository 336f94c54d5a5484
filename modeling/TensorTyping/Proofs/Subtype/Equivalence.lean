import Mathlib.Data.List.Nodup
import Mathlib.Data.List.Perm.Basic
import TensorTyping.Proofs.Subtype.Preorder
import TensorTyping.Proofs.WellFormed.Basic

/-!
# Equivalent types

`Ty.Equivalent` is the least congruence on types that identifies the type of all values with its
optional and that does not look at the qualified names of named tuples, at the names of interfaces and
at the order of methods. Equivalent well-formed types are subtypes of each other, and
`TensorTyping.Proofs.Subtype.Antisymmetry` shows that no others are.

A chain of steps of the congruence that starts at a well-formed type stays among well-formed types.
This has to be shown along the way: for an interface in which two methods share a name, the order of
the methods does matter. So the steps are followed with a stronger statement, `Ty.Agrees`, that says
what a step keeps, and there is one lemma about it for each form of type.
-/

set_option autoImplicit false

namespace TensorTyping

/-! ## Names of tuples -/

/-- Two tuples can stand for each other, as far as names go, when they have the same field names or
none at all. -/
theorem TupleNames.canStandFor_both_iff {s t : Option TupleNames} :
    canStandFor s t ∧ canStandFor t s ↔ s.map fields = t.map fields := by
  rcases s with _ | s <;> rcases t with _ | t
  · simp
  · simp [canStandFor]
  · simp [canStandFor]
  · simp only [canStandFor, beq_iff_eq, Option.map_some, Option.some.injEq]
    exact and_iff_left_of_imp Eq.symm

namespace Ty

/-! ## Equivalence -/

/-- The least congruence that identifies the type of all values with its optional and that ignores the
qualified names of named tuples, the names of interfaces and the order of their methods. -/
inductive Equivalent : Ty → Ty → Prop
  | refl (a : Ty) : Equivalent a a
  | symm {a b : Ty} (h : Equivalent a b) : Equivalent b a
  | trans {a b c : Ty} (hab : Equivalent a b) (hbc : Equivalent b c) : Equivalent a c
  /-- The type of all values has none among its values already. -/
  | any : Equivalent (prim .any) (optional (prim .any))
  /-- The qualified name of a named tuple is ignored; its field names are not. -/
  | tupleName {s t : TupleNames} {es : List Ty} (h : s.fields = t.fields) :
    Equivalent (tuple (some s) es) (tuple (some t) es)
  /-- The name of an interface is ignored. -/
  | interfaceName {x y : String} {ms : List (Signature Ty)} :
    Equivalent (interface x ms) (interface y ms)
  /-- The order of methods is ignored. -/
  | methodOrder {x : String} {ms ns : List (Signature Ty)} (h : ms.Perm ns) :
    Equivalent (interface x ms) (interface x ns)
  | list {a b : Ty} (h : Equivalent a b) : Equivalent (list a) (list b)
  | optional {a b : Ty} (h : Equivalent a b) : Equivalent (optional a) (optional b)
  | future {a b : Ty} (h : Equivalent a b) : Equivalent (future a) (future b)
  | dict {k k' v v' : Ty} (hk : Equivalent k k') (hv : Equivalent v v') :
    Equivalent (dict k v) (dict k' v')
  /-- An element of a tuple. -/
  | elem {names : Option TupleNames} {before after : List Ty} {a b : Ty} (h : Equivalent a b) :
    Equivalent (tuple names (before ++ a :: after)) (tuple names (before ++ b :: after))
  /-- A parameter of a method of an interface. -/
  | param {x name p : String} {ms ns : List (Signature Ty)} {before after : List (String × Ty)}
    {returns : List Ty} {a b : Ty} (h : Equivalent a b) :
    Equivalent (interface x (ms ++ ⟨name, before ++ (p, a) :: after, returns⟩ :: ns))
      (interface x (ms ++ ⟨name, before ++ (p, b) :: after, returns⟩ :: ns))
  /-- A type returned by a method of an interface. -/
  | result {x name : String} {ms ns : List (Signature Ty)} {params : List (String × Ty)}
    {before after : List Ty} {a b : Ty} (h : Equivalent a b) :
    Equivalent (interface x (ms ++ ⟨name, params, before ++ a :: after⟩ :: ns))
      (interface x (ms ++ ⟨name, params, before ++ b :: after⟩ :: ns))

/-! ## Interfaces without repeated names -/

/-- Where names are not repeated, looking up a method is the same as finding one of its name, and
equality is no longer a reason of its own. -/
theorem interface_le_iff {x y : String} {ms ns : List (Signature Ty)}
    (hms : (ms.map Signature.name).Nodup) :
    interface x ms ≤ interface y ns ↔ ∀ n ∈ ns, ∃ m ∈ ms, m.name = n.name ∧ m ≤ n := by
  rw [le_interface_iff]
  constructor
  · rintro (⟨⟨⟩⟩ | ⟨_, _, ⟨⟩, h⟩) n hn
    · exact ⟨n, hn, rfl, le_refl n⟩
    · obtain ⟨m, hm, hle⟩ := h n hn
      exact ⟨m, List.mem_of_find?_eq_some hm, by simpa using List.find?_some hm, hle⟩
  · intro h
    refine .inr ⟨x, ms, rfl, fun n hn => ?_⟩
    obtain ⟨m, hm, hname, hle⟩ := h n hn
    rw [← hname]
    exact ⟨m, find?_name_of_mem hms hm, hle⟩

/-! ## What a step of the congruence keeps -/

/-- The types are alike in what well-formedness looks at, and if they are well formed they are
subtypes of each other. -/
structure Agrees (a b : Ty) : Prop where
  /-- Neither leads to the type of all values, or both do. -/
  any : ¬ a.Reaches (prim .any) ↔ ¬ b.Reaches (prim .any)
  /-- Both are well formed or neither is. -/
  wellFormed : a.WellFormed ↔ b.WellFormed
  /-- Well-formed ones are subtypes of each other. -/
  le_ge : a.WellFormed → a ≤ b ∧ b ≤ a

namespace Agrees

theorem refl (a : Ty) : Agrees a a := ⟨Iff.rfl, Iff.rfl, fun _ => ⟨le_refl a, le_refl a⟩⟩

theorem symm {a b : Ty} (h : Agrees a b) : Agrees b a :=
  ⟨h.any.symm, h.wellFormed.symm, fun hb => (h.le_ge (h.wellFormed.2 hb)).symm⟩

theorem trans {a b c : Ty} (hab : Agrees a b) (hbc : Agrees b c) : Agrees a c := by
  refine ⟨hab.any.trans hbc.any, hab.wellFormed.trans hbc.wellFormed, fun ha => ?_⟩
  obtain ⟨hle, hge⟩ := hab.le_ge ha
  obtain ⟨hle', hge'⟩ := hbc.le_ge (hab.wellFormed.1 ha)
  exact ⟨hle.trans hle', hge'.trans hge⟩

theorem optional_any : Agrees (prim .any) (optional (prim .any)) where
  any := by
    rw [reaches_iff, reaches_iff]
    simp [parts, children, reaches_self]
  wellFormed := by simp
  le_ge _ := ⟨le_optional_of_le (le_refl _), le_any _⟩

variable {a b : Ty}

theorem list (h : Agrees a b) : Agrees (list a) (list b) where
  any := by
    rw [reaches_iff, reaches_iff]
    simpa [parts, children] using h.any
  wellFormed := by simp [h.wellFormed]
  le_ge hwf := by simpa using h.le_ge (wellFormed_list.1 hwf)

theorem future (h : Agrees a b) : Agrees (future a) (future b) where
  any := by
    rw [reaches_iff, reaches_iff]
    simpa [parts, children] using h.any
  wellFormed := by simp [h.wellFormed]
  le_ge hwf := by simpa using h.le_ge (wellFormed_future.1 hwf)

theorem optional (h : Agrees a b) : Agrees (optional a) (optional b) where
  any := by
    rw [reaches_iff, reaches_iff]
    simpa [parts, children] using h.any
  wellFormed := by simp [h.wellFormed]
  le_ge hwf := (h.le_ge (wellFormed_optional.1 hwf)).imp optional_le_optional optional_le_optional

theorem dict {k k' v v' : Ty} (hk : Agrees k k') (hv : Agrees v v') :
    Agrees (dict k v) (dict k' v') where
  any := by
    rw [reaches_iff, reaches_iff]
    simpa [parts, children] using and_congr hk.any hv.any
  wellFormed := by simp [hk.wellFormed, hv.wellFormed]
  le_ge hwf := by
    obtain ⟨hkwf, hvwf⟩ := wellFormed_dict.1 hwf
    obtain ⟨hkle, hkge⟩ := hk.le_ge hkwf
    obtain ⟨hvle, hvge⟩ := hv.le_ge hvwf
    exact ⟨le_dict_iff.2 ⟨k, v, rfl, hkle, hvle⟩, le_dict_iff.2 ⟨k', v', rfl, hkge, hvge⟩⟩

/-- Well-formed types that agree in step are subtypes in step, in both directions. -/
theorem forall₂_le {as bs : List Ty} (h : List.Forall₂ Agrees as bs) (has : ∀ a ∈ as, a.WellFormed) :
    List.Forall₂ (· ≤ ·) as bs ∧ List.Forall₂ (· ≤ ·) bs as := by
  have hboth := (List.forall₂_and_left _ _).2 ⟨has, h⟩
  refine ⟨hboth.imp fun a b hab => (hab.2.le_ge hab.1).1, List.Forall₂.flip ?_⟩
  exact hboth.imp fun a b hab => (hab.2.le_ge hab.1).2

theorem tuple {s t : Option TupleNames} {as bs : List Ty}
    (hnames : s.map TupleNames.fields = t.map TupleNames.fields) (h : List.Forall₂ Agrees as bs) :
    Agrees (tuple s as) (tuple t bs) where
  any := by
    rw [reaches_iff, reaches_iff]
    simpa [parts, children] using forall_mem_iff_of_forall₂ (fun _ _ hab => hab.any) h
  wellFormed := by
    have hany := forall_mem_iff_of_forall₂ (fun _ _ hab => hab.any) h
    have hwf := forall_mem_iff_of_forall₂ (fun _ _ hab => hab.wellFormed) h
    rcases s with _ | s <;> rcases t with _ | t
    · rw [wellFormed_tuple_none, wellFormed_tuple_none, hwf]
    · simp at hnames
    · simp at hnames
    · have hfields : s.fields = t.fields := by simpa using hnames
      rw [wellFormed_tuple_some, wellFormed_tuple_some, hfields, h.length_eq, hany, hwf]
  le_ge hwf := by
    obtain ⟨hst, hts⟩ := TupleNames.canStandFor_both_iff.2 hnames
    obtain ⟨hle, hge⟩ := forall₂_le h fun a ha => hwf.of_mem_children ha
    exact ⟨le_tuple_iff.2 ⟨s, as, rfl, hst, hle⟩, le_tuple_iff.2 ⟨t, bs, rfl, hts, hge⟩⟩

end Agrees

/-- Signatures of the same name whose types agree in step, under the same names of parameters. -/
structure SignatureAgrees (m n : Signature Ty) : Prop where
  name : m.name = n.name
  params : List.Forall₂ (fun p q => p.1 = q.1 ∧ Agrees p.2 q.2) m.params n.params
  returns : List.Forall₂ Agrees m.returns n.returns

namespace SignatureAgrees

theorem refl (m : Signature Ty) : SignatureAgrees m m :=
  ⟨rfl, List.forall₂_same.2 fun q _ => ⟨rfl, .refl q.2⟩, List.forall₂_same.2 fun r _ => .refl r⟩

theorem symm {m n : Signature Ty} (h : SignatureAgrees m n) : SignatureAgrees n m :=
  ⟨h.name.symm, List.Forall₂.flip (h.params.imp fun _ _ hpq => ⟨hpq.1.symm, hpq.2.symm⟩),
    List.Forall₂.flip (h.returns.imp fun _ _ hab => hab.symm)⟩

theorem types {m n : Signature Ty} (h : SignatureAgrees m n) :
    List.Forall₂ Agrees m.types n.types := by
  refine List.rel_append ?_ h.returns
  rw [List.forall₂_map_left_iff, List.forall₂_map_right_iff]
  exact h.params.imp fun _ _ hpq => hpq.2

/-- A method can stand for another one whose types agree with its own. -/
theorem le {m n : Signature Ty} (h : SignatureAgrees m n) (hm : ∀ t ∈ m.types, t.WellFormed) :
    m ≤ n := by
  obtain ⟨hparams, hreturns⟩ := Signature.forall_mem_types.1 hm
  rw [Signature.le_iff]
  constructor
  · have hboth := (List.forall₂_and_left _ _).2 ⟨hparams, h.params⟩
    exact hboth.imp fun p q hpq => ⟨hpq.2.1, (hpq.2.2.le_ge hpq.1).2⟩
  · exact (Agrees.forall₂_le h.returns hreturns).1

end SignatureAgrees

/-- Interfaces whose methods agree in step are below each other. -/
theorem interface_le_of_agrees {x y : String} {ms ns : List (Signature Ty)}
    (h : List.Forall₂ SignatureAgrees ms ns) (hms : (interface x ms).WellFormed) :
    interface x ms ≤ interface y ns := by
  obtain ⟨⟨hnodup, _⟩, htypes⟩ := wellFormed_interface.1 hms
  rw [interface_le_iff hnodup]
  intro n hn
  obtain ⟨m, hm, hmn⟩ := exists_mem_left_of_forall₂ h hn
  exact ⟨m, hm, hmn.name, hmn.le (htypes m hm)⟩

theorem not_interface_reaches_any_iff {x : String} {ms : List (Signature Ty)} :
    ¬ (interface x ms).Reaches (prim .any) ↔ ∀ m ∈ ms, ∀ t ∈ m.types, ¬ t.Reaches (prim .any) := by
  rw [reaches_iff]
  simp only [reduceCtorEq, false_or, parts, not_exists, not_and]
  exact List.forall_mem_flatMap

namespace Agrees

theorem interface {x y : String} {ms ns : List (Signature Ty)}
    (h : List.Forall₂ SignatureAgrees ms ns) : Agrees (interface x ms) (interface y ns) := by
  have hnames : ms.map Signature.name = ns.map Signature.name := by
    rw [← List.forall₂_eq_eq_eq, List.forall₂_map_left_iff, List.forall₂_map_right_iff]
    exact h.imp fun _ _ hmn => hmn.name
  have hany : (∀ m ∈ ms, ∀ t ∈ m.types, ¬ t.Reaches (prim .any)) ↔
      ∀ n ∈ ns, ∀ t ∈ n.types, ¬ t.Reaches (prim .any) :=
    forall_mem_iff_of_forall₂
      (fun _ _ hmn => forall_mem_iff_of_forall₂ (fun _ _ hab => hab.any) hmn.types) h
  have htypes : (∀ m ∈ ms, ∀ t ∈ m.types, t.WellFormed) ↔ ∀ n ∈ ns, ∀ t ∈ n.types, t.WellFormed :=
    forall_mem_iff_of_forall₂
      (fun _ _ hmn => forall_mem_iff_of_forall₂ (fun _ _ hab => hab.wellFormed) hmn.types) h
  have hwf : (Ty.interface x ms).WellFormed ↔ (Ty.interface y ns).WellFormed := by
    rw [wellFormed_interface, wellFormed_interface, hnames, hany, htypes]
  refine ⟨?_, hwf, fun hms => ⟨interface_le_of_agrees h hms, ?_⟩⟩
  · rw [not_interface_reaches_any_iff, not_interface_reaches_any_iff, hany]
  · have hflip : List.Forall₂ SignatureAgrees ns ms :=
      List.Forall₂.flip (h.imp fun _ _ hmn => hmn.symm)
    exact interface_le_of_agrees hflip (hwf.1 hms)

theorem methodOrder {x : String} {ms ns : List (Signature Ty)} (h : ms.Perm ns) :
    Agrees (Ty.interface x ms) (Ty.interface x ns) := by
  have hmem : ∀ m, m ∈ ms ↔ m ∈ ns := fun m => h.mem_iff
  have hnodup : (ms.map Signature.name).Nodup ↔ (ns.map Signature.name).Nodup :=
    (h.map Signature.name).nodup_iff
  refine ⟨?_, ?_, fun hms => ?_⟩
  · simp only [not_interface_reaches_any_iff, hmem]
  · simp only [wellFormed_interface, hmem, hnodup]
  · have hms : (ms.map Signature.name).Nodup := (wellFormed_interface.1 hms).1.1
    rw [interface_le_iff hms, interface_le_iff (hnodup.1 hms)]
    refine ⟨fun n hn => ?_, fun m hm => ?_⟩
    · exact ⟨n, (hmem n).2 hn, rfl, le_refl n⟩
    · exact ⟨m, (hmem m).1 hm, rfl, le_refl m⟩

end Agrees

/-- **Equivalent types agree.** One case per rule of the congruence. -/
theorem Equivalent.agrees {a b : Ty} (h : Equivalent a b) : Agrees a b := by
  induction h with
  | refl a => exact .refl a
  | symm _ ih => exact ih.symm
  | trans _ _ ihab ihbc => exact ihab.trans ihbc
  | any => exact .optional_any
  | tupleName h => exact .tuple (by simp [h]) (List.forall₂_same.2 fun e _ => .refl e)
  | interfaceName => exact .interface (List.forall₂_same.2 fun m _ => .refl m)
  | methodOrder h => exact .methodOrder h
  | list _ ih => exact ih.list
  | optional _ ih => exact ih.optional
  | future _ ih => exact ih.future
  | dict _ _ ihk ihv => exact ihk.dict ihv
  | elem _ ih => exact .tuple rfl (forall₂_replace .refl ih _ _)
  | param _ ih =>
    refine .interface (forall₂_replace .refl ⟨rfl, ?_, ?_⟩ _ _)
    · exact forall₂_replace (fun q => ⟨rfl, .refl q.2⟩) ⟨rfl, ih⟩ _ _
    · exact List.forall₂_same.2 fun r _ => .refl r
  | result _ ih =>
    refine .interface (forall₂_replace .refl ⟨rfl, ?_, ?_⟩ _ _)
    · exact List.forall₂_same.2 fun q _ => ⟨rfl, .refl q.2⟩
    · exact forall₂_replace .refl ih _ _

end Ty

end TensorTyping
