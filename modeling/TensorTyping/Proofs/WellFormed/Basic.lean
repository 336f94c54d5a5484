import TensorTyping.Proofs.Ty.Member

/-!
# Well-formed types

Named tuples and interfaces vouch for their members by name, so at every depth the names have to fit
and no member may lead to the type of all values. *Every depth* includes the signatures inside
interfaces. `Ty.parts` adds them to the children, and `Ty.Reaches` is the walk through all parts, as
`Ty.Contains` is the walk through children.

The checks at construction see less: they walk through children only and never enter an interface. What
they miss is what `Ty.ReachesInSignature` is about, and `Ty.reaches_iff_contains_or` says that there is
nothing else. That they see enough is `Ty.WellFormed.not_reaches_any`: in a well-formed type, no walk
that enters an interface gets to the type of all values.
-/

set_option autoImplicit false

namespace TensorTyping

/-- The types in a signature: those of the parameters and those returned. -/
def Signature.types (m : Signature Ty) : List Ty := m.params.map Prod.snd ++ m.returns

theorem Signature.forall_mem_types {P : Ty → Prop} {m : Signature Ty} :
    (∀ t ∈ m.types, P t) ↔ (∀ q ∈ m.params, P q.2) ∧ ∀ r ∈ m.returns, P r := by
  rw [types, List.forall_mem_append, List.forall_mem_map]

theorem Signature.mem_types_of_mem_params {m : Signature Ty} {q : String × Ty} (hq : q ∈ m.params) :
    q.2 ∈ m.types :=
  List.mem_append_left _ (List.mem_map_of_mem hq)

theorem Signature.mem_types_of_mem_returns {m : Signature Ty} {r : Ty} (hr : r ∈ m.returns) :
    r ∈ m.types :=
  List.mem_append_right _ hr

namespace Ty

/-! ## Walking through all parts -/

/-- The children of a type or, for an interface, the types in its signatures. -/
def parts : Ty → List Ty
  | interface _ ms => ms.flatMap Signature.types
  | t => t.children

/-- `s` is met on the walk through all parts of `t`, which starts at `t` itself. -/
def Reaches (t s : Ty) : Prop := Relation.ReflTransGen (fun a p => p ∈ a.parts) t s

theorem reaches_self (t : Ty) : t.Reaches t := Relation.ReflTransGen.refl

/-- The walk meets the type it starts from, and then what the walks from its parts meet. -/
theorem reaches_iff {t s : Ty} : t.Reaches s ↔ s = t ∨ ∃ p ∈ t.parts, p.Reaches s := by
  rw [Reaches, Relation.ReflTransGen.cases_head_iff, eq_comm]
  rfl

/-- Outside of interfaces, parts are children. -/
theorem parts_eq_children {t : Ty} (h : ∀ x ms, t ≠ interface x ms) : t.parts = t.children := by
  cases t with
  | interface x ms => exact absurd rfl (h x ms)
  | _ => rfl

theorem mem_parts_of_mem_children {t c : Ty} (hc : c ∈ t.children) : c ∈ t.parts := by
  cases t with
  | interface x ms => simp [children] at hc
  | _ => exact hc

theorem sizeOf_lt_of_mem_parts {t p : Ty} (hp : p ∈ t.parts) : sizeOf p < sizeOf t := by
  by_cases hinterface : ∃ x ms, t = interface x ms
  · obtain ⟨x, ms, rfl⟩ := hinterface
    obtain ⟨m, hm, hp⟩ := List.mem_flatMap.1 hp
    have hall : ∀ t ∈ m.types, sizeOf t < sizeOf (interface x ms) :=
      Signature.forall_mem_types.2 ⟨fun _ hq => sizeOf_lt_of_mem_params hm hq,
        fun _ hr => sizeOf_lt_of_mem_returns hm hr⟩
    exact hall p hp
  · rw [parts_eq_children fun x ms hx => hinterface ⟨x, ms, hx⟩] at hp
    exact sizeOf_lt_of_mem_children hp

/-- The walk through children is part of the walk through all parts. -/
theorem Contains.reaches {t s : Ty} (h : t.Contains s) : t.Reaches s :=
  Relation.ReflTransGen.mono (fun _ _ => mem_parts_of_mem_children) t s h

/-- `s` is met in a signature of an interface that the walk through the children of `t` meets. -/
def ReachesInSignature (t s : Ty) : Prop :=
  ∃ x ms, t.Contains (interface x ms) ∧ ∃ m ∈ ms, ∃ p ∈ m.types, p.Reaches s

/-- The walk through all parts goes through children, or it enters an interface on its way. -/
theorem reaches_iff_contains_or {t s : Ty} :
    t.Reaches s ↔ t.Contains s ∨ t.ReachesInSignature s := by
  constructor
  · intro h
    -- a step out of an interface is one into a signature, and any other step leads to a child
    induction h using Relation.ReflTransGen.head_induction_on with
    | refl => exact .inl (contains_self s)
    | head hp hrest ih =>
      rename_i t p
      by_cases hinterface : ∃ x ms, t = interface x ms
      · obtain ⟨x, ms, rfl⟩ := hinterface
        obtain ⟨m, hm, hp⟩ := List.mem_flatMap.1 hp
        exact .inr ⟨x, ms, contains_self _, m, hm, p, hp, hrest⟩
      · rw [parts_eq_children fun x ms hx => hinterface ⟨x, ms, hx⟩] at hp
        rcases ih with hs | ⟨x, ms, hinner, hs⟩
        · exact .inl (contains_of_mem_children hp hs)
        · exact .inr ⟨x, ms, contains_of_mem_children hp hinner, hs⟩
  · rintro (h | ⟨x, ms, hinterface, m, hm, p, hp, hs⟩)
    · exact h.reaches
    · have hpart : p ∈ (interface x ms).parts := List.mem_flatMap.2 ⟨m, hm, hp⟩
      exact hinterface.reaches.trans (Relation.ReflTransGen.head hpart hs)

/-! ## Well-formed types -/

/-- The members that a type names are in order: as many field names as elements, no name twice, and
no way from a member to the type of all values. -/
def MembersInOrder : Ty → Prop
  | tuple (some names) es =>
    names.fields.length = es.length ∧ names.fields.Nodup ∧ ∀ e ∈ es, ¬ e.Reaches (prim .any)
  | interface _ ms =>
    (ms.map Signature.name).Nodup ∧ ∀ m ∈ ms, ∀ t ∈ m.types, ¬ t.Reaches (prim .any)
  | _ => True

/-- At every depth, named members are in order. -/
def WellFormed (t : Ty) : Prop := ∀ s, t.Reaches s → s.MembersInOrder

/-- A type is well formed when its own members are in order and its parts are well formed. -/
theorem wellFormed_iff {t : Ty} :
    t.WellFormed ↔ t.MembersInOrder ∧ ∀ p ∈ t.parts, p.WellFormed := by
  constructor
  · intro h
    refine ⟨h t (reaches_self t), fun p hp s hs => h s ?_⟩
    exact reaches_iff.2 (.inr ⟨p, hp, hs⟩)
  · rintro ⟨hself, hparts⟩ s hs
    rcases reaches_iff.1 hs with rfl | ⟨p, hp, hs⟩
    · exact hself
    · exact hparts p hp s hs

theorem WellFormed.of_mem_children {t c : Ty} (h : t.WellFormed) (hc : c ∈ t.children) :
    c.WellFormed :=
  (wellFormed_iff.1 h).2 c (mem_parts_of_mem_children hc)

/-! ## By form -/

/-- Where no members are named, only the children have to be well formed. -/
theorem wellFormed_iff_of_unnamed (t : Ty) (hmembers : t.MembersInOrder)
    (hparts : t.parts = t.children) : t.WellFormed ↔ ∀ c ∈ t.children, c.WellFormed := by
  rw [wellFormed_iff, hparts]
  exact and_iff_right hmembers

@[simp] theorem wellFormed_prim (p : Primitive) : (prim p).WellFormed :=
  (wellFormed_iff_of_unnamed (prim p) trivial rfl).2 (List.forall_mem_nil _)

@[simp] theorem wellFormed_tensor (f : TensorFacts) : (tensor f).WellFormed :=
  (wellFormed_iff_of_unnamed (tensor f) trivial rfl).2 (List.forall_mem_nil _)

@[simp] theorem wellFormed_function (x : String) : (function x).WellFormed :=
  (wellFormed_iff_of_unnamed (function x) trivial rfl).2 (List.forall_mem_nil _)

@[simp] theorem wellFormed_var (x : String) : (var x).WellFormed :=
  (wellFormed_iff_of_unnamed (var x) trivial rfl).2 (List.forall_mem_nil _)

@[simp] theorem wellFormed_list {e : Ty} : (list e).WellFormed ↔ e.WellFormed :=
  (wellFormed_iff_of_unnamed (list e) trivial rfl).trans List.forall_mem_singleton

@[simp] theorem wellFormed_optional {e : Ty} : (optional e).WellFormed ↔ e.WellFormed :=
  (wellFormed_iff_of_unnamed (optional e) trivial rfl).trans List.forall_mem_singleton

@[simp] theorem wellFormed_future {e : Ty} : (future e).WellFormed ↔ e.WellFormed :=
  (wellFormed_iff_of_unnamed (future e) trivial rfl).trans List.forall_mem_singleton

@[simp] theorem wellFormed_dict {k v : Ty} :
    (dict k v).WellFormed ↔ k.WellFormed ∧ v.WellFormed := by
  refine (wellFormed_iff_of_unnamed (dict k v) trivial rfl).trans ?_
  exact List.forall_mem_cons.trans (and_congr_right fun _ => List.forall_mem_singleton)

@[simp] theorem wellFormed_tuple_none {es : List Ty} :
    (tuple none es).WellFormed ↔ ∀ e ∈ es, e.WellFormed :=
  wellFormed_iff_of_unnamed (tuple none es) trivial rfl

theorem wellFormed_tuple_some {names : TupleNames} {es : List Ty} :
    (tuple (some names) es).WellFormed ↔
      (names.fields.length = es.length ∧ names.fields.Nodup ∧
        ∀ e ∈ es, ¬ e.Reaches (prim .any)) ∧ ∀ e ∈ es, e.WellFormed :=
  wellFormed_iff

theorem wellFormed_interface {x : String} {ms : List (Signature Ty)} :
    (interface x ms).WellFormed ↔
      ((ms.map Signature.name).Nodup ∧ ∀ m ∈ ms, ∀ t ∈ m.types, ¬ t.Reaches (prim .any)) ∧
        ∀ m ∈ ms, ∀ t ∈ m.types, t.WellFormed := by
  rw [wellFormed_iff, parts, List.forall_mem_flatMap]
  rfl

/-! ## What the checks need not look at -/

/-- **The checks see enough.** In a well-formed type, what is not found through children is not there
at all. -/
theorem WellFormed.not_reaches_any {t : Ty} (ht : t.WellFormed) (h : ¬ t.Contains (prim .any)) :
    ¬ t.Reaches (prim .any) := by
  intro hreaches
  rcases reaches_iff_contains_or.1 hreaches with hany | ⟨x, ms, hinterface, m, hm, p, hp, hany⟩
  · exact h hany
  · have hmembers : (interface x ms).MembersInOrder := ht _ hinterface.reaches
    exact hmembers.2 m hm p hp hany

/-- A named tuple is well formed when the names fit and the walk through the children of each element,
which is well formed, does not meet the type of all values. -/
theorem wellFormed_named_of_not_contains {names : TupleNames} {es : List Ty}
    (hlen : names.fields.length = es.length) (hnodup : names.fields.Nodup)
    (hes : ∀ e ∈ es, e.WellFormed) (hany : ∀ e ∈ es, ¬ e.Contains (prim .any)) :
    (tuple (some names) es).WellFormed := by
  refine wellFormed_tuple_some.2 ⟨⟨hlen, hnodup, fun e he => ?_⟩, hes⟩
  exact (hes e he).not_reaches_any (hany e he)

theorem wellFormed_interface_of_not_contains {x : String} {ms : List (Signature Ty)}
    (hnodup : (ms.map Signature.name).Nodup) (hms : ∀ m ∈ ms, ∀ t ∈ m.types, t.WellFormed)
    (hany : ∀ m ∈ ms, ∀ t ∈ m.types, ¬ t.Contains (prim .any)) : (interface x ms).WellFormed := by
  refine wellFormed_interface.2 ⟨⟨hnodup, fun m hm t ht => ?_⟩, hms⟩
  exact (hms m hm t ht).not_reaches_any (hany m hm t ht)

end Ty

end TensorTyping
