import TensorTyping.Proofs.Generic.Meeting
import TensorTyping.Proofs.Generic.Observation
import TensorTyping.Proofs.WellFormed.Basic

/-!
# Every operation keeps types well formed

From well-formed types, no operation of this library makes a type that is not well formed. There are
three reasons for it, and each operation is one of these or put together from them.

* The checked constructors, and the exchange of children, look at named members again. What they do
  not look at is inside interfaces, and there the parts are well formed already.
* Unification never puts a new member under a name. It gives a type back, or one with its tensor facts
  forgotten, which is an exchange of children, or it drops the names.
* Matching binds variables to what they meet, which is a part of the actual type or what the elements
  of a tuple unify to. This holds of a match that fails as well.
-/

set_option autoImplicit false

namespace TensorTyping

/-- Every bound type is well formed. -/
def Bindings.WellFormed (b : Bindings) : Prop := ∀ x t, b.get? x = some t → t.WellFormed

namespace Ty

/-! ## Checked construction -/

theorem wellFormed_of_namedTuple {name : Option String} {fields : List (String × Ty)} {t : Ty}
    (hfields : ∀ q ∈ fields, q.2.WellFormed) (h : namedTuple name fields = .ok t) :
    t.WellFormed := by
  obtain ⟨hcheck, ht⟩ := seq_eq_ok_iff.1 h
  obtain ⟨hany, hnodup, _⟩ := checkFields_eq_ok_iff.1 hcheck
  obtain rfl := Except.ok.inj ht
  refine wellFormed_named_of_not_contains (by simp) hnodup ?_ ?_
  · rw [List.forall_mem_map]
    exact hfields
  · rw [List.forall_mem_map]
    exact hany

theorem wellFormed_of_interfaceOf {name : String} {methods : List (Signature Ty)} {t : Ty}
    (hmethods : ∀ m ∈ methods, ∀ s ∈ m.types, s.WellFormed)
    (h : interfaceOf name methods = .ok t) : t.WellFormed := by
  obtain ⟨hcheck, ht⟩ := seq_eq_ok_iff.1 h
  obtain ⟨hany, hnodup, _⟩ := checkMethods_eq_ok_iff.1 hcheck
  obtain rfl := Except.ok.inj ht
  refine wellFormed_interface_of_not_contains hnodup hmethods fun m hm => ?_
  exact Signature.forall_mem_types.2 (hany m hm)

/-! ## Exchanging children -/

/-- The exchange looks at the elements that have a field name, and in a well-formed type these are
all. -/
theorem wellFormed_of_rebuild {t u : Ty} {cs : List Ty} (ht : t.WellFormed)
    (hcs : ∀ c ∈ cs, c.WellFormed) (hlen : cs.length = t.children.length)
    (h : t.rebuild cs = .ok u) : u.WellFormed := by
  obtain rfl := eq_withChildren_of_rebuild h
  cases t with
  | list e | optional e | future e =>
    obtain ⟨c, rfl⟩ := List.length_eq_one_iff.1 hlen
    simpa [withChildren] using hcs
  | dict k v =>
    obtain ⟨c, d, rfl⟩ := List.length_eq_two.1 hlen
    simpa [withChildren] using hcs
  | tuple s es =>
    rcases s with _ | names
    · exact wellFormed_tuple_none.2 hcs
    · -- the check runs along the shorter of field names and elements, so it misses none only if
      -- there are as many of both
      obtain ⟨⟨hfields, hnodup, _⟩, _⟩ := wellFormed_tuple_some.1 ht
      have hlen' : names.fields.length = cs.length := hfields.trans hlen.symm
      have hany := checkElems_eq_ok_iff.1 (seq_eq_ok_iff.1 h).1 names rfl
      refine wellFormed_named_of_not_contains hlen' hnodup hcs fun c hc => ?_
      rw [← List.map_snd_zip (Nat.le_of_eq hlen'.symm)] at hc
      obtain ⟨q, hq, rfl⟩ := List.mem_map.1 hc
      exact hany q hq
  | _ => exact ht

theorem wellFormed_forgetFacts {t : Ty} (ht : t.WellFormed) : t.forgetFacts.WellFormed := by
  induction t with
  | tensor f => exact wellFormed_tensor _
  | list e ih | optional e ih | future e ih => simpa [forgetFacts] using ih (by simpa using ht)
  | dict k v ihk ihv =>
    obtain ⟨hk, hv⟩ := wellFormed_dict.1 ht
    exact wellFormed_dict.2 ⟨ihk hk, ihv hv⟩
  | tuple s es ih =>
    rw [forgetFacts, forgetFactsAll_eq_map, rebuildD]
    have hes : ∀ e ∈ es.map forgetFacts, e.WellFormed := by
      rw [List.forall_mem_map]
      exact fun e he => ih e he (ht.of_mem_children he)
    -- a tuple whose new elements are turned down stays as it is
    rcases h : (tuple s es).rebuild (es.map forgetFacts) with _ | u
    · exact ht
    · exact wellFormed_of_rebuild ht hes (by simp [children]) h
  | _ => exact ht

/-! ## Unification -/

theorem wellFormed_of_larger? {a b u : Ty} (ha : a.WellFormed) (hb : b.WellFormed)
    (h : larger? a b = some u) : u.WellFormed := by
  rcases larger?_eq_some_iff.1 h with ⟨_, rfl⟩ | ⟨_, _, rfl⟩
  · exact hb
  · exact ha

theorem wellFormed_of_unify {a b u : Ty} (ha : a.WellFormed) (hb : b.WellFormed)
    (h : a.unify b = some u) : u.WellFormed := by
  refine unify_ind (P := fun a b u => a.WellFormed → b.WellFormed → u.WellFormed) ?larger ?tensors
    ?noneLeft ?noneRight ?lists ?tuples ?dicts h ha hb
  case larger =>
    intro a b u hu ha hb
    exact wellFormed_of_larger? ha hb hu
  case tensors =>
    intro f g _ _
    exact wellFormed_tensor _
  case noneLeft =>
    intro b _ _ hb
    exact wellFormed_optional.2 hb
  case noneRight =>
    intro a _ ha _
    exact wellFormed_optional.2 ha
  case lists =>
    intro a b u _ hu ha hb
    exact wellFormed_of_larger? (wellFormed_forgetFacts ha) (wellFormed_forgetFacts hb) hu
  case tuples =>
    intro s t as bs us hus ha hb
    -- the result has no field names, so its elements may lead to any type
    refine wellFormed_tuple_none.2 fun u hu => ?_
    obtain ⟨a, ha', b, hb', h⟩ := hus.exists_of_mem hu
    exact h (ha.of_mem_children ha') (hb.of_mem_children hb')
  case dicts =>
    intro k v k' v' key value hkey hvalue ha hb
    obtain ⟨hk, hv⟩ := wellFormed_dict.1 ha
    obtain ⟨hk', hv'⟩ := wellFormed_dict.1 hb
    have hforget := wellFormed_forgetFacts hv
    have hforget' := wellFormed_forgetFacts hv'
    exact wellFormed_dict.2 ⟨hkey hk hk', wellFormed_of_larger? hforget hforget' hvalue⟩

theorem wellFormed_of_unifyAll {ts : List Ty} {u : Ty} (hts : ∀ t ∈ ts, t.WellFormed)
    (h : unifyAll ts = some u) : u.WellFormed :=
  unifyAll_ind wellFormed_of_unify hts h

/-! ## Instances -/

theorem wellFormed_of_instantiate {b : Bindings} {t u : Ty} (hb : b.WellFormed)
    (ht : t.WellFormed) (h : t.instantiate b = .ok (some u)) : u.WellFormed := by
  induction t using ind_size generalizing u with
  | step t ih =>
    by_cases hopen : t.hasVars
    · by_cases hvar : ∃ x, t = var x
      · obtain ⟨x, rfl⟩ := hvar
        rw [instantiate_var, Except.ok.injEq] at h
        exact hb x u h
      · have hvar : ∀ x, t ≠ var x := fun x hx => hvar ⟨x, hx⟩
        rw [instantiate_eq_rebuild b hopen hvar] at h
        obtain ⟨cs, hcs, h⟩ := exists_of_bind_eq_ok_some h rfl
        obtain ⟨u', hu', h⟩ := bind_eq_ok_iff.1 h
        obtain rfl : u' = u := by simpa [pure, Except.pure] using h
        have hinst := forall₂_of_instantiateAll hcs
        refine wellFormed_of_rebuild ht (fun c' hc' => ?_) hinst.length_eq.symm hu'
        obtain ⟨c, hc, hcc'⟩ := exists_mem_left_of_forall₂ hinst hc'
        exact ih c (sizeOf_lt_of_mem_children hc) (ht.of_mem_children hc) hcc'
    · obtain rfl := eq_of_instantiate_closed hopen h
      exact ht

/-! ## Matching -/

theorem wellFormed_of_meets {q r : Ty × Ty} (h : Meets q r) (hq : q.2.WellFormed) :
    r.2.WellFormed :=
  h.snd_of (fun ht hc => ht.of_mem_children hc) wellFormed_of_unify hq

theorem wellFormed_leftBy_bindVars {f a : Ty} {b : Bindings} (hb : b.WellFormed)
    (ha : a.WellFormed) : ((bindVars f a).leftBy b).WellFormed := by
  intro x t hx
  rcases get?_leftBy_bindVars hx with h | h
  · exact hb x t h
  · exact wellFormed_of_meets h ha

/-- What goes down to children and is kept by unification goes from the actual types to the types
bound by a match. -/
theorem of_get?_matchTypes {P : Ty → Prop} (hchildren : ∀ {t c}, P t → c ∈ t.children → P c)
    (hunify : ∀ {a b u}, P a → P b → a.unify b = some u → P u) {fs as : List Ty} {b : Bindings}
    (has : ∀ a ∈ as, P a) (h : matchTypes fs as = .ok b) {x : String} {t : Ty}
    (hx : b.get? x = some t) : P t := by
  obtain ⟨_, hrun⟩ := matchTypes_eq_ok_iff.1 h
  rw [(Walk.complete_of_replay hrun).2, List.lookup_eq_some_iff] at hx
  obtain ⟨_, _, hmet, _⟩ := hx
  have hmem : (x, t) ∈ (walkEach fs as).met := by simp [hmet]
  obtain ⟨q, hq, hmeets⟩ := meets_of_mem_met_walkEach hmem
  exact hmeets.snd_of hchildren hunify (has q.2 (List.of_mem_zip hq).2)

theorem wellFormed_of_matchTypes {fs as : List Ty} {b : Bindings} (has : ∀ a ∈ as, a.WellFormed)
    (h : matchTypes fs as = .ok b) : b.WellFormed :=
  fun _ _ => of_get?_matchTypes (fun ht hc => ht.of_mem_children hc) wellFormed_of_unify has h

/-- **Every operation keeps types well formed.** Given well-formed types, so is what comes out of the
constructors, of the exchange of children, of forgetting tensor facts, of unification in all its
forms and of instantiation, and so is every type that a match binds, whether it succeeds or fails. -/
theorem wellFormed_preserved :
    (∀ name fields t, (∀ q ∈ fields, q.2.WellFormed) → namedTuple name fields = .ok t →
      t.WellFormed) ∧
    (∀ name methods t, (∀ m ∈ methods, ∀ s ∈ m.types, s.WellFormed) →
      interfaceOf name methods = .ok t → t.WellFormed) ∧
    (∀ e : Ty, e.WellFormed →
      (list e).WellFormed ∧ (optional e).WellFormed ∧ (future e).WellFormed) ∧
    (∀ k v : Ty, k.WellFormed → v.WellFormed → (dict k v).WellFormed) ∧
    (∀ es : List Ty, (∀ e ∈ es, e.WellFormed) → (tuple none es).WellFormed) ∧
    (∀ (t : Ty) cs u, t.WellFormed → (∀ c ∈ cs, c.WellFormed) → t.rebuild? cs = some (.ok u) →
      u.WellFormed) ∧
    (∀ t : Ty, t.WellFormed → t.forgetFacts.WellFormed) ∧
    (∀ a b u : Ty, a.WellFormed → b.WellFormed → larger? a b = some u → u.WellFormed) ∧
    (∀ a b u : Ty, a.WellFormed → b.WellFormed → a.unify b = some u → u.WellFormed) ∧
    (∀ ts u, (∀ t ∈ ts, t.WellFormed) → unifyAll ts = some u → u.WellFormed) ∧
    (∀ (b : Bindings) (t u : Ty), b.WellFormed → t.WellFormed →
      t.instantiate b = .ok (some u) → u.WellFormed) ∧
    (∀ (f a : Ty) (b : Bindings), b.WellFormed → a.WellFormed →
      ((bindVars f a).leftBy b).WellFormed) ∧
    (∀ fs as b, (∀ a ∈ as, a.WellFormed) → matchTypes fs as = .ok b → b.WellFormed) := by
  refine ⟨fun _ _ _ => wellFormed_of_namedTuple, fun _ _ _ => wellFormed_of_interfaceOf, ?single,
    fun k v hk hv => wellFormed_dict.2 ⟨hk, hv⟩, fun es => wellFormed_tuple_none.2, ?rebuild,
    fun _ => wellFormed_forgetFacts, fun _ _ _ => wellFormed_of_larger?,
    fun _ _ _ => wellFormed_of_unify, fun _ _ => wellFormed_of_unifyAll,
    fun _ _ _ => wellFormed_of_instantiate, fun _ _ _ => wellFormed_leftBy_bindVars,
    fun _ _ _ => wellFormed_of_matchTypes⟩
  case single =>
    intro e he
    exact ⟨wellFormed_list.2 he, wellFormed_optional.2 he, wellFormed_future.2 he⟩
  case rebuild =>
    intro t cs u ht hcs h
    rw [rebuild?] at h
    split_ifs at h with hlen
    exact wellFormed_of_rebuild ht hcs hlen (Option.some.inj h)

/-- An interface with a variable in a signature, a named tuple with that interface and a variable for
members, a match that binds the variable to the interface, and the instance of the tuple. Each is
well formed because what it was made from is. -/
theorem wellFormed_preserved_instance :
    let methods : List (Signature Ty) :=
      [⟨"f", [("x", prim .int)], [optional (var "t")]⟩, ⟨"g", [], []⟩]
    let i := interface "I" methods
    let fields := [("a", var "t"), ("b", list i)]
    let t := tuple (some ⟨some "P", ["a", "b"]⟩) [var "t", list i]
    let b : Bindings := ⟨[("t", i)]⟩
    let u := tuple (some ⟨some "P", ["a", "b"]⟩) [i, list i]
    interfaceOf "I" methods = .ok i ∧ namedTuple (some "P") fields = .ok t ∧
      matchTypes [var "t"] [i] = .ok b ∧ t.instantiate b = .ok (some u) ∧ u.WellFormed := by
  intro methods i fields t b u
  obtain ⟨hnamed, hinterface, -, -, -, -, -, -, -, -, hinstantiate, -, hmatch⟩ :=
    wellFormed_preserved
  have hi : interfaceOf "I" methods = .ok i :=
    seq_eq_ok_iff.2 ⟨checkMethods_eq_ok_iff.2 (by simp [methods]), rfl⟩
  have hiwf : i.WellFormed := hinterface "I" methods i (by simp [methods, Signature.types]) hi
  have ht : namedTuple (some "P") fields = .ok t :=
    seq_eq_ok_iff.2 ⟨checkFields_eq_ok_iff.2 (by simp [fields, i]), rfl⟩
  have htwf : t.WellFormed := hnamed (some "P") fields t (by simp [fields, hiwf]) ht
  have hb : matchTypes [var "t"] [i] = .ok b := by rfl
  have hbwf : b.WellFormed := hmatch [var "t"] [i] b (by simp [hiwf]) hb
  have hu : t.instantiate b = .ok (some u) := by
    have hcheck : checkElems (some ⟨some "P", ["a", "b"]⟩) [i, list i] = .ok () := by
      refine checkElems_eq_ok_iff.2 ?_
      rintro _ ⟨⟩ q hq
      rcases List.mem_pair.1 hq with rfl | rfl <;> simp [i]
    have hrebuild : t.rebuild [i, list i] = .ok u := seq_eq_ok_iff.2 ⟨hcheck, rfl⟩
    have hall : instantiateAll b t.children = .ok (some [i, list i]) := by rfl
    rw [instantiate_eq_rebuild b (by rfl) (by simp [t])]
    exact bind_eq_ok_iff.2 ⟨_, hall, bind_eq_ok_iff.2 ⟨u, hrebuild, rfl⟩⟩
  exact ⟨hi, ht, hb, hu, hinstantiate b t u hbwf htwf hu⟩

end Ty

end TensorTyping
