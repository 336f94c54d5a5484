import TensorTyping.Proofs.Ty.FirstOffender

/-!
# Children as a lens

Reading the children of a type and exchanging them belong together: what is put in is what is read
afterwards, what is read may be put back, and of two exchanges the second counts. Operations that walk
a type, change its children and put them back rely on this for every form of type.

The exchange itself (`Ty.withChildren`) keeps the form and the names of the type and obeys these laws
as it is. Rebuilding adds a check, and the check looks at nothing but the names and the new children,
so it is the same after an exchange. It fails for named tuples only, at the first element that contains
the type of all values. Here the type has to be well formed: elements without a field name would not
be looked at.
-/

set_option autoImplicit false

namespace TensorTyping

/-- The first pair of which the right-hand side has a property is at the first place where the
right-hand list has it. -/
theorem FirstAt.snd_of_zip {α β : Type} (p : β → Prop) {xs : List α} {ys : List β} {i : Nat}
    {x : α} {y : β} (hlen : xs.length = ys.length)
    (h : FirstAt (fun _ q => p q.2) (xs.zip ys) i (x, y)) :
    xs[i]? = some x ∧ FirstAt (fun _ => p) ys i y := by
  obtain ⟨hx, hy⟩ := List.getElem?_zip_eq_some.1 h.entry
  refine ⟨hx, hy, h.holds, fun j hj z hz => ?_⟩
  have hlt : j < xs.length := by
    rw [hlen]
    exact (List.getElem?_eq_some_iff.1 hz).1
  exact h.before j hj (xs[j], z)
    (List.getElem?_zip_eq_some.2 ⟨List.getElem?_eq_getElem hlt, hz⟩)

namespace Ty

/-! ## The exchange -/

/-- The form and the names stay. -/
theorem frame_withChildren (t : Ty) (cs : List Ty) :
    (t.withChildren cs).kind = t.kind ∧ (t.withChildren cs).tupleNames = t.tupleNames := by
  -- the exchange itself does nothing when there are too few or too many, so those cases come up too
  cases t with
  | list e | optional e | future e => rcases cs with _ | ⟨c, _ | _⟩ <;> exact ⟨rfl, rfl⟩
  | dict k v => rcases cs with _ | ⟨c, _ | ⟨d, _ | _⟩⟩ <;> exact ⟨rfl, rfl⟩
  | _ => exact ⟨rfl, rfl⟩

/-- Of two exchanges the second counts. -/
theorem withChildren_withChildren {t : Ty} (cs : List Ty) {ds : List Ty}
    (hds : ds.length = t.children.length) :
    (t.withChildren cs).withChildren ds = t.withChildren ds := by
  cases t with
  | list e | optional e | future e =>
    obtain ⟨d, rfl⟩ := List.length_eq_one_iff.1 hds
    rcases cs with _ | ⟨c, _ | _⟩ <;> rfl
  | dict k v =>
    obtain ⟨d, d', rfl⟩ := List.length_eq_two.1 hds
    rcases cs with _ | ⟨c, _ | ⟨c', _ | _⟩⟩ <;> rfl
  | _ => rfl

/-! ## The check -/

/-- In a well-formed named tuple every element has a field name. -/
theorem WellFormed.length_fields {t : Ty} (ht : t.WellFormed) {names : TupleNames}
    (hnames : t.tupleNames = some names) : names.fields.length = t.children.length := by
  obtain ⟨es, rfl⟩ := exists_of_tupleNames hnames
  exact (wellFormed_tuple_some.1 ht).1.1

/-- With a field name for each element, the check fails when some element contains the type of all
values. -/
theorem exists_checkElems_eq_error_iff {names : TupleNames} {cs : List Ty}
    (hlen : names.fields.length = cs.length) :
    (∃ e, checkElems (some names) cs = .error e) ↔ ∃ c ∈ cs, c.Contains (prim .any) := by
  have hsnd : (names.fields.zip cs).map Prod.snd = cs :=
    List.map_snd_zip (Nat.le_of_eq hlen.symm)
  -- the check runs along the pairs, which name every element as there are enough names
  have hok : checkElems (some names) cs = .ok () ↔ ∀ c ∈ cs, ¬ c.Contains (prim .any) := by
    conv_rhs => rw [← hsnd, List.forall_mem_map]
    rw [checkElems_eq_ok_iff]
    simp only [Option.some.injEq, forall_eq']
  constructor
  · rintro ⟨e, he⟩
    by_contra hnone
    rw [hok.2 fun c hc hany => hnone ⟨c, hc, hany⟩] at he
    cases he
  · rintro ⟨c, hc, hany⟩
    rcases hcheck : checkElems (some names) cs with e | ⟨⟩
    · exact ⟨e, rfl⟩
    · exact absurd hany (hok.1 hcheck c hc)

/-- The check fails at the first element that contains the type of all values, under the name of its
field. -/
theorem exists_firstAt_of_checkElems {names : TupleNames} {cs : List Ty} {e : MemberError}
    (hlen : names.fields.length = cs.length) (h : checkElems (some names) cs = .error e) :
    ∃ i x c, FirstAt (fun _ c => c.Contains (prim .any)) cs i c ∧ names.fields[i]? = some x ∧
      e = .containsAny names.container .field x c := by
  obtain ⟨i, ⟨x, c⟩, hfirst, herr⟩ :=
    exists_firstAt_of_requireNoAny (fun _ => .field) Prod.fst Prod.snd h
  obtain ⟨hx, hc⟩ := FirstAt.snd_of_zip (fun c => c.Contains (prim .any)) hlen hfirst
  exact ⟨i, x, c, hc, hx, herr⟩

/-! ## Rebuilding -/

/-- Rebuilding is refused exactly for named tuples that would get an element that contains the type of
all values. -/
theorem exists_rebuild_eq_error_iff {t : Ty} (ht : t.WellFormed) {cs : List Ty}
    (hcs : cs.length = t.children.length) :
    (∃ e, t.rebuild cs = .error e) ↔
      (∃ names, t.tupleNames = some names) ∧ ∃ c ∈ cs, c.Contains (prim .any) := by
  simp only [rebuild_eq_error_iff]
  rcases hnames : t.tupleNames with _ | names
  · simp [checkElems]
  · rw [exists_checkElems_eq_error_iff ((ht.length_fields hnames).trans hcs.symm)]
    simp

/-- A type may be given its own children. -/
theorem rebuild_children {t : Ty} (ht : t.WellFormed) : t.rebuild t.children = .ok t := by
  have hcheck : checkElems t.tupleNames t.children = .ok () := by
    refine checkElems_eq_ok_iff.2 fun names hnames q hq => ?_
    obtain ⟨es, rfl⟩ := exists_of_tupleNames hnames
    have hany : ∀ e ∈ es, ¬ e.Reaches (prim .any) := (wellFormed_tuple_some.1 ht).1.2.2
    exact fun hcontains => hany q.2 (List.of_mem_zip hq).2 hcontains.reaches
  rw [rebuild_eq_seq, hcheck, withChildren_children]
  rfl

/-- The exchange leaves the check of a later one as it is. -/
theorem rebuild_withChildren {t : Ty} (cs : List Ty) {ds : List Ty}
    (hds : ds.length = t.children.length) : (t.withChildren cs).rebuild ds = t.rebuild ds := by
  rw [rebuild_eq_seq, rebuild_eq_seq, (frame_withChildren t cs).2, withChildren_withChildren cs hds]

/-- The one type of a kind that has just one is found again from its kind. -/
theorem eq_of_ofKind?_kind {t s : Ty} (h : ofKind? t.kind = some s) : s = t := by
  cases t with
  | prim p => exact (Option.some.inj h).symm
  | _ => cases h

/-- **Children are a lens.** Take as many types as a well-formed type has children. To put them in is
refused exactly when the type is a named tuple and one of them contains the type of all values, and the
refusal names the field of the first such. Otherwise the new type has the kind and the names of the
old, its children are the types put in, a further exchange is the same as for the old type, and if its
kind has just one type, this is the one. And a type may always be given its own children. -/
theorem children_lens {t : Ty} (ht : t.WellFormed) :
    (∀ cs, cs.length = t.children.length →
      ((∃ e, t.rebuild cs = .error e) ↔
        (∃ names, t.tupleNames = some names) ∧ ∃ c ∈ cs, c.Contains (prim .any)) ∧
      (∀ e, t.rebuild cs = .error e → ∃ names i x c, t.tupleNames = some names ∧
        FirstAt (fun _ c => c.Contains (prim .any)) cs i c ∧ names.fields[i]? = some x ∧
        e = .containsAny names.container .field x c) ∧
      ∀ u, t.rebuild cs = .ok u →
        u.kind = t.kind ∧ u.tupleNames = t.tupleNames ∧ u.children = cs ∧
        (∀ ds, ds.length = t.children.length → u.rebuild ds = t.rebuild ds) ∧
        ∀ s, ofKind? u.kind = some s → s = u) ∧
    t.rebuild t.children = .ok t := by
  refine ⟨fun cs hcs => ⟨exists_rebuild_eq_error_iff ht hcs, fun e he => ?_, fun u hu => ?_⟩,
    rebuild_children ht⟩
  · obtain ⟨names, hnames⟩ := ((exists_rebuild_eq_error_iff ht hcs).1 ⟨e, he⟩).1
    rw [rebuild_eq_error_iff, hnames] at he
    obtain ⟨i, x, c, hfirst⟩ :=
      exists_firstAt_of_checkElems ((ht.length_fields hnames).trans hcs.symm) he
    exact ⟨names, i, x, c, hnames, hfirst⟩
  · obtain rfl := eq_withChildren_of_rebuild hu
    obtain ⟨hkind, hnames⟩ := frame_withChildren t cs
    exact ⟨hkind, hnames, children_withChildren hcs, fun ds hds => rebuild_withChildren cs hds,
      fun s => eq_of_ofKind?_kind⟩

/-- A named tuple of three elements. Of the two new elements that contain the type of all values the
first one is reported, and elements that do not are put in. -/
theorem children_lens_named :
    let names : TupleNames := ⟨some "P", ["a", "b", "c"]⟩
    let t := tuple (some names) [prim .int, var "x", optional (prim .int)]
    let bad := [prim .int, list (prim .any), prim .any]
    let good := [var "x", prim .int, prim .none]
    t.WellFormed ∧
      (∃ i x c e, t.rebuild bad = .error e ∧ names.fields[i]? = some x ∧
        FirstAt (fun _ c => c.Contains (prim .any)) bad i c ∧ e = .containsAny "P" .field x c) ∧
      ∃ u, t.rebuild good = .ok u ∧ u.children = good ∧ u.tupleNames = some names ∧
        u.rebuild t.children = .ok t := by
  intro names t bad good
  have ht : t.WellFormed :=
    wellFormed_named_of_not_contains rfl (by decide) (by simp) (by simp)
  obtain ⟨hlaws, hown⟩ := children_lens ht
  obtain ⟨hiff, hfirst, -⟩ := hlaws bad rfl
  obtain ⟨hiff', -, hput⟩ := hlaws good rfl
  refine ⟨ht, ?_, ?_⟩
  · obtain ⟨e, he⟩ := hiff.2 ⟨⟨names, rfl⟩, prim .any, by simp [bad], contains_self _⟩
    obtain ⟨names', i, x, c, hnames, hc, hx, rfl⟩ := hfirst e he
    obtain rfl : names = names' := Option.some.inj hnames
    exact ⟨i, x, c, _, he, hx, hc, rfl⟩
  · rcases hu : t.rebuild good with e | u
    · obtain ⟨-, c, hc, hany⟩ := hiff'.1 ⟨e, hu⟩
      simp only [good, List.mem_cons, List.not_mem_nil, or_false] at hc
      rcases hc with rfl | rfl | rfl <;> simp at hany
    · obtain ⟨-, hnames, hchildren, hagain, -⟩ := hput u hu
      exact ⟨u, rfl, hchildren, hnames, (hagain t.children rfl).trans hown⟩

end Ty

end TensorTyping
