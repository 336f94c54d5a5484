import Mathlib.Data.List.Nodup
import Mathlib.Tactic.Tauto
import TensorTyping.Proofs.Ty.Parts
import TensorTyping.Ty.Member

/-!
# What the checks on members establish

A checked constructor is a sequence of tests, each of which ends the construction when it fails. For
each of them one lemma here says when it passes: no member contains the type of all values, and no
name is repeated. The scan with a stack is described by `Ty.containsAny_iff`, so that later proofs
speak of containment and never of a stack.

`Ty.withChildren` is the exchange of children without any check, and rebuilding is that exchange
behind one.
-/

set_option autoImplicit false

namespace TensorTyping

/-! ## Successful computations -/

section Except

variable {ε α β : Type}

theorem bind_eq_ok_iff {m : Except ε α} {k : α → Except ε β} {y : β} :
    (m >>= k) = .ok y ↔ ∃ x, m = .ok x ∧ k x = .ok y := by
  rcases m with e | x
  · simp [bind, Except.bind]
  · simp [bind, Except.bind]

/-- A computation that gives up on `none` has not met it when it succeeds. -/
theorem exists_of_bind_eq_ok_some {m : Except ε (Option α)}
    {k : Option α → Except ε (Option β)} {y : β} (h : (m >>= k) = .ok (some y))
    (hnone : k none = .ok none) : ∃ x, m = .ok (some x) ∧ k (some x) = .ok (some y) := by
  obtain ⟨_ | x, hm, hk⟩ := bind_eq_ok_iff.1 h
  · rw [hnone] at hk
    simp at hk
  · exact ⟨x, hm, hk⟩

theorem bind_eq_error_iff {m : Except ε α} {k : α → Except ε β} {e : ε} :
    (m >>= k) = .error e ↔ m = .error e ∨ ∃ x, m = .ok x ∧ k x = .error e := by
  rcases m with e' | x
  · simp [bind, Except.bind]
  · simp [bind, Except.bind]

theorem seq_eq_ok_iff {m : Except ε Unit} {k : Except ε β} {y : β} :
    (do m; k) = .ok y ↔ m = .ok () ∧ k = .ok y := by
  rw [bind_eq_ok_iff]
  constructor
  · rintro ⟨⟨⟩, hm, hk⟩
    exact ⟨hm, hk⟩
  · rintro ⟨hm, hk⟩
    exact ⟨(), hm, hk⟩

/-- A guard passes when its condition does not hold. -/
theorem guard_eq_ok_iff {p : Prop} [Decidable p] {e : ε} {k : Except ε β} {y : β} :
    (do
      if p then throw e
      k) = .ok y ↔ ¬ p ∧ k = .ok y := by
  by_cases h : p
  · simp [h, throw, throwThe, MonadExceptOf.throw, bind, Except.bind]
  · simp [h]

theorem forM_eq_ok_iff {xs : List α} {f : α → Except ε Unit} :
    xs.forM f = .ok () ↔ ∀ x ∈ xs, f x = .ok () := by
  induction xs with
  | nil => simp [List.forM, pure, Except.pure]
  | cons x xs ih =>
    rw [List.forall_mem_cons, ← ih]
    exact seq_eq_ok_iff

/-- A traversal that fails does so at one of the members. -/
theorem exists_of_forM_eq_error {xs : List α} {f : α → Except ε Unit} {e : ε}
    (h : xs.forM f = .error e) : ∃ x ∈ xs, f x = .error e := by
  induction xs with
  | nil => simp [List.forM, pure, Except.pure] at h
  | cons x xs ih =>
    rcases bind_eq_error_iff.1 h with hx | ⟨_, _, hxs⟩
    · exact ⟨x, List.mem_cons_self, hx⟩
    · obtain ⟨y, hy, hfy⟩ := ih hxs
      exact ⟨y, List.mem_cons_of_mem x hy, hfy⟩

end Except

namespace Ty

/-! ## The scan -/

theorem isAny_iff {t : Ty} : t.isAny ↔ t = prim .any := by
  cases t with
  | prim p => cases p <;> simp [isAny]
  | _ => simp [isAny]

/-- The scan finds the type of all values wherever the types on the stack contain it. Each round is
one step of the walk that containment is about. -/
theorem anyOnStack_iff {stack : List Ty} :
    anyOnStack stack ↔ ∃ t ∈ stack, t.Contains (prim .any) := by
  induction stack using anyOnStack.induct with
  | case1 => simp [anyOnStack]
  | case2 t rest ih =>
    have ht : t.Contains (prim .any) ↔ t.isAny ∨ ∃ c ∈ t.children, c.Contains (prim .any) := by
      rw [contains_iff, isAny_iff, eq_comm]
    have hrest : (∃ s ∈ t.children.reverse ++ rest, s.Contains (prim .any)) ↔
        (∃ c ∈ t.children, c.Contains (prim .any)) ∨ ∃ s ∈ rest, s.Contains (prim .any) := by
      simp [or_and_right, exists_or]
    rw [anyOnStack, Bool.or_eq_true, ih, hrest, ← or_assoc, ← ht]
    simp

theorem containsAny_iff {t : Ty} : t.containsAny ↔ t.Contains (prim .any) := by
  rw [containsAny, anyOnStack_iff]
  simp

/-! ## The checks -/

theorem requireNoAny_eq_ok_iff {container : String} {role : Role} {member : String} {t : Ty} :
    requireNoAny container role member t = .ok () ↔ ¬ t.Contains (prim .any) := by
  rw [requireNoAny, ← containsAny_iff]
  by_cases h : t.containsAny
  · simp [h]
  · simp [h]

/-- A member that is refused contains the type of all values, and the refusal names it. -/
theorem requireNoAny_eq_error {container : String} {role : Role} {member : String} {t : Ty}
    {e : MemberError} (h : requireNoAny container role member t = .error e) :
    t.Contains (prim .any) ∧ e = .containsAny container role member t := by
  rw [requireNoAny] at h
  by_cases hany : t.containsAny
  · rw [if_pos hany] at h
    exact ⟨containsAny_iff.1 hany, (Except.error.inj h).symm⟩
  · simp [hany] at h

/-- Names are new one by one, each to those seen before it, when they are new to those seen at first
and to each other. -/
theorem nodup_cons_and_new_iff {x : String} {xs seen : List String} :
    (x :: xs).Nodup ∧ (∀ y ∈ x :: xs, y ∉ seen) ↔
      x ∉ seen ∧ xs.Nodup ∧ ∀ y ∈ xs, y ∉ x :: seen := by
  rw [List.nodup_cons, List.forall_mem_cons]
  simp only [List.mem_cons, not_or]
  constructor
  · rintro ⟨⟨hx, hxs⟩, hseen, hnew⟩
    exact ⟨hseen, hxs, fun y hy => ⟨fun hyx => hx (hyx ▸ hy), hnew y hy⟩⟩
  · rintro ⟨hseen, hxs, hnew⟩
    exact ⟨⟨fun hx => (hnew x hx).1 rfl, hxs⟩, hseen, fun y hy => (hnew y hy).2⟩

/-- Fields pass when none contains the type of all values and the names are new, to those seen
before and to each other. -/
theorem checkFields_eq_ok_iff {container : String} {seen : List String}
    {fields : List (String × Ty)} :
    checkFields container seen fields = .ok () ↔
      (∀ q ∈ fields, ¬ q.2.Contains (prim .any)) ∧
        (fields.map Prod.fst).Nodup ∧ ∀ x ∈ fields.map Prod.fst, x ∉ seen := by
  induction fields generalizing seen with
  | nil => simp [checkFields]
  | cons q fields ih =>
    obtain ⟨x, t⟩ := q
    rw [checkFields, seq_eq_ok_iff, requireNoAny_eq_ok_iff, guard_eq_ok_iff, ih, List.map_cons,
      nodup_cons_and_new_iff, List.forall_mem_cons]
    tauto

/-- Methods pass when none of their types contains the type of all values and their names are new, to
those seen before and to each other. -/
theorem checkMethods_eq_ok_iff {container : String} {seen : List String}
    {methods : List (Signature Ty)} :
    checkMethods container seen methods = .ok () ↔
      (∀ m ∈ methods, (∀ q ∈ m.params, ¬ q.2.Contains (prim .any)) ∧
        ∀ r ∈ m.returns, ¬ r.Contains (prim .any)) ∧
      (methods.map Signature.name).Nodup ∧ ∀ x ∈ methods.map Signature.name, x ∉ seen := by
  induction methods generalizing seen with
  | nil => simp [checkMethods]
  | cons m methods ih =>
    rw [checkMethods, guard_eq_ok_iff, seq_eq_ok_iff, seq_eq_ok_iff, forM_eq_ok_iff,
      forM_eq_ok_iff, ih, List.map_cons, nodup_cons_and_new_iff, List.forall_mem_cons]
    simp only [requireNoAny_eq_ok_iff]
    tauto

/-- Elements pass under names when none that has a name contains the type of all values. -/
theorem checkElems_eq_ok_iff {names : Option TupleNames} {elems : List Ty} :
    checkElems names elems = .ok () ↔
      ∀ ns, names = some ns → ∀ q ∈ ns.fields.zip elems, ¬ q.2.Contains (prim .any) := by
  cases names with
  | none => simp [checkElems]
  | some ns =>
    rw [checkElems, forM_eq_ok_iff]
    simp only [requireNoAny_eq_ok_iff, Option.some.injEq, forall_eq']

/-! ## Looking members up -/

theorem find?_name_of_mem {ms : List (Signature Ty)} (hms : (ms.map Signature.name).Nodup)
    {m : Signature Ty} (hm : m ∈ ms) : ms.find? (·.name == m.name) = some m := by
  rcases h : ms.find? (·.name == m.name) with _ | m'
  · simpa using List.find?_eq_none.1 h m hm
  · have hname : m'.name = m.name := by simpa using List.find?_some h
    rw [List.inj_on_of_nodup_map hms (List.mem_of_find?_eq_some h) hm hname] at h
    exact h

/-- Where names are not repeated, the method that is found is the one of that name. -/
theorem method?_eq_some_iff {name : String} {ms : List (Signature Ty)}
    (hms : (ms.map Signature.name).Nodup) {x : String} {m : Signature Ty} :
    (interface name ms).method? x = some m ↔ m ∈ ms ∧ m.name = x := by
  constructor
  · intro h
    exact ⟨List.mem_of_find?_eq_some h, by simpa using List.find?_some h⟩
  · rintro ⟨hm, rfl⟩
    exact find?_name_of_mem hms hm

/-- Where names are not repeated, a name has one place. -/
theorem idxOf?_eq_some_iff_of_nodup {names : List String} (hnames : names.Nodup) {x : String}
    {i : Nat} : names.idxOf? x = some i ↔ names[i]? = some x := by
  rw [List.idxOf?_eq_some_iff, List.getElem?_eq_some_iff]
  constructor
  · rintro ⟨hi, hx, _⟩
    exact ⟨hi, hx⟩
  · rintro ⟨hi, rfl⟩
    refine ⟨hi, rfl, fun j hj heq => ?_⟩
    exact Nat.ne_of_lt hj (hnames.getElem_inj_iff.1 heq)

/-- Where names are not repeated, the type that is found is the one of the field of that name. -/
theorem field?_eq_some_iff {name : Option String} {fields : List (String × Ty)}
    (hfields : (fields.map Prod.fst).Nodup) {x : String} {t : Ty} :
    (tuple (some ⟨name, fields.map Prod.fst⟩) (fields.map Prod.snd)).field? x = some t ↔
      (x, t) ∈ fields := by
  rw [field?, Option.bind_eq_some_iff, List.mem_iff_getElem?]
  refine exists_congr fun i => ?_
  rw [idxOf?_eq_some_iff_of_nodup hfields, List.getElem?_map, List.getElem?_map]
  rcases fields[i]? with _ | ⟨y, u⟩
  · simp
  · simp

/-! ## Exchanging the children -/

/-- The type with the given children in the place of its own. -/
def withChildren : Ty → List Ty → Ty
  | list _, [e] => list e
  | optional _, [e] => optional e
  | future _, [e] => future e
  | dict _ _, [k, v] => dict k v
  | tuple names _, es => tuple names es
  | t, _ => t

@[simp] theorem withChildren_children (t : Ty) : t.withChildren t.children = t := by
  cases t <;> rfl

/-- The children of the new type are those put in. -/
theorem children_withChildren {t : Ty} {cs : List Ty} (hlen : cs.length = t.children.length) :
    (t.withChildren cs).children = cs := by
  cases t with
  | list e | optional e | future e =>
    obtain ⟨c, rfl⟩ := List.length_eq_one_iff.1 hlen
    rfl
  | dict k v =>
    rcases cs with _ | ⟨c, _ | ⟨d, _ | _⟩⟩
    · simp [children] at hlen
    · simp [children] at hlen
    · rfl
    · simp [children] at hlen
  | tuple names es => rfl
  | _ => exact (List.eq_nil_of_length_eq_zero hlen).symm

/-- An atom has no children to exchange, and no other type becomes an atom. -/
theorem withChildren_of_isAtom {t : Ty} {cs : List Ty} (h : (t.withChildren cs).IsAtom) :
    t.withChildren cs = t := by
  cases t with
  | list e | optional e | future e => rcases cs with _ | ⟨c, _ | _⟩ <;> exact h.elim
  | dict k v => rcases cs with _ | ⟨c, _ | ⟨d, _ | _⟩⟩ <;> exact h.elim
  | tuple names es => exact h.elim
  | _ => rfl

/-- The names of a named tuple; no other type has any. -/
def tupleNames : Ty → Option TupleNames
  | tuple names _ => names
  | _ => none

theorem exists_of_tupleNames {t : Ty} {names : TupleNames} (h : t.tupleNames = some names) :
    ∃ es, t = tuple (some names) es := by
  cases t with
  | tuple names' es =>
    rw [tupleNames] at h
    exact ⟨es, by rw [h]⟩
  | _ => cases h

/-- Rebuilding is the exchange of children behind a check. -/
theorem rebuild_eq_seq (t : Ty) (cs : List Ty) :
    t.rebuild cs = (do checkElems t.tupleNames cs; return t.withChildren cs) := by
  cases t with
  | list e | optional e | future e => rcases cs with _ | ⟨c, _ | _⟩ <;> rfl
  | dict k v => rcases cs with _ | ⟨c, _ | ⟨d, _ | _⟩⟩ <;> rfl
  | _ => rfl

theorem eq_withChildren_of_rebuild {t u : Ty} {cs : List Ty} (h : t.rebuild cs = .ok u) :
    u = t.withChildren cs := by
  rw [rebuild_eq_seq, seq_eq_ok_iff] at h
  exact (Except.ok.inj h.2).symm

/-- The exchange of children is refused when the check of the elements is. -/
theorem rebuild_eq_error_iff {t : Ty} {cs : List Ty} {e : MemberError} :
    t.rebuild cs = .error e ↔ checkElems t.tupleNames cs = .error e := by
  rw [rebuild_eq_seq, bind_eq_error_iff]
  refine or_iff_left ?_
  rintro ⟨_, _, h⟩
  cases h

/-- The exchange of children is refused at a named tuple only, for an element that contains the type
of all values, and the refusal is about that element under its field name. -/
theorem rebuild_eq_error {t : Ty} {cs : List Ty} {e : MemberError} (h : t.rebuild cs = .error e) :
    ∃ names es x u, t = tuple (some names) es ∧ (x, u) ∈ names.fields.zip cs ∧
      u.Contains (prim .any) ∧ e = .containsAny names.container .field x u := by
  rw [rebuild_eq_error_iff] at h
  rcases hnames : t.tupleNames with _ | names
  · rw [hnames] at h
    cases h
  · rw [hnames] at h
    obtain ⟨es, rfl⟩ := exists_of_tupleNames hnames
    obtain ⟨⟨x, u⟩, hmem, herr⟩ := exists_of_forM_eq_error h
    obtain ⟨hany, rfl⟩ := requireNoAny_eq_error herr
    exact ⟨names, es, x, u, rfl, hmem, hany, rfl⟩

end Ty

end TensorTyping
