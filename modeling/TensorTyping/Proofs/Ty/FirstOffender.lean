import TensorTyping.Proofs.WellFormed.Basic

/-!
# The first offender

A named tuple and an interface are checked member by member, and the check ends at the first member
that breaks the rules. Which member that is depends on those before it, whose names it must not
repeat. `FirstAt` says of a place in a list that it is the first of its kind in this sense.

The loops over fields, over methods and over the types of one method are the same loop with different
checks, `checkEach`: what an entry has to pass is a check behind the entries that have passed. What
holds of all of them is proved of this one. It fails at the first entry that fails its check, with the
error of that check (`exists_firstAt_of_checkEach`), and entries added at the end of a list that fails
are never looked at (`checkEach_append`).

The two loops differ in which fault of one member counts. A field that contains the type of all values
and repeats a name is refused for its type. A method that does both is refused for its name, and only
then are its types looked at, the parameters before the types returned (`Signature.members`).
-/

set_option autoImplicit false

namespace TensorTyping

/-! ## First places -/

/-- At place `i` of the list stands `x`, and it is the first entry with the property `p`, which may
depend on the entries before. -/
structure FirstAt {α : Type} (p : List α → α → Prop) (xs : List α) (i : Nat) (x : α) : Prop where
  /-- The entry stands at this place. -/
  entry : xs[i]? = some x
  /-- It has the property. -/
  holds : p (xs.take i) x
  /-- No entry before has it. -/
  before : ∀ j < i, ∀ y, xs[j]? = some y → ¬ p (xs.take j) y

namespace FirstAt

variable {α : Type} {p q : List α → α → Prop} {xs : List α} {i : Nat} {x y : α}

theorem head (h : p [] x) : FirstAt p (x :: xs) 0 x where
  entry := rfl
  holds := h
  before j hj := absurd hj (Nat.not_lt_zero j)

theorem tail (hy : ¬ p [] y) (h : FirstAt (fun before => p (y :: before)) xs i x) :
    FirstAt p (y :: xs) (i + 1) x where
  entry := h.entry
  holds := h.holds
  before j hj z hz := by
    cases j with
    | zero =>
      rw [← Option.some.inj hz]
      exact hy
    | succ j => exact h.before j (Nat.lt_of_succ_lt_succ hj) z hz

theorem congr (hpq : ∀ before x, p before x ↔ q before x) (h : FirstAt p xs i x) :
    FirstAt q xs i x where
  entry := h.entry
  holds := (hpq _ x).1 h.holds
  before j hj z hz := (hpq _ z).not.1 (h.before j hj z hz)

end FirstAt

/-! ## The loop -/

section Loop

variable {α ε : Type}

/-- Checks the entries one after the other, each behind those that have passed. -/
def checkEach (check : List α → α → Except ε Unit) (passed : List α) : List α → Except ε Unit
  | [] => .ok ()
  | x :: xs => do
    check passed x
    checkEach check (passed ++ [x]) xs

variable {check : List α → α → Except ε Unit} {passed : List α}

theorem checkEach_append (xs ys : List α) :
    checkEach check passed (xs ++ ys) =
      (do checkEach check passed xs; checkEach check (passed ++ xs) ys) := by
  induction xs generalizing passed with
  | nil =>
    rw [List.nil_append, List.append_nil]
    rfl
  | cons x xs ih =>
    rw [List.cons_append, checkEach, checkEach, bind_assoc]
    simp only [ih, List.append_assoc, List.singleton_append]

/-- **The loop ends at the first entry that does not pass**, with the error of that entry. -/
theorem exists_firstAt_of_checkEach {xs : List α} {e : ε}
    (h : checkEach check passed xs = .error e) :
    ∃ i x, FirstAt (fun before x => check (passed ++ before) x ≠ .ok ()) xs i x ∧
      check (passed ++ xs.take i) x = .error e := by
  induction xs generalizing passed with
  | nil => cases h
  | cons y xs ih =>
    rw [checkEach, bind_eq_error_iff] at h
    rcases h with hy | ⟨⟨⟩, hy, hxs⟩
    · refine ⟨0, y, FirstAt.head ?_, ?_⟩
      · rw [List.append_nil, hy]
        intro hok
        cases hok
      · rw [List.take_zero, List.append_nil, hy]
    · -- the rest is checked behind one more entry, so the entries that have passed are general
      obtain ⟨i, x, hfirst, herr⟩ := ih hxs
      simp only [List.append_assoc, List.singleton_append] at hfirst herr
      refine ⟨i + 1, x, FirstAt.tail ?_ hfirst, herr⟩
      rw [List.append_nil, hy]
      exact not_not_intro rfl

/-- A traversal is a loop in which no entry looks at those before. -/
theorem forM_eq_checkEach (f : α → Except ε Unit) (passed xs : List α) :
    xs.forM f = checkEach (fun _ => f) passed xs := by
  induction xs generalizing passed with
  | nil => rfl
  | cons x xs ih =>
    rw [checkEach, ← ih]
    rfl

theorem exists_firstAt_of_forM {f : α → Except ε Unit} {xs : List α} {e : ε}
    (h : xs.forM f = .error e) :
    ∃ i x, FirstAt (fun _ x => f x ≠ .ok ()) xs i x ∧ f x = .error e := by
  rw [forM_eq_checkEach f []] at h
  exact exists_firstAt_of_checkEach h

/-- A guard in front of a computation is a check and then the computation. -/
theorem guard_eq_seq {β : Type} {p : Prop} [Decidable p] {e : ε} {k : Except ε β} :
    (do
      if p then throw e
      k) = (do (if p then .error e else .ok () : Except ε Unit); k) := by
  by_cases h : p
  · rw [if_pos h, if_pos h]
    rfl
  · rw [if_neg h, if_neg h]
    rfl

end Loop

namespace Ty

variable {container : String}

/-- Types that must not contain the type of all values are refused for the first one that does. -/
theorem exists_firstAt_of_requireNoAny {α : Type} (role : α → Role) (name : α → String)
    (type : α → Ty) {xs : List α} {e : MemberError}
    (h : (xs.forM fun a => requireNoAny container (role a) (name a) (type a)) = .error e) :
    ∃ i a, FirstAt (fun _ a => (type a).Contains (prim .any)) xs i a ∧
      e = .containsAny container (role a) (name a) (type a) := by
  obtain ⟨i, a, hfirst, herr⟩ := exists_firstAt_of_forM h
  refine ⟨i, a, hfirst.congr fun _ a => ?_, (requireNoAny_eq_error herr).2⟩
  rw [ne_eq, requireNoAny_eq_ok_iff, not_not]

/-! ## Fields -/

/-- The field must not stand behind the given ones: its type contains the type of all values, or its
name is one of theirs. -/
def FieldOffends (before : List (String × Ty)) (q : String × Ty) : Prop :=
  q.2.Contains (prim .any) ∨ q.1 ∈ before.map Prod.fst

/-- Refuses a field that must not stand behind the given ones. -/
def checkField (container : String) (before : List (String × Ty)) (q : String × Ty) :
    Except MemberError Unit := do
  requireNoAny container .field q.1 q.2
  if q.1 ∈ before.map Prod.fst then .error (.duplicate container q.1) else .ok ()

/-- The loops remember names, the last one in front, and only look for a name among them. -/
theorem mem_seen_cons_iff {α : Type} {name : α → String} {seen : List String} {passed : List α}
    (hseen : ∀ x, x ∈ seen ↔ x ∈ passed.map name) (a : α) (x : String) :
    x ∈ name a :: seen ↔ x ∈ (passed ++ [a]).map name := by
  rw [List.mem_cons, hseen, List.map_append, List.mem_append, List.map_singleton,
    List.mem_singleton, or_comm]

/-- The names that the loop has seen are those of the fields that have passed. -/
theorem checkFields_eq_checkEach (passed : List (String × Ty)) {seen : List String}
    (hseen : ∀ x, x ∈ seen ↔ x ∈ passed.map Prod.fst) (fields : List (String × Ty)) :
    checkFields container seen fields = checkEach (checkField container) passed fields := by
  induction fields generalizing seen passed with
  | nil => rfl
  | cons q fields ih =>
    rw [checkFields, checkEach, checkField, bind_assoc, ih _ (mem_seen_cons_iff hseen q)]
    simp only [guard_eq_seq, hseen]

theorem checkField_ne_ok_iff {before : List (String × Ty)} {q : String × Ty} :
    checkField container before q ≠ .ok () ↔ FieldOffends before q := by
  have hpass : checkField container before q = .ok () ↔
      ¬ q.2.Contains (prim .any) ∧ q.1 ∉ before.map Prod.fst := by
    rw [checkField, seq_eq_ok_iff, requireNoAny_eq_ok_iff]
    by_cases h : q.1 ∈ before.map Prod.fst
    · simp [h]
    · simp [h]
  rw [ne_eq, hpass, not_and_or, not_not, not_not]
  rfl

/-- Of the two faults of one field, its type counts. -/
theorem checkField_eq_error {before : List (String × Ty)} {q : String × Ty} {e : MemberError}
    (h : checkField container before q = .error e) :
    (q.2.Contains (prim .any) → e = .containsAny container .field q.1 q.2) ∧
      (¬ q.2.Contains (prim .any) → e = .duplicate container q.1) := by
  -- the type is looked at first, so the name only counts once the type has passed
  rcases bind_eq_error_iff.1 h with hany | ⟨⟨⟩, hpass, hname⟩
  · obtain ⟨hcontains, rfl⟩ := requireNoAny_eq_error hany
    exact ⟨fun _ => rfl, fun hnot => absurd hcontains hnot⟩
  · refine ⟨fun hany => absurd hany (requireNoAny_eq_ok_iff.1 hpass), fun _ => ?_⟩
    split at hname
    · exact (Except.error.inj hname).symm
    · cases hname

/-! ## Methods -/

end Ty

/-- A member of an interface: a type of one of its methods, under the name it has in messages. -/
structure Member where
  /-- What the type is to the method. -/
  role : Role
  /-- The name under which it appears. -/
  name : String
  /-- The type itself. -/
  type : Ty

/-- The members that a method brings, in order: its parameters and then what it returns. -/
def Signature.members (m : Signature Ty) : List Member :=
  m.params.map (fun q => ⟨.argument, m.name ++ "." ++ q.1, q.2⟩) ++
    m.returns.map fun t => ⟨.result, m.name, t⟩

theorem Signature.map_type_members (m : Signature Ty) : m.members.map Member.type = m.types := by
  rw [members, types, List.map_append, List.map_map, List.map_map]
  exact congrArg _ (List.map_id _)

namespace Ty

variable {container : String}

/-- The method must not stand behind the given ones: its name is one of theirs, or one of its types
contains the type of all values. -/
def MethodOffends (before : List (Signature Ty)) (m : Signature Ty) : Prop :=
  m.name ∈ before.map Signature.name ∨ ∃ t ∈ m.types, t.Contains (prim .any)

/-- Refuses the first member whose type contains the type of all values. -/
def checkMembers (container : String) (members : List Member) : Except MemberError Unit :=
  members.forM fun r => requireNoAny container r.role r.name r.type

/-- Refuses a method that must not stand behind the given ones. -/
def checkMethod (container : String) (before : List (Signature Ty)) (m : Signature Ty) :
    Except MemberError Unit := do
  (if m.name ∈ before.map Signature.name then .error (.duplicate container m.name) else .ok ())
  checkMembers container m.members

theorem checkMembers_members (m : Signature Ty) :
    checkMembers container m.members = (do
      m.params.forM fun (x, t) => requireNoAny container .argument (m.name ++ "." ++ x) t
      m.returns.forM fun t => requireNoAny container .result m.name t) := by
  rw [checkMembers, Signature.members]
  exact List.forM_append.trans (congrArg₂ _ List.forM_map (funext fun _ => List.forM_map))

/-- The names that the loop has seen are those of the methods that have passed. -/
theorem checkMethods_eq_checkEach (passed : List (Signature Ty)) {seen : List String}
    (hseen : ∀ x, x ∈ seen ↔ x ∈ passed.map Signature.name) (methods : List (Signature Ty)) :
    checkMethods container seen methods = checkEach (checkMethod container) passed methods := by
  induction methods generalizing seen passed with
  | nil => rfl
  | cons m methods ih =>
    rw [checkMethods, checkEach, checkMethod, checkMembers_members, bind_assoc,
      ih _ (mem_seen_cons_iff hseen m)]
    simp only [guard_eq_seq, hseen, bind_assoc]

theorem checkMembers_eq_ok_iff {members : List Member} :
    checkMembers container members = .ok () ↔ ∀ r ∈ members, ¬ r.type.Contains (prim .any) := by
  rw [checkMembers, forM_eq_ok_iff]
  simp only [requireNoAny_eq_ok_iff]

/-- Members are refused for the first one that offends. -/
theorem checkMembers_eq_error {members : List Member} {e : MemberError}
    (h : checkMembers container members = .error e) :
    ∃ k r, FirstAt (fun _ r => r.type.Contains (prim .any)) members k r ∧
      e = .containsAny container r.role r.name r.type :=
  exists_firstAt_of_requireNoAny Member.role Member.name Member.type h

theorem checkMethod_ne_ok_iff {before : List (Signature Ty)} {m : Signature Ty} :
    checkMethod container before m ≠ .ok () ↔ MethodOffends before m := by
  have hmembers : checkMembers container m.members = .ok () ↔
      ¬ ∃ t ∈ m.types, t.Contains (prim .any) := by
    rw [checkMembers_eq_ok_iff, ← m.map_type_members]
    simp
  have hpass : checkMethod container before m = .ok () ↔
      m.name ∉ before.map Signature.name ∧ ¬ ∃ t ∈ m.types, t.Contains (prim .any) := by
    rw [checkMethod, seq_eq_ok_iff, hmembers]
    by_cases h : m.name ∈ before.map Signature.name
    · simp [h]
    · simp [h]
  rw [ne_eq, hpass, not_and_or, not_not, not_not]
  rfl

/-- Of several faults of one method, its name counts, and then the first of its members. -/
theorem checkMethod_eq_error {before : List (Signature Ty)} {m : Signature Ty} {e : MemberError}
    (h : checkMethod container before m = .error e) :
    (m.name ∈ before.map Signature.name → e = .duplicate container m.name) ∧
      (m.name ∉ before.map Signature.name →
        ∃ k r, FirstAt (fun _ r => r.type.Contains (prim .any)) m.members k r ∧
          e = .containsAny container r.role r.name r.type) := by
  rw [checkMethod] at h
  by_cases hname : m.name ∈ before.map Signature.name
  · rw [if_pos hname] at h
    exact ⟨fun _ => (Except.error.inj h).symm, fun hnew => absurd hname hnew⟩
  · rw [if_neg hname] at h
    exact ⟨fun hseen => absurd hseen hname, fun _ => checkMembers_eq_error h⟩

/-! ## Named tuples and interfaces -/

theorem namedTuple_eq_ok_iff {name : Option String} {fields : List (String × Ty)} {t : Ty} :
    namedTuple name fields = .ok t ↔
      ((∀ q ∈ fields, ¬ q.2.Contains (prim .any)) ∧ (fields.map Prod.fst).Nodup) ∧
        t = tuple (some ⟨name, fields.map Prod.fst⟩) (fields.map Prod.snd) := by
  refine seq_eq_ok_iff.trans (and_congr ?_ ?_)
  · rw [checkFields_eq_ok_iff]
    simp
  · exact (Except.ok.injEq _ _).to_iff.trans eq_comm

theorem interfaceOf_eq_ok_iff {name : String} {methods : List (Signature Ty)} {t : Ty} :
    interfaceOf name methods = .ok t ↔
      ((methods.map Signature.name).Nodup ∧
        ∀ m ∈ methods, ∀ s ∈ m.types, ¬ s.Contains (prim .any)) ∧
      t = interface name methods := by
  refine seq_eq_ok_iff.trans (and_congr ?_ ?_)
  · rw [checkMethods_eq_ok_iff]
    simp only [Signature.forall_mem_types, List.not_mem_nil, not_false_eq_true, implies_true,
      and_true]
    exact and_comm
  · exact (Except.ok.injEq _ _).to_iff.trans eq_comm

/-- A named tuple is refused for the first field that offends. -/
theorem exists_firstAt_of_namedTuple {name : Option String} {fields : List (String × Ty)}
    {e : MemberError} (h : namedTuple name fields = .error e) :
    ∃ i q, FirstAt FieldOffends fields i q ∧
      (q.2.Contains (prim .any) → e = .containsAny (name.getD "NamedTuple") .field q.1 q.2) ∧
      (¬ q.2.Contains (prim .any) → e = .duplicate (name.getD "NamedTuple") q.1) := by
  rcases bind_eq_error_iff.1 h with hcheck | ⟨_, _, hok⟩
  · rw [checkFields_eq_checkEach [] (by simp)] at hcheck
    obtain ⟨i, q, hfirst, herr⟩ := exists_firstAt_of_checkEach hcheck
    exact ⟨i, q, hfirst.congr fun _ _ => checkField_ne_ok_iff, checkField_eq_error herr⟩
  · cases hok

/-- An interface is refused for the first method that offends. -/
theorem exists_firstAt_of_interfaceOf {name : String} {methods : List (Signature Ty)}
    {e : MemberError} (h : interfaceOf name methods = .error e) :
    ∃ i m, FirstAt MethodOffends methods i m ∧
      (m.name ∈ (methods.take i).map Signature.name → e = .duplicate name m.name) ∧
      (m.name ∉ (methods.take i).map Signature.name →
        ∃ k r, FirstAt (fun _ r => r.type.Contains (prim .any)) m.members k r ∧
          e = .containsAny name r.role r.name r.type) := by
  rcases bind_eq_error_iff.1 h with hcheck | ⟨_, _, hok⟩
  · rw [checkMethods_eq_checkEach [] (by simp)] at hcheck
    obtain ⟨i, m, hfirst, herr⟩ := exists_firstAt_of_checkEach hcheck
    exact ⟨i, m, hfirst.congr fun _ _ => checkMethod_ne_ok_iff, checkMethod_eq_error herr⟩
  · cases hok

/-- Methods added to those that are refused already are not looked at. -/
theorem interfaceOf_append_of_error {name : String} {methods : List (Signature Ty)}
    {e : MemberError} (h : interfaceOf name methods = .error e) (more : List (Signature Ty)) :
    interfaceOf name (methods ++ more) = .error e := by
  rcases bind_eq_error_iff.1 h with hcheck | ⟨_, _, hok⟩
  · rw [checkMethods_eq_checkEach [] (by simp)] at hcheck
    rw [interfaceOf, checkMethods_eq_checkEach [] (by simp), checkEach_append, hcheck]
    rfl
  · cases hok

/-- **Named aggregates accept exactly the legal members and report the first offender.** A named tuple
is built when no field contains the type of all values and no name is repeated, and then a name leads
to the type of its field and to no other. Otherwise the refusal is about the first field that offends,
and about its type if that is at fault. The same is true of an interface and its methods, but there a
repeated name counts first, then the parameters in order and then the types returned. Once methods are
refused, more of them change nothing. -/
theorem aggregates_refuse_first_offender :
    (∀ (name : Option String) (fields : List (String × Ty)),
      ((∃ t, namedTuple name fields = .ok t) ↔
        (∀ q ∈ fields, ¬ q.2.Contains (prim .any)) ∧ (fields.map Prod.fst).Nodup) ∧
      (∀ t, namedTuple name fields = .ok t → ∀ x u, t.field? x = some u ↔ (x, u) ∈ fields) ∧
      ∀ e, namedTuple name fields = .error e → ∃ i q, FirstAt FieldOffends fields i q ∧
        (q.2.Contains (prim .any) → e = .containsAny (name.getD "NamedTuple") .field q.1 q.2) ∧
        (¬ q.2.Contains (prim .any) → e = .duplicate (name.getD "NamedTuple") q.1)) ∧
    ∀ (name : String) (methods : List (Signature Ty)),
      ((∃ t, interfaceOf name methods = .ok t) ↔ (methods.map Signature.name).Nodup ∧
        ∀ m ∈ methods, ∀ s ∈ m.types, ¬ s.Contains (prim .any)) ∧
      (∀ t, interfaceOf name methods = .ok t →
        ∀ x m, t.method? x = some m ↔ m ∈ methods ∧ m.name = x) ∧
      (∀ e, interfaceOf name methods = .error e → ∃ i m, FirstAt MethodOffends methods i m ∧
        (m.name ∈ (methods.take i).map Signature.name → e = .duplicate name m.name) ∧
        (m.name ∉ (methods.take i).map Signature.name →
          ∃ k r, FirstAt (fun _ r => r.type.Contains (prim .any)) m.members k r ∧
            e = .containsAny name r.role r.name r.type)) ∧
      ∀ e more, interfaceOf name methods = .error e →
        interfaceOf name (methods ++ more) = .error e := by
  refine ⟨fun name fields => ⟨?_, ?_, fun _ => exists_firstAt_of_namedTuple⟩,
    fun name methods => ⟨?_, ?_, fun _ => exists_firstAt_of_interfaceOf,
      fun _ more h => interfaceOf_append_of_error h more⟩⟩
  · simp only [namedTuple_eq_ok_iff, exists_and_left, exists_eq, and_true]
  · intro t ht x u
    obtain ⟨⟨_, hnodup⟩, rfl⟩ := namedTuple_eq_ok_iff.1 ht
    exact field?_eq_some_iff hnodup
  · simp only [interfaceOf_eq_ok_iff, exists_and_left, exists_eq, and_true]
  · intro t ht x m
    obtain ⟨⟨hnodup, _⟩, rfl⟩ := interfaceOf_eq_ok_iff.1 ht
    exact method?_eq_some_iff hnodup

/-- A field with both faults is refused for its type. A method with two members that offend is refused
for its parameter, and not for what it returns nor for the repeated name behind it. A legal tuple gives
its fields back. -/
theorem aggregates_refuse_first_offender_both :
    let fields := [("a", prim .int), ("a", optional (prim .any)), ("b", prim .any)]
    let methods : List (Signature Ty) :=
      [⟨"f", [("x", prim .int)], []⟩, ⟨"g", [("y", prim .int), ("z", list (prim .any))], [prim .any]⟩]
    let legal := [("a", prim .int), ("b", list (prim .int))]
    (namedTuple (some "P") fields = .error (.containsAny "P" .field "a" (optional (prim .any))) ∧
        ∃ i, FirstAt FieldOffends fields i ("a", optional (prim .any))) ∧
      (interfaceOf "I" methods = .error (.containsAny "I" .argument "g.z" (list (prim .any))) ∧
        (∃ i m, FirstAt MethodOffends methods i m) ∧
        interfaceOf "I" (methods ++ [⟨"f", [], []⟩]) =
          .error (.containsAny "I" .argument "g.z" (list (prim .any)))) ∧
      ∃ t, namedTuple none legal = .ok t ∧ t.field? "b" = some (list (prim .int)) := by
  intro fields methods legal
  obtain ⟨htuple, hinterface⟩ := aggregates_refuse_first_offender
  have hfields : namedTuple (some "P") fields =
      .error (.containsAny "P" .field "a" (optional (prim .any))) := by
    simp [fields, namedTuple, checkFields, requireNoAny, containsAny, anyOnStack, isAny, children,
      TupleNames.container, bind, Except.bind]
  have hmethods : interfaceOf "I" methods =
      .error (.containsAny "I" .argument "g.z" (list (prim .any))) := by
    simp [methods, interfaceOf, checkMethods, requireNoAny, containsAny, anyOnStack, isAny, children,
      List.forM, bind, Except.bind, pure, Except.pure]
  refine ⟨⟨hfields, ?_⟩, ⟨hmethods, ?_, (hinterface "I" methods).2.2.2 _ _ hmethods⟩, ?_⟩
  · obtain ⟨i, ⟨x, t⟩, hfirst, hany, hname⟩ := (htuple (some "P") fields).2.2 _ hfields
    by_cases ht : t.Contains (prim .any)
    · obtain ⟨-, -, rfl, rfl⟩ := MemberError.containsAny.inj (hany ht)
      exact ⟨i, hfirst⟩
    · cases hname ht
  · obtain ⟨i, m, hfirst, -⟩ := (hinterface "I" methods).2.2.1 _ hmethods
    exact ⟨i, m, hfirst⟩
  · obtain ⟨t, ht⟩ := (htuple none legal).1.2 ⟨by simp [legal], by decide⟩
    exact ⟨t, ht, ((htuple none legal).2.1 t ht _ _).2 (by simp [legal])⟩

end Ty

end TensorTyping
