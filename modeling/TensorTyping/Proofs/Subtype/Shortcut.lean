import TensorTyping.Proofs.Subtype.Equivalence

/-!
# Equality as a shortcut

The subtype test looks first whether the two types are equal. Here this is taken out of it: in
`Ty.isSubtypeBy` another test stands in its place, and everything else is as it was. With equality
the two are the same function (`Ty.isSubtypeBy_beq`). With equality of leaves only (`Ty.sameLeaf`),
they give the same answers for well-formed types, so that the test in front saves time but decides
nothing: what is equal is found to be so by the rules, part by part.

Both follow from one statement (`Ty.isSubtypeBy_eq`): another test may stand in front when it only
accepts equal types and the rules make up for those it does not accept. All but one of the rules do
so for every type. The rule for interfaces looks for each method under its name and takes the first
one it finds, which is the method itself only where names are not repeated.
-/

set_option autoImplicit false

namespace TensorTyping

/-! ## The test without its shortcut -/

mutual

/-- The subtype test with the test `same` in the place of equality. -/
def Ty.isSubtypeBy (same : Ty → Ty → Bool) (a b : Ty) : Bool :=
  same a b || match a, b with
    | _, .prim .any => true
    | .prim .int, .prim .number => true
    | .prim .float, .prim .number => true
    | .prim .none, .optional _ => true
    | .tensor f, .tensor g => f.merge g == g
    | .optional a, .optional b => Ty.isSubtypeBy same (.optional a) b || Ty.isSubtypeBy same a b
    | a, .optional b => Ty.isSubtypeBy same a b
    | .list a, .list b => Ty.isSubtypeBy same a b
    | .future a, .future b => Ty.isSubtypeBy same a b
    | .dict k v, .dict k' v' => Ty.isSubtypeBy same k k' && Ty.isSubtypeBy same v v'
    | .tuple s as, .tuple t bs => TupleNames.canStandFor s t && Ty.areSubtypesBy same as bs
    | .interface _ ms, .interface _ ns => Ty.offersAllBy same ms ns
    | _, _ => false
termination_by sizeOf a + sizeOf b

/-- The lists are equally long, and the types are subtypes one by one. -/
def Ty.areSubtypesBy (same : Ty → Ty → Bool) (as bs : List Ty) : Bool :=
  match as, bs with
  | [], [] => true
  | a :: as, b :: bs => Ty.isSubtypeBy same a b && Ty.areSubtypesBy same as bs
  | _, _ => false
termination_by sizeOf as + sizeOf bs

/-- For each method of `ns` there is one in `ms` that can stand for it. -/
def Ty.offersAllBy (same : Ty → Ty → Bool) (ms ns : List (Signature Ty)) : Bool :=
  match ns with
  | [] => true
  | n :: ns => Ty.offersBy same ms n && Ty.offersAllBy same ms ns
termination_by sizeOf ms + sizeOf ns

/-- The first method in `ms` with the name of `n` can stand for `n`. -/
def Ty.offersBy (same : Ty → Ty → Bool) (ms : List (Signature Ty)) (n : Signature Ty) : Bool :=
  match ms with
  | [] => false
  | m :: ms => if m.name = n.name then Signature.isSubtypeBy same m n else Ty.offersBy same ms n
termination_by sizeOf ms + sizeOf n

/-- A method with the signature `m` can stand for one with the signature `n`. -/
def Signature.isSubtypeBy (same : Ty → Ty → Bool) (m n : Signature Ty) : Bool :=
  match m, n with
  | ⟨_, ps, rs⟩, ⟨_, qs, ss⟩ => Ty.acceptsBy same ps qs && Ty.areSubtypesBy same rs ss
termination_by sizeOf m + sizeOf n

/-- Parameters `ps` accept every argument that `qs` accept, under the same names. -/
def Ty.acceptsBy (same : Ty → Ty → Bool) (ps qs : List (String × Ty)) : Bool :=
  match ps, qs with
  | [], [] => true
  | (x, a) :: ps, (y, b) :: qs => x == y && Ty.isSubtypeBy same b a && Ty.acceptsBy same ps qs
  | _, _ => false
termination_by sizeOf ps + sizeOf qs

end

namespace Ty

/-- The type is a primitive, a function or a variable. -/
def isLeaf : Ty → Bool
  | prim _ | function _ | var _ => true
  | _ => false

/-- Equality, of leaves only. -/
def sameLeaf (a b : Ty) : Bool := a.isLeaf && a == b

/-! ## Parts

Each helper answers as its counterpart of the subtype test does, provided that the comparisons of
types it makes come out the same. -/

/-- With `same` in front, `a` and `b` compare as they do with equality in front. -/
def ComparesAlike (same : Ty → Ty → Bool) (a b : Ty) : Prop := isSubtypeBy same a b = a.isSubtype b

variable {same : Ty → Ty → Bool}

theorem areSubtypesBy_eq {as bs : List Ty} (h : ∀ a ∈ as, ∀ b ∈ bs, ComparesAlike same a b) :
    areSubtypesBy same as bs = areSubtypes as bs := by
  induction as generalizing bs with
  | nil => cases bs <;> simp [areSubtypesBy, areSubtypes]
  | cons a as ih =>
    cases bs with
    | nil => simp [areSubtypesBy, areSubtypes]
    | cons b bs =>
      have hab : ComparesAlike same a b := h a List.mem_cons_self b List.mem_cons_self
      have hrest : areSubtypesBy same as bs = areSubtypes as bs :=
        ih fun a ha b hb => h a (List.mem_cons_of_mem _ ha) b (List.mem_cons_of_mem _ hb)
      rw [areSubtypesBy, areSubtypes, hab, hrest]

theorem acceptsBy_eq {ps qs : List (String × Ty)}
    (h : ∀ p ∈ ps, ∀ q ∈ qs, ComparesAlike same q.2 p.2) :
    acceptsBy same ps qs = accepts ps qs := by
  induction ps generalizing qs with
  | nil => cases qs <;> simp [acceptsBy, accepts]
  | cons p ps ih =>
    cases qs with
    | nil => simp [acceptsBy, accepts]
    | cons q qs =>
      have hqp : ComparesAlike same q.2 p.2 := h p List.mem_cons_self q List.mem_cons_self
      have hrest : acceptsBy same ps qs = accepts ps qs :=
        ih fun p hp q hq => h p (List.mem_cons_of_mem _ hp) q (List.mem_cons_of_mem _ hq)
      rw [acceptsBy, accepts, hqp, hrest]

end Ty

open Ty

namespace Signature

variable {same : Ty → Ty → Bool}

/-- The types in two signatures compare with `same` in front as they do with equality, in both
directions. -/
def PartsCompareAlike (same : Ty → Ty → Bool) (m n : Signature Ty) : Prop :=
  ∀ t ∈ m.types, ∀ u ∈ n.types, ComparesAlike same t u ∧ ComparesAlike same u t

theorem isSubtypeBy_eq_of_parts {m n : Signature Ty} (h : PartsCompareAlike same m n) :
    m.isSubtypeBy same n = m.isSubtype n := by
  have hparams : ∀ p ∈ m.params, ∀ q ∈ n.params, ComparesAlike same q.2 p.2 := fun p hp q hq =>
    (h p.2 (mem_types_of_mem_params hp) q.2 (mem_types_of_mem_params hq)).2
  have hreturns : ∀ r ∈ m.returns, ∀ s ∈ n.returns, ComparesAlike same r s := fun r hr s hs =>
    (h r (mem_types_of_mem_returns hr) s (mem_types_of_mem_returns hs)).1
  rw [isSubtypeBy, isSubtype, acceptsBy_eq hparams, areSubtypesBy_eq hreturns]

end Signature

namespace Ty

variable {same : Ty → Ty → Bool}

theorem offersBy_eq {ms : List (Signature Ty)} {n : Signature Ty}
    (h : ∀ m ∈ ms, Signature.PartsCompareAlike same m n) : offersBy same ms n = offers ms n := by
  induction ms with
  | nil => rw [offersBy, offers]
  | cons m ms ih =>
    rw [List.forall_mem_cons] at h
    rw [offersBy, offers, Signature.isSubtypeBy_eq_of_parts h.1, ih h.2]

theorem offersAllBy_eq {ms ns : List (Signature Ty)}
    (h : ∀ m ∈ ms, ∀ n ∈ ns, Signature.PartsCompareAlike same m n) :
    offersAllBy same ms ns = offersAll ms ns := by
  induction ns with
  | nil => rw [offersAllBy, offersAll]
  | cons n ns ih =>
    have hn : offersBy same ms n = offers ms n :=
      offersBy_eq fun m hm => h m hm n List.mem_cons_self
    rw [offersAllBy, offersAll, hn, ih fun m hm n hn => h m hm n (List.mem_cons_of_mem _ hn)]

/-! ## Types -/

/-- Comparisons of parts come out the same, in both directions, and so do those of the left-hand
type with the children of the other. -/
structure PartsCompareAlike (same : Ty → Ty → Bool) (a b : Ty) : Prop where
  /-- A part of one type with a part of the other. -/
  both : ∀ s ∈ a.parts, ∀ t ∈ b.parts, ComparesAlike same s t ∧ ComparesAlike same t s
  /-- The left-hand type as a whole, as it is compared with the element of an optional. -/
  right : ∀ t ∈ b.children, ComparesAlike same a t

theorem PartsCompareAlike.children {a b : Ty} (h : PartsCompareAlike same a b) {s t : Ty}
    (hs : s ∈ a.children) (ht : t ∈ b.children) : ComparesAlike same s t :=
  (h.both s (mem_parts_of_mem_children hs) t (mem_parts_of_mem_children ht)).1

theorem PartsCompareAlike.elems {names names' : Option TupleNames} {as bs : List Ty}
    (h : PartsCompareAlike same (tuple names as) (tuple names' bs)) :
    areSubtypesBy same as bs = areSubtypes as bs :=
  areSubtypesBy_eq fun _ ha _ hb => h.children ha hb

theorem PartsCompareAlike.methods {x y : String} {ms ns : List (Signature Ty)}
    (h : PartsCompareAlike same (interface x ms) (interface y ns)) :
    offersAllBy same ms ns = offersAll ms ns := by
  refine offersAllBy_eq fun m hm n hn s hs t ht => h.both s ?_ t ?_
  · exact List.mem_flatMap.2 ⟨m, hm, hs⟩
  · exact List.mem_flatMap.2 ⟨n, hn, ht⟩

/-- Types that are not equal compare by the rules, and these see the parts only. -/
theorem comparesAlike_of_ne (hsound : ∀ a b, same a b → a = b) {a b : Ty} (hne : a ≠ b)
    (h : PartsCompareAlike same a b) : ComparesAlike same a b := by
  have hsame : same a b = false := by
    rw [← Bool.not_eq_true]
    exact fun hab => hne (hsound a b hab)
  rw [ComparesAlike, isSubtypeBy.eq_def, isSubtype.eq_def, hsame, beq_eq_false_iff_ne.2 hne,
    Bool.false_or, Bool.false_or]
  cases b with
  | prim q =>
    cases a with
    | prim p => cases q <;> cases p <;> rfl
    | _ => cases q <;> rfl
  | list b =>
    cases a with
    | list a => exact h.children (by simp [children]) (by simp [children])
    | _ => rfl
  | optional b =>
    have hright : ComparesAlike same a b := h.right b (by simp [children])
    cases a with
    | prim p =>
      cases p with
      | none => rfl
      | _ => exact hright
    | optional a =>
      -- both rules are tried, the left-hand type as a whole and its element
      have hinside : ComparesAlike same a b := h.children (by simp [children]) (by simp [children])
      exact congrArg₂ or hright hinside
    | _ => exact hright
  | future b =>
    cases a with
    | future a => exact h.children (by simp [children]) (by simp [children])
    | _ => rfl
  | dict k' v' =>
    cases a with
    | dict k v =>
      have hkey : ComparesAlike same k k' := h.children (by simp [children]) (by simp [children])
      have hvalue : ComparesAlike same v v' := h.children (by simp [children]) (by simp [children])
      exact congrArg₂ and hkey hvalue
    | _ => rfl
  | tuple t bs =>
    cases a with
    | tuple s as => exact congrArg (TupleNames.canStandFor s t && ·) h.elems
    | _ => rfl
  | interface y ns =>
    cases a with
    | interface x ms => exact h.methods
    | _ => rfl
  | _ => cases a <;> rfl

/-- **The rules alone accept equal types.** With equality of leaves only, a type whose members are
in order is found to be a subtype of itself, part by part. -/
theorem isSubtypeBy_sameLeaf_self {t : Ty} (ht : t.MembersInOrder)
    (h : PartsCompareAlike sameLeaf t t) : isSubtypeBy sameLeaf t t := by
  have hchild : ∀ c ∈ t.children, isSubtypeBy sameLeaf c c := by
    intro c hc
    rw [h.children hc hc]
    exact Ty.le_refl c
  rw [isSubtypeBy.eq_def]
  cases t with
  | tensor f => simp [TensorFacts.merge_self]
  | list e | optional e | future e => simp [hchild e (by simp [children])]
  | dict k v => simp [hchild k (by simp [children]), hchild v (by simp [children])]
  | tuple s es =>
    have helems : areSubtypesBy sameLeaf es es := by
      rw [h.elems, areSubtypes_iff]
      exact List.forall₂_same.2 fun e _ => Ty.le_refl e
    simp [helems]
  | interface x ms =>
    -- the first method of a name is the only one
    have hmethods : offersAllBy sameLeaf ms ms := by
      rw [h.methods, offersAll_iff]
      exact fun m hm => ⟨m, find?_name_of_mem ht.1 hm, le_refl m⟩
    simp [hmethods]
  | _ => simp [sameLeaf, isLeaf]

/-! ## The induction -/

/-- **What may stand in front.** Another test may stand in the place of equality when it accepts
equal types only and when what it does not accept of them is accepted by the rules. This is asked of
the types that have a property, which passes on to parts. -/
theorem isSubtypeBy_eq {P : Ty → Prop} (hsound : ∀ a b, same a b → a = b)
    (hparts : ∀ t, P t → ∀ p ∈ t.parts, P p)
    (hself : ∀ t, P t → PartsCompareAlike same t t → isSubtypeBy same t t) {a b : Ty} (ha : P a)
    (hb : P b) : isSubtypeBy same a b = a.isSubtype b := by
  -- parameters turn the direction, so the induction is on the sizes of the two together
  induction hn : sizeOf a + sizeOf b using Nat.strong_induction_on generalizing a b with
  | _ n ih =>
    have halike : PartsCompareAlike same a b := by
      refine ⟨fun s hs t ht => ?_, fun t ht => ?_⟩
      · have hs' : sizeOf s < sizeOf a := sizeOf_lt_of_mem_parts hs
        have ht' : sizeOf t < sizeOf b := sizeOf_lt_of_mem_parts ht
        exact ⟨ih _ (by omega) (hparts a ha s hs) (hparts b hb t ht) rfl,
          ih _ (by omega) (hparts b hb t ht) (hparts a ha s hs) rfl⟩
      · have ht' : sizeOf t < sizeOf b := sizeOf_lt_of_mem_children ht
        exact ih _ (by omega) ha (hparts b hb t (mem_parts_of_mem_children ht)) rfl
    by_cases hab : a = b
    · subst hab
      have hrefl : a.isSubtype a := Ty.le_refl a
      rw [hself a ha halike, hrefl]
    · exact comparesAlike_of_ne hsound hab halike

/-- With equality in front, this is the subtype test. -/
theorem isSubtypeBy_beq (a b : Ty) : isSubtypeBy (· == ·) a b = a.isSubtype b := by
  refine isSubtypeBy_eq (P := fun _ => True) ?_ ?_ ?_ trivial trivial
  · exact fun a b hab => by simpa using hab
  · exact fun _ _ _ _ => trivial
  · intro t _ _
    rw [isSubtypeBy.eq_def]
    simp

/-- **Equality is a shortcut.** The subtype test is one of a family of tests that differ in what
stands in front of the rules. For well-formed types, equality of leaves in front gives the same
answers as equality does; in particular the rules alone accept equal types. -/
theorem equality_is_shortcut :
    (∀ a b : Ty, isSubtypeBy (· == ·) a b = a.isSubtype b) ∧
    (∀ a b : Ty, a.WellFormed → b.WellFormed → isSubtypeBy sameLeaf a b = a.isSubtype b) ∧
    ∀ a : Ty, a.WellFormed → isSubtypeBy sameLeaf a a := by
  have hsound : ∀ a b, sameLeaf a b → a = b := by
    intro a b hab
    simp only [sameLeaf, Bool.and_eq_true, beq_iff_eq] at hab
    exact hab.2
  have heq : ∀ a b : Ty, a.WellFormed → b.WellFormed →
      isSubtypeBy sameLeaf a b = a.isSubtype b := by
    intro a b ha hb
    refine isSubtypeBy_eq hsound ?_ ?_ ha hb
    · exact fun t ht => (wellFormed_iff.1 ht).2
    · exact fun t ht => isSubtypeBy_sameLeaf_self (wellFormed_iff.1 ht).1
  refine ⟨isSubtypeBy_beq, heq, fun a ha => ?_⟩
  rw [heq a a ha ha]
  exact Ty.le_refl a

/-- Optionals of interfaces, in a list. A method of the one on the left accepts more and returns
less than the one it stands for, so that tensors are compared in both directions below the layers.
-/
theorem equality_is_shortcut_interfaces :
    let f := TensorFacts.dense .float .cpu [2, 3]
    let i := interface "Model"
      [⟨"size", [], [prim .int]⟩, ⟨"forward", [("x", genericTensor)], [tensor f]⟩]
    let j := interface "Forward" [⟨"forward", [("x", tensor f)], [genericTensor]⟩]
    let a := list (optional i)
    let b := list (optional j)
    (a.WellFormed ∧ b.WellFormed) ∧ isSubtypeBy sameLeaf a b = a.isSubtype b ∧
      isSubtypeBy sameLeaf a b = true ∧ isSubtypeBy sameLeaf a a = true := by
  intro f i j a b
  have hi : i.WellFormed := wellFormed_interface_of_not_contains (by decide)
    (by simp [Signature.types, genericTensor]) (by simp [Signature.types, genericTensor])
  have hj : j.WellFormed := wellFormed_interface_of_not_contains (by decide)
    (by simp [Signature.types, genericTensor]) (by simp [Signature.types, genericTensor])
  have ha : a.WellFormed := by simp [a, hi]
  have hb : b.WellFormed := by simp [b, hj]
  obtain ⟨_, heq, hself⟩ := equality_is_shortcut
  have hab : a.isSubtype b := by decide +kernel
  exact ⟨⟨ha, hb⟩, heq a b ha hb, (heq a b ha hb).trans hab, hself a ha⟩

-- Of two methods that share a name the second one is not found, and then equality is not redundant.
example :
    let t := interface "I" [⟨"f", [], [prim .int]⟩, ⟨"f", [], [prim .string]⟩]
    t.isSubtype t ∧ ¬ isSubtypeBy sameLeaf t t := by
  decide +kernel

end Ty

end TensorTyping
