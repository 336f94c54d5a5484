import TensorTyping.Proofs.Generic.Walk
import TensorTyping.Proofs.Unify.Rules

/-!
# Which types meet in a match

A match of two types comes to a number of smaller matches, each of a part of the formal type against
some type on the actual side. `Ty.Faces` lists the rules by which a match goes on, each with the pairs
that are matched next, and `Ty.Meets` is the relation between a match and the pairs that are matched
in its course. Parts without variables are met as well, but nothing below them is, as matching turns
back there. `Ty.Misfit` lists the pairs at which a match ends instead, each with the reason given.

The actual side of a meeting is not always a part of the actual type. Where a list faces a tuple, the
elements of the tuple are unified first. So what holds of the actual side of all meetings is what goes
down to children and is kept by unification.

Variables are met in meetings only, so every binding that a match leaves behind was there before or
is one of its meetings. This is true of a match that fails as well, which leaves the bindings it has
made so far (`Ty.get?_leftBy_bindVars`).
-/

set_option autoImplicit false

namespace TensorTyping

namespace Ty

/-! ## The rules -/

/-- How a match of a formal type that is not a variable goes on: with the matches of the given pairs,
one after the other. -/
inductive Faces : Ty → Ty → List (Ty × Ty) → Prop
  /-- The elements of two lists. -/
  | lists {f a : Ty} : Faces (list f) (list a) [(f, a)]
  /-- The element of a list, and what the elements of a tuple unify to. -/
  | listTuple {f t : Ty} {s : Option TupleNames} {as : List Ty} (h : unifyAll as = some t) :
    Faces (list f) (tuple s as) [(f, t)]
  /-- The elements of two tuples, place by place. -/
  | tuples {s t : Option TupleNames} {fs as : List Ty} (h : fs.length = as.length) :
    Faces (tuple s fs) (tuple t as) (fs.zip as)
  /-- The elements of two futures. -/
  | futures {f a : Ty} : Faces (future f) (future a) [(f, a)]
  /-- The elements of two optionals. -/
  | optionals {f a : Ty} : Faces (optional f) (optional a) [(f, a)]
  /-- None stands for any optional, and there is nothing to go on with. -/
  | optionalNone {f : Ty} : Faces (optional f) (prim .none) []
  /-- Every other type stands for an optional if it stands for its element. -/
  | optionalOther {f a : Ty} (hnone : a ≠ prim .none) (hoptional : ∀ e, a ≠ optional e) :
    Faces (optional f) a [(f, a)]
  /-- The keys and then the values of two dictionaries. -/
  | dicts {k v k' v' : Ty} : Faces (dict k v) (dict k' v') [(k, k'), (v, v')]

/-- A match of a formal type that is not a variable ends here: the forms do not fit, for the given
reason. There is no other way to end, as only the forms below, and optionals, hold variables. -/
inductive Misfit : Ty → Ty → Mismatch → Prop
  /-- A list, and a tuple whose elements do not unify. -/
  | notUnified {f : Ty} {s : Option TupleNames} {as : List Ty} (h : unifyAll as = none) :
    Misfit (list f) (tuple s as) (.notAList (list f) (tuple s as))
  /-- A list, and neither a list nor a tuple. -/
  | notAList {f a : Ty} (hlist : ∀ e, a ≠ list e) (htuple : ∀ s as, a ≠ tuple s as) :
    Misfit (list f) a (.notAList (list f) a)
  /-- Two tuples of different lengths. -/
  | arity {s t : Option TupleNames} {fs as : List Ty} (h : fs.length ≠ as.length) :
    Misfit (tuple s fs) (tuple t as) (.arity fs.length as.length)
  /-- A tuple, and no tuple. -/
  | notATuple {s : Option TupleNames} {fs : List Ty} {a : Ty} (h : ∀ t as, a ≠ tuple t as) :
    Misfit (tuple s fs) a (.wrongContainer .tuple a)
  /-- A future, and no future. -/
  | notAFuture {f a : Ty} (h : ∀ e, a ≠ future e) : Misfit (future f) a (.wrongContainer .future a)
  /-- A dictionary, and no dictionary. -/
  | notADict {k v a : Ty} (h : ∀ k' v', a ≠ dict k' v') :
    Misfit (dict k v) a (.wrongContainer .dict a)

/-- The formal types that face something are the children of the formal type, in order. Only below
an optional that faces none is there a child that faces nothing. -/
theorem Faces.fst_sublist {f a : Ty} {ps : List (Ty × Ty)} (h : Faces f a ps) :
    (ps.map Prod.fst).Sublist f.children := by
  cases h with
  | tuples hlen =>
    rw [List.map_fst_zip (Nat.le_of_eq hlen)]
    exact List.Sublist.refl _
  | optionalNone => exact List.nil_sublist _
  | _ => exact List.Sublist.refl _

theorem Faces.mem_children {f a : Ty} {ps : List (Ty × Ty)} (h : Faces f a ps) {q : Ty × Ty}
    (hq : q ∈ ps) : q.1 ∈ f.children :=
  h.fst_sublist.subset (List.mem_map_of_mem hq)

theorem Faces.ne_var {f a : Ty} {ps : List (Ty × Ty)} (h : Faces f a ps) (x : String) :
    f ≠ var x := by
  cases h <;> simp

/-- One step: what goes down to children and is kept by unification holds on the actual side of the
pairs that are matched next. -/
theorem Faces.snd_of {P : Ty → Prop} (hchildren : ∀ {t c}, P t → c ∈ t.children → P c)
    (hunify : ∀ {a b u}, P a → P b → a.unify b = some u → P u) {f a : Ty} {ps : List (Ty × Ty)}
    (h : Faces f a ps) (ha : P a) : ∀ q ∈ ps, P q.2 := by
  intro q hq
  cases h with
  | tuples => exact hchildren ha (List.of_mem_zip hq).2
  | listTuple hu =>
    -- the one rule by which the actual side is not a part of the actual type
    rw [List.mem_singleton.1 hq]
    exact unifyAll_ind hunify (fun t ht => hchildren ha ht) hu
  | optionalNone => simp at hq
  | optionalOther =>
    rw [List.mem_singleton.1 hq]
    exact ha
  | dicts =>
    rcases List.mem_pair.1 hq with rfl | rfl
    · exact hchildren ha (by simp [children])
    · exact hchildren ha (by simp [children])
  | lists | futures | optionals =>
    rw [List.mem_singleton.1 hq]
    exact hchildren ha (by simp [children])

/-! ## Walks by the rules -/

/-- The walks of the pairs, one after the other. -/
def walkPairs (ps : List (Ty × Ty)) : Walk :=
  ps.foldr (fun q w => (walk q.1 q.2).andThen w) .done

theorem walkEach_eq_walkPairs (fs as : List Ty) : walkEach fs as = walkPairs (fs.zip as) := by
  induction fs generalizing as with
  | nil => rfl
  | cons f fs ih =>
    rcases as with _ | ⟨a, as⟩
    · rfl
    · rw [walkEach, ih, List.zip_cons_cons]
      rfl

theorem walkPairs_cons (f a : Ty) (ps : List (Ty × Ty)) :
    walkPairs ((f, a) :: ps) = (walk f a).andThen (walkPairs ps) := rfl

theorem walkPairs_singleton (f a : Ty) : walkPairs [(f, a)] = walk f a :=
  Walk.andThen_done (walk f a)

/-- **A walk goes on by one of the rules, or it ends at a misfit.** -/
theorem walk_cases {f : Ty} (hopen : f.hasVars) (hvar : ∀ x, f ≠ var x) (a : Ty) :
    (∃ ps, Faces f a ps ∧ walk f a = walkPairs ps) ∨
      ∃ e, Misfit f a e ∧ walk f a = .fail e := by
  -- a form against one it has no rule for is a misfit, but for optionals, which have a rule for all
  rw [walk.eq_def, if_pos hopen]
  cases f with
  | list f =>
    cases a with
    | list a => exact .inl ⟨_, .lists, (walkPairs_singleton f a).symm⟩
    | tuple s as =>
      simp only
      rcases h : unifyAll as with _ | t
      · exact .inr ⟨_, .notUnified h, rfl⟩
      · exact .inl ⟨_, .listTuple h, (walkPairs_singleton f t).symm⟩
    | _ => exact .inr ⟨_, .notAList nofun nofun, rfl⟩
  | optional f =>
    cases a with
    | prim p =>
      cases p with
      | none => exact .inl ⟨_, .optionalNone, rfl⟩
      | _ => exact .inl ⟨_, .optionalOther nofun nofun, (walkPairs_singleton f _).symm⟩
    | optional a => exact .inl ⟨_, .optionals, (walkPairs_singleton f a).symm⟩
    | _ => exact .inl ⟨_, .optionalOther nofun nofun, (walkPairs_singleton f _).symm⟩
  | future f =>
    cases a with
    | future a => exact .inl ⟨_, .futures, (walkPairs_singleton f a).symm⟩
    | _ => exact .inr ⟨_, .notAFuture nofun, rfl⟩
  | dict k v =>
    cases a with
    | dict k' v' =>
      refine .inl ⟨_, .dicts, ?_⟩
      rw [walkPairs_cons, walkPairs_singleton]
    | _ => exact .inr ⟨_, .notADict nofun, rfl⟩
  | tuple s fs =>
    cases a with
    | tuple t as =>
      simp only
      by_cases hlen : fs.length = as.length
      · rw [if_pos hlen, walkEach_eq_walkPairs]
        exact .inl ⟨_, .tuples hlen, rfl⟩
      · rw [if_neg hlen]
        exact .inr ⟨_, .arity hlen, rfl⟩
    | _ => exact .inr ⟨_, .notATuple nofun, rfl⟩
  | var x => exact absurd rfl (hvar x)
  | _ => simp [hasVars] at hopen

/-- **Induction along a walk.** A walk turns back at a part without variables, meets a variable, goes
on by one of the rules or ends at a misfit. In the third case what is to be shown may be used of the
pairs that are walked next. -/
theorem walk_ind {motive : Ty → Ty → Prop}
    (closed : ∀ f a, ¬ f.hasVars → motive f a)
    (var : ∀ x a, motive (var x) a)
    (rule : ∀ f a ps, f.hasVars → Faces f a ps → walk f a = walkPairs ps →
      (∀ q ∈ ps, motive q.1 q.2) → motive f a)
    (misfit : ∀ f a e, Misfit f a e → walk f a = .fail e → motive f a) (f a : Ty) : motive f a := by
  induction f using ind_size generalizing a with
  | step f ih =>
    by_cases hopen : f.hasVars
    · by_cases hvar : ∃ x, f = .var x
      · obtain ⟨x, rfl⟩ := hvar
        exact var x a
      · rcases walk_cases hopen (fun x hx => hvar ⟨x, hx⟩) a with
          ⟨ps, hps, hwalk⟩ | ⟨e, hmisfit, hwalk⟩
        · refine rule f a ps hopen hps hwalk fun q hq => ?_
          exact ih q.1 (sizeOf_lt_of_mem_children (hps.mem_children hq)) q.2
        · exact misfit f a e hmisfit hwalk
    · exact closed f a hopen

/-! ## What walks of pairs meet -/

/-- Walks of pairs meet what the single walks meet, in order, as far as they go. -/
theorem met_walkPairs_sublist (ps : List (Ty × Ty)) :
    (walkPairs ps).met.Sublist (ps.flatMap fun q => (walk q.1 q.2).met) := by
  induction ps with
  | nil => exact List.Sublist.refl _
  | cons q ps ih =>
    rw [walkPairs_cons, Walk.andThen, List.flatMap_cons]
    split
    · exact (List.Sublist.refl _).append ih
    · exact List.sublist_append_left _ _

/-- Walks of pairs that come to their end do so at each pair and meet all that is met there. -/
theorem walkPairs_complete {ps : List (Ty × Ty)} (h : (walkPairs ps).fault = none) {q : Ty × Ty}
    (hq : q ∈ ps) :
    (walk q.1 q.2).fault = none ∧ (walk q.1 q.2).met ⊆ (walkPairs ps).met := by
  induction ps with
  | nil => simp at hq
  | cons p ps ih =>
    rw [walkPairs_cons, Walk.andThen] at h ⊢
    rcases hp : (walk p.1 p.2).fault with _ | e
    · simp only [hp] at h ⊢
      rcases List.mem_cons.1 hq with rfl | hq
      · exact ⟨hp, List.subset_append_left _ _⟩
      · obtain ⟨hfault, hmet⟩ := ih h hq
        exact ⟨hfault, List.subset_append_of_subset_right _ hmet⟩
    · simp [hp] at h

/-! ## Meetings -/

/-- The match of the pair `q` goes on with the match of `r`. -/
def MeetsNext (q r : Ty × Ty) : Prop := q.1.hasVars ∧ ∃ ps, Faces q.1 q.2 ps ∧ r ∈ ps

/-- In the course of the match of the pair `q`, a formal and an actual type, the pair `r` is
matched. -/
def Meets (q r : Ty × Ty) : Prop := Relation.ReflTransGen MeetsNext q r

theorem meets_self (q : Ty × Ty) : Meets q q := Relation.ReflTransGen.refl

theorem Faces.meets {f a : Ty} {ps : List (Ty × Ty)} {q r : Ty × Ty} (h : Faces f a ps)
    (hopen : f.hasVars) (hq : q ∈ ps) (hr : Meets q r) : Meets (f, a) r :=
  Relation.ReflTransGen.head ⟨hopen, ps, h, hq⟩ hr

/-- The whole match: what goes down to children and is kept by unification holds on the actual side
of all meetings. -/
theorem Meets.snd_of {P : Ty → Prop} (hchildren : ∀ {t c}, P t → c ∈ t.children → P c)
    (hunify : ∀ {a b u}, P a → P b → a.unify b = some u → P u) {q r : Ty × Ty} (h : Meets q r)
    (hq : P q.2) : P r.2 := by
  induction h with
  | refl => exact hq
  | tail _ hnext ih =>
    obtain ⟨_, ps, hps, hmem⟩ := hnext
    exact hps.snd_of hchildren hunify ih _ hmem

/-- The formal side of a meeting is a part of the formal type. -/
theorem Meets.contains_fst {q r : Ty × Ty} (h : Meets q r) : q.1.Contains r.1 := by
  induction h with
  | refl => exact contains_self q.1
  | tail _ hnext ih =>
    obtain ⟨_, ps, hps, hmem⟩ := hnext
    exact ih.tail (hps.mem_children hmem)

/-- Variables are met in meetings only, also on a walk that ends early. -/
theorem meets_of_mem_met {f a t : Ty} {x : String} (h : (x, t) ∈ (walk f a).met) :
    Meets (f, a) (var x, t) := by
  induction f, a using walk_ind with
  | closed f a hclosed => simp [walk_of_closed hclosed, Walk.done] at h
  | var y a =>
    obtain ⟨rfl, rfl⟩ : x = y ∧ t = a := by simpa [walk_var, Walk.meet] using h
    exact meets_self _
  | rule f a ps hopen hps hwalk ih =>
    rw [hwalk] at h
    obtain ⟨q, hq, hqx⟩ := List.mem_flatMap.1 ((met_walkPairs_sublist ps).subset h)
    exact hps.meets hopen hq (ih q hq hqx)
  | misfit f a e _ hwalk => simp [hwalk, Walk.fail] at h

theorem meets_of_mem_met_walkEach {fs as : List Ty} {t : Ty} {x : String}
    (h : (x, t) ∈ (walkEach fs as).met) : ∃ q ∈ fs.zip as, Meets q (var x, t) := by
  rw [walkEach_eq_walkPairs] at h
  obtain ⟨q, hq, hx⟩ := List.mem_flatMap.1 ((met_walkPairs_sublist _).subset h)
  exact ⟨q, hq, meets_of_mem_met hx⟩

end Ty

/-! ## What a match leaves behind -/

/-- The bindings that a computation leaves behind when it is run from `b`, be it by success or by
failure. -/
def MatchM.leftBy (m : MatchM Unit) (b : Bindings) : Bindings :=
  match m.run b with
  | .ok _ e => e
  | .error _ e => e

theorem MatchM.leftBy_seq (m k : MatchM Unit) (b : Bindings) :
    MatchM.leftBy (do m; k) b = match m.run b with
      | .ok _ e => k.leftBy e
      | .error _ e => e := by
  rw [leftBy, EStateM.run_bind]
  rcases m.run b with ⟨_, _⟩ | ⟨_, _⟩
  · rfl
  · rfl

namespace Ty

/-- One step: a variable leaves at most one new binding behind. -/
theorem get?_leftBy_bindVar {b : Bindings} {x y : String} {t u : Ty}
    (h : ((bindVar x t).leftBy b).get? y = some u) : b.get? y = some u ∨ (y, u) = (x, t) := by
  rw [MatchM.leftBy, run_bindVar] at h
  rcases hx : b.get? x with _ | previous
  · rw [hx] at h
    by_cases hxy : x = y
    · rw [hxy, Bindings.get?_insert, if_pos rfl, Option.some.injEq] at h
      exact .inr (by rw [h, hxy])
    · rw [Bindings.get?_insert, if_neg hxy] at h
      exact .inl h
  · rw [hx] at h
    dsimp only at h
    split_ifs at h
    · exact .inl h
    · exact .inl h

/-- The whole run: variables leave no new bindings behind but those to what they meet. -/
theorem get?_leftBy_forM_bindVar {b : Bindings} {met : List (String × Ty)} {y : String} {u : Ty}
    (h : (MatchM.leftBy (forM met fun (x, t) => bindVar x t) b).get? y = some u) :
    b.get? y = some u ∨ (y, u) ∈ met := by
  induction met generalizing b with
  | nil => exact .inl h
  | cons p met ih =>
    obtain ⟨x, t⟩ := p
    have hfirst : ((bindVar x t).leftBy b).get? y = some u →
        b.get? y = some u ∨ (y, u) ∈ (x, t) :: met := by
      intro hy
      rcases get?_leftBy_bindVar hy with hb | heq
      · exact .inl hb
      · exact .inr (heq ▸ List.mem_cons_self)
    -- after a conflict the bindings are what the first variable left, else the rest goes on from it
    rw [List.forM_cons, MatchM.leftBy_seq] at h
    rw [MatchM.leftBy] at hfirst
    rcases hrun : (bindVar x t).run b with ⟨_, e⟩ | ⟨_, e⟩
    · rw [hrun] at h hfirst
      rcases ih h with he | hmem
      · exact hfirst he
      · exact .inr (List.mem_cons_of_mem _ hmem)
    · rw [hrun] at h hfirst
      exact hfirst h

/-- A replay ends as its walk did, and that leaves the bindings alone. -/
theorem leftBy_replay (w : Walk) (b : Bindings) :
    w.replay.leftBy b = MatchM.leftBy (forM w.met fun (x, t) => bindVar x t) b := by
  obtain ⟨met, fault⟩ := w
  rw [Walk.replay, MatchM.leftBy_seq, MatchM.leftBy]
  dsimp only
  split
  · cases fault <;> rfl
  · rfl

/-- **What a match leaves behind was there before or was met.** -/
theorem get?_leftBy_bindVars {f a u : Ty} {b : Bindings} {y : String}
    (h : ((bindVars f a).leftBy b).get? y = some u) :
    b.get? y = some u ∨ Meets (f, a) (var y, u) := by
  rw [bindVars_eq_replay, leftBy_replay] at h
  exact (get?_leftBy_forM_bindVar h).imp_right meets_of_mem_met

end Ty

end TensorTyping
