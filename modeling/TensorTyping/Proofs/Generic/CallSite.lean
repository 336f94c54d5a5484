import Mathlib.Data.List.Flatten
import TensorTyping.Proofs.Generic.Meeting
import TensorTyping.Proofs.Generic.Observation

/-!
# The actual type is below the instance it gives rise to

At a call, the bindings found by matching turn the formal type into an instance of it, and the call is
sound when the actual type is below that instance. Matching alone does not give this much. It never
looks at parts without variables, it keeps the first type of a variable and not a bound of all its
types, it accepts a tuple in the place of a list, and it does not compare field names. Where none of
these comes into play, the actual type is below the instance, as `Ty.le_instance_of_matchType` says.

The proof follows the rules of `Ty.Faces`. One step (`Ty.Faces.le_of_instantiate`) takes the statement
from the pairs that are matched next to the pair itself. At the ends of the match there is either a
part without variables, which is its own instance, or a variable. As it occurs only once, it is bound
to the very type it meets, since the variables met on a walk are a sublist of those that occur
(`Ty.met_keys_sublist_vars`).
-/

set_option autoImplicit false

namespace TensorTyping

namespace Ty

/-! ## Occurrences of variables -/

mutual

/-- The variables in a type, reached through children, from left to right and each as often as it
occurs. -/
def vars : Ty → List String
  | list e | optional e | future e => e.vars
  | dict k v => k.vars ++ v.vars
  | tuple _ es => varsAll es
  | var x => [x]
  | _ => []

/-- The variables in the types, from left to right. -/
def varsAll : List Ty → List String
  | [] => []
  | t :: ts => t.vars ++ varsAll ts

end

theorem varsAll_eq_flatMap (ts : List Ty) : varsAll ts = ts.flatMap vars := by
  induction ts with
  | nil => rfl
  | cons t ts ih => rw [varsAll, ih, List.flatMap_cons]

theorem vars_eq_flatMap_children {t : Ty} (hvar : ∀ x, t ≠ var x) :
    t.vars = t.children.flatMap vars := by
  cases t with
  | tuple s es => rw [vars, varsAll_eq_flatMap, children]
  | var x => exact absurd rfl (hvar x)
  | _ => simp [vars, children]

/-- The variables that a walk meets are among those that occur in the formal type, in the same
order and at most as often. -/
theorem met_keys_sublist_vars (f a : Ty) : ((walk f a).met.map Prod.fst).Sublist f.vars := by
  induction f, a using walk_ind with
  | closed f a hclosed =>
    rw [walk_of_closed hclosed]
    exact List.nil_sublist _
  | var x a =>
    rw [walk_var, vars]
    exact List.Sublist.refl _
  | rule f a ps hopen hps hwalk ih =>
    -- from the walks of the pairs to the variables of their formal sides, and on to the children
    have hmet : ((walkPairs ps).met.map Prod.fst).Sublist
        (ps.flatMap fun q => (walk q.1 q.2).met.map Prod.fst) := by
      rw [← List.map_flatMap]
      exact (met_walkPairs_sublist ps).map Prod.fst
    have hpairs : (ps.flatMap fun q => (walk q.1 q.2).met.map Prod.fst).Sublist
        (ps.flatMap fun q => q.1.vars) :=
      List.Sublist.flatMap_right ps ih
    have hchildren : (ps.flatMap fun q => q.1.vars).Sublist (f.children.flatMap vars) := by
      have h := hps.fst_sublist.flatMap vars
      rwa [List.flatMap_map] at h
    rw [hwalk, vars_eq_flatMap_children hps.ne_var]
    exact (hmet.trans hpairs).trans hchildren
  | misfit f a e _ hwalk =>
    rw [hwalk]
    exact List.nil_sublist _

theorem lookup_eq_some_of_mem_of_nodup {l : List (String × Ty)} {x : String} {t : Ty}
    (hnodup : (l.map Prod.fst).Nodup) (hmem : (x, t) ∈ l) : l.lookup x = some t := by
  induction l with
  | nil => simp at hmem
  | cons p l ih =>
    obtain ⟨y, u⟩ := p
    obtain ⟨hy, hl⟩ := List.nodup_cons.1 hnodup
    rcases List.mem_cons.1 hmem with heq | htail
    · obtain ⟨rfl, rfl⟩ := Prod.mk.inj heq
      exact List.lookup_cons_self
    · have hne : (x == y) = false := by
        rw [beq_eq_false_iff_ne]
        rintro rfl
        exact hy (List.mem_map.2 ⟨(x, t), htail, rfl⟩)
      rw [List.lookup_cons, hne]
      exact ih hl htail

/-- A formal type in which each variable occurs at most once matches by binding each variable to the
type it meets. -/
theorem met_of_matchType {f a : Ty} {e : Bindings} (hlinear : f.vars.Nodup)
    (h : f.matchType a = .ok e) :
    (walk f a).fault = none ∧ ∀ x t, (x, t) ∈ (walk f a).met → e.get? x = some t := by
  rw [matchType, bindingsOf_eq_ok_iff, bindVars_eq_replay] at h
  obtain ⟨hfault, he⟩ := Walk.complete_of_replay h
  refine ⟨hfault, fun x t hmem => ?_⟩
  rw [he]
  exact lookup_eq_some_of_mem_of_nodup ((met_keys_sublist_vars f a).nodup hlinear) hmem

/-! ## Subtyping along a match -/

/-- Elements of an actual tuple are below instances of the formal ones at their places. -/
theorem forall₂_le_of_zip {e : Bindings} {fs as rs : List Ty} (hlen : fs.length = as.length)
    (hinst : List.Forall₂ (fun f r => f.instantiate e = .ok (some r)) fs rs)
    (hle : ∀ q ∈ fs.zip as, ∀ r, q.1.instantiate e = .ok (some r) → q.2 ≤ r) :
    List.Forall₂ (· ≤ ·) as rs := by
  induction hinst generalizing as with
  | nil =>
    rw [List.eq_nil_of_length_eq_zero hlen.symm]
    exact .nil
  | cons hf _ ih =>
    rcases as with _ | ⟨a, as⟩
    · simp at hlen
    · rw [List.zip_cons_cons] at hle
      refine .cons (hle _ List.mem_cons_self _ hf) (ih (by simpa using hlen) ?_)
      exact fun q hq => hle q (List.mem_cons_of_mem _ hq)

/-- **One step.** If the pairs matched next have the actual type below every instance of the formal
one, then so has the pair itself, unless a tuple stands for a list or the formal type has field
names. -/
theorem Faces.le_of_instantiate {f a r : Ty} {ps : List (Ty × Ty)} {e : Bindings}
    (h : Faces f a ps) (hlist : ∀ g s es, (f, a) ≠ (list g, tuple s es))
    (hplain : ∀ s es, f = tuple s es → s = none) (hinst : f.instantiate e = .ok (some r))
    (hps : ∀ q ∈ ps, ∀ u, q.1.instantiate e = .ok (some u) → q.2 ≤ u) : a ≤ r := by
  cases h with
  | lists =>
    obtain ⟨r, rfl, hr⟩ := exists_of_instantiate_list hinst
    exact le_list_iff.2 ⟨_, rfl, hps _ List.mem_cons_self r hr⟩
  | listTuple => exact absurd rfl (hlist _ _ _)
  | tuples hlen =>
    -- an actual tuple may have field names, as a plain one asks for none
    obtain ⟨rs, rfl, hrs⟩ := exists_of_instantiate_tuple hinst
    rw [hplain _ _ rfl, le_tuple_iff]
    exact ⟨_, _, rfl, TupleNames.canStandFor_none _, forall₂_le_of_zip hlen hrs hps⟩
  | futures =>
    obtain ⟨r, rfl, hr⟩ := exists_of_instantiate_future hinst
    exact le_future_iff.2 ⟨_, rfl, hps _ List.mem_cons_self r hr⟩
  | optionals =>
    obtain ⟨r, rfl, hr⟩ := exists_of_instantiate_optional hinst
    exact optional_le_optional (hps _ List.mem_cons_self r hr)
  | optionalNone =>
    obtain ⟨r, rfl, _⟩ := exists_of_instantiate_optional hinst
    exact none_le_optional r
  | optionalOther =>
    -- the layer that the match has dropped is the one that the instance has more
    obtain ⟨r, rfl, hr⟩ := exists_of_instantiate_optional hinst
    exact le_optional_of_le (hps _ List.mem_cons_self r hr)
  | dicts =>
    obtain ⟨k, v, rfl, hk, hv⟩ := exists_of_instantiate_dict hinst
    have hkeys := hps _ List.mem_cons_self k hk
    have hvalues := hps _ (List.mem_cons_of_mem _ List.mem_cons_self) v hv
    exact le_dict_iff.2 ⟨_, _, rfl, hkeys, hvalues⟩

/-- **The whole match.** Bindings of the variables to the types they meet make an instance that the
actual type is below. -/
theorem le_of_meets {f a r : Ty} {e : Bindings} (hfault : (walk f a).fault = none)
    (hmet : ∀ x t, (x, t) ∈ (walk f a).met → e.get? x = some t)
    (hplain : ∀ s es, f.Contains (tuple s es) → s = none)
    (hlist : ∀ g s es, ¬ Meets (f, a) (list g, tuple s es))
    (hclosed : ∀ c p, Meets (f, a) (c, p) → ¬ c.hasVars → p ≤ c)
    (hinst : f.instantiate e = .ok (some r)) : a ≤ r := by
  induction f, a using walk_ind generalizing r with
  | closed f a hopen =>
    obtain rfl := eq_of_instantiate_closed hopen hinst
    exact hclosed r a (meets_self _) hopen
  | var x a =>
    have hx : e.get? x = some a := hmet x a (by rw [walk_var]; exact List.mem_cons_self)
    rw [instantiate_var, hx] at hinst
    obtain rfl : a = r := by simpa using hinst
    exact le_refl a
  | rule f a ps hopen hps hwalk ih =>
    rw [hwalk] at hfault hmet
    have hlist₀ : ∀ g s es, (f, a) ≠ (list g, tuple s es) := by
      intro g s es heq
      exact hlist g s es (heq ▸ meets_self _)
    have hplain₀ : ∀ s es, f = tuple s es → s = none := by
      intro s es heq
      exact hplain s es (heq ▸ contains_self f)
    refine hps.le_of_instantiate hlist₀ hplain₀ hinst fun q hq u hu => ?_
    -- each hypothesis on the match is one on the matches it goes on with
    obtain ⟨hfault', hmet'⟩ := walkPairs_complete hfault hq
    refine ih q hq hfault' ?_ ?_ ?_ ?_ hu
    · exact fun x t hx => hmet x t (hmet' hx)
    · exact fun s es hs => hplain s es (contains_of_mem_children (hps.mem_children hq) hs)
    · exact fun g s es hg => hlist g s es (hps.meets hopen hq hg)
    · exact fun c p hc => hclosed c p (hps.meets hopen hq hc)
  | misfit f a m _ hwalk => simp [hwalk, Walk.fail] at hfault

/-- **Call sites are sound.** Let each variable occur at most once in a formal type without field
names, and let it match an actual type. If no list in it met a tuple and the parts of it without
variables are above what they met, then the actual type is below the instance of the formal type
under the bindings found. -/
theorem le_instance_of_matchType {f a r : Ty} {e : Bindings} (hlinear : f.vars.Nodup)
    (hplain : ∀ s es, f.Contains (tuple s es) → s = none) (hmatch : f.matchType a = .ok e)
    (hinst : f.instantiate e = .ok (some r))
    (hlist : ∀ g s es, ¬ Meets (f, a) (list g, tuple s es))
    (hclosed : ∀ c p, Meets (f, a) (c, p) → ¬ c.hasVars → p.isSubtype c) : a.isSubtype r := by
  obtain ⟨hfault, hmet⟩ := met_of_matchType hlinear hmatch
  exact le_of_meets hfault hmet hplain hlist hclosed hinst

/-- A tuple with field names against one without, a list in the place of an optional, an optional
below which a variable meets an optional, and a part without variables that is larger than what it
meets. -/
theorem le_instance_of_matchType_named :
    let f := tuple none [optional (list (var "v")), prim .number, optional (var "w")]
    let a := tuple (some ⟨some "P", ["x", "y", "z"]⟩)
      [list (prim .none), prim .int, optional (optional (prim .int))]
    let e : Bindings := ⟨[("w", optional (prim .int)), ("v", prim .none)]⟩
    let r := tuple none
      [optional (list (prim .none)), prim .number, optional (optional (prim .int))]
    (f.vars.Nodup ∧ f.matchType a = .ok e ∧ f.instantiate e = .ok (some r)) ∧ a.isSubtype r := by
  intro f a e r
  -- all meetings of this match, by going through the rules from each of them
  let pairs := [(f, a), (optional (list (var "v")), list (prim .none)),
    (list (var "v"), list (prim .none)), (var "v", prim .none), (prim .number, prim .int),
    (optional (var "w"), optional (optional (prim .int))), (var "w", optional (prim .int))]
  have hmeets : ∀ q, Meets (f, a) q → q ∈ pairs := by
    intro q hq
    induction hq with
    | refl => exact List.mem_cons_self
    | tail _ hnext ih =>
      obtain ⟨_, ps, hps, hmem⟩ := hnext
      simp only [pairs, f, a, List.mem_cons, List.not_mem_nil, or_false] at ih ⊢
      rcases ih with rfl | rfl | rfl | rfl | rfl | rfl | rfl <;> cases hps <;> simp at hmem <;> tauto
  have hlist : ∀ g s es, ¬ Meets (f, a) (list g, tuple s es) := by
    intro g s es h
    simpa [pairs, f, a] using hmeets _ h
  have hclosed : ∀ c p, Meets (f, a) (c, p) → ¬ c.hasVars → p.isSubtype c := by
    have hpairs : ∀ q ∈ pairs, ¬ q.1.hasVars → q.2.isSubtype q.1 := by decide +kernel
    exact fun c p h => hpairs (c, p) (hmeets (c, p) h)
  have hlinear : f.vars.Nodup := by decide
  have hplain : ∀ s es, f.Contains (tuple s es) → s = none := by simp [f]
  have hmatch : f.matchType a = .ok e := by rfl
  have hinst : f.instantiate e = .ok (some r) := by rfl
  exact ⟨⟨hlinear, hmatch, hinst⟩,
    le_instance_of_matchType hlinear hplain hmatch hinst hlist hclosed⟩

end Ty

end TensorTyping
