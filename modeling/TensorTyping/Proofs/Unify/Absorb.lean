import Mathlib.Order.Antisymmetrization
import TensorTyping.Proofs.Unify.Bounds

/-!
# Unifying a list: what it bounds and what it absorbs

A list is unified from left to right, with the result so far in front. Each step is above what stands
in front and above the type that comes in (`Ty.le_of_unify`), so a type that has been passed stays
below all later results.

Once a list has been unified, types below the result add nothing to it. They may still change it: of two
types that are subtypes of each other the second one is given back, so each further step can put another
such type in the place of the result. The types that come in stay below it throughout, and that is what
keeps the steps going.
-/

set_option autoImplicit false

namespace TensorTyping

namespace Ty

/-! ## Steps go up -/

/-- All types that come in, and the one in front, are below the last result. -/
theorem le_of_foldlM_unify {ts : List Ty} {a u : Ty} (h : ts.foldlM unify a = some u) :
    a ≤ u ∧ ∀ t ∈ ts, t ≤ u := by
  induction ts generalizing a with
  | nil =>
    obtain rfl : a = u := by simpa using h
    exact ⟨le_refl a, List.forall_mem_nil _⟩
  | cons t ts ih =>
    rw [List.forall_mem_cons]
    rw [List.foldlM_cons, Option.bind_eq_bind, Option.bind_eq_some_iff] at h
    obtain ⟨v, hv, h⟩ := h
    -- the first step goes above both of its operands, and the later ones go above its result
    obtain ⟨hav, htv⟩ := le_of_unify hv
    obtain ⟨hvu, hrest⟩ := ih h
    exact ⟨hav.trans hvu, htv.trans hvu, hrest⟩

/-! ## Steps with smaller types -/

/-- A type below the one in front is absorbed: the result is that in front, or the type itself if the
two are subtypes of each other. -/
theorem exists_unify_of_ge {a y : Ty} (h : y ≤ a) :
    ∃ v, a.unify y = some v ∧ AntisymmRel (· ≤ ·) a v := by
  by_cases hay : a ≤ y
  · exact ⟨y, unify_of_le hay, hay, h⟩
  · exact ⟨a, unify_of_ge hay h, .refl _ a⟩

/-- Types below the one in front are absorbed one after the other. -/
theorem exists_foldlM_unify_of_ge {ys : List Ty} {a : Ty} (h : ∀ y ∈ ys, y ≤ a) :
    ∃ v, ys.foldlM unify a = some v ∧ AntisymmRel (· ≤ ·) a v := by
  induction ys generalizing a with
  | nil => exact ⟨a, rfl, .refl _ a⟩
  | cons y ys ih =>
    rw [List.forall_mem_cons] at h
    obtain ⟨v, hv, hav⟩ := exists_unify_of_ge h.1
    -- the rest of the types are below the new result, which is above the old one
    obtain ⟨w, hw, hvw⟩ := ih fun z hz => (h.2 z hz).trans hav.le
    refine ⟨w, ?_, hav.trans hvw⟩
    rw [List.foldlM_cons, hv]
    exact hw

/-! ## Lists -/

/-- **Unification of a list bounds it and absorbs what is below.** What a list of types unifies to is
above each of them. If types that are below it are put behind the list, the longer list unifies as
well, and the two results are subtypes of each other. -/
theorem unifyAll_bounds_and_absorbs {ts : List Ty} {u : Ty} (h : unifyAll ts = some u) :
    (∀ t ∈ ts, t.isSubtype u) ∧
    ∀ ys : List Ty, (∀ y ∈ ys, y.isSubtype u) →
      ∃ v, unifyAll (ts ++ ys) = some v ∧ u.isSubtype v ∧ v.isSubtype u := by
  rcases ts with _ | ⟨t, ts⟩
  · simp [unifyAll] at h
  · rw [unifyAll] at h
    refine ⟨List.forall_mem_cons.2 (le_of_foldlM_unify h), fun ys hys => ?_⟩
    obtain ⟨v, hv, huv⟩ := exists_foldlM_unify_of_ge hys
    refine ⟨v, ?_, huv.le, huv.ge⟩
    rw [List.cons_append, unifyAll, List.foldlM_append, h]
    exact hv

/-- An optional of a named tuple, and behind it an optional of a tuple with the same fields and another
name. The longer list unifies to the latter, which is a subtype of the former in both directions. -/
theorem unifyAll_bounds_and_absorbs_named :
    let p := tuple (some ⟨some "P", ["x"]⟩) [prim .int]
    let q := tuple (some ⟨some "Q", ["x"]⟩) [prim .int]
    let ts := [p, prim .none]
    let ys := [optional q, q, prim .none]
    (unifyAll ts = some (optional p) ∧ ∀ y ∈ ys, y.isSubtype (optional p)) ∧
    (∀ t ∈ ts, t.isSubtype (optional p)) ∧ unifyAll (ts ++ ys) = some (optional q) ∧
      (optional p).isSubtype (optional q) ∧ (optional q).isSubtype (optional p) := by
  intro p q ts ys
  have h : unifyAll ts = some (optional p) := by decide +kernel
  have hys : ∀ y ∈ ys, y.isSubtype (optional p) := by decide +kernel
  have hlonger : unifyAll (ts ++ ys) = some (optional q) := by decide +kernel
  obtain ⟨hbound, habsorb⟩ := unifyAll_bounds_and_absorbs h
  obtain ⟨v, hv, hpv, hvp⟩ := habsorb ys hys
  obtain rfl : optional q = v := Option.some.inj (hlonger.symm.trans hv)
  exact ⟨⟨h, hys⟩, hbound, hlonger, hpv, hvp⟩

end Ty

end TensorTyping
