import Mathlib.Order.Lattice
import TensorTyping.TensorFacts

/-!
# The order of tensor facts

Merging two descriptions of a tensor is commutative, associative and idempotent, so it is the join of
an order: `a ≤ b` when merging `b` into `a` gives back `b`, that is, when `a` knows everything that
`b` knows. Subtyping of tensors is this order, and everything that later modules need of it
(transitivity, that the merge is an upper bound, that it is the least one) then comes from Mathlib's
semilattices and not from a case analysis of its own.

The one part that is not bookkeeping is the shape, because its merge goes by two rules, one for the
rank and one for each axis. `Shape.merge` is never opened here beyond two lemmas: what it does to the
rank (`Shape.rank_merge`) and what it does to an extent (`Shape.extent_merge_eq_some_iff`). A shape is
determined by its rank and its extents, so the laws are read off those two views.
-/

set_option autoImplicit false

namespace TensorTyping

/-! ## One fact -/

namespace Known

variable {α : Type} [DecidableEq α]

theorem merge_comm (a b : Known α) : merge a b = merge b a := by
  refine Option.ext fun v => ?_
  rw [merge_eq_some_iff, merge_eq_some_iff, and_comm]

theorem merge_assoc (a b c : Known α) : merge (merge a b) c = merge a (merge b c) := by
  refine Option.ext fun v => ?_
  simp only [merge_eq_some_iff, and_assoc]

end Known

/-! ## Shapes, seen through rank and extents -/

namespace Shape

/-- Rank and extents determine a shape. The extents alone do not: an axis of unknown extent reads
like an axis beyond the last one. -/
theorem ext_rank_extent {a b : Shape} (hrank : a.rank = b.rank)
    (hext : ∀ i, a.extent i = b.extent i) : a = b := by
  obtain ⟨_ | xs⟩ := a <;> obtain ⟨_ | ys⟩ := b
  · rfl
  · simp [rank] at hrank
  · simp [rank] at hrank
  · have hlen : xs.length = ys.length := by simpa [rank] using hrank
    have hxy : xs = ys := by
      refine List.ext_getElem hlen fun i hi hj => ?_
      simpa [extent, hi, hj] using hext i
    rw [hxy]

/-- The rank of a merge is the merge of the ranks. -/
theorem rank_merge (a b : Shape) : (a.merge b).rank = Known.merge a.rank b.rank := by
  obtain ⟨_ | xs⟩ := a <;> obtain ⟨_ | ys⟩ := b
  · rfl
  · rfl
  · rfl
  · by_cases h : xs.length = ys.length
    · simp [merge, rank, ofDims, h]
    · simp [merge, rank, unknown, h, Known.merge]

/-- An extent survives the merge exactly when both shapes know it with that value and have the same
rank. Equal extents alone are not enough, because a lost rank takes all extents with it. -/
theorem extent_merge_eq_some_iff (a b : Shape) (i : Nat) (v : Extent) :
    (a.merge b).extent i = some v ↔
      a.rank = b.rank ∧ a.extent i = some v ∧ b.extent i = some v := by
  obtain ⟨_ | xs⟩ := a <;> obtain ⟨_ | ys⟩ := b
  · simp [merge, extent, unknown]
  · simp [merge, extent, unknown]
  · simp [merge, extent, unknown]
  · by_cases h : xs.length = ys.length
    · rcases Nat.lt_or_ge i ys.length with hi | hi
      · simp [merge, extent, ofDims, rank, h, hi]
      · simp [merge, extent, ofDims, rank, h, hi]
    · simp [merge, extent, unknown, rank, h]

theorem merge_self (a : Shape) : a.merge a = a := by
  refine ext_rank_extent ?_ fun i => Option.ext fun v => ?_
  · rw [rank_merge, Known.merge_self]
  · rw [extent_merge_eq_some_iff, and_self, eq_self, true_and]

theorem merge_comm (a b : Shape) : a.merge b = b.merge a := by
  refine ext_rank_extent ?_ fun i => Option.ext fun v => ?_
  · rw [rank_merge, rank_merge, Known.merge_comm]
  · rw [extent_merge_eq_some_iff, extent_merge_eq_some_iff]
    exact ⟨fun ⟨h, ha, hb⟩ => ⟨h.symm, hb, ha⟩, fun ⟨h, hb, ha⟩ => ⟨h.symm, ha, hb⟩⟩

theorem merge_assoc (a b c : Shape) : (a.merge b).merge c = a.merge (b.merge c) := by
  refine ext_rank_extent ?_ fun i => Option.ext fun v => ?_
  · simp only [rank_merge, Known.merge_assoc]
  · -- an extent that survives either way comes with three equal ranks, so the rank of the inner
    -- merge is that common rank
    simp only [extent_merge_eq_some_iff, rank_merge]
    constructor
    · rintro ⟨hc, ⟨hab, ha, hb⟩, hv⟩
      rw [hab, Known.merge_self] at hc
      rw [hab, hc, Known.merge_self]
      exact ⟨rfl, ha, rfl, hb, hv⟩
    · rintro ⟨ha, hv, hbc, hb, hc⟩
      rw [hbc, Known.merge_self] at ha
      rw [hbc, ha, Known.merge_self]
      exact ⟨rfl, ⟨rfl, hv, hb⟩, hc⟩

end Shape

/-! ## Tensor facts -/

namespace TensorFacts

theorem merge_self (a : TensorFacts) : a.merge a = a := by
  simp only [merge, Known.merge_self, Shape.merge_self]

theorem merge_comm (a b : TensorFacts) : a.merge b = b.merge a := by
  simp only [merge, Known.merge_comm a.scalar, Known.merge_comm a.device,
    Shape.merge_comm a.sizes, Shape.merge_comm a.strides,
    Known.merge_comm a.requiresGrad, Known.merge_comm a.undefined]

theorem merge_assoc (a b c : TensorFacts) : (a.merge b).merge c = a.merge (b.merge c) := by
  simp only [merge, Known.merge_assoc, Shape.merge_assoc]

instance : Max TensorFacts := ⟨merge⟩

/-- **Tensor facts form a join semilattice.** The join is the merge, and the order is the one that
tensor subtyping tests. -/
instance : SemilatticeSup TensorFacts := .mk' merge_comm merge_assoc merge_self

theorem le_iff_merge_eq {a b : TensorFacts} : a ≤ b ↔ a.merge b = b := Iff.rfl

theorem le_merge_left (a b : TensorFacts) : a ≤ a.merge b := le_sup_left

theorem le_merge_right (a b : TensorFacts) : b ≤ a.merge b := le_sup_right

theorem merge_le {a b c : TensorFacts} (hac : a ≤ c) (hbc : b ≤ c) : a.merge b ≤ c :=
  sup_le hac hbc

/-- The generic tensor is above every other one: there is nothing it knows. -/
theorem le_unknown (a : TensorFacts) : a ≤ unknown := by
  rw [le_iff_merge_eq]
  obtain ⟨_, _, ⟨_ | _⟩, ⟨_ | _⟩, _, _⟩ := a <;> simp [merge, unknown, Shape.merge, Shape.unknown]

end TensorFacts

end TensorTyping
