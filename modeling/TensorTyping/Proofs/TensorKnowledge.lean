import TensorTyping.Proofs.Subtype.Rules

/-!
# The order of tensor facts is knowledge

`TensorTyping.Proofs.TensorOrder` takes the order of tensor facts from the merge: `a ≤ b` when
merging `b` into `a` gives back `b`. Here the order is said without the merge. One description is
below another when it knows everything that the other knows, each fact with the same value.

For a single fact this is the definition of the flat order. A shape is seen through its rank and its
extents, and there the two views have to be taken together: a known extent is worth nothing to the
merge unless the ranks agree. They do agree here, because a shape that knows an extent knows its
rank as well (`Shape.rank_eq_some_of_extent`). -/

set_option autoImplicit false

namespace TensorTyping

/-! ## One fact -/

namespace Known

variable {α : Type}

/-- What `b` knows, `a` knows with the same value. -/
def Covers (a b : Known α) : Prop := ∀ v, b = some v → a = some v

theorem merge_eq_right_iff [DecidableEq α] {a b : Known α} : merge a b = b ↔ a.Covers b := by
  constructor
  · intro h v hb
    rw [hb, merge_eq_some_iff] at h
    exact h.1
  · intro h
    refine Option.ext fun v => ?_
    rw [merge_eq_some_iff]
    exact ⟨fun hv => hv.2, fun hv => ⟨h v hv, hv⟩⟩

end Known

/-! ## Shapes -/

namespace Shape

/-- What `b` knows of rank and extents, `a` knows with the same values. -/
structure Covers (a b : Shape) : Prop where
  /-- The number of axes. -/
  rank : a.rank.Covers b.rank
  /-- The extent of each axis. -/
  extent : ∀ i, (a.extent i).Covers (b.extent i)

/-- A known extent is that of one of the axes, so their number is known. -/
theorem rank_eq_some_of_extent {s : Shape} {i : Nat} {v : Extent} (h : s.extent i = some v) :
    ∃ n, s.rank = some n := by
  obtain ⟨_ | dims⟩ := s
  · simp [extent] at h
  · exact ⟨dims.length, rfl⟩

theorem extent_eq_none_of_rank {s : Shape} (h : s.rank = none) (i : Nat) : s.extent i = none := by
  rcases hext : s.extent i with _ | v
  · rfl
  · obtain ⟨k, hk⟩ := rank_eq_some_of_extent hext
    simp [h] at hk

theorem merge_eq_right_iff {a b : Shape} : a.merge b = b ↔ a.Covers b := by
  constructor
  · intro h
    refine ⟨?_, fun i v hv => ?_⟩
    · rw [← Known.merge_eq_right_iff, ← rank_merge, h]
    · rw [← h, extent_merge_eq_some_iff] at hv
      exact hv.2.1
  · intro h
    have hrank : Known.merge a.rank b.rank = b.rank := Known.merge_eq_right_iff.2 h.rank
    refine ext_rank_extent (by rw [rank_merge, hrank]) fun i => Option.ext fun v => ?_
    rw [extent_merge_eq_some_iff]
    refine ⟨fun hv => hv.2.2, fun hv => ⟨?_, h.extent i v hv, hv⟩⟩
    -- the extent brings the rank of `b` with it, and `a` has that rank too
    obtain ⟨n, hn⟩ := rank_eq_some_of_extent hv
    rw [hn, h.rank n hn]

end Shape

/-! ## Tensor facts -/

namespace TensorFacts

/-- What `b` knows of a tensor, `a` knows with the same values. -/
structure Covers (a b : TensorFacts) : Prop where
  /-- The kind of the elements. -/
  scalar : a.scalar.Covers b.scalar
  /-- Where the tensor lives. -/
  device : a.device.Covers b.device
  /-- The number of axes and the extents along them. -/
  sizes : a.sizes.Covers b.sizes
  /-- The number of strides and the strides. -/
  strides : a.strides.Covers b.strides
  /-- Whether gradients are recorded. -/
  requiresGrad : a.requiresGrad.Covers b.requiresGrad
  /-- Whether the tensor is undefined. -/
  undefined : a.undefined.Covers b.undefined

/-- **The order of tensor facts is knowledge.** Facts merge one by one, so it is enough that it
holds of each of them. -/
theorem le_iff_covers {a b : TensorFacts} : a ≤ b ↔ a.Covers b := by
  obtain ⟨scalar, device, sizes, strides, requiresGrad, undefined⟩ := b
  rw [le_iff_merge_eq, merge, mk.injEq]
  simp only [Known.merge_eq_right_iff, Shape.merge_eq_right_iff]
  constructor
  · rintro ⟨hscalar, hdevice, hsizes, hstrides, hgrad, hundefined⟩
    exact ⟨hscalar, hdevice, hsizes, hstrides, hgrad, hundefined⟩
  · rintro ⟨hscalar, hdevice, hsizes, hstrides, hgrad, hundefined⟩
    exact ⟨hscalar, hdevice, hsizes, hstrides, hgrad, hundefined⟩

end TensorFacts

namespace Ty

/-- Subtyping of tensors is the order of their facts. -/
theorem tensor_le_tensor_iff {a b : TensorFacts} : tensor a ≤ tensor b ↔ a ≤ b := by
  simp

/-- **Tensor facts form a join semilattice, and its order is subtyping of tensors.** The merge is
commutative, associative and idempotent. One tensor is a subtype of another exactly when it knows
what the other knows. And the merge of two tensors is above both and below every tensor that both
are below. -/
theorem tensor_facts_semilattice :
    ((∀ a b : TensorFacts, a.merge b = b.merge a) ∧
      (∀ a b c : TensorFacts, (a.merge b).merge c = a.merge (b.merge c)) ∧
      ∀ a : TensorFacts, a.merge a = a) ∧
    (∀ a b : TensorFacts, (tensor a).isSubtype (tensor b) ↔ a.Covers b) ∧
    ∀ a b : TensorFacts,
      ((tensor a).isSubtype (tensor (a.merge b)) ∧ (tensor b).isSubtype (tensor (a.merge b))) ∧
      ∀ c : TensorFacts, (tensor a).isSubtype (tensor c) → (tensor b).isSubtype (tensor c) →
        (tensor (a.merge b)).isSubtype (tensor c) := by
  simp only [← le_def, tensor_le_tensor_iff]
  refine ⟨⟨TensorFacts.merge_comm, TensorFacts.merge_assoc, TensorFacts.merge_self⟩, ?_, ?_⟩
  · intro a b
    exact TensorFacts.le_iff_covers
  · intro a b
    refine ⟨⟨a.le_merge_left b, a.le_merge_right b⟩, fun c hac hbc => ?_⟩
    exact TensorFacts.merge_le hac hbc

/-- Two tensors of one rank that differ in one extent, in a stride and in the device, and a third
description of which both know all it knows: the rank of the strides is known there and the sizes
are not. -/
theorem tensor_facts_semilattice_dense :
    let a := TensorFacts.dense .float .cpu [2, 3]
    let b := TensorFacts.dense .float (.cuda 0) [2, 4]
    let c : TensorFacts := ⟨some .float, none, .unknown, .ofRank 2, none, none⟩
    ((tensor a).isSubtype (tensor c) ∧ (tensor b).isSubtype (tensor c)) ∧
      (tensor (a.merge b)).isSubtype (tensor c) ∧ (a.merge b).Covers c ∧ ¬ a.Covers b := by
  intro a b c
  have hac : (tensor a).isSubtype (tensor c) := by decide +kernel
  have hbc : (tensor b).isSubtype (tensor c) := by decide +kernel
  obtain ⟨_, hcovers, hleast⟩ := tensor_facts_semilattice
  have hmerge : (tensor (a.merge b)).isSubtype (tensor c) := (hleast a b).2 c hac hbc
  refine ⟨⟨hac, hbc⟩, hmerge, (hcovers _ c).1 hmerge, ?_⟩
  rw [← hcovers]
  decide +kernel

end Ty

end TensorTyping
