import TensorTyping.Proofs.TensorKnowledge
import TensorTyping.Proofs.Unify.AnyOrder

/-!
# What all tensors of a list know

Unifying a list of tensors merges them two at a time, and each merge compares what is known so far
with one more tensor. The result can be told without any of this: it knows a fact exactly when all
tensors of the list know it with the same value. For a shape this goes by rank and extents again,
where an extent is only spoken of when the ranks agree, since a lost rank takes the extents with it
even where they are the same in all tensors.

What is unanimous in a list depends on its members alone, and it determines a description of a
tensor (`TensorFacts.Unanimous.unique`). So the order of the list does not matter, and the results
are equal and not just subtypes of each other.
-/

set_option autoImplicit false

namespace TensorTyping

/-! ## One fact -/

namespace Known

variable {ι α : Type} {read : ι → Known α} {m n : Known α} {ts us : List ι}

/-- `m` knows a value exactly when it is read off from every member of the list. -/
def Unanimous (m : Known α) (read : ι → Known α) (ts : List ι) : Prop :=
  ∀ v, m = some v ↔ ∀ t ∈ ts, read t = some v

theorem unanimous_singleton (read : ι → Known α) (t : ι) : (read t).Unanimous read [t] := by
  simp [Unanimous]

/-- One more member. -/
theorem Unanimous.merge [DecidableEq α] (h : m.Unanimous read ts) (t : ι) :
    (m.merge (read t)).Unanimous read (ts ++ [t]) := by
  intro v
  rw [merge_eq_some_iff, h v, List.forall_mem_append, List.forall_mem_singleton]

theorem Unanimous.unique (h : m.Unanimous read ts) (h' : n.Unanimous read us) (hperm : us.Perm ts) :
    m = n := by
  refine Option.ext fun v => ?_
  rw [h v, h' v]
  simp only [hperm.mem_iff]

end Known

/-! ## Shapes -/

namespace Shape

variable {ι : Type} {read : ι → Shape} {m n : Shape} {ts us : List ι}

/-- `m` has a rank exactly when it is that of every shape, and an extent, if it has a rank, exactly
when it is that of every shape. -/
structure Unanimous (m : Shape) (read : ι → Shape) (ts : List ι) : Prop where
  /-- The number of axes. -/
  rank : m.rank.Unanimous (fun t => (read t).rank) ts
  /-- The extent of each axis. -/
  extent : m.rank.isSome → ∀ i, (m.extent i).Unanimous (fun t => (read t).extent i) ts

theorem unanimous_singleton (read : ι → Shape) (t : ι) : (read t).Unanimous read [t] where
  rank := Known.unanimous_singleton (fun t => (read t).rank) t
  extent _ i := Known.unanimous_singleton (fun t => (read t).extent i) t

theorem Unanimous.merge (h : m.Unanimous read ts) (t : ι) :
    (m.merge (read t)).Unanimous read (ts ++ [t]) where
  rank := by
    rw [rank_merge]
    exact h.rank.merge t
  extent hrank i v := by
    -- a rank that is left is the rank of both, so the extents of both count
    obtain ⟨k, hk⟩ := Option.isSome_iff_exists.1 hrank
    rw [rank_merge, Known.merge_eq_some_iff] at hk
    have hm : m.rank.isSome := by rw [hk.1]; rfl
    have heq : m.rank = (read t).rank := hk.1.trans hk.2.symm
    rw [extent_merge_eq_some_iff, and_iff_right heq, h.extent hm i v, List.forall_mem_append,
      List.forall_mem_singleton]

theorem Unanimous.unique (h : m.Unanimous read ts) (h' : n.Unanimous read us) (hperm : us.Perm ts) :
    m = n := by
  have hrank : m.rank = n.rank := h.rank.unique h'.rank hperm
  refine ext_rank_extent hrank fun i => ?_
  rcases hm : m.rank with _ | k
  · rw [extent_eq_none_of_rank hm, extent_eq_none_of_rank (hrank ▸ hm)]
  · have hm : m.rank.isSome := by rw [hm]; rfl
    exact (h.extent hm i).unique (h'.extent (hrank ▸ hm) i) hperm

end Shape

/-! ## Tensor facts -/

namespace TensorFacts

variable {m n : TensorFacts} {fs gs : List TensorFacts}

/-- `m` knows of a tensor what all descriptions in the list know with the same value. -/
structure Unanimous (m : TensorFacts) (fs : List TensorFacts) : Prop where
  /-- The kind of the elements. -/
  scalar : m.scalar.Unanimous TensorFacts.scalar fs
  /-- Where the tensor lives. -/
  device : m.device.Unanimous TensorFacts.device fs
  /-- The number of axes and the extents along them. -/
  sizes : m.sizes.Unanimous TensorFacts.sizes fs
  /-- The number of strides and the strides. -/
  strides : m.strides.Unanimous TensorFacts.strides fs
  /-- Whether gradients are recorded. -/
  requiresGrad : m.requiresGrad.Unanimous TensorFacts.requiresGrad fs
  /-- Whether the tensor is undefined. -/
  undefined : m.undefined.Unanimous TensorFacts.undefined fs

theorem unanimous_singleton (f : TensorFacts) : f.Unanimous [f] where
  scalar := Known.unanimous_singleton _ f
  device := Known.unanimous_singleton _ f
  sizes := Shape.unanimous_singleton _ f
  strides := Shape.unanimous_singleton _ f
  requiresGrad := Known.unanimous_singleton _ f
  undefined := Known.unanimous_singleton _ f

/-- **One step.** Merging one more description into what is unanimous so far gives what is unanimous
then. -/
theorem Unanimous.merge (h : m.Unanimous fs) (f : TensorFacts) :
    (m.merge f).Unanimous (fs ++ [f]) where
  scalar := h.scalar.merge f
  device := h.device.merge f
  sizes := h.sizes.merge f
  strides := h.strides.merge f
  requiresGrad := h.requiresGrad.merge f
  undefined := h.undefined.merge f

/-- What is unanimous is one description, whatever the order of the list is. -/
theorem Unanimous.unique (h : m.Unanimous fs) (h' : n.Unanimous gs) (hperm : gs.Perm fs) :
    m = n := by
  cases m
  cases n
  rw [mk.injEq]
  exact ⟨h.scalar.unique h'.scalar hperm, h.device.unique h'.device hperm,
    h.sizes.unique h'.sizes hperm, h.strides.unique h'.strides hperm,
    h.requiresGrad.unique h'.requiresGrad hperm, h.undefined.unique h'.undefined hperm⟩

end TensorFacts

namespace Ty

/-! ## The whole list -/

/-- **The whole run.** A list of tensors unifies to what is unanimous among them. -/
theorem exists_unifyAll_tensors {fs : List TensorFacts} (hne : fs ≠ []) :
    ∃ m, unifyAll (fs.map tensor) = some (tensor m) ∧ m.Unanimous fs := by
  induction fs using List.reverseRecOn with
  | nil => exact absurd rfl hne
  | append_singleton fs f ih =>
    by_cases hnil : fs = []
    · subst hnil
      exact ⟨f, rfl, TensorFacts.unanimous_singleton f⟩
    · obtain ⟨m, hm, hall⟩ := ih hnil
      refine ⟨m.merge f, ?_, hall.merge f⟩
      rw [List.map_append, List.map_singleton, unifyAll_append_singleton (by simpa using hnil), hm,
        Option.bind_some, unify_tensors]

/-- **A list of tensors unifies to exactly the facts that all of them know.** Each fact of the
result is known with a value exactly when every tensor knows it with that value; the rank of a shape
likewise, and the extents, as long as there is a rank. Every order of the list has the very same
result. -/
theorem unifyAll_tensors_unanimous {fs : List TensorFacts} (hne : fs ≠ []) :
    ∃ m, unifyAll (fs.map tensor) = some (tensor m) ∧ m.Unanimous fs ∧
      ∀ gs : List TensorFacts, gs.Perm fs → unifyAll (gs.map tensor) = some (tensor m) := by
  obtain ⟨m, hm, hall⟩ := exists_unifyAll_tensors hne
  refine ⟨m, hm, hall, fun gs hperm => ?_⟩
  have hgs : gs ≠ [] := fun hnil => hne (List.nil_perm.1 (hnil ▸ hperm))
  obtain ⟨n, hn, hall'⟩ := exists_unifyAll_tensors hgs
  rw [hn, hall.unique hall' hperm]

/-- Three tensors. They agree on the kind of the elements, on the first extent and on the last
stride, but not on the device; two of them agree on the second extent, which is not enough. -/
theorem unifyAll_tensors_unanimous_dense :
    let f := TensorFacts.dense .float .cpu [2, 3]
    let g := TensorFacts.dense .float (.cuda 0) [2, 3]
    let h := TensorFacts.dense .float .cpu [2, 4]
    [f, g, h] ≠ [] ∧ [h, f, g].Perm [f, g, h] ∧
      ∃ m, unifyAll [tensor f, tensor g, tensor h] = some (tensor m) ∧
        unifyAll [tensor h, tensor f, tensor g] = some (tensor m) ∧
        (m.scalar = some .float ∧ m.device ≠ some .cpu) ∧
        m.sizes.rank = some 2 ∧ m.sizes.extent 0 = some 2 ∧ m.sizes.extent 1 ≠ some 3 := by
  intro f g h
  have hne : [f, g, h] ≠ [] := by simp
  have hperm : [h, f, g].Perm [f, g, h] := by decide +kernel
  obtain ⟨m, hm, hall, horder⟩ := unifyAll_tensors_unanimous hne
  have hrank : m.sizes.rank = some 2 := (hall.sizes.rank 2).2 (by decide +kernel)
  have hextent := hall.sizes.extent (by rw [hrank]; rfl)
  refine ⟨hne, hperm, m, hm, horder _ hperm, ⟨?_, ?_⟩, hrank, ?_, ?_⟩
  · exact (hall.scalar .float).2 (by decide +kernel)
  · exact (hall.device .cpu).not.2 (by decide +kernel)
  · exact (hextent 0 2).2 (by decide +kernel)
  · exact (hextent 1 3).not.2 (by decide +kernel)

end Ty

end TensorTyping
