import Mathlib.Data.List.Induction
import Mathlib.Data.List.Perm.Basic
import TensorTyping.Proofs.Unify.Rules

/-!
# Tensors and none, in any order

A list of types is unified from left to right. For tensors and none the result says nothing of the
order: it is the tensor of the facts that all tensors in the list share, and it is optional if there
is a none among them (`Ty.summary`). What does depend on the order is whether there is a result at
all.

The reason is that no rule of unification looks under an optional. Until the first none, tensors are
merged. From then on the result so far is an optional, and a tensor that is not below its element
already finds no rule. So after a none a tensor may repeat what the tensors before it share, but it
may not take anything away from it (`Ty.FitsAfter`). The first tensor of all is free, since an
optional is only made when there is something to put in it.

The proof follows the fold: one step takes the summary of a list to the summary of the list with one
more type at its end, or it fails, and then the whole run is an induction from the right. -/

set_option autoImplicit false

namespace TensorTyping

namespace Ty

/-! ## Unifying with a tensor or with none -/

/-- Tensors always unify, and always to the facts they share. Where one is below the other, these
are the facts of the larger one. -/
theorem unify_tensors (f g : TensorFacts) :
    (tensor f).unify (tensor g) = some (tensor (f.merge g)) := by
  by_cases hfg : f ≤ g
  · rw [unify_of_le (by simpa using hfg), TensorFacts.le_iff_merge_eq.1 hfg]
  by_cases hgf : g ≤ f
  · rw [unify_of_ge (by simpa using hfg) (by simpa using hgf), TensorFacts.merge_comm,
      TensorFacts.le_iff_merge_eq.1 hgf]
  · exact unify_eq_some_iff.2 (.tensors (larger?_eq_none_iff.2 ⟨by simpa, by simpa⟩))

theorem unify_none_tensor (g : TensorFacts) :
    (prim .none).unify (tensor g) = some (optional (tensor g)) :=
  unify_eq_some_iff.2 (.noneLeft (larger?_eq_none_iff.2 ⟨by simp, by simp⟩))

theorem unify_tensor_none (f : TensorFacts) :
    (tensor f).unify (prim .none) = some (optional (tensor f)) :=
  unify_eq_some_iff.2 (.noneRight (larger?_eq_none_iff.2 ⟨by simp, by simp⟩))

theorem unify_optional_none (f : TensorFacts) :
    (optional (tensor f)).unify (prim .none) = some (optional (tensor f)) :=
  unify_of_ge (by simp) (none_le_optional _)

/-- An optional tensor and a tensor unify only by the first rule, that is, when they are comparable.
-/
theorem unify_optional_tensor {f g : TensorFacts} {u : Ty} :
    (optional (tensor f)).unify (tensor g) = some u ↔ g ≤ f ∧ u = optional (tensor f) := by
  have hno : ¬ optional (tensor f) ≤ tensor g := by simp
  have hyes : tensor g ≤ optional (tensor f) ↔ g ≤ f := by simp [le_optional_iff]
  rw [unify_eq_some_iff]
  constructor
  · intro h
    cases h with
    | larger h =>
      rcases larger?_eq_some_iff.1 h with ⟨hle, _⟩ | ⟨_, hle, rfl⟩
      · exact absurd hle hno
      · exact ⟨hyes.1 hle, rfl⟩
  · rintro ⟨hle, rfl⟩
    exact .larger (larger?_eq_some_iff.2 (.inr ⟨hno, hyes.2 hle, rfl⟩))

/-! ## What a list shares -/

/-- The type is a tensor or none. -/
def IsTensorOrNone (t : Ty) : Prop := t = prim .none ∨ ∃ f, t = tensor f

/-- The facts that all tensors in the list share; `none` if there is no tensor in it. -/
def sharedFacts : List Ty → Option TensorFacts
  | [] => none
  | t :: ts => Option.merge TensorFacts.merge t.tensor? (sharedFacts ts)

instance : Std.Commutative TensorFacts.merge := ⟨TensorFacts.merge_comm⟩

instance : Std.Associative TensorFacts.merge := ⟨TensorFacts.merge_assoc⟩

/-- The shared facts do not depend on the order. -/
theorem sharedFacts_perm {ts us : List Ty} (h : ts.Perm us) : sharedFacts ts = sharedFacts us := by
  induction h with
  | nil => rfl
  | cons t _ ih => rw [sharedFacts, sharedFacts, ih]
  | swap s t ts =>
    rw [sharedFacts, sharedFacts, sharedFacts, sharedFacts]
    ac_rfl
  | trans _ _ ih ih' => exact ih.trans ih'

theorem sharedFacts_append_singleton (ts : List Ty) (t : Ty) :
    sharedFacts (ts ++ [t]) = Option.merge TensorFacts.merge (sharedFacts ts) t.tensor? := by
  rw [sharedFacts_perm (List.perm_append_singleton t ts), sharedFacts]
  ac_rfl

/-- Where there is no tensor there is a none, unless the list is empty. -/
theorem none_mem_of_sharedFacts_eq_none {ts : List Ty} (hne : ts ≠ [])
    (hts : ∀ t ∈ ts, t.IsTensorOrNone) (h : sharedFacts ts = none) : prim .none ∈ ts := by
  obtain ⟨t, ts, rfl⟩ := List.exists_cons_of_ne_nil hne
  rcases hts t List.mem_cons_self with rfl | ⟨f, rfl⟩
  · exact List.mem_cons_self
  · cases hs : sharedFacts ts <;> simp [sharedFacts, tensor?, hs] at h

/-- What a list of tensors and none comes to: the tensor of the shared facts, optional if there is a
none, and just none if there is no tensor. -/
def summary (ts : List Ty) : Ty :=
  match sharedFacts ts with
  | none => prim .none
  | some m => if prim .none ∈ ts then optional (tensor m) else tensor m

section Summary

variable {ts : List Ty} {m : TensorFacts}

theorem summary_of_no_tensor (h : sharedFacts ts = none) : summary ts = prim .none := by
  rw [summary, h]

theorem summary_of_none_mem (h : sharedFacts ts = some m) (hnone : prim .none ∈ ts) :
    summary ts = optional (tensor m) := by
  rw [summary, h]
  exact if_pos hnone

theorem summary_of_none_not_mem (h : sharedFacts ts = some m) (hnone : prim .none ∉ ts) :
    summary ts = tensor m := by
  rw [summary, h]
  exact if_neg hnone

theorem summary_singleton {t : Ty} (ht : t.IsTensorOrNone) : summary [t] = t := by
  rcases ht with rfl | ⟨f, rfl⟩
  · rfl
  · exact summary_of_none_not_mem rfl (by simp)

end Summary

theorem summary_perm {ts us : List Ty} (h : ts.Perm us) : summary ts = summary us := by
  rw [summary, summary, sharedFacts_perm h]
  simp only [h.mem_iff]

/-! ## One step of the fold -/

/-- The type can follow those before it: after a none and a tensor, a tensor has to be below what
the tensors before it share. -/
def FitsAfter (before : List Ty) (t : Ty) : Prop :=
  prim .none ∈ before → t ≠ prim .none → ∀ m, sharedFacts before = some m → t.isSubtype (tensor m)

/-- None can follow everything. -/
theorem unify_summary_none (ts : List Ty) :
    (summary ts).unify (prim .none) = some (summary (ts ++ [prim .none])) := by
  have hshared : sharedFacts (ts ++ [prim .none]) = sharedFacts ts := by
    rw [sharedFacts_append_singleton]
    exact Option.merge_none_right
  have hmem : prim .none ∈ ts ++ [prim .none] := by simp
  rcases h : sharedFacts ts with _ | m
  · rw [summary_of_no_tensor h, summary_of_no_tensor (hshared.trans h), unify_self]
  · rw [summary_of_none_mem (hshared.trans h) hmem]
    by_cases hnone : prim .none ∈ ts
    · rw [summary_of_none_mem h hnone, unify_optional_none]
    · rw [summary_of_none_not_mem h hnone, unify_tensor_none]

/-- A tensor can follow if no optional was made yet, or else if it is below what is in it. -/
theorem unify_summary_tensor {ts : List Ty} (hne : ts ≠ []) (hts : ∀ t ∈ ts, t.IsTensorOrNone)
    {g : TensorFacts} {u : Ty} :
    (summary ts).unify (tensor g) = some u ↔
      FitsAfter ts (tensor g) ∧ u = summary (ts ++ [tensor g]) := by
  have hshared : sharedFacts (ts ++ [tensor g]) =
      Option.merge TensorFacts.merge (sharedFacts ts) (some g) :=
    sharedFacts_append_singleton ts (tensor g)
  have hmem : prim .none ∈ ts ++ [tensor g] ↔ prim .none ∈ ts := by simp
  rcases h : sharedFacts ts with _ | m
  · -- the first tensor: there was nothing but none so far
    have hnone : prim .none ∈ ts := none_mem_of_sharedFacts_eq_none hne hts h
    have hfits : FitsAfter ts (tensor g) := fun _ _ m hm => by simp [h] at hm
    rw [h, Option.merge_none_left] at hshared
    rw [summary_of_no_tensor h, summary_of_none_mem hshared (hmem.2 hnone), unify_none_tensor]
    simp [hfits, eq_comm]
  rw [h, Option.merge_some_some] at hshared
  by_cases hnone : prim .none ∈ ts
  · have hfits : FitsAfter ts (tensor g) ↔ g ≤ m := by
      simp [FitsAfter, hnone, h, ← le_def]
    rw [summary_of_none_mem h hnone, summary_of_none_mem hshared (hmem.2 hnone),
      unify_optional_tensor, hfits]
    refine and_congr_right fun hle => ?_
    rw [TensorFacts.merge_comm, TensorFacts.le_iff_merge_eq.1 hle]
  · have hfits : FitsAfter ts (tensor g) := fun hmem => absurd hmem hnone
    rw [summary_of_none_not_mem h hnone, summary_of_none_not_mem hshared (hmem.not.2 hnone),
      unify_tensors]
    simp [hfits, eq_comm]

/-- **One step.** The summary of a list unifies with a type that can follow the list, to the summary
of the longer list, and with no other tensor. -/
theorem unify_summary {ts : List Ty} (hne : ts ≠ []) (hts : ∀ t ∈ ts, t.IsTensorOrNone) {t u : Ty}
    (ht : t.IsTensorOrNone) :
    (summary ts).unify t = some u ↔ FitsAfter ts t ∧ u = summary (ts ++ [t]) := by
  rcases ht with rfl | ⟨g, rfl⟩
  · have hfits : FitsAfter ts (prim .none) := fun _ hne => absurd rfl hne
    rw [unify_summary_none]
    simp [hfits, eq_comm]
  · exact unify_summary_tensor hne hts

/-! ## The whole fold -/

/-- Each type in the list can follow those before it. -/
def InFittingOrder (ts : List Ty) : Prop :=
  ∀ before t after, ts = before ++ t :: after → FitsAfter before t

theorem inFittingOrder_append_singleton {ts : List Ty} {t : Ty} :
    InFittingOrder (ts ++ [t]) ↔ InFittingOrder ts ∧ FitsAfter ts t := by
  constructor
  · intro h
    refine ⟨fun before s after hts => ?_, h ts t [] rfl⟩
    exact h before s (after ++ [t]) (by simp [hts])
  · rintro ⟨hts, ht⟩ before s after heq
    rcases List.eq_nil_or_concat after with rfl | ⟨after, last, rfl⟩
    · obtain ⟨rfl, ⟨⟩⟩ := List.append_inj' heq rfl
      exact ht
    · rw [List.concat_eq_append, ← List.cons_append, ← List.append_assoc] at heq
      obtain ⟨rfl, _⟩ := List.append_inj' heq rfl
      exact hts before s after rfl

/-- **The whole run.** A list of tensors and none unifies exactly when its order fits, and then to
its summary. -/
theorem unifyAll_eq_some_iff_summary {ts : List Ty} (hne : ts ≠ [])
    (hts : ∀ t ∈ ts, t.IsTensorOrNone) {u : Ty} :
    unifyAll ts = some u ↔ InFittingOrder ts ∧ u = summary ts := by
  induction ts using List.reverseRecOn generalizing u with
  | nil => exact absurd rfl hne
  | append_singleton ts t ih =>
    have ht : t.IsTensorOrNone := hts t (by simp)
    have hts' : ∀ s ∈ ts, s.IsTensorOrNone := fun s hs => hts s (by simp [hs])
    by_cases hnil : ts = []
    · subst hnil
      have horder : InFittingOrder ([] ++ [t]) :=
        inFittingOrder_append_singleton.2 ⟨by simp [InFittingOrder], by simp [FitsAfter]⟩
      rw [and_iff_right horder, List.nil_append, summary_singleton ht, unifyAll]
      simp [eq_comm]
    · rw [unifyAll_append_singleton hnil, Option.bind_eq_some_iff, inFittingOrder_append_singleton]
      constructor
      · rintro ⟨v, hv, hu⟩
        obtain ⟨horder, rfl⟩ := (ih hnil hts').1 hv
        obtain ⟨hfits, rfl⟩ := (unify_summary hnil hts' ht).1 hu
        exact ⟨⟨horder, hfits⟩, rfl⟩
      · rintro ⟨⟨horder, hfits⟩, rfl⟩
        refine ⟨summary ts, (ih hnil hts').2 ⟨horder, rfl⟩, ?_⟩
        exact (unify_summary hnil hts' ht).2 ⟨hfits, rfl⟩

/-- A list in which the tensors come first is in fitting order. -/
theorem inFittingOrder_of_tensors_first {ts us : List Ty} (hts : prim .none ∉ ts)
    (hus : ∀ u ∈ us, u = prim .none) : InFittingOrder (ts ++ us) := by
  intro before t after heq hnone hne
  rcases List.append_eq_append_iff.1 heq with ⟨rest, rfl, rfl⟩ | ⟨rest, rfl, _⟩
  · exact absurd (hus t (by simp)) hne
  · exact absurd (List.mem_append_left _ hnone) hts

/-- **The order of tensors and none decides whether they unify, but not to what.** A list of them
unifies exactly when each tensor in it that comes after a none and a tensor is a subtype of what the
tensors before it share. Two orders of one list that both unify do so to types that are subtypes of
each other. And each list has an order in which it unifies. -/
theorem unifyAll_tensors_and_none {ts : List Ty} (hne : ts ≠ [])
    (hts : ∀ t ∈ ts, t.IsTensorOrNone) :
    ((unifyAll ts).isSome ↔ InFittingOrder ts) ∧
    (∀ us u v, us.Perm ts → unifyAll ts = some u → unifyAll us = some v →
      u.isSubtype v ∧ v.isSubtype u) ∧
    ∃ us, us.Perm ts ∧ (unifyAll us).isSome := by
  have hperm : ∀ us : List Ty, us.Perm ts → us ≠ [] ∧ ∀ u ∈ us, u.IsTensorOrNone := by
    intro us h
    exact ⟨fun hnil => hne (List.nil_perm.1 (hnil ▸ h)), fun u hu => hts u (h.mem_iff.1 hu)⟩
  have hsome : ∀ us : List Ty, us.Perm ts → ((unifyAll us).isSome ↔ InFittingOrder us) := by
    intro us h
    simp [Option.isSome_iff_exists, unifyAll_eq_some_iff_summary (hperm us h).1 (hperm us h).2]
  refine ⟨hsome ts (.refl ts), fun us u v h hu hv => ?_, ?_⟩
  · obtain ⟨_, rfl⟩ := (unifyAll_eq_some_iff_summary hne hts).1 hu
    obtain ⟨_, rfl⟩ := (unifyAll_eq_some_iff_summary (hperm us h).1 (hperm us h).2).1 hv
    rw [summary_perm h]
    exact ⟨le_refl (summary ts), le_refl (summary ts)⟩
  · have hfirst := List.filter_append_perm (fun t => decide (t ≠ prim .none)) ts
    refine ⟨_, hfirst, (hsome _ hfirst).2 (inFittingOrder_of_tensors_first ?_ ?_)⟩
    · simp
    · simp

/-- Three tensors of different sizes and two times none. The tensor after the first none only
repeats what the ones before it share, and another order gives the same. -/
theorem unifyAll_tensors_and_none_dense :
    let f := TensorFacts.dense .float .cpu [2]
    let g := TensorFacts.dense .float .cpu [3]
    let h := TensorFacts.dense .float .cpu [4]
    let ts := [tensor f, tensor g, prim .none, tensor h, prim .none]
    let us := [tensor h, tensor f, tensor g, prim .none, prim .none]
    let u := optional (tensor (f.merge g))
    (ts ≠ [] ∧ ∀ t ∈ ts, t.IsTensorOrNone) ∧
      (us.Perm ts ∧ unifyAll ts = some u ∧ unifyAll us = some u) ∧
      InFittingOrder ts ∧ u.isSubtype u := by
  intro f g h ts us u
  have hne : ts ≠ [] := by simp [ts]
  have hts : ∀ t ∈ ts, t.IsTensorOrNone := by simp [ts, IsTensorOrNone]
  have hperm : us.Perm ts := by decide +kernel
  have hu : unifyAll ts = some u := by decide +kernel
  have hv : unifyAll us = some u := by decide +kernel
  obtain ⟨hsome, hsame, _⟩ := unifyAll_tensors_and_none hne hts
  have horder : InFittingOrder ts := hsome.1 (by rw [hu]; rfl)
  exact ⟨⟨hne, hts⟩, ⟨hperm, hu, hv⟩, horder, (hsame us u u hperm hu hv).1⟩

/-- A list of two tensors and none unifies with none at its end and does not with none in the
middle, where the second tensor meets an optional that it is not below. -/
theorem unifyAll_fails_with_none_between :
    let f := TensorFacts.dense .float .cpu [2]
    let g := TensorFacts.dense .float .cpu [3]
    [tensor f, prim .none, tensor g].Perm [tensor f, tensor g, prim .none] ∧
      unifyAll [tensor f, tensor g, prim .none] = some (optional (tensor (f.merge g))) ∧
      unifyAll [tensor f, prim .none, tensor g] = none := by
  decide +kernel

end Ty

end TensorTyping
