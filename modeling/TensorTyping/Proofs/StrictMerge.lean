import TensorTyping.Proofs.Ty.Member

/-!
# The strict merge

A merge under the strict policy refuses shapes whose ranks are known and differ. A tensor has two
shapes, so there are two reasons for which the merge of two descriptions can be refused, and when
both hold, the sizes are named.

The strict merge does not test the merge that the lenient one makes. It merges both shapes anew,
under the policy, and puts them in the place of those of the plain merge. That this is the plain
merge again is `TensorFacts.eq_merge_of_mergeUnder`: the policy decides whether there is an answer
and never which one. What is left to say is when there is none, and `Shape.RanksDiffer` says it
without the merge.
-/

set_option autoImplicit false

namespace TensorTyping

/-- A computation that can have one result only has it whenever it does not fail. -/
theorem eq_ok_iff_of_unique {ε α : Type} {m : Except ε α} {x y : α}
    (hunique : ∀ z, m = .ok z → z = x) : m = .ok y ↔ y = x ∧ ¬ ∃ e, m = .error e := by
  constructor
  · intro h
    refine ⟨hunique y h, ?_⟩
    rintro ⟨e, he⟩
    rw [he] at h
    cases h
  · rintro ⟨rfl, hnone⟩
    rcases m with e | z
    · exact absurd ⟨e, rfl⟩ hnone
    · rw [hunique z rfl]

/-! ## Shapes -/

namespace Shape

variable {a b : Shape}

/-- Both ranks are known, they differ, and `e` records the rank of `a` and then that of `b`. -/
@[mk_iff]
structure RanksDiffer (a b : Shape) (e : RankMismatch) : Prop where
  /-- The rank of `a`. -/
  left : a.rank = some e.left
  /-- The rank of `b`. -/
  right : b.rank = some e.right
  /-- The two are not the same. -/
  ne : e.left ≠ e.right

theorem mergeUnder_lenient (a b : Shape) : mergeUnder .lenient a b = .ok (a.merge b) := by
  unfold mergeUnder
  rcases a.rank with _ | m <;> rcases b.rank with _ | n <;> rfl

/-- Under the strict policy shapes are refused when their ranks differ, and the refusal carries the
ranks. -/
theorem mergeUnder_strict_eq_error_iff {e : RankMismatch} :
    mergeUnder .strict a b = .error e ↔ a.RanksDiffer b e := by
  obtain ⟨left, right⟩ := e
  rw [ranksDiffer_iff]
  unfold mergeUnder
  rcases a.rank with _ | m
  · simp
  · rcases b.rank with _ | n
    · simp
    · by_cases hmn : m = n
      · simp only [if_pos hmn, reduceCtorEq, Option.some.injEq, false_iff]
        omega
      · simp only [if_neg hmn, Except.error.injEq, RankMismatch.mk.injEq, Option.some.injEq]
        omega

/-- Whatever the policy, shapes that are not refused are merged as ever. -/
theorem eq_merge_of_mergeUnder {policy : MergePolicy} {s : Shape}
    (h : mergeUnder policy a b = .ok s) : s = a.merge b := by
  unfold mergeUnder at h
  split at h
  · split at h
    · exact (Except.ok.inj h).symm
    · cases h
  · exact (Except.ok.inj h).symm

/-- Shapes whose ranks do not differ are merged under the strict policy too. -/
theorem mergeUnder_strict_eq_ok_iff {s : Shape} :
    mergeUnder .strict a b = .ok s ↔ s = a.merge b ∧ ¬ ∃ e, a.RanksDiffer b e := by
  rw [eq_ok_iff_of_unique fun _ => eq_merge_of_mergeUnder]
  simp only [mergeUnder_strict_eq_error_iff]

end Shape

/-! ## Tensor facts -/

namespace TensorFacts

variable {a b : TensorFacts}

/-- The shapes that a policy lets through are those of the plain merge, so putting them in their
place changes nothing. -/
theorem eq_merge_of_mergeUnder {policy : MergePolicy} {t : TensorFacts}
    (h : mergeUnder policy a b = .ok t) : t = a.merge b := by
  unfold mergeUnder at h
  obtain ⟨sizes, hsizes, h⟩ := bind_eq_ok_iff.1 h
  obtain ⟨strides, hstrides, h⟩ := bind_eq_ok_iff.1 h
  rw [Shape.eq_merge_of_mergeUnder hsizes, Shape.eq_merge_of_mergeUnder hstrides] at h
  exact (Except.ok.inj h).symm

/-- A refusal is about the sizes, or about the strides of tensors whose sizes are not refused. -/
theorem mergeUnder_strict_eq_error_iff {e : RankMismatch} :
    mergeUnder .strict a b = .error e ↔
      a.sizes.RanksDiffer b.sizes e ∨
        (¬ ∃ e', a.sizes.RanksDiffer b.sizes e') ∧ a.strides.RanksDiffer b.strides e := by
  unfold mergeUnder
  rw [bind_eq_error_iff, Shape.mergeUnder_strict_eq_error_iff]
  refine or_congr_right ?_
  constructor
  · rintro ⟨sizes, hsizes, h⟩
    have hranks := (Shape.mergeUnder_strict_eq_ok_iff.1 hsizes).2
    rcases bind_eq_error_iff.1 h with hstrides | ⟨strides, _, h⟩
    · exact ⟨hranks, Shape.mergeUnder_strict_eq_error_iff.1 hstrides⟩
    · cases h
  · rintro ⟨hranks, hstrides⟩
    refine ⟨a.sizes.merge b.sizes, Shape.mergeUnder_strict_eq_ok_iff.2 ⟨rfl, hranks⟩, ?_⟩
    exact bind_eq_error_iff.2 (.inl (Shape.mergeUnder_strict_eq_error_iff.2 hstrides))

/-- **The strict merge only filters the lenient one.** The lenient merge is the plain one. The
strict merge is refused exactly when the ranks of the sizes are known and differ, or those of the
strides; the refusal carries the ranks of the sizes if those differ, and else those of the strides.
And it gives the plain merge whenever neither is the case. -/
theorem strict_merge_filters_lenient (a b : TensorFacts) :
    mergeUnder .lenient a b = .ok (a.merge b) ∧
    ((∃ e, mergeUnder .strict a b = .error e) ↔
      (∃ e, a.sizes.RanksDiffer b.sizes e) ∨ ∃ e, a.strides.RanksDiffer b.strides e) ∧
    (∀ e, mergeUnder .strict a b = .error e ↔
      a.sizes.RanksDiffer b.sizes e ∨
        (¬ ∃ e', a.sizes.RanksDiffer b.sizes e') ∧ a.strides.RanksDiffer b.strides e) ∧
    ∀ t, mergeUnder .strict a b = .ok t ↔
      t = a.merge b ∧
        ¬ ((∃ e, a.sizes.RanksDiffer b.sizes e) ∨ ∃ e, a.strides.RanksDiffer b.strides e) := by
  have herror : (∃ e, mergeUnder .strict a b = .error e) ↔
      (∃ e, a.sizes.RanksDiffer b.sizes e) ∨ ∃ e, a.strides.RanksDiffer b.strides e := by
    simp only [mergeUnder_strict_eq_error_iff, exists_or, exists_and_left]
    tauto
  refine ⟨?_, herror, fun e => mergeUnder_strict_eq_error_iff, fun t => ?_⟩
  · unfold mergeUnder
    rw [Shape.mergeUnder_lenient, Shape.mergeUnder_lenient]
    rfl
  · rw [← herror]
    exact eq_ok_iff_of_unique fun _ => eq_merge_of_mergeUnder

/-- One rank of the sizes is unknown, so the merge fails over the strides. -/
example :
    mergeUnder .strict { unknown with strides := .ofRank 2 }
      { unknown with sizes := .ofRank 3, strides := .ofRank 3 } = .error ⟨2, 3⟩ := rfl

end TensorFacts

end TensorTyping
