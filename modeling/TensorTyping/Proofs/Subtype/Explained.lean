import TensorTyping.Proofs.Subtype.Optional
import TensorTyping.Proofs.Subtype.Preorder
import TensorTyping.Subtype.Explain

/-!
# Explanations agree with the subtype test

There are two ways to ask whether a type is a subtype of another: the test, and the explained test
that writes its objections to a log. They give the same answer, the log that is passed in plays no
role in it, and a positive answer leaves the log as it was.

The last point is the one that needs an argument. Where two optionals are compared, the left-hand
one is first tried as a whole against the element on the right, and this may fail before the
elements are compared and fit. An objection from the failed attempt would then stay in the log of a
success. What rules it out is that objections come from comparing tuples or interfaces only, and
these are found inside all layers of optional. So it does not depend on the layers whether there is
anything to object to: if the types inside fit (`Ty.FitsInside`), the log stays empty, whatever
becomes of the attempts. This is the statement that the induction carries. It is weaker than being a
subtype (`Ty.FitsInside.of_le`), and it does not change when a layer is taken off. -/

set_option autoImplicit false

namespace TensorTyping

/-! ## Answers with a log -/

/-- The computation gives one answer and appends one text to the log, whatever the log is, and the
text is empty when `silent` holds. -/
def Logged.Answers (m : Logged Bool) (answer : Bool) (silent : Prop) : Prop :=
  ∃ text, (∀ log, m.run log = (answer, log ++ text)) ∧ (silent → text = "")

namespace Logged

variable {m k l : Logged Bool} {p q : Bool} {silent : Prop}

theorem answers_pure (answer : Bool) (silent : Prop) :
    Logged.Answers (return answer) answer silent :=
  ⟨"", fun log => by rw [String.append_empty]; rfl, fun _ => rfl⟩

theorem answers_reject (o : Objection) (h : ¬ silent) : o.reject.Answers false silent :=
  ⟨o.text, fun _ => rfl, fun hs => absurd hs h⟩

theorem Answers.imp {silent' : Prop} (h : m.Answers p silent') (hs : silent → silent') :
    m.Answers p silent := by
  obtain ⟨text, hrun, htext⟩ := h
  exact ⟨text, hrun, fun h => htext (hs h)⟩

/-- What follows a first answer may take it into account. The texts of the two add up. -/
theorem Answers.ite (hm : m.Answers p silent) (hk : p = true → k.Answers q silent)
    (hl : p = false → l.Answers q silent) :
    Logged.Answers (do if ← m then k else l) q silent := by
  obtain ⟨s, hs, hs'⟩ := hm
  have hnext : (if p then k else l).Answers q silent := by
    cases p with
    | true => exact hk rfl
    | false => exact hl rfl
  obtain ⟨t, ht, ht'⟩ := hnext
  refine ⟨s ++ t, fun log => ?_, fun h => ?_⟩
  · rw [StateT.run_bind, hs, ← String.append_assoc]
    exact ht (log ++ s)
  · rw [hs' h, ht' h, String.append_empty]

theorem Answers.and (hm : m.Answers p silent) (hk : p = true → k.Answers q silent) :
    Logged.Answers (do if ← m then k else return false) (p && q) silent := by
  refine hm.ite (fun h => ?_) fun h => ?_
  · rw [h, Bool.true_and]
    exact hk h
  · rw [h, Bool.false_and]
    exact answers_pure false silent

theorem Answers.or (hm : m.Answers p silent) (hl : p = false → l.Answers q silent) :
    Logged.Answers (do if ← m then return true else l) (p || q) silent := by
  refine hm.ite (fun h => ?_) fun h => ?_
  · rw [h, Bool.true_or]
    exact answers_pure true silent
  · rw [h, Bool.false_or]
    exact hl h

end Logged

open Logged

namespace Ty

/-! ## Inside all layers -/

/-- Inside all layers of optional, the left-hand type is none or a subtype of the right-hand one. -/
def FitsInside (a b : Ty) : Prop := a.bare = prim .none ∨ a.bare ≤ b.bare

/-- Subtypes fit inside, whatever the layers are. -/
theorem FitsInside.of_le {a b : Ty} (h : a ≤ b) : a.FitsInside b := by
  rcases le_iff_layers.1 h with hany | ⟨hnone, _⟩ | ⟨_, hle⟩
  · exact .inr (hany ▸ le_any a.bare)
  · exact .inl hnone
  · exact .inr hle

/-- Between types without layers nothing but subtypes fits inside, none apart. -/
theorem FitsInside.le {a b : Ty} (h : a.FitsInside b) (hnone : a ≠ prim .none) (ha : a.bare = a)
    (hb : b.bare = b) : a ≤ b := by
  rw [FitsInside, ha, hb] at h
  exact h.resolve_left hnone

/-! ## Parts

Each helper of the explained test answers as its counterpart of the test does, and it is silent when
the answer is yes, provided that the comparisons of types it makes are as stated. -/

/-- The explained test answers as the test does, and it is silent when the types fit inside. -/
def Explained (a b : Ty) : Prop := (explainSubtype a b).Answers (a.isSubtype b) (a.FitsInside b)

theorem Explained.imp_le {a b : Ty} {silent : Prop} (h : a.Explained b)
    (hs : silent → a ≤ b) : (explainSubtype a b).Answers (a.isSubtype b) silent :=
  h.imp fun h => FitsInside.of_le (hs h)

theorem explainSubtypes_answers {as bs : List Ty} (h : ∀ a ∈ as, ∀ b ∈ bs, a.Explained b) :
    (explainSubtypes as bs).Answers (areSubtypes as bs) (areSubtypes as bs) := by
  induction as generalizing bs with
  | nil =>
    rw [explainSubtypes.eq_def, areSubtypes.eq_def]
    cases bs with
    | nil => exact answers_pure true _
    | cons b bs => exact answers_pure false _
  | cons a as ih =>
    rw [explainSubtypes.eq_def, areSubtypes.eq_def]
    cases bs with
    | nil => exact answers_pure false _
    | cons b bs =>
      have hab : a.Explained b := h a List.mem_cons_self b List.mem_cons_self
      have hrest : (explainSubtypes as bs).Answers (areSubtypes as bs) (areSubtypes as bs) :=
        ih fun a ha b hb => h a (List.mem_cons_of_mem _ ha) b (List.mem_cons_of_mem _ hb)
      simp only [Bool.and_eq_true]
      exact (hab.imp_le And.left).and fun _ => hrest.imp And.right

theorem explainAccepts_answers (f : String) {ps qs : List (String × Ty)}
    (h : ∀ p ∈ ps, ∀ q ∈ qs, q.2.Explained p.2) :
    (explainAccepts f ps qs).Answers (accepts ps qs) (accepts ps qs) := by
  induction ps generalizing qs with
  | nil =>
    rw [explainAccepts.eq_def, accepts.eq_def]
    cases qs with
    | nil => exact answers_pure true _
    | cons q qs => exact answers_pure false _
  | cons p ps ih =>
    obtain ⟨x, a⟩ := p
    rw [explainAccepts.eq_def, accepts.eq_def]
    cases qs with
    | nil => exact answers_pure false _
    | cons q qs =>
      obtain ⟨y, b⟩ := q
      have hba : b.Explained a := h (x, a) List.mem_cons_self (y, b) List.mem_cons_self
      have hrest : (explainAccepts f ps qs).Answers (accepts ps qs) (accepts ps qs) :=
        ih fun p hp q hq => h p (List.mem_cons_of_mem _ hp) q (List.mem_cons_of_mem _ hq)
      simp only
      by_cases hxy : x = y
      · simp only [hxy, if_true, BEq.rfl, Bool.true_and, Bool.and_eq_true]
        exact (hba.imp_le And.left).and fun _ => hrest.imp And.right
      · have hne : (x == y) = false := by simpa using hxy
        rw [if_neg hxy, hne, Bool.false_and, Bool.false_and]
        exact answers_reject _ (by simp)

end Ty

/-- The comparisons that are made for two signatures are as stated: parameters the other way round,
and returned types. -/
def Signature.PartsExplained (m n : Signature Ty) : Prop :=
  (∀ p ∈ m.params, ∀ q ∈ n.params, q.2.Explained p.2) ∧
    ∀ r ∈ m.returns, ∀ s ∈ n.returns, r.Explained s

theorem Signature.explainSubtype_answers {m n : Signature Ty} (h : m.PartsExplained n) :
    (m.explainSubtype n).Answers (m.isSubtype n) (m.isSubtype n) := by
  obtain ⟨x, ps, rs⟩ := m
  obtain ⟨y, qs, ss⟩ := n
  rw [explainSubtype.eq_def, isSubtype.eq_def]
  simp only [Bool.and_eq_true]
  by_cases hps : ps.length = qs.length
  · rw [if_pos hps]
    refine ((Ty.explainAccepts_answers x h.1).imp And.left).and fun _ => ?_
    by_cases hrs : rs.length = ss.length
    · rw [if_pos hrs]
      exact (Ty.explainSubtypes_answers h.2).imp And.right
    · have hno : Ty.areSubtypes rs ss = false := by
        rw [← Bool.not_eq_true, Ty.areSubtypes_iff]
        exact fun h => hrs h.length_eq
      rw [if_neg hrs, hno]
      exact answers_pure false _
  · have hno : Ty.accepts ps qs = false := by
      rw [← Bool.not_eq_true, Ty.accepts_iff]
      exact fun h => hps h.length_eq
    rw [if_neg hps, hno, Bool.false_and]
    exact answers_reject _ (by simp)

namespace Ty

theorem explainOffers_answers (x y : String) {ms : List (Signature Ty)} {n : Signature Ty}
    (h : ∀ m ∈ ms, m.PartsExplained n) :
    (explainOffers x y ms n).Answers (offers ms n) (offers ms n) := by
  induction ms with
  | nil =>
    rw [explainOffers, offers]
    exact answers_reject _ (by simp)
  | cons m ms ih =>
    rw [explainOffers, offers]
    by_cases hname : m.name = n.name
    · rw [if_pos hname, if_pos hname]
      have hm := Signature.explainSubtype_answers (h m List.mem_cons_self)
      refine hm.ite (fun hyes => ?_) fun hno => ?_
      · rw [hyes]
        exact answers_pure true _
      · rw [hno]
        exact answers_reject _ (by simp)
    · rw [if_neg hname, if_neg hname]
      exact ih fun m hm => h m (List.mem_cons_of_mem _ hm)

theorem explainOffersAll_answers (x y : String) {ms ns : List (Signature Ty)}
    (h : ∀ m ∈ ms, ∀ n ∈ ns, m.PartsExplained n) :
    (explainOffersAll x y ms ns).Answers (offersAll ms ns) (offersAll ms ns) := by
  induction ns with
  | nil =>
    rw [explainOffersAll, offersAll]
    exact answers_pure true _
  | cons n ns ih =>
    rw [explainOffersAll, offersAll, Bool.and_eq_true]
    have hn := explainOffers_answers x y fun m hm => h m hm n List.mem_cons_self
    refine (hn.imp And.left).and fun _ => Answers.imp (ih ?_) And.right
    exact fun m hm n hn => h m hm n (List.mem_cons_of_mem _ hn)

/-- Two tuples are compared by length, then by names and then element by element. -/
theorem explained_tuples {s t : Option TupleNames} {as bs : List Ty}
    (hne : tuple s as ≠ tuple t bs) (h : ∀ a ∈ as, ∀ b ∈ bs, a.Explained b) :
    (tuple s as).Explained (tuple t bs) := by
  have hfits : (tuple s as).FitsInside (tuple t bs) →
      TupleNames.canStandFor s t ∧ List.Forall₂ (· ≤ ·) as bs := by
    intro hf
    obtain ⟨_, _, ⟨⟩, hnames, has⟩ := le_tuple_iff.1 (hf.le (by simp) rfl rfl)
    exact ⟨hnames, has⟩
  have helems : (explainSubtypes as bs).Answers (areSubtypes as bs)
      ((tuple s as).FitsInside (tuple t bs)) :=
    (explainSubtypes_answers h).imp fun hf => areSubtypes_iff.2 (hfits hf).2
  rw [Explained, explainSubtype.eq_def, if_neg hne, isSubtype.eq_def, beq_eq_false_iff_ne.2 hne,
    Bool.false_or]
  simp only
  by_cases hlen : as.length = bs.length
  · rw [if_pos hlen]
    rcases t with _ | t
    · rw [TupleNames.canStandFor_none, Bool.true_and]
      exact helems
    rcases s with _ | s
    · exact answers_reject _ fun hf => by simpa [TupleNames.canStandFor] using (hfits hf).1
    · by_cases hfields : s.fields = t.fields
      · simp only [TupleNames.canStandFor, hfields, if_true, BEq.rfl, Bool.true_and]
        exact helems
      · have hno : TupleNames.canStandFor (some s) (some t) = false := by
          simpa [TupleNames.canStandFor] using hfields
        simp only [hno, hfields, if_false, Bool.false_and]
        exact answers_reject _ fun hf => by simpa [hno] using (hfits hf).1
  · have hno : areSubtypes as bs = false := by
      rw [← Bool.not_eq_true, areSubtypes_iff]
      exact fun h => hlen h.length_eq
    rw [if_neg hlen, hno, Bool.and_false]
    exact answers_reject _ fun hf => hlen (hfits hf).2.length_eq

/-! ## The induction -/

/-- The step: two types are explained when all pairs of smaller types are, the sizes of the two
taken together. -/
theorem explained_of_smaller (a b : Ty)
    (ih : ∀ s t : Ty, sizeOf s + sizeOf t < sizeOf a + sizeOf b → s.Explained t) :
    a.Explained b := by
  by_cases hab : a = b
  · rw [Explained, explainSubtype.eq_def, if_pos hab, isSubtype.eq_def, hab, BEq.rfl, Bool.true_or]
    exact answers_pure true _
  have ihright : ∀ t ∈ b.children, a.Explained t := by
    intro t ht
    exact ih a t (Nat.add_lt_add_left (sizeOf_lt_of_mem_children ht) _)
  have ihboth : ∀ s ∈ a.children, ∀ t ∈ b.children, s.Explained t := by
    intro s hs t ht
    exact ih s t (Nat.add_lt_add (sizeOf_lt_of_mem_children hs) (sizeOf_lt_of_mem_children ht))
  by_cases htuples : ∃ s as t bs, a = tuple s as ∧ b = tuple t bs
  · obtain ⟨s, as, t, bs, rfl, rfl⟩ := htuples
    exact explained_tuples hab ihboth
  rw [Explained, explainSubtype.eq_def, if_neg hab, isSubtype.eq_def, beq_eq_false_iff_ne.2 hab,
    Bool.false_or]
  cases b with
  | prim q =>
    cases a with
    | prim p => cases q <;> cases p <;> exact answers_pure _ _
    | _ => cases q <;> exact answers_pure _ _
  | tensor g => cases a <;> exact answers_pure _ _
  | list b =>
    cases a with
    | list a =>
      refine (ihboth a (by simp [children]) b (by simp [children])).imp_le fun hf => ?_
      simpa using hf.le (by simp) rfl rfl
    | _ => exact answers_pure _ _
  | optional b =>
    have hb : b ∈ (optional b).children := by simp [children]
    cases a with
    | prim p =>
      cases p with
      | none => exact answers_pure _ _
      | _ => exact ihright b hb
    | optional a =>
      have hwhole : (optional a).Explained b := ihright b hb
      have hinside : a.Explained b := ihboth a (by simp [children]) b hb
      exact Answers.or hwhole fun _ => hinside
    | _ => exact ihright b hb
  | future b =>
    cases a with
    | future a =>
      refine (ihboth a (by simp [children]) b (by simp [children])).imp_le fun hf => ?_
      simpa using hf.le (by simp) rfl rfl
    | _ => exact answers_pure _ _
  | dict k' v' =>
    cases a with
    | dict k v =>
      have hk : k.Explained k' := ihboth k (by simp [children]) k' (by simp [children])
      have hv : v.Explained v' := ihboth v (by simp [children]) v' (by simp [children])
      have hfits : (dict k v).FitsInside (dict k' v') → k ≤ k' ∧ v ≤ v' := by
        intro hf
        simpa using hf.le (by simp) rfl rfl
      exact (hk.imp_le fun hf => (hfits hf).1).and fun _ => hv.imp_le fun hf => (hfits hf).2
    | _ => exact answers_pure _ _
  | tuple t bs =>
    cases a with
    | tuple s as => exact absurd ⟨s, as, t, bs, rfl, rfl⟩ htuples
    | _ => exact answers_pure _ _
  | function y => cases a <;> exact answers_pure _ _
  | interface y ns =>
    cases a with
    | interface x ms =>
      have hparts : ∀ m ∈ ms, ∀ n ∈ ns, m.PartsExplained n := by
        intro m hm n hn
        refine ⟨fun p hp q hq => ih q.2 p.2 ?_, fun r hr s hs => ih r s ?_⟩
        · -- parameters change sides, so the two sizes are added up crosswise
          rw [Nat.add_comm]
          exact Nat.add_lt_add (sizeOf_lt_of_mem_params hm hp) (sizeOf_lt_of_mem_params hn hq)
        · exact Nat.add_lt_add (sizeOf_lt_of_mem_returns hm hr) (sizeOf_lt_of_mem_returns hn hs)
      refine (explainOffersAll_answers x y hparts).imp fun hf => offersAll_iff.2 ?_
      rcases le_interface_iff.1 (hf.le (by simp) rfl rfl) with heq | ⟨_, _, ⟨⟩, hoffers⟩
      · exact absurd heq hab
      · exact hoffers
    | _ => exact answers_pure _ _
  | var y => cases a <;> exact answers_pure _ _

/-- **The explained test answers as the test does**, and it objects to nothing that fits inside. -/
theorem explained (a b : Ty) : a.Explained b := by
  induction hn : sizeOf a + sizeOf b using Nat.strong_induction_on generalizing a b with
  | _ n ih =>
    refine explained_of_smaller a b fun s t hlt => ?_
    exact ih (sizeOf s + sizeOf t) (hn ▸ hlt) s t rfl

/-! ## Explanations -/

/-- **Explanations never change or contradict the verdict.** The explained test gives the answer of
the test for every log, and what it appends to the log depends on the two types only and is empty
when the answer is yes. So there is an explanation why a type is not a subtype exactly when it is
not, and the explanation is never empty. -/
theorem explanations_agree (a b : Ty) :
    (∃ text, (∀ log, (a.explainSubtype b).run log = (a.isSubtype b, log ++ text)) ∧
      (a.isSubtype b → text = "")) ∧
    (a.whyNotSubtype? b = none ↔ a.isSubtype b) ∧
    ∀ why, a.whyNotSubtype? b = some why → why ≠ "" := by
  obtain ⟨text, hrun, hsilent⟩ := explained a b
  refine ⟨⟨text, hrun, fun h => hsilent (.of_le h)⟩, ?_⟩
  rw [whyNotSubtype?, hrun]
  cases a.isSubtype b with
  | true => simp
  | false =>
    -- a log that says nothing is replaced by a text of its own
    by_cases htext : text = ""
    · simp [htext]
    · simp [htext]

/-- Optionals of tuples, two layers deep. The left-hand type does not fit under the first layer on
the right, and yet nothing is left of that attempt in the log once the tuples are found to fit.
Tuples of different lengths do not, and then there is something to say. -/
theorem explanations_agree_layers :
    let a := optional (optional (tuple none [prim .int, prim .float]))
    let b := optional (tuple none [prim .number, prim .number])
    let c := optional (tuple none [prim .number])
    (¬ a.isSubtype b ∧ a.isSubtype (optional b) ∧
      (a.explainSubtype (optional b)).run "log" = (true, "log")) ∧
    ¬ a.isSubtype (optional c) ∧ ∃ why, a.whyNotSubtype? (optional c) = some why ∧ why ≠ "" := by
  intro a b c
  have hfirst : ¬ a.isSubtype b := by decide +kernel
  have hab : a.isSubtype (optional b) := by decide +kernel
  have hac : ¬ a.isSubtype (optional c) := by decide +kernel
  obtain ⟨⟨text, hrun, hsilent⟩, _⟩ := explanations_agree a (optional b)
  obtain ⟨_, hnone, hwhy⟩ := explanations_agree a (optional c)
  have hlog : (a.explainSubtype (optional b)).run "log" = (true, "log") := by
    rw [hrun, hab, hsilent hab, String.append_empty]
  refine ⟨⟨hfirst, hab, hlog⟩, hac, ?_⟩
  obtain ⟨why, h⟩ := Option.ne_none_iff_exists'.1 fun h => hac (hnone.1 h)
  exact ⟨why, h, hwhy why h⟩

end Ty

end TensorTyping
