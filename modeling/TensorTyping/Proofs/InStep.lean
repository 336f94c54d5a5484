import Mathlib.Data.List.Forall2

/-!
# Lists in step

Two lists are in step under a relation when they are equally long and their members at each place are
related, which is `List.Forall₂`. Elements of tuples, parameters and returned types are compared in
this way throughout, so the facts about it that inductions over types ask for stand here: the members
are known to belong to their lists, as an induction hypothesis is given of parts only.
-/

set_option autoImplicit false

namespace TensorTyping

/-- Relations between equally long lists compose when those between their members do. The members of
the list in the middle are known to belong to it, as an induction hypothesis asks for. -/
theorem forall₂_trans_of_mem {α β γ : Type} {R : α → β → Prop} {S : β → γ → Prop}
    {T : α → γ → Prop} {as : List α} {bs : List β} {cs : List γ}
    (h : ∀ a, ∀ b ∈ bs, ∀ c, R a b → S b c → T a c)
    (hab : List.Forall₂ R as bs) (hbc : List.Forall₂ S bs cs) : List.Forall₂ T as cs := by
  induction hab generalizing cs with
  | nil =>
    rw [List.forall₂_nil_left_iff] at hbc
    rw [hbc]
    exact .nil
  | cons hr _ ih =>
    obtain ⟨c, cs, hs, htail, rfl⟩ := List.forall₂_cons_left_iff.1 hbc
    refine .cons (h _ _ List.mem_cons_self c hr hs) (ih ?_ htail)
    exact fun a b hb => h a b (List.mem_cons_of_mem _ hb)

variable {α β : Type} {R : α → β → Prop}

/-- Statements about the members of two lists in step agree when they agree about related members. -/
theorem forall_mem_iff_of_forall₂ {P : α → Prop} {Q : β → Prop} (hPQ : ∀ a b, R a b → (P a ↔ Q b))
    {as : List α} {bs : List β} (h : List.Forall₂ R as bs) : (∀ a ∈ as, P a) ↔ ∀ b ∈ bs, Q b := by
  induction h with
  | nil => simp
  | cons hab _ ih => rw [List.forall_mem_cons, List.forall_mem_cons, hPQ _ _ hab, ih]

theorem exists_mem_left_of_forall₂ {as : List α} {bs : List β} (h : List.Forall₂ R as bs) {b : β}
    (hb : b ∈ bs) : ∃ a ∈ as, R a b := by
  induction h with
  | nil => simp at hb
  | cons hab _ ih =>
    rcases List.mem_cons.1 hb with rfl | hb
    · exact ⟨_, List.mem_cons_self, hab⟩
    · obtain ⟨a, ha, hab⟩ := ih hb
      exact ⟨a, List.mem_cons_of_mem _ ha, hab⟩

/-- Each member of a list can be followed to a related one, so the list can. -/
theorem exists_forall₂_of_forall_exists {as : List α} (h : ∀ a ∈ as, ∃ b, R a b) :
    ∃ bs, List.Forall₂ R as bs := by
  induction as with
  | nil => exact ⟨[], .nil⟩
  | cons a as ih =>
    rw [List.forall_mem_cons] at h
    obtain ⟨b, hab⟩ := h.1
    obtain ⟨bs, hbs⟩ := ih h.2
    exact ⟨b :: bs, .cons hab hbs⟩

/-- Lists in step in both directions, put together. -/
theorem forall₂_of_both {S : β → α → Prop} {T : α → β → Prop} {as : List α} {bs : List β}
    (h : ∀ a ∈ as, ∀ b ∈ bs, R a b → S b a → T a b) (hab : List.Forall₂ R as bs)
    (hba : List.Forall₂ S bs as) : List.Forall₂ T as bs := by
  induction hab with
  | nil => exact .nil
  | cons hr _ ih =>
    obtain ⟨hs, hrest⟩ := List.forall₂_cons.1 hba
    refine .cons (h _ List.mem_cons_self _ List.mem_cons_self hr hs) (ih ?_ hrest)
    exact fun a ha b hb => h a (List.mem_cons_of_mem _ ha) b (List.mem_cons_of_mem _ hb)

theorem forall₂_imp_of_mem {S : α → β → Prop} {as : List α} {bs : List β}
    (h : ∀ a ∈ as, ∀ b ∈ bs, R a b → S a b) (hab : List.Forall₂ R as bs) : List.Forall₂ S as bs :=
  forall₂_of_both (fun a ha b hb hr _ => h a ha b hb hr) hab hab.flip

/-- Lists that differ at one place are in step when what stands there is. -/
theorem forall₂_replace {R : α → α → Prop} (hrefl : ∀ a, R a a) {a b : α} (hab : R a b)
    (before after : List α) : List.Forall₂ R (before ++ a :: after) (before ++ b :: after) :=
  List.rel_append (List.forall₂_same.2 fun c _ => hrefl c)
    (.cons hab (List.forall₂_same.2 fun c _ => hrefl c))

end TensorTyping
