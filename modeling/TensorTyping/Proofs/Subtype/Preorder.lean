import Mathlib.Order.Defs.PartialOrder
import TensorTyping.Proofs.InStep
import TensorTyping.Proofs.Subtype.Rules
import TensorTyping.Proofs.Ty.Parts

/-!
# Subtyping is a preorder

Reflexivity is the equality test in front of the subtype test. Transitivity is an induction, and the
point is which type to run it on. Parameters are compared in the opposite direction, so a chain
`a ≤ b ≤ c` of interfaces asks for chains that start in `c` and end in `a`; the type in the middle is
still a part of `b`. So the induction runs on the type in the middle, and the statement it
carries, `Ty.TransAt b`, leaves both ends free.

One rule does not make the middle type smaller: `b ≤ optional c` may hold because `b ≤ c`. There the
right-hand type loses a layer, and an inner induction on it takes care of the towers.
-/

set_option autoImplicit false

namespace TensorTyping

namespace Ty

/-! ## The step -/

/-- Chains of two with `b` in the middle compose. -/
def TransAt (b : Ty) : Prop := ∀ a c : Ty, a ≤ b → b ≤ c → a ≤ c

/-- Signatures compose when types do at the parts of the signature in the middle. The parameters go
from `k` through `n` to `m`. -/
theorem signature_le_trans_of_parts {m n k : Signature Ty}
    (hparams : ∀ q ∈ n.params, TransAt q.2) (hreturns : ∀ r ∈ n.returns, TransAt r)
    (hmn : m ≤ n) (hnk : n ≤ k) : m ≤ k := by
  rw [Signature.le_iff] at hmn hnk ⊢
  refine ⟨forall₂_trans_of_mem ?_ hmn.1 hnk.1, forall₂_trans_of_mem ?_ hmn.2 hnk.2⟩
  · rintro p q hq r ⟨hpq, hle⟩ ⟨hqr, hle'⟩
    exact ⟨hpq.trans hqr, hparams q hq r.2 p.2 hle' hle⟩
  · intro a b hb c hab hbc
    exact hreturns b hb a c hab hbc

/-- Interfaces compose when types do at the parts of the interface in the middle. A method that the
last one asks for is found in the middle one under its name, and there it is asked for in turn. -/
theorem offers_trans_of_parts {ms ns ks : List (Signature Ty)}
    (hparts : ∀ n ∈ ns, (∀ q ∈ n.params, TransAt q.2) ∧ ∀ r ∈ n.returns, TransAt r)
    (hmn : ∀ n ∈ ns, ∃ m, ms.find? (·.name == n.name) = some m ∧ m ≤ n)
    (hnk : ∀ k ∈ ks, ∃ n, ns.find? (·.name == k.name) = some n ∧ n ≤ k) :
    ∀ k ∈ ks, ∃ m, ms.find? (·.name == k.name) = some m ∧ m ≤ k := by
  intro k hk
  obtain ⟨n, hn, hle⟩ := hnk k hk
  have hmem : n ∈ ns := List.mem_of_find?_eq_some hn
  have hname : n.name = k.name := by simpa using List.find?_some hn
  obtain ⟨m, hm, hle'⟩ := hmn n hmem
  rw [hname] at hm
  exact ⟨m, hm, signature_le_trans_of_parts (hparts n hmem).1 (hparts n hmem).2 hle' hle⟩

/-- The step of the induction: chains compose at `b` when they do at all smaller types. The form of
the right-hand type decides the form of the two others, but for the optionals. -/
theorem transAt_of_smaller (b : Ty) (ih : ∀ s, sizeOf s < sizeOf b → TransAt s) : TransAt b := by
  have ihc : ∀ s ∈ b.children, TransAt s := fun s hs => ih s (sizeOf_lt_of_mem_children hs)
  intro a c hab hbc
  induction c with
  | prim p =>
    rcases le_prim_iff.1 hbc with rfl | rfl | ⟨rfl, rfl | rfl⟩
    · exact hab
    · exact le_any a
    · have ha : a = prim .int := by simpa [le_prim_iff] using hab
      rwa [ha]
    · have ha : a = prim .float := by simpa [le_prim_iff] using hab
      rwa [ha]
  | tensor h =>
    obtain ⟨g, rfl, hgh⟩ := le_tensor_iff.1 hbc
    obtain ⟨f, rfl, hfg⟩ := le_tensor_iff.1 hab
    exact le_tensor_iff.2 ⟨f, rfl, hfg.trans hgh⟩
  | list c₁ _ =>
    obtain ⟨b₁, rfl, hbc₁⟩ := le_list_iff.1 hbc
    obtain ⟨a₁, rfl, hab₁⟩ := le_list_iff.1 hab
    have hac₁ : a₁ ≤ c₁ := ihc b₁ (by simp [children]) a₁ c₁ hab₁ hbc₁
    exact le_list_iff.2 ⟨a₁, rfl, hac₁⟩
  | optional c₁ ihopt =>
    rcases le_optional_iff.1 hbc with rfl | hbc₁ | ⟨b₁, rfl, hbc₁⟩
    · rw [le_none_iff.1 hab]
      exact none_le_optional c₁
    · -- the middle type stays as it is and the right-hand one loses a layer
      exact le_optional_of_le (ihopt hbc₁)
    · have hb₁ : TransAt b₁ := ihc b₁ (by simp [children])
      rcases le_optional_iff.1 hab with rfl | hab₁ | ⟨a₁, rfl, hab₁⟩
      · exact none_le_optional c₁
      · exact le_optional_of_le (hb₁ a c₁ hab₁ hbc₁)
      · exact optional_le_optional (hb₁ a₁ c₁ hab₁ hbc₁)
  | future c₁ _ =>
    obtain ⟨b₁, rfl, hbc₁⟩ := le_future_iff.1 hbc
    obtain ⟨a₁, rfl, hab₁⟩ := le_future_iff.1 hab
    have hac₁ : a₁ ≤ c₁ := ihc b₁ (by simp [children]) a₁ c₁ hab₁ hbc₁
    exact le_future_iff.2 ⟨a₁, rfl, hac₁⟩
  | dict k v _ _ =>
    obtain ⟨k₁, v₁, rfl, hk, hv⟩ := le_dict_iff.1 hbc
    obtain ⟨k₀, v₀, rfl, hk₀, hv₀⟩ := le_dict_iff.1 hab
    have hkeys : k₀ ≤ k := ihc k₁ (by simp [children]) k₀ k hk₀ hk
    have hvalues : v₀ ≤ v := ihc v₁ (by simp [children]) v₀ v hv₀ hv
    exact le_dict_iff.2 ⟨k₀, v₀, rfl, hkeys, hvalues⟩
  | tuple u cs _ =>
    obtain ⟨t, bs, rfl, htu, hbcs⟩ := le_tuple_iff.1 hbc
    obtain ⟨s, as, rfl, hst, habs⟩ := le_tuple_iff.1 hab
    have hnames : TupleNames.canStandFor s u := TupleNames.canStandFor_trans hst htu
    have hacs : List.Forall₂ (· ≤ ·) as cs :=
      forall₂_trans_of_mem (fun a₁ b₁ hb₁ c₁ => ihc b₁ hb₁ a₁ c₁) habs hbcs
    exact le_tuple_iff.2 ⟨s, as, rfl, hnames, hacs⟩
  | function x =>
    rwa [← le_function_iff.1 hbc]
  | interface z ks _ =>
    rcases le_interface_iff.1 hbc with rfl | ⟨y, ns, rfl, hnk⟩
    · exact hab
    rcases le_interface_iff.1 hab with rfl | ⟨x, ms, rfl, hmn⟩
    · exact hbc
    have hparts : ∀ n ∈ ns, (∀ q ∈ n.params, TransAt q.2) ∧ ∀ r ∈ n.returns, TransAt r := by
      intro n hn
      refine ⟨fun q hq => ?_, fun r hr => ?_⟩
      · exact ih q.2 (sizeOf_lt_of_mem_params hn hq)
      · exact ih r (sizeOf_lt_of_mem_returns hn hr)
    exact le_interface_iff.2 (.inr ⟨x, ms, rfl, offers_trans_of_parts hparts hmn hnk⟩)
  | var x =>
    rwa [← le_var_iff.1 hbc]

/-! ## The preorder -/

theorem transAt (b : Ty) : TransAt b := ind_size transAt_of_smaller b

instance : Preorder Ty where
  le_refl := Ty.le_refl
  le_trans a b c := transAt b a c

end Ty

namespace Signature

instance : Preorder (Signature Ty) where
  le_refl m := by
    rw [le_iff]
    exact ⟨List.forall₂_same.2 fun q _ => ⟨rfl, le_refl q.2⟩,
      List.forall₂_same.2 fun r _ => le_refl r⟩
  le_trans _ n _ := Ty.signature_le_trans_of_parts (fun q _ => Ty.transAt q.2)
    fun r _ => Ty.transAt r

end Signature

/-- **Subtyping is a preorder**, on all types and on all method signatures: both tests accept equal
arguments, and what they accept in a row of two they accept from end to end. -/
theorem subtyping_preorder :
    ((∀ a : Ty, a.isSubtype a) ∧
      ∀ a b c : Ty, a.isSubtype b → b.isSubtype c → a.isSubtype c) ∧
    ((∀ m : Signature Ty, m.isSubtype m) ∧
      ∀ m n k : Signature Ty, m.isSubtype n → n.isSubtype k → m.isSubtype k) := by
  refine ⟨⟨fun a => ?_, fun a b c hab hbc => ?_⟩, fun m => ?_, fun m n k hmn hnk => ?_⟩
  · exact le_refl a
  · exact le_trans (a := a) hab hbc
  · exact le_refl m
  · exact le_trans (a := m) hmn hnk

/-- A chain of interfaces whose parameters go up while the returned types go down, and in which the
last step puts a layer of optional on a returned type. -/
theorem subtyping_preorder_interfaces :
    let a := Ty.interface "A"
      [⟨"f", [("x", .optional (.prim .number))], [.prim .int]⟩, ⟨"g", [], []⟩]
    let b := Ty.interface "B" [⟨"f", [("x", .prim .number)], [.prim .number]⟩]
    let c := Ty.interface "C" [⟨"f", [("x", .prim .int)], [.optional (.prim .number)]⟩]
    a.isSubtype b ∧ b.isSubtype c ∧ a.isSubtype c := by
  intro a b c
  have hab : a.isSubtype b := by decide +kernel
  have hbc : b.isSubtype c := by decide +kernel
  exact ⟨hab, hbc, subtyping_preorder.1.2 a b c hab hbc⟩

end TensorTyping
