import TensorTyping.Proofs.Generic.Instance
import TensorTyping.Proofs.Subtype.Preorder

/-!
# Instantiation preserves subtyping

A variable is below itself and nothing else but what every type is below, and it is above nothing but
itself. So wherever a comparison of two types meets a variable on the right, it meets the same one on
the left, and under any bindings the two become the same type. What that type looks like does not
matter: it may be the type of all values, none, or an optional, and its place in the comparison may
then be dealt with by other rules, but equal types compare under all of them.

The induction is on the larger type, whose form picks the rule. It goes through the rules of subtyping
once and rebuilds each comparison from the instances of the parts.
-/

set_option autoImplicit false

namespace TensorTyping

namespace Ty

/-- Types without variables are their own instances, so these compare as before. -/
theorem le_instances_of_closed {a b a' b' : Ty} {e : Bindings} (hclosed : ¬ a.hasVars)
    (hclosed' : ¬ b.hasVars) (h : a ≤ b) (ha : a.instantiate e = .ok (some a'))
    (hb : b.instantiate e = .ok (some b')) : a' ≤ b' := by
  obtain rfl := eq_of_instantiate_closed hclosed ha
  obtain rfl := eq_of_instantiate_closed hclosed' hb
  exact h

/-- Instances of lists of types compare place by place when instances of the larger types do. -/
theorem forall₂_le_instances {e : Bindings} {as bs as' bs' : List Ty}
    (h : ∀ b ∈ bs, ∀ a a' b', a.instantiate e = .ok (some a') →
      b.instantiate e = .ok (some b') → a ≤ b → a' ≤ b')
    (hle : List.Forall₂ (· ≤ ·) as bs)
    (has : List.Forall₂ (fun a a' => a.instantiate e = .ok (some a')) as as')
    (hbs : List.Forall₂ (fun b b' => b.instantiate e = .ok (some b')) bs bs') :
    List.Forall₂ (· ≤ ·) as' bs' := by
  -- from the instances of `as` back to `as`, up to `bs` and on to the instances of `bs`
  have hup : List.Forall₂ (fun a' b => ∃ a, a.instantiate e = .ok (some a') ∧ a ≤ b) as' bs :=
    forall₂_trans_of_mem (fun _ a _ _ ha hab => ⟨a, ha, hab⟩) has.flip hle
  refine forall₂_trans_of_mem ?_ hup hbs
  rintro a' b hb b' ⟨a, ha, hab⟩ hb'
  exact h b hb a a' b' ha hb' hab

/-- **Subtyping is stable under instantiation.** Whatever the variables are bound to, the instances of
two types compare as the types do. -/
theorem isSubtype_of_instantiate {a b a' b' : Ty} {e : Bindings} (h : a.isSubtype b)
    (ha : a.instantiate e = .ok (some a')) (hb : b.instantiate e = .ok (some b')) :
    a'.isSubtype b' := by
  change a ≤ b at h
  change a' ≤ b'
  induction b generalizing a a' b' with
  | prim p =>
    rcases le_prim_iff.1 h with rfl | rfl | ⟨rfl, rfl | rfl⟩
    · exact le_instances_of_closed (by simp [hasVars]) (by simp [hasVars]) h ha hb
    · -- every type is below this one, with variables or without
      obtain rfl := eq_of_instantiate_closed (by simp [hasVars]) hb
      exact le_any a'
    · exact le_instances_of_closed (by simp [hasVars]) (by simp [hasVars]) h ha hb
    · exact le_instances_of_closed (by simp [hasVars]) (by simp [hasVars]) h ha hb
  | tensor g =>
    obtain ⟨f, rfl, _⟩ := le_tensor_iff.1 h
    exact le_instances_of_closed (by simp [hasVars]) (by simp [hasVars]) h ha hb
  | list b₁ ih =>
    obtain ⟨a₁, rfl, h₁⟩ := le_list_iff.1 h
    obtain ⟨a₁', rfl, ha₁⟩ := exists_of_instantiate_list ha
    obtain ⟨b₁', rfl, hb₁⟩ := exists_of_instantiate_list hb
    exact le_list_iff.2 ⟨a₁', rfl, ih ha₁ hb₁ h₁⟩
  | optional b₁ ih =>
    obtain ⟨b₁', rfl, hb₁⟩ := exists_of_instantiate_optional hb
    -- the rule by which the types compare is one by which their instances do
    rcases le_optional_iff.1 h with rfl | h₁ | ⟨a₁, rfl, h₁⟩
    · obtain rfl := eq_of_instantiate_closed (by simp [hasVars]) ha
      exact none_le_optional b₁'
    · exact le_optional_of_le (ih ha hb₁ h₁)
    · obtain ⟨a₁', rfl, ha₁⟩ := exists_of_instantiate_optional ha
      exact optional_le_optional (ih ha₁ hb₁ h₁)
  | future b₁ ih =>
    obtain ⟨a₁, rfl, h₁⟩ := le_future_iff.1 h
    obtain ⟨a₁', rfl, ha₁⟩ := exists_of_instantiate_future ha
    obtain ⟨b₁', rfl, hb₁⟩ := exists_of_instantiate_future hb
    exact le_future_iff.2 ⟨a₁', rfl, ih ha₁ hb₁ h₁⟩
  | dict k v ihk ihv =>
    obtain ⟨k₀, v₀, rfl, hk, hv⟩ := le_dict_iff.1 h
    obtain ⟨k₀', v₀', rfl, hk₀, hv₀⟩ := exists_of_instantiate_dict ha
    obtain ⟨k', v', rfl, hk', hv'⟩ := exists_of_instantiate_dict hb
    have hkeys : k₀' ≤ k' := ihk hk₀ hk' hk
    have hvalues : v₀' ≤ v' := ihv hv₀ hv' hv
    exact le_dict_iff.2 ⟨k₀', v₀', rfl, hkeys, hvalues⟩
  | tuple t bs ih =>
    obtain ⟨s, as, rfl, hst, habs⟩ := le_tuple_iff.1 h
    obtain ⟨as', rfl, has⟩ := exists_of_instantiate_tuple ha
    obtain ⟨bs', rfl, hbs⟩ := exists_of_instantiate_tuple hb
    have helems : List.Forall₂ (· ≤ ·) as' bs' :=
      forall₂_le_instances (fun b hb _ _ _ => ih b hb) habs has hbs
    exact le_tuple_iff.2 ⟨s, as', rfl, hst, helems⟩
  | function x =>
    obtain rfl := le_function_iff.1 h
    obtain rfl : a' = b' := by simpa [ha] using hb
    exact le_refl a'
  | interface x ms =>
    -- variables inside signatures are not reached through children, so nothing is put in their place
    have hclosed : ¬ a.hasVars := by
      rcases le_interface_iff.1 h with rfl | ⟨_, _, rfl, _⟩
      · simp [hasVars]
      · simp [hasVars]
    exact le_instances_of_closed hclosed (by simp [hasVars]) h ha hb
  | var x =>
    obtain rfl := le_var_iff.1 h
    -- one variable has one instance, whatever that is
    obtain rfl : a' = b' := by simpa [ha] using hb
    exact le_refl a'

/-- Variables that become the type of all values, an optional and none. Around two of them the larger
type has one more layer of optional than the smaller one. -/
theorem isSubtype_of_instantiate_tuple :
    let a := tuple none [var "x", dict (prim .int) (var "y"), list (optional (var "z"))]
    let b := optional (tuple none
      [optional (var "x"), dict (prim .number) (var "y"), list (optional (optional (var "z")))])
    let e : Bindings := ⟨[("x", prim .any), ("y", optional (prim .int)), ("z", prim .none)]⟩
    let a' := tuple none
      [prim .any, dict (prim .int) (optional (prim .int)), list (optional (prim .none))]
    let b' := optional (tuple none [optional (prim .any),
      dict (prim .number) (optional (prim .int)), list (optional (optional (prim .none)))])
    (a.isSubtype b ∧ a.instantiate e = .ok (some a') ∧ b.instantiate e = .ok (some b')) ∧
      a'.isSubtype b' := by
  intro a b e a' b'
  have h : a.isSubtype b := by decide +kernel
  have ha : a.instantiate e = .ok (some a') := by rfl
  have hb : b.instantiate e = .ok (some b') := by rfl
  exact ⟨⟨h, ha, hb⟩, isSubtype_of_instantiate h ha hb⟩

end Ty

end TensorTyping
