import TensorTyping.Proofs.Generic.Walk
import TensorTyping.Proofs.Unify.Rules

/-!
# Matching undoes instantiation

Matching a formal type against an instance of it finds the bindings that made the instance, as far
as the formal type mentions them. The argument goes along the two halves of matching.

* *The walk* meets each variable of the formal type with the type that the bindings give it, and
  nothing else (`Ty.walk_reads_of_instantiate`). It is an induction on the formal type, in which an
  instance has the form of its formal type, so no rule for another form comes into play. What a bound
  type looks like inside does not matter, because the walk ends where it meets a variable.
* *The replay* then only ever meets a variable with the type it has in those bindings. The first time
  it is bound to it. Each later time it is checked against the same type, and a type unifies with
  itself.
-/

set_option autoImplicit false

namespace TensorTyping

/-! ## The replay -/

/-- Every binding of `e` is a binding of `s`. -/
def Bindings.Extends (s e : Bindings) : Prop := ∀ x t, e.get? x = some t → s.get? x = some t

/-- One step: a variable that meets its type in `s` is bound to it, or was so already. -/
theorem run_bindVar_of_extends {s e : Bindings} {x : String} {t : Ty} (hs : s.Extends e)
    (hx : s.get? x = some t) :
    ∃ e', (bindVar x t).run e = .ok () e' ∧
      ∀ y u, e'.get? y = some u ↔ e.get? y = some u ∨ (y, u) = (x, t) := by
  rw [run_bindVar]
  rcases hex : e.get? x with _ | previous
  · refine ⟨e.insert x t, rfl, fun y u => ?_⟩
    rw [Bindings.get?_insert]
    by_cases hxy : x = y
    · subst hxy
      simp [hex, eq_comm]
    · simp [hxy, Ne.symm hxy]
  · obtain rfl : t = previous := by simpa [hx] using hs x previous hex
    refine ⟨e, by simp [Ty.unify_self], fun y u => ⟨.inl, ?_⟩⟩
    rintro (h | ⟨⟨⟩⟩)
    · exact h
    · exact hex

/-- The whole run: variables that each meet their types in `s` end up bound to them. -/
theorem run_forM_bindVar_of_extends {s e : Bindings} {met : List (String × Ty)}
    (hs : s.Extends e) (hmet : ∀ x t, (x, t) ∈ met → s.get? x = some t) :
    ∃ e', (forM met fun (x, t) => bindVar x t).run e = .ok () e' ∧
      ∀ y u, e'.get? y = some u ↔ e.get? y = some u ∨ (y, u) ∈ met := by
  induction met generalizing e with
  | nil => exact ⟨e, rfl, fun y u => by simp⟩
  | cons p met ih =>
    obtain ⟨x, t⟩ := p
    have hx : s.get? x = some t := hmet x t List.mem_cons_self
    obtain ⟨e₁, hrun₁, he₁⟩ := run_bindVar_of_extends hs hx
    have hs₁ : s.Extends e₁ := by
      intro y u hy
      rcases (he₁ y u).1 hy with h | ⟨⟨⟩⟩
      · exact hs y u h
      · exact hx
    obtain ⟨e₂, hrun₂, he₂⟩ := ih hs₁ fun y u h => hmet y u (List.mem_cons_of_mem _ h)
    refine ⟨e₂, ?_, fun y u => ?_⟩
    · rw [List.forM_cons, EStateM.run_bind, hrun₁]
      exact hrun₂
    · rw [he₂, he₁, List.mem_cons, or_assoc]

/-! ## The walk -/

/-- The walk has no misfit, and it meets the variables of the given types, each with the type that
`s` binds it to. -/
def Walk.Reads (w : Walk) (s : Bindings) (fs : List Ty) : Prop :=
  w.fault = none ∧
    ∀ x t, (x, t) ∈ w.met ↔ (∃ f ∈ fs, f.Contains (.var x)) ∧ s.get? x = some t

theorem Walk.reads_done (s : Bindings) : done.Reads s [] :=
  ⟨rfl, fun x t => by simp [done]⟩

theorem Walk.Reads.andThen {v w : Walk} {s : Bindings} {f : Ty} {fs : List Ty}
    (hv : v.Reads s [f]) (hw : w.Reads s fs) : (v.andThen w).Reads s (f :: fs) := by
  obtain ⟨hvf, hvm⟩ := hv
  obtain ⟨hwf, hwm⟩ := hw
  rw [Walk.andThen, hvf]
  refine ⟨hwf, fun x t => ?_⟩
  rw [List.mem_append, hvm, hwm, ← or_and_right]
  simp

namespace Ty

/-- Walks that read the bindings back at each place do so together. -/
theorem walkEach_reads {s : Bindings} {fs as : List Ty}
    (h : List.Forall₂ (fun f a => (walk f a).Reads s [f]) fs as) :
    (walkEach fs as).Reads s fs := by
  induction h with
  | nil => exact Walk.reads_done s
  | cons head _ ih => exact head.andThen ih

theorem walk_var_reads {s : Bindings} {x : String} {a : Ty} (hx : s.get? x = some a) :
    (walk (var x) a).Reads s [var x] := by
  rw [walk, if_pos (by rw [hasVars])]
  refine ⟨rfl, fun y t => ?_⟩
  simp only [Walk.meet, List.mem_singleton, Prod.mk.injEq, exists_eq_left, contains_var, var.injEq]
  constructor
  · rintro ⟨rfl, rfl⟩
    exact ⟨rfl, hx⟩
  · rintro ⟨rfl, ht⟩
    exact ⟨rfl, by simpa [hx] using ht.symm⟩

/-- **The walk along an instance reads the bindings back.** -/
theorem walk_reads_of_instantiate {s : Bindings} {f a : Ty}
    (h : f.instantiate s = .ok (some a)) : (walk f a).Reads s [f] := by
  induction f using ind_size generalizing a with
  | step f ih =>
    by_cases hvar : ∃ x, f = var x
    · obtain ⟨x, rfl⟩ := hvar
      rw [instantiate_var, Except.ok.injEq] at h
      exact walk_var_reads h
    · have hvar : ∀ x, f ≠ var x := fun x hx => hvar ⟨x, hx⟩
      obtain ⟨cs, rfl, hcs⟩ := children_of_instantiate hvar h
      have hmem : List.Forall₂ (fun c c' => c ∈ f.children ∧ c.instantiate s = .ok (some c'))
          f.children cs := (List.forall₂_and_left _ _).2 ⟨fun c hc => hc, hcs⟩
      have hreads : (walkEach f.children cs).Reads s f.children := by
        refine walkEach_reads (hmem.imp fun c c' h => ?_)
        exact ih c (sizeOf_lt_of_mem_children h.1) h.2
      rw [walk_withChildren hvar hcs.length_eq]
      refine ⟨hreads.1, fun x t => ?_⟩
      -- the variables of a type that is not one itself are those of its children
      have hx : f.Contains (var x) ↔ ∃ c ∈ f.children, c.Contains (var x) := by
        rw [contains_iff, or_iff_right (hvar x).symm]
      rw [hreads.2, ← hx]
      simp

/-- **Matching undoes instantiation.** A formal type matches each of its instances, and the bindings
it finds are those that made the instance, restricted to the variables that the type contains. -/
theorem matchType_instantiate {f a : Ty} {s : Bindings} (h : f.instantiate s = .ok (some a)) :
    ∃ e, f.matchType a = .ok e ∧
      ∀ x t, e.get? x = some t ↔ f.Contains (var x) ∧ s.get? x = some t := by
  obtain ⟨hfault, hmet⟩ := walk_reads_of_instantiate h
  have hempty : s.Extends .empty := fun x t hx => by simp at hx
  obtain ⟨e, hrun, he⟩ := run_forM_bindVar_of_extends hempty fun x t hx => ((hmet x t).1 hx).2
  refine ⟨e, ?_, fun x t => ?_⟩
  · rw [matchType, bindingsOf, bindVars_eq_replay, Walk.replay, hfault]
    simp [hrun]
  · rw [he, hmet]
    simp

/-- A variable that occurs twice, one below an optional that is bound to an optional, a bound type
with a variable of its own, and a binding that the formal type does not mention. -/
theorem matchType_instantiate_named_pair :
    let s : Bindings := ⟨[("k", tuple none [prim .none, var "v"]), ("v", optional (prim .int)),
      ("z", prim .int)]⟩
    let f := tuple (some ⟨none, ["p", "q"]⟩) [dict (var "k") (optional (var "v")), list (var "k")]
    let a := tuple (some ⟨none, ["p", "q"]⟩)
      [dict (tuple none [prim .none, var "v"]) (optional (optional (prim .int))),
        list (tuple none [prim .none, var "v"])]
    f.instantiate s = .ok (some a) ∧
      ∃ e, f.matchType a = .ok e ∧
        ∀ x t, e.get? x = some t ↔ f.Contains (var x) ∧ s.get? x = some t := by
  intro s f a
  have hk : s.get? "k" = some (tuple none [prim .none, var "v"]) := by decide +kernel
  have hv : s.get? "v" = some (optional (prim .int)) := by decide +kernel
  -- the instance has field names, so its elements are looked at once more
  have hany : ∀ e ∈ a.children, e.containsAny = false := by decide +kernel
  simp only [a, children, List.mem_cons, forall_eq_or_imp] at hany
  have h : f.instantiate s = .ok (some a) := by
    simp [f, a, instantiate, instantiateAll, hasVars, anyHasVars, rebuild, checkElems, requireNoAny,
      hk, hv, hany, bind, Except.bind, pure, Except.pure]
  exact ⟨h, matchType_instantiate h⟩

end Ty

end TensorTyping
