import TensorTyping.Proofs.Generic.Meeting

/-!
# Why a match fails

Matching has a last branch for formal types that hold variables below a form it cannot enter, and the
error it gives there says that the library is at fault. The branch is never taken: the forms that the
test for variables looks into are those that matching has rules for.

More is true, and the rest follows from it: every error of a match is about a pair that is matched in
its course. It is a conflict, at a pair with a variable on the formal side, or a misfit of the two
forms (`Ty.Failure`). This holds from any bindings and at any depth, also below a list that faces a
tuple, where the actual side is no part of the actual type.

A match is the replay of a walk, so its error is the first conflict of the replay or the misfit that
ended the walk.
-/

set_option autoImplicit false

namespace TensorTyping

/-! ## Failures of a replay -/

/-- One variable fails for a conflict only. -/
theorem conflict_of_run_bindVar {x : String} {t : Ty} {b b' : Bindings} {e : Mismatch}
    (h : (bindVar x t).run b = .error e b') :
    ∃ previous, b.get? x = some previous ∧ previous.unify t = none ∧
      e = .conflict x previous t := by
  rw [run_bindVar] at h
  rcases hx : b.get? x with _ | previous
  · rw [hx] at h
    cases h
  · rw [hx] at h
    dsimp only at h
    split at h
    · rename_i hnone
      obtain ⟨rfl, -⟩ := EStateM.Result.error.inj h
      exact ⟨previous, rfl, Option.isNone_iff_eq_none.1 hnone, rfl⟩
    · cases h

/-- Variables fail for the conflict of one of them. -/
theorem exists_conflict_of_run_forM_bindVar {met : List (String × Ty)} {b b' : Bindings}
    {e : Mismatch} (h : (forM met fun (x, t) => bindVar x t).run b = .error e b') :
    ∃ x t previous, (x, t) ∈ met ∧ previous.unify t = none ∧ e = .conflict x previous t := by
  induction met generalizing b with
  | nil => cases h
  | cons p met ih =>
    obtain ⟨y, u⟩ := p
    rw [List.forM_cons, EStateM.run_bind] at h
    -- after a success the rest goes on from other bindings, so these are general in the induction
    rcases hrun : (bindVar y u).run b with ⟨_, c⟩ | ⟨err, c⟩
    · rw [hrun] at h
      obtain ⟨x, t, previous, hmem, hconflict⟩ := ih h
      exact ⟨x, t, previous, List.mem_cons_of_mem _ hmem, hconflict⟩
    · rw [hrun] at h
      obtain ⟨rfl, -⟩ := EStateM.Result.error.inj h
      obtain ⟨previous, -, hnone, rfl⟩ := conflict_of_run_bindVar hrun
      exact ⟨y, u, previous, List.mem_cons_self, hnone, rfl⟩

/-- A replay fails for a conflict, or as its walk did. -/
theorem Walk.error_of_run_replay {w : Walk} {b b' : Bindings} {e : Mismatch}
    (h : w.replay.run b = .error e b') :
    (∃ x t previous, (x, t) ∈ w.met ∧ previous.unify t = none ∧ e = .conflict x previous t) ∨
      w.fault = some e := by
  rw [replay, EStateM.run_bind] at h
  rcases hrun : (forM w.met fun (x, t) => bindVar x t).run b with ⟨_, c⟩ | ⟨err, c⟩
  · rw [hrun] at h
    rcases hfault : w.fault with _ | err
    · rw [hfault] at h
      cases h
    · rw [hfault] at h
      obtain ⟨rfl, -⟩ := EStateM.Result.error.inj h
      exact .inr rfl
  · rw [hrun] at h
    obtain ⟨rfl, -⟩ := EStateM.Result.error.inj h
    exact .inl (exists_conflict_of_run_forM_bindVar hrun)

namespace Ty

/-! ## Failures at a pair -/

/-- The match of a formal type against an actual one may end in the given error without going on: a
variable is bound to a type that does not unify with the actual one, or the forms do not fit. -/
inductive Failure : Ty → Ty → Mismatch → Prop
  /-- A variable that is bound to another type. -/
  | conflict {x : String} {previous a : Ty} (h : previous.unify a = none) :
    Failure (var x) a (.conflict x previous a)
  /-- Forms that do not fit. -/
  | misfit {f a : Ty} {e : Mismatch} (h : Misfit f a e) : Failure f a e

/-- None of the failures lies with the library. -/
theorem Failure.not_isFatal {f a : Ty} {e : Mismatch} (h : Failure f a e) : ¬ e.isFatal := by
  cases h with
  | conflict => exact Bool.false_ne_true
  | misfit h => cases h <;> exact Bool.false_ne_true

/-- Walks of pairs end early where one of them does. -/
theorem exists_fault_of_walkPairs {ps : List (Ty × Ty)} {e : Mismatch}
    (h : (walkPairs ps).fault = some e) : ∃ q ∈ ps, (walk q.1 q.2).fault = some e := by
  induction ps with
  | nil => cases h
  | cons p ps ih =>
    rw [walkPairs_cons, Walk.andThen] at h
    rcases hp : (walk p.1 p.2).fault with _ | err
    · simp only [hp] at h
      obtain ⟨q, hq, hfault⟩ := ih h
      exact ⟨q, List.mem_cons_of_mem _ hq, hfault⟩
    · simp only [hp] at h
      exact ⟨p, List.mem_cons_self, hp.trans h⟩

/-- **A walk ends early at a pair that does not fit.** The induction is along the walk, so it reaches
every pair that matching is called on. -/
theorem exists_misfit_of_fault {f a : Ty} {e : Mismatch} (h : (walk f a).fault = some e) :
    ∃ r, Meets (f, a) r ∧ Misfit r.1 r.2 e := by
  induction f, a using walk_ind with
  | closed f a hclosed =>
    rw [walk_of_closed hclosed] at h
    cases h
  | var x a =>
    rw [walk_var] at h
    cases h
  | rule f a ps hopen hps hwalk ih =>
    rw [hwalk] at h
    obtain ⟨q, hq, hfault⟩ := exists_fault_of_walkPairs h
    obtain ⟨r, hr, hmisfit⟩ := ih q hq hfault
    exact ⟨r, hps.meets hopen hq hr, hmisfit⟩
  | misfit f a err hmisfit hwalk =>
    rw [hwalk] at h
    obtain rfl : err = e := Option.some.inj h
    exact ⟨(f, a), meets_self _, hmisfit⟩

/-! ## Failures of a match -/

/-- The error of a row of matches is about a pair that is matched in the course of one of them. -/
theorem exists_failure_of_replay {ps : List (Ty × Ty)} {b b' : Bindings} {e : Mismatch}
    (h : (walkPairs ps).replay.run b = .error e b') :
    ∃ q ∈ ps, ∃ r, Meets q r ∧ Failure r.1 r.2 e := by
  rcases Walk.error_of_run_replay h with ⟨x, t, previous, hmem, hnone, rfl⟩ | hfault
  · obtain ⟨q, hq, hmet⟩ := List.mem_flatMap.1 ((met_walkPairs_sublist ps).subset hmem)
    exact ⟨q, hq, (var x, t), meets_of_mem_met hmet, .conflict hnone⟩
  · obtain ⟨q, hq, hfault⟩ := exists_fault_of_walkPairs hfault
    obtain ⟨r, hr, hmisfit⟩ := exists_misfit_of_fault hfault
    exact ⟨q, hq, r, hr, .misfit hmisfit⟩

theorem exists_failure_of_bindVars {f a : Ty} {b b' : Bindings} {e : Mismatch}
    (h : (bindVars f a).run b = .error e b') : ∃ r, Meets (f, a) r ∧ Failure r.1 r.2 e := by
  rw [bindVars_eq_replay, ← walkPairs_singleton] at h
  obtain ⟨q, hq, hr⟩ := exists_failure_of_replay h
  rwa [List.mem_singleton.1 hq] at hr

theorem exists_failure_of_bindEach {fs as : List Ty} {b b' : Bindings} {e : Mismatch}
    (h : (bindEach fs as).run b = .error e b') :
    ∃ q ∈ fs.zip as, ∃ r, Meets q r ∧ Failure r.1 r.2 e := by
  rw [bindEach_eq_replay_of_mem fun f _ a => bindVars_eq_replay f a, walkEach_eq_walkPairs] at h
  exact exists_failure_of_replay h

theorem exists_run_of_bindingsOf {m : MatchM Unit} {e : Mismatch} (h : bindingsOf m = .error e) :
    ∃ b, m.run .empty = .error e b := by
  rw [bindingsOf] at h
  rcases hrun : m.run .empty with ⟨_, b⟩ | ⟨err, b⟩
  · rw [hrun] at h
    cases h
  · rw [hrun] at h
    rw [Except.error.inj h]
    exact ⟨b, rfl⟩

/-- **Matching never fails for want of a rule.** From any bindings, no error of a match is fatal: it is
about a pair that is matched in its course, where a variable is in conflict or the forms do not fit. The
same is true of a match on its own, and of matching lists of types, which may differ in length as
well. -/
theorem matching_never_fatal :
    (∀ f a b e b', (bindVars f a).run b = .error e b' →
      ¬ e.isFatal ∧ ∃ r, Meets (f, a) r ∧ Failure r.1 r.2 e) ∧
    (∀ f a e, matchType f a = .error e →
      ¬ e.isFatal ∧ ∃ r, Meets (f, a) r ∧ Failure r.1 r.2 e) ∧
    ∀ fs as e, matchTypes fs as = .error e →
      ¬ e.isFatal ∧ ((fs.length ≠ as.length ∧ e = .argumentCount fs.length as.length) ∨
        ∃ q ∈ fs.zip as, ∃ r, Meets q r ∧ Failure r.1 r.2 e) := by
  have hsingle : ∀ f a b e b', (bindVars f a).run b = .error e b' →
      ¬ e.isFatal ∧ ∃ r, Meets (f, a) r ∧ Failure r.1 r.2 e := by
    intro f a b e b' h
    obtain ⟨r, hr, hfailure⟩ := exists_failure_of_bindVars h
    exact ⟨hfailure.not_isFatal, r, hr, hfailure⟩
  refine ⟨hsingle, fun f a e h => ?_, fun fs as e h => ?_⟩
  · obtain ⟨b', hrun⟩ := exists_run_of_bindingsOf h
    exact hsingle f a .empty e b' hrun
  · -- the lengths are compared before any type is looked at
    rw [matchTypes] at h
    split at h
    · obtain ⟨b', hrun⟩ := exists_run_of_bindingsOf h
      obtain ⟨q, hq, r, hr, hfailure⟩ := exists_failure_of_bindEach hrun
      exact ⟨hfailure.not_isFatal, .inr ⟨q, hq, r, hr, hfailure⟩⟩
    · rename_i hlen
      obtain rfl := Except.error.inj h
      exact ⟨Bool.false_ne_true, .inl ⟨hlen, rfl⟩⟩

/-- A variable below two lists, the outer of which faces a tuple, is in conflict with the type it was
bound to before; a dictionary faces another form; and an argument is missing. -/
theorem matching_never_fatal_conflict :
    let f := list (list (var "t"))
    let a := tuple none [list (prim .int), list (prim .int)]
    let b : Bindings := ⟨[("t", prim .string)]⟩
    let d := dict (var "k") (var "t")
    let conflict : Mismatch := .conflict "t" (prim .string) (prim .int)
    let container : Mismatch := .wrongContainer .dict a
    ((bindVars f a).run b = .error conflict b ∧ ¬ conflict.isFatal ∧
        ∃ r, Meets (f, a) r ∧ Failure r.1 r.2 conflict) ∧
      (matchType d a = .error container ∧ ¬ container.isFatal) ∧
      matchTypes [f, d] [a] = .error (.argumentCount 2 1) ∧
        ¬ (Mismatch.argumentCount 2 1).isFatal := by
  intro f a b d conflict container
  obtain ⟨hbind, hmatch, hmatches⟩ := matching_never_fatal
  have hunify : unifyAll [list (prim .int), list (prim .int)] = some (list (prim .int)) := by
    decide +kernel
  have hnone : (prim .string).unify (prim .int) = none := by decide +kernel
  have hrun : (bindVars f a).run b = .error conflict b := by
    simp [f, a, b, conflict, bindVars, hasVars, hunify, run_bindVar, Bindings.get?, hnone]
  have hdict : matchType d a = .error container := by rfl
  have hcount : matchTypes [f, d] [a] = .error (.argumentCount 2 1) := by rfl
  exact ⟨⟨hrun, hbind f a b conflict b hrun⟩, ⟨hdict, (hmatch d a container hdict).1⟩, hcount,
    (hmatches [f, d] [a] _ hcount).1⟩

end Ty

end TensorTyping
