import TensorTyping.Generic.Match
import TensorTyping.Proofs.Generic.Instance

/-!
# Matching as a walk and a replay

Matching interleaves two things: it takes a formal and an actual type apart together, and it binds
or checks a variable wherever the walk meets one. Only the second touches the bindings, and nothing
it does there changes where the walk goes. So the two can be pulled apart.

`Ty.walk` is the first half. It knows no bindings: it lists which variable meets which type, in
order, up to the first place where the forms do not fit. `Walk.replay` is the second half: it binds
the variables of the list one by one and then fails the way the walk did, if it did. The main
statement, `Ty.bindVars_eq_replay`, is that matching is the replay of the walk, as an equality of
computations, so results, errors and the bindings left behind by an error all agree.

The walk never faults for want of a rule. Where matching has a branch for variables below a form it
cannot enter, the walk has nothing to say, and the equality shows that the branch is never taken.
-/

set_option autoImplicit false

namespace TensorTyping

/-! ## One variable -/

/-- What a variable does to the bindings: it is bound when it is new. Otherwise they stay as they
are, and only the outcome depends on whether the two types unify. -/
theorem run_bindVar (x : String) (t : Ty) (e : Bindings) :
    (bindVar x t).run e = match e.get? x with
      | none => .ok () (e.insert x t)
      | some previous =>
        if (previous.unify t).isNone then .error (.conflict x previous t) e else .ok () e := by
  simp only [bindVar, EStateM.run_bind, EStateM.run_get]
  rcases e.get? x with _ | previous
  · rfl
  · dsimp only
    by_cases h : (previous.unify t).isNone
    · rw [if_pos h, if_pos h, EStateM.run_throw]
    · rw [if_neg h, if_neg h, EStateM.run_pure]

/-! ## Walks -/

/-- What a walk of a formal type along an actual one comes to. -/
structure Walk where
  /-- The variables with the types they met, in order. -/
  met : List (String × Ty)
  /-- The misfit that ended the walk early. -/
  fault : Option Mismatch

namespace Walk

/-- Nothing was met. -/
def done : Walk := ⟨[], none⟩

/-- One variable was met. -/
def meet (x : String) (t : Ty) : Walk := ⟨[(x, t)], none⟩

/-- The forms do not fit. -/
def fail (e : Mismatch) : Walk := ⟨[], some e⟩

/-- One walk and then another, which is not begun after a misfit. -/
def andThen (v w : Walk) : Walk :=
  match v.fault with
  | none => ⟨v.met ++ w.met, w.fault⟩
  | some _ => v

/-- Binds the variables that were met, one after the other, and ends as the walk did. -/
def replay (w : Walk) : MatchM Unit := do
  forM w.met fun (x, t) => bindVar x t
  match w.fault with
  | none => return
  | some e => throw e

@[simp] theorem done_andThen (w : Walk) : done.andThen w = w := rfl

@[simp] theorem andThen_done (w : Walk) : w.andThen done = w := by
  obtain ⟨met, _ | e⟩ := w
  · simp [andThen, done]
  · rfl

@[simp] theorem replay_done : done.replay = pure () := rfl

@[simp] theorem replay_fail (e : Mismatch) : (fail e).replay = throw e := rfl

@[simp] theorem replay_meet (x : String) (t : Ty) : (meet x t).replay = bindVar x t := by
  simp [replay, meet]

/-- The replay of two walks is the two replays. After a misfit the second is not begun, as an error
ends a computation. -/
theorem replay_andThen (v w : Walk) :
    (v.andThen w).replay = (do v.replay; w.replay) := by
  obtain ⟨met, _ | e⟩ := v
  · simp [andThen, replay]
  · simp only [andThen, replay, bind_assoc]
    rfl

end Walk

namespace Ty

mutual

/-- The walk of `formal` along `actual`. -/
def walk (formal actual : Ty) : Walk :=
  if formal.hasVars then
    match formal, actual with
    | var x, a => .meet x a
    | list f, list a => walk f a
    | list f, tuple s as =>
      match unifyAll as with
      | some t => walk f t
      | none => .fail (.notAList (list f) (tuple s as))
    | list f, a => .fail (.notAList (list f) a)
    | tuple _ fs, tuple _ as =>
      if fs.length = as.length then walkEach fs as else .fail (.arity fs.length as.length)
    | tuple _ _, a => .fail (.wrongContainer .tuple a)
    | future f, future a => walk f a
    | future _, a => .fail (.wrongContainer .future a)
    | optional f, optional a => walk f a
    | optional _, prim .none => .done
    | optional f, a => walk f a
    | dict k v, dict k' v' => (walk k k').andThen (walk v v')
    | dict _ _, a => .fail (.wrongContainer .dict a)
    | _, _ => .done
  else .done

/-- The walks of the formal types, from left to right, each along the actual type at its place. -/
def walkEach : List Ty → List Ty → Walk
  | f :: fs, a :: as => (walk f a).andThen (walkEach fs as)
  | _, _ => .done

end

/-! ## Matching is a replay -/

theorem walk_of_closed {f : Ty} (h : ¬ f.hasVars) (a : Ty) : walk f a = .done := by
  rw [walk.eq_def, if_neg h]

theorem walk_var (x : String) (a : Ty) : walk (var x) a = .meet x a := by
  have h : (var x).hasVars := by rw [hasVars]
  rw [walk, if_pos h]

theorem walkEach_of_closed {fs : List Ty} (h : ∀ f ∈ fs, ¬ f.hasVars) (as : List Ty) :
    walkEach fs as = .done := by
  induction fs generalizing as with
  | nil => rfl
  | cons f fs ih =>
    rcases as with _ | ⟨a, as⟩
    · rfl
    · rw [walkEach, walk_of_closed (h f List.mem_cons_self), Walk.done_andThen]
      exact ih (fun f hf => h f (List.mem_cons_of_mem _ hf)) as

theorem bindEach_eq_replay_of_mem {fs : List Ty}
    (h : ∀ f ∈ fs, ∀ a, bindVars f a = (walk f a).replay) (as : List Ty) :
    bindEach fs as = (walkEach fs as).replay := by
  induction fs generalizing as with
  | nil => rfl
  | cons f fs ih =>
    rcases as with _ | ⟨a, as⟩
    · rfl
    · rw [bindEach, walkEach, Walk.replay_andThen, h f List.mem_cons_self,
        ih fun f hf => h f (List.mem_cons_of_mem _ hf)]

/-- Only formal types with variables need a look: from all others both sides turn back at once. -/
theorem bindVars_eq_replay_of_open {f a : Ty}
    (h : f.hasVars → bindVars f a = (walk f a).replay) : bindVars f a = (walk f a).replay := by
  by_cases hf : f.hasVars
  · exact h hf
  · rw [walk_of_closed hf, bindVars.eq_def, if_neg hf, Walk.replay_done]

/-- **Matching is the replay of a walk.** -/
theorem bindVars_eq_replay (f a : Ty) : bindVars f a = (walk f a).replay := by
  -- both sides split on the actual type in the same way, so after the split each branch is an
  -- induction hypothesis or holds by computation
  induction f generalizing a with
  | list f ih =>
    refine bindVars_eq_replay_of_open fun h => ?_
    rw [bindVars.eq_def, walk.eq_def, if_pos h, if_pos h]
    cases a with
    | list a => exact ih a
    | tuple s as =>
      simp only
      rcases unifyAll as with _ | t
      · rfl
      · exact ih t
    | _ => rfl
  | optional f ih =>
    refine bindVars_eq_replay_of_open fun h => ?_
    rw [bindVars.eq_def, walk.eq_def, if_pos h, if_pos h]
    cases a with
    | prim p =>
      cases p with
      | none => rfl
      | _ => exact ih _
    | optional a => exact ih a
    | _ => exact ih _
  | future f ih =>
    refine bindVars_eq_replay_of_open fun h => ?_
    rw [bindVars.eq_def, walk.eq_def, if_pos h, if_pos h]
    cases a with
    | future a => exact ih a
    | _ => rfl
  | dict k v ihk ihv =>
    refine bindVars_eq_replay_of_open fun h => ?_
    rw [bindVars.eq_def, walk.eq_def, if_pos h, if_pos h]
    cases a with
    | dict k' v' => simp only [Walk.replay_andThen, ihk, ihv]
    | _ => rfl
  | tuple s fs ih =>
    refine bindVars_eq_replay_of_open fun h => ?_
    rw [bindVars.eq_def, walk.eq_def, if_pos h, if_pos h]
    cases a with
    | tuple t as =>
      simp only
      by_cases hlen : fs.length = as.length
      · rw [if_pos hlen, if_pos hlen, bindEach_eq_replay_of_mem ih]
      · rw [if_neg hlen, if_neg hlen, Walk.replay_fail]
    | _ => rfl
  | var x =>
    have h : (var x).hasVars := by rw [hasVars]
    rw [bindVars, walk, if_pos h, if_pos h, Walk.replay_meet]
  | _ => exact bindVars_eq_replay_of_open fun h => by simp [hasVars] at h

/-! ## Walks along the same form -/

/-- Along a type that differs from the formal one in its children only, the walk is that of the
children. No case for optionals and lists is left here: they match their own form first. -/
theorem walk_withChildren {f : Ty} (hvar : ∀ x, f ≠ var x) {cs : List Ty}
    (hlen : f.children.length = cs.length) :
    walk f (f.withChildren cs) = walkEach f.children cs := by
  by_cases h : f.hasVars
  · rw [walk.eq_def, if_pos h]
    cases f with
    | list e | optional e | future e =>
      obtain ⟨c, rfl⟩ := List.length_eq_one_iff.1 hlen.symm
      simp [withChildren, children, walkEach]
    | dict k v =>
      obtain ⟨c, d, rfl⟩ := List.length_eq_two.1 hlen.symm
      simp [withChildren, children, walkEach]
    | tuple s es => exact if_pos hlen
    | var x => exact absurd rfl (hvar x)
    | _ => simp [hasVars] at h
  · have hcs : ∀ c ∈ f.children, ¬ c.hasVars := by
      intro c hc
      exact not_hasVars_of_mem_children h hc
    rw [walk_of_closed h, walkEach_of_closed hcs]

end Ty

end TensorTyping
