import TensorTyping.Proofs.Generic.Walk
import TensorTyping.Proofs.Unify.Rules

/-!
# Matching collects observations and then solves them

Matching can be described without any order of events. First collect: `Ty.observe` lists, for a
formal and an actual type, which variable is seen to stand for which type. It knows no bindings, and
it is undefined where the two forms do not fit. Then solve: for each variable one type decides,
namely the one it is bound to already, or else the first one observed. The observations are accepted
when each of them unifies with the deciding type of its variable, and the solution binds each
variable to its deciding type.

The code does both at once, so a binding made deep inside one part is already there when a later part
is looked at. What makes the two descriptions agree is a fact about a single variable
(`Bindings.run_bindVar_deciding`): looking at one observation leaves the deciding types of all
variables as they were, because the only type it can add is one that decided already. With that, the
list of observations is dealt with one by one, and `Ty.bindVars_eq_replay` says that matching is
nothing but dealing with such a list.
-/

set_option autoImplicit false

namespace TensorTyping

/-! ## Collecting -/

namespace Ty

mutual

/-- The variables of `formal`, each with the type it is seen to stand for in `actual`, in order, or
`none` when the forms of the two do not fit. -/
def observe (formal actual : Ty) : Option (List (String × Ty)) :=
  if formal.hasVars then
    match formal, actual with
    | var x, a => some [(x, a)]
    | list f, list a => observe f a
    | list f, tuple _ as => do observe f (← unifyAll as)
    | tuple _ fs, tuple _ as => observeEach fs as
    | future f, future a => observe f a
    | optional f, optional a => observe f a
    | optional _, prim .none => some []
    | optional f, a => observe f a
    | dict k v, dict k' v' => return (← observe k k') ++ (← observe v v')
    | _, _ => none
  else some []

/-- The observations at each place, one after the other, for lists of the same length. -/
def observeEach : List Ty → List Ty → Option (List (String × Ty))
  | [], [] => some []
  | f :: fs, a :: as => return (← observe f a) ++ (← observeEach fs as)
  | _, _ => none

end

end Ty

/-- What a walk has met, if it came to its end. -/
def Walk.observed (w : Walk) : Option (List (String × Ty)) :=
  match w.fault with
  | none => some w.met
  | some _ => none

theorem Walk.observed_andThen (v w : Walk) :
    (v.andThen w).observed = (do return (← v.observed) ++ (← w.observed)) := by
  obtain ⟨_, _ | _⟩ := v
  · obtain ⟨_, _ | _⟩ := w <;> rfl
  · rfl

namespace Ty

theorem observe_of_closed {f : Ty} (h : ¬ f.hasVars) (a : Ty) : observe f a = some [] := by
  rw [observe.eq_def, if_neg h]

/-- Walks of lists of different lengths stop at the end of the shorter one, so only for lists of the
same length do they observe anything. -/
theorem observed_walkEach_of_mem {fs : List Ty}
    (h : ∀ f ∈ fs, ∀ a, (walk f a).observed = observe f a) {as : List Ty}
    (hlen : fs.length = as.length) : (walkEach fs as).observed = observeEach fs as := by
  induction fs generalizing as with
  | nil =>
    rw [List.eq_nil_of_length_eq_zero hlen.symm]
    rfl
  | cons f fs ih =>
    rcases as with _ | ⟨a, as⟩
    · simp at hlen
    · have hf : (walk f a).observed = observe f a := h f List.mem_cons_self a
      have hfs : (walkEach fs as).observed = observeEach fs as :=
        ih (fun g hg => h g (List.mem_cons_of_mem f hg)) (by simpa using hlen)
      rw [walkEach, Walk.observed_andThen, observeEach, hf, hfs]

theorem observeEach_eq_none_of_length_ne {fs as : List Ty} (hlen : fs.length ≠ as.length) :
    observeEach fs as = none := by
  induction fs generalizing as with
  | nil =>
    rcases as with _ | ⟨a, as⟩
    · simp at hlen
    · rfl
  | cons f fs ih =>
    rcases as with _ | ⟨a, as⟩
    · rfl
    · have hfs : observeEach fs as = none := ih (by simpa using hlen)
      rw [observeEach, hfs]
      cases observe f a <;> rfl

/-- Only formal types with variables need a look, as there is nothing to observe in the others. -/
theorem observed_walk_of_open {f a : Ty}
    (h : f.hasVars → (walk f a).observed = observe f a) : (walk f a).observed = observe f a := by
  by_cases hf : f.hasVars
  · exact h hf
  · rw [walk_of_closed hf, observe_of_closed hf]
    rfl

/-- **Observations are what a walk meets that comes to its end.** -/
theorem observed_walk (f a : Ty) : (walk f a).observed = observe f a := by
  -- both split on the actual type in the same way, and where the walk faults nothing is observed
  induction f generalizing a with
  | list f ih =>
    refine observed_walk_of_open fun h => ?_
    rw [walk.eq_def, observe.eq_def, if_pos h, if_pos h]
    cases a with
    | list a => exact ih a
    | tuple s as =>
      simp only
      rcases unifyAll as with _ | t
      · rfl
      · exact ih t
    | _ => rfl
  | optional f ih =>
    refine observed_walk_of_open fun h => ?_
    rw [walk.eq_def, observe.eq_def, if_pos h, if_pos h]
    cases a with
    | prim p =>
      cases p with
      | none => rfl
      | _ => exact ih _
    | optional a => exact ih a
    | _ => exact ih _
  | future f ih =>
    refine observed_walk_of_open fun h => ?_
    rw [walk.eq_def, observe.eq_def, if_pos h, if_pos h]
    cases a with
    | future a => exact ih a
    | _ => rfl
  | dict k v ihk ihv =>
    refine observed_walk_of_open fun h => ?_
    rw [walk.eq_def, observe.eq_def, if_pos h, if_pos h]
    cases a with
    | dict k' v' => simp only [Walk.observed_andThen, ihk, ihv]
    | _ => rfl
  | tuple s fs ih =>
    refine observed_walk_of_open fun h => ?_
    rw [walk.eq_def, observe.eq_def, if_pos h, if_pos h]
    cases a with
    | tuple t as =>
      simp only
      by_cases hlen : fs.length = as.length
      · rw [if_pos hlen, observed_walkEach_of_mem ih hlen]
      · rw [if_neg hlen, observeEach_eq_none_of_length_ne hlen]
        rfl
    | _ => rfl
  | var x =>
    have h : (var x).hasVars := by rw [hasVars]
    rw [walk_var, observe, if_pos h]
    rfl
  | _ => exact observed_walk_of_open fun h => by simp [hasVars] at h

end Ty

/-! ## Solving -/

namespace Bindings

/-- The type that decides what `x` stands for: the one it is bound to, or else the first one
observed. -/
def deciding (b : Bindings) (obs : List (String × Ty)) (x : String) : Option Ty :=
  (b.get? x).or (obs.lookup x)

/-- Each observed type unifies with the one that decides for its variable. -/
def Accepts (b : Bindings) (obs : List (String × Ty)) : Prop :=
  ∀ p ∈ obs, ∃ d ∈ b.deciding obs p.1, (d.unify p.2).isSome

instance (b : Bindings) (obs : List (String × Ty)) : Decidable (b.Accepts obs) :=
  inferInstanceAs (Decidable (∀ p ∈ obs, ∃ d ∈ b.deciding obs p.1, (d.unify p.2).isSome))

theorem deciding_nil (b : Bindings) (x : String) : b.deciding [] x = b.get? x := by
  rw [deciding, List.lookup_nil, Option.or_none]

@[simp] theorem deciding_empty (obs : List (String × Ty)) (x : String) :
    empty.deciding obs x = obs.lookup x := by
  rw [deciding, get?_empty, Option.none_or]

/-- A variable that is bound already is not decided anew. -/
theorem deciding_cons_of_bound {b : Bindings} {x : String} {d : Ty} (hx : b.get? x = some d)
    (t : Ty) (obs : List (String × Ty)) (y : String) :
    b.deciding ((x, t) :: obs) y = b.deciding obs y := by
  rw [deciding, deciding]
  by_cases hxy : y = x
  · rw [hxy, hx, Option.some_or, Option.some_or]
  · have hne : (y == x) = false := by simpa using hxy
    rw [List.lookup_cons, hne]

/-- The first observation of a new variable decides, so binding the variable to it decides
nothing else. -/
theorem deciding_cons_of_new {b : Bindings} {x : String} (hx : b.get? x = none)
    (t : Ty) (obs : List (String × Ty)) (y : String) :
    b.deciding ((x, t) :: obs) y = (b.insert x t).deciding obs y := by
  rw [deciding, deciding, get?_insert]
  by_cases hxy : x = y
  · subst hxy
    rw [if_pos rfl, hx, Option.none_or, List.lookup_cons_self, Option.some_or]
  · have hne : (y == x) = false := by simpa using Ne.symm hxy
    rw [if_neg hxy, List.lookup_cons, hne]

/-- An observation is accepted on its own, and the others are by the bindings it leads to, when
these decide alike. -/
theorem accepts_cons_iff {b b' : Bindings} {x : String} {t : Ty} {obs : List (String × Ty)}
    (h : ∀ y, b'.deciding obs y = b.deciding ((x, t) :: obs) y) :
    b.Accepts ((x, t) :: obs) ↔
      (∃ d ∈ b.deciding ((x, t) :: obs) x, (d.unify t).isSome) ∧ b'.Accepts obs := by
  simp only [Accepts, List.forall_mem_cons, h]

/-- **One step.** Looking at an observation either leads to bindings under which the same types
decide, or it fails because the observed type does not unify with the one that decides. -/
theorem run_bindVar_deciding (b : Bindings) (x : String) (t : Ty) (obs : List (String × Ty)) :
    ∃ d, b.deciding ((x, t) :: obs) x = some d ∧
      (((d.unify t).isSome ∧ ∃ b', (bindVar x t).run b = .ok () b' ∧
          ∀ y, b'.deciding obs y = b.deciding ((x, t) :: obs) y) ∨
        (d.unify t = none ∧ (bindVar x t).run b = .error (.conflict x d t) b)) := by
  rw [run_bindVar]
  rcases hx : b.get? x with _ | d
  · have hd : b.deciding ((x, t) :: obs) x = some t := by
      rw [deciding, hx, Option.none_or, List.lookup_cons_self]
    have hsame : ∀ y, (b.insert x t).deciding obs y = b.deciding ((x, t) :: obs) y :=
      fun y => (deciding_cons_of_new hx t obs y).symm
    -- the observed type decides itself, and it unifies with itself
    exact ⟨t, hd, .inl ⟨by rw [Ty.unify_self]; rfl, b.insert x t, rfl, hsame⟩⟩
  · have hd : b.deciding ((x, t) :: obs) x = some d := by rw [deciding, hx, Option.some_or]
    have hsame : ∀ y, b.deciding obs y = b.deciding ((x, t) :: obs) y :=
      fun y => (deciding_cons_of_bound hx t obs y).symm
    refine ⟨d, hd, ?_⟩
    dsimp only
    rcases d.unify t with _ | u
    · exact .inr ⟨rfl, rfl⟩
    · exact .inl ⟨rfl, b, rfl, hsame⟩

/-- **The whole run.** Observations that are accepted lead to the bindings that decide, and those
that are not lead to an error. -/
theorem run_forM_bindVar (b : Bindings) (obs : List (String × Ty)) :
    (b.Accepts obs ∧ ∃ e, (forM obs fun (x, t) => bindVar x t).run b = .ok () e ∧
      ∀ x, e.get? x = b.deciding obs x) ∨
    (¬ b.Accepts obs ∧ ∃ err e, (forM obs fun (x, t) => bindVar x t).run b = .error err e) := by
  induction obs generalizing b with
  | nil =>
    refine .inl ⟨fun p hp => by simp at hp, b, rfl, fun x => ?_⟩
    rw [deciding_nil]
  | cons p obs ih =>
    obtain ⟨x, t⟩ := p
    rw [List.forM_cons, EStateM.run_bind]
    obtain ⟨d, hd, ⟨hu, b', hrun, hb'⟩ | ⟨hu, hrun⟩⟩ := run_bindVar_deciding b x t obs
    · -- the rest is dealt with from other bindings, but these decide alike
      have haccepts : b.Accepts ((x, t) :: obs) ↔ b'.Accepts obs := by
        rw [accepts_cons_iff hb']
        exact and_iff_right ⟨d, hd, hu⟩
      rw [hrun, haccepts]
      simpa only [hb'] using ih b'
    · refine .inr ⟨fun haccepts => ?_, .conflict x d t, b, by rw [hrun]⟩
      obtain ⟨d', hd', hu'⟩ := haccepts (x, t) List.mem_cons_self
      obtain rfl : d = d' := by simpa [hd] using hd'
      simp [hu] at hu'

end Bindings

/-! ## Collecting and solving -/

/-- A replay solves what its walk observed. A walk that ended early has observed nothing, and its
replay ends in an error, whatever becomes of the types it met before. -/
theorem Walk.run_replay (w : Walk) (b : Bindings) :
    (∃ obs, w.observed = some obs ∧ b.Accepts obs ∧ ∃ e, w.replay.run b = .ok () e ∧
      ∀ x, e.get? x = b.deciding obs x) ∨
    ((∀ obs, w.observed = some obs → ¬ b.Accepts obs) ∧
      ∃ err e, w.replay.run b = .error err e) := by
  obtain ⟨met, fault⟩ := w
  simp only [replay, observed, EStateM.run_bind]
  rcases b.run_forM_bindVar met with ⟨haccepts, e, hrun, he⟩ | ⟨hrefuses, err, e, hrun⟩
  · rw [hrun]
    cases fault with
    | none => exact .inl ⟨met, rfl, haccepts, e, rfl, he⟩
    | some err => exact .inr ⟨fun obs h => by simp at h, err, e, rfl⟩
  · rw [hrun]
    refine .inr ⟨fun obs h => ?_, err, e, rfl⟩
    cases fault with
    | none =>
      obtain rfl : met = obs := by simpa using h
      exact hrefuses
    | some _ => simp at h

/-- A replay succeeds exactly when there are observations and they are accepted, and what it then
leaves is the bindings that decide. -/
theorem Walk.replay_ok (w : Walk) (b : Bindings) :
    ((∃ e, w.replay.run b = .ok () e) ↔ ∃ obs, w.observed = some obs ∧ b.Accepts obs) ∧
      ∀ e, w.replay.run b = .ok () e →
        ∃ obs, w.observed = some obs ∧ ∀ x, e.get? x = b.deciding obs x := by
  rcases w.run_replay b with ⟨obs, hobs, haccepts, e, hrun, he⟩ | ⟨hrefuses, err, e, hrun⟩
  · refine ⟨⟨fun _ => ⟨obs, hobs, haccepts⟩, fun _ => ⟨e, hrun⟩⟩, fun e' hrun' => ?_⟩
    obtain rfl : e = e' := by simpa [hrun] using hrun'
    exact ⟨obs, hobs, he⟩
  · rw [hrun]
    refine ⟨⟨fun ⟨_, h⟩ => by simp at h, ?_⟩, fun _ h => by simp at h⟩
    rintro ⟨obs, hobs, haccepts⟩
    exact absurd haccepts (hrefuses obs hobs)

/-- A replay that succeeds with no bindings before is that of a walk that came to its end, and it binds
each variable to the first type that it met. -/
theorem Walk.complete_of_replay {w : Walk} {e : Bindings} (h : w.replay.run .empty = .ok () e) :
    w.fault = none ∧ ∀ x, e.get? x = w.met.lookup x := by
  obtain ⟨obs, hobs, he⟩ := (w.replay_ok .empty).2 e h
  obtain ⟨met, _ | fault⟩ := w
  · obtain rfl : met = obs := by simpa [observed] using hobs
    refine ⟨rfl, fun x => ?_⟩
    rw [he, Bindings.deciding_empty]
  · simp [observed] at hobs

namespace Ty

theorem bindingsOf_eq_ok_iff {m : MatchM Unit} {e : Bindings} :
    bindingsOf m = .ok e ↔ m.run .empty = .ok () e := by
  rw [bindingsOf]
  rcases m.run .empty with ⟨_, _⟩ | ⟨_, _⟩
  · simp
  · simp

/-- The observations of a list of formal types along one of the same length are what their walks
meet, and matching them is the replay. -/
theorem matchTypes_eq_ok_iff {fs as : List Ty} {e : Bindings} :
    matchTypes fs as = .ok e ↔
      fs.length = as.length ∧ (walkEach fs as).replay.run .empty = .ok () e := by
  rw [matchTypes, bindEach_eq_replay_of_mem fun f _ a => bindVars_eq_replay f a]
  by_cases hlen : fs.length = as.length
  · rw [if_pos hlen, bindingsOf_eq_ok_iff]
    exact (and_iff_right hlen).symm
  · simp [hlen]

/-- **Matching collects observations and solves them.** It succeeds exactly when the forms fit and
each observed type unifies with the type that decides for its variable, which is the one it was bound
to before or else the first one observed. The bindings it leaves are those that decide. The same is
true of a list of formal types, with all observations taken together and no bindings before. -/
theorem matching_collects_and_solves :
    (∀ (f a : Ty) (b : Bindings),
      ((∃ e, (bindVars f a).run b = .ok () e) ↔ ∃ obs, observe f a = some obs ∧ b.Accepts obs) ∧
      ∀ e, (bindVars f a).run b = .ok () e →
        ∃ obs, observe f a = some obs ∧ ∀ x, e.get? x = b.deciding obs x) ∧
    (∀ fs as : List Ty,
      ((∃ e, matchTypes fs as = .ok e) ↔
        ∃ obs, observeEach fs as = some obs ∧ Bindings.empty.Accepts obs) ∧
      ∀ e, matchTypes fs as = .ok e →
        ∃ obs, observeEach fs as = some obs ∧ ∀ x, e.get? x = obs.lookup x) := by
  refine ⟨fun f a b => ?_, fun fs as => ?_⟩
  · rw [bindVars_eq_replay, ← observed_walk]
    exact (walk f a).replay_ok b
  · simp only [matchTypes_eq_ok_iff]
    by_cases hlen : fs.length = as.length
    · -- lists of the same length go the way of a single type, from no bindings
      rw [← observed_walkEach_of_mem (fun f _ a => observed_walk f a) hlen]
      simpa [hlen] using (walkEach fs as).replay_ok .empty
    · simp [hlen, observeEach_eq_none_of_length_ne hlen]

/-- A tuple in the place of a list gives the first type of `t`, none in the place of an optional
gives no type at all, and a later type of `t` is accepted though it is smaller. The variable `k`
keeps the type it was bound to before. In a list of formal types, a type observed at one place
decides at the next. -/
theorem matching_collects_and_solves_tuple :
    let f := tuple none [list (var "t"), dict (var "k") (optional (var "t")), var "t"]
    let a := tuple (some ⟨some "P", ["x", "y", "z"]⟩)
      [tuple none [prim .int, prim .none], dict (prim .int) (prim .none), prim .int]
    let b : Bindings := ⟨[("k", prim .number)]⟩
    let obs := [("t", optional (prim .int)), ("k", prim .int), ("t", prim .int)]
    (observe f a = some obs ∧ b.Accepts obs ∧
      ∃ e, (bindVars f a).run b = .ok () e ∧
        e.get? "t" = some (optional (prim .int)) ∧ e.get? "k" = some (prim .number)) ∧
    ¬ ∃ e, matchTypes [var "t", var "t"] [prim .int, prim .string] = .ok e := by
  intro f a b obs
  have hobs : observe f a = some obs := by decide +kernel
  have haccepts : b.Accepts obs := by decide +kernel
  obtain ⟨hok, hbindings⟩ := matching_collects_and_solves.1 f a b
  obtain ⟨e, hrun⟩ := hok.2 ⟨obs, hobs, haccepts⟩
  obtain ⟨obs', hobs', he⟩ := hbindings e hrun
  obtain rfl : obs = obs' := by simpa [hobs] using hobs'
  have ht : e.get? "t" = some (optional (prim .int)) := by
    rw [he]
    decide +kernel
  have hk : e.get? "k" = some (prim .number) := by
    rw [he]
    decide +kernel
  refine ⟨⟨hobs, haccepts, e, hrun, ht, hk⟩, ?_⟩
  rw [(matching_collects_and_solves.2 _ _).1]
  decide +kernel

end Ty

end TensorTyping
