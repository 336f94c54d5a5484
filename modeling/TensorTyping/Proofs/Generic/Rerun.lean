import TensorTyping.Proofs.Generic.Meeting
import TensorTyping.Proofs.Generic.RoundTrip

/-!
# Matching a second time

A match writes to bindings that others may have written to before and will read afterwards, and a
match that fails leaves what it has written so far. What a caller can rely on is the same in both
cases: no binding is lost or changed, and matching once more from the bindings left behind ends in
the same way and leaves them as they are.

The second match starts from other bindings than the first, so that it ends in the same way is not
obvious. It holds because each single variable is settled by being looked at once
(`settles_bindVar`). If it was new, it is now bound to the very type it met, and a type unifies with
itself. If it was bound before, the type it is checked against is the same. Both stay true however
the bindings grow afterwards, so being settled is passed on from the parts of a computation to the
whole, and a match is made of such parts. -/

set_option autoImplicit false

namespace TensorTyping

/-! ## Outcomes -/

namespace Bindings.Extends

theorem refl (b : Bindings) : b.Extends b := fun _ _ h => h

theorem trans {b c d : Bindings} (hdc : d.Extends c) (hcb : c.Extends b) : d.Extends b :=
  fun x t h => hdc x t (hcb x t h)

end Bindings.Extends

namespace MatchM

variable {m k : MatchM Unit} {b : Bindings}

/-- How a computation ends when it is run from `b`, without the bindings it leaves behind. -/
def outcome (m : MatchM Unit) (b : Bindings) : Except Mismatch Unit :=
  match m.run b with
  | .ok _ _ => .ok ()
  | .error err _ => .error err

/-- After a success the second computation goes on from the bindings left behind by the first. -/
theorem seq_of_ok (h : m.outcome b = .ok ()) :
    outcome (do m; k) b = k.outcome (m.leftBy b) ∧
      leftBy (do m; k) b = k.leftBy (m.leftBy b) := by
  simp only [outcome, leftBy, EStateM.run_bind] at h ⊢
  rcases hrun : m.run b with ⟨_, e⟩ | ⟨err, e⟩
  · exact ⟨rfl, rfl⟩
  · simp [hrun] at h

/-- After a failure the second computation is not begun. -/
theorem seq_of_error {err : Mismatch} (h : m.outcome b = .error err) :
    outcome (do m; k) b = .error err ∧ leftBy (do m; k) b = m.leftBy b := by
  simp only [outcome, leftBy, EStateM.run_bind] at h ⊢
  rcases hrun : m.run b with ⟨_, e⟩ | ⟨err', e⟩
  · simp [hrun] at h
  · rw [hrun] at h
    exact ⟨h, rfl⟩

/-! ## Settled computations -/

/-- The computation keeps all bindings, and to run it a second time, from any bindings that extend
those it has left behind, changes nothing: it ends in the same way and adds no binding. -/
structure Settles (m : MatchM Unit) : Prop where
  /-- No binding is lost or changed. -/
  keeps : ∀ b, (m.leftBy b).Extends b
  /-- The second run repeats the first and leaves the bindings alone. -/
  again : ∀ b e, e.Extends (m.leftBy b) → m.outcome e = m.outcome b ∧ m.leftBy e = e

theorem settles_pure : Settles (pure ()) where
  keeps b := .refl b
  again _ _ _ := ⟨rfl, rfl⟩

theorem settles_throw (err : Mismatch) : Settles (throw err) where
  keeps b := .refl b
  again _ _ _ := ⟨rfl, rfl⟩

theorem Settles.seq (hm : m.Settles) (hk : k.Settles) : Settles (do m; k) where
  keeps b := by
    rcases h : m.outcome b with err | _
    · rw [(seq_of_error h).2]
      exact hm.keeps b
    · rw [(seq_of_ok h).2]
      exact (hk.keeps _).trans (hm.keeps b)
  again b e he := by
    rcases h : m.outcome b with err | _
    · rw [(seq_of_error h).2] at he
      obtain ⟨hout, hleft⟩ := hm.again b e he
      rw [h] at hout
      rw [(seq_of_error h).1, (seq_of_error hout).1, (seq_of_error hout).2]
      exact ⟨rfl, hleft⟩
    · rw [(seq_of_ok h).2] at he
      -- the bindings extend those left behind by both, and so those left behind by the first alone
      obtain ⟨hout, hleft⟩ := hm.again b e (he.trans (hk.keeps _))
      rw [h] at hout
      rw [(seq_of_ok h).1, (seq_of_ok hout).1, (seq_of_ok hout).2, hleft]
      exact hk.again _ e he

/-- A variable that is bound is checked and stays as it is. -/
theorem bindVar_of_bound {x : String} {previous : Ty} (hx : b.get? x = some previous) (t : Ty) :
    (bindVar x t).outcome b =
        (if (previous.unify t).isNone then .error (.conflict x previous t) else .ok ()) ∧
      (bindVar x t).leftBy b = b := by
  rw [outcome, leftBy, run_bindVar, hx]
  dsimp only
  split_ifs
  · exact ⟨rfl, rfl⟩
  · exact ⟨rfl, rfl⟩

/-- A variable that is new is bound. -/
theorem bindVar_of_new {x : String} (hx : b.get? x = none) (t : Ty) :
    (bindVar x t).outcome b = .ok () ∧ (bindVar x t).leftBy b = b.insert x t := by
  rw [outcome, leftBy, run_bindVar, hx]
  exact ⟨rfl, rfl⟩

/-- **One variable is settled by being looked at.** -/
theorem settles_bindVar (x : String) (t : Ty) : (bindVar x t).Settles where
  keeps b := by
    rcases hx : b.get? x with _ | previous
    · rw [(bindVar_of_new hx t).2]
      intro y u hy
      have hxy : x ≠ y := by
        rintro rfl
        simp [hx] at hy
      rw [Bindings.get?_insert, if_neg hxy, hy]
    · rw [(bindVar_of_bound hx t).2]
      exact .refl b
  again b e he := by
    rcases hx : b.get? x with _ | previous
    · obtain ⟨hout, hleft⟩ := bindVar_of_new hx t
      have hxe : e.get? x = some t := he x t (by simp [hleft])
      obtain ⟨hout', hleft'⟩ := bindVar_of_bound hxe t
      -- the variable is checked against the type it was bound to a moment ago
      rw [hout, hout', Ty.unify_self]
      exact ⟨rfl, hleft'⟩
    · obtain ⟨hout, hleft⟩ := bindVar_of_bound hx t
      have hxe : e.get? x = some previous := he x previous (by rw [hleft, hx])
      obtain ⟨hout', hleft'⟩ := bindVar_of_bound hxe t
      rw [hout, hout']
      exact ⟨rfl, hleft'⟩

theorem settles_forM_bindVar (met : List (String × Ty)) :
    Settles (forM met fun (x, t) => bindVar x t) := by
  induction met with
  | nil => exact settles_pure
  | cons p met ih =>
    rw [List.forM_cons]
    exact (settles_bindVar p.1 p.2).seq ih

end MatchM

/-- A replay settles: it looks at one variable after the other and then ends as the walk did. -/
theorem Walk.settles_replay (w : Walk) : w.replay.Settles := by
  obtain ⟨met, fault⟩ := w
  refine (MatchM.settles_forM_bindVar met).seq ?_
  cases fault with
  | none => exact MatchM.settles_pure
  | some err => exact MatchM.settles_throw err

/-! ## Matching -/

namespace Ty

/-- **Matching keeps bindings and can be repeated.** Whether a match succeeds or fails, each binding
from before is there afterwards with the same type, each new one is of a variable of the formal
type, and the same match from the bindings left behind ends in the same way, with the same error if
it is one, and leaves these bindings as they are. -/
theorem bindVars_keeps_and_repeats (f a : Ty) (b : Bindings) :
    let e := (bindVars f a).leftBy b
    (∀ x t, b.get? x = some t → e.get? x = some t) ∧
    (∀ x t, b.get? x = none → e.get? x = some t → f.Contains (var x)) ∧
    (bindVars f a).outcome e = (bindVars f a).outcome b ∧ (bindVars f a).leftBy e = e := by
  intro e
  have hsettles : (bindVars f a).Settles := by
    rw [bindVars_eq_replay]
    exact (walk f a).settles_replay
  refine ⟨hsettles.keeps b, fun x t hnew hx => ?_, hsettles.again b e (.refl e)⟩
  rcases get?_leftBy_bindVars hx with hb | hmeets
  · simp [hnew] at hb
  · exact hmeets.contains_fst

/-- A match that fails at its third element, after it has bound `t` and has checked `k` against a
type it was bound to before. The second time it fails in the same way. -/
theorem bindVars_keeps_and_repeats_conflict :
    let f := tuple none [var "t", var "k", list (var "t"), var "u"]
    let a := tuple none [prim .int, prim .int, list (prim .string), prim .bool]
    let b : Bindings := ⟨[("k", prim .number)]⟩
    let e := (bindVars f a).leftBy b
    (bindVars f a).outcome b = .error (.conflict "t" (prim .int) (prim .string)) ∧
      e.get? "t" = some (prim .int) ∧ e.get? "k" = some (prim .number) ∧
      (bindVars f a).outcome e = .error (.conflict "t" (prim .int) (prim .string)) ∧
      (bindVars f a).leftBy e = e := by
  intro f a b e
  have hfails : (bindVars f a).outcome b = .error (.conflict "t" (prim .int) (prim .string)) := by
    decide +kernel
  have ht : e.get? "t" = some (prim .int) := by decide +kernel
  obtain ⟨hkeeps, _, hout, hleft⟩ := bindVars_keeps_and_repeats f a b
  exact ⟨hfails, ht, hkeeps "k" _ rfl, hout.trans hfails, hleft⟩

end Ty

end TensorTyping
