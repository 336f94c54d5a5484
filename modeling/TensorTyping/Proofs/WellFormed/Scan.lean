import Mathlib.Logic.Function.Iterate
import TensorTyping.Proofs.WellFormed.Basic

/-!
# The scan for the type of all values

The checks on members scan a type with a stack that grows while it is consumed. Here the scan is
taken apart into its rounds. A round on a stack that is not empty takes one type off it and puts the
children of that type on it, so what goes down from round to round is not the height of the stack
but the number of types still to be met. After one round for each of them, and one more on the empty
stack, the scan is over. Its answer was fixed from the start, since no round changes it.

The scan does not look into interfaces. `Ty.searchAny` does: it goes through all parameters and
returned types as well. In a well-formed type the two agree, because the scan has passed over each
signature when the interface around it was built.
-/

set_option autoImplicit false

namespace TensorTyping

namespace Ty

/-! ## Rounds -/

/-- The scan between two rounds. -/
inductive Scan where
  /-- These types are left to be scanned, the first one next. -/
  | running (stack : List Ty)
  /-- The scan is over, and this is its answer. -/
  | ended (found : Bool)

namespace Scan

/-- One round. -/
def step : Scan → Scan
  | running [] => ended false
  | running (t :: rest) => if t.isAny then ended true else running (t.children.reverse ++ rest)
  | ended found => ended found

/-- The number of rounds after which the scan is over at the latest. -/
def budget : Scan → Nat
  | running stack => nodesAll stack + 1
  | ended _ => 0

/-- The answer that the scan is going to give. -/
def answer : Scan → Bool
  | running stack => anyOnStack stack
  | ended found => found

theorem budget_step (s : Scan) : s.step.budget ≤ s.budget - 1 := by
  cases s with
  | ended found => exact Nat.zero_le _
  | running stack =>
    cases stack with
    | nil => exact Nat.zero_le _
    | cons t rest =>
      have hcount : nodesAll (t :: rest) = nodesAll (t.children.reverse ++ rest) + 1 := by
        rw [nodesAll, nodes_eq, nodesAll_append, nodesAll_reverse]
        omega
      by_cases hany : t.isAny
      · rw [step, if_pos hany]
        exact Nat.zero_le _
      · rw [step, if_neg hany, budget, budget, hcount]
        omega

theorem answer_step (s : Scan) : s.step.answer = s.answer := by
  cases s with
  | ended found => rfl
  | running stack =>
    cases stack with
    | nil => rw [step, answer, answer, anyOnStack]
    | cons t rest =>
      rw [step, answer, anyOnStack]
      by_cases hany : t.isAny
      · rw [if_pos hany, answer, hany, Bool.true_or]
      · rw [if_neg hany, answer, Bool.eq_false_iff.2 hany, Bool.false_or]

/-- After `n` rounds, `n` rounds fewer are left. -/
theorem budget_run (n : Nat) (s : Scan) : (step^[n] s).budget ≤ s.budget - n := by
  induction n with
  | zero => exact Nat.le_refl _
  | succ n ih =>
    rw [Function.iterate_succ_apply']
    have hstep := budget_step (step^[n] s)
    omega

theorem answer_run (n : Nat) (s : Scan) : (step^[n] s).answer = s.answer := by
  induction n with
  | zero => rfl
  | succ n ih => rw [Function.iterate_succ_apply', answer_step, ih]

/-- **The scan ends.** Once the budget is spent it is over, with the answer it was going to give. -/
theorem run_budget (s : Scan) : step^[s.budget] s = ended s.answer := by
  have hspent := budget_run s.budget s
  have hanswer := answer_run s.budget s
  rcases h : step^[s.budget] s with stack | found
  · rw [h, budget] at hspent
    omega
  · rw [h, answer] at hanswer
    rw [hanswer]

end Scan

/-! ## The search through all parts -/

mutual

/-- The type of all values is met somewhere in the type, be it in a signature. -/
def searchAny : Ty → Bool
  | prim p => p == .any
  | list e | optional e | future e => e.searchAny
  | dict k v => k.searchAny || v.searchAny
  | tuple _ es => searchAnyEach es
  | interface _ ms => searchAnyMethods ms
  | tensor _ | function _ | var _ => false

/-- It is met in one of the types. -/
def searchAnyEach : List Ty → Bool
  | [] => false
  | t :: ts => t.searchAny || searchAnyEach ts

/-- It is met in one of the methods. -/
def searchAnyMethods : List (Signature Ty) → Bool
  | [] => false
  | ⟨_, ps, rs⟩ :: ms => searchAnyParams ps || searchAnyEach rs || searchAnyMethods ms

/-- It is met in one of the parameters. -/
def searchAnyParams : List (String × Ty) → Bool
  | [] => false
  | (_, t) :: ps => t.searchAny || searchAnyParams ps

end

theorem searchAnyEach_iff {ts : List Ty} : searchAnyEach ts ↔ ∃ t ∈ ts, t.searchAny := by
  induction ts with
  | nil => simp [searchAnyEach]
  | cons t ts ih => simp [searchAnyEach, ih]

theorem searchAnyParams_iff {ps : List (String × Ty)} :
    searchAnyParams ps ↔ ∃ t ∈ ps.map Prod.snd, t.searchAny := by
  induction ps with
  | nil => simp [searchAnyParams]
  | cons p ps ih =>
    obtain ⟨x, t⟩ := p
    rw [searchAnyParams, Bool.or_eq_true, ih, List.map_cons, List.exists_mem_cons_iff]

theorem searchAnyMethods_iff {ms : List (Signature Ty)} :
    searchAnyMethods ms ↔ ∃ t ∈ ms.flatMap Signature.types, t.searchAny := by
  induction ms with
  | nil => simp [searchAnyMethods]
  | cons m ms ih =>
    obtain ⟨x, ps, rs⟩ := m
    rw [searchAnyMethods, Bool.or_eq_true, Bool.or_eq_true, ih, searchAnyParams_iff,
      searchAnyEach_iff, List.flatMap_cons, Signature.types]
    simp only [List.mem_append, or_and_right, exists_or]

/-- The search looks at the type and goes on through its parts. -/
theorem searchAny_iff_parts {t : Ty} :
    t.searchAny ↔ prim .any = t ∨ ∃ p ∈ t.parts, p.searchAny := by
  cases t with
  | prim p =>
    simp only [searchAny, beq_iff_eq, parts, children, prim.injEq, List.not_mem_nil, false_and,
      exists_false, or_false]
    exact eq_comm
  | list e | optional e | future e => simp [searchAny, parts, children]
  | dict k v => simp [searchAny, parts, children]
  | tuple names es => simp [searchAny, parts, children, searchAnyEach_iff]
  | interface x ms => simp [searchAny, parts, searchAnyMethods_iff]
  | _ => simp [searchAny, parts, children]

/-- The search meets what the walk through all parts meets. -/
theorem searchAny_iff {t : Ty} : t.searchAny ↔ t.Reaches (prim .any) := by
  induction t using ind_size with
  | step t ih =>
    rw [searchAny_iff_parts, reaches_iff]
    refine or_congr_right (exists_congr fun p => and_congr_right fun hp => ?_)
    exact ih p (sizeOf_lt_of_mem_parts hp)

/-! ## The two agree -/

/-- **The scan is exact.** From every type it ends, within a round for each type met on the walk
through the children and one more. It finds the type of all values exactly when that walk meets it.
And on a well-formed type its answer is that of the search through all parts. -/
theorem scan_ends_exact (t : Ty) :
    Scan.step^[t.nodes + 1] (.running [t]) = .ended t.containsAny ∧
    (t.containsAny ↔ t.Contains (prim .any)) ∧
    (t.WellFormed → t.containsAny = t.searchAny) := by
  refine ⟨?_, containsAny_iff, fun ht => ?_⟩
  · exact Scan.run_budget (.running [t])
  · rw [Bool.eq_iff_iff, containsAny_iff, searchAny_iff]
    constructor
    · exact Contains.reaches
    · intro hreaches
      by_contra hcontains
      exact ht.not_reaches_any hcontains hreaches

/-- A tuple with an interface whose method returns another interface, and with the type of all
values beside it. -/
theorem scan_ends_exact_nested :
    let log := interface "Log" [⟨"add", [("line", prim .string)], []⟩]
    let stage := interface "Stage" [⟨"run", [("input", list genericTensor)], [log]⟩]
    let t := tuple none [stage, optional (prim .any)]
    t.WellFormed ∧ Scan.step^[5] (.running [t]) = .ended true ∧ t.containsAny = t.searchAny ∧
      stage.containsAny = stage.searchAny ∧ stage.containsAny = false := by
  intro log stage t
  have hlog : log.WellFormed := wellFormed_interface_of_not_contains (by decide)
    (by simp [Signature.types]) (by simp [Signature.types])
  have hstage : stage.WellFormed := wellFormed_interface_of_not_contains (by decide)
    (by simp [Signature.types, genericTensor, hlog]) (by simp [Signature.types, genericTensor, log])
  have ht : t.WellFormed := wellFormed_tuple_none.2 (by simp [hstage])
  obtain ⟨hrun, _, hagree⟩ := scan_ends_exact t
  obtain ⟨_, _, hagree'⟩ := scan_ends_exact stage
  have hfound : t.containsAny = true := containsAny_iff.2 (by simp [t])
  have hnodes : t.nodes = 4 := by simp [t, stage, nodes, nodesAll]
  rw [hnodes, hfound] at hrun
  refine ⟨ht, hrun, hagree ht, hagree' hstage, ?_⟩
  rw [Bool.eq_false_iff, ne_eq, containsAny_iff]
  simp [stage]

/-- Well-formedness is needed: nothing but the check at construction keeps the type of all values
out of a signature. -/
example :
    let t := interface "I" [⟨"f", [("x", prim .any)], []⟩]
    t.containsAny = false ∧ t.searchAny = true := by
  decide +kernel

end Ty

end TensorTyping
