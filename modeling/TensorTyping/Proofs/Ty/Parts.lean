import Mathlib.Logic.Relation
import TensorTyping.Ty.Basic

/-!
# Induction over types, and what a type contains

A type holds lists of types, and an interface holds signatures that hold lists of types, so the
recursor that comes with `Ty` speaks of five kinds of data at once. `Ty.ind` is the principle one
wants instead: a property of all types follows when each form of type inherits it from its parts,
where the parts of an interface are the types in its signatures. It is registered as the eliminator,
so `induction t` uses it. `Ty.ind_size` is the same without the case split, for arguments that look
at another type first.

`Ty.Contains` is the walk through the children that most operations make: `t.Contains s` when the
walk from `t` meets `s`. It does not enter interfaces, whose types are parts but not children.
-/

set_option autoImplicit false

namespace TensorTyping

namespace Ty

/-! ## Parts are smaller -/

theorem sizeOf_lt_of_mem_children {c t : Ty} (h : c ∈ t.children) : sizeOf c < sizeOf t := by
  cases t with
  | list e | optional e | future e =>
    rw [children, List.mem_singleton] at h
    simp [h]
  | dict k v =>
    have h : c = k ∨ c = v := by simpa [children] using h
    rcases h with rfl | rfl
    · simp only [dict.sizeOf_spec]; omega
    · simp only [dict.sizeOf_spec]; omega
  | tuple s es =>
    have := List.sizeOf_lt_of_mem h
    simp only [tuple.sizeOf_spec, children] at this ⊢
    omega
  | _ => simp [children] at h

theorem sizeOf_lt_of_mem_params {x : String} {ms : List (Signature Ty)} {m : Signature Ty}
    {q : String × Ty} (hm : m ∈ ms) (hq : q ∈ m.params) :
    sizeOf q.2 < sizeOf (interface x ms) := by
  have hms := List.sizeOf_lt_of_mem hm
  have hqs := List.sizeOf_lt_of_mem hq
  obtain ⟨_, ps, rs⟩ := m
  obtain ⟨_, t⟩ := q
  simp only [interface.sizeOf_spec, Signature.mk.sizeOf_spec, Prod.mk.sizeOf_spec] at hms hqs ⊢
  omega

theorem sizeOf_lt_of_mem_returns {x : String} {ms : List (Signature Ty)} {m : Signature Ty}
    {r : Ty} (hm : m ∈ ms) (hr : r ∈ m.returns) : sizeOf r < sizeOf (interface x ms) := by
  have hms := List.sizeOf_lt_of_mem hm
  have hrs := List.sizeOf_lt_of_mem hr
  obtain ⟨_, ps, rs⟩ := m
  simp only [interface.sizeOf_spec, Signature.mk.sizeOf_spec] at hms hrs ⊢
  omega

/-! ## Induction -/

/-- A property of all types follows when each type inherits it from the smaller ones. -/
@[elab_as_elim]
theorem ind_size {motive : Ty → Prop}
    (step : ∀ t, (∀ s, sizeOf s < sizeOf t → motive s) → motive t) (t : Ty) : motive t :=
  (measure sizeOf).wf.induction t step

/-- **Induction over types.** Each form of type inherits the property from its parts. -/
@[elab_as_elim, induction_eliminator]
theorem ind {motive : Ty → Prop}
    (prim : ∀ p, motive (prim p))
    (tensor : ∀ f, motive (tensor f))
    (list : ∀ e, motive e → motive (list e))
    (optional : ∀ e, motive e → motive (optional e))
    (future : ∀ e, motive e → motive (future e))
    (dict : ∀ k v, motive k → motive v → motive (dict k v))
    (tuple : ∀ s es, (∀ e ∈ es, motive e) → motive (tuple s es))
    (function : ∀ x, motive (function x))
    (interface : ∀ x ms,
      (∀ m ∈ ms, (∀ q ∈ m.params, motive q.2) ∧ ∀ r ∈ m.returns, motive r) →
        motive (interface x ms))
    (var : ∀ x, motive (var x)) (t : Ty) : motive t := by
  induction t using ind_size with
  | step t ih =>
    have ihc : ∀ c ∈ t.children, motive c := fun c hc => ih c (sizeOf_lt_of_mem_children hc)
    match t with
    | .prim p => exact prim p
    | .tensor f => exact tensor f
    | .list e => exact list e (ihc e (by simp [children]))
    | .optional e => exact optional e (ihc e (by simp [children]))
    | .future e => exact future e (ihc e (by simp [children]))
    | .dict k v => exact dict k v (ihc k (by simp [children])) (ihc v (by simp [children]))
    | .tuple s es => exact tuple s es ihc
    | .function x => exact function x
    | .interface x ms =>
      refine interface x ms fun m hm => ⟨fun q hq => ?_, fun r hr => ?_⟩
      · exact ih q.2 (sizeOf_lt_of_mem_params hm hq)
      · exact ih r (sizeOf_lt_of_mem_returns hm hr)
    | .var x => exact var x

/-! ## Containment -/

/-- `s` is met on the walk through the children of `t`, which starts at `t` itself. -/
def Contains (t s : Ty) : Prop := Relation.ReflTransGen (fun a c => c ∈ a.children) t s

theorem contains_self (t : Ty) : t.Contains t := Relation.ReflTransGen.refl

theorem contains_of_mem_children {t c s : Ty} (hc : c ∈ t.children) (h : c.Contains s) :
    t.Contains s :=
  Relation.ReflTransGen.head hc h

/-- The walk meets the type it starts from, and then what the walks from the children meet. -/
theorem contains_iff {t s : Ty} : t.Contains s ↔ s = t ∨ ∃ c ∈ t.children, c.Contains s := by
  rw [Contains, Relation.ReflTransGen.cases_head_iff, eq_comm]
  rfl

theorem not_contains_of_mem_children {t c s : Ty} (h : ¬ t.Contains s) (hc : c ∈ t.children) :
    ¬ c.Contains s :=
  fun hcs => h (contains_of_mem_children hc hcs)

/-- A walk that starts at a type without children ends there. -/
theorem contains_iff_of_leaf {t s : Ty} (h : t.children = []) : t.Contains s ↔ s = t := by
  rw [contains_iff, h]
  simp

@[simp] theorem contains_prim {p : Primitive} {s : Ty} : (prim p).Contains s ↔ s = prim p :=
  contains_iff_of_leaf rfl

@[simp] theorem contains_tensor {f : TensorFacts} {s : Ty} :
    (tensor f).Contains s ↔ s = tensor f :=
  contains_iff_of_leaf rfl

@[simp] theorem contains_function {x : String} {s : Ty} :
    (function x).Contains s ↔ s = function x :=
  contains_iff_of_leaf rfl

@[simp] theorem contains_interface {x : String} {ms : List (Signature Ty)} {s : Ty} :
    (interface x ms).Contains s ↔ s = interface x ms :=
  contains_iff_of_leaf rfl

@[simp] theorem contains_var {x : String} {s : Ty} : (var x).Contains s ↔ s = var x :=
  contains_iff_of_leaf rfl

@[simp] theorem contains_list {e s : Ty} : (list e).Contains s ↔ s = list e ∨ e.Contains s := by
  rw [contains_iff]
  simp [children]

@[simp] theorem contains_optional {e s : Ty} :
    (optional e).Contains s ↔ s = optional e ∨ e.Contains s := by
  rw [contains_iff]
  simp [children]

@[simp] theorem contains_future {e s : Ty} :
    (future e).Contains s ↔ s = future e ∨ e.Contains s := by
  rw [contains_iff]
  simp [children]

@[simp] theorem contains_dict {k v s : Ty} :
    (dict k v).Contains s ↔ s = dict k v ∨ k.Contains s ∨ v.Contains s := by
  rw [contains_iff]
  simp [children]

@[simp] theorem contains_tuple {names : Option TupleNames} {es : List Ty} {s : Ty} :
    (tuple names es).Contains s ↔ s = tuple names es ∨ ∃ e ∈ es, e.Contains s := by
  rw [contains_iff]
  simp [children]

/-! ## Atoms -/

/-- The type is neither a container nor a tensor. Such types are found in other types, but no operation
makes a new one. -/
def IsAtom : Ty → Prop
  | prim _ | function _ | interface _ _ | var _ => True
  | _ => False

theorem isAtom_prim (p : Primitive) : (prim p).IsAtom := trivial

theorem isAtom_var (x : String) : (var x).IsAtom := trivial

theorem isAtom_interface (x : String) (ms : List (Signature Ty)) : (interface x ms).IsAtom := trivial

namespace IsAtom

variable {s : Ty}

/-! An atom that a container contains is in one of its children. -/

theorem contains_list (hs : s.IsAtom) {e : Ty} : (list e).Contains s ↔ e.Contains s := by
  rw [Ty.contains_list, or_iff_right]
  rintro rfl
  exact hs

theorem contains_optional (hs : s.IsAtom) {e : Ty} : (optional e).Contains s ↔ e.Contains s := by
  rw [Ty.contains_optional, or_iff_right]
  rintro rfl
  exact hs

theorem contains_future (hs : s.IsAtom) {e : Ty} : (future e).Contains s ↔ e.Contains s := by
  rw [Ty.contains_future, or_iff_right]
  rintro rfl
  exact hs

theorem contains_dict (hs : s.IsAtom) {k v : Ty} :
    (dict k v).Contains s ↔ k.Contains s ∨ v.Contains s := by
  rw [Ty.contains_dict, or_iff_right]
  rintro rfl
  exact hs

theorem contains_tuple (hs : s.IsAtom) {names : Option TupleNames} {es : List Ty} :
    (tuple names es).Contains s ↔ ∃ e ∈ es, e.Contains s := by
  rw [Ty.contains_tuple, or_iff_right]
  rintro rfl
  exact hs

end IsAtom

/-! ## Variables -/

theorem anyHasVars_iff {ts : List Ty} : anyHasVars ts ↔ ∃ t ∈ ts, t.hasVars := by
  induction ts with
  | nil => simp [anyHasVars]
  | cons t ts ih => simp [anyHasVars, ih]

/-- The test for variables is exact: it holds of the types that contain one. -/
theorem hasVars_iff {t : Ty} : t.hasVars ↔ ∃ x, t.Contains (var x) := by
  induction t with
  | list e ih | optional e ih | future e ih => simp [hasVars, ih]
  | dict k v ihk ihv => simp [hasVars, ihk, ihv, exists_or]
  | tuple s es ih =>
    simp only [hasVars, anyHasVars_iff, contains_tuple, reduceCtorEq, false_or]
    constructor
    · rintro ⟨e, he, hv⟩
      obtain ⟨x, hx⟩ := (ih e he).1 hv
      exact ⟨x, e, he, hx⟩
    · rintro ⟨x, e, he, hx⟩
      exact ⟨e, he, (ih e he).2 ⟨x, hx⟩⟩
  | _ => simp [hasVars]

/-- The children of a type without variables have none. -/
theorem not_hasVars_of_mem_children {t c : Ty} (h : ¬ t.hasVars) (hc : c ∈ t.children) :
    ¬ c.hasVars := by
  intro hcv
  obtain ⟨x, hx⟩ := hasVars_iff.1 hcv
  exact h (hasVars_iff.2 ⟨x, contains_of_mem_children hc hx⟩)

end Ty

end TensorTyping
