import TensorTyping.Generic.Bindings
import TensorTyping.Unify

/-!
# Matching a formal type against an actual one

A generic operation declares formal types with variables in them. At a call the formal types are
matched against the actual ones, and each variable is bound to the type it meets first. A later
meeting only has to unify with that first type; the binding stays as it is.

Formal and actual types are walked together along the children of the formal type. Two forms of
formal type accept an actual type of another form: a list accepts a tuple whose elements unify, and an
optional accepts none, or a type that matches its element.

A failed match leaves the bindings it has made so far. That is why the bindings are a state beside
the error and not part of the result.
-/

set_option autoImplicit false

namespace TensorTyping

/-- A container that only matches its own kind. -/
inductive RigidContainer where
  | tuple
  | future
  | dict
deriving DecidableEq, Repr

/-- The container in messages. -/
def RigidContainer.name : RigidContainer → String
  | tuple => "tuple"
  | future => "future"
  | dict => "dict"

/-- Why a formal type does not match an actual one (`MatchError`). -/
inductive Mismatch where
  /-- A variable met a type that does not unify with its first one. -/
  | conflict (var : String) (previous actual : Ty)
  /-- The actual type is neither a list nor a tuple whose elements unify. -/
  | notAList (formal actual : Ty)
  /-- Tuples of different lengths. -/
  | arity (expected found : Nat)
  /-- More or fewer actual types than formal ones. -/
  | argumentCount (expected found : Nat)
  /-- The actual type is not a container of the kind expected. -/
  | wrongContainer (expected : RigidContainer) (actual : Ty)
  /-- Variables below a form of type that matching does not know how to enter. -/
  | unhandled (formal : Ty)
deriving DecidableEq, Repr

namespace Mismatch

/-- The fault lies with the library and not with the types matched. -/
def isFatal : Mismatch → Bool
  | unhandled _ => true
  | _ => false

/-- The text of a failed match. -/
def message : Mismatch → String
  | conflict x previous actual =>
    "Type variable '" ++ x ++ "' previously matched to type " ++ previous.expression ++
      " is matched to type " ++ actual.expression
  | notAList formal actual => "Cannot match " ++ formal.expression ++ " to " ++ actual.expression
  | arity expected found =>
    "Cannot match tuples of mismatched size: expected arity " ++ expected.repr ++ ", found arity " ++
      found.repr
  | argumentCount expected found =>
    "Expected " ++ expected.repr ++ " argument(s) but found " ++ found.repr
  | wrongContainer expected actual =>
    "Cannot match a " ++ expected.name ++ " to " ++ actual.expression
  | unhandled formal => "unhandled free variable container: " ++ formal.expression

end Mismatch

/-- A computation on bindings that can fail and then leaves the bindings it has made. -/
abbrev MatchM := EStateM Mismatch Bindings

/-- Binds `x` to `t`, or checks `t` against the type that `x` is bound to already. -/
def bindVar (x : String) (t : Ty) : MatchM Unit := do
  match (← get).get? x with
  | none => modify (·.insert x t)
  -- the types only have to agree; the first one stays, also when the other is larger
  | some previous =>
    if (previous.unify t).isNone then throw (.conflict x previous t)

namespace Ty

mutual

/-- Binds the variables of `formal` to the types they meet in `actual` (`match_type_variables`). -/
def bindVars (formal actual : Ty) : MatchM Unit :=
  if formal.hasVars then
    match formal, actual with
    | var x, a => bindVar x a
    | list f, list a => bindVars f a
    | list f, tuple s as =>
      match unifyAll as with
      | some t => bindVars f t
      | none => throw (.notAList (list f) (tuple s as))
    | list f, a => throw (.notAList (list f) a)
    | tuple _ fs, tuple _ as =>
      if fs.length = as.length then bindEach fs as else throw (.arity fs.length as.length)
    | tuple _ _, a => throw (.wrongContainer .tuple a)
    | future f, future a => bindVars f a
    | future _, a => throw (.wrongContainer .future a)
    | optional f, optional a => bindVars f a
    | optional _, prim .none => return
    | optional f, a => bindVars f a
    | dict k v, dict k' v' => do
      bindVars k k'
      bindVars v v'
    | dict _ _, a => throw (.wrongContainer .dict a)
    -- only the forms above hold variables
    | f, _ => throw (.unhandled f)
  else return

/-- Binds the variables of the formal types, from left to right; surplus types are not looked at. -/
def bindEach : List Ty → List Ty → MatchM Unit
  | f :: fs, a :: as => do
    bindVars f a
    bindEach fs as
  | _, _ => return

end

/-- The bindings that a computation makes on its own. -/
def bindingsOf (m : MatchM Unit) : Except Mismatch Bindings :=
  match m.run .empty with
  | .ok _ b => .ok b
  | .error e _ => .error e

/-- The bindings under which `formal` matches `actual` (`match_variables`). -/
def matchType (formal actual : Ty) : Except Mismatch Bindings :=
  bindingsOf (bindVars formal actual)

/-- The bindings under which the formal types match the actual ones, place by place
(`match_signature`). -/
def matchTypes (formals actuals : List Ty) : Except Mismatch Bindings :=
  if formals.length = actuals.length then bindingsOf (bindEach formals actuals)
  else .error (.argumentCount formals.length actuals.length)

end Ty

end TensorTyping
