import TensorTyping.Subtype.Basic
import TensorTyping.Ty.Text

/-!
# Explaining why a type is not a subtype

`Ty.explainSubtype` goes through the rules of subtyping in a fixed order and appends to a log why a
rule failed, where there is more to say than that the two types are unrelated. The log is a text that
only ever grows, so a caller can collect explanations of several comparisons in one log.

An optional on the right is first tried through its element, and the log keeps what that attempt had
to say also when a later attempt fails in its own way.
-/

set_option autoImplicit false

namespace TensorTyping

/-- Why one rule of subtyping failed. -/
inductive Objection where
  /-- Tuples of different lengths. -/
  | tupleLength (mine theirs : Nat)
  /-- A tuple without field names where they are expected. -/
  | unnamedTuple
  /-- Tuples with different field names. -/
  | fieldNames (mine theirs : List String)
  /-- An interface lacks a method. -/
  | missingMethod (mine method theirs : String)
  /-- A method of an interface cannot stand for the one expected. -/
  | incompatibleMethod (mine theirs : String) (own expected : Signature Ty)
  /-- Methods with different numbers of parameters. -/
  | argumentCount (method : String) (mine theirs : Nat)
  /-- A parameter with another name. -/
  | argumentName (method mine theirs : String)

/-- The text of an objection; each line of it is ended. -/
def Objection.text : Objection → String
  | tupleLength m n =>
    "Tuple of " ++ m.repr ++ " element(s) is not compatible with a tuple of " ++ n.repr ++
      " element(s).\n"
  | unnamedTuple => "An unnamed tuple is not a subtype of a named tuple.\n"
  | fieldNames xs ys =>
    "Named tuple fields (" ++ ", ".intercalate xs ++ ") do not match (" ++ ", ".intercalate ys ++
      ").\n"
  | missingMethod mine method theirs =>
    "Interface '" ++ mine ++ "' does not have method '" ++ method ++ "' but interface '" ++ theirs ++
      "' does.\n"
  | incompatibleMethod mine theirs own expected =>
    "Method on interface '" ++ mine ++ "' (1) is not compatible with interface '" ++ theirs ++
      "' (2)\n" ++
      "  (1) " ++ own.display ++ "\n" ++
      "  (2) " ++ expected.display ++ "\n"
  | argumentCount method m n =>
    "Method '" ++ method ++ "' takes " ++ m.repr ++ " argument(s) but " ++ n.repr ++
      " are expected.\n"
  | argumentName method x y =>
    "Argument '" ++ x ++ "' of method '" ++ method ++ "' is named '" ++ y ++
      "' in the expected signature.\n"

/-- A computation that can append to a log. -/
abbrev Logged := StateM String

/-- The answer no, with the objection in the log. -/
def Objection.reject (o : Objection) : Logged Bool := do
  modify (· ++ o.text)
  return false

mutual

/-- Whether `a` is a subtype of `b`, with objections in the log (`is_subtype_of_ext`). -/
def Ty.explainSubtype (a b : Ty) : Logged Bool :=
  if a = b then return true else
  match a, b with
  | _, .prim .any => return true
  | .prim .int, .prim .number => return true
  | .prim .float, .prim .number => return true
  | .prim .none, .optional _ => return true
  | .tensor f, .tensor g => return f.merge g == g
  | .optional a, .optional b => do
    if ← Ty.explainSubtype (.optional a) b then return true else Ty.explainSubtype a b
  | a, .optional b => Ty.explainSubtype a b
  | .list a, .list b => Ty.explainSubtype a b
  | .future a, .future b => Ty.explainSubtype a b
  | .dict k v, .dict k' v' => do
    if ← Ty.explainSubtype k k' then Ty.explainSubtype v v' else return false
  | .tuple s as, .tuple t bs =>
    if as.length = bs.length then
      match s, t with
      | _, none => Ty.explainSubtypes as bs
      | none, some _ => Objection.unnamedTuple.reject
      | some s, some t =>
        if s.fields = t.fields then Ty.explainSubtypes as bs
        else (Objection.fieldNames s.fields t.fields).reject
    else (Objection.tupleLength as.length bs.length).reject
  | .interface x ms, .interface y ns => Ty.explainOffersAll x y ms ns
  | _, _ => return false
termination_by sizeOf a + sizeOf b

/-- Whether the types are subtypes one by one, up to the first that is not. -/
def Ty.explainSubtypes (as bs : List Ty) : Logged Bool :=
  match as, bs with
  | [], [] => return true
  | a :: as, b :: bs => do
    if ← Ty.explainSubtype a b then Ty.explainSubtypes as bs else return false
  | _, _ => return false
termination_by sizeOf as + sizeOf bs

/-- Whether the methods `ms` of the interface `x` can stand for the methods `ns` of `y`, up to the
first that has no stand-in. -/
def Ty.explainOffersAll (x y : String) (ms ns : List (Signature Ty)) : Logged Bool :=
  match ns with
  | [] => return true
  | n :: ns => do
    if ← Ty.explainOffers x y ms n then Ty.explainOffersAll x y ms ns else return false
termination_by sizeOf ms + sizeOf ns

/-- Whether the first of the methods `ms` with the name of `n` can stand for `n`. -/
def Ty.explainOffers (x y : String) (ms : List (Signature Ty)) (n : Signature Ty) : Logged Bool :=
  match ms with
  | [] => (Objection.missingMethod x n.name y).reject
  | m :: ms =>
    if m.name = n.name then do
      if ← Signature.explainSubtype m n then return true
      else (Objection.incompatibleMethod x y m n).reject
    else Ty.explainOffers x y ms n
termination_by sizeOf ms + sizeOf n

/-- Whether a method with the signature `m` can stand for one with the signature `n`. Different
numbers of returned types are not worth a word. -/
def Signature.explainSubtype (m n : Signature Ty) : Logged Bool :=
  match m, n with
  | ⟨x, ps, rs⟩, ⟨_, qs, ss⟩ =>
    if ps.length = qs.length then do
      if ← Ty.explainAccepts x ps qs then
        if rs.length = ss.length then Ty.explainSubtypes rs ss else return false
      else return false
    else (Objection.argumentCount x ps.length qs.length).reject
termination_by sizeOf m + sizeOf n

/-- Whether the parameters `ps` of the method `f` accept every argument that `qs` accept, up to the
first that does not. -/
def Ty.explainAccepts (f : String) (ps qs : List (String × Ty)) : Logged Bool :=
  match ps, qs with
  | [], [] => return true
  | (x, a) :: ps, (y, b) :: qs =>
    if x = y then do
      if ← Ty.explainSubtype b a then Ty.explainAccepts f ps qs else return false
    else (Objection.argumentName f x y).reject
  | _, _ => return false
termination_by sizeOf ps + sizeOf qs

end

/-- Nothing when `a` is a subtype of `b`, and otherwise the explanation, which is never empty
(`subtype_explained`). -/
def Ty.whyNotSubtype? (a b : Ty) : Option String :=
  match (a.explainSubtype b).run "" with
  | (true, _) => none
  | (false, log) =>
    if log.isEmpty then some (a.expression ++ " is not a subtype of " ++ b.expression)
    else some log

end TensorTyping
