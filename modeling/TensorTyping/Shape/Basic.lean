import TensorTyping.Known

/-!
# Shapes

A shape records how much is known of the extents of a tensor along its axes: nothing, only how many
axes there are, or some or all of the extents as well. Merging two shapes forgets until both agree:

* different or unknown ranks leave no rank at all;
* equal ranks are merged axis by axis.

`Shape.mergeUnder` is the same merge behind a policy: the strict one refuses to merge two known ranks
that differ, and otherwise it answers as the lenient one does.
-/

set_option autoImplicit false

namespace TensorTyping

/-- The extent of one axis, or the distance between neighbours along it: a machine word. -/
abbrev Extent := UInt64

/-- What is known of the extents of a tensor (`VaryingShape`). -/
structure Shape where
  /-- The axes in order, when their number is known, each with its extent when that is known. -/
  dims : Known (List (Known Extent))
deriving DecidableEq, Repr

/-- What to do with two known ranks that differ (`ShapeMergePolicy`). -/
inductive MergePolicy where
  /-- Forget the rank. -/
  | lenient
  /-- Refuse to merge. -/
  | strict
deriving DecidableEq, Repr

instance : Inhabited MergePolicy := ⟨.lenient⟩

/-- The refusal of a strict merge: two known ranks that differ (`ShapeRankMismatch`). -/
structure RankMismatch where
  /-- The rank of the left operand. -/
  left : Nat
  /-- The rank of the right operand. -/
  right : Nat
deriving DecidableEq, Repr

/-- The text of a refused merge. -/
def RankMismatch.message (e : RankMismatch) : String :=
  "cannot merge shapes of rank " ++ e.left.repr ++ " and rank " ++ e.right.repr

namespace Shape

/-! ## Building shapes -/

/-- Nothing is known, not even the rank. -/
def unknown : Shape := ⟨none⟩

/-- The given axes (`VaryingShape::new`). -/
def ofDims (dims : List (Known Extent)) : Shape := ⟨some dims⟩

/-- A known number of axes of unknown extents (`with_rank`). -/
def ofRank (n : Nat) : Shape := ofDims (List.replicate n none)

/-- Known extents along every axis (`VaryingShape::from_sizes`). -/
def ofSizes (sizes : List Extent) : Shape := ofDims (sizes.map some)

/-! ## Reading shapes -/

/-- The number of axes. -/
def rank (s : Shape) : Known Nat := s.dims.map List.length

/-- The extent of axis `i` (`VaryingShape::dim`); unknown also beyond the last axis. -/
def extent (s : Shape) (i : Nat) : Known Extent := s.dims.bind (·[i]?.join)

/-- Every extent is known. -/
def isComplete (s : Shape) : Bool := s.dims.any (·.all Option.isSome)

/-- The extents, when every one is known (`concrete_sizes`). -/
def sizes? (s : Shape) : Option (List Extent) := s.dims.bind Known.sequence

/-! ## Merging -/

/-- What two shapes agree on. -/
def merge (a b : Shape) : Shape :=
  match a.dims, b.dims with
  | some xs, some ys =>
    if xs.length = ys.length then ofDims (List.zipWith Known.merge xs ys) else unknown
  | _, _ => unknown

/-- What two shapes agree on, unless the policy refuses their ranks (`merge_with`). -/
def mergeUnder (policy : MergePolicy) (a b : Shape) : Except RankMismatch Shape :=
  match policy, a.rank, b.rank with
  | .strict, some m, some n => if m = n then .ok (a.merge b) else .error ⟨m, n⟩
  | _, _, _ => .ok (a.merge b)

/-! ## Text -/

/-- One axis in text: its extent, or a star. -/
def displayExtent : Known Extent → String
  | some n => n.toNat.repr
  | none => "*"

/-- A shape in text: `(2, *, 3)`, or `(*)` when the rank is unknown. -/
def display (s : Shape) : String :=
  match s.dims with
  | none => "(*)"
  | some dims => "(" ++ ", ".intercalate (dims.map displayExtent) ++ ")"

end Shape

end TensorTyping
