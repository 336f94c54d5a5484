import TensorTyping.Generic.Instantiate
import TensorTyping.Generic.Match
import TensorTyping.Json.Facts
import TensorTyping.Subtype.Explain
import TensorTyping.Proofs.TensorOrder
import TensorTyping.Proofs.Subtype.Rules
import TensorTyping.Proofs.Ty.Parts
import TensorTyping.Proofs.Subtype.Preorder
import TensorTyping.Proofs.Unify.Rules
import TensorTyping.Proofs.Unify.Bounds
import TensorTyping.Proofs.Unify.Atoms
import TensorTyping.Proofs.Generic.Instance
import TensorTyping.Proofs.Generic.Outcome
import TensorTyping.Proofs.Generic.Walk
import TensorTyping.Proofs.Generic.RoundTrip
import TensorTyping.Proofs.Generic.Observation
import TensorTyping.Proofs.Generic.CallSite
import TensorTyping.Proofs.Generic.Monotone
import TensorTyping.Proofs.WellFormed.Basic
import TensorTyping.Proofs.WellFormed.Operations
import TensorTyping.Proofs.Subtype.Antisymmetry
import TensorTyping.Proofs.Unify.Coarse
import TensorTyping.Proofs.Unify.Commute
import TensorTyping.Proofs.Generic.Progress
import TensorTyping.Proofs.Generic.Rerun
import TensorTyping.Proofs.Subtype.Explained
import TensorTyping.Proofs.TensorKnowledge
import TensorTyping.Proofs.Unify.AnyOrder
import TensorTyping.Proofs.Generic.Substitution
import TensorTyping.Proofs.Generic.SignatureVariables
import TensorTyping.Proofs.Unify.Absorb
import TensorTyping.Proofs.Subtype.Optional
import TensorTyping.Proofs.Shape.RowMajor
import TensorTyping.Proofs.Unify.Unanimous
import TensorTyping.Proofs.Subtype.Shortcut
import TensorTyping.Proofs.Shape.Addressing
import TensorTyping.Proofs.Ty.FirstOffender
import TensorTyping.Proofs.Ty.Lens
import TensorTyping.Proofs.Generic.Failure
import TensorTyping.Proofs.Json.Spelling
import TensorTyping.Proofs.StrictMerge
import TensorTyping.Proofs.Text.Items
import TensorTyping.Proofs.Shape.Reading
import TensorTyping.Proofs.Ty.UniqueReading
import TensorTyping.Proofs.WellFormed.Scan
