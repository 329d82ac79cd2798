import BMethod.Declaration
import BMethod.Diagnostic.Basic
import BMethod.Diagnostic.Render
import BMethod.Formula
import BMethod.Halt
import BMethod.Json
import BMethod.Ltl
import BMethod.Machine
import BMethod.Node
import BMethod.Operator
import BMethod.Report
import BMethod.Source
import BMethod.Span
import BMethod.Substitution
import BMethod.Ty.Basic
import BMethod.Ty.Json
import BMethod.Ty.Text
import BMethod.Typing.Check
import BMethod.Typing.Conclude
import BMethod.Typing.Error
import BMethod.Typing.Event
import BMethod.Typing.Formula
import BMethod.Typing.Machine
import BMethod.Typing.Signature
import BMethod.Typing.State
import BMethod.Typing.Substitution
import BMethod.Unifier.Product
import BMethod.Unifier.Store
import BMethod.Unifier.Unify
import BMethod.Proofs.Acceptance
import BMethod.Proofs.Annotation
import BMethod.Proofs.Calls
import BMethod.Proofs.Carets
import BMethod.Proofs.Concrete
import BMethod.Proofs.Coverage
import BMethod.Proofs.Excerpt
import BMethod.Proofs.Isolation
import BMethod.Proofs.Lines
import BMethod.Proofs.Mismatch
import BMethod.Proofs.Order
import BMethod.Proofs.Positions
import BMethod.Proofs.Preservation
import BMethod.Proofs.Recheck.Links
import BMethod.Proofs.Recheck.Machine
import BMethod.Proofs.Recheck.Operator
import BMethod.Proofs.Recheck.Outcome
import BMethod.Proofs.Recheck.Reading
import BMethod.Proofs.Recheck.State
import BMethod.Proofs.Recheck.Steps
import BMethod.Proofs.Recheck.Substitution
import BMethod.Proofs.Recheck.Tree
import BMethod.Proofs.Recheck.Variables
import BMethod.Proofs.Rechecking
import BMethod.Proofs.Renaming
import BMethod.Proofs.Session
import BMethod.Proofs.Shared
import BMethod.Proofs.Solving
import BMethod.Proofs.Soundness
import BMethod.Proofs.Store.Abreast
import BMethod.Proofs.Store.Alike
import BMethod.Proofs.Store.Allocate
import BMethod.Proofs.Store.Bindings
import BMethod.Proofs.Store.Calm
import BMethod.Proofs.Store.Depth
import BMethod.Proofs.Store.Follow
import BMethod.Proofs.Store.Frame
import BMethod.Proofs.Store.Graph
import BMethod.Proofs.Store.Holds
import BMethod.Proofs.Store.Identify
import BMethod.Proofs.Store.Mirror
import BMethod.Proofs.Store.Model
import BMethod.Proofs.Store.Narrow
import BMethod.Proofs.Store.Run
import BMethod.Proofs.Store.Secluded
import BMethod.Proofs.Store.Solutions
import BMethod.Proofs.Store.Under
import BMethod.Proofs.Store.Unify
import BMethod.Proofs.Symmetry
import BMethod.Proofs.Temporal
import BMethod.Proofs.Traversal
import BMethod.Proofs.Tree
import BMethod.Proofs.Typing.Check
import BMethod.Proofs.Typing.Complete.Operator
import BMethod.Proofs.Typing.Complete.Tree
import BMethod.Proofs.Typing.Conclude
import BMethod.Proofs.Typing.Discipline
import BMethod.Proofs.Typing.Form
import BMethod.Proofs.Typing.Frame
import BMethod.Proofs.Typing.Guessed
import BMethod.Proofs.Typing.Overwrite
import BMethod.Proofs.Typing.Reported
import BMethod.Proofs.Typing.Retyped
import BMethod.Proofs.Typing.Rules
import BMethod.Proofs.Typing.Signature
import BMethod.Proofs.Typing.Sound.Machine
import BMethod.Proofs.Typing.Sound.Operator
import BMethod.Proofs.Typing.Sound.Tree
import BMethod.Proofs.Typing.State
import BMethod.Proofs.Typing.Supply
import BMethod.Proofs.Typing.Walked
import BMethod.Proofs.Typings
import BMethod.Proofs.Unifier
import BMethod.Proofs.Value
import BMethod.Proofs.Written
