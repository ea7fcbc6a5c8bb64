import GraphReduction.Combinator.Basic
import GraphReduction.Combinator.Body
import GraphReduction.Combinator.Primitive
import GraphReduction.Error
import GraphReduction.Heap.Arena
import GraphReduction.Heap.Basic
import GraphReduction.Heap.Handle
import GraphReduction.Heap.Lemmas
import GraphReduction.Heap.Object
import GraphReduction.Heap.Release
import GraphReduction.Heap.Text
import GraphReduction.Machine.Application
import GraphReduction.Machine.Basic
import GraphReduction.Machine.Closure
import GraphReduction.Machine.Initial
import GraphReduction.Machine.Thunk
import GraphReduction.OptionalPart
import GraphReduction.Options
import GraphReduction.Proofs.Heap.Cascade
import GraphReduction.Proofs.Heap.Counted
import GraphReduction.Proofs.Heap.Freed
import GraphReduction.Proofs.Heap.Holdings
import GraphReduction.Proofs.Heap.Proper
import GraphReduction.Proofs.Heap.Release
import GraphReduction.Proofs.Heap.Steps
import GraphReduction.Proofs.Moves.Access
import GraphReduction.Proofs.Moves.Basic
import GraphReduction.Proofs.Moves.Binding
import GraphReduction.Proofs.Moves.Body
import GraphReduction.Proofs.Moves.Does
import GraphReduction.Proofs.Moves.Evaluator
import GraphReduction.Proofs.Moves.Kept
import GraphReduction.Proofs.Moves.Machine
import GraphReduction.Proofs.Moves.Tie
import GraphReduction.Proofs.Moves.Valid
import GraphReduction.Proofs.Unify.Assignment
import GraphReduction.Proofs.Unify.MostGeneral
import GraphReduction.Reconstruct
import GraphReduction.Reduce.Body
import GraphReduction.Reduce.Evaluator
import GraphReduction.Session.Answer
import GraphReduction.Session.Basic
import GraphReduction.Session.Command
import GraphReduction.Session.Look
import GraphReduction.Session.Produce
import GraphReduction.Session.Run
import GraphReduction.Text.Blank
import GraphReduction.Text.Integer
import GraphReduction.Text.Quoted
import GraphReduction.Text.Unprintable
import GraphReduction.Text.VarNames
import GraphReduction.Ty.Basic
import GraphReduction.Ty.Command
import GraphReduction.Ty.Expr
import GraphReduction.Ty.Leaves
import GraphReduction.Ty.Name
import GraphReduction.Ty.Node
import GraphReduction.Ty.Rename
import GraphReduction.Ty.Var
import GraphReduction.Unify.Query
import GraphReduction.Unify.Solve
import GraphReduction.Unify.Substitution
import GraphReduction.Proofs.Types.Rename
import GraphReduction.Proofs.Types.Consistent
import GraphReduction.Proofs.Types.Walk
import GraphReduction.Proofs.Types.Visit
import GraphReduction.Proofs.Types.Principal
import GraphReduction.Proofs.Labels.Labelling
import GraphReduction.Proofs.Labels.Roles
import GraphReduction.Proofs.Labels.Ends
import GraphReduction.Proofs.Labels.Binding
import GraphReduction.Proofs.Labels.Bodies
import GraphReduction.Proofs.Labels.Initial
import GraphReduction.Proofs.Labels.Reduction
import GraphReduction.Proofs.Terms.CallByName
import GraphReduction.Proofs.Terms.Laid
import GraphReduction.Proofs.Terms.Preservation
import GraphReduction.Proofs.Terms.Sharing
import GraphReduction.Proofs.Session.Balance
import GraphReduction.Proofs.Session.Registers
import GraphReduction.Proofs.Session.Operands
import GraphReduction.Proofs.Session.Operations
import GraphReduction.Proofs.Session.Looking
import GraphReduction.Proofs.Session.Declare
import GraphReduction.Proofs.Session.Producers
import GraphReduction.Proofs.Session.Commands
import GraphReduction.Proofs.Session.Counts
import GraphReduction.Proofs.Supply.Heedless
import GraphReduction.Proofs.Supply.Follows
import GraphReduction.Proofs.Supply.Accepts
import GraphReduction.Proofs.Types.Checked
import GraphReduction.Proofs.Types.Supply
import GraphReduction.Proofs.Types.Variants
import GraphReduction.Proofs.Types.Shift
import GraphReduction.Proofs.Heap.Reaches
import GraphReduction.Proofs.Unify.Order
import GraphReduction.Proofs.Unify.Equivariance
import GraphReduction.Proofs.Labels.Demand
import GraphReduction.Proofs.Terms.Client
import GraphReduction.Proofs.Terms.TypeLabels
import GraphReduction.Proofs.Terms.Typed
import GraphReduction.Proofs.Terms.RoleTypes
import GraphReduction.Proofs.Terms.Checked
import GraphReduction.Proofs.Terms.Transparent
import GraphReduction.Proofs.Types.Draws
import GraphReduction.Proofs.Types.Repeatable
import GraphReduction.Proofs.Types.Moved
import GraphReduction.Proofs.Supply.Deepens
import GraphReduction.Proofs.Trees.Binding
import GraphReduction.Proofs.Trees.Bodies
import GraphReduction.Proofs.Trees.Knotless
import GraphReduction.Proofs.Trees.Unrolling
import GraphReduction.Proofs.Trees.Holder
import GraphReduction.Proofs.Trees.Fixpoint
import GraphReduction.Proofs.Runs.Commands
import GraphReduction.Proofs.Runs.Closures
import GraphReduction.Proofs.Runs.Typable
import GraphReduction.Proofs.Runs.Append
import GraphReduction.Proofs.Runs.Develops
import GraphReduction.Proofs.Runs.Results
import GraphReduction.Proofs.Tags.Obtained
import GraphReduction.Proofs.Tags.Events
import GraphReduction.Proofs.Tags.Bound
import GraphReduction.Proofs.Tags.Knots
import GraphReduction.Proofs.Cycles.Orderly
import GraphReduction.Proofs.Cycles.Untied
import GraphReduction.Proofs.Cycles.Reclaimed
import GraphReduction.Proofs.Moves.Advances
import GraphReduction.Proofs.Moves.Footprint
import GraphReduction.Proofs.Contexts.Reach
import GraphReduction.Proofs.Contexts.Aftermath
import GraphReduction.Proofs.Contexts.Spine
import GraphReduction.Proofs.Contexts.Begun
import GraphReduction.Proofs.Contexts.Failure
import GraphReduction.Proofs.Contexts.Call
import GraphReduction.Proofs.Contexts.Propagation
import GraphReduction.Proofs.Contexts.Strict
import GraphReduction.Proofs.Contexts.Discarded
import GraphReduction.Proofs.Contexts.Resumed
import GraphReduction.Proofs.Contexts.Copied
import GraphReduction.Proofs.Unify.SolvedForm
import GraphReduction.Proofs.Types.Drawn
import GraphReduction.Proofs.Types.Canonical
import GraphReduction.Proofs.Heap.Drained
import GraphReduction.Proofs.Supply.HandsOut
import GraphReduction.Proofs.Supply.Distinct
import GraphReduction.Proofs.Unify.Turns
import GraphReduction.Proofs.Types.Text
import GraphReduction.Proofs.Types.Entered
import GraphReduction.Proofs.Terms.Terminating
import GraphReduction.Proofs.Types.Curried
import GraphReduction.Proofs.Types.Leaves
import GraphReduction.Proofs.Types.Substitute
import GraphReduction.Proofs.Types.Written
import GraphReduction.Proofs.Types.Identity
