import GraphReduction.Ty.Expr
import GraphReduction.Unify.Solve

/-!
Questions about a set of written equations: solve them, apply the solution to further types and look
variables up in it. The types are built in the order in which they are written.
-/
namespace GraphReduction

/-- Equations collected in order, to be solved together. -/
structure Constraints where
  equations : Array Equation := #[]

namespace Constraints

def push (c : Constraints) (expected actual : Ty) : Constraints :=
  ⟨c.equations.push ⟨expected, actual⟩⟩

def size (c : Constraints) : Nat := c.equations.size

def isEmpty (c : Constraints) : Bool := c.equations.isEmpty

def solve (c : Constraints) : Except UnifyError Substitution := unify c.equations.toList

@[simp] theorem equations_push (c : Constraints) (expected actual : Ty) :
    (c.push expected actual).equations = c.equations.push ⟨expected, actual⟩ := rfl

end Constraints

structure UnifyQuery where
  equations : List (TyExpr × TyExpr)
  apply : List TyExpr
  lookup : List String

/-- A solution with what was asked of it. -/
structure UnifySolution where
  bindings : List (VarId × Ty)
  applied : List Ty
  found : List (Option Ty)

/-- The collected equations and what solving them gave. -/
structure UnifyAnswer where
  constraints : Constraints
  outcome : Except UnifyError UnifySolution

namespace UnifyQuery

open TyExpr (Denotes liftScope)

def collect (c : Constraints) : List (TyExpr × TyExpr) → Denotes Constraints
  | [] => pure c
  | (expected, actual) :: rest => do
    let expected ← expected.build
    let actual ← actual.build
    collect (c.push expected.ty actual.ty) rest

def answer (q : UnifyQuery) : Denotes UnifyAnswer := do
  let constraints ← collect {} q.equations
  let types ← TyExpr.buildAll q.apply
  match constraints.solve with
  | .error error => pure ⟨constraints, .error error⟩
  | .ok s => do
    let vs ← liftScope (q.lookup.mapM TyScope.varOfName)
    pure ⟨constraints, .ok ⟨s.bindings, types.map fun n => s.apply n.ty, vs.map s.lookup⟩⟩

end UnifyQuery

end GraphReduction
