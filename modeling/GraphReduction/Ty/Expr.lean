import GraphReduction.Ty.Node

/-!
Type expressions: the written form of a type, built into nodes from left to right. A variable is
named by the writer and means the same variable wherever the name is used; a register names a node
built before, which is shared. The first failure in building order is the answer.
-/
namespace GraphReduction

/-- On which side of the arrow a repeated type grows. -/
inductive Side where
  | left | right | both
deriving DecidableEq

/-- The base types that have one shared node. -/
inductive BaseTy where
  | int | bool | str
deriving DecidableEq

inductive TyExpr where
  | named (name : String)
  | arrow (parameter result : TyExpr)
  | var (name : String)
  | generic (index : Nat)
  | base (type : BaseTy)
  | chain (parameters : List TyExpr) (result : TyExpr)
  /-- The side matters only if there is an arrow to grow. -/
  | deep (count : Nat) (side? : Option Side) (leaf : TyExpr)
  | register (name : String)
  | malformed

/-- Why an expression does not denote a type. -/
inductive TyExprError where
  | invalidName (error : TypeError)
  | noRegister (name : String)
  | malformed
deriving DecidableEq

/-- The variables and nodes that a writer has named, over the supply they are drawn from. -/
structure TyScope where
  supply : NodeSupply := {}
  varNames : List (String × VarId) := []
  registers : List (String × Node) := []

namespace TyScope

def liftBuilding (b : Building α) : StateM TyScope α := fun scope =>
  let (a, supply) := b.run scope.supply
  (a, { scope with supply })

/-- The variable of a name, drawn at its first mention. -/
def varOfName (name : String) : StateM TyScope VarId := do
  match (← get).varNames.lookup name with
  | some v => pure v
  | none =>
    let v ← liftBuilding Building.freshVar
    modify fun scope => { scope with varNames := scope.varNames ++ [(name, v)] }
    pure v

def register? (scope : TyScope) (name : String) : Option Node := scope.registers.lookup name

def setRegister (scope : TyScope) (name : String) (n : Node) : TyScope :=
  { scope with registers := (name, n) :: scope.registers.filter (·.1 != name) }

end TyScope

namespace BaseTy

def node : BaseTy → Node
  | int => .sharedInt
  | bool => .sharedBool
  | str => .sharedStr

end BaseTy

/-- A number of arrows over one leaf node. -/
def Node.deep (side : Side) (leaf : Node) : Nat → Building Node
  | 0 => pure leaf
  | count + 1 => do
    let inner ← Node.deep side leaf count
    match side with
    | .left => Node.newArrow inner leaf
    | .right => Node.newArrow leaf inner
    | .both => Node.newArrow inner inner

namespace TyExpr

/-- What an expression denotes, with the variables drawn on the way kept also after a failure. -/
abbrev Denotes (α : Type) := ExceptT TyExprError (StateM TyScope) α

def liftScope (m : StateM TyScope α) : Denotes α := ExceptT.lift m

mutual

def build : TyExpr → Denotes Node
  | named name =>
    match TypeName.ofString name with
    | .ok name => liftScope (TyScope.liftBuilding (Node.newNamed name))
    | .error error => throw (.invalidName error)
  | arrow parameter result => do
    let parameter ← parameter.build
    let result ← result.build
    liftScope (TyScope.liftBuilding (Node.newArrow parameter result))
  | var name => liftScope do
    let v ← TyScope.varOfName name
    TyScope.liftBuilding (Node.newVar v)
  | generic index => liftScope (TyScope.liftBuilding do
    Node.newVar (← Building.genericVar index))
  | base type => pure type.node
  | chain parameters result => do
    let parameters ← buildAll parameters
    let result ← result.build
    liftScope (TyScope.liftBuilding (Node.arrowChain parameters result))
  | deep count side? leaf => do
    let leaf ← leaf.build
    match count, side? with
    | 0, _ => pure leaf
    | _, some side => liftScope (TyScope.liftBuilding (Node.deep side leaf count))
    | _, none => throw .malformed
  | register name => do
    match (← liftScope get).register? name with
    | some n => pure n
    | none => throw (.noRegister name)
  | malformed => throw .malformed

def buildAll : List TyExpr → Denotes (List Node)
  | [] => pure []
  | e :: es => do
    let n ← e.build
    let ns ← buildAll es
    pure (n :: ns)

end

end TyExpr

end GraphReduction
