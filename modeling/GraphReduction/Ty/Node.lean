import GraphReduction.Ty.Leaves

/-!
Types as shared nodes. Every node carries a label, and two nodes are the same node exactly when
their labels agree, so it can be said which parts of a result are parts of the input and which are
newly built. `Node.ty` forgets the labels. Labels, like variables, come from a supply.
-/
namespace GraphReduction

/-- A type tree whose nodes have an identity. -/
inductive Node where
  | named (label : Nat) (name : TypeName)
  | arrow (label : Nat) (parameter result : Node)
  | var (label : Nat) (id : VarId)
deriving DecidableEq

/-- Where labels and variables come from. The first three labels belong to the nodes that stand for
`Int`, `Bool` and `Str` wherever these are shared. -/
structure NodeSupply where
  nextLabel : Nat := 3
  vars : VarSupply := {}

/-- A computation that may build nodes. -/
abbrev Building := StateM NodeSupply

namespace Building

def label : Building Nat :=
  modifyGet fun s => (s.nextLabel, { s with nextLabel := s.nextLabel + 1 })

def freshVar : Building VarId :=
  modifyGet fun s => let (v, vars) := s.vars.fresh; (v, { s with vars })

def genericVar (index : Nat) : Building VarId :=
  modifyGet fun s => let (v, vars) := s.vars.generic index; (v, { s with vars })

end Building

namespace Node

def label : Node → Nat
  | named label _ => label
  | arrow label _ _ => label
  | var label _ => label

/-- The type that a node stands for. -/
def ty : Node → Ty
  | named _ name => .named name
  | arrow _ parameter result => .arrow parameter.ty result.ty
  | var _ id => .var id

def text (n : Node) : String := n.ty.text

def sharedInt : Node := .named 0 .int
def sharedBool : Node := .named 1 .bool
def sharedStr : Node := .named 2 .str

/-- Whether two references lead to one node. -/
def identical (a b : Node) : Bool := a.label == b.label

def newNamed (name : TypeName) : Building Node := return named (← Building.label) name

def newArrow (parameter result : Node) : Building Node :=
  return arrow (← Building.label) parameter result

def newVar (id : VarId) : Building Node := return var (← Building.label) id

def freshVar : Building Node := do newVar (← Building.freshVar)

/-- The curried function type from `parameters` to `result`. -/
def arrowChain (parameters : List Node) (result : Node) : Building Node :=
  match parameters with
  | [] => pure result
  | parameter :: parameters => do newArrow parameter (← arrowChain parameters result)

def arrow? : Node → Option (Node × Node)
  | arrow _ parameter result => some (parameter, result)
  | _ => none

/-- Split off the first `count` parameters, if there are that many leading arrows. -/
def splitOff : Nat → Node → Option (List Node × Node)
  | 0, n => some ([], n)
  | count + 1, arrow _ parameter result =>
    (splitOff count result).map fun (parameters, rest) => (parameter :: parameters, rest)
  | _ + 1, _ => none

/-- From so many parameters on there is no room for them: references have eight bytes, and `2^63`
bytes are more than can be asked for. -/
def noRoom : Nat := 1 <<< 60

/-- Split off the first `count` parameters. Room for them is asked for before anything is looked at,
and asking for too much is a panic with this message. -/
def uncurry (count : Nat) (n : Node) : Except String (Option (List Node × Node)) :=
  if count < noRoom then .ok (n.splitOff count) else .error "capacity overflow"

/-- Replace every leaf `v` by the node `replacement`. A subtree without that leaf stays the same
node; only the arrows above a replaced leaf are built anew. -/
def substitute (n : Node) (v : VarId) (replacement : Node) : Building Node :=
  if n.ty.occurs v then
    match n with
    | var _ _ => pure replacement
    | arrow _ parameter result => do
      let parameter ← parameter.substitute v replacement
      let result ← result.substitute v replacement
      newArrow parameter result
    | named label name => pure (named label name)
  else
    pure n

/-- An equal type in which every node is new. -/
def deepCopy : Node → Building Node
  | named _ name => newNamed name
  | arrow _ parameter result => do
    let parameter ← parameter.deepCopy
    let result ← result.deepCopy
    newArrow parameter result
  | var _ id => newVar id

/-- Rename along `known`, where a variable that is not in it gets a fresh one and is added. Named
leaves stay the same node, every arrow is built anew, and equal variables share one node. -/
def instantiateWith (n : Node) (known : List (VarId × Node)) :
    Building (Node × List (VarId × Node)) :=
  match n with
  | named label name => pure (named label name, known)
  | var _ id =>
    match known.lookup id with
    | some image => pure (image, known)
    | none => do
      let image ← freshVar
      pure (image, (id, image) :: known)
  | arrow _ parameter result => do
    let (parameter, known) ← parameter.instantiateWith known
    let (result, known) ← result.instantiateWith known
    pure (← newArrow parameter result, known)

/-- A copy with every variable replaced by a fresh one. -/
def instantiate (n : Node) : Building Node := return (← n.instantiateWith []).1

/-- Copies of several types with one renaming for all, and the size of that renaming. -/
def instantiateAll (ns : List Node) : Building (List Node × Nat) := do
  let (images, known) ← ns.foldlM (fun (images, known) n => do
    let (image, known) ← n.instantiateWith known
    pure (images ++ [image], known)) ([], [])
  pure (images, known.length)

/-- Rename the variables to the generic ones, numbered by first occurrence. -/
def generalize (n : Node) : Building Node := do
  let known ← n.ty.freeVars.zipIdx.mapM fun (v, index) => do
    pure (v, ← newVar (← Building.genericVar index))
  return (← n.instantiateWith known).1

@[simp] theorem ty_named (label : Nat) (name : TypeName) : (named label name).ty = .named name :=
  rfl

@[simp] theorem ty_arrow (label : Nat) (parameter result : Node) :
    (arrow label parameter result).ty = .arrow parameter.ty result.ty := rfl

@[simp] theorem ty_var (label : Nat) (id : VarId) : (var label id).ty = .var id := rfl

end Node

end GraphReduction
