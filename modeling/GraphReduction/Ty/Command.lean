import GraphReduction.OptionalPart
import GraphReduction.Ty.Expr

/-!
Commands that build, store and inspect types. Registers hold nodes, so a command can tell whether
two types are one node. A command that fails leaves the registers as they were, while variables
drawn on the way stay drawn.
-/
namespace GraphReduction

/-- How a type is made from another one. -/
inductive TyCopy where
  | same | deep | instantiated | generalized
deriving DecidableEq

inductive TyPart where
  | parameter | result
deriving DecidableEq

/-- A command; `into` names the register for the resulting type. A part of a command that the
writer left out or got wrong is missing here and noticed when it is needed. -/
inductive TyCommand where
  | name (text : String)
  | copy (how : TyCopy) (t : TyExpr) (into : OptionalPart String)
  | freshVar (into : OptionalPart String)
  | substitute (t replacement : TyExpr) (v? : Option String) (into : OptionalPart String)
  | part (which : TyPart) (t : TyExpr) (into : OptionalPart String)
  | instantiateAll (ts : List TyExpr)
  | inspect (t : TyExpr)
  | uncurry (t : TyExpr) (count? : Option Nat)
  | occurs (t : TyExpr) (v? : Option String)
  | compare (a b : TyExpr)
  | freshIds (count : Nat)
  | genericIds (a b : Nat)
  | malformed

inductive TyAnswer where
  | name (name : TypeName)
  | type (t : Ty)
  | noType
  | types (ts : List Ty) (renamed : Nat)
  | inspected (t : Ty)
  | uncurried (parts? : Option (List Ty × Ty))
  /-- A panic with this message, instead of an answer. -/
  | panicked (message : String)
  | occurs (yes : Bool)
  | compared (same identical : Bool)
  | gaps (differences : List Nat)
  | sameGeneric (yes : Bool)

namespace TyCommand

open TyExpr (Denotes liftScope)

def building (b : Building α) : Denotes α := liftScope (TyScope.liftBuilding b)

def require (a? : Option α) : Denotes α :=
  match a? with
  | some a => pure a
  | none => throw .malformed

/-- Store a type if a register is named, and answer it. -/
def store (into : OptionalPart String) (n : Node) : Denotes TyAnswer := do
  if let some register := ← require into.read? then
    liftScope (modify (·.setRegister register n))
  pure (.type n.ty)

def copyAs : TyCopy → Node → Building Node
  | .same, n => pure n
  | .deep, n => n.deepCopy
  | .instantiated, n => n.instantiate
  | .generalized, n => n.generalize

/-- Draw `count` variables after `before` and list how far each is from the one before. -/
def drawGaps (before : VarId) : Nat → Building (List Nat)
  | 0 => pure []
  | count + 1 => do
    let v ← Building.freshVar
    let rest ← drawGaps v count
    pure ((v.raw - before.raw).toNat :: rest)

def answer : TyCommand → Denotes TyAnswer
  | name text =>
    match TypeName.ofString text with
    | .ok valid => pure (.name valid)
    | .error error => throw (.invalidName error)
  | copy how t into => do
    let n ← t.build
    store into (← building (copyAs how n))
  | freshVar into => do store into (← building Node.freshVar)
  | substitute t replacement v? into => do
    let n ← t.build
    let replacement ← replacement.build
    let v ← liftScope (TyScope.varOfName (← require v?))
    store into (← building (n.substitute v replacement))
  | part which t into => do
    match (← t.build).arrow? with
    | some (parameter, result) =>
      store into (match which with | .parameter => parameter | .result => result)
    | none => pure .noType
  | instantiateAll ts => do
    let ns ← TyExpr.buildAll ts
    let (images, renamed) ← building (Node.instantiateAll ns)
    pure (.types (images.map Node.ty) renamed)
  | inspect t => return .inspected (← t.build).ty
  | uncurry t count? => do
    let n ← t.build
    let count ← require count?
    match n.uncurry count with
    | .ok parts? =>
      pure (.uncurried (parts?.map fun (parts, rest) => (parts.map Node.ty, rest.ty)))
    | .error message => pure (.panicked message)
  | occurs t v? => do
    let n ← t.build
    let v ← liftScope (TyScope.varOfName (← require v?))
    pure (.occurs (n.ty.occurs v))
  | compare a b => do
    let a ← a.build
    let b ← b.build
    pure (.compared (a.ty == b.ty) (Node.identical a b))
  | freshIds count =>
    match count with
    | 0 => pure (.gaps [])
    | count + 1 => do
      let first ← building Building.freshVar
      pure (.gaps (← building (drawGaps first count)))
  | genericIds a b => do
    let a ← building (Building.genericVar a)
    let b ← building (Building.genericVar b)
    pure (.sameGeneric (a == b))
  | malformed => throw .malformed

end TyCommand

end GraphReduction
