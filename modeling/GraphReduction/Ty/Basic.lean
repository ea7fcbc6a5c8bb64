import GraphReduction.Ty.Name
import GraphReduction.Ty.Var

/-!
Types as trees: named value types, function types and variables. A curried function type is a chain
of arrows to the right; `arity` counts them, `arrowChain` builds them and `splitOff` takes them off.
-/
namespace GraphReduction

inductive Ty where
  | named (name : TypeName)
  | arrow (parameter result : Ty)
  | var (id : VarId)
deriving DecidableEq

namespace Ty

def int : Ty := .named .int
def bool : Ty := .named .bool
def str : Ty := .named .str
def pair : Ty := .named .pair
def tracked : Ty := .named .tracked

def text : Ty → String
  | named name => name.text
  | arrow parameter result => "(" ++ parameter.text ++ " -> " ++ result.text ++ ")"
  | var id => id.text

def size : Ty → Nat
  | named _ => 1
  | arrow parameter result => 1 + parameter.size + result.size
  | var _ => 1

theorem size_pos (t : Ty) : 0 < t.size := by
  cases t with
  | named | var => exact Nat.one_pos
  | arrow parameter result => simp only [size]; omega

def name? : Ty → Option TypeName
  | named name => some name
  | _ => none

def var? : Ty → Option VarId
  | var id => some id
  | _ => none

def arrow? : Ty → Option (Ty × Ty)
  | arrow parameter result => some (parameter, result)
  | _ => none

/-- How many arguments a value of this type takes before it yields something else than a
function. -/
def arity : Ty → Nat
  | arrow _ result => result.arity + 1
  | _ => 0

/-- The curried function type from `parameters` to `result`. -/
def arrowChain (parameters : List Ty) (result : Ty) : Ty :=
  parameters.foldr arrow result

/-- Split off the first `count` parameters, if there are that many leading arrows. -/
def splitOff : Nat → Ty → Option (List Ty × Ty)
  | 0, t => some ([], t)
  | count + 1, arrow parameter result =>
    (splitOff count result).map fun (parameters, rest) => (parameter :: parameters, rest)
  | _ + 1, _ => none

@[simp] theorem arrowChain_nil (result : Ty) : arrowChain [] result = result := rfl

@[simp] theorem arrowChain_cons (parameter : Ty) (parameters : List Ty) (result : Ty) :
    arrowChain (parameter :: parameters) result = arrow parameter (arrowChain parameters result) :=
  rfl

@[simp] theorem arity_arrow (parameter result : Ty) :
    (arrow parameter result).arity = result.arity + 1 := rfl

/-- Replace every leaf `v` by `replacement`, which is not searched again. -/
def substitute (t : Ty) (v : VarId) (replacement : Ty) : Ty :=
  match t with
  | named name => named name
  | arrow parameter result =>
    arrow (parameter.substitute v replacement) (result.substitute v replacement)
  | var id => if id = v then replacement else var id

end Ty

end GraphReduction
