import GraphReduction.Ty.Basic

/-!
The built-in combinators. Each has a name and a type; the type variables of the polymorphic ones are
drawn once, when the primitives are set up.
-/
namespace GraphReduction

inductive Primitive where
  | add | sub | mul | eq | lt | ifThenElse | identity | constant | fail | fix
deriving DecidableEq

namespace Primitive

/-- Every primitive, in the order in which they are set up. -/
def all : List Primitive :=
  [add, sub, mul, eq, lt, ifThenElse, identity, constant, fail, fix]

def place : Primitive → Nat
  | add => 0
  | sub => 1
  | mul => 2
  | eq => 3
  | lt => 4
  | ifThenElse => 5
  | identity => 6
  | constant => 7
  | fail => 8
  | fix => 9

def name : Primitive → String
  | add => "add"
  | sub => "sub"
  | mul => "mul"
  | eq => "eq"
  | lt => "lt"
  | ifThenElse => "if_then_else"
  | identity => "identity"
  | constant => "constant"
  | fail => "fail"
  | fix => "fix"

def ofName? (name : String) : Option Primitive := all.find? (·.name == name)

def type (p : Primitive) (vars : VarSupply) : Ty × VarSupply :=
  match p with
  | add | sub | mul => (.arrowChain [.int, .int] .int, vars)
  | eq | lt => (.arrowChain [.int, .int] .bool, vars)
  | ifThenElse =>
    let (a, vars) := vars.fresh
    (.arrowChain [.bool, .var a, .var a] (.var a), vars)
  | identity =>
    let (a, vars) := vars.fresh
    (.arrow (.var a) (.var a), vars)
  | constant =>
    let (a, vars) := vars.fresh
    let (b, vars) := vars.fresh
    (.arrowChain [.var a, .var b] (.var a), vars)
  | fail =>
    let (a, vars) := vars.fresh
    (.arrow .str (.var a), vars)
  | fix =>
    let (a, vars) := vars.fresh
    (.arrow (.arrow (.var a) (.var a)) (.var a), vars)

theorem all_getElem?_place (p : Primitive) : all[p.place]? = some p := by
  cases p <;> rfl

theorem ofName?_name (p : Primitive) : ofName? p.name = some p := by
  cases p <;> decide

end Primitive

end GraphReduction
