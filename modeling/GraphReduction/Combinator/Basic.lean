import GraphReduction.Combinator.Body
import GraphReduction.Heap.Handle

/-!
Declared combinators. A combinator takes at least one argument and at most as many as its type has
leading arrows; if it takes fewer, its body returns a function.
-/
namespace GraphReduction

structure Combinator where
  name : String
  type : Ty
  arity : Nat
  body : Body Handle
deriving DecidableEq

namespace Combinator

/-- Declare a combinator. Without an arity it takes one argument for each leading arrow. -/
def declare (name : String) (type : Ty) (arity? : Option Nat) (body : Body Handle) :
    Except DeclarationError Combinator :=
  let arity := arity?.getD type.arity
  if arity = 0 then
    .error (.zeroArity name)
  else if type.arity < arity then
    .error (.arityExceedsType name arity type.text type.arity)
  else
    .ok ⟨name, type, arity, body⟩

def text (c : Combinator) : String := c.name ++ " : " ++ c.type.text

theorem arity_of_declare {name : String} {type : Ty} {arity? : Option Nat} {body : Body Handle}
    {c : Combinator} (declared : declare name type arity? body = .ok c) :
    0 < c.arity ∧ c.arity ≤ c.type.arity := by
  unfold declare at declared
  dsimp only at declared
  split at declared
  · simp at declared
  · split at declared
    · simp at declared
    · cases declared
      exact ⟨by simp only; omega, by simp only; omega⟩

end Combinator

namespace Primitive

def combinator (p : Primitive) (vars : VarSupply) : Combinator × VarSupply :=
  let (type, vars) := p.type vars
  (⟨p.name, type, type.arity, p.body⟩, vars)

end Primitive

end GraphReduction
