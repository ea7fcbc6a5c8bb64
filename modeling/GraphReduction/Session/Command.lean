import GraphReduction.Options
import GraphReduction.OptionalPart
import GraphReduction.Combinator.Body
import GraphReduction.Ty.Expr

/-!
Commands on a session. Handles, thunks and weak references are kept in registers of three kinds, and
commands name the registers they work on. A handle operand borrows what is in its register; where a
command needs a reference of its own it takes another one, or the register's own if the operand is
moved out. Thunks and weak references are always borrowed, so their registers are given by plain
names, as are the registers that a combinator captures or that are emptied. Registers are looked at
in the order in which a command lists its operands, and the register for a result when the result is
there.
-/
namespace GraphReduction

/-- A handle register, and whether its content is moved out of it. -/
structure Operand where
  register : String
  moved : Bool
deriving DecidableEq

namespace Operand

/-- A name with a mark at its end moves the content out. -/
def ofText (text : String) : Operand :=
  match text.toList.reverse with
  | '!' :: rest => ⟨String.ofList rest.reverse, true⟩
  | _ => ⟨text, false⟩

def text (x : Operand) : String := if x.moved then x.register ++ "!" else x.register

end Operand

inductive RegisterUse where
  | handle (x : Operand)
  | plainHandle (name : String)
  | thunk (name : String)
  | weak (name : String)
deriving DecidableEq

/-- What reduces on behalf of a body that is run directly. -/
inductive ReducerChoice where
  | leaveAsIs | evaluator
deriving DecidableEq

/-- Where each further layer of a nest goes. -/
inductive NestSide where
  | argument | function | bound | paired
deriving DecidableEq

inductive ThunkChoice where
  | pending | forced | recursive
deriving DecidableEq

/-- With which options to evaluate, and whether an exception comes out as its error. -/
inductive EvalMode where
  | tagged (catchPanics checkResults : Option Bool)
  | result (catchPanics checkResults : Option Bool)
  | defaultTagged
  | defaultResult
deriving DecidableEq

/-- A payload that can be written down. -/
inductive Literal where
  | int (n : Int64)
  | bool (b : Bool)
  | str (s : String)
deriving DecidableEq

/-- A combinator as it is written down; captures are places in the list of captured registers. Parts
that are missing or wrong are noticed when they are needed. -/
structure Declaration where
  captured : List String
  body? : Option (Body Nat)
  name? : Option String
  type : TyExpr
  arity : OptionalPart Nat
  static : OptionalPart Bool

/-- Commands that produce a handle. -/
inductive Producer where
  | literal (l : Literal)
  | primitive (p : Primitive)
  | tracked (counter : String)
  | pair (a b : Operand)
  | box (type : TyExpr) (payload? : Option Literal)
  | declare (d : Declaration)
  | exception (error : EvalError)
  | staticException (error : EvalError)
  | apply (f x : Operand)
  | knot
  /-- The side matters only if there is a layer to put there. -/
  | nest (f x : Operand) (count : Nat) (side? : Option NestSide)
  | copy (x : Operand)
  | untag (x : Operand)
  | clone (x : Operand)
  | intoResult (x : Operand)
  | field (x : Operand) (i : Nat)
  | upgrade (w : String)
  | bindSelf (x : Operand)
  | argument (x : Operand) (i : Nat)
  | memo (x : Operand)
  | memoize (v x : Operand)
  | invoke (reducer : ReducerChoice) (x : Operand)
  | store (v x : Operand)
  | cached (x : Operand)
  | knotValue (x : Operand)
  | functionPart (x : Operand)
  | argumentPart (x : Operand)
  | eval (x : Operand) (mode : EvalMode)
  | peek (t : String)
  | force (t : String) (reducer : ReducerChoice)

inductive Command where
  /-- Produce a handle and keep it if a register is named. -/
  | produce (p : Producer) (into : OptionalPart String)
  /-- Bind an argument, and say whether it was done in place. -/
  | bind (f x : Operand) (into : OptionalPart String)
  | resolve (v x : Operand)
  | options
  | thunk (kind : ThunkChoice) (x : Operand) (into? : Option String)
  | argumentThunk (x : Operand) (i : Nat) (into? : Option String)
  | thunkInfo (t : String)
  | sameThunk (a b : String)
  | dropThunk (t : String)
  | view (x : Operand)
  | refs (x : Operand)
  | same (a b : Operand)
  | weak (x : Operand) (into? : Option String)
  | isAlive (w : String)
  | typeOf (x : Operand) (asEvalError : Bool)
  | drop (name : String)
  | clear
  | drops
  /-- A command that is wrong somewhere, after these registers. -/
  | malformed (registers : List RegisterUse)

end GraphReduction
