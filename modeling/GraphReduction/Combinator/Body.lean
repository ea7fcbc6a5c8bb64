import GraphReduction.Combinator.Primitive
import GraphReduction.Error

/-!
Bodies of combinators: what a saturated closure does with its arguments. A body is a tree of forms
whose parts run from left to right; each form returns a handle, raises an error, or panics.
Arguments are known by their place, where the first one applied has place zero. What a body captures
is a parameter: places in a list of captures where the body is written down, and references where it
runs. These belong to its combinator, one for each occurrence.
-/
namespace GraphReduction

/-- The types whose payload a body can take out of an argument. -/
inductive Unboxed where
  | int | bool | str | pair
deriving DecidableEq

/-- Integer operations that can overflow. -/
inductive Arith where
  | add | sub | mul
deriving DecidableEq

inductive Comparison where
  | equal | less
deriving DecidableEq

inductive PanicPayload where
  | text (text : String)
  | other
deriving DecidableEq

inductive Body (Capture : Type) where
  /-- The argument as it was bound. -/
  | lazy (i : Nat)
  /-- The argument, evaluated. -/
  | force (i : Nat)
  /-- The payload of the evaluated argument, boxed again. -/
  | value (type : Unboxed) (i : Nat)
  | length
  | isEmpty
  | name
  | int (n : Int64)
  | bool (b : Bool)
  | str (s : String)
  | primitive (p : Primitive)
  | captured (c : Capture)
  | apply (function argument : Body Capture)
  | bind (function argument : Body Capture)
  | pair (first second : Body Capture)
  | field (i : Nat) (e : Body Capture)
  | eval (e : Body Capture)
  | clone (e : Body Capture)
  | bindSelf (e : Body Capture)
  | typeOf (e : Body Capture)
  | seq (first second : Body Capture)
  /-- The second part if the first raises; a panic passes. -/
  | recover (attempt otherwise : Body Capture)
  | log (note : String) (e : Body Capture)
  /-- Compare an integer argument with a constant. -/
  | compare (how : Comparison) (i : Nat) (n : Int64) (yes no : Body Capture)
  | cond (i : Nat) (yes no : Body Capture)
  | raise (error : EvalError)
  | panic (payload : PanicPayload)
  /-- An operation on the first two arguments. -/
  | arith (op : Arith)
  /-- Whether the first two arguments compare so. -/
  | test (how : Comparison)
  /-- Raise the text of an argument. -/
  | fail (i : Nat)
  /-- Tie the function in the first argument to itself. -/
  | tie
deriving DecidableEq

namespace Body

/-- The captures, one for each occurrence. -/
def captures : Body Capture → List Capture
  | captured c => [c]
  | apply a b | bind a b | pair a b | seq a b | recover a b => a.captures ++ b.captures
  | compare _ _ _ a b | cond _ a b => a.captures ++ b.captures
  | field _ e | eval e | clone e | bindSelf e | typeOf e | log _ e => e.captures
  | lazy _ | force _ | value .. | length | isEmpty | name | int _ | bool _ | str _ | primitive _ |
    raise _ | panic _ | arith _ | test _ | fail _ | tie => []

/-- Put in what `find?` finds for each capture, if it finds something for all of them. -/
def resolve? (find? : Capture → Option Found) : Body Capture → Option (Body Found)
  | captured c => (find? c).map captured
  | apply a b => return apply (← a.resolve? find?) (← b.resolve? find?)
  | bind a b => return bind (← a.resolve? find?) (← b.resolve? find?)
  | pair a b => return pair (← a.resolve? find?) (← b.resolve? find?)
  | seq a b => return seq (← a.resolve? find?) (← b.resolve? find?)
  | recover a b => return recover (← a.resolve? find?) (← b.resolve? find?)
  | compare how i n a b => return compare how i n (← a.resolve? find?) (← b.resolve? find?)
  | cond i a b => return cond i (← a.resolve? find?) (← b.resolve? find?)
  | field i e => return field i (← e.resolve? find?)
  | eval e => return eval (← e.resolve? find?)
  | clone e => return clone (← e.resolve? find?)
  | bindSelf e => return bindSelf (← e.resolve? find?)
  | typeOf e => return typeOf (← e.resolve? find?)
  | log text e => return log text (← e.resolve? find?)
  | lazy i => some (lazy i)
  | force i => some (force i)
  | value type i => some (value type i)
  | length => some length
  | isEmpty => some isEmpty
  | name => some name
  | int n => some (int n)
  | bool b => some (bool b)
  | str s => some (str s)
  | primitive p => some (primitive p)
  | raise error => some (raise error)
  | panic payload => some (panic payload)
  | arith op => some (arith op)
  | test how => some (test how)
  | fail i => some (fail i)
  | tie => some tie

end Body

namespace Primitive

/-- What each primitive does. The branches of `if_then_else`, the argument of `identity` and the
first argument of `constant` are returned unevaluated, and what is not returned is not touched. -/
def body : Primitive → Body Capture
  | add => .arith .add
  | sub => .arith .sub
  | mul => .arith .mul
  | eq => .test .equal
  | lt => .test .less
  | ifThenElse => .cond 0 (.lazy 1) (.lazy 2)
  | identity => .lazy 0
  | constant => .lazy 0
  | fail => .fail 0
  | fix => .tie

@[simp] theorem captures_body (p : Primitive) : (p.body : Body Capture).captures = [] := by
  cases p <;> rfl

end Primitive

end GraphReduction
