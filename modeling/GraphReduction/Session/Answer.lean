import GraphReduction.Machine.Basic
import GraphReduction.Options

/-!
What a session answers: the outcome of each command as data, and why a command failed.
-/
namespace GraphReduction

/-- A handle as it is shown: its tag and a text. -/
structure Shown where
  tag : Tag
  text : String
deriving DecidableEq

structure ClosureView where
  name : String
  combinator : String
  type : String
  declared : Nat
  missing : Nat
  total : Nat
  bound : Nat
  saturated : Bool
  recursive : Bool
  result : Option Shown
  arguments : List String
  /-- For each place up to one past the last, whether an argument is bound there. -/
  filled : List Bool

/-- An application node that is pending, or what it is reduced to. -/
inductive NodeState where
  | pending (function argument : Shown)
  | reduced (result : Shown)

structure NodeView where
  isReduced : Bool
  result : Option Shown
  isKnot : Bool
  knotValue : Option Shown
  state : NodeState

structure ValueView where
  type : String
  size : Nat
  payload : String

/-- Everything that can be asked about a handle. -/
structure View where
  shown : Shown
  describe : String
  isStatic : Bool
  error : Option EvalError
  closure : Option ClosureView
  node : Option NodeView
  value : Option ValueView
  payload : Option Payload

inductive Answer where
  | handle (h : Shown)
  | bound (h : Shown) (inPlace : Bool)
  | resolved (h : Shown)
  | options (o : Options)
  | thunk (text : String)
  | thunkInfo (text : String) (forced recursive : Bool)
  | same (yes : Bool)
  | weak (yes : Bool)
  | alive (yes : Bool)
  | dropped (name : String)
  | view (v : View)
  | refs (count : Nat)
  | type (t : Ty)
  | cleared
  | drops (counts : List (String × Nat))

inductive Failure where
  | malformed
  | noRegister (name : String)
  | notClosure
  | notApplication
  | noField
  | unbound
  | empty
  | reduced
  | dangling
  | static
  | invalidName (error : TypeError)
  | declaration (error : DeclarationError)
  | unification (error : UnifyError)
  | evaluation (error : EvalError)
  | panic (payload : PanicPayload)
  | endless
deriving DecidableEq

namespace Failure

def ofSignal : Signal → Failure
  | .raised error => evaluation error
  | .panicked payload => panic payload
  | .exhausted => endless

end Failure

end GraphReduction
