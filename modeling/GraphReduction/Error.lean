import GraphReduction.Text.Quoted
import GraphReduction.Unify.Solve

/-!
What can go wrong in an evaluation and in a declaration. Errors of an evaluation are plain data:
types in them are already texts. `message` is the sentence for a reader, `debug` shows the data.
-/
namespace GraphReduction

inductive EvalError where
  | typeMismatch (expected actual : String)
  | circularConstraint (v within : String)
  | badApply (found : String)
  | tooManyArguments (combinator : String)
  | badFix (found : String)
  /-- The value of a data fixpoint is demanded while it is being computed. -/
  | blackHole
  | allocationFailure (requested : Nat)
  /-- Anything that a body raises and that is none of the above. -/
  | foreign (text : String)
deriving DecidableEq

namespace EvalError

def kind : EvalError → String
  | typeMismatch .. => "TypeMismatch"
  | circularConstraint .. => "CircularConstraint"
  | badApply _ => "BadApply"
  | tooManyArguments _ => "TooManyArguments"
  | badFix _ => "BadFix"
  | blackHole => "BlackHole"
  | allocationFailure _ => "AllocationFailure"
  | foreign _ => "Foreign"

def message : EvalError → String
  | typeMismatch expected actual =>
    "type mismatch: expected `" ++ expected ++ "`, found `" ++ actual ++ "`"
  | circularConstraint v within =>
    "circular type constraint: " ++ v ++ " occurs in `" ++ within ++ "`"
  | badApply found => "cannot apply a non-function value of type `" ++ found ++ "`"
  | tooManyArguments combinator => "too many arguments applied to `" ++ combinator ++ "`"
  | badFix found => "fix expects an unsaturated function, found `" ++ found ++ "`"
  | blackHole => "fixpoint value demanded while it is being computed"
  | allocationFailure requested =>
    "allocation failed while reserving " ++ requested.repr ++ " argument slots"
  | foreign text => text

/-- Named parts, each with the text of its data. -/
def parts : EvalError → List (String × String)
  | typeMismatch expected actual =>
    [("expected", Text.quoted expected), ("actual", Text.quoted actual)]
  | circularConstraint v within =>
    [("variable", Text.quoted v), ("within", Text.quoted within)]
  | badApply found => [("found", Text.quoted found)]
  | tooManyArguments combinator => [("combinator", Text.quoted combinator)]
  | badFix found => [("found", Text.quoted found)]
  | blackHole => []
  | allocationFailure requested => [("requested", requested.repr)]
  | foreign text => [("message", Text.quoted text)]

def debug (e : EvalError) : String :=
  match e.parts with
  | [] => e.kind
  | parts =>
    let fields := parts.map fun (name, value) => name ++ ": " ++ value
    e.kind ++ " \x7b " ++ ", ".intercalate fields ++ " \x7d"

/-- An unsolvable set of equations as an error of an evaluation. -/
def ofUnify : UnifyError → EvalError
  | .typeMismatch expected actual => typeMismatch expected.text actual.text
  | .circularConstraint v within => circularConstraint v.text within.text

/-- The error of a self reference whose target is gone. -/
def releasedSelfReference : EvalError := badFix "released self reference"

end EvalError

inductive DeclarationError where
  | zeroArity (name : String)
  | arityExceedsType (name : String) (arity : Nat) (typeText : String) (typeArity : Nat)
  | type (error : TypeError)
deriving DecidableEq

namespace DeclarationError

def kind : DeclarationError → String
  | zeroArity _ => "ZeroArity"
  | arityExceedsType .. => "ArityExceedsType"
  | type _ => "Type"

def message : DeclarationError → String
  | zeroArity name => "combinator `" ++ name ++ "` must take at least one argument"
  | arityExceedsType name arity typeText typeArity =>
    "combinator `" ++ name ++ "` declares " ++ arity.repr ++ " arguments but its type `" ++
      typeText ++ "` accepts " ++ typeArity.repr
  | type error => error.message

end DeclarationError

end GraphReduction
