import Mathlib
import GraphReduction.Proofs.Terms.Client

/-! Call by name. The interpreter knows no graph: it unwinds a term, with the arguments waiting
unevaluated, and evaluates an argument anew each time that it is asked for. -/
namespace GraphReduction

inductive Outcome where
  | value (l : Literal)
  /-- A primitive with so many arguments bound. -/
  | function (p : Primitive) (bound : Nat)
  | error (e : EvalError)
deriving DecidableEq

namespace Literal

def int? : Literal → Option Int64
  | int n => some n
  | _ => none

def bool? : Literal → Option Bool
  | bool b => some b
  | _ => none

def str? : Literal → Option String
  | str s => some s
  | _ => none

end Literal

namespace Outcome

variable {α : Type}

/-- The payload that is expected, or the error that its absence is. -/
def take (take? : Literal → Option α) (expected : TypeName) : Outcome → Except EvalError α
  | value l =>
    match take? l with
    | some a => .ok a
    | none => .error (.typeMismatch expected.text l.type.text)
  | function p bound => .error (.typeMismatch expected.text (p.describeApplied bound))
  | error e => .error e

def int : Outcome → Except EvalError Int64 := take Literal.int? .int

def bool : Outcome → Except EvalError Bool := take Literal.bool? .bool

def str : Outcome → Except EvalError String := take Literal.str? .str

/-- A literal returned to the arguments that wait: it is no function. -/
def returned {β : Type} : Except EvalError Literal → List β → Outcome
  | .ok l, [] => value l
  | .ok l, _ :: _ => error (.badApply l.type.text)
  | .error e, _ => error e

end Outcome

def Arith.exact (op : Arith) (x y : Outcome) : Except EvalError Literal := do
  let n ← x.int
  let k ← y.int
  let result := op.onInt n.toInt k.toInt
  if -2 ^ 63 ≤ result ∧ result < 2 ^ 63 then .ok (.int (.ofInt result))
  else .error (op.overflow n k)

def Comparison.exact (how : Comparison) (x y : Outcome) : Except EvalError Literal := do
  let n ← x.int
  let k ← y.int
  .ok (.bool (how.holds n k))

namespace Term

def size : Term → Nat
  | literal _ | primitive _ => 1
  | apply f x => f.size + x.size + 1

def run : Term → List Term → Outcome
  | literal l, waiting => .returned (.ok l) waiting
  | apply f x, waiting => f.run (x :: waiting)
  | primitive .add, x :: y :: waiting => .returned (Arith.add.exact (x.run []) (y.run [])) waiting
  | primitive .sub, x :: y :: waiting => .returned (Arith.sub.exact (x.run []) (y.run [])) waiting
  | primitive .mul, x :: y :: waiting => .returned (Arith.mul.exact (x.run []) (y.run [])) waiting
  | primitive .eq, x :: y :: waiting =>
    .returned (Comparison.equal.exact (x.run []) (y.run [])) waiting
  | primitive .lt, x :: y :: waiting =>
    .returned (Comparison.less.exact (x.run []) (y.run [])) waiting
  | primitive .ifThenElse, c :: x :: y :: waiting =>
    match (c.run []).bool with
    | .ok true => x.run waiting
    | .ok false => y.run waiting
    | .error e => .error e
  | primitive .identity, x :: waiting => x.run waiting
  | primitive .constant, x :: _ :: waiting => x.run waiting
  | primitive .fail, x :: _ =>
    match (x.run []).str with
    | .ok text => .error (.foreign text)
    | .error e => .error e
  | primitive p, waiting => .function p waiting.length
termination_by t waiting => t.size + (waiting.map size).sum
decreasing_by
  all_goals
    simp only [size, List.map_nil, List.map_cons, List.sum_nil, List.sum_cons]
    omega

def eval (t : Term) : Outcome := t.run []

end Term

/-- What a term comes to, with the arguments that a function waits with as what they come to. -/
inductive Meaning where
  | value (l : Literal)
  | function (p : Primitive) (arguments : List Meaning)
  | error (e : EvalError)

namespace Meaning

def outcome : Meaning → Outcome
  | value l => .value l
  | function p arguments => .function p arguments.length
  | error e => .error e

def returned : Except EvalError Literal → Meaning
  | .ok l => value l
  | .error e => error e

def perform : Primitive → List Meaning → Meaning
  | .add, [x, y] => returned (Arith.add.exact x.outcome y.outcome)
  | .sub, [x, y] => returned (Arith.sub.exact x.outcome y.outcome)
  | .mul, [x, y] => returned (Arith.mul.exact x.outcome y.outcome)
  | .eq, [x, y] => returned (Comparison.equal.exact x.outcome y.outcome)
  | .lt, [x, y] => returned (Comparison.less.exact x.outcome y.outcome)
  | .ifThenElse, [c, x, y] =>
    match c.outcome.bool with
    | .ok true => x
    | .ok false => y
    | .error e => error e
  | .identity, [x] => x
  | .constant, [x, _] => x
  | .fail, [x] =>
    match x.outcome.str with
    | .ok text => error (.foreign text)
    | .error e => error e
  | p, arguments => function p arguments

def applied (p : Primitive) (arguments : List Meaning) : Meaning :=
  if arguments.length < p.arity then function p arguments else perform p arguments

def apply : Meaning → Meaning → Meaning
  | value l, _ => error (.badApply l.type.text)
  | function p arguments, x => applied p (arguments ++ [x])
  | error e, _ => error e

end Meaning

namespace Term

/-- The parts of a term say what it comes to. -/
def meaning : Term → Meaning
  | literal l => .value l
  | primitive p => .function p []
  | apply f x => f.meaning.apply x.meaning

end Term

end GraphReduction
