import GraphReduction.Machine.Closure
import GraphReduction.Reconstruct
import GraphReduction.Text.VarNames

/-!
Running a body on the arguments of a closure. Demands for evaluation go to a reducer, so the same
body can run inside an evaluation or against one that leaves every handle as it is.
-/
namespace GraphReduction

open Run

/-- The arguments of a closure as its body sees them. -/
structure Args where
  combinator : String
  closure : Closure

namespace Args

def thunk (args : Args) (i : Nat) : Run ThunkId :=
  match args.closure.argument? i with
  | some t => pure t
  | none =>
    raise (.foreign ("argument " ++ i.repr ++ " of `" ++ args.combinator ++ "` is not bound"))

/-- The argument, evaluated at most once. An exception is raised as the error it carries. -/
def force (reduce : Reducer) (args : Args) (i : Nat) : Run Handle := do
  let t ← args.thunk i
  intoResult (← t.force reduce)

/-- The evaluated argument's payload as `take` reads it. -/
def unbox (reduce : Reducer) (args : Args) (i : Nat) (expected : TypeName)
    (take : Payload → Option α) : Run α := do
  let h ← args.force reduce i
  match (← inspect (·.boxed? h)).bind fun v => take v.payload with
  | some a =>
    release h
    pure a
  | none =>
    let actual ← inspect (·.describe h)
    release h
    raise (.typeMismatch expected.text actual)

end Args

namespace Payload

def int? : Payload → Option Int64
  | int n => some n
  | _ => none

def bool? : Payload → Option Bool
  | bool b => some b
  | _ => none

def str? : Payload → Option String
  | str s => some s
  | _ => none

end Payload

namespace Args

def int (reduce : Reducer) (args : Args) (i : Nat) : Run Int64 :=
  args.unbox reduce i .int Payload.int?

def bool (reduce : Reducer) (args : Args) (i : Nat) : Run Bool :=
  args.unbox reduce i .bool Payload.bool?

def str (reduce : Reducer) (args : Args) (i : Nat) : Run String :=
  args.unbox reduce i .str Payload.str?

/-- The handles of a pair, as references of one's own. -/
def pair (reduce : Reducer) (args : Args) (i : Nat) : Run (Handle × Handle) := do
  let h ← args.force reduce i
  match (← inspect (·.boxed? h)).map Boxed.payload with
  | some (.pair first second) =>
    let first ← share first
    let second ← share second
    release h
    pure (first, second)
  | _ =>
    let actual ← inspect (·.describe h)
    release h
    raise (.typeMismatch TypeName.pair.text actual)

end Args

namespace Arith

def name : Arith → String
  | add => "add"
  | sub => "sub"
  | mul => "mul"

def onInt : Arith → Int → Int → Int
  | add, a, b => a + b
  | sub, a, b => a - b
  | mul, a, b => a * b

/-- The exact result, if it has 64 bits. -/
def result? (op : Arith) (a b : Int64) : Option Int64 := int64OfInt? (op.onInt a.toInt b.toInt)

def overflow (op : Arith) (a b : Int64) : EvalError :=
  .foreign ("integer overflow in `" ++ op.name ++ "` (" ++ int64Text a ++ ", " ++ int64Text b ++
    ")")

end Arith

namespace Comparison

def holds : Comparison → Int64 → Int64 → Bool
  | equal, a, b => a == b
  | less, a, b => a.toInt < b.toInt

end Comparison

namespace Run

/-- The handle in a place of a pair, seen through the tag of a memoized result. -/
def fieldOf? (h : Handle) (i : Nat) : Run (Option Handle) :=
  inspect fun m =>
    if h.isException then none
    else (m.boxed? h.untagged).bind fun v => v.payload.handles[i]?

def typeOf (h : Handle) : Run (Except UnifyError Ty) := fun ⟨heap, vars, trace⟩ =>
  let (outcome, vars) := heap.typeOf h vars
  .ok outcome ⟨heap, vars, trace⟩

/-- The text of a term's type, its variables numbered by first appearance. -/
def typeText (h : Handle) : Run String := do
  match ← typeOf h with
  | .ok t => pure (Text.VarNaming.rename {} t.text).1
  | .error error => raise (.ofUnify error)

/-- Tie an owned function to itself. If exactly one argument is missing, the function runs on a knot
that stands for its own result; if more are missing, it becomes its own next argument. -/
def tie (reduce : Reducer) (function : Handle) : Run Handle := do
  let missing := ((← inspect (·.closure? function)).map Closure.missing).getD 0
  match missing with
  | 0 =>
    let found ← inspect (·.describe function)
    release function
    raise (.badFix found)
  | 1 =>
    let knot ← newKnot
    let value ← releasing knot do
      let saturated ← applyArgument function (← share knot)
      releasing saturated do
        let value ← intoResult (← reduce saturated)
        resolve knot.target value
        pure value
    tied knot.target value
    pure value
  | _ => releasing function (bindSelf function)

end Run

namespace Body

/-- Run a body. The handle it returns is a new reference. -/
def run (reduce : Reducer) (args : Args) : Body Handle → Run Handle
  | lazy i => do (← args.thunk i).peek
  | force i => args.force reduce i
  | value .int i => do newInt (← args.int reduce i)
  | value .bool i => do newBool (← args.bool reduce i)
  | value .str i => do newStr (← args.str reduce i)
  | value .pair i => do
    let (first, second) ← args.pair reduce i
    newPair first second
  | length => newInt (Int64.ofNat args.closure.bound)
  | isEmpty => newBool (args.closure.bound == 0)
  | name => newStr args.combinator
  | int n => newInt n
  | bool b => newBool b
  | str s => newStr s
  | primitive p => share (.plain ⟨p.place⟩)
  | captured h => share h
  | apply function argument => do
    let function ← function.run reduce args
    let argument ← releasingOnSignal function (argument.run reduce args)
    newApplication function argument
  | bind function argument => do
    let function ← function.run reduce args
    let argument ← releasingOnSignal function (argument.run reduce args)
    applyArgument function argument
  | pair first second => do
    let first ← first.run reduce args
    let second ← releasingOnSignal first (second.run reduce args)
    newPair first second
  | field i e => do
    let h ← e.run reduce args
    releasing h do
      match ← fieldOf? h i with
      | some part => share part
      | none => Run.raise (.foreign ("no field " ++ i.repr))
  | eval e => do
    let h ← e.run reduce args
    releasing h do intoResult (← reduce h)
  | clone e => do
    let h ← e.run reduce args
    releasing h (cloneObject h)
  | bindSelf e => do
    let h ← e.run reduce args
    releasing h (Run.bindSelf h)
  | typeOf e => do
    let h ← e.run reduce args
    releasing h do newStr (← typeText h)
  | seq first second => do
    release (← first.run reduce args)
    second.run reduce args
  | recover attempt otherwise =>
    tryCatch (attempt.run reduce args) fun
      | .raised _ => otherwise.run reduce args
      | signal => throw signal
  | log text e => do
    note text
    e.run reduce args
  | compare how i n yes no => do
    if how.holds (← args.int reduce i) n then yes.run reduce args else no.run reduce args
  | cond i yes no => do
    if ← args.bool reduce i then yes.run reduce args else no.run reduce args
  | raise error => Run.raise error
  | panic payload => throw (.panicked payload)
  | arith op => do
    let a ← args.int reduce 0
    let b ← args.int reduce 1
    match op.result? a b with
    | some n => newInt n
    | none => Run.raise (op.overflow a b)
  | test how => do
    let a ← args.int reduce 0
    let b ← args.int reduce 1
    newBool (how.holds a b)
  | fail i => do Run.raise (.foreign (← args.str reduce i))
  | tie => do Run.tie reduce (← args.force reduce 0)

end Body

end GraphReduction
