import GraphReduction.Options
import GraphReduction.Reduce.Body

/-!
Reduction to weak-head normal form. A memoized result is returned as it is; a pending application
reduces its function, binds its argument unevaluated, runs the body if that was the last argument,
and keeps what came out; a saturated closure runs its body once. Everything else is in normal form.

`reduceOnce` is one layer of this over a reducer for what lies deeper, and `reduceUpTo` stacks a
given number of layers. Errors raised by a body end here: they become exception handles.
-/
namespace GraphReduction

open Run

namespace PanicPayload

/-- The message of a panic that was caught. -/
def message : PanicPayload → String
  | text s => s
  | other => "combinator body panicked"

end PanicPayload

namespace Evaluator

/-- Run the body of a closure. Whatever it raises becomes an exception handle, and so does a panic
if panics are caught. -/
def invoke (options : Options) (reduce : Reducer) (closure : ObjectId) (c : Closure) :
    Run Handle := do
  event (.began closure)
  let held? ← inspect (·.combinator? c.combinator)
  match held? with
  | none => newException .releasedSelfReference
  | some held =>
    let outcome ← tryCatch
      (return Except.ok (← held.combinator.body.run reduce ⟨held.combinator.name, c⟩))
      fun
        | .raised error => pure (.error error)
        | .panicked payload =>
          if options.catchPanics then pure (.error (.foreign payload.message))
          else throw (.panicked payload)
        | .exhausted => throw .exhausted
    event (.ended closure)
    match outcome with
    | .ok h => pure h
    | .error error => newException error

/-- Run the check of a result, which reads the heap and draws variables. -/
def check (closure result : Handle) : Run (Except EvalError Unit) := fun ⟨heap, vars, trace⟩ =>
  let (outcome, vars) := heap.checkResult closure result vars
  .ok outcome ⟨heap, vars, trace⟩

/-- The body's result in normal form, checked if that is asked for. -/
def compute (options : Options) (reduce : Reducer) (closure : Handle) (c : Closure) :
    Run Handle := do
  let raw ← invoke options reduce closure.target c
  releasing raw do
    let result ← reduce raw
    if options.checkResults && !result.isException then
      match ← check closure result with
      | .ok () => pure result
      | .error error =>
        release result
        newException error
    else
      pure result

/-- The result of a saturated closure, which is borrowed. It is computed the first time and kept; a
signal leaves the closure as if nothing had happened. To ask for it inside its own computation is
to wait for ever. -/
def result (options : Options) (reduce : Reducer) (closure : Handle) (c : Closure) :
    Run Handle := do
  match c.memo with
  | .done h => share h
  | .running => throw .exhausted
  | .empty =>
    change (·.setMemo closure.target .running)
    let value ← tryCatch (compute options reduce closure c) fun signal => do
      change (·.setMemo closure.target .empty)
      throw signal
    let kept ← share value
    change (·.setMemo closure.target (.done kept))
    pure value

def application (options : Options) (reduce : Reducer) (function argument : Handle) :
    Run Handle := do
  let function ← releasingOnSignal argument (reduce function)
  if function.isException then
    release argument
    pure function
  else
    let bound ← tryCatch (return Except.ok (← applyArgument function argument)) fun
      | .raised error => pure (.error error)
      | signal => throw signal
    match bound with
    | .error error => newException error
    | .ok bound =>
      match ← inspect (·.closure? bound) with
      | some c =>
        if c.isSaturated then releasing bound (result options reduce bound c) else pure bound
      | none => pure bound

def reduceOnce (options : Options) (reduce : Reducer) (h : Handle) : Run Handle := do
  if h.tag = .plain then
    match ← inspect (·.kind? h) with
    | some (.application a) =>
      match ← a.snapshot with
      | .reduced result => pure result
      | .pending function argument =>
        releasing function do
          store h.target (← application options reduce function argument)
    | some (.closure c) => if c.isSaturated then result options reduce h c else share h
    | _ => share h
  else
    share h

def reduceUpTo (options : Options) : Nat → Handle → Run Handle
  | 0, _ => throw .exhausted
  | depth + 1, h => reduceOnce options (reduceUpTo options depth) h

/-- The layers that an evaluation is given: more than any machine could stack. -/
def unboundedDepth : Nat := Nat.pow 2 62

/-- Reduce a borrowed handle to weak-head normal form. Failures come back as exception handles. -/
def evaluate (options : Options) (h : Handle) : Run Handle :=
  reduceUpTo options unboundedDepth h

/-- Evaluate, with an exception as the error it carries and without a tag otherwise. -/
def evaluateToResult (options : Options) (h : Handle) : Run Handle := do
  intoResult (← evaluate options h)

/-- A reducer that leaves every handle as it is. -/
def leaveAsIs : Reducer := share

end Evaluator

end GraphReduction
