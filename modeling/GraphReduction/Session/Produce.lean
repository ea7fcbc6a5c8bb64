import GraphReduction.Reduce.Evaluator
import GraphReduction.Session.Basic

/-!
Commands that produce a handle. Each ends with a reference that belongs to whoever gave the command.
-/
namespace GraphReduction

open Step

namespace Literal

def box : Literal → Run Handle
  | int n => Run.newInt n
  | bool b => Run.newBool b
  | str s => Run.newStr s

def payload : Literal → Payload
  | int n => .int n
  | bool b => .bool b
  | str s => .str s

end Literal

namespace EvalMode

/-- Evaluate a borrowed handle in a session with the given options. -/
def evaluate (sessionOptions : Options) (h : Handle) : EvalMode → Run Handle
  | tagged catchPanics checkResults =>
    Evaluator.evaluate (sessionOptions.override catchPanics checkResults) h
  | result catchPanics checkResults =>
    Evaluator.evaluateToResult (sessionOptions.override catchPanics checkResults) h
  | defaultTagged => Evaluator.evaluate {} h
  | defaultResult => Evaluator.evaluateToResult {} h

end EvalMode

namespace ReducerChoice

def reducer (sessionOptions : Options) : ReducerChoice → Reducer
  | leaveAsIs => Evaluator.leaveAsIs
  | evaluator => Evaluator.evaluate sessionOptions

end ReducerChoice

namespace Step

def closureOf (h : Handle) : Step Closure := do
  require (← inspect (·.closure? h)) .notClosure

def applicationOf (h : Handle) : Step Application := do
  require (← inspect (·.application? h)) .notApplication

def argumentOf (h : Handle) (i : Nat) : Step ThunkId := do
  require ((← closureOf h).argument? i) .unbound

/-- One more layer around an owned handle. The function is borrowed. -/
def nestLayer (f : Handle) (side : NestSide) (inner : Handle) : Run Handle := do
  let f ← Run.share f
  match side with
  | .argument => Run.newApplication f inner
  | .function => Run.newApplication inner f
  | .bound => Run.applyArgument f inner
  | .paired => Run.newPair inner f

def nestLayers (f : Handle) (side : NestSide) : Nat → Handle → Run Handle
  | 0, inner => pure inner
  | count + 1, inner => do nestLayers f side count (← nestLayer f side inner)

def nest (f : Handle) (side? : Option NestSide) (count : Nat) (inner : Handle) : Step Handle :=
  match count, side? with
  | 0, _ => pure inner
  | _, some side => run (nestLayers f side count inner)
  | _, none => do
    release inner
    throw .malformed

def declare (d : Declaration) : Step Handle := do
  let captured ← d.captured.mapM handleNamed
  let written ← require d.body? .malformed
  let body ← require (written.resolve? fun place => captured[place]?) .malformed
  let name ← require d.name? .malformed
  let type ← tryCatch (buildType d.type) fun
    | .invalidName error => throw (.declaration (.type error))
    | failure => throw failure
  let arity? ← require d.arity.read? .malformed
  let static? ← require d.static.read? .malformed
  match Combinator.declare name type arity? (.log name body) with
  | .error error => throw (.declaration error)
  | .ok combinator => run do
    combinator.body.captures.forM fun h => Run.change (·.retain h)
    let c ← Run.add (·.newCombinator combinator)
    let kind := .closure (.bare c combinator.arity)
    if static?.getD false then Run.add (·.newStatic kind) else Run.newObject kind

/-- Run the body of a closure on the arguments bound so far. -/
def invoke (reduce : Reducer) (h : Handle) : Step Handle := do
  let c ← closureOf h
  let held ← require (← inspect (·.combinator? c.combinator)) .notClosure
  run (held.combinator.body.run reduce ⟨held.combinator.name, c⟩)

/-- The result kept by a closure, where an owned handle is kept if there is none yet. -/
def memoize (v h : Handle) : Step Handle := do
  let c ← onFailure (closureOf h) (release v)
  match c.memo with
  | .done kept =>
    release v
    share kept
  | _ => do
    let kept ← share v
    run (Run.change (·.setMemo h.target (.done kept)))
    pure v

end Step

namespace Producer

def run : Producer → Step Handle
  | literal l => Step.run l.box
  | primitive p => share (.plain ⟨p.place⟩)
  | tracked counter => Step.run do
    Run.change (·.mentionCounter counter)
    Run.newValue .tracked (.tracked counter)
  | pair a b => do
    let a ← taking a
    let b ← onFailure (taking b) (release a)
    Step.run (Run.newPair a b)
  | box type payload? => do
    let type ← buildType type
    let l ← require payload? .malformed
    Step.run (Run.newValue type l.payload)
  | declare d => Step.declare d
  | exception error => Step.run (Run.newException error)
  | staticException error => Step.run (Run.add (·.newStatic (.exception error)))
  | apply f x => do
    let f ← taking f
    let x ← onFailure (taking x) (release f)
    Step.run (Run.newApplication f x)
  | knot => Step.run Run.newKnot
  | nest f x count side? => do
    let f ← taking f
    cleaningUp (do Step.nest f side? count (← taking x)) (release f)
  | copy x => taking x
  | untag x => borrowing x fun h => share h.untagged
  | clone x => borrowing x fun h => Step.run (Run.cloneObject h)
  | intoResult x => do Step.run (Run.intoResult (← taking x))
  | field x i => borrowing x fun h => do
    match ← Step.run (Run.fieldOf? h i) with
    | some part => share part
    | none => throw .noField
  | upgrade w => do
    let o ← weakIn w
    if ← inspect (·.isAlive o) then share (.plain o) else throw .dangling
  | bindSelf x => borrowing x fun h => Step.run (Run.bindSelf h)
  | argument x i => borrowing x fun h => do Step.run (← argumentOf h i).peek
  | memo x => borrowing x fun h => do
    match (← closureOf h).memo with
    | .done kept => share kept
    | _ => throw .empty
  | memoize v x => do
    let v ← taking v
    let h ← onFailure (handleIn x) (release v)
    cleaningUp (Step.memoize v h) (if x.moved then release h else pure ())
  | invoke reducer x => borrowing x fun h => do
    Step.invoke (reducer.reducer (← get).options) h
  | store v x => do
    let v ← taking v
    let h ← onFailure (handleIn x) (release v)
    cleaningUp
      (do
        let _ ← onFailure (applicationOf h) (release v)
        Step.run (Run.store h.target v))
      (if x.moved then release h else pure ())
  | cached x => borrowing x fun h => do
    require (← Step.run (← applicationOf h).cached?) .empty
  | knotValue x => borrowing x fun h => do
    require (← Step.run (← applicationOf h).knotValue?) .empty
  | functionPart x => borrowing x fun h => do
    match ← applicationOf h with
    | .pending function _ => share function
    | _ => throw .reduced
  | argumentPart x => borrowing x fun h => do
    match ← applicationOf h with
    | .pending _ x => share x
    | _ => throw .reduced
  | eval x mode => borrowing x fun h => do
    Step.run (mode.evaluate (← get).options h)
  | peek t => do Step.run (← thunkIn t).peek
  | force t reducer => do
    Step.run ((← thunkIn t).force (reducer.reducer (← get).options))

end Producer

end GraphReduction
