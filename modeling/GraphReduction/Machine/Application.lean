import GraphReduction.Machine.Basic

/-!
Application nodes. A node holds a function and an argument until it is reduced, and then the result
in their place: the first result stored wins, and it keeps its tag from then on. A knot stands for
the value of a data fixpoint; before the value exists, demanding it is an error.
-/
namespace GraphReduction

namespace Knot

def value? : Knot → Run (Option Handle)
  | unresolved => pure none
  | weak o => return some (← Run.upgrade o)
  | strong h => return some (← Run.share h)

/-- The value as reducing the node yields it. -/
def reduced (k : Knot) : Run Handle := do
  match ← k.value? with
  | some h => pure h.asCached
  | none => Run.newException .blackHole

end Knot

/-- What a reduction finds in a node, as references of its own. -/
inductive Snapshot where
  | pending (function argument : Handle)
  | reduced (result : Handle)

namespace Application

def snapshot : Application → Run Snapshot
  | pending function argument => return .pending (← Run.share function) (← Run.share argument)
  | reduced result => return .reduced (← Run.share result)
  | knot k => return .reduced (← k.reduced)

def isReduced : Application → Bool
  | pending .. | knot .unresolved => false
  | reduced _ | knot _ => true

def cached? : Application → Run (Option Handle)
  | pending .. => pure none
  | reduced result => return some (← Run.share result)
  | knot k => return (← k.value?).map Handle.asCached

/-- The value of a resolved knot; an ordinary node has none. -/
def knotValue? : Application → Run (Option Handle)
  | knot k => k.value?
  | _ => pure none

def duplicate : Application → Run Application
  | pending function argument => return pending (← Run.share function) (← Run.share argument)
  | reduced result => return reduced (← Run.share result)
  | knot (.weak o) => do
    Run.change (·.retainWeak o)
    pure (knot (.weak o))
  | knot (.strong h) => return knot (.strong (← Run.share h))
  | knot .unresolved => pure (knot .unresolved)

end Application

namespace Run

/-- The node that stands for applying one owned handle to another. -/
def newApplication (function argument : Handle) : Run Handle :=
  newObject (.application (.pending function argument))

def newKnot : Run Handle := newObject (.application (.knot .unresolved))

/-- Memoize an owned result in a node and give the function and the argument back. What the node
holds afterwards is returned. -/
def store (node : ObjectId) (result : Handle) : Run Handle := do
  let cached := result.asCached
  match (← inspect (·.kind? (.plain node))).bind ObjectKind.application? with
  | some (.pending function argument) =>
    let kept ← share cached
    change (·.setKind node (.application (.reduced kept)))
    release function
    release argument
    pure cached
  | some (.reduced first) =>
    let first ← share first
    release cached
    pure first
  | some (.knot k) =>
    let value ← k.reduced
    release cached
    pure value
  | none => pure cached

/-- Point an unresolved knot at a borrowed value. Any other node stays as it is. -/
def resolve (node : ObjectId) (value : Handle) : Run Unit := do
  match (← inspect (·.kind? (.plain node))).bind ObjectKind.application? with
  | some (.knot .unresolved) =>
    let k ←
      if value.isException then
        pure (Knot.strong (← share value))
      else if ← inspect (·.isStatic value) then
        pure (Knot.strong value.untagged)
      else do
        change (·.retainWeak value.target)
        pure (Knot.weak value.target)
    change (·.setKind node (.application (.knot k)))
  | _ => pure ()

end Run

end GraphReduction
