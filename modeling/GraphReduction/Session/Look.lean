import GraphReduction.Machine.Application
import GraphReduction.Session.Basic

/-!
Looking at what is behind a handle. Nothing is evaluated. Where looking takes references of its own,
or makes the exception that a dangling knot stands for, they are released again.
-/
namespace GraphReduction

namespace Run

def shown (h : Handle) : Run Shown := return ⟨h.tag, ← inspect (·.handleText h)⟩

/-- Show an owned handle and give it back. -/
def shownOnce (h : Handle) : Run Shown := do
  let text ← shown h
  release h
  pure text

def shownOnce? : Option Handle → Run (Option Shown)
  | some h => return some (← shownOnce h)
  | none => pure none

def closureView (c : Closure) : Run ClosureView := inspect fun m =>
  let combinator? := (m.combinator? c.combinator).map HeldCombinator.combinator
  { name := (combinator?.map Combinator.name).getD ""
    combinator := (combinator?.map Combinator.text).getD ""
    type := (combinator?.map fun k => k.type.text).getD ""
    declared := (combinator?.map Combinator.arity).getD 0
    missing := c.missing
    total := c.total
    bound := c.bound
    saturated := c.isSaturated
    recursive := m.hasRecursiveSlot c
    result := c.memo.result?.map fun h => ⟨h.tag, m.handleText h⟩
    arguments := c.arguments.map m.thunkText
    filled := (List.range (c.total + 1)).map fun i => (c.argument? i).isSome }

def nodeView (a : Application) : Run NodeView := do
  let result ← shownOnce? (← a.cached?)
  let knotValue ← shownOnce? (← a.knotValue?)
  let state ← match ← a.snapshot with
    | .pending function argument =>
      pure (NodeState.pending (← shownOnce function) (← shownOnce argument))
    | .reduced h => pure (NodeState.reduced (← shownOnce h))
  let isKnot := match a with
    | .knot _ => true
    | _ => false
  pure { isReduced := a.isReduced, result, isKnot, knotValue, state }

def valueView (v : Boxed) : ValueView := ⟨v.type.text, v.payload.size, v.payload.text⟩

def view (h : Handle) : Run View := do
  let closure ← match ← inspect (·.closure? h) with
    | some c => pure (some (← closureView c))
    | none => pure none
  let node ← match ← inspect (·.application? h) with
    | some a => pure (some (← nodeView a))
    | none => pure none
  let shown ← shown h
  inspect fun m =>
    { shown
      describe := m.describe h
      isStatic := m.isStatic h
      error := m.error? h
      closure
      node
      value := (m.boxed? h).map valueView
      payload := if h.isException then none else (m.boxed? h.untagged).map Boxed.payload }

end Run

end GraphReduction
