import Mathlib
import GraphReduction.Proofs.Moves.Evaluator
import GraphReduction.Proofs.Supply.Follows

/-! Evaluation with its own way to accept the results of bodies. The evaluator is one of these. One
that gives up where a single check would draw too many variables is another. -/
namespace GraphReduction

open Run

/-- The computation, or giving up if it draws more than so many variables. -/
def Run.within {α : Type} (limit : Nat) (act : Run α) : Run α := fun s =>
  if (left (act s)).next ≤ s.vars.next + limit then act s else .error .exhausted s

namespace Evaluator

section

variable (accept : Handle → Handle → Run Handle) (options : Options) (reduce : Reducer)

def computeBy (closure : Handle) (c : Closure) : Run Handle := do
  let raw ← invoke options reduce closure.target c
  releasing raw do accept closure (← reduce raw)

def resultBy (closure : Handle) (c : Closure) : Run Handle := do
  match c.memo with
  | .done h => share h
  | .running => throw .exhausted
  | .empty =>
    change (·.setMemo closure.target .running)
    let value ← tryCatch (computeBy accept options reduce closure c) fun signal => do
      change (·.setMemo closure.target .empty)
      throw signal
    let kept ← share value
    change (·.setMemo closure.target (.done kept))
    pure value

def applyReducedBy (function argument : Handle) : Run Handle := do
  if function.isException then
    release argument
    pure function
  else
    match ← tryApply function argument with
    | .error error => newException error
    | .ok bound =>
      match ← inspect (·.closure? bound) with
      | some c =>
        if c.isSaturated then releasing bound (resultBy accept options reduce bound c)
        else pure bound
      | none => pure bound

def applicationBy (function argument : Handle) : Run Handle := do
  applyReducedBy accept options reduce (← releasingOnSignal argument (reduce function)) argument

def reduceOnceBy (h : Handle) : Run Handle := do
  if h.tag = .plain then
    match ← inspect (·.kind? h) with
    | some (.application a) =>
      match ← a.snapshot with
      | .reduced result => pure result
      | .pending function argument =>
        releasing function do
          store h.target (← applicationBy accept options reduce function argument)
    | some (.closure c) =>
      if c.isSaturated then resultBy accept options reduce h c else share h
    | _ => share h
  else
    share h

end

end Evaluator

end GraphReduction
