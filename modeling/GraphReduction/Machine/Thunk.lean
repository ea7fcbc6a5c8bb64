import GraphReduction.Machine.Application

/-!
Arguments on demand. The first demand evaluates a suspended argument and keeps the result; later
ones find it. A back edge of a fixpoint is looked through at every demand and never kept, since
keeping its target would make the target own itself.
-/
namespace GraphReduction.ThunkId

open Run

def state? (t : ThunkId) : Run (Option ThunkState) := inspect fun m => (m.thunk? t).map Thunk.state

/-- Keep an owned result in a thunk, unless one is there already. -/
def keep (t : ThunkId) (value : Handle) : Run Handle := do
  match ← t.state? with
  | some (.forced first) =>
    let first ← share first
    release value
    pure first
  | some (.pending suspended) =>
    let kept ← share value
    change (·.setThunkState t (.forced kept))
    release suspended
    pure value
  | _ => pure value

/-- Evaluate on first use, then return what was kept. -/
def force (reduce : Reducer) (t : ThunkId) : Run Handle := do
  match ← t.state? with
  | some (.forced h) => share h
  | some (.recursive o) => upgrade o
  | some (.pending h) =>
    let h ← share h
    releasing h do
      let isKnot ← inspect (·.isKnot h)
      let value ← reduce h
      if isKnot then pure value else t.keep value
  | none => newException .releasedSelfReference

def peek (t : ThunkId) : Run Handle := do
  match ← t.state? with
  | some (.forced h) | some (.pending h) => share h
  | some (.recursive o) => upgrade o
  | none => newException .releasedSelfReference

def share (t : ThunkId) : Run ThunkId := do
  change (·.retainThunk t)
  pure t

/-- The strong target that a back edge becomes in a copy of its closure, if the edge is live. -/
def copyTarget? (t : ThunkId) : Run (Option Handle) := do
  match ← t.state? with
  | some (.recursive o) =>
    if ← inspect (·.isAlive o) then
      return some (← Run.share (.plain o))
    else
      pure none
  | some (.pending h) =>
    match ← inspect (·.application? h) with
    | some a => a.knotValue?
    | none => pure none
  | _ => pure none

/-- The slot for a copy of the closure. Thunks are shared with the copy, except that a back edge
becomes a strong reference in it. -/
def forCopy (t : ThunkId) : Run ThunkId := do
  match ← t.copyTarget? with
  | some target => newThunk (.forced target)
  | none => t.share

end GraphReduction.ThunkId
