import GraphReduction.Machine.Thunk

/-!
Binding arguments. Nothing is evaluated: the argument is suspended in a thunk that fills the next
slot, in place if nobody else can see the closure and in a copy otherwise. A closure that is bound
into itself refers to itself weakly.
-/
namespace GraphReduction

open Run

namespace Closure

/-- The slot for a copy. Thunks are shared, and live back edges become strong. -/
def copySlot : Option ThunkId → Run (Option ThunkId)
  | some t => return some (← t.forCopy)
  | none => pure none

/-- A result that is still being computed is not copied. -/
def copyMemo : Memo → Run Memo
  | .done h => return .done (← share h)
  | .empty | .running => pure .empty

/-- A copy to bind into. -/
def copy (c : Closure) : Run Closure := do
  let slots ← c.slots.toList.mapM copySlot
  change (·.retainCombinator c.combinator)
  let memo ← copyMemo c.memo
  pure { c with slots := slots.toArray, memo }

end Closure

namespace Run

/-- The closure in which an owned thunk is bound as the next argument of the owned function. -/
def bindThunk (function : Handle) (t : ThunkId) : Run Handle := do
  let target := function.untagged
  match ← inspect (·.closure? target) with
  | none =>
    let found ← inspect (·.describe target)
    change (·.releaseThunk t)
    release target
    raise (.badApply found)
  | some c =>
    if c.isSaturated then
      let name ← inspect (·.combinatorName c.combinator)
      change (·.releaseThunk t)
      release target
      raise (.tooManyArguments name)
    else
      let mustCopy ← inspect fun m => c.missing == c.total || m.hasRecursiveSlot c
      let unique ← inspect fun m => ((m.object? target.target).map Object.isUnique).getD false
      if !mustCopy && unique then
        change (·.setKind target.target (.closure (c.fill t)))
        pure target
      else
        let fresh ← c.copy
        let h ← newObject (.closure (fresh.fill t))
        release target
        pure h

def applyArgument (function argument : Handle) : Run Handle := do
  bindThunk function (← newThunk (.pending argument))

/-- A copy of the borrowed function whose next argument is the copy itself. At least one more
argument has to be missing, so that the copy is not saturated. -/
def bindSelf (function : Handle) : Run Handle := do
  let refuse : Run Handle := do raise (.badFix (← inspect (·.describe function)))
  match ← inspect (·.closure? function) with
  | none => refuse
  | some c =>
    if c.missing < 2 then
      refuse
    else
      let fresh ← c.copy
      let self ← inspect fun m => (⟨m.objects.next⟩ : ObjectId)
      let t ← newThunk (.recursive self)
      let h ← newObject (.closure (fresh.fill t))
      change (·.retainWeak h.target)
      pure h

/-- A second object with the same content and the same tag on the handle. -/
def cloneObject (h : Handle) : Run Handle := do
  match ← inspect (·.kind? h) with
  | some (.value v) =>
    v.payload.handles.forM fun part => change (·.retain part)
    finish (.value v)
  | some (.closure c) => finish (.closure (← c.copy))
  | some (.application a) => finish (.application (← a.duplicate))
  | some (.exception error) => finish (.exception error)
  | none => newException .releasedSelfReference
where
  finish (kind : ObjectKind) : Run Handle := return { ← newObject kind with tag := h.tag }

end Run

end GraphReduction
