import GraphReduction.Heap.Release
import GraphReduction.Heap.Text

/-!
The state of a computation over the heap and the ways in which one can end. A computation owns the
handles it was given or has taken; whatever way it ends, it gives back the ones it does not return.
-/
namespace GraphReduction

/-- What happened, in order: notes of bodies, the body runs that an evaluation starts, with those
that come to an end, and the data fixpoints that were tied. -/
inductive Event where
  | note (text : String)
  | began (closure : ObjectId)
  | ended (closure : ObjectId)
  /-- The knot of a data fixpoint, its value, and the heap when both were there. -/
  | tied (knot : ObjectId) (value : Handle) (heap : Heap)

structure Machine where
  heap : Heap := {}
  vars : VarSupply := {}
  trace : Array Event := #[]

inductive Signal where
  | raised (error : EvalError)
  | panicked (payload : PanicPayload)
  /-- It would go on for longer than it was given. -/
  | exhausted
deriving DecidableEq

abbrev Run := EStateM Signal Machine

/-- How handles are reduced on demand. The handle is borrowed, and the result is a new reference. -/
abbrev Reducer := Handle → Run Handle

namespace Run

def inspect (f : Heap → α) : Run α := fun s => .ok (f s.heap) s

def change (f : Heap → Heap) : Run Unit := fun ⟨heap, vars, trace⟩ => .ok () ⟨f heap, vars, trace⟩

def add (f : Heap → α × Heap) : Run α := fun ⟨heap, vars, trace⟩ =>
  match f heap with
  | (a, heap) => .ok a ⟨heap, vars, trace⟩

def raise (error : EvalError) : Run α := throw (.raised error)

def note (text : String) : Run Unit := modify fun s =>
  { s with trace := s.trace.push (.note text) }

def event (e : Event) : Run Unit := modify fun s => { s with trace := s.trace.push e }

def tied (knot : ObjectId) (value : Handle) : Run Unit := modify fun s =>
  { s with trace := s.trace.push (.tied knot value s.heap) }

def withVars (f : VarSupply → α × VarSupply) : Run α := fun ⟨heap, vars, trace⟩ =>
  match f vars with
  | (a, vars) => .ok a ⟨heap, vars, trace⟩

def share (h : Handle) : Run Handle := do
  change (·.retain h)
  pure h

def release (h : Handle) : Run Unit := change (·.release h)

/-- Run `act` and release `h` when it has ended, whatever way. -/
@[inline] def releasing (h : Handle) (act : Run α) : Run α := do
  let a ← tryCatch act fun signal => do
    release h
    throw signal
  release h
  pure a

/-- Run `act` and release `h` if it ends without a result. -/
@[inline] def releasingOnSignal (h : Handle) (act : Run α) : Run α :=
  tryCatch act fun signal => do
    release h
    throw signal

def newObject (kind : ObjectKind) : Run Handle := add (·.newObject kind)

def newThunk (state : ThunkState) : Run ThunkId := add (·.newThunk state)

def newValue (type : Ty) (payload : Payload) : Run Handle := newObject (.value ⟨type, payload⟩)

def newInt (n : Int64) : Run Handle := newValue .int (.int n)

def newBool (b : Bool) : Run Handle := newValue .bool (.bool b)

def newStr (s : String) : Run Handle := newValue .str (.str s)

def newPair (first second : Handle) : Run Handle := newValue .pair (.pair first second)

/-- A new object that carries an error, under the exception tag. -/
def newException (error : EvalError) : Run Handle :=
  return { ← newObject (.exception error) with tag := .exception }

@[simp] theorem pure_run (a : α) (s : Machine) : (pure a : Run α) s = .ok a s := rfl

@[simp] theorem throw_run (signal : Signal) (s : Machine) :
    (throw signal : Run α) s = .error signal s := rfl

theorem bind_run (act : Run α) (next : α → Run β) (s : Machine) :
    (act >>= next) s =
      match act s with
      | .ok a s => next a s
      | .error signal s => .error signal s := by
  show EStateM.bind act next s = _
  delta EStateM.bind
  cases act s <;> rfl

theorem tryCatch_run (act : Run α) (handle : Signal → Run α) (s : Machine) :
    tryCatch act handle s =
      match act s with
      | .ok a s => .ok a s
      | .error signal s => handle signal s := by
  show EStateM.tryCatch act handle s = _
  delta EStateM.tryCatch
  cases act s <;> rfl

@[simp] theorem inspect_run (f : Heap → α) (s : Machine) : inspect f s = .ok (f s.heap) s := rfl

@[simp] theorem change_run (f : Heap → Heap) (s : Machine) :
    change f s = .ok () { s with heap := f s.heap } := rfl

@[simp] theorem add_run (f : Heap → α × Heap) (s : Machine) :
    add f s = .ok (f s.heap).1 { s with heap := (f s.heap).2 } := rfl

@[simp] theorem raise_run (error : EvalError) (s : Machine) :
    (raise error : Run α) s = .error (.raised error) s := rfl

@[simp] theorem share_run (h : Handle) (s : Machine) :
    share h s = .ok h { s with heap := s.heap.retain h } := rfl

@[simp] theorem release_run (h : Handle) (s : Machine) :
    release h s = .ok () { s with heap := s.heap.release h } := rfl

@[simp] theorem releasing_run (h : Handle) (act : Run α) (s : Machine) :
    releasing h act s =
      match act s with
      | .ok a s => .ok a { s with heap := s.heap.release h }
      | .error signal s => .error signal { s with heap := s.heap.release h } := by
  simp only [releasing, bind_run, tryCatch_run]
  cases act s <;> rfl

@[simp] theorem releasingOnSignal_run (h : Handle) (act : Run α) (s : Machine) :
    releasingOnSignal h act s =
      match act s with
      | .ok a s => .ok a s
      | .error signal s => .error signal { s with heap := s.heap.release h } := by
  simp only [releasingOnSignal, tryCatch_run]
  cases act s <;> rfl

/-- A strong reference to the target of a weak one, or an exception if it is gone. -/
def upgrade (o : ObjectId) : Run Handle := do
  if ← inspect (·.isAlive o) then
    share (.plain o)
  else
    newException .releasedSelfReference

/-- The owned handle as a result, or the error that it carries. -/
def intoResult (h : Handle) : Run Handle := do
  match ← inspect (·.error? h) with
  | some error => do
    release h
    raise error
  | none => pure h.untagged

end Run

end GraphReduction
