import GraphReduction.Combinator.Basic

/-!
What the heap holds. Objects are boxed values, closures, application nodes and exceptions; thunks
are the argument slots of closures as cells of their own, since copies of a closure share them. An
`Edge` is a strong reference from one cell to another. Weak references own nothing: they are found
in recursive thunks and in knots.
-/
namespace GraphReduction

inductive Edge where
  | object (o : ObjectId)
  | thunk (t : ThunkId)
  | combinator (c : CombinatorId)
deriving DecidableEq

namespace Handle

def edge (h : Handle) : Edge := .object h.target

end Handle

inductive Payload where
  | int (n : Int64)
  | bool (b : Bool)
  | str (s : String)
  /-- Adds one to a counter when it is destroyed. -/
  | tracked (counter : String)
  | pair (first second : Handle)
deriving DecidableEq

namespace Payload

def handles : Payload → List Handle
  | pair first second => [first, second]
  | _ => []

/-- Size for accounting: bytes, or the number of handles where the payload owns any. -/
def size : Payload → Nat
  | int _ => 8
  | bool _ => 1
  | str s => 16 + s.utf8ByteSize
  | tracked _ => 8
  | pair _ _ => 2

end Payload

structure Boxed where
  type : Ty
  payload : Payload
deriving DecidableEq

/-- The result of a closure's body: not there, being computed, or there. -/
inductive Memo where
  | empty
  | running
  | done (h : Handle)
deriving DecidableEq

namespace Memo

def result? : Memo → Option Handle
  | done h => some h
  | _ => none

end Memo

/-- A partially applied combinator. The slots are filled from the last one to the first, so the
first argument is in the last slot and `missing` slots at the front are empty. -/
structure Closure where
  combinator : CombinatorId
  missing : Nat
  slots : Array (Option ThunkId)
  memo : Memo := .empty
deriving DecidableEq

namespace Closure

/-- A closure without arguments. -/
def bare (c : CombinatorId) (arity : Nat) : Closure := ⟨c, arity, .replicate arity none, .empty⟩

def total (c : Closure) : Nat := c.slots.size

def bound (c : Closure) : Nat := c.total - c.missing

def isSaturated (c : Closure) : Bool := c.missing == 0

/-- The thunk of an argument, counted from the first one applied. An index is a number here: the
largest machine word, to which one cannot be added, is past the last argument like any other. -/
def argument? (c : Closure) (i : Nat) : Option ThunkId :=
  if i < c.total then c.slots[c.total - (i + 1)]?.join else none

/-- The bound arguments, first one applied first. -/
def arguments (c : Closure) : List ThunkId := c.slots.toList.reverse.filterMap id

def fill (c : Closure) (t : ThunkId) : Closure :=
  { c with missing := c.missing - 1, slots := c.slots.setIfInBounds (c.missing - 1) (some t) }

end Closure

/-- The self reference of a data fixpoint. It does not own its value, which usually contains it; a
static object or an exception, which cannot contain it, is kept like any other. -/
inductive Knot where
  | unresolved
  | weak (o : ObjectId)
  | strong (h : Handle)
deriving DecidableEq

inductive Application where
  | pending (function argument : Handle)
  | reduced (result : Handle)
  | knot (k : Knot)
deriving DecidableEq

inductive ObjectKind where
  | value (v : Boxed)
  | closure (c : Closure)
  | application (a : Application)
  | exception (error : EvalError)
deriving DecidableEq

inductive ThunkState where
  | pending (h : Handle)
  | forced (h : Handle)
  /-- The closure that the thunk is an argument of. -/
  | recursive (o : ObjectId)
deriving DecidableEq

/-- How long an object stays: for good and uncounted, or while it has strong references. -/
inductive Hold where
  | static
  | shared (strong weak : Nat)
deriving DecidableEq

structure Object where
  hold : Hold
  kind : ObjectKind
deriving DecidableEq

structure Thunk where
  owners : Nat
  state : ThunkState
deriving DecidableEq

structure HeldCombinator where
  owners : Nat
  combinator : Combinator
deriving DecidableEq

namespace Knot

def edges : Knot → List Edge
  | strong h => [h.edge]
  | _ => []

def weakTarget? : Knot → Option ObjectId
  | weak o => some o
  | _ => none

end Knot

namespace ObjectKind

/-- The strong references that the object owns. -/
def edges : ObjectKind → List Edge
  | value v => v.payload.handles.map Handle.edge
  | closure c =>
    .combinator c.combinator :: c.arguments.map .thunk ++ c.memo.result?.toList.map Handle.edge
  | application (.pending function argument) => [function.edge, argument.edge]
  | application (.reduced result) => [result.edge]
  | application (.knot k) => k.edges
  | exception _ => []

def weakTarget? : ObjectKind → Option ObjectId
  | application (.knot k) => k.weakTarget?
  | _ => none

def closure? : ObjectKind → Option Closure
  | closure c => some c
  | _ => none

def application? : ObjectKind → Option Application
  | application a => some a
  | _ => none

def value? : ObjectKind → Option Boxed
  | value v => some v
  | _ => none

def error? : ObjectKind → Option EvalError
  | exception error => some error
  | _ => none

end ObjectKind

namespace ThunkState

def edges : ThunkState → List Edge
  | pending h | forced h => [h.edge]
  | recursive _ => []

def weakTarget? : ThunkState → Option ObjectId
  | recursive o => some o
  | _ => none

end ThunkState

namespace HeldCombinator

/-- The captured handles of the body, one reference for each occurrence. -/
def edges (c : HeldCombinator) : List Edge := c.combinator.body.captures.map Handle.edge

end HeldCombinator

end GraphReduction
