import GraphReduction.Heap.Basic
import GraphReduction.Ty.Rename
import GraphReduction.Unify.Query

/-!
Types of terms, found without evaluating anything. A walk over the graph collects one equation per
application, where a closure counts as its declaration applied to each bound argument, and one per
object, which says that the object's own type variable is the type of what it holds. The solution
applied to the term's type and generalized is the type of the term.

An object gets its type variable before its parts are visited, so a back edge finds the variable and
the walk ends. A declaration without arguments is no part of a cycle and is not entered: each use
gets an instance of its own. Exceptions inhabit every type.
-/
namespace GraphReduction

structure Walk where
  vars : VarSupply
  constraints : Constraints := {}
  seen : List (ObjectId × VarId) := []

namespace Walk

def fresh (w : Walk) : Ty × Walk :=
  let (v, vars) := w.vars.fresh
  (.var v, { w with vars })

def push (w : Walk) (expected actual : Ty) : Walk :=
  { w with constraints := w.constraints.push expected actual }

/-- The type of applying a function of one type to an argument of another. -/
def application (w : Walk) (function argument : Ty) : Ty × Walk :=
  let (result, w) := w.fresh
  (result, w.push function (.arrow argument result))

end Walk

namespace Heap

/-- The handle in a slot, as far as its type is concerned: nothing stands for an exception. -/
def slotHandle? (m : Heap) (t : ThunkId) : Option Handle :=
  match (m.thunk? t).map Thunk.state with
  | some (.pending h) | some (.forced h) => some h
  | some (.recursive o) => if m.isAlive o then some (.plain o) else none
  | none => none

/-- What a node is reduced to. -/
def knotHandle? (m : Heap) : Knot → Option Handle
  | .unresolved => none
  | .weak o => if m.isAlive o then some (.plain o) else none
  | .strong h => some h

/-- The type of the object behind a handle, entering at most `depth` objects one inside the other.
An absent handle is an exception. -/
def visit (m : Heap) : Nat → Option Handle → Walk → Ty × Walk
  | 0, _, w => w.fresh
  | _, none, w => w.fresh
  | depth + 1, some h, w =>
    if h.isException then w.fresh
    else
      match w.seen.lookup h.target, m.kind? h with
      | some v, _ => (.var v, w)
      | none, some (.closure c) =>
        if c.bound = 0 then
          visitClosure m (visit m depth) c w
        else
          enter h.target (visitClosure m (visit m depth) c) w
      | none, some (.value v) => enter h.target (fun w => (v.type, w)) w
      | none, some (.exception _) => enter h.target Walk.fresh w
      | none, some (.application (.reduced result)) =>
        enter h.target (visit m depth (some result)) w
      | none, some (.application (.knot k)) => enter h.target (visit m depth (m.knotHandle? k)) w
      | none, some (.application (.pending function argument)) =>
        enter h.target (fun w =>
          let (function, w) := visit m depth (some function) w
          let (argument, w) := visit m depth (some argument) w
          w.application function argument) w
      | none, none => w.fresh
where
  /-- Give an object its variable, visit its parts, and equate the two. -/
  enter (o : ObjectId) (parts : Walk → Ty × Walk) (w : Walk) : Ty × Walk :=
    let (v, vars) := w.vars.fresh
    let (t, w) := parts { w with vars, seen := (o, v) :: w.seen }
    (.var v, w.push (.var v) t)
  /-- An instance of the declared type, applied to the arguments in order. -/
  visitClosure (m : Heap) (visit : Option Handle → Walk → Ty × Walk) (c : Closure) (w : Walk) :
      Ty × Walk :=
    let declared := ((m.combinator? c.combinator).map (·.combinator.type)).getD .int
    let (t, vars) := declared.instantiate w.vars
    c.arguments.foldl (fun (t, w) slot =>
      let (argument, w) := visit (m.slotHandle? slot) w
      w.application t argument) (t, { w with vars })

/-- A walk never enters an object twice, so this depth is never reached. -/
def visitDepth (m : Heap) : Nat := m.objects.next + 1

/-- The type of a term, with the remaining variables generic. -/
def typeOf (m : Heap) (h : Handle) (vars : VarSupply) : Except UnifyError Ty × VarSupply :=
  let (t, w) := m.visit m.visitDepth (some h) { vars }
  match w.constraints.solve with
  | .error error => (.error error, w.vars)
  | .ok s =>
    let (t, vars) := (s.apply t).generalize w.vars
    (.ok t, vars)

/-- Whether the result can be the value of the saturated closure, typed in one walk. -/
def checkResult (m : Heap) (closure result : Handle) (vars : VarSupply) :
    Except EvalError Unit × VarSupply :=
  let (expected, w) := m.visit m.visitDepth (some closure) { vars }
  let (actual, w) := m.visit m.visitDepth (some result) w
  match (w.constraints.push expected actual).solve with
  | .error error => (.error (.ofUnify error), w.vars)
  | .ok _ => (.ok (), w.vars)

end Heap

end GraphReduction
