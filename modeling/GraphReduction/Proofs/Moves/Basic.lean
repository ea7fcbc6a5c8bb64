import Mathlib
import GraphReduction.Machine.Basic
import GraphReduction.Proofs.Heap.Steps
import GraphReduction.Proofs.Heap.Proper

/-! How a computation moves the machine. `Moves lent s own s' own'` is a course from `s` to `s'` in
which a computation that holds `own` comes to hold `own'` and touches nothing but what it can get
hold of: its own, the cells that are lent to it, and what these lead to. Memos are only written at
the end of a course of their own, over the operands of the cell that keeps the result. -/
namespace GraphReduction

namespace Heap

def kindOf? (m : Heap) (o : ObjectId) : Option ObjectKind := (m.object? o).map Object.kind

def stateOf? (m : Heap) (t : ThunkId) : Option ThunkState := (m.thunk? t).map Thunk.state

/-- Where a back edge of a fixpoint leads, if the value of the fixpoint is known. -/
def backEdge? (m : Heap) (t : ThunkId) : Option ObjectId :=
  match m.stateOf? t with
  | some (.recursive o) => if m.isAlive o then some o else none
  | some (.pending h) =>
    match m.application? h with
    | some (.knot (.weak o)) => some o
    | _ => none
  | _ => none

/-- The back edges of a closure that still misses arguments are not handed out. -/
def Hides (m : Heap) (cell : Edge) (r : Holding) : Prop :=
  ∃ f c t, cell = .object f ∧ m.kindOf? f = some (.closure c) ∧ c.isSaturated = false ∧
    r = .strong (.thunk t) ∧ (m.backEdge? t).isSome

/-- What a computation can get hold of. -/
inductive Access (m : Heap) (lent : Set Edge) (own : Multiset Holding) : Holding → Prop where
  | own {r : Holding} (hr : r ∈ own) : Access m lent own r
  | lent {cell : Edge} (hcell : cell ∈ lent) : Access m lent own (.strong cell)
  | library (p : Primitive) : Access m lent own (.strong (.object ⟨p.place⟩))
  | inside {cell : Edge} {r : Holding} (hcell : Access m lent own (.strong cell))
      (hr : r ∈ m.holds cell) (hopen : ¬ m.Hides cell r) : Access m lent own r
  | back {f o : ObjectId} {c : Closure} {t : ThunkId}
      (hf : Access m lent own (.strong (.object f))) (hc : m.kindOf? f = some (.closure c))
      (ht : t ∈ c.arguments) (hback : m.backEdge? t = some o) : Access m lent own (.weak o)

/-- A content that a new object can have: a closure in order, and a tied knot only as a second one
to a knot at hand. -/
structure Makes (m : Heap) (lent : Set Edge) (own : Multiset Holding) (kind : ObjectKind) :
    Prop where
  proper : ∀ c, kind = .closure c → c.Proper
  knot : ∀ o, kind = .application (.knot (.weak o)) →
    ∃ k, m.Access lent own (.strong (.object k)) ∧ m.kindOf? k = some kind

/-- Nobody else refers to the object, not even weakly. -/
def IsUnique (m : Heap) (o : ObjectId) : Prop := (m.object? o).map Object.hold = some (.shared 1 0)

def tie (m : Heap) (knot : ObjectId) (value : Handle) : Heap :=
  if m.isStatic value then m.setKind knot (.application (.knot (.strong value.untagged)))
  else (m.retainWeak value.target).setKind knot (.application (.knot (.weak value.target)))

def bindSelf (m : Heap) (fresh : Closure) : Heap :=
  let self := m.nextObject
  let (t, m) := m.newThunk (.recursive self)
  ((m.newObject (.closure (fresh.fill t))).2).retainWeak self

end Heap

def Closure.operands (c : Closure) : Set Edge :=
  { cell | cell = .combinator c.combinator ∨ ∃ t ∈ c.arguments, cell = .thunk t }

/-- What the references of this multiset refer to. -/
def lending (own : Multiset Holding) : Set Edge := { cell | .strong cell ∈ own }

def Machine.on (s : Machine) (f : Heap → Heap) : Machine := { s with heap := f s.heap }

def Machine.push (s : Machine) (e : Event) : Machine := { s with trace := s.trace.push e }

@[simp] theorem Machine.heap_on (s : Machine) (f : Heap → Heap) : (s.on f).heap = f s.heap := rfl

@[simp] theorem Machine.heap_push (s : Machine) (e : Event) : (s.push e).heap = s.heap := rfl

/-- The result of a closure begins to be computed: the closure says so, and its body begins. -/
def Machine.begin (s : Machine) (o : ObjectId) : Machine :=
  (s.on (·.setMemo o .running)).push (.began o)

@[simp] theorem Machine.heap_begin (s : Machine) (o : ObjectId) :
    (s.begin o).heap = s.heap.setMemo o .running := rfl

/-- Events that come alone. A body begins when a result is computed, and a knot is tied with its
value. -/
def Event.IsRemark : Event → Prop
  | note _ | ended _ => True
  | began _ | tied .. => False

inductive Moves : Set Edge → Machine → Multiset Holding → Machine → Multiset Holding → Prop where
  | refl (lent s own) : Moves lent s own s own
  | trans {lent s own s₁ own₁ s₂ own₂} (h : Moves lent s own s₁ own₁)
      (h' : Moves lent s₁ own₁ s₂ own₂) : Moves lent s own s₂ own₂
  /-- What is not used is lent. -/
  | frame {lent s own s' own'} (rest : Multiset Holding)
      (h : Moves (lent ∪ lending rest) s own s' own') : Moves lent s (own + rest) s' (own' + rest)
  /-- Objects are only lent on; parts of closures can be lent as well. -/
  | lend {lent lent' s own s' own'} (h : Moves lent' s own s' own')
      (hlent : ∀ cell ∈ lent', cell ∈ lent ∨
        (∀ o, cell ≠ .object o) ∧ s.heap.Access lent own (.strong cell)) :
      Moves lent s own s' own'
  | drawn {lent s own} (vars : VarSupply) : Moves lent s own { s with vars } own
  | noted {lent s own} (e : Event) (h : e.IsRemark) : Moves lent s own (s.push e) own
  /-- Anything but a dangling back edge can be an error by itself. -/
  | raised {lent s own} (e : EvalError) (h : e ≠ .releasedSelfReference) :
      Moves lent s own s (.error e ::ₘ own)
  | copied {lent s own} (e : EvalError) (h : s.heap.Access lent own (.error e)) :
      Moves lent s own s (.error e ::ₘ own)
  | forgot {lent s own} (e : EvalError) : Moves lent s (.error e ::ₘ own) s own
  /-- A weak reference leads nowhere any more. -/
  | dangled {lent s own} (o : ObjectId) (h : s.heap.Access lent own (.weak o))
      (hdead : ¬ s.heap.IsLive (.object o)) :
      Moves lent s own s (.error .releasedSelfReference ::ₘ own)
  | retain {lent s own} (cell : Edge) (h : s.heap.Access lent own (.strong cell))
      (hlive : s.heap.IsLive cell) :
      Moves lent s own (s.on (·.retainEdge cell)) (.strong cell ::ₘ own)
  /-- A second reference that is weak like the one in a knot at hand. -/
  | retainWeak {lent s own} {k : ObjectId} (o : ObjectId)
      (h : s.heap.Access lent own (.strong (.object k)))
      (hkind : s.heap.kindOf? k = some (.application (.knot (.weak o)))) :
      Moves lent s own (s.on (·.retainWeak o)) (.weak o ::ₘ own)
  | releaseWeak {lent s own} (o : ObjectId) :
      Moves lent s (.weak o ::ₘ own) (s.on (·.releaseWeak o)) own
  | upgrade {lent s own} (o : ObjectId) (h : s.heap.Access lent own (.weak o))
      (hlive : s.heap.IsLive (.object o)) :
      Moves lent s own (s.on (·.retainEdge (.object o))) (.strong (.object o) ::ₘ own)
  /-- A reference is given back, and with it what only that has kept. -/
  | dropped {lent s own} (loose : Loose) :
      Moves lent s (loose.holding ::ₘ own) (s.on (·.releaseAll [loose])) own
  | newObject {lent s own} (kind : ObjectKind)
      (h : s.heap.Makes lent (kind.holdings + own) kind) :
      Moves lent s (kind.holdings + own) (s.on fun m => (m.newObject kind).2)
        (.strong (.object s.heap.nextObject) ::ₘ own)
  | newThunk {lent s own} (state : ThunkState) (h : state.weakTarget? = none) :
      Moves lent s (state.holdings + own) (s.on fun m => (m.newThunk state).2)
        (.strong (.thunk (s.heap.newThunk state).1) ::ₘ own)
  /-- Bind in place. -/
  | fill {lent s own} {o : ObjectId} {c : Closure} (t : ThunkId)
      (hkind : s.heap.kindOf? o = some (.closure c)) (hunique : s.heap.IsUnique o)
      (hmissing : 0 < c.missing) (hback : s.heap.hasRecursiveSlot c = false) :
      Moves lent s (.strong (.thunk t) ::ₘ .strong (.object o) ::ₘ own)
        (s.on (·.setKind o (.closure (c.fill t)))) (.strong (.object o) ::ₘ own)
  | bindSelf {lent s own} (fresh : Closure) (hproper : fresh.Proper) (hmissing : 1 < fresh.missing) :
      Moves lent s ((ObjectKind.closure fresh).holdings + own) (s.on (·.bindSelf fresh))
        (.strong (.object s.heap.nextObject) ::ₘ own)
  | memoNode {s s₁ post} {o : ObjectId} {f x f' x' r : Handle}
      (hkind : s.heap.kindOf? o = some (.application (.pending f x)))
      (h : Moves ∅ (s.on fun m => (m.retainEdge f.edge).retainEdge x.edge) {f.holding, x.holding}
        s₁ (r.holding ::ₘ post))
      (hkind' : s₁.heap.kindOf? o = some (.application (.pending f' x'))) :
      Moves {.object o} s 0 (s₁.on (·.setKind o (.application (.reduced r))))
        (f'.holding ::ₘ x'.holding ::ₘ post)
  | memoThunk {s s₁ post} {t : ThunkId} {x x' r : Handle}
      (hstate : s.heap.stateOf? t = some (.pending x)) (hknot : s.heap.isKnot x = false)
      (h : Moves ∅ (s.on (·.retainEdge x.edge)) {x.holding} s₁ (r.holding ::ₘ post))
      (hstate' : s₁.heap.stateOf? t = some (.pending x')) :
      Moves {.thunk t} s 0 (s₁.on (·.setThunkState t (.forced r))) (x'.holding ::ₘ post)
  | memoClosure {s s₁ post} {o : ObjectId} {c : Closure} {r : Handle}
      (hkind : s.heap.kindOf? o = some (.closure c)) (hmissing : c.missing = 0)
      (hmemo : c.memo = .empty)
      (h : Moves c.operands (s.begin o) 0 s₁ (r.holding ::ₘ post))
      (hkind' : s₁.heap.kindOf? o = some (.closure { c with memo := .running })) :
      Moves {.object o} s 0 (s₁.on (·.setMemo o (.done r))) post
  /-- The computation of a result ended without one. -/
  | memoFailed {s s₁ post} {o : ObjectId} {c : Closure}
      (hkind : s.heap.kindOf? o = some (.closure c)) (hmissing : c.missing = 0)
      (hmemo : c.memo = .empty) (h : Moves c.operands (s.begin o) 0 s₁ post)
      (hkind' : s₁.heap.kindOf? o = some (.closure { c with memo := .running })) :
      Moves {.object o} s 0 (s₁.on (·.setMemo o .empty)) post
  /-- A data fixpoint: a course over a knot, which is then pointed at the value. -/
  | tied {lent s own s₁ own₁} {value : Handle} (gone : List Handle)
      (h : Moves lent (s.on fun m => (m.newObject (.application (.knot .unresolved))).2)
        (.strong (.object s.heap.nextObject) ::ₘ own) s₁
        (value.holding ::ₘ ↑(gone.map Handle.holding) + own₁))
      (hknot : s₁.heap.kindOf? s.heap.nextObject = some (.application (.knot .unresolved)))
      (hlive : s₁.heap.IsLive value.edge) :
      Moves lent s own
        ((s₁.on fun m => gone.foldl (·.release ·) (m.tie s.heap.nextObject value)).push
          (.tied s.heap.nextObject value
            (gone.foldl (·.release ·) (s₁.heap.tie s.heap.nextObject value))))
        (value.holding ::ₘ own₁)

end GraphReduction
