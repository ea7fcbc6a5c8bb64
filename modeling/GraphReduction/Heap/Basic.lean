import GraphReduction.Heap.Arena
import GraphReduction.Heap.Object

/-!
The heap and its single steps: looking cells up, adding cells, and counting references up. A new
cell starts with one strong reference, which belongs to whoever asked for the cell. Counting down
is the work of the release cascade.
-/
namespace GraphReduction

structure Heap where
  objects : Arena Object := {}
  thunks : Arena Thunk := {}
  combinators : Arena HeldCombinator := {}
  /-- The objects whose payload was asked to give up its handles, latest first. -/
  drained : List ObjectId := []
  /-- How often each counter was added to by a destroyed payload. -/
  drops : List (String × Nat) := []

namespace Object

/-- Outstanding strong references; a static object has none. -/
def refCount (x : Object) : Nat :=
  match x.hold with
  | .static => 0
  | .shared strong _ => strong

def isStatic (x : Object) : Bool :=
  match x.hold with
  | .static => true
  | .shared .. => false

def retain (x : Object) : Object :=
  match x.hold with
  | .static => x
  | .shared strong weak => { x with hold := .shared (strong + 1) weak }

/-- Give one strong reference back, where it is not the last one. -/
def lose (x : Object) : Object :=
  match x.hold with
  | .static => x
  | .shared strong weak => { x with hold := .shared (strong - 1) weak }

def retainWeak (x : Object) : Object :=
  match x.hold with
  | .static => x
  | .shared strong weak => { x with hold := .shared strong (weak + 1) }

def loseWeak (x : Object) : Object :=
  match x.hold with
  | .static => x
  | .shared strong weak => { x with hold := .shared strong (weak - 1) }

/-- Whether a strong reference is the only reference of any kind. -/
def isUnique (x : Object) : Bool :=
  match x.hold with
  | .static => false
  | .shared strong weak => strong == 1 && weak == 0

@[simp] theorem kind_retain (x : Object) : x.retain.kind = x.kind := by
  unfold retain; split <;> rfl

@[simp] theorem kind_lose (x : Object) : x.lose.kind = x.kind := by
  unfold lose; split <;> rfl

@[simp] theorem kind_retainWeak (x : Object) : x.retainWeak.kind = x.kind := by
  unfold retainWeak; split <;> rfl

@[simp] theorem kind_loseWeak (x : Object) : x.loseWeak.kind = x.kind := by
  unfold loseWeak; split <;> rfl

end Object

namespace Heap

/-! Looking up -/

def object? (m : Heap) (o : ObjectId) : Option Object := m.objects.get? o.index

def thunk? (m : Heap) (t : ThunkId) : Option Thunk := m.thunks.get? t.index

def combinator? (m : Heap) (c : CombinatorId) : Option HeldCombinator :=
  m.combinators.get? c.index

/-- What is behind a handle, whatever its tag. -/
def kind? (m : Heap) (h : Handle) : Option ObjectKind := (m.object? h.target).map Object.kind

/-- What is behind a plain handle. Tagged handles are not looked through. -/
def plainKind? (m : Heap) (h : Handle) : Option ObjectKind :=
  if h.tag = .plain then m.kind? h else none

def closure? (m : Heap) (h : Handle) : Option Closure :=
  (m.plainKind? h).bind ObjectKind.closure?

def application? (m : Heap) (h : Handle) : Option Application :=
  (m.plainKind? h).bind ObjectKind.application?

def boxed? (m : Heap) (h : Handle) : Option Boxed := (m.plainKind? h).bind ObjectKind.value?

/-- The error that an exception handle carries. -/
def error? (m : Heap) (h : Handle) : Option EvalError :=
  if h.tag = .exception then (m.kind? h).bind ObjectKind.error? else none

def refCount (m : Heap) (h : Handle) : Nat := ((m.object? h.target).map Object.refCount).getD 0

def isStatic (m : Heap) (h : Handle) : Bool := ((m.object? h.target).map Object.isStatic).getD false

def isAlive (m : Heap) (o : ObjectId) : Bool := (m.object? o).isSome

/-- Whether a handle leads to the self reference of a data fixpoint. -/
def isKnot (m : Heap) (h : Handle) : Bool :=
  match m.application? h with
  | some (.knot _) => true
  | _ => false

/-- Whether a thunk is a back edge of a fixpoint. -/
def isRecursive (m : Heap) (t : ThunkId) : Bool :=
  match (m.thunk? t).map Thunk.state with
  | some (.recursive _) => true
  | some (.pending h) => m.isKnot h
  | _ => false

def hasRecursiveSlot (m : Heap) (c : Closure) : Bool := c.arguments.any m.isRecursive

/-! Adding cells -/

def addObject (m : Heap) (hold : Hold) (kind : ObjectKind) : ObjectId × Heap :=
  (⟨m.objects.next⟩, { m with objects := m.objects.add ⟨hold, kind⟩ })

def newObject (m : Heap) (kind : ObjectKind) : Handle × Heap :=
  let (o, m) := m.addObject (.shared 1 0) kind
  (.plain o, m)

def newStatic (m : Heap) (kind : ObjectKind) : Handle × Heap :=
  let (o, m) := m.addObject .static kind
  (.plain o, m)

def newThunk (m : Heap) (state : ThunkState) : ThunkId × Heap :=
  (⟨m.thunks.next⟩, { m with thunks := m.thunks.add ⟨1, state⟩ })

def newCombinator (m : Heap) (c : Combinator) : CombinatorId × Heap :=
  (⟨m.combinators.next⟩, { m with combinators := m.combinators.add ⟨1, c⟩ })

/-! Counting up -/

def retain (m : Heap) (h : Handle) : Heap :=
  { m with objects := m.objects.update h.target.index Object.retain }

def retainThunk (m : Heap) (t : ThunkId) : Heap :=
  { m with thunks := m.thunks.update t.index fun x => { x with owners := x.owners + 1 } }

def retainCombinator (m : Heap) (c : CombinatorId) : Heap :=
  { m with combinators := m.combinators.update c.index fun x => { x with owners := x.owners + 1 } }

def retainWeak (m : Heap) (o : ObjectId) : Heap :=
  { m with objects := m.objects.update o.index Object.retainWeak }

def releaseWeak (m : Heap) (o : ObjectId) : Heap :=
  { m with objects := m.objects.update o.index Object.loseWeak }

/-! Counting down, where it is not the last reference, and taking cells out -/

def lose (m : Heap) (o : ObjectId) : Heap :=
  { m with objects := m.objects.update o.index Object.lose }

def loseThunk (m : Heap) (t : ThunkId) : Heap :=
  { m with thunks := m.thunks.update t.index fun x => { x with owners := x.owners - 1 } }

def loseCombinator (m : Heap) (c : CombinatorId) : Heap :=
  { m with combinators := m.combinators.update c.index fun x => { x with owners := x.owners - 1 } }

def removeObject (m : Heap) (o : ObjectId) : Heap :=
  { m with objects := m.objects.remove o.index }

def removeThunk (m : Heap) (t : ThunkId) : Heap :=
  { m with thunks := m.thunks.remove t.index }

def removeCombinator (m : Heap) (c : CombinatorId) : Heap :=
  { m with combinators := m.combinators.remove c.index }

/-! Changing contents -/

def setKind (m : Heap) (o : ObjectId) (kind : ObjectKind) : Heap :=
  { m with objects := m.objects.update o.index fun x => { x with kind } }

def setThunkState (m : Heap) (t : ThunkId) (state : ThunkState) : Heap :=
  { m with thunks := m.thunks.update t.index fun x => { x with state } }

def setMemo (m : Heap) (o : ObjectId) (memo : Memo) : Heap :=
  { m with objects := m.objects.update o.index fun x =>
      match x.kind with
      | .closure c => { x with kind := .closure { c with memo } }
      | _ => x }

/-- Count how often a counter was added to. A counter that is mentioned for the first time starts
at `more`. -/
def addDrops (counter : String) (more : Nat) : List (String × Nat) → List (String × Nat)
  | [] => [(counter, more)]
  | (name, count) :: rest =>
    if name = counter then (name, count + more) :: rest
    else (name, count) :: addDrops counter more rest

/-- Make a counter known without adding to it. -/
def mentionCounter (m : Heap) (counter : String) : Heap :=
  { m with drops := addDrops counter 0 m.drops }

/-- The strong references that the cells of the heap own. -/
def edges (m : Heap) : List Edge :=
  m.objects.live.flatMap (·.kind.edges) ++ m.thunks.live.flatMap (·.state.edges) ++
    m.combinators.live.flatMap HeldCombinator.edges

end Heap

end GraphReduction
