import GraphReduction.Heap.Basic

/-!
Giving references back. The references to give back wait on a worklist. One that is the last of its
cell takes the cell out of the heap and puts the references that the cell owned on the worklist; any
other one only counts down. Static objects are never counted.

The cascade is a loop over objects and thunks. The handles that a body has captured are not on its
list: they are dropped with the body, each starting a cascade of its own on the native stack. What
that nesting costs is left out here. Its handles wait on the same list and only the mark in `Loose`
tells them apart, so a chain of bodies that capture each other is taken apart at any length.

The loop ends because every turn takes one reference off the list, and a cell that leaves the heap
brings no more references than its `bulk`, which leaves with it.
-/
namespace GraphReduction

/-- A reference to give back, and whether the cascade found it in a cell that it took out. -/
structure Loose where
  edge : Edge
  found : Bool

namespace Heap

/-- The cells that are left, each with the references it owns. -/
def bulk (m : Heap) : Nat :=
  m.objects.weight (fun x => 1 + x.kind.edges.length) +
    m.thunks.weight (fun x => 1 + x.state.edges.length) +
    m.combinators.weight (fun x => 1 + x.edges.length)

/-- What else happens when an object is destroyed: the payload is asked for its handles, once by the
cascade that found it and once by its own destructor, and a tracked payload adds to its counter. -/
def noteDestroyed (m : Heap) (o : ObjectId) (found : Bool) (kind : ObjectKind) : Heap :=
  match kind with
  | .value v =>
    let m := { m with drained := (if found then [o, o] else [o]) ++ m.drained }
    match v.payload with
    | .tracked counter => { m with drops := addDrops counter 1 m.drops }
    | _ => m
  | _ => m

/-- A weak reference goes with the cell that held it. -/
def releaseWeak? (m : Heap) : Option ObjectId → Heap
  | some o => m.releaseWeak o
  | none => m

/-- The references of a destroyed cell. Those of a body are dropped with the body and not found by
the cascade. -/
def loosened (found : Bool) : Edge → Loose
  | .combinator c => ⟨.combinator c, false⟩
  | e => ⟨e, found⟩

/-- Give one reference back. The references of a cell that goes with it are returned. -/
def giveBack (m : Heap) (loose : Loose) : Heap × List Loose :=
  match loose.edge with
  | .object o =>
    match m.object? o with
    | none | some ⟨.static, _⟩ => (m, [])
    | some ⟨.shared strong _, kind⟩ =>
      if 1 < strong then
        (m.lose o, [])
      else
        (((m.removeObject o).noteDestroyed o loose.found kind).releaseWeak? kind.weakTarget?,
          kind.edges.map (loosened true))
  | .thunk t =>
    match m.thunk? t with
    | none => (m, [])
    | some ⟨owners, state⟩ =>
      if 1 < owners then
        (m.loseThunk t, [])
      else
        ((m.removeThunk t).releaseWeak? state.weakTarget?, state.edges.map (loosened loose.found))
  | .combinator c =>
    match m.combinator? c with
    | none => (m, [])
    | some held =>
      if 1 < held.owners then
        (m.loseCombinator c, [])
      else
        (m.removeCombinator c, held.edges.map (loosened false))

@[simp] theorem bulk_noteDestroyed (m : Heap) (o : ObjectId) (found : Bool) (kind : ObjectKind) :
    (m.noteDestroyed o found kind).bulk = m.bulk := by
  unfold noteDestroyed
  split
  · dsimp only; split <;> rfl
  · rfl

@[simp] theorem bulk_releaseWeak? (m : Heap) (o? : Option ObjectId) :
    (m.releaseWeak? o?).bulk = m.bulk := by
  cases o? <;> simp [releaseWeak?, releaseWeak, bulk]

@[simp] theorem bulk_lose (m : Heap) (o : ObjectId) : (m.lose o).bulk = m.bulk := by
  simp [lose, bulk]

@[simp] theorem bulk_loseThunk (m : Heap) (t : ThunkId) : (m.loseThunk t).bulk = m.bulk := by
  simp [loseThunk, bulk]

@[simp] theorem bulk_loseCombinator (m : Heap) (c : CombinatorId) :
    (m.loseCombinator c).bulk = m.bulk := by
  simp [loseCombinator, bulk, HeldCombinator.edges]

theorem bulk_removeObject {m : Heap} {o : ObjectId} {x : Object} (there : m.object? o = some x) :
    (m.removeObject o).bulk + (1 + x.kind.edges.length) = m.bulk := by
  have := Arena.weight_remove (fun x : Object => 1 + x.kind.edges.length) there
  simp only [removeObject, bulk]; omega

theorem bulk_removeThunk {m : Heap} {t : ThunkId} {x : Thunk} (there : m.thunk? t = some x) :
    (m.removeThunk t).bulk + (1 + x.state.edges.length) = m.bulk := by
  have := Arena.weight_remove (fun x : Thunk => 1 + x.state.edges.length) there
  simp only [removeThunk, bulk]; omega

theorem bulk_removeCombinator {m : Heap} {c : CombinatorId} {x : HeldCombinator}
    (there : m.combinator? c = some x) :
    (m.removeCombinator c).bulk + (1 + x.edges.length) = m.bulk := by
  have := Arena.weight_remove (fun x : HeldCombinator => 1 + x.edges.length) there
  simp only [removeCombinator, bulk]; omega

theorem bulk_giveBack (m : Heap) (loose : Loose) :
    (m.giveBack loose).2.length + (m.giveBack loose).1.bulk ≤ m.bulk := by
  unfold giveBack
  split
  · split
    · simp
    · simp
    · next there =>
      have := bulk_removeObject there
      dsimp only at this
      split
      · simp
      · simp; omega
  · split
    · simp
    · next there =>
      have := bulk_removeThunk there
      dsimp only at this
      split
      · simp
      · simp; omega
  · split
    · simp
    · next there =>
      have := bulk_removeCombinator there
      split
      · simp
      · simp; omega

/-- One turn of the cascade, with the bound that makes it end. -/
def turn (m : Heap) (loose : Loose) :
    { r : Heap × List Loose // r.2.length + r.1.bulk ≤ m.bulk } :=
  ⟨m.giveBack loose, bulk_giveBack m loose⟩

def releaseAll (m : Heap) (pending : List Loose) : Heap :=
  match pending with
  | [] => m
  | loose :: rest =>
    match m.turn loose with
    | ⟨(next, more), _⟩ => releaseAll next (more.reverse ++ rest)
termination_by pending.length + m.bulk
decreasing_by simp at *; omega

def release (m : Heap) (h : Handle) : Heap := m.releaseAll [⟨h.edge, false⟩]

def releaseThunk (m : Heap) (t : ThunkId) : Heap := m.releaseAll [⟨.thunk t, false⟩]

def releaseCombinator (m : Heap) (c : CombinatorId) : Heap :=
  m.releaseAll [⟨.combinator c, false⟩]

def releaseHandles (m : Heap) (hs : List Handle) : Heap :=
  m.releaseAll (hs.map fun h => ⟨h.edge, false⟩)

@[simp] theorem releaseAll_nil (m : Heap) : m.releaseAll [] = m := by
  rw [releaseAll]

theorem releaseAll_cons (m : Heap) (loose : Loose) (rest : List Loose) :
    m.releaseAll (loose :: rest) =
      (m.giveBack loose).1.releaseAll ((m.giveBack loose).2.reverse ++ rest) := by
  rw [releaseAll]; rfl

end Heap

end GraphReduction
