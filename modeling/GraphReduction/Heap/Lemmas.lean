import GraphReduction.Heap.Release

/-!
What each single step on the heap does to the three look-ups. A step on cells of one kind leaves the
cells of the other kinds alone; a step on one cell leaves the other cells of its kind alone.
-/
namespace GraphReduction.Heap

variable (m : Heap)

theorem index_inj {o p : ObjectId} : o.index = p.index ↔ o = p := by
  cases o; cases p; simp

theorem thunk_index_inj {t u : ThunkId} : t.index = u.index ↔ t = u := by
  cases t; cases u; simp

theorem combinator_index_inj {c d : CombinatorId} : c.index = d.index ↔ c = d := by
  cases c; cases d; simp

/-! Objects -/

def nextObject : ObjectId := ⟨m.objects.next⟩

@[simp] theorem addObject_fst (hold : Hold) (kind : ObjectKind) :
    (m.addObject hold kind).1 = m.nextObject := rfl

@[simp] theorem object?_addObject (hold : Hold) (kind : ObjectKind) (o : ObjectId) :
    (m.addObject hold kind).2.object? o =
      if o = m.nextObject then some ⟨hold, kind⟩ else m.object? o := by
  simp [addObject, object?, nextObject, ← index_inj]

@[simp] theorem newObject_fst (kind : ObjectKind) :
    (m.newObject kind).1 = .plain m.nextObject := rfl

@[simp] theorem object?_newObject (kind : ObjectKind) (o : ObjectId) :
    (m.newObject kind).2.object? o =
      if o = m.nextObject then some ⟨.shared 1 0, kind⟩ else m.object? o :=
  object?_addObject m (.shared 1 0) kind o

@[simp] theorem object?_newStatic (kind : ObjectKind) (o : ObjectId) :
    (m.newStatic kind).2.object? o =
      if o = m.nextObject then some ⟨.static, kind⟩ else m.object? o :=
  object?_addObject m .static kind o

@[simp] theorem object?_retain (h : Handle) (o : ObjectId) :
    (m.retain h).object? o =
      if o = h.target then (m.object? o).map Object.retain else m.object? o := by
  simp [retain, object?, index_inj]

@[simp] theorem object?_lose (p o : ObjectId) :
    (m.lose p).object? o = if o = p then (m.object? o).map Object.lose else m.object? o := by
  simp [lose, object?, index_inj]

@[simp] theorem object?_retainWeak (p o : ObjectId) :
    (m.retainWeak p).object? o =
      if o = p then (m.object? o).map Object.retainWeak else m.object? o := by
  simp [retainWeak, object?, index_inj]

@[simp] theorem object?_releaseWeak (p o : ObjectId) :
    (m.releaseWeak p).object? o =
      if o = p then (m.object? o).map Object.loseWeak else m.object? o := by
  simp [releaseWeak, object?, index_inj]

@[simp] theorem object?_removeObject (p o : ObjectId) :
    (m.removeObject p).object? o = if o = p then none else m.object? o := by
  simp [removeObject, object?, index_inj]

@[simp] theorem object?_setKind (p : ObjectId) (kind : ObjectKind) (o : ObjectId) :
    (m.setKind p kind).object? o =
      if o = p then (m.object? o).map fun x => { x with kind } else m.object? o := by
  simp [setKind, object?, index_inj]

@[simp] theorem object?_newThunk (state : ThunkState) (o : ObjectId) :
    (m.newThunk state).2.object? o = m.object? o := rfl

@[simp] theorem object?_newCombinator (c : Combinator) (o : ObjectId) :
    (m.newCombinator c).2.object? o = m.object? o := rfl

@[simp] theorem object?_retainThunk (t : ThunkId) (o : ObjectId) :
    (m.retainThunk t).object? o = m.object? o := rfl

@[simp] theorem object?_retainCombinator (c : CombinatorId) (o : ObjectId) :
    (m.retainCombinator c).object? o = m.object? o := rfl

@[simp] theorem object?_setThunkState (t : ThunkId) (state : ThunkState) (o : ObjectId) :
    (m.setThunkState t state).object? o = m.object? o := rfl

@[simp] theorem object?_loseThunk (t : ThunkId) (o : ObjectId) :
    (m.loseThunk t).object? o = m.object? o := rfl

@[simp] theorem object?_removeThunk (t : ThunkId) (o : ObjectId) :
    (m.removeThunk t).object? o = m.object? o := rfl

@[simp] theorem object?_loseCombinator (c : CombinatorId) (o : ObjectId) :
    (m.loseCombinator c).object? o = m.object? o := rfl

@[simp] theorem object?_removeCombinator (c : CombinatorId) (o : ObjectId) :
    (m.removeCombinator c).object? o = m.object? o := rfl

/-! Thunks -/

@[simp] theorem newThunk_fst (state : ThunkState) :
    (m.newThunk state).1 = ⟨m.thunks.next⟩ := rfl

@[simp] theorem thunk?_newThunk (state : ThunkState) (t : ThunkId) :
    (m.newThunk state).2.thunk? t =
      if t = ⟨m.thunks.next⟩ then some ⟨1, state⟩ else m.thunk? t := by
  simp [newThunk, thunk?, ← thunk_index_inj]

@[simp] theorem thunk?_retainThunk (u t : ThunkId) :
    (m.retainThunk u).thunk? t =
      if t = u then (m.thunk? t).map fun x => { x with owners := x.owners + 1 }
      else m.thunk? t := by
  simp [retainThunk, thunk?, thunk_index_inj]

@[simp] theorem thunk?_loseThunk (u t : ThunkId) :
    (m.loseThunk u).thunk? t =
      if t = u then (m.thunk? t).map fun x => { x with owners := x.owners - 1 }
      else m.thunk? t := by
  simp [loseThunk, thunk?, thunk_index_inj]

@[simp] theorem thunk?_removeThunk (u t : ThunkId) :
    (m.removeThunk u).thunk? t = if t = u then none else m.thunk? t := by
  simp [removeThunk, thunk?, thunk_index_inj]

@[simp] theorem thunk?_setThunkState (u : ThunkId) (state : ThunkState) (t : ThunkId) :
    (m.setThunkState u state).thunk? t =
      if t = u then (m.thunk? t).map fun x => { x with state } else m.thunk? t := by
  simp [setThunkState, thunk?, thunk_index_inj]

@[simp] theorem thunk?_addObject (hold : Hold) (kind : ObjectKind) (t : ThunkId) :
    (m.addObject hold kind).2.thunk? t = m.thunk? t := rfl

@[simp] theorem thunk?_newObject (kind : ObjectKind) (t : ThunkId) :
    (m.newObject kind).2.thunk? t = m.thunk? t := rfl

@[simp] theorem thunk?_retain (h : Handle) (t : ThunkId) :
    (m.retain h).thunk? t = m.thunk? t := rfl

@[simp] theorem thunk?_setKind (o : ObjectId) (kind : ObjectKind) (t : ThunkId) :
    (m.setKind o kind).thunk? t = m.thunk? t := rfl

@[simp] theorem thunk?_lose (o : ObjectId) (t : ThunkId) :
    (m.lose o).thunk? t = m.thunk? t := rfl

@[simp] theorem thunk?_retainWeak (o : ObjectId) (t : ThunkId) :
    (m.retainWeak o).thunk? t = m.thunk? t := rfl

@[simp] theorem thunk?_releaseWeak (o : ObjectId) (t : ThunkId) :
    (m.releaseWeak o).thunk? t = m.thunk? t := rfl

@[simp] theorem thunk?_removeObject (o : ObjectId) (t : ThunkId) :
    (m.removeObject o).thunk? t = m.thunk? t := rfl

@[simp] theorem thunk?_retainCombinator (c : CombinatorId) (t : ThunkId) :
    (m.retainCombinator c).thunk? t = m.thunk? t := rfl

@[simp] theorem thunk?_loseCombinator (c : CombinatorId) (t : ThunkId) :
    (m.loseCombinator c).thunk? t = m.thunk? t := rfl

@[simp] theorem thunk?_removeCombinator (c : CombinatorId) (t : ThunkId) :
    (m.removeCombinator c).thunk? t = m.thunk? t := rfl

@[simp] theorem thunk?_newStatic (kind : ObjectKind) (t : ThunkId) :
    ((m.newStatic kind).2).thunk? t = m.thunk? t := rfl

@[simp] theorem thunk?_newCombinator (k : Combinator) (t : ThunkId) :
    ((m.newCombinator k).2).thunk? t = m.thunk? t := rfl

/-! Combinators -/

@[simp] theorem newCombinator_fst (k : Combinator) :
    (m.newCombinator k).1 = ⟨m.combinators.next⟩ := rfl

@[simp] theorem combinator?_newCombinator (k : Combinator) (c : CombinatorId) :
    (m.newCombinator k).2.combinator? c =
      if c = ⟨m.combinators.next⟩ then some ⟨1, k⟩ else m.combinator? c := by
  simp [newCombinator, combinator?, ← combinator_index_inj]

@[simp] theorem combinator?_retainCombinator (d c : CombinatorId) :
    (m.retainCombinator d).combinator? c =
      if c = d then (m.combinator? c).map fun x => { x with owners := x.owners + 1 }
      else m.combinator? c := by
  simp [retainCombinator, combinator?, combinator_index_inj]

@[simp] theorem combinator?_loseCombinator (d c : CombinatorId) :
    (m.loseCombinator d).combinator? c =
      if c = d then (m.combinator? c).map fun x => { x with owners := x.owners - 1 }
      else m.combinator? c := by
  simp [loseCombinator, combinator?, combinator_index_inj]

@[simp] theorem combinator?_removeCombinator (d c : CombinatorId) :
    (m.removeCombinator d).combinator? c = if c = d then none else m.combinator? c := by
  simp [removeCombinator, combinator?, combinator_index_inj]

@[simp] theorem combinator?_addObject (hold : Hold) (kind : ObjectKind) (c : CombinatorId) :
    (m.addObject hold kind).2.combinator? c = m.combinator? c := rfl

@[simp] theorem combinator?_retain (h : Handle) (c : CombinatorId) :
    (m.retain h).combinator? c = m.combinator? c := rfl

@[simp] theorem combinator?_lose (o : ObjectId) (c : CombinatorId) :
    (m.lose o).combinator? c = m.combinator? c := rfl

@[simp] theorem combinator?_retainWeak (o : ObjectId) (c : CombinatorId) :
    (m.retainWeak o).combinator? c = m.combinator? c := rfl

@[simp] theorem combinator?_releaseWeak (o : ObjectId) (c : CombinatorId) :
    (m.releaseWeak o).combinator? c = m.combinator? c := rfl

@[simp] theorem combinator?_removeObject (o : ObjectId) (c : CombinatorId) :
    (m.removeObject o).combinator? c = m.combinator? c := rfl

@[simp] theorem combinator?_setKind (o : ObjectId) (kind : ObjectKind) (c : CombinatorId) :
    (m.setKind o kind).combinator? c = m.combinator? c := rfl

@[simp] theorem combinator?_retainThunk (t : ThunkId) (c : CombinatorId) :
    (m.retainThunk t).combinator? c = m.combinator? c := rfl

@[simp] theorem combinator?_loseThunk (t : ThunkId) (c : CombinatorId) :
    (m.loseThunk t).combinator? c = m.combinator? c := rfl

@[simp] theorem combinator?_removeThunk (t : ThunkId) (c : CombinatorId) :
    (m.removeThunk t).combinator? c = m.combinator? c := rfl

@[simp] theorem combinator?_setThunkState (t : ThunkId) (state : ThunkState) (c : CombinatorId) :
    (m.setThunkState t state).combinator? c = m.combinator? c := rfl

@[simp] theorem combinator?_newThunk (state : ThunkState) (c : CombinatorId) :
    ((m.newThunk state).2).combinator? c = m.combinator? c := rfl

@[simp] theorem combinator?_newObject (kind : ObjectKind) (c : CombinatorId) :
    ((m.newObject kind).2).combinator? c = m.combinator? c := rfl

@[simp] theorem combinator?_newStatic (kind : ObjectKind) (c : CombinatorId) :
    ((m.newStatic kind).2).combinator? c = m.combinator? c := rfl

end GraphReduction.Heap
