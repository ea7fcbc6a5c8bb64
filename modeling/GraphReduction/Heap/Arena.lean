/-!
Numbered cells. A cell keeps its place for good: removing it leaves a hole, and a new cell always
takes a new place. `weight` adds up a measure over the cells that are still there.
-/
namespace GraphReduction

structure Arena (α : Type) where
  cells : Array (Option α) := #[]

namespace Arena

variable {α : Type}

def get? (a : Arena α) (i : Nat) : Option α := a.cells[i]?.join

def next (a : Arena α) : Nat := a.cells.size

def add (a : Arena α) (x : α) : Arena α := ⟨a.cells.push (some x)⟩

def remove (a : Arena α) (i : Nat) : Arena α := ⟨a.cells.setIfInBounds i none⟩

def update (a : Arena α) (i : Nat) (f : α → α) : Arena α := ⟨a.cells.modify i (Option.map f)⟩

def live (a : Arena α) : List α := a.cells.toList.flatMap Option.toList

def weight (f : α → Nat) (a : Arena α) : Nat :=
  a.cells.toList.foldr (fun c rest => c.elim 0 f + rest) 0

@[simp] theorem get?_add (a : Arena α) (x : α) (i : Nat) :
    (a.add x).get? i = if i = a.next then some x else a.get? i := by
  simp only [get?, add, next, Array.getElem?_push]
  split <;> simp_all

@[simp] theorem get?_remove (a : Arena α) (i j : Nat) :
    (a.remove i).get? j = if j = i then none else a.get? j := by
  simp only [get?, remove, Array.getElem?_setIfInBounds]
  by_cases same : i = j
  · subst same; by_cases inside : i < a.cells.size <;> simp [inside]
  · simp [same, Ne.symm same]

@[simp] theorem get?_update (a : Arena α) (i j : Nat) (f : α → α) :
    (a.update i f).get? j = if j = i then (a.get? j).map f else a.get? j := by
  simp only [get?, update, Array.getElem?_modify]
  by_cases same : i = j
  · subst same; cases a.cells[i]? with
    | none => simp
    | some c => cases c <;> simp
  · simp [same, Ne.symm same]

private theorem weight_set_none {cells : List (Option α)} {i : Nat} {x : α} (f : α → Nat)
    (there : cells[i]? = some (some x)) :
    (cells.set i none).foldr (fun c rest => c.elim 0 f + rest) 0 + f x =
      cells.foldr (fun c rest => c.elim 0 f + rest) 0 := by
  induction cells generalizing i with
  | nil => simp at there
  | cons c cells ih =>
    cases i with
    | zero =>
      obtain rfl : c = some x := by simpa using there
      simp [Nat.add_comm]
    | succ i =>
      have rest := ih (by simpa using there)
      simp only [List.set_cons_succ, List.foldr_cons]
      omega

theorem weight_remove {a : Arena α} {i : Nat} {x : α} (f : α → Nat) (there : a.get? i = some x) :
    (a.remove i).weight f + f x = a.weight f := by
  have inside : a.cells.toList[i]? = some (some x) := by
    simpa [get?, Option.join_eq_some_iff] using there
  simpa [weight, remove, -Array.foldr_toList] using weight_set_none f inside

private theorem weight_modify {cells : List (Option α)} {i : Nat} (f : α → Nat) (g : α → α)
    (same : ∀ x, f (g x) = f x) :
    (cells.modify i (Option.map g)).foldr (fun c rest => c.elim 0 f + rest) 0 =
      cells.foldr (fun c rest => c.elim 0 f + rest) 0 := by
  induction cells generalizing i with
  | nil => simp
  | cons c cells ih =>
    cases i with
    | zero => cases c <;> simp [same]
    | succ i =>
      simp only [List.modify_succ_cons, List.foldr_cons, ih]

@[simp] theorem weight_update (a : Arena α) (i : Nat) (f : α → Nat) (g : α → α)
    (same : ∀ x, f (g x) = f x) : (a.update i g).weight f = a.weight f := by
  simpa [weight, update, -Array.foldr_toList] using weight_modify f g same

end Arena

end GraphReduction
