import Mathlib
import GraphReduction.Heap.Lemmas

/-! What cells and computations hold. A reference is counted at the cell it leads to, so counting is
a matter of the multiset of everything that is held anywhere: by the cells of the heap and by the
computations outside. Errors are held as well, by the cells that can bring them about; nobody counts
them. -/
namespace GraphReduction

/-- Something that is held. A cell is named by the strong reference to it. -/
inductive Holding where
  | strong (cell : Edge)
  | weak (o : ObjectId)
  | error (error : EvalError)
deriving DecidableEq

namespace Holding

def target? : Holding → Option Edge
  | strong cell => some cell
  | weak o => some (.object o)
  | error _ => none

@[simp] theorem target?_strong (cell : Edge) : (strong cell).target? = some cell := rfl

@[simp] theorem target?_weak (o : ObjectId) : (weak o).target? = some (.object o) := rfl

@[simp] theorem target?_error (e : EvalError) : (error e).target? = none := rfl

end Holding

def Handle.holding (h : Handle) : Holding := .strong h.edge

theorem Handle.map_holding (hs : List Handle) :
    hs.map Handle.holding = (hs.map Handle.edge).map Holding.strong := by
  simp only [List.map_map]
  rfl

@[simp] theorem Handle.holding_untagged (h : Handle) : h.untagged.holding = h.holding := rfl

@[simp] theorem Handle.holding_asCached (h : Handle) : h.asCached.holding = h.holding := by
  simp [holding, edge]

/-- The errors that a body raises by name. -/
def Body.raises : Body Capture → List EvalError
  | raise error => [error]
  | apply a b | bind a b | pair a b | seq a b | recover a b => a.raises ++ b.raises
  | compare _ _ _ a b | cond _ a b => a.raises ++ b.raises
  | field _ e | eval e | clone e | bindSelf e | typeOf e | log _ e => e.raises
  | lazy _ | force _ | value .. | length | isEmpty | name | int _ | bool _ | str _ | primitive _ |
    captured _ | panic _ | arith _ | test _ | fail _ | tie => []

@[simp] theorem Primitive.raises_body (p : Primitive) :
    (p.body : Body Capture).raises = [] := by
  cases p <;> rfl

namespace ObjectKind

/-- The errors that the content brings about: its own, or the one of a value that is tied. -/
def errors : ObjectKind → List EvalError
  | exception error => [error]
  | value v => [.badFix v.type.text]
  | _ => []

def holdings (kind : ObjectKind) : Multiset Holding :=
  ↑(kind.edges.map Holding.strong ++ kind.weakTarget?.toList.map Holding.weak ++
    kind.errors.map Holding.error)

@[simp] theorem holdings_value (v : Boxed) :
    (value v).holdings =
      .error (.badFix v.type.text) ::ₘ ↑(v.payload.handles.map Handle.holding) := by
  simp [holdings, edges, weakTarget?, errors, Handle.map_holding]

@[simp] theorem holdings_pending (f x : Handle) :
    (application (.pending f x)).holdings = {f.holding, x.holding} := rfl

@[simp] theorem holdings_reduced (r : Handle) :
    (application (.reduced r)).holdings = {r.holding} := by
  simp [holdings, edges, weakTarget?, errors, Handle.holding]

@[simp] theorem holdings_unresolved : (application (.knot .unresolved)).holdings = 0 := by
  simp [holdings, edges, weakTarget?, errors, Knot.edges, Knot.weakTarget?]

@[simp] theorem holdings_weak (o : ObjectId) :
    (application (.knot (.weak o))).holdings = {.weak o} := by
  simp [holdings, edges, weakTarget?, errors, Knot.edges, Knot.weakTarget?]

@[simp] theorem holdings_strong (h : Handle) :
    (application (.knot (.strong h))).holdings = {h.holding} := by
  simp [holdings, edges, weakTarget?, errors, Knot.edges, Knot.weakTarget?, Handle.holding]

@[simp] theorem holdings_exception (error : EvalError) :
    (exception error).holdings = {.error error} := by
  simp [holdings, edges, weakTarget?, errors]

theorem holdings_closure (c : Closure) :
    (closure c).holdings = .strong (.combinator c.combinator) ::ₘ
      ↑(c.arguments.map (fun t => Holding.strong (.thunk t)) ++
        c.memo.result?.toList.map Handle.holding) := by
  simp [holdings, edges, weakTarget?, errors, Function.comp_def, Handle.map_holding]

end ObjectKind

namespace ThunkState

def holdings (state : ThunkState) : Multiset Holding :=
  ↑(state.edges.map Holding.strong ++ state.weakTarget?.toList.map Holding.weak)

@[simp] theorem holdings_pending (h : Handle) : (pending h).holdings = {h.holding} := by
  simp [holdings, edges, weakTarget?, Handle.holding]

@[simp] theorem holdings_forced (h : Handle) : (forced h).holdings = {h.holding} := by
  simp [holdings, edges, weakTarget?, Handle.holding]

@[simp] theorem holdings_recursive (o : ObjectId) : (recursive o).holdings = {.weak o} := by
  simp [holdings, edges, weakTarget?]

end ThunkState

def Combinator.holdings (c : Combinator) : Multiset Holding :=
  ↑(c.body.captures.map Handle.holding ++ c.body.raises.map Holding.error)

namespace Arena

variable {α β γ : Type} {a : Arena α} {i : Nat} {x : α}

theorem lt_next_of_get? (hget : a.get? i = some x) : i < a.next := by
  by_contra hlarge
  have hnone : a.cells[i]? = none := Array.getElem?_eq_none (Nat.not_lt.mp hlarge)
  simp [get?, hnone] at hget

@[simp] theorem next_add (a : Arena α) (x : α) : (a.add x).next = a.next + 1 := by
  simp [add, next]

@[simp] theorem next_remove (a : Arena α) (i : Nat) : (a.remove i).next = a.next := by
  simp [remove, next]

@[simp] theorem next_update (a : Arena α) (i : Nat) (f : α → α) : (a.update i f).next = a.next := by
  simp [update, next]

theorem ext_get? {a b : Arena α} (hnext : a.next = b.next) (hget : ∀ i, a.get? i = b.get? i) : a = b := by
  obtain ⟨cells⟩ := a
  obtain ⟨cells'⟩ := b
  simp only [next] at hnext
  simp only [get?] at hget
  congr 1
  apply Array.ext hnext
  intro i hi hi'
  simpa [hi, hi'] using hget i

theorem live_perm_remove (hget : a.get? i = some x) : a.live.Perm (x :: (a.remove i).live) := by
  have hcell : a.cells.toList[i]? = some (some x) := by
    simpa [get?, Option.join_eq_some_iff] using hget
  clear hget
  simp only [live, remove, Array.toList_setIfInBounds]
  generalize a.cells.toList = cells at hcell
  induction cells generalizing i with
  | nil => simp at hcell
  | cons c cells ih =>
    cases i with
    | zero =>
      obtain rfl : c = some x := by simpa using hcell
      simp
    | succ i =>
      have hrest := ih (by simpa using hcell)
      cases c with
      | none => simpa using hrest
      | some y => simpa using (hrest.cons y).trans (.swap x y _)

theorem mem_live {x : α} : x ∈ a.live ↔ ∃ i, a.get? i = some x := by
  have hmem : x ∈ a.live ↔ some x ∈ a.cells.toList := by
    simp only [live, List.mem_flatMap, Option.mem_toList]
    exact ⟨fun ⟨c, hc, hx⟩ => hx ▸ hc, fun h => ⟨_, h, rfl⟩⟩
  rw [hmem, List.mem_iff_getElem?]
  simp [get?, Option.join_eq_some_iff]

theorem remove_update (a : Arena α) (i : Nat) (f : α → α) :
    (a.update i f).remove i = a.remove i := by
  simp only [update, remove, mk.injEq]
  apply Array.ext_getElem?
  intro j
  simp only [Array.getElem?_setIfInBounds, Array.getElem?_modify, Array.size_modify]
  split <;> rfl

theorem update_congr {f g : α → α} (hget : a.get? i = some x) (heq : f x = g x) :
    a.update i f = a.update i g := by
  simp only [update, mk.injEq]
  apply Array.ext_getElem?
  intro j
  simp only [Array.getElem?_modify]
  by_cases hsame : i = j
  · subst hsame
    have hcell : a.cells[i]? = some (some x) := by
      simpa [get?, Option.join_eq_some_iff] using hget
    simp [hcell, heq]
  · simp [hsame]

def contents (f : α → β) (a : Arena α) : Arena β := ⟨a.cells.map (Option.map f)⟩

@[simp] theorem get?_contents (f : α → β) (a : Arena α) (i : Nat) :
    (a.contents f).get? i = (a.get? i).map f := by
  simp only [contents, get?, Array.getElem?_map]
  cases a.cells[i]? <;> simp

@[simp] theorem next_contents (f : α → β) (a : Arena α) : (a.contents f).next = a.next := by
  simp [contents, next]

theorem contents_update (f : α → β) (a : Arena α) (i : Nat) (g : α → α)
    (hsame : ∀ x, f (g x) = f x) : (a.update i g).contents f = a.contents f := by
  simp only [contents, update, mk.injEq]
  apply Array.ext_getElem?
  intro j
  simp only [Array.getElem?_map, Array.getElem?_modify]
  split
  · cases a.cells[j]? with
    | none => rfl
    | some c => cases c <;> simp [hsame]
  · rfl

theorem contents_remove (f : α → β) (a : Arena α) (i : Nat) :
    (a.remove i).contents f = (a.contents f).remove i := by
  apply ext_get?
  · simp
  · intro j
    by_cases h : j = i <;> simp [h]

theorem update_add (a : Arena α) (x : α) (f : α → α) :
    (a.add x).update a.next f = a.add (f x) := by
  simp only [update, add, next, mk.injEq]
  apply Array.ext_getElem?
  intro j
  simp only [Array.getElem?_modify, Array.getElem?_push]
  by_cases hj : a.cells.size = j
  · simp [hj]
  · simp [hj, Ne.symm hj]

def held (f : α → Multiset β) (a : Arena α) : Multiset β := (a.live.map f).sum

@[simp] theorem held_add (f : α → Multiset β) (a : Arena α) (x : α) :
    (a.add x).held f = a.held f + f x := by
  simp [held, live, add]

theorem mem_held {f : α → Multiset β} {r : β} :
    r ∈ a.held f ↔ ∃ i x, a.get? i = some x ∧ r ∈ f x := by
  have hsum : ∀ xs : List α, r ∈ (xs.map f).sum ↔ ∃ x ∈ xs, r ∈ f x := by
    intro xs
    induction xs with
    | nil => simp
    | cons x xs ih => simp [ih]
  simp only [held, hsum, mem_live]
  tauto

theorem held_remove (f : α → Multiset β) (hget : a.get? i = some x) :
    a.held f = f x + (a.remove i).held f := by
  simpa [held] using ((live_perm_remove hget).map f).sum_eq

theorem held_update (f : α → Multiset β) (g : α → α) (hget : a.get? i = some x) :
    (a.update i g).held f + f x = a.held f + f (g x) := by
  have hnew : (a.update i g).get? i = some (g x) := by simp [hget]
  rw [held_remove f hnew, held_remove f hget, remove_update]
  abel

theorem held_contents (f : α → Multiset β) (g : γ → α) (a : Arena γ) :
    (a.contents g).held f = a.held (fun x => f (g x)) := by
  have hlive : (a.contents g).live = a.live.map g := by
    simp only [live, contents, Array.toList_map, List.flatMap_map, List.map_flatMap]
    congr 1
    funext c
    cases c <;> rfl
  simp [held, hlive, Function.comp_def]

end Arena

end GraphReduction
