import Mathlib
import GraphReduction.Heap.Release
import GraphReduction.Proofs.Heap.Holdings

/-! Exact counts. What is recorded at a cell is how often the cell is held, by other cells and by
computations together, and only cells that are there are held strongly. Every single step of the
heap keeps this, if what the computation holds changes along. -/
namespace GraphReduction

namespace Hold

def strong? : Hold → Option Nat
  | static => none
  | shared strong _ => some strong

def weak? : Hold → Option Nat
  | static => none
  | shared _ weak => some weak

end Hold

namespace Object

@[simp] theorem strong?_retain (x : Object) : x.retain.hold.strong? = x.hold.strong?.map (· + 1) := by
  unfold retain; split <;> simp_all [Hold.strong?]

@[simp] theorem weak?_retain (x : Object) : x.retain.hold.weak? = x.hold.weak? := by
  unfold retain; split <;> simp_all [Hold.weak?]

@[simp] theorem strong?_lose (x : Object) : x.lose.hold.strong? = x.hold.strong?.map (· - 1) := by
  unfold lose; split <;> simp_all [Hold.strong?]

@[simp] theorem weak?_lose (x : Object) : x.lose.hold.weak? = x.hold.weak? := by
  unfold lose; split <;> simp_all [Hold.weak?]

@[simp] theorem strong?_retainWeak (x : Object) : x.retainWeak.hold.strong? = x.hold.strong? := by
  unfold retainWeak; split <;> simp_all [Hold.strong?]

@[simp] theorem weak?_retainWeak (x : Object) :
    x.retainWeak.hold.weak? = x.hold.weak?.map (· + 1) := by
  unfold retainWeak; split <;> simp_all [Hold.weak?]

@[simp] theorem strong?_loseWeak (x : Object) : x.loseWeak.hold.strong? = x.hold.strong? := by
  unfold loseWeak; split <;> simp_all [Hold.strong?]

@[simp] theorem weak?_loseWeak (x : Object) :
    x.loseWeak.hold.weak? = x.hold.weak?.map (· - 1) := by
  unfold loseWeak; split <;> simp_all [Hold.weak?]

end Object

namespace Heap

def holds (m : Heap) : Edge → Multiset Holding
  | .object o => (m.object? o).elim 0 (·.kind.holdings)
  | .thunk t => (m.thunk? t).elim 0 (·.state.holdings)
  | .combinator c => (m.combinator? c).elim 0 (·.combinator.holdings)

def held (m : Heap) : Multiset Holding :=
  m.objects.held (·.kind.holdings) + m.thunks.held (·.state.holdings) +
    m.combinators.held (·.combinator.holdings)

def IsLive (m : Heap) : Edge → Prop
  | .object o => (m.object? o).isSome
  | .thunk t => (m.thunk? t).isSome
  | .combinator c => (m.combinator? c).isSome

/-- Whether the place of a cell has been given out. -/
def Allocated (m : Heap) : Edge → Prop
  | .object o => o.index < m.objects.next
  | .thunk t => t.index < m.thunks.next
  | .combinator c => c.index < m.combinators.next

/-- The strong references that a cell holds. -/
def edgesOf (m : Heap) : Edge → List Edge
  | .object o => (m.object? o).elim [] (·.kind.edges)
  | .thunk t => (m.thunk? t).elim [] (·.state.edges)
  | .combinator c => (m.combinator? c).elim [] HeldCombinator.edges

def weakTarget? (m : Heap) : Edge → Option ObjectId
  | .object o => (m.object? o).bind (·.kind.weakTarget?)
  | .thunk t => (m.thunk? t).bind (·.state.weakTarget?)
  | .combinator _ => none

def errorsOf (m : Heap) : Edge → List EvalError
  | .object o => (m.object? o).elim [] (·.kind.errors)
  | .thunk _ => []
  | .combinator c => (m.combinator? c).elim [] (·.combinator.body.raises)

/-- The count kept at the cell. Nothing is counted at a static object. -/
def recorded (m : Heap) : Holding → Option Nat
  | .strong (.object o) => (m.object? o).bind (·.hold.strong?)
  | .strong (.thunk t) => (m.thunk? t).map Thunk.owners
  | .strong (.combinator c) => (m.combinator? c).map HeldCombinator.owners
  | .weak o => (m.object? o).bind (·.hold.weak?)
  | .error _ => none

/-- The counts are exact when a computation holds `own`. -/
structure Counted (m : Heap) (own : Multiset Holding) : Prop where
  exact : ∀ r n, m.recorded r = some n → (m.held + own).count r = n
  positive : ∀ cell n, m.recorded (.strong cell) = some n → 0 < n
  live : ∀ cell, .strong cell ∈ m.held + own → m.IsLive cell
  allocated : ∀ o, .weak o ∈ m.held + own → m.Allocated (.object o)

variable {m : Heap} {own : Multiset Holding} {cell : Edge}

theorem IsLive.allocated (hlive : m.IsLive cell) : m.Allocated cell := by
  cases cell with
  | object o =>
    obtain ⟨x, hx⟩ := Option.isSome_iff_exists.mp hlive
    exact Arena.lt_next_of_get? hx
  | thunk t =>
    obtain ⟨x, hx⟩ := Option.isSome_iff_exists.mp hlive
    exact Arena.lt_next_of_get? hx
  | combinator c =>
    obtain ⟨x, hx⟩ := Option.isSome_iff_exists.mp hlive
    exact Arena.lt_next_of_get? hx

theorem isLive_of_recorded {n : Nat} (h : m.recorded (.strong cell) = some n) : m.IsLive cell := by
  cases cell <;> simp only [recorded, IsLive] at h ⊢
  · obtain ⟨x, hx, -⟩ := Option.bind_eq_some_iff.mp h
    simp [hx]
  · obtain ⟨x, hx, -⟩ := Option.map_eq_some_iff.mp h
    simp [hx]
  · obtain ⟨x, hx, -⟩ := Option.map_eq_some_iff.mp h
    simp [hx]

theorem holds_le_held (m : Heap) (cell : Edge) : m.holds cell ≤ m.held := by
  cases cell with
  | object o =>
    cases hget : m.object? o with
    | none => simp [holds, hget]
    | some x =>
      have := Arena.held_remove (fun x : Object => x.kind.holdings) hget
      simp only [holds, hget, Option.elim_some, held, this]
      exact (Multiset.le_add_right _ _).trans ((Multiset.le_add_right _ _).trans
        (Multiset.le_add_right _ _))
  | thunk t =>
    cases hget : m.thunk? t with
    | none => simp [holds, hget]
    | some x =>
      have := Arena.held_remove (fun x : Thunk => x.state.holdings) hget
      simp only [holds, hget, Option.elim_some, held, this]
      exact (Multiset.le_add_right _ _).trans ((Multiset.le_add_left _ _).trans
        (Multiset.le_add_right _ _))
  | combinator c =>
    cases hget : m.combinator? c with
    | none => simp [holds, hget]
    | some x =>
      have := Arena.held_remove (fun x : HeldCombinator => x.combinator.holdings) hget
      simp only [holds, hget, Option.elim_some, held, this]
      exact (Multiset.le_add_right _ _).trans (Multiset.le_add_left _ _)

/-! Steps that only count leave the contents of all cells as they are. -/

/-- The cells without their counts. -/
structure Contents where
  objects : Arena ObjectKind
  thunks : Arena ThunkState
  combinators : Arena Combinator

def contents (m : Heap) : Contents where
  objects := m.objects.contents Object.kind
  thunks := m.thunks.contents Thunk.state
  combinators := m.combinators.contents HeldCombinator.combinator

section Congr

variable {m' : Heap} (hsame : m'.contents = m.contents)
include hsame

theorem kind?_congr (o : ObjectId) :
    (m'.object? o).map Object.kind = (m.object? o).map Object.kind := by
  simpa [contents, object?] using congrArg (fun c => c.objects.get? o.index) hsame

theorem state?_congr (t : ThunkId) :
    (m'.thunk? t).map Thunk.state = (m.thunk? t).map Thunk.state := by
  simpa [contents, thunk?] using congrArg (fun c => c.thunks.get? t.index) hsame

theorem combinator?_congr (c : CombinatorId) :
    (m'.combinator? c).map HeldCombinator.combinator =
      (m.combinator? c).map HeldCombinator.combinator := by
  simpa [contents, combinator?] using congrArg (fun s => s.combinators.get? c.index) hsame

theorem holds_congr (cell : Edge) : m'.holds cell = m.holds cell := by
  cases cell with
  | object o =>
    have := congrArg (fun k => k.elim 0 ObjectKind.holdings) (kind?_congr hsame o)
    simpa [holds, Function.comp_def] using this
  | thunk t =>
    have := congrArg (fun s => s.elim 0 ThunkState.holdings) (state?_congr hsame t)
    simpa [holds, Function.comp_def] using this
  | combinator c =>
    have := congrArg (fun k => k.elim 0 Combinator.holdings) (combinator?_congr hsame c)
    simpa [holds, Function.comp_def] using this

theorem held_congr : m'.held = m.held := by
  have hobjects := congrArg (fun c => c.objects.held ObjectKind.holdings) hsame
  have hthunks := congrArg (fun c => c.thunks.held ThunkState.holdings) hsame
  have hcombinators := congrArg (fun c => c.combinators.held Combinator.holdings) hsame
  simp only [contents, Arena.held_contents] at hobjects hthunks hcombinators
  simp only [held, hobjects, hthunks]
  exact congrArg _ hcombinators

theorem isLive_congr (cell : Edge) : m'.IsLive cell ↔ m.IsLive cell := by
  cases cell with
  | object o => simpa [IsLive] using congrArg Option.isSome (kind?_congr hsame o)
  | thunk t => simpa [IsLive] using congrArg Option.isSome (state?_congr hsame t)
  | combinator c => simpa [IsLive] using congrArg Option.isSome (combinator?_congr hsame c)

theorem allocated_congr (cell : Edge) : m'.Allocated cell ↔ m.Allocated cell := by
  cases cell with
  | object o => simpa [Allocated, contents] using congrArg (fun c => o.index < c.objects.next) hsame
  | thunk t => simpa [Allocated, contents] using congrArg (fun c => t.index < c.thunks.next) hsame
  | combinator d =>
    simpa [Allocated, contents] using congrArg (fun c => d.index < c.combinators.next) hsame

end Congr

/-! Counting up and down, whatever the cell -/

def retainEdge (m : Heap) : Edge → Heap
  | .object o => m.retain (.plain o)
  | .thunk t => m.retainThunk t
  | .combinator c => m.retainCombinator c

def loseEdge (m : Heap) : Edge → Heap
  | .object o => m.lose o
  | .thunk t => m.loseThunk t
  | .combinator c => m.loseCombinator c

def removeEdge (m : Heap) : Edge → Heap
  | .object o => m.removeObject o
  | .thunk t => m.removeThunk t
  | .combinator c => m.removeCombinator c

@[simp] theorem contents_retainEdge (m : Heap) (cell : Edge) :
    (m.retainEdge cell).contents = m.contents := by
  cases cell <;>
    simp [retainEdge, retain, retainThunk, retainCombinator, contents, Arena.contents_update]

@[simp] theorem contents_loseEdge (m : Heap) (cell : Edge) :
    (m.loseEdge cell).contents = m.contents := by
  cases cell <;>
    simp [loseEdge, lose, loseThunk, loseCombinator, contents, Arena.contents_update]

@[simp] theorem contents_retainWeak (m : Heap) (o : ObjectId) :
    (m.retainWeak o).contents = m.contents := by
  simp [retainWeak, contents, Arena.contents_update]

@[simp] theorem contents_releaseWeak (m : Heap) (o : ObjectId) :
    (m.releaseWeak o).contents = m.contents := by
  simp [releaseWeak, contents, Arena.contents_update]

theorem recorded_objects {m' : Heap} {o : ObjectId} {f : Object → Object}
    (hobject : ∀ p, m'.object? p = if p = o then (m.object? p).map f else m.object? p)
    (hthunk : ∀ t, m'.thunk? t = m.thunk? t) (hcombinator : ∀ c, m'.combinator? c = m.combinator? c)
    (r : Holding) : m'.recorded r =
      if r = .strong (.object o) then (m.object? o).bind (fun x => (f x).hold.strong?)
      else if r = .weak o then (m.object? o).bind (fun x => (f x).hold.weak?)
      else m.recorded r := by
  rcases r with (p | t | c) | p | e
  · by_cases hp : p = o
    · simp [recorded, hobject, hp, Option.bind_map]
    · simp [recorded, hobject, hp]
  · simp [recorded, hthunk]
  · simp [recorded, hcombinator]
  · by_cases hp : p = o
    · simp [recorded, hobject, hp, Option.bind_map]
    · simp [recorded, hobject, hp]
  · simp [recorded]

theorem recorded_retainEdge (m : Heap) (cell : Edge) (r : Holding) :
    (m.retainEdge cell).recorded r =
      if r = .strong cell then (m.recorded r).map (· + 1) else m.recorded r := by
  cases cell with
  | object o =>
    rw [retainEdge, recorded_objects (fun p => object?_retain m (.plain o) p) (fun _ => rfl) (fun _ => rfl)]
    by_cases hr : r = .strong (.object o)
    · simp [hr, recorded, Handle.plain, Option.map_bind]
    · by_cases hw : r = .weak o
      · simp [hw, recorded, Handle.plain]
      · simp [hr, hw, Handle.plain]
  | thunk t =>
    rcases r with (p | u | d) | p | e <;> simp [retainEdge, recorded]
    split <;> simp [Function.comp_def]
  | combinator c =>
    rcases r with (p | u | d) | p | e <;> simp [retainEdge, recorded]
    split <;> simp [Function.comp_def]

theorem recorded_loseEdge (m : Heap) (cell : Edge) (r : Holding) :
    (m.loseEdge cell).recorded r =
      if r = .strong cell then (m.recorded r).map (· - 1) else m.recorded r := by
  cases cell with
  | object o =>
    rw [loseEdge, recorded_objects (fun p => object?_lose m o p) (fun _ => rfl) (fun _ => rfl)]
    by_cases hr : r = .strong (.object o)
    · simp [hr, recorded, Option.map_bind]
    · by_cases hw : r = .weak o
      · simp [hw, recorded]
      · simp [hr, hw]
  | thunk t =>
    rcases r with (p | u | d) | p | e <;> simp [loseEdge, recorded]
    split <;> simp [Function.comp_def]
  | combinator c =>
    rcases r with (p | u | d) | p | e <;> simp [loseEdge, recorded]
    split <;> simp [Function.comp_def]

theorem recorded_retainWeak (m : Heap) (o : ObjectId) (r : Holding) :
    (m.retainWeak o).recorded r =
      if r = .weak o then (m.recorded r).map (· + 1) else m.recorded r := by
  rw [recorded_objects (fun p => object?_retainWeak m o p) (fun _ => rfl) (fun _ => rfl)]
  by_cases hr : r = .strong (.object o)
  · simp [hr, recorded]
  · by_cases hw : r = .weak o
    · simp [hw, recorded, Option.map_bind]
    · simp [hr, hw]

theorem recorded_releaseWeak (m : Heap) (o : ObjectId) (r : Holding) :
    (m.releaseWeak o).recorded r =
      if r = .weak o then (m.recorded r).map (· - 1) else m.recorded r := by
  rw [recorded_objects (fun p => object?_releaseWeak m o p) (fun _ => rfl) (fun _ => rfl)]
  by_cases hr : r = .strong (.object o)
  · simp [hr, recorded]
  · by_cases hw : r = .weak o
    · simp [hw, recorded, Option.map_bind]
    · simp [hr, hw]

/-! Taking a cell out -/

theorem held_removeEdge (hlive : m.IsLive cell) :
    m.held = m.holds cell + (m.removeEdge cell).held := by
  cases cell with
  | object o =>
    obtain ⟨x, hx⟩ := Option.isSome_iff_exists.mp hlive
    have := Arena.held_remove (fun x : Object => x.kind.holdings) hx
    simp only [held, holds, hx, removeEdge, removeObject, Option.elim_some, this]
    abel
  | thunk t =>
    obtain ⟨x, hx⟩ := Option.isSome_iff_exists.mp hlive
    have := Arena.held_remove (fun x : Thunk => x.state.holdings) hx
    simp only [held, holds, hx, removeEdge, removeThunk, Option.elim_some, this]
    abel
  | combinator c =>
    obtain ⟨x, hx⟩ := Option.isSome_iff_exists.mp hlive
    have := Arena.held_remove (fun x : HeldCombinator => x.combinator.holdings) hx
    simp only [held, holds, hx, removeEdge, removeCombinator, Option.elim_some, this]
    abel

theorem recorded_removeEdge (m : Heap) (cell : Edge) (r : Holding) :
    (m.removeEdge cell).recorded r = if r.target? = some cell then none else m.recorded r := by
  rcases cell with o | t | d <;> rcases r with (p | u | e) | p | e <;> simp [removeEdge, recorded]
  all_goals split <;> simp

theorem isLive_removeEdge (m : Heap) (cell c : Edge) :
    (m.removeEdge cell).IsLive c ↔ c ≠ cell ∧ m.IsLive c := by
  rcases cell with o | t | d <;> rcases c with p | u | e <;> simp [removeEdge, IsLive]
  all_goals split <;> simp_all

@[simp] theorem allocated_removeEdge (m : Heap) (cell c : Edge) :
    (m.removeEdge cell).Allocated c ↔ m.Allocated c := by
  rcases cell with o | t | d <;> rcases c with p | u | e <;>
    simp [removeEdge, removeObject, removeThunk, removeCombinator, Allocated]

/-! What each step does to exact counts -/

namespace Counted

theorem retainEdge (h : m.Counted own) (hlive : m.IsLive cell) :
    (m.retainEdge cell).Counted (.strong cell ::ₘ own) where
  exact r n hr := by
    rw [recorded_retainEdge] at hr
    rw [held_congr (contents_retainEdge m cell), Multiset.add_cons, Multiset.count_cons]
    split at hr
    · obtain ⟨k, hk, rfl⟩ := Option.map_eq_some_iff.mp hr
      rw [h.exact _ _ hk, if_pos ‹_›]
    · rw [h.exact _ _ hr, if_neg ‹_›, add_zero]
  positive c n hr := by
    rw [recorded_retainEdge] at hr
    split at hr
    · obtain ⟨k, -, rfl⟩ := Option.map_eq_some_iff.mp hr
      omega
    · exact h.positive _ _ hr
  live c hc := by
    rw [isLive_congr (contents_retainEdge m cell)]
    rw [held_congr (contents_retainEdge m cell), Multiset.add_cons, Multiset.mem_cons] at hc
    rcases hc with hc | hc
    · cases hc
      exact hlive
    · exact h.live _ hc
  allocated o ho := by
    rw [allocated_congr (contents_retainEdge m cell)]
    rw [held_congr (contents_retainEdge m cell), Multiset.add_cons, Multiset.mem_cons] at ho
    exact h.allocated _ (by simpa using ho)

theorem retainWeak {o : ObjectId} (h : m.Counted own) (halloc : m.Allocated (.object o)) :
    (m.retainWeak o).Counted (.weak o ::ₘ own) where
  exact r n hr := by
    rw [recorded_retainWeak] at hr
    rw [held_congr (contents_retainWeak m o), Multiset.add_cons, Multiset.count_cons]
    split at hr
    · obtain ⟨k, hk, rfl⟩ := Option.map_eq_some_iff.mp hr
      rw [h.exact _ _ hk, if_pos ‹_›]
    · rw [h.exact _ _ hr, if_neg ‹_›, add_zero]
  positive c n hr := h.positive c n (by simpa [recorded_retainWeak] using hr)
  live c hc := by
    rw [isLive_congr (contents_retainWeak m o)]
    rw [held_congr (contents_retainWeak m o), Multiset.add_cons, Multiset.mem_cons] at hc
    exact h.live _ (by simpa using hc)
  allocated p hp := by
    rw [allocated_congr (contents_retainWeak m o)]
    rw [held_congr (contents_retainWeak m o), Multiset.add_cons, Multiset.mem_cons] at hp
    rcases hp with hp | hp
    · cases hp
      exact halloc
    · exact h.allocated _ hp

theorem releaseWeak {o : ObjectId} (h : m.Counted (.weak o ::ₘ own)) :
    (m.releaseWeak o).Counted own where
  exact r n hr := by
    rw [recorded_releaseWeak] at hr
    rw [held_congr (contents_releaseWeak m o)]
    split at hr
    · obtain ⟨k, hk, rfl⟩ := Option.map_eq_some_iff.mp hr
      have hcount := h.exact _ _ hk
      rw [Multiset.add_cons, Multiset.count_cons, if_pos ‹_›] at hcount
      omega
    · have hcount := h.exact _ _ hr
      rwa [Multiset.add_cons, Multiset.count_cons, if_neg ‹_›, add_zero] at hcount
  positive c n hr := h.positive c n (by simpa [recorded_releaseWeak] using hr)
  live c hc := by
    rw [isLive_congr (contents_releaseWeak m o)]
    rw [held_congr (contents_releaseWeak m o)] at hc
    exact h.live _ (by rw [Multiset.add_cons]; exact Multiset.mem_cons_of_mem hc)
  allocated p hp := by
    rw [allocated_congr (contents_releaseWeak m o)]
    rw [held_congr (contents_releaseWeak m o)] at hp
    exact h.allocated _ (by rw [Multiset.add_cons]; exact Multiset.mem_cons_of_mem hp)

theorem errors (errors : List EvalError) :
    m.Counted (↑(errors.map Holding.error) + own) ↔ m.Counted own := by
  have hcount : ∀ r n, m.recorded r = some n →
      (m.held + (↑(errors.map Holding.error) + own)).count r = (m.held + own).count r := by
    intro r n hr
    have : r ∉ errors.map Holding.error := by
      intro hmem
      obtain ⟨e, -, rfl⟩ := List.mem_map.mp hmem
      simp [recorded] at hr
    simp [List.count_eq_zero.mpr this]
  constructor
  · intro h
    exact ⟨fun r n hr => hcount r n hr ▸ h.exact r n hr, h.positive,
      fun c hc => h.live c (by simp at hc ⊢; tauto),
      fun o ho => h.allocated o (by simp at ho ⊢; tauto)⟩
  · intro h
    exact ⟨fun r n hr => (hcount r n hr).trans (h.exact r n hr), h.positive,
      fun c hc => h.live c (by simpa using hc), fun o ho => h.allocated o (by simpa using ho)⟩

/-- Giving back the last reference takes the cell out and frees what it held. -/
theorem removeEdge (h : m.Counted (.strong cell ::ₘ own))
    (hlast : m.recorded (.strong cell) = some 1) :
    (m.removeEdge cell).Counted (m.holds cell + own) := by
  have hheld := held_removeEdge (isLive_of_recorded hlast)
  have htotal : m.held + .strong cell ::ₘ own =
      .strong cell ::ₘ ((m.removeEdge cell).held + (m.holds cell + own)) := by
    rw [Multiset.add_cons, hheld, add_comm (m.holds cell), add_assoc]
  have hgone : .strong cell ∉ (m.removeEdge cell).held + (m.holds cell + own) := by
    have hone := h.exact _ _ hlast
    rw [htotal, Multiset.count_cons_self] at hone
    exact Multiset.count_eq_zero.mp (by omega)
  constructor
  · intro r n hr
    rw [recorded_removeEdge] at hr
    split at hr
    · cases hr
    · next htarget =>
      have hcount := h.exact r n hr
      rw [htotal, Multiset.count_cons_of_ne (by rintro rfl; simp at htarget)] at hcount
      exact hcount
  · intro c n hr
    rw [recorded_removeEdge] at hr
    split at hr
    · cases hr
    · exact h.positive c n hr
  · intro c hc
    rw [isLive_removeEdge]
    constructor
    · rintro rfl
      exact hgone hc
    · exact h.live c (htotal ▸ Multiset.mem_cons_of_mem hc)
  · intro o ho
    rw [allocated_removeEdge]
    exact h.allocated o (htotal ▸ Multiset.mem_cons_of_mem ho)

end Counted

/-! The release cascade -/

/-- The same cells, up to the records of what was destroyed. -/
structure SameCells (m m' : Heap) : Prop where
  objects : m.objects = m'.objects
  thunks : m.thunks = m'.thunks
  combinators : m.combinators = m'.combinators

theorem SameCells.contents {m' : Heap} (h : m.SameCells m') : m.contents = m'.contents := by
  simp [Heap.contents, h.objects, h.thunks, h.combinators]

theorem SameCells.recorded {m' : Heap} (h : m.SameCells m') (r : Holding) :
    m.recorded r = m'.recorded r := by
  rcases r with (o | t | c) | o | e <;>
    simp [Heap.recorded, object?, thunk?, combinator?, h.objects, h.thunks, h.combinators]

theorem Counted.of_sameCells {m' : Heap} (h : m.Counted own) (hsame : m'.SameCells m) :
    m'.Counted own where
  exact r n hr := by
    rw [held_congr hsame.contents]
    exact h.exact r n (hsame.recorded r ▸ hr)
  positive c n hr := h.positive c n (hsame.recorded _ ▸ hr)
  live c hc := by
    rw [isLive_congr hsame.contents]
    exact h.live c (held_congr hsame.contents ▸ hc)
  allocated o ho := by
    rw [allocated_congr hsame.contents]
    exact h.allocated o (held_congr hsame.contents ▸ ho)

theorem sameCells_noteDestroyed (m : Heap) (o : ObjectId) (found : Bool) (kind : ObjectKind) :
    (m.noteDestroyed o found kind).SameCells m := by
  unfold noteDestroyed
  split
  · dsimp only
    split <;> exact ⟨rfl, rfl, rfl⟩
  · exact ⟨rfl, rfl, rfl⟩

theorem SameCells.releaseWeak? {m' : Heap} (h : m.SameCells m') (o? : Option ObjectId) :
    (m.releaseWeak? o?).SameCells (m'.releaseWeak? o?) := by
  cases o? with
  | none => exact h
  | some o => exact ⟨by simp [Heap.releaseWeak?, Heap.releaseWeak, h.objects], h.thunks, h.combinators⟩

@[simp] theorem map_edge_loosened (found : Bool) (edges : List Edge) :
    (edges.map (loosened found)).map Loose.edge = edges := by
  have hid : Loose.edge ∘ loosened found = id := by
    funext cell
    cases cell <;> rfl
  rw [List.map_map, hid, List.map_id]

theorem giveBack_cases (m : Heap) (loose : Loose) :
    m.recorded (.strong loose.edge) = none ∧ m.giveBack loose = (m, []) ∨
    (∃ n, m.recorded (.strong loose.edge) = some n ∧ 1 < n ∧
      m.giveBack loose = (m.loseEdge loose.edge, [])) ∨
    ∃ n, m.recorded (.strong loose.edge) = some n ∧ n ≤ 1 ∧
      (m.giveBack loose).1.SameCells
        ((m.removeEdge loose.edge).releaseWeak? (m.weakTarget? loose.edge)) ∧
      (m.giveBack loose).2.map Loose.edge = m.edgesOf loose.edge := by
  obtain ⟨edge, found⟩ := loose
  cases edge with
  | object o =>
    rcases hx : m.object? o with _ | ⟨_ | ⟨strong, weak⟩, kind⟩
    · exact .inl ⟨by simp [recorded, hx], by simp [giveBack, hx]⟩
    · exact .inl ⟨by simp [recorded, hx, Hold.strong?], by simp [giveBack, hx]⟩
    · by_cases hmany : 1 < strong
      · exact .inr (.inl ⟨strong, by simp [recorded, hx, Hold.strong?], hmany,
          by simp [giveBack, hx, hmany, loseEdge]⟩)
      · refine .inr (.inr ⟨strong, by simp [recorded, hx, Hold.strong?], by omega, ?_, ?_⟩)
        · simp only [giveBack, hx, hmany, if_false, removeEdge, weakTarget?, Option.bind_some]
          exact (sameCells_noteDestroyed _ o found kind).releaseWeak? _
        · simp only [giveBack, hx, hmany, if_false, map_edge_loosened, edgesOf, Option.elim_some]
  | thunk t =>
    rcases hx : m.thunk? t with _ | ⟨owners, state⟩
    · exact .inl ⟨by simp [recorded, hx], by simp [giveBack, hx]⟩
    · by_cases hmany : 1 < owners
      · exact .inr (.inl ⟨owners, by simp [recorded, hx], hmany,
          by simp [giveBack, hx, hmany, loseEdge]⟩)
      · refine .inr (.inr ⟨owners, by simp [recorded, hx], by omega, ?_, ?_⟩)
        · simp only [giveBack, hx, hmany, if_false, removeEdge, weakTarget?, Option.bind_some]
          exact ⟨rfl, rfl, rfl⟩
        · simp only [giveBack, hx, hmany, if_false, map_edge_loosened, edgesOf, Option.elim_some]
  | combinator c =>
    rcases hx : m.combinator? c with _ | held
    · exact .inl ⟨by simp [recorded, hx], by simp [giveBack, hx]⟩
    · by_cases hmany : 1 < held.owners
      · exact .inr (.inl ⟨held.owners, by simp [recorded, hx], hmany,
          by simp [giveBack, hx, hmany, loseEdge]⟩)
      · refine .inr (.inr ⟨held.owners, by simp [recorded, hx], by omega, ?_, ?_⟩)
        · simp only [giveBack, hx, hmany, if_false, removeEdge, weakTarget?]
          exact ⟨rfl, rfl, rfl⟩
        · simp only [giveBack, hx, hmany, if_false, map_edge_loosened, edgesOf, Option.elim_some]

end Heap

end GraphReduction
