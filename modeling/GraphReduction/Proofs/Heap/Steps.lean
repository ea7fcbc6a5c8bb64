import Mathlib
import GraphReduction.Proofs.Heap.Release

/-! New cells and new contents. Whatever its kind, a new cell takes a place that nobody can refer to
yet, and a write exchanges what one cell holds. This is all that counts depend on. What a cell refers
to strongly it owns. -/
namespace GraphReduction.Heap

/-- `m'` is `m` with one more cell, which holds `content` and is held once. -/
structure Grows (m m' : Heap) (cell : Edge) (content : Multiset Holding) : Prop where
  fresh : ¬ m.Allocated cell
  held : m'.held = m.held + content
  holds : ∀ c, m'.holds c = if c = cell then content else m.holds c
  isLive : ∀ c, m'.IsLive c ↔ c = cell ∨ m.IsLive c
  allocated : ∀ c, m'.Allocated c ↔ c = cell ∨ m.Allocated c
  recorded : ∀ r, r.target? ≠ some cell → m'.recorded r = m.recorded r
  strong : ∀ n, m'.recorded (.strong cell) = some n → n = 1
  weak : ∀ o n, cell = .object o → m'.recorded (.weak o) = some n → n = 0

structure Writes (m m' : Heap) (cell : Edge) (content : Multiset Holding) : Prop where
  live : m.IsLive cell
  held : m'.held + m.holds cell = m.held + content
  holds : ∀ c, m'.holds c = if c = cell then content else m.holds c
  isLive : ∀ c, m'.IsLive c ↔ m.IsLive c
  allocated : ∀ c, m'.Allocated c ↔ m.Allocated c
  recorded : ∀ r, m'.recorded r = m.recorded r

variable {m m' : Heap} {own own' content : Multiset Holding} {cell : Edge}

namespace Counted

theorem grow (h : m.Counted (content + own)) (hgrows : m.Grows m' cell content) :
    m'.Counted (.strong cell ::ₘ own) := by
  have htotal : m'.held + .strong cell ::ₘ own = .strong cell ::ₘ (m.held + (content + own)) := by
    rw [Multiset.add_cons, hgrows.held, add_assoc]
  have hunknown : ∀ r : Holding, r.target? = some cell → r ∉ m.held + (content + own) := by
    intro r hr hmem
    refine hgrows.fresh ?_
    cases r with
    | strong c =>
      cases hr
      exact (h.live _ hmem).allocated
    | weak o =>
      cases hr
      exact h.allocated _ hmem
    | error e => cases hr
  constructor
  · intro r n hr
    rw [htotal]
    by_cases htarget : r.target? = some cell
    · have hzero := Multiset.count_eq_zero.mpr (hunknown r htarget)
      cases r with
      | strong c =>
        cases htarget
        rw [Multiset.count_cons_self, hzero, hgrows.strong n hr]
      | weak o =>
        cases htarget
        rw [Multiset.count_cons_of_ne (by simp), hzero, hgrows.weak o n rfl hr]
      | error e => cases htarget
    · rw [Multiset.count_cons_of_ne (by rintro rfl; exact htarget rfl)]
      exact h.exact r n (hgrows.recorded r htarget ▸ hr)
  · intro c n hr
    by_cases hsame : c = cell
    · subst hsame
      rw [hgrows.strong n hr]
      exact Nat.one_pos
    · exact h.positive c n (hgrows.recorded (.strong c) (by simpa using hsame) ▸ hr)
  · intro c hc
    rw [htotal, Multiset.mem_cons] at hc
    rw [hgrows.isLive]
    rcases hc with hc | hc
    · exact .inl (by simpa using hc)
    · exact .inr (h.live c hc)
  · intro o ho
    rw [htotal, Multiset.mem_cons] at ho
    rw [hgrows.allocated]
    exact .inr (h.allocated o (by simpa using ho))

theorem write (h : m.Counted own) (hwrites : m.Writes m' cell content)
    (hsame : content + own' = m.holds cell + own) : m'.Counted own' := by
  have htotal : m'.held + own' = m.held + own := by
    have hheld := hwrites.held
    apply add_left_cancel (a := m.holds cell)
    calc m.holds cell + (m'.held + own') = m'.held + m.holds cell + own' := by abel
      _ = m.held + (content + own') := by rw [hheld, add_assoc]
      _ = m.holds cell + (m.held + own) := by rw [hsame]; abel
  constructor
  · intro r n hr
    rw [htotal]
    exact h.exact r n (hwrites.recorded r ▸ hr)
  · intro c n hr
    exact h.positive c n (hwrites.recorded _ ▸ hr)
  · intro c hc
    rw [hwrites.isLive]
    exact h.live c (htotal ▸ hc)
  · intro o ho
    rw [hwrites.allocated]
    exact h.allocated o (htotal ▸ ho)

end Counted

/-! The steps that add cells -/

theorem grows_addObject (m : Heap) (hold : Hold) (kind : ObjectKind)
    (hstrong : ∀ n, hold.strong? = some n → n = 1) (hweak : ∀ n, hold.weak? = some n → n = 0) :
    m.Grows (m.addObject hold kind).2 (.object m.nextObject) kind.holdings where
  fresh := by simp [Allocated, nextObject]
  held := by
    simp only [addObject, held, Arena.held_add]
    abel
  holds c := by
    rcases c with o | t | d <;> simp [holds]
    split <;> simp
  isLive c := by
    rcases c with o | t | d <;> simp [IsLive]
    split <;> simp_all
  allocated c := by
    rcases c with o | t | d <;> simp [Allocated, addObject, nextObject, ← index_inj]
    omega
  recorded r hr := by
    rcases r with (o | t | d) | o | e <;> simp_all [recorded]
  strong n hr := hstrong n (by simpa [recorded] using hr)
  weak o n ho hr := by
    cases ho
    exact hweak n (by simpa [recorded] using hr)

theorem grows_newObject (m : Heap) (kind : ObjectKind) :
    m.Grows (m.newObject kind).2 (.object m.nextObject) kind.holdings :=
  grows_addObject m (.shared 1 0) kind (by simp [Hold.strong?]) (by simp [Hold.weak?])

theorem grows_newStatic (m : Heap) (kind : ObjectKind) :
    m.Grows (m.newStatic kind).2 (.object m.nextObject) kind.holdings :=
  grows_addObject m .static kind (by simp [Hold.strong?]) (by simp [Hold.weak?])

theorem grows_newThunk (m : Heap) (state : ThunkState) :
    m.Grows (m.newThunk state).2 (.thunk (m.newThunk state).1) state.holdings where
  fresh := by simp [Allocated]
  held := by
    simp only [newThunk, held, Arena.held_add]
    abel
  holds c := by
    rcases c with o | t | d <;> simp [holds]
    split <;> simp
  isLive c := by
    rcases c with o | t | d <;> simp [IsLive]
    split <;> simp_all
  allocated c := by
    rcases c with o | t | d <;> simp [Allocated, newThunk, ← thunk_index_inj]
    omega
  recorded r hr := by
    rcases r with (o | t | d) | o | e <;> simp_all [recorded]
  strong n hr := by simpa [recorded, eq_comm] using hr
  weak o n ho := by cases ho

theorem grows_newCombinator (m : Heap) (k : Combinator) :
    m.Grows (m.newCombinator k).2 (.combinator (m.newCombinator k).1) k.holdings where
  fresh := by simp [Allocated, newCombinator]
  held := by
    simp only [newCombinator, held, Arena.held_add]
    abel
  holds c := by
    rcases c with o | t | d <;> simp [holds]
    split <;> simp
  isLive c := by
    rcases c with o | t | d <;> simp [IsLive]
    split <;> simp_all
  allocated c := by
    rcases c with o | t | d <;> simp [Allocated, newCombinator, ← combinator_index_inj]
    omega
  recorded r hr := by
    rcases r with (o | t | d) | o | e <;> simp_all [recorded]
  strong n hr := by simpa [recorded, eq_comm] using hr
  weak o n ho := by cases ho

/-! The steps that change contents -/

theorem writes_setKind {o : ObjectId} {x : Object} (hx : m.object? o = some x) (kind : ObjectKind) :
    m.Writes (m.setKind o kind) (.object o) kind.holdings where
  live := by simp [IsLive, hx]
  held := by
    have := Arena.held_update (fun x : Object => x.kind.holdings) (fun x => { x with kind }) hx
    simp only [held, setKind, holds, hx, Option.elim_some]
    calc _ = (m.objects.update o.index fun x => { x with kind }).held (fun x => x.kind.holdings) +
          x.kind.holdings + m.thunks.held (·.state.holdings) +
          m.combinators.held (·.combinator.holdings) := by abel
      _ = _ := by
        rw [this]
        abel
  holds c := by
    rcases c with p | t | d <;> simp [holds]
    split <;> simp_all
  isLive c := by
    rcases c with p | t | d <;> simp [IsLive]
    split <;> simp
  allocated c := by rcases c with p | t | d <;> simp [Allocated, setKind]
  recorded r := by
    rcases r with (p | t | d) | p | e <;> simp [recorded]
    all_goals split <;> simp_all

theorem writes_setThunkState {t : ThunkId} {x : Thunk} (hx : m.thunk? t = some x)
    (state : ThunkState) : m.Writes (m.setThunkState t state) (.thunk t) state.holdings where
  live := by simp [IsLive, hx]
  held := by
    have := Arena.held_update (fun x : Thunk => x.state.holdings) (fun x => { x with state }) hx
    simp only [held, setThunkState, holds, hx, Option.elim_some]
    calc _ = (m.thunks.update t.index fun x => { x with state }).held (fun x => x.state.holdings) +
          x.state.holdings + m.objects.held (·.kind.holdings) +
          m.combinators.held (·.combinator.holdings) := by abel
      _ = _ := by
        rw [this]
        abel
  holds c := by
    rcases c with p | u | d <;> simp [holds]
    split <;> simp_all
  isLive c := by
    rcases c with p | u | d <;> simp [IsLive]
    split <;> simp
  allocated c := by rcases c with p | t | d <;> simp [Allocated, setThunkState]
  recorded r := by
    rcases r with (p | u | d) | p | e <;> simp [recorded]
    split <;> simp_all

theorem setMemo_eq {o : ObjectId} {x : Object} {c : Closure} (hx : m.object? o = some x)
    (hc : x.kind = .closure c) (memo : Memo) :
    m.setMemo o memo = m.setKind o (.closure { c with memo }) := by
  simp only [setMemo, setKind]
  rw [Arena.update_congr hx]
  simp [hc]

/-! Owners -/

def Owns (m : Heap) (a b : Edge) : Prop := .strong b ∈ m.holds a

theorem owns_congr (hsame : m'.contents = m.contents) : m'.Owns = m.Owns := by
  funext a b
  simp [Owns, holds_congr hsame]

theorem Owns.isLive {a b : Edge} (h : m.Owns a b) : m.IsLive a := by
  by_contra hdead
  rcases a with o | t | c <;> simp [IsLive] at hdead <;> simp [Owns, holds, hdead] at h

theorem Counted.live_of_owns {a b : Edge} (h : m.Counted own) (howns : m.Owns a b) : m.IsLive b :=
  h.live _ (Multiset.mem_add.mpr (.inl (Multiset.mem_of_le (holds_le_held m a) howns)))

theorem Counted.allocated_of_weak {a : Edge} {o : ObjectId} (h : m.Counted own)
    (hholds : .weak o ∈ m.holds a) : m.Allocated (.object o) :=
  h.allocated _ (Multiset.mem_add.mpr (.inl (Multiset.mem_of_le (holds_le_held m a) hholds)))

end GraphReduction.Heap
