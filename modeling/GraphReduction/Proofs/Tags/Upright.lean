import Mathlib
import GraphReduction.Proofs.Tags.Honest
import GraphReduction.Proofs.Trees.Binding

/-! Steps on a heap in which tags tell the truth. What is new tells the truth, what is kept in place
of a result is one, and what is bound in place is known to nobody else. -/
namespace GraphReduction

open Heap ObjectKind

namespace Heap

variable {m m' : Heap} {own held rest : Multiset Holding} {o : ObjectId} {h r : Handle}
  {kind : ObjectKind} {w : ThunkId}

namespace HonestCells

theorem addObject (hcells : m.HonestCells) (hold : Hold) (hhonest : m.HonestKind kind) :
    (m.addObject hold kind).2.HonestCells := by
  have hspares : Spares Set.univ m (m.addObject hold kind).2 := .addObject m hold kind
  refine hcells.evolve hspares (fun p kind' hkind => ?_)
    (fun _ _ hstate => .inl hstate) fun _ _ hk => .inl hk
  rw [kindOf?, object?_addObject] at hkind
  split at hkind
  · cases hkind
    exact .inr (hhonest.mono fun p _ => hspares.lasts trivial)
  · exact .inl hkind

theorem setKind (hcells : m.HonestCells)
    (hlasts : ∀ p, .strong (.object p) ∈ m.held ∨ .weak p ∈ m.held →
      m.Lasts (m.setKind o kind) p)
    (hlibrary : ∀ p : Primitive, m.Lasts (m.setKind o kind) ⟨p.place⟩)
    (hhonest : (m.setKind o kind).HonestKind kind) : (m.setKind o kind).HonestCells := by
  refine hcells.step hlasts hlibrary (fun p kind' hkind => ?_) (fun _ _ hstate => .inl hstate)
    fun _ _ hk => .inl hk
  rw [Valid.kindOf?_setKind] at hkind
  split at hkind
  · obtain ⟨-, -, rfl⟩ := Option.map_eq_some_iff.mp hkind
    exact .inr hhonest
  · exact .inl hkind

end HonestCells

theorem lasts_setKind {kind' : ObjectKind} {p : ObjectId} (hkind : m.kindOf? o = some kind)
    (hsuits : ∀ tag : Tag, tag.Suits kind → tag.Suits kind') : m.Lasts (m.setKind o kind') p := by
  rintro tag ⟨halloc, hkinds⟩
  refine ⟨(allocated_setKind m o kind' _).mpr halloc, fun kind'' hkind'' => ?_⟩
  rw [Valid.kindOf?_setKind] at hkind''
  split at hkind''
  · next heq =>
    subst heq
    obtain ⟨-, -, rfl⟩ := Option.map_eq_some_iff.mp hkind''
    exact hsuits tag (hkinds _ hkind)
  · exact hkinds _ hkind''

namespace HonestCells

theorem become (hcells : m.HonestCells)
    (hbecomes : ∀ old, m.kindOf? o = some old → old.Becomes kind)
    (hhonest : m.HonestKind kind) : (m.setKind o kind).HonestCells := by
  have hspares : Spares Set.univ m (m.setKind o kind) := .setKind fun _ => hbecomes
  exact hcells.setKind (fun p _ => hspares.lasts trivial) (fun p => hspares.lasts trivial)
    (hhonest.mono fun p _ => hspares.lasts trivial)

theorem newThunk {state : ThunkState} (hcells : m.HonestCells) (hhonest : m.HonestState state) :
    (m.newThunk state).2.HonestCells := by
  have hspares : Spares Set.univ m (m.newThunk state).2 := .newThunk m state
  refine hcells.evolve hspares (fun _ _ hkind => .inl hkind)
    (fun t state' hstate => ?_) fun _ _ hk => .inl hk
  rw [stateOf?_newThunk] at hstate
  split at hstate
  · cases hstate
    exact .inr (hhonest.mono fun p _ => hspares.lasts trivial)
  · exact .inl hstate

theorem setThunkState {state : ThunkState} (hcells : m.HonestCells)
    (hhonest : m.HonestState state) : (m.setThunkState w state).HonestCells := by
  have hspares : Spares Set.univ m (m.setThunkState w state) := .setThunkState m w state
  refine hcells.evolve hspares (fun _ _ hkind => .inl hkind)
    (fun t state' hstate => ?_) fun _ _ hk => .inl hk
  rw [stateOf?_setThunkState] at hstate
  split at hstate
  · obtain ⟨-, -, rfl⟩ := Option.map_eq_some_iff.mp hstate
    exact .inr (hhonest.mono fun p _ => hspares.lasts trivial)
  · exact .inl hstate

theorem newCombinator {k : Combinator} (hcells : m.HonestCells)
    (hhonest : ∀ h ∈ k.body.captures, m.Honest h) : (m.newCombinator k).2.HonestCells := by
  have hspares : Spares Set.univ m (m.newCombinator k).2 := .newCombinator m k
  refine hcells.evolve hspares (fun _ _ hkind => .inl hkind)
    (fun _ _ hstate => .inl hstate) fun c k' hk' => ?_
  by_cases hc : c = ⟨m.combinators.next⟩
  · subst hc
    obtain rfl : k' = k := by
      simpa [combinatorOf?, combinator?, Heap.newCombinator, eq_comm] using hk'
    exact .inr fun h hh => (hspares.lasts trivial).honest (hhonest h hh)
  · have hne : c.index ≠ m.combinators.next := fun heq => hc (by cases c; cases heq; rfl)
    exact .inl (by simpa [combinatorOf?, combinator?, Heap.newCombinator, hne] using hk')

end HonestCells

theorem lasts_setMemo {c : Closure} (hkind : m.kindOf? o = some (.closure c)) (memo : Memo)
    (p : ObjectId) : m.Lasts (m.setMemo o memo) p := by
  obtain ⟨x, hx, hc⟩ := Option.map_eq_some_iff.mp hkind
  rw [setMemo_eq hx hc]
  exact lasts_setKind hkind fun tag => Tag.suits_closure rfl

namespace Upright

theorem live (hup : m.Upright own) (hheld : h.holding ∈ own) : m.IsLive h.edge :=
  hup.valid.counted.live h.edge (Multiset.mem_add.mpr (.inr hheld))

theorem kindOf?_of_held (hup : m.Upright own) (hheld : h.holding ∈ own) :
    ∃ kind, m.kindOf? h.target = some kind := by
  obtain ⟨x, hx⟩ := Option.isSome_iff_exists.mp (hup.live hheld)
  exact ⟨x.kind, by simp [kindOf?, hx]⟩

theorem live_of_kind {cell : Edge} (hup : m.Upright own) (hkind : m.kindOf? o = some kind)
    (hpart : .strong cell ∈ kind.holdings) : m.IsLive cell :=
  hup.valid.counted.live_of_kind hkind hpart

theorem live_of_state {cell : Edge} {state : ThunkState} (hup : m.Upright own)
    (hstate : m.stateOf? w = some state) (hpart : .strong cell ∈ state.holdings) :
    m.IsLive cell :=
  hup.valid.counted.live_of_state hstate hpart

theorem retainEdge {cell : Edge} (hup : m.Upright own) (hlive : m.IsLive cell) :
    (m.retainEdge cell).Upright (.strong cell ::ₘ own) :=
  ⟨hup.valid.retainEdge hlive, hup.cells.within (within_retainEdge m cell)⟩

theorem share (hup : m.Upright own) (hlive : m.IsLive h.edge) :
    (m.retain h).Upright (h.holding ::ₘ own) :=
  hup.retainEdge hlive

theorem retainWeak (hup : m.Upright own) (halloc : m.Allocated (.object o)) :
    (m.retainWeak o).Upright (.weak o ::ₘ own) :=
  ⟨hup.valid.retainWeak halloc, hup.cells.within (.of_contents (contents_retainWeak m o))⟩

theorem release (hup : m.Upright (h.holding ::ₘ own)) : (m.release h).Upright own :=
  ⟨hup.valid.release, hup.cells.within (within_release m h)⟩

theorem releaseThunk (hup : m.Upright (.strong (.thunk w) ::ₘ own)) :
    (m.releaseThunk w).Upright own :=
  ⟨Valid.releaseAll (by simpa [Loose.holding] using hup.valid),
    hup.cells.within (within_releaseThunk m w)⟩

theorem newObject (hup : m.Upright (kind.holdings + own))
    (hproper : ∀ c, kind = .closure c → c.Proper) (hhonest : m.HonestKind kind) :
    (m.newObject kind).2.Upright ((Handle.plain m.nextObject).holding ::ₘ own) :=
  ⟨hup.valid.newObject hproper, hup.cells.addObject (.shared 1 0) hhonest⟩

theorem newStatic (hup : m.Upright (kind.holdings + own))
    (hproper : ∀ c, kind = .closure c → c.Proper) (hhonest : m.HonestKind kind) :
    (m.newStatic kind).2.Upright ((Handle.plain m.nextObject).holding ::ₘ own) :=
  ⟨hup.valid.newStatic hproper, hup.cells.addObject .static hhonest⟩

theorem newThunk {state : ThunkState} (hup : m.Upright (state.holdings + own))
    (hhonest : m.HonestState state) :
    (m.newThunk state).2.Upright (.strong (.thunk ⟨m.thunks.next⟩) ::ₘ own) :=
  ⟨hup.valid.newThunk, hup.cells.newThunk hhonest⟩

theorem newCombinator {k : Combinator} (hup : m.Upright (k.holdings + own))
    (hhonest : ∀ h ∈ k.body.captures, m.Honest h) :
    (m.newCombinator k).2.Upright (.strong (.combinator (m.newCombinator k).1) ::ₘ own) :=
  ⟨hup.valid.newCombinator, hup.cells.newCombinator hhonest⟩

theorem keep (hup : m.Upright (r.holding ::ₘ own)) (hstate : m.stateOf? w = some (.pending h))
    (hresult : m.Final r) : (m.setThunkState w (.forced r)).Upright (h.holding ::ₘ own) :=
  ⟨hup.valid.setThunkState hstate (by simp [Multiset.cons_swap]),
    hup.cells.setThunkState hresult⟩

theorem reduce {f x : Handle} (hup : m.Upright (r.holding ::ₘ own))
    (hkind : m.kindOf? o = some (.application (.pending f x))) (hresult : m.Final r) :
    (m.setKind o (.application (.reduced r))).Upright (f.holding ::ₘ x.holding ::ₘ own) where
  valid := hup.valid.setKind hkind (by simp) (by
    simp only [ObjectKind.holdings_reduced, ObjectKind.holdings_pending, Multiset.insert_eq_cons,
      ← Multiset.singleton_add]
    abel)
  cells := hup.cells.become (becomes_of_node hkind _) hresult

theorem setMemo {c : Closure} {memo : Memo} {own' : Multiset Holding} (hup : m.Upright own)
    (hkind : m.kindOf? o = some (.closure c))
    (hown : ↑(memo.result?.toList.map Handle.holding) + own' =
      ↑(c.memo.result?.toList.map Handle.holding) + own) (hmissing : c.missing = 0)
    (hdone : ∀ r, memo = .done r → m.Final r) : (m.setMemo o memo).Upright own' where
  valid := hup.valid.setMemo hkind hown
  cells := by
    have hlasts := lasts_setMemo hkind memo
    obtain ⟨x, hx, hc⟩ := Option.map_eq_some_iff.mp hkind
    rw [setMemo_eq hx hc] at hlasts ⊢
    exact hup.cells.setKind (fun p _ => hlasts p) (fun p => hlasts _)
      (HonestKind.mono ⟨fun _ => hmissing, hdone⟩ fun p _ => hlasts p)

theorem fill {c : Closure}
    (hup : m.Upright (.strong (.thunk w) ::ₘ .strong (.object o) ::ₘ own))
    (hkind : m.kindOf? o = some (.closure c)) (hunique : m.IsUnique o) (hmissing : 0 < c.missing) :
    (m.setKind o (.closure (c.fill w))).Upright (.strong (.object o) ::ₘ own) := by
  have hproper := hup.valid.proper o c hkind
  refine ⟨hup.valid.setKind hkind (by rintro _ ⟨⟩; exact hproper.fill hmissing w) ?_, ?_⟩
  · rw [Closure.holdings_fill hproper hmissing, Multiset.cons_add, ← Multiset.add_cons]
  · have hcounted := hup.valid.counted
    rw [Multiset.cons_swap] at hcounted
    have hnot := hcounted.not_held_of_unique hunique
    obtain ⟨hsaturated, -⟩ := hup.cells.object o _ hkind
    have hempty : c.memo = .empty := by
      by_contra hfull
      have := hsaturated hfull
      omega
    have hspares : Spares {p | p ≠ o} m (m.setKind o (.closure (c.fill w))) :=
      .setKind fun ho => absurd rfl ho
    refine hup.cells.setKind (fun p hp => ?_) (fun p => ?_)
      ⟨fun hfull => absurd hempty hfull, fun r hr => ?_⟩
    · refine hspares.lasts fun heq => ?_
      subst heq
      exact hp.elim (fun hp => hnot.1 (Multiset.mem_add.mpr (.inl hp)))
        fun hp => hnot.2 (Multiset.mem_add.mpr (.inl hp))
    · refine hspares.lasts fun heq => ?_
      subst heq
      cases hunique.recorded.1.symm.trans (hup.valid.library p).2
    · cases hempty.symm.trans hr

theorem bindSelf {fresh : Closure} (hup : m.Upright ((ObjectKind.closure fresh).holdings + own))
    (hproper : fresh.Proper) (hmissing : 1 < fresh.missing)
    (hhonest : m.HonestKind (.closure fresh)) :
    (m.bindSelf fresh).Upright ((Handle.plain m.nextObject).holding ::ₘ own) := by
  have hspares : Spares Set.univ m (m.bindSelf fresh) := .bindSelf m fresh
  refine ⟨hup.valid.bindSelf hproper hmissing, hup.cells.evolve hspares (fun p kind hkind => ?_)
    (fun t state hstate => ?_) fun _ _ hk => .inl ?_⟩
  · rw [kindOf?_bindSelf] at hkind
    split at hkind
    · cases hkind
      have hsame : m.HonestKind (.closure (fresh.fill (m.newThunk (.recursive p)).1)) := by
        obtain ⟨hsaturated, -⟩ := hhonest
        have hempty : fresh.memo = .empty := by
          by_contra hfull
          have := hsaturated hfull
          omega
        exact ⟨fun hfull => absurd hempty hfull, fun r hr => by cases hempty.symm.trans hr⟩
      exact .inr (hsame.mono fun p _ => hspares.lasts trivial)
    · exact .inl hkind
  · rw [stateOf?_bindSelf] at hstate
    split at hstate
    · cases hstate
      refine .inr ⟨?_, fun kind hkind => ?_⟩
      · exact (hup.valid.bindSelf hproper hmissing).counted.live _ (by simp) |>.allocated
      · rw [kindOf?_bindSelf, if_pos rfl] at hkind
        cases hkind
        simp only [IsResult, Closure.fill]
        omega
    · exact .inl hstate
  · exact hk

theorem tie (hup : m.Upright own) (hknot : m.kindOf? o = some (.application (.knot .unresolved)))
    (hlive : m.IsLive r.edge) (hresult : m.Is IsResult r.target) : (m.tie o r).Upright own where
  valid := hup.valid.tie hknot hlive
  cells := by
    simp only [Heap.tie]
    split
    · exact hup.cells.become (becomes_of_node hknot _) (Final.plain hresult)
    · have hsame := contents_retainWeak m r.target
      have hspares : Spares Set.univ m (m.retainWeak r.target) := .retainWeak m _
      have hcells := hup.cells.within (.of_contents hsame)
      exact hcells.become (becomes_of_node ((kindOf?_congr hsame o).trans hknot) _)
        (hspares.lasts trivial .cached hresult)

end Upright

theorem Spares.tie {fixed : Set ObjectId}
    (hknot : m.kindOf? o = some (.application (.knot .unresolved))) (r : Handle) :
    Spares fixed m (m.tie o r) := by
  simp only [Heap.tie]
  split
  · exact .setKind fun _ => becomes_of_node hknot _
  · exact (Spares.retainWeak m r.target).trans (.setKind fun _ =>
      becomes_of_node ((kindOf?_congr (contents_retainWeak m r.target) o).trans hknot) _)

end Heap

end GraphReduction
