import Mathlib
import GraphReduction.Machine.Thunk
import GraphReduction.Proofs.Types.Consistent
import GraphReduction.Proofs.Moves.Basic

/-! References that are taken for a look. The cell behind one is held by somebody else in the
meantime, or it is an exception made for the occasion, so giving the reference back leaves every cell
with the content and the count that it had before. -/
namespace GraphReduction

theorem Handle.isException_asCached (h : Handle) : h.asCached.isException = h.isException := by
  obtain ⟨_ | _ | _, o⟩ := h <;> rfl

namespace Heap

variable {m m₁ m' m'' : Heap} {h : Handle} {o : ObjectId}

/-- Every cell is as it was in `m`. Places may have been given out in the meantime. -/
structure Restores (m' m : Heap) : Prop where
  object : ∀ o, m'.object? o = m.object? o
  thunks : m'.thunks = m.thunks
  combinators : m'.combinators = m.combinators
  drained : m'.drained = m.drained
  drops : m'.drops = m.drops
  next : m.objects.next ≤ m'.objects.next

theorem Restores.refl (m : Heap) : m.Restores m := ⟨fun _ => rfl, rfl, rfl, rfl, rfl, Nat.le_refl _⟩

theorem Restores.trans (h' : m''.Restores m') (h : m'.Restores m) : m''.Restores m :=
  ⟨fun o => (h'.object o).trans (h.object o), h'.thunks.trans h.thunks,
    h'.combinators.trans h.combinators, h'.drained.trans h.drained, h'.drops.trans h.drops,
    h.next.trans h'.next⟩

/-- The same contents in the same places, whatever the counts. -/
structure LooksLike (m' m : Heap) : Prop where
  kind : ∀ o, m'.kindOf? o = m.kindOf? o
  thunks : m'.thunks = m.thunks
  combinators : m'.combinators = m.combinators

theorem LooksLike.refl (m : Heap) : m.LooksLike m := ⟨fun _ => rfl, rfl, rfl⟩

theorem LooksLike.trans (h' : m''.LooksLike m') (h : m'.LooksLike m) : m''.LooksLike m :=
  ⟨fun o => (h'.kind o).trans (h.kind o), h'.thunks.trans h.thunks,
    h'.combinators.trans h.combinators⟩

theorem Restores.looksLike (h : m'.Restores m) : m'.LooksLike m :=
  ⟨fun o => by simp [kindOf?, h.object o], h.thunks, h.combinators⟩

theorem looksLike_retain (m : Heap) (h : Handle) : (m.retain h).LooksLike m :=
  ⟨fun o => by
    rw [kindOf?, kindOf?, object?_retain]
    split
    · simp [Function.comp_def]
    · rfl, rfl, rfl⟩

theorem LooksLike.kind? (hlooks : m'.LooksLike m) (h : Handle) : m'.kind? h = m.kind? h :=
  hlooks.kind h.target

theorem LooksLike.thunk? (hlooks : m'.LooksLike m) (t : ThunkId) : m'.thunk? t = m.thunk? t := by
  rw [Heap.thunk?, hlooks.thunks, Heap.thunk?]

theorem isAlive_iff (m : Heap) (o : ObjectId) : m.isAlive o = (m.kindOf? o).isSome := by
  simp [isAlive, kindOf?]

theorem LooksLike.isAlive (hlooks : m'.LooksLike m) (o : ObjectId) : m'.isAlive o = m.isAlive o := by
  rw [isAlive_iff, isAlive_iff, hlooks.kind]

theorem LooksLike.isLive (hlooks : m'.LooksLike m) (cell : Edge) :
    m'.IsLive cell ↔ m.IsLive cell := by
  cases cell with
  | object o => simpa [Heap.isAlive, IsLive] using hlooks.isAlive o
  | thunk t => rw [IsLive, IsLive, hlooks.thunk?]
  | combinator c => rw [IsLive, IsLive, combinator?, combinator?, hlooks.combinators]

theorem LooksLike.declared (hlooks : m'.LooksLike m) (c : CombinatorId) :
    m'.combinator? c = m.combinator? c := by
  rw [combinator?, combinator?, hlooks.combinators]

/-- No cell refers to one that is gone, counted objects are counted, and closures are in order. -/
structure Whole (m : Heap) : Prop where
  positive : ∀ o strong weak kind, m.object? o = some ⟨.shared strong weak, kind⟩ → 0 < strong
  object : ∀ o kind, m.kindOf? o = some kind → ∀ cell ∈ kind.edges, m.IsLive cell
  thunk : ∀ t state, m.stateOf? t = some state → ∀ cell ∈ state.edges, m.IsLive cell
  proper : ∀ o c, m.kindOf? o = some (.closure c) → c.Proper

theorem Counted.whole {own : Multiset Holding} (h : m.Counted own)
    (hproper : ∀ o c, m.kindOf? o = some (.closure c) → c.Proper) : m.Whole where
  positive o strong weak kind hget := by
    refine h.positive (.object o) strong ?_
    simp [recorded, hget, Hold.strong?]
  object o kind hkind cell hcell := by
    obtain ⟨x, hx, rfl⟩ := Option.map_eq_some_iff.1 hkind
    have howns : m.Owns (.object o) cell := by simp [Owns, holds, hx, ObjectKind.holdings, hcell]
    exact h.live_of_owns howns
  thunk t state hstate cell hcell := by
    obtain ⟨x, hx, rfl⟩ := Option.map_eq_some_iff.1 hstate
    have howns : m.Owns (.thunk t) cell := by simp [Owns, holds, hx, ThunkState.holdings, hcell]
    exact h.live_of_owns howns
  proper := hproper

theorem Whole.of_looksLike (h : m.Whole) (hlooks : m'.LooksLike m)
    (hpositive : ∀ o strong weak kind, m'.object? o = some ⟨.shared strong weak, kind⟩ → 0 < strong) :
    m'.Whole where
  positive := hpositive
  object o kind hkind cell hcell :=
    (hlooks.isLive cell).2 (h.object o kind (hlooks.kind o ▸ hkind) cell hcell)
  thunk t state hstate cell hcell := by
    rw [stateOf?, hlooks.thunk?] at hstate
    exact (hlooks.isLive cell).2 (h.thunk t state hstate cell hcell)
  proper o c hkind := h.proper o c (hlooks.kind o ▸ hkind)

theorem Whole.restores (h : m.Whole) (hrestores : m'.Restores m) : m'.Whole :=
  h.of_looksLike hrestores.looksLike fun o strong weak kind hget =>
    h.positive o strong weak kind (hrestores.object o ▸ hget)

theorem Whole.retain (hwhole : m.Whole) (h : Handle) : (m.retain h).Whole := by
  refine hwhole.of_looksLike (looksLike_retain m h) fun o strong weak kind hget => ?_
  rw [object?_retain] at hget
  split at hget
  · obtain ⟨⟨hold, content⟩, -, hx⟩ := Option.map_eq_some_iff.1 hget
    cases hold with
    | static => simp [Object.retain] at hx
    | shared strong' weak' =>
      obtain ⟨rfl, -⟩ : strong' + 1 = strong ∧ weak' = weak := by
        simpa [Object.retain] using congrArg Object.hold hx
      exact Nat.succ_pos strong'
  · exact hwhole.positive o strong weak kind hget

theorem restores_release_retain (hwhole : m.Whole) (hlive : m.IsLive h.edge)
    (hrestores : m'.Restores (m.retain h)) : (m'.release h).Restores m := by
  obtain ⟨⟨hold, kind⟩, hx⟩ := Option.isSome_iff_exists.1 hlive
  have hnow : m'.object? h.target = some (Object.retain ⟨hold, kind⟩) := by
    rw [hrestores.object, object?_retain, if_pos rfl, show m.object? h.target = _ from hx]
    rfl
  rw [release, releaseAll_cons]
  cases hold with
  | static =>
    have hnow : m'.object? h.target = some ⟨.static, kind⟩ := hnow
    simp only [giveBack, Handle.edge, hnow, List.reverse_nil, List.nil_append, releaseAll_nil]
    refine ⟨fun o => ?_, hrestores.thunks, hrestores.combinators, hrestores.drained,
      hrestores.drops, by simpa [retain] using hrestores.next⟩
    rw [hrestores.object, object?_retain]
    split
    · next heq => rw [heq, show m.object? h.target = _ from hx]; rfl
    · rfl
  | shared strong weak =>
    have hpositive := hwhole.positive h.target strong weak kind hx
    have hnow : m'.object? h.target = some ⟨.shared (strong + 1) weak, kind⟩ := hnow
    have hmany : 1 < strong + 1 := by omega
    simp only [giveBack, Handle.edge, hnow, hmany, if_true, List.reverse_nil, List.nil_append,
      releaseAll_nil]
    refine ⟨fun o => ?_, hrestores.thunks, hrestores.combinators, hrestores.drained,
      hrestores.drops, by simpa [retain, lose] using hrestores.next⟩
    rw [object?_lose]
    split
    · next heq => rw [heq, hnow, show m.object? h.target = _ from hx]; rfl
    · next hne => rw [hrestores.object, object?_retain, if_neg hne]

theorem object?_nextObject (m : Heap) : m.object? m.nextObject = none := by
  simp [object?, Arena.get?, nextObject, Arena.next]

theorem restores_release_exception {e : EvalError} (htarget : h.target = m.nextObject)
    (hrestores : m'.Restores (m.newObject (.exception e)).2) : (m'.release h).Restores m := by
  have hnow : m'.object? h.target = some ⟨.shared 1 0, .exception e⟩ := by
    rw [hrestores.object, object?_newObject, if_pos htarget]
  rw [release, releaseAll_cons]
  simp only [giveBack, Handle.edge, hnow, Nat.lt_irrefl, if_false, noteDestroyed,
    ObjectKind.weakTarget?, releaseWeak?, ObjectKind.edges, List.map_nil, List.reverse_nil,
    List.nil_append, releaseAll_nil]
  have hnext : m.objects.next ≤ m'.objects.next :=
    (by simp [newObject, addObject] : m.objects.next ≤ (m.newObject (.exception e)).2.objects.next).trans
      hrestores.next
  refine ⟨fun o => ?_, hrestores.thunks, hrestores.combinators, hrestores.drained,
    hrestores.drops, by simpa [removeObject] using hnext⟩
  rw [object?_removeObject]
  split
  · next heq => rw [heq, htarget, object?_nextObject]
  · next hne => rw [hrestores.object, object?_newObject, if_neg (htarget ▸ hne)]

theorem Whole.newException (hwhole : m.Whole) (e : EvalError) :
    (m.newObject (.exception e)).2.Whole := by
  have hlive : ∀ cell, m.IsLive cell → (m.newObject (.exception e)).2.IsLive cell := by
    rintro (o | t | c) h
    · rw [IsLive, object?_newObject]
      split
      · rfl
      · exact h
    · simpa [IsLive] using h
    · simpa [IsLive] using h
  have hkinds : ∀ o kind, (m.newObject (.exception e)).2.kindOf? o = some kind →
      kind = .exception e ∨ m.kindOf? o = some kind := by
    intro o kind hkind
    rw [kindOf?, object?_newObject] at hkind
    split at hkind
    · exact .inl (Option.some.inj hkind).symm
    · exact .inr hkind
  constructor
  · intro o strong weak kind hget
    rw [object?_newObject] at hget
    split at hget
    · cases hget
      exact Nat.one_pos
    · exact hwhole.positive o strong weak kind hget
  · intro o kind hkind cell hcell
    rcases hkinds o kind hkind with rfl | hkind
    · simp [ObjectKind.edges] at hcell
    · exact hlive cell (hwhole.object o kind hkind cell hcell)
  · intro t state hstate cell hcell
    rw [stateOf?, thunk?_newObject] at hstate
    exact hlive cell (hwhole.thunk t state hstate cell hcell)
  · intro o c hkind
    rcases hkinds o _ hkind with h | hkind
    · cases h
    · exact hwhole.proper o c hkind

/-- `h` has been taken for a look at `m`: it leads to a cell that others hold, or it is an exception.
Where everything else has been given back, it can be given back as well. -/
structure Takes (m : Heap) (h : Handle) (m₁ : Heap) : Prop where
  whole : m₁.Whole
  sight : h.isException = true ∨ m₁.LooksLike m ∧ m.IsLive h.edge
  back : ∀ m₂ : Heap, m₂.Restores m₁ → (m₂.release h).Restores m

theorem takes_retain (hwhole : m.Whole) (hlive : m.IsLive h.edge) : m.Takes h (m.retain h) :=
  ⟨hwhole.retain h, .inr ⟨looksLike_retain m h, hlive⟩, fun _ => restores_release_retain hwhole hlive⟩

theorem Takes.asCached (htakes : m.Takes h m₁) : m.Takes h.asCached m₁ := by
  have hedge : h.asCached.edge = h.edge := by simp [Handle.edge]
  refine ⟨htakes.whole, ?_, fun m₂ hback => ?_⟩
  · rw [Handle.isException_asCached, hedge]
    exact htakes.sight
  · rw [release, hedge]
    exact htakes.back m₂ hback

theorem takes_exception (hwhole : m.Whole) (e : EvalError) :
    m.Takes ⟨.exception, m.nextObject⟩ (m.newObject (.exception e)).2 :=
  ⟨hwhole.newException e, .inl rfl, fun _ => restores_release_exception rfl⟩

end Heap

/-- As far as types are concerned, the handle is what there is in a slot or a node: it has the same
target and is an exception in the same cases, and it is an exception where there is nothing. -/
def Handle.StandsFor (h : Handle) : Option Handle → Prop
  | none => h.isException = true
  | some h' => h.target = h'.target ∧ h.isException = h'.isException

theorem Handle.StandsFor.asCached {h : Handle} {p : Option Handle} (hstands : h.StandsFor p) :
    h.asCached.StandsFor p := by
  cases p with
  | none => exact h.isException_asCached.trans hstands
  | some h' => exact ⟨h.target_asCached.trans hstands.1, h.isException_asCached.trans hstands.2⟩

namespace Run

open Heap

variable {s : Machine} {t : ThunkId} {o : ObjectId} {h : Handle}

theorem newException_run (e : EvalError) (s : Machine) :
    newException e s =
      .ok ⟨.exception, s.heap.nextObject⟩ { s with heap := (s.heap.newObject (.exception e)).2 } := rfl

theorem upgrade_run (o : ObjectId) (hwhole : s.heap.Whole) :
    ∃ h m, upgrade o s = .ok h { s with heap := m } ∧ s.heap.Takes h m ∧
      h.StandsFor (if s.heap.isAlive o then some (.plain o) else none) := by
  by_cases halive : s.heap.isAlive o = true
  · refine ⟨.plain o, _, ?_, takes_retain hwhole halive, by simp [halive, Handle.StandsFor]⟩
    simp [upgrade, bind_run, halive]
  · refine ⟨_, _, ?_, takes_exception hwhole .releasedSelfReference,
      by simp [halive, Handle.StandsFor]; rfl⟩
    simp [upgrade, bind_run, halive, newException_run]

theorem peek_run (hwhole : s.heap.Whole) (hlive : s.heap.IsLive (.thunk t)) :
    ∃ h m, t.peek s = .ok h { s with heap := m } ∧ s.heap.Takes h m ∧
      h.StandsFor (s.heap.slotHandle? t) := by
  obtain ⟨state, hstate⟩ : ∃ state, s.heap.stateOf? t = some state := by
    simpa [IsLive, stateOf?, Option.isSome_iff_exists] using hlive
  have hstate' : (s.heap.thunk? t).map Thunk.state = some state := hstate
  have hparts := hwhole.thunk t state hstate
  cases state with
  | pending h | forced h =>
    refine ⟨h, _, ?_, takes_retain hwhole (hparts h.edge (by simp [ThunkState.edges])), ?_⟩
    · simp [ThunkId.peek, ThunkId.state?, bind_run, hstate']
    · simp [slotHandle?, hstate', Handle.StandsFor]
  | recursive target =>
    obtain ⟨h, m, hrun, htakes, hstands⟩ := upgrade_run target hwhole
    refine ⟨h, m, ?_, htakes, ?_⟩
    · simp [ThunkId.peek, ThunkId.state?, bind_run, hstate', hrun]
    · simpa [slotHandle?, hstate'] using hstands

theorem snapshot_pending_run {f x : Handle} (hwhole : s.heap.Whole)
    (hkind : s.heap.kindOf? o = some (.application (.pending f x))) :
    ∃ m, (Application.pending f x).snapshot s = .ok (.pending f x) { s with heap := m } ∧ m.Whole ∧
      m.LooksLike s.heap ∧ s.heap.IsLive f.edge ∧ s.heap.IsLive x.edge ∧
      ∀ m' : Heap, m'.Restores m → ((m'.release x).release f).Restores s.heap := by
  have hparts := hwhole.object o _ hkind
  have hfunction : s.heap.IsLive f.edge := hparts _ (by simp [ObjectKind.edges])
  have hargument : s.heap.IsLive x.edge := hparts _ (by simp [ObjectKind.edges])
  have hfirst := takes_retain hwhole hfunction
  have hsecond := takes_retain hfirst.whole (((looksLike_retain _ f).isLive _).2 hargument)
  refine ⟨(s.heap.retain f).retain x, ?_, hsecond.whole,
    (looksLike_retain _ x).trans (looksLike_retain _ f),
    hfunction, hargument, fun m' hback => hfirst.back _ (hsecond.back _ hback)⟩
  simp only [Application.snapshot, bind_run, share_run, pure_run]

theorem snapshot_reduced_run {a : Application} (hwhole : s.heap.Whole)
    (hkind : s.heap.kindOf? o = some (.application a)) (hreduced : ∀ f x, a ≠ .pending f x) :
    ∃ r m p, a.snapshot s = .ok (.reduced r) { s with heap := m } ∧ s.heap.Takes r m ∧
      s.heap.parts (.application a) = [p] ∧ r.StandsFor p := by
  have hparts := hwhole.object o _ hkind
  cases a with
  | pending f x => exact absurd rfl (hreduced f x)
  | reduced r =>
    refine ⟨r, _, _, ?_, takes_retain hwhole (hparts r.edge (by simp [ObjectKind.edges])), rfl, rfl, rfl⟩
    simp [Application.snapshot, bind_run]
  | knot k =>
    cases k with
    | unresolved =>
      refine ⟨_, _, _, ?_, takes_exception hwhole .blackHole, rfl, by rfl⟩
      simp [Application.snapshot, Knot.reduced, Knot.value?, bind_run, newException_run]
    | strong h =>
      have hlive : s.heap.IsLive h.edge := hparts h.edge (by simp [ObjectKind.edges, Knot.edges])
      refine ⟨h.asCached, _, _, ?_, (takes_retain hwhole hlive).asCached, rfl, by simp,
        h.isException_asCached⟩
      simp only [Application.snapshot, Knot.reduced, Knot.value?, bind_run, share_run, pure_run]
    | weak target =>
      obtain ⟨h, m, hrun, htakes, hstands⟩ := upgrade_run target hwhole
      refine ⟨h.asCached, m, _, ?_, htakes.asCached, rfl, hstands.asCached⟩
      simp only [Application.snapshot, Knot.reduced, Knot.value?, bind_run, hrun, pure_run]

end Run

end GraphReduction
