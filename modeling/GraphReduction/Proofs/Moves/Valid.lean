import Mathlib
import GraphReduction.Proofs.Moves.Basic

/-! Valid heaps: exact counts, closures in order, and the primitives in their places. Moves keep a
heap valid, whatever else holds references. -/
namespace GraphReduction

namespace Heap

def combinatorOf? (m : Heap) (c : CombinatorId) : Option Combinator :=
  (m.combinator? c).map HeldCombinator.combinator

def bodyOf? (m : Heap) (c : CombinatorId) : Option (Body Handle) :=
  (m.combinator? c).map fun x => x.combinator.body

/-- The closures of the primitives are there for good: they are static. -/
def Library (m : Heap) : Prop :=
  ∀ p : Primitive, m.IsLive (.object ⟨p.place⟩) ∧
    m.recorded (.strong (.object ⟨p.place⟩)) = none

structure Valid (m : Heap) (own : Multiset Holding) : Prop where
  counted : m.Counted own
  library : m.Library
  proper : ∀ o c, m.kindOf? o = some (.closure c) → c.Proper

variable {m m' : Heap} {own own' : Multiset Holding}

theorem kindOf?_congr (hsame : m'.contents = m.contents) (o : ObjectId) :
    m'.kindOf? o = m.kindOf? o := kind?_congr hsame o

theorem stateOf?_congr (hsame : m'.contents = m.contents) (t : ThunkId) :
    m'.stateOf? t = m.stateOf? t := state?_congr hsame t

theorem bodyOf?_congr (hsame : m'.contents = m.contents) (c : CombinatorId) :
    m'.bodyOf? c = m.bodyOf? c := by
  have := congrArg (Option.map Combinator.body) (combinator?_congr hsame c)
  simpa [bodyOf?, Function.comp_def] using this

theorem isLive_of_kindOf? {o : ObjectId} {kind : ObjectKind} (h : m.kindOf? o = some kind) :
    m.IsLive (.object o) := by
  obtain ⟨x, hx, -⟩ := Option.map_eq_some_iff.mp h
  simp [IsLive, hx]

theorem holds_of_kindOf? {o : ObjectId} {kind : ObjectKind} (h : m.kindOf? o = some kind) :
    m.holds (.object o) = kind.holdings := by
  obtain ⟨x, hx, rfl⟩ := Option.map_eq_some_iff.mp h
  simp [holds, hx]

theorem holds_of_stateOf? {t : ThunkId} {state : ThunkState} (h : m.stateOf? t = some state) :
    m.holds (.thunk t) = state.holdings := by
  obtain ⟨x, hx, rfl⟩ := Option.map_eq_some_iff.mp h
  simp [holds, hx]

theorem Counted.live_of_kind {o : ObjectId} {kind : ObjectKind} {cell : Edge} (h : m.Counted own)
    (hkind : m.kindOf? o = some kind) (hpart : .strong cell ∈ kind.holdings) : m.IsLive cell :=
  h.live_of_owns (a := .object o) (by rwa [Owns, holds_of_kindOf? hkind])

theorem Counted.live_of_state {t : ThunkId} {state : ThunkState} {cell : Edge} (h : m.Counted own)
    (hstate : m.stateOf? t = some state) (hpart : .strong cell ∈ state.holdings) : m.IsLive cell :=
  h.live_of_owns (a := .thunk t) (by rwa [Owns, holds_of_stateOf? hstate])

theorem holdings_subset_held {o : ObjectId} {kind : ObjectKind} (hkind : m.kindOf? o = some kind) :
    kind.holdings ⊆ m.held := by
  rw [← holds_of_kindOf? hkind]
  exact Multiset.subset_of_le (holds_le_held m _)

theorem holdings_subset_held_state {t : ThunkId} {state : ThunkState}
    (hstate : m.stateOf? t = some state) : state.holdings ⊆ m.held := by
  rw [← holds_of_stateOf? hstate]
  exact Multiset.subset_of_le (holds_le_held m _)

theorem holdings_subset_held_combinator {c : CombinatorId} {k : Combinator}
    (hk : m.combinatorOf? c = some k) : k.holdings ⊆ m.held := by
  obtain ⟨x, hx, rfl⟩ := Option.map_eq_some_iff.1 hk
  have hholds : m.holds (.combinator c) = x.combinator.holdings := by simp [holds, hx]
  rw [← hholds]
  exact Multiset.subset_of_le (holds_le_held m _)

namespace Library

theorem live (h : m.Library) (p : Primitive) : m.IsLive (.object ⟨p.place⟩) := (h p).1

theorem transfer (h : m.Library)
    (hkept : ∀ cell, m.IsLive cell → m.recorded (.strong cell) = none →
      m'.IsLive cell ∧ m'.recorded (.strong cell) = none) : m'.Library :=
  fun p => hkept _ (h p).1 (h p).2

end Library

namespace Valid

theorem of_contents (h : m.Valid own) (hsame : m'.contents = m.contents)
    (hcounted : m'.Counted own')
    (hrecorded : ∀ cell, m.recorded (.strong cell) = none → m'.recorded (.strong cell) = none) :
    m'.Valid own' where
  counted := hcounted
  library := h.library.transfer fun cell hlive hnone =>
    ⟨(isLive_congr hsame cell).mpr hlive, hrecorded cell hnone⟩
  proper o c hkind := h.proper o c (kindOf?_congr hsame o ▸ hkind)

theorem retainEdge {cell : Edge} (h : m.Valid own) (hlive : m.IsLive cell) :
    (m.retainEdge cell).Valid (.strong cell ::ₘ own) :=
  h.of_contents (contents_retainEdge m cell) (h.counted.retainEdge hlive) fun c hc => by
    rw [recorded_retainEdge]
    split <;> simp [hc]

theorem retainWeak {o : ObjectId} (h : m.Valid own) (halloc : m.Allocated (.object o)) :
    (m.retainWeak o).Valid (.weak o ::ₘ own) :=
  h.of_contents (contents_retainWeak m o) (h.counted.retainWeak halloc) fun c hc => by
    simpa [recorded_retainWeak] using hc

theorem releaseWeak {o : ObjectId} (h : m.Valid (.weak o ::ₘ own)) :
    (m.releaseWeak o).Valid own :=
  h.of_contents (contents_releaseWeak m o) h.counted.releaseWeak fun c hc => by
    simpa [recorded_releaseWeak] using hc

theorem errors (errors : List EvalError) :
    m.Valid (↑(errors.map Holding.error) + own) ↔ m.Valid own :=
  ⟨fun h => ⟨(Counted.errors errors).mp h.counted, h.library, h.proper⟩,
    fun h => ⟨(Counted.errors errors).mpr h.counted, h.library, h.proper⟩⟩

theorem error (e : EvalError) : m.Valid (.error e ::ₘ own) ↔ m.Valid own :=
  errors [e]

theorem of_sameCells (h : m.Valid own) (hsame : m'.SameCells m) : m'.Valid own :=
  h.of_contents hsame.contents (h.counted.of_sameCells hsame) fun cell hc => by
    rwa [hsame.recorded]

theorem kindOf?_removeEdge (m : Heap) (cell : Edge) (o : ObjectId) :
    (m.removeEdge cell).kindOf? o = if cell = .object o then none else m.kindOf? o := by
  cases cell <;> simp [Heap.removeEdge, kindOf?]
  split <;> simp_all [eq_comm]

theorem bodyOf?_removeEdge (m : Heap) (cell : Edge) (c : CombinatorId) :
    (m.removeEdge cell).bodyOf? c = if cell = .combinator c then none else m.bodyOf? c := by
  cases cell <;> simp [Heap.removeEdge, bodyOf?]
  split <;> simp_all [eq_comm]

theorem removeEdge {cell : Edge} (h : m.Valid (.strong cell ::ₘ own))
    (hlast : m.recorded (.strong cell) = some 1) :
    (m.removeEdge cell).Valid (m.holds cell + own) where
  counted := h.counted.removeEdge hlast
  library := h.library.transfer fun c hlive hnone => by
    have hne : c ≠ cell := by
      rintro rfl
      simp [hnone] at hlast
    exact ⟨(isLive_removeEdge m cell c).mpr ⟨hne, hlive⟩,
      by simp [recorded_removeEdge, hne, hnone]⟩
  proper o c hkind := by
    rw [kindOf?_removeEdge] at hkind
    split at hkind
    · cases hkind
    · exact h.proper o c hkind

theorem giveBack {loose : Loose} (h : m.Valid (loose.holding ::ₘ own)) :
    (m.giveBack loose).1.Valid (↑((m.giveBack loose).2.map Loose.holding) + own) := by
  have hcounted := h.counted.giveBack
  obtain ⟨hnone, heq⟩ | ⟨n, hn, hmany, heq⟩ | ⟨n, hn, hlast, hsame, hedges⟩ :=
    m.giveBack_cases loose
  · rw [heq] at hcounted ⊢
    exact h.of_contents rfl hcounted fun _ hc => hc
  · rw [heq] at hcounted ⊢
    refine h.of_contents (contents_loseEdge m _) hcounted fun c hc => ?_
    rw [recorded_loseEdge]
    split <;> simp [hc]
  · have hone : n = 1 := by
      have := h.counted.positive _ _ hn
      omega
    subst hone
    have hremoved := h.removeEdge hn
    have hweak : ((m.removeEdge loose.edge).releaseWeak? (m.weakTarget? loose.edge)).contents =
        (m.removeEdge loose.edge).contents := by
      cases m.weakTarget? loose.edge <;> simp [Heap.releaseWeak?]
    refine hremoved.of_contents (hsame.contents.trans hweak) hcounted fun c hc => ?_
    rw [hsame.recorded]
    cases m.weakTarget? loose.edge <;>
      simp [Heap.releaseWeak?, recorded_releaseWeak, hc]

theorem releaseAll {pending : List Loose} (h : m.Valid (↑(pending.map Loose.holding) + own)) :
    (m.releaseAll pending).Valid own := by
  have hend := releaseAll_invariant
    (P := fun m pending => m.Valid (↑(pending.map Loose.holding) + own)) (fun m loose rest h => ?_) h
  · simpa using hend
  · simp only [List.map_cons, ← Multiset.cons_coe, Multiset.cons_add] at h
    have hnext := h.giveBack
    rwa [List.map_append, List.map_reverse, ← Multiset.coe_add, Multiset.coe_reverse, add_assoc]

theorem release {h : Handle} (hvalid : m.Valid (h.holding ::ₘ own)) : (m.release h).Valid own :=
  releaseAll (by simpa [Loose.holding, Handle.holding] using hvalid)

theorem grow {cell : Edge} {content : Multiset Holding} (h : m.Valid (content + own))
    (hgrows : m.Grows m' cell content)
    (hkind : ∀ o, cell ≠ .object o → m'.kindOf? o = m.kindOf? o)
    (hproper : ∀ o c, cell = .object o → m'.kindOf? o = some (.closure c) → c.Proper) :
    m'.Valid (.strong cell ::ₘ own) where
  counted := h.counted.grow hgrows
  library := h.library.transfer fun c hlive hnone => by
    have hne : c ≠ cell := by
      rintro rfl
      exact hgrows.fresh hlive.allocated
    refine ⟨(hgrows.isLive c).mpr (.inr hlive), ?_⟩
    rw [hgrows.recorded _ (by simpa using hne), hnone]
  proper o c hc := by
    by_cases ho : cell = .object o
    · exact hproper o c ho hc
    · exact h.proper o c (hkind o ho ▸ hc)

theorem newObject {kind : ObjectKind} (h : m.Valid (kind.holdings + own))
    (hproper : ∀ c, kind = .closure c → c.Proper) :
    (m.newObject kind).2.Valid (.strong (.object m.nextObject) ::ₘ own) := by
  refine h.grow (grows_newObject m kind) (fun o ho => ?_) ?_
  · have hne : o ≠ m.nextObject := fun heq => ho (heq ▸ rfl)
    simp [kindOf?, hne]
  · rintro o c heq hc
    cases heq
    exact hproper c (by simpa [kindOf?] using hc)

theorem newStatic {kind : ObjectKind} (h : m.Valid (kind.holdings + own))
    (hproper : ∀ c, kind = .closure c → c.Proper) :
    (m.newStatic kind).2.Valid (.strong (.object m.nextObject) ::ₘ own) := by
  refine h.grow (grows_newStatic m kind) (fun o ho => ?_) ?_
  · have hne : o ≠ m.nextObject := fun heq => ho (heq ▸ rfl)
    simp [kindOf?, hne]
  · rintro o c heq hc
    cases heq
    exact hproper c (by simpa [kindOf?] using hc)

theorem newThunk {state : ThunkState} (h : m.Valid (state.holdings + own)) :
    (m.newThunk state).2.Valid (.strong (.thunk (m.newThunk state).1) ::ₘ own) :=
  h.grow (grows_newThunk m state) (fun o _ => by simp [kindOf?]) (fun o c heq => by cases heq)

theorem newCombinator {k : Combinator} (h : m.Valid (k.holdings + own)) :
    (m.newCombinator k).2.Valid (.strong (.combinator (m.newCombinator k).1) ::ₘ own) :=
  h.grow (grows_newCombinator m k) (fun o _ => by simp [kindOf?]) (fun o c heq => by cases heq)

theorem kindOf?_setKind (m : Heap) (o p : ObjectId) (kind : ObjectKind) :
    (m.setKind o kind).kindOf? p = if p = o then (m.kindOf? p).map fun _ => kind else m.kindOf? p := by
  simp only [kindOf?, object?_setKind]
  split <;> simp [Function.comp_def]

theorem setKind {o : ObjectId} {kind kind' : ObjectKind} (h : m.Valid own)
    (hkind : m.kindOf? o = some kind)
    (hproper : ∀ c, kind' = .closure c → c.Proper)
    (hown : kind'.holdings + own' = kind.holdings + own) : (m.setKind o kind').Valid own' := by
  obtain ⟨x, hx, rfl⟩ := Option.map_eq_some_iff.mp hkind
  have hwrites := writes_setKind hx kind'
  constructor
  · exact h.counted.write hwrites (by rw [hown, holds_of_kindOf? hkind])
  · exact h.library.transfer fun cell hlive hnone =>
      ⟨(hwrites.isLive cell).mpr hlive, (hwrites.recorded _).trans hnone⟩
  · intro p c hc
    rw [kindOf?_setKind] at hc
    split at hc
    · obtain ⟨-, -, hc⟩ := Option.map_eq_some_iff.mp hc
      exact hproper c hc
    · exact h.proper p c hc

theorem setThunkState {t : ThunkId} {state state' : ThunkState} (h : m.Valid own)
    (hstate : m.stateOf? t = some state)
    (hown : state'.holdings + own' = state.holdings + own) :
    (m.setThunkState t state').Valid own' := by
  obtain ⟨x, hx, rfl⟩ := Option.map_eq_some_iff.mp hstate
  have hwrites := writes_setThunkState hx state'
  constructor
  · exact h.counted.write hwrites (by rw [hown, holds_of_stateOf? hstate])
  · exact h.library.transfer fun cell hlive hnone =>
      ⟨(hwrites.isLive cell).mpr hlive, (hwrites.recorded _).trans hnone⟩
  · intro p c hc
    exact h.proper p c (by simpa [kindOf?] using hc)

theorem releases {gone : List Handle} (h : m.Valid (↑(gone.map Handle.holding) + own)) :
    (gone.foldl (·.release ·) m).Valid own := by
  induction gone generalizing m with
  | nil => simpa using h
  | cons g gone ih =>
    simp only [List.map_cons, ← Multiset.cons_coe, Multiset.cons_add] at h
    exact ih h.release

theorem holdings_memo (c : Closure) (memo : Memo) :
    (ObjectKind.closure { c with memo }).holdings =
      ↑(memo.result?.toList.map Handle.holding) +
        (ObjectKind.closure { c with memo := .empty }).holdings := by
  simp only [ObjectKind.holdings_closure, Closure.arguments, Memo.result?, ← Multiset.coe_add,
    Option.toList_none, List.map_nil, Multiset.coe_nil, add_zero, Multiset.add_cons]
  rw [add_comm]

theorem setMemo {o : ObjectId} {c : Closure} {memo : Memo} (h : m.Valid own)
    (hkind : m.kindOf? o = some (.closure c))
    (hown : ↑(memo.result?.toList.map Handle.holding) + own' =
      ↑(c.memo.result?.toList.map Handle.holding) + own) : (m.setMemo o memo).Valid own' := by
  obtain ⟨x, hx, hc⟩ := Option.map_eq_some_iff.mp hkind
  rw [setMemo_eq hx hc]
  refine h.setKind hkind ?_ ?_
  · rintro _ ⟨⟩
    exact h.proper o c hkind
  · have hc := holdings_memo c c.memo
    rw [holdings_memo, hc, add_right_comm, hown, add_right_comm]

theorem bindSelf {fresh : Closure} (h : m.Valid ((ObjectKind.closure fresh).holdings + own))
    (hproper : fresh.Proper) (hmissing : 1 < fresh.missing) :
    (m.bindSelf fresh).Valid (.strong (.object m.nextObject) ::ₘ own) := by
  -- the same heap, with the closure made before the thunk that refers to it
  have hother : m.bindSelf fresh =
      (((m.newObject (.closure fresh)).2.retainWeak m.nextObject).newThunk
        (.recursive m.nextObject)).2.setKind m.nextObject
          (.closure (fresh.fill (m.newThunk (.recursive m.nextObject)).1)) := by
    simp only [Heap.bindSelf, Heap.newThunk, Heap.newObject, Heap.addObject, Heap.retainWeak,
      Heap.setKind, nextObject, Arena.update_add]
    rfl
  rw [hother]
  have hmade := h.newObject (fun c hc => by cases hc; exact hproper)
  have hweak := hmade.retainWeak (o := m.nextObject) (by
    rw [(grows_newObject m _).allocated]
    exact .inl rfl)
  have hthunk := @Valid.newThunk _ (.strong (.object m.nextObject) ::ₘ own)
    (.recursive m.nextObject) (by rwa [ThunkState.holdings_recursive, Multiset.singleton_add])
  refine hthunk.setKind (show _ = some (ObjectKind.closure fresh) from ?_) ?_ ?_
  · simp [kindOf?, Object.kind_retainWeak]
  · rintro c ⟨⟩
    exact hproper.fill (by omega) _
  · rw [Closure.holdings_fill hproper (by omega), Multiset.cons_add, Multiset.add_cons]
    simp [Heap.newObject, Heap.addObject, Heap.retainWeak]

theorem recorded_of_isStatic {h : Handle} (hstatic : m.isStatic h = true) :
    m.recorded h.holding = none := by
  simp only [isStatic, Option.getD_eq_iff] at hstatic
  obtain hx | ⟨-, hfalse⟩ := hstatic
  · obtain ⟨x, hx, hxs⟩ := Option.map_eq_some_iff.mp hx
    simp only [Handle.holding, Handle.edge, recorded, hx, Option.bind_some]
    cases hhold : x.hold <;> simp_all [Object.isStatic, Hold.strong?]
  · cases hfalse

theorem tie {knot : ObjectId} {value : Handle} (h : m.Valid own)
    (hknot : m.kindOf? knot = some (.application (.knot .unresolved)))
    (hlive : m.IsLive value.edge) : (m.tie knot value).Valid own := by
  simp only [Heap.tie]
  split
  · next hstatic =>
    have hmore : m.Valid (value.holding ::ₘ own) :=
      ⟨h.counted.remember hlive (recorded_of_isStatic hstatic), h.library, h.proper⟩
    exact hmore.setKind hknot (fun c heq => by cases heq) (by simp)
  · have hmore := h.retainWeak (o := value.target) hlive.allocated
    exact hmore.setKind (kindOf?_congr (contents_retainWeak m _) knot ▸ hknot)
      (fun c heq => by cases heq) (by simp)

/-! Where the courses that end in a memo begin -/

theorem takeOperands {o : ObjectId} {f x : Handle} (h : m.Valid own)
    (hkind : m.kindOf? o = some (.application (.pending f x))) :
    ((m.retainEdge f.edge).retainEdge x.edge).Valid ({f.holding, x.holding} + own) := by
  have hf : m.IsLive f.edge := h.counted.live_of_kind hkind (by simp [Handle.holding])
  have hx : m.IsLive x.edge := h.counted.live_of_kind hkind (by simp [Handle.holding])
  have htaken := @Valid.retainEdge _ _ x.edge (h.retainEdge hf)
    ((isLive_congr (contents_retainEdge _ _) _).mpr hx)
  simpa [Handle.holding, Multiset.cons_swap] using htaken

theorem takeSuspended {t : ThunkId} {x : Handle} (h : m.Valid own)
    (hstate : m.stateOf? t = some (.pending x)) :
    (m.retainEdge x.edge).Valid ({x.holding} + own) := by
  have hx : m.IsLive x.edge := h.counted.live_of_state hstate (by simp [Handle.holding])
  simpa [Handle.holding] using h.retainEdge hx

theorem startMemo {o : ObjectId} {c : Closure} (h : m.Valid own)
    (hkind : m.kindOf? o = some (.closure c)) (hmemo : c.memo = .empty) :
    (m.setMemo o .running).Valid own :=
  h.setMemo hkind (by simp [hmemo, Memo.result?])

theorem newKnot (h : m.Valid own) :
    (m.newObject (.application (.knot .unresolved))).2.Valid
      (.strong (.object m.nextObject) ::ₘ own) :=
  Valid.newObject (by simpa using h) (fun c heq => by cases heq)

theorem endTie {knot : ObjectId} {value : Handle} {gone : List Handle} {rest : Multiset Holding}
    (h : m.Valid (value.holding ::ₘ ↑(gone.map Handle.holding) + own + rest))
    (hknot : m.kindOf? knot = some (.application (.knot .unresolved)))
    (hlive : m.IsLive value.edge) :
    (m.tie knot value).Valid (↑(gone.map Handle.holding) + (value.holding ::ₘ own + rest)) := by
  convert h.tie hknot hlive using 1
  simp only [← Multiset.singleton_add]
  abel

end Valid

end Heap

namespace Moves

open Heap

variable {lent : Set Edge} {s s' : Machine} {own own' : Multiset Holding}

theorem valid (h : Moves lent s own s' own') (rest : Multiset Holding)
    (hvalid : s.heap.Valid (own + rest)) : s'.heap.Valid (own' + rest) := by
  induction h generalizing rest with
  | refl => exact hvalid
  | trans _ _ ih ih' => exact ih' rest (ih rest hvalid)
  | frame other _ ih =>
    rw [add_assoc] at hvalid ⊢
    exact ih _ hvalid
  | lend _ _ ih => exact ih rest hvalid
  | drawn => exact hvalid
  | noted => exact hvalid
  | raised e | copied e | dangled =>
    rw [Multiset.cons_add]
    exact (Valid.error _).mpr hvalid
  | forgot e =>
    rw [Multiset.cons_add] at hvalid
    exact (Valid.error _).mp hvalid
  | retain cell _ hlive =>
    rw [Multiset.cons_add]
    exact hvalid.retainEdge hlive
  | retainWeak o _ hkind =>
    rw [Multiset.cons_add]
    exact hvalid.retainWeak (hvalid.counted.allocated_of_weak (by rw [holds_of_kindOf? hkind]; simp))
  | releaseWeak o =>
    rw [Multiset.cons_add] at hvalid
    exact hvalid.releaseWeak
  | upgrade o _ hlive =>
    rw [Multiset.cons_add]
    exact hvalid.retainEdge hlive
  | dropped loose => exact Valid.releaseAll (by simpa using hvalid)
  | newObject kind hmakes =>
    rw [add_assoc] at hvalid
    rw [Multiset.cons_add]
    exact hvalid.newObject hmakes.proper
  | newThunk state =>
    rw [add_assoc] at hvalid
    rw [Multiset.cons_add]
    exact hvalid.newThunk
  | fill t hkind _ hmissing =>
    have hproper := hvalid.proper _ _ hkind
    refine hvalid.setKind hkind ?_ ?_
    · rintro c ⟨⟩
      exact hproper.fill hmissing t
    · rw [Closure.holdings_fill hproper hmissing]
      simp [add_comm, Multiset.cons_swap]
  | bindSelf fresh hproper hmissing =>
    rw [add_assoc] at hvalid
    rw [Multiset.cons_add]
    exact hvalid.bindSelf hproper hmissing
  | memoNode hkind _ hkind' ih =>
    rw [zero_add] at hvalid
    have hend := ih rest (hvalid.takeOperands hkind)
    refine hend.setKind hkind' (fun c heq => by cases heq) ?_
    simp only [ObjectKind.holdings_reduced, ObjectKind.holdings_pending,
      Multiset.insert_eq_cons, ← Multiset.singleton_add]
    abel
  | memoThunk hstate _ _ hstate' ih =>
    rw [zero_add] at hvalid
    have hend := ih rest (hvalid.takeSuspended hstate)
    refine hend.setThunkState hstate' ?_
    simp only [ThunkState.holdings_forced, ThunkState.holdings_pending, ← Multiset.singleton_add]
    abel
  | memoClosure hkind _ hmemo _ hkind' ih =>
    have hend := ih rest (hvalid.startMemo hkind hmemo)
    exact hend.setMemo hkind' (by simp [Memo.result?])
  | memoFailed hkind _ hmemo _ hkind' ih =>
    have hend := ih rest (hvalid.startMemo hkind hmemo)
    exact hend.setMemo hkind' (by simp [Memo.result?])
  | tied gone _ hknot hlive ih =>
    have hend := ih rest (by simpa using hvalid.newKnot)
    exact (hend.endTie hknot hlive).releases

end Moves

end GraphReduction
