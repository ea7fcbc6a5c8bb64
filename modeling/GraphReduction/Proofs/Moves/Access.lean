import Mathlib
import GraphReduction.Proofs.Moves.Kept

/-! What can be got hold of depends on contents only, grows with what is held and lent, and is
there. -/
namespace GraphReduction

namespace Heap

variable {m m' : Heap} {lent lent' : Set Edge} {own own' rest : Multiset Holding} {r : Holding}

theorem application?_congr (hsame : m'.contents = m.contents) (h : Handle) :
    m'.application? h = m.application? h := by
  have hkind := kindOf?_congr hsame h.target
  simp only [kindOf?] at hkind
  simp [application?, plainKind?, kind?, hkind]

theorem isKnot_congr (hsame : m'.contents = m.contents) (h : Handle) : m'.isKnot h = m.isKnot h := by
  simp only [isKnot, application?_congr hsame]

theorem backEdge?_congr (hsame : m'.contents = m.contents) (t : ThunkId) :
    m'.backEdge? t = m.backEdge? t := by
  have halive : ∀ o, m'.isAlive o = m.isAlive o := fun o => by
    have h := congrArg Option.isSome (kindOf?_congr hsame o)
    simpa [kindOf?, isAlive] using h
  simp only [backEdge?, stateOf?_congr hsame, halive, application?_congr hsame]

theorem hides_congr (hsame : m'.contents = m.contents) (cell : Edge) (r : Holding) :
    m'.Hides cell r ↔ m.Hides cell r := by
  simp only [Hides, kindOf?_congr hsame, backEdge?_congr hsame]

namespace Access

theorem congr (h : m.Access lent own r) (hsame : m'.contents = m.contents) :
    m'.Access lent own r := by
  induction h with
  | own hr => exact .own hr
  | lent hcell => exact .lent hcell
  | library p => exact .library p
  | inside _ hr hopen ih =>
    exact ih.inside (holds_congr hsame _ ▸ hr) (mt (hides_congr hsame _ _).mp hopen)
  | back _ hc ht hback ih =>
    exact ih.back (kindOf?_congr hsame _ ▸ hc) ht (backEdge?_congr hsame _ ▸ hback)

theorem mono (h : m.Access lent own r) (hlent : lent ⊆ lent') (hown : own ≤ own') :
    m.Access lent' own' r := by
  induction h with
  | own hr => exact .own (Multiset.mem_of_le hown hr)
  | lent hcell => exact .lent (hlent hcell)
  | library p => exact .library p
  | inside _ hr hopen ih => exact ih.inside hr hopen
  | back _ hc ht hback ih => exact ih.back hc ht hback

theorem cons (h : m.Access lent own r) (r' : Holding) : m.Access lent (r' ::ₘ own) r :=
  h.mono le_rfl (Multiset.le_cons_self own r')

theorem of_kind {o : ObjectId} {kind : ObjectKind} (h : m.Access lent own (.strong (.object o)))
    (hkind : m.kindOf? o = some kind) (hr : r ∈ kind.holdings) (hopen : ∀ c, kind ≠ .closure c) :
    m.Access lent own r := by
  refine h.inside (by rwa [holds_of_kindOf? hkind]) ?_
  rintro ⟨f, c, t, heq, hc, -⟩
  cases heq
  exact hopen c (Option.some.inj (hkind.symm.trans hc))

theorem of_state {t : ThunkId} {state : ThunkState} (h : m.Access lent own (.strong (.thunk t)))
    (hstate : m.stateOf? t = some state) (hr : r ∈ state.holdings) : m.Access lent own r := by
  refine h.inside (by rwa [holds_of_stateOf? hstate]) ?_
  rintro ⟨f, c, t, heq, -⟩
  cases heq

theorem of_closure {o : ObjectId} {c : Closure} (h : m.Access lent own (.strong (.object o)))
    (hkind : m.kindOf? o = some (.closure c)) (hr : r ∈ (ObjectKind.closure c).holdings)
    (hopen : c.isSaturated = true ∨ ∀ t, r = .strong (.thunk t) → m.backEdge? t = none) :
    m.Access lent own r := by
  refine h.inside (by rwa [holds_of_kindOf? hkind]) ?_
  rintro ⟨f, d, t, heq, hd, hunsaturated, rfl, hback⟩
  cases heq
  rw [hkind] at hd
  cases hd
  rcases hopen with hsaturated | hnone
  · rw [hsaturated] at hunsaturated
    cases hunsaturated
  · rw [hnone t rfl] at hback
    cases hback

theorem of_combinator {c : CombinatorId} (h : m.Access lent own (.strong (.combinator c)))
    (hr : r ∈ m.holds (.combinator c)) : m.Access lent own r := by
  refine h.inside hr ?_
  rintro ⟨f, d, t, heq, -⟩
  cases heq

end Access

theorem holds_combinator {c : CombinatorId} {body : Body Handle} (h : m.bodyOf? c = some body) :
    m.holds (.combinator c) =
      ↑(body.captures.map Handle.holding ++ body.raises.map Holding.error) := by
  obtain ⟨x, hx, rfl⟩ := Option.map_eq_some_iff.mp h
  simp [holds, hx, Combinator.holdings]

end Heap

end GraphReduction
