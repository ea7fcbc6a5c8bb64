import Mathlib
import GraphReduction.Proofs.Heap.Reaches
import GraphReduction.Proofs.Moves.Advances
import GraphReduction.Proofs.Moves.Footprint
import GraphReduction.Proofs.Tags.Reduction

/-! What terms do not lead to. In a heap with the primitives in it, the cells that none of some terms
leads to are out of reach of everyone who holds nothing but those terms. -/
namespace GraphReduction

namespace Heap

/-- The primitives are as they were declared, and nobody has given them a result. -/
structure Intact (m : Heap) : Prop where
  closure : ∀ p : Primitive, m.kindOf? ⟨p.place⟩ = some (.closure (.bare ⟨p.place⟩ p.arity))
  body : ∀ p : Primitive, m.bodyOf? ⟨p.place⟩ = some p.body

def libraryCells : Set Edge :=
  { cell | ∃ p : Primitive, cell = .object ⟨p.place⟩ ∨ cell = .combinator ⟨p.place⟩ }

/-- What is there and none of the handles leads to. -/
def outOfReach (m : Heap) (hs : List Handle) : Set Edge :=
  { cell | m.Allocated cell ∧ cell ∉ libraryCells ∧ ∀ h ∈ hs, ¬ m.Reaches h cell }

variable {m m' m'' : Heap} {h : Handle} {hs : List Handle} {cell : Edge} {o : ObjectId}
  {own rest : Multiset Holding}

/-! What cells refer to -/

theorem Reaches.next (hcell : m.Reaches h cell) {r : Holding} (hr : r ∈ m.holds cell) {next : Edge}
    (hnext : r.target? = some next) : m.Reaches h next := by
  cases r with
  | strong c =>
    cases hnext
    exact .strong hcell (strong_mem_holds_iff.mp hr)
  | weak o =>
    cases hnext
    exact .weak hcell (weak_mem_holds_iff.mp hr)
  | error e => cases hnext

theorem Reaches.closed {P : Edge → Prop} (hcell : m.Reaches h cell) (hhere : P h.edge)
    (hnext : ∀ cell, P cell → ∀ r ∈ m.holds cell, ∀ next, r.target? = some next → P next) :
    P cell := by
  induction hcell with
  | here => exact hhere
  | strong _ hedge ih => exact hnext _ ih _ (strong_mem_holds_iff.mpr hedge) _ rfl
  | weak _ hweak ih => exact hnext _ ih _ (weak_mem_holds_iff.mpr hweak) _ rfl

theorem Reaches.trans {x : Handle} (hx : m.Reaches h x.edge) (hcell : m.Reaches x cell) :
    m.Reaches h cell :=
  hcell.closed hx fun _ hreached _ hr _ hnext => hreached.next hr hnext

theorem Reaches.allocated (hcell : m.Reaches h cell) (hcounted : m.Counted own)
    (hlive : m.IsLive h.edge) : m.Allocated cell := by
  refine hcell.closed hlive.allocated fun cell _ r hr next hnext => ?_
  cases r with
  | strong next' =>
    cases hnext
    exact (hcounted.live_of_owns hr).allocated
  | weak o =>
    cases hnext
    exact hcounted.allocated o (Multiset.mem_add.mpr (.inl (Multiset.mem_of_le
      (holds_le_held m cell) hr)))
  | error e => cases hnext

theorem Guarded.reaches {P : Set Edge} (hguarded : m.Guarded P) (hh : h.edge ∉ P)
    (hcell : m.Reaches h cell) : cell ∉ P :=
  hcell.closed hh fun cell hout r hr next hnext => hguarded.closed cell hout r hr next hnext

/-! Nothing has changed -/

theorem unchanged_iff :
    m.Unchanged m' h ↔ ∀ cell, m.Reaches h cell → m'.content? cell = m.content? cell := by
  constructor
  · intro hsame cell hcell
    cases cell with
    | object o => exact congrArg (Option.map Content.object) (hsame.object o hcell)
    | thunk t => exact congrArg (Option.map Content.thunk) (hsame.thunk t hcell)
    | combinator c => exact congrArg (Option.map Content.combinator) (hsame.combinator c hcell)
  · intro hsame
    exact ⟨fun o ho => kindOf?_of_content? (hsame _ ho),
      fun t ht => stateOf?_of_content? (hsame _ ht),
      fun c hc => combinatorOf?_of_content? (hsame _ hc)⟩

namespace Unchanged

theorem reaches (hsame : m.Unchanged m' h) (hcell : m'.Reaches h cell) : m.Reaches h cell :=
  hcell.closed .here fun _ hreached _ hr _ hnext =>
    hreached.next (holds_of_content? (unchanged_iff.mp hsame _ hreached) ▸ hr) hnext

theorem reaches' (hsame : m.Unchanged m' h) (hcell : m.Reaches h cell) : m'.Reaches h cell := by
  induction hcell with
  | here => exact .here
  | strong hbefore hedge ih =>
    rw [← strong_mem_holds_iff, ← holds_of_content? (unchanged_iff.mp hsame _ hbefore)] at hedge
    exact ih.next hedge rfl
  | weak hbefore hweak ih =>
    rw [← weak_mem_holds_iff, ← holds_of_content? (unchanged_iff.mp hsame _ hbefore)] at hweak
    exact ih.next hweak rfl

theorem trans (hsame : m.Unchanged m' h) (hsame' : m'.Unchanged m'' h) : m.Unchanged m'' h :=
  unchanged_iff.mpr fun cell hcell => (unchanged_iff.mp hsame' cell (hsame.reaches' hcell)).trans
    (unchanged_iff.mp hsame cell hcell)

theorem part {x : Handle} (hsame : m.Unchanged m' h) (hx : m.Reaches h x.edge) :
    m.Unchanged m' x :=
  unchanged_iff.mpr fun cell hcell => unchanged_iff.mp hsame cell (hx.trans hcell)

theorem of_contents (hsame : m'.contents = m.contents) : m.Unchanged m' h :=
  unchanged_iff.mpr fun cell _ => content?_congr hsame cell

end Unchanged

/-! The library -/

theorem object_mem_libraryCells : .object o ∈ libraryCells ↔ ∃ p : Primitive, o = ⟨p.place⟩ := by
  simp [libraryCells]

theorem not_mem_libraryCells {kind : ObjectKind} (hintact : m.Intact) (hkind : m.kindOf? o = some kind)
    (hother : ∀ p : Primitive, kind ≠ .closure (.bare ⟨p.place⟩ p.arity)) :
    .object o ∉ libraryCells := by
  rw [object_mem_libraryCells]
  rintro ⟨p, rfl⟩
  exact hother p (Option.some.inj (hkind.symm.trans (hintact.closure p)))

theorem thunk_not_mem_libraryCells (t : ThunkId) : .thunk t ∉ libraryCells := by
  simp [libraryCells]

namespace Intact

theorem holds_library (hintact : m.Intact) (hcell : cell ∈ libraryCells) {r : Holding}
    (hr : r ∈ m.holds cell) : ∃ next ∈ libraryCells, r = .strong next := by
  obtain ⟨p, rfl | rfl⟩ := hcell
  · rw [holds_of_kindOf? (hintact.closure p), ObjectKind.holdings_closure,
      Closure.arguments_bare] at hr
    exact ⟨.combinator ⟨p.place⟩, ⟨p, .inr rfl⟩, by simpa [Closure.bare, Memo.result?] using hr⟩
  · rw [holds_combinator (hintact.body p)] at hr
    simp at hr

theorem guarded (hintact : m.Intact) (hs : List Handle) : m.Guarded (m.outOfReach hs) where
  allocated cell hcell := hcell.1
  library p hin := hin.2.1 ⟨p, .inl rfl⟩
  closed cell hcell r hr next hnext hin := by
    by_cases hlibrary : cell ∈ libraryCells
    · obtain ⟨next', hnext', rfl⟩ := hintact.holds_library hlibrary hr
      cases hnext
      exact hin.2.1 hnext'
    · have halloc : m.Allocated cell := (isLive_of_holds hr).allocated
      obtain ⟨h, hh, hreached⟩ : ∃ h ∈ hs, m.Reaches h cell := by
        by_contra hnone
        push Not at hnone
        exact hcell ⟨halloc, hlibrary, hnone⟩
      exact hin.2.2 h hh (hreached.next hr hnext)

theorem moves {lent : Set Edge} {s s' : Machine} {own own' rest : Multiset Holding}
    (hintact : s.heap.Intact) (h : Moves lent s own s' own') (hvalid : s.heap.Valid (own + rest)) :
    s'.heap.Intact := by
  have hclosure : ∀ p : Primitive,
      s'.heap.kindOf? ⟨p.place⟩ = some (.closure (.bare ⟨p.place⟩ p.arity)) := by
    intro p
    -- a static object is as good as held
    have hheld : s.heap.Valid (own + .strong (.object ⟨p.place⟩) ::ₘ rest) := by
      rw [Multiset.add_cons]
      exact ⟨hvalid.counted.remember (hvalid.library p).1 (hvalid.library p).2, hvalid.library,
        hvalid.proper⟩
    obtain ⟨kind, hkind, memo, rfl, -⟩ := h.kind_kept _ hheld (Multiset.mem_cons_self _ _)
      (hintact.closure p)
    obtain ⟨c', heq, -, hsame⟩ :=
      ObjectKind.Advances.of_closure (h.advances.of_kind (hintact.closure p) hkind)
    cases heq
    rw [hkind, hsame rfl p.arity_pos]
  refine ⟨hclosure, fun p => ?_⟩
  have hlive : s'.heap.IsLive (.combinator ⟨p.place⟩) :=
    (h.valid rest hvalid).counted.live_of_kind (hclosure p)
      (by simp [ObjectKind.holdings_closure, Closure.bare])
  obtain ⟨x, hx⟩ := Option.isSome_iff_exists.mp hlive
  have hbody : s'.heap.bodyOf? ⟨p.place⟩ = some x.combinator.body := by simp [bodyOf?, hx]
  rw [hbody, ← hintact.body p, h.body_kept hbody]

theorem of_same (hintact : m.Intact)
    (hsame : ∀ cell ∈ libraryCells, m'.content? cell = m.content? cell) : m'.Intact where
  closure p := by rw [kindOf?_of_content? (hsame _ ⟨p, .inl rfl⟩), hintact.closure p]
  body p := by
    have hbody : ∀ m : Heap, m.bodyOf? ⟨p.place⟩ =
        (m.combinatorOf? ⟨p.place⟩).map Combinator.body := fun m => by
      simp [bodyOf?, combinatorOf?, Function.comp_def]
    rw [hbody, combinatorOf?_of_content? (hsame (.combinator ⟨p.place⟩) ⟨p, .inr rfl⟩), ← hbody,
      hintact.body p]

theorem of_contents (hintact : m.Intact) (hsame : m'.contents = m.contents) : m'.Intact :=
  hintact.of_same fun cell _ => content?_congr hsame cell

theorem isLive (hintact : m.Intact) (hcell : cell ∈ libraryCells) : m.IsLive cell := by
  obtain ⟨p, rfl | rfl⟩ := hcell
  · exact isLive_of_kindOf? (hintact.closure p)
  · have hbody := hintact.body p
    obtain ⟨x, hx, -⟩ := Option.map_eq_some_iff.mp hbody
    exact Option.isSome_iff_exists.mpr ⟨x, hx⟩

theorem content?_library {fixed : Set ObjectId} (hintact : m.Intact) (hintact' : m'.Intact)
    (hspares : Spares fixed m m') (hcell : cell ∈ libraryCells) :
    m'.content? cell = m.content? cell := by
  have halloc := (hintact.isLive hcell).allocated
  obtain ⟨p, rfl | rfl⟩ := hcell
  · rw [content?, content?, hintact.closure p, hintact'.closure p]
  · obtain ⟨k, hk⟩ := exists_combinatorOf? (hintact'.isLive ⟨p, .inr rfl⟩)
    rw [content?, content?, hk, hspares.combinator _ _ halloc hk]

end Intact

end Heap

open Heap

/-- Evaluation leaves alone what the handle does not lead to, whatever way it ends, and primitives in
any case. -/
theorem Evaluator.reduceUpTo_confined (options : Options) (depth : Nat) {s : Machine}
    (hup : s.heap.Upright rest) (hheld : h.holding ∈ rest) (hhonest : s.heap.Honest h)
    (hintact : s.heap.Intact) :
    let s' := ended (reduceUpTo options depth h s)
    s'.heap.Intact ∧ ∀ cell, s.heap.Allocated cell → s'.heap.Allocated cell ∧
      ((s.heap.Reaches h cell → cell ∈ libraryCells) →
        s'.heap.content? cell = s.heap.content? cell) := by
  have hvalid : s.heap.Valid (0 + rest) := by
    rw [zero_add]
    exact hup.valid
  have hmoves := reduceUpTo_sound options depth rest {h.edge} s h hheld rfl hvalid
  have hleaves := reduceUpTo_finishes options depth hup hheld hhonest
  have hlent : ∀ cell ∈ ({h.edge} : Set Edge), cell ∉ s.heap.outOfReach [h] := by
    rintro _ rfl hin
    exact hin.2.2 h (List.mem_singleton_self h) .here
  -- primitives are in everybody's reach, and nobody changes them
  have hcourse : ∀ {s' own'}, Moves {h.edge} s 0 s' own' →
      Spares (objectsOf rest) s.heap s'.heap → s'.heap.Intact ∧ ∀ cell, s.heap.Allocated cell →
        s'.heap.Allocated cell ∧ ((s.heap.Reaches h cell → cell ∈ libraryCells) →
          s'.heap.content? cell = s.heap.content? cell) := by
    intro s' own' hmoves hspares
    have hintact' := hintact.moves hmoves hvalid
    have hsame := (hmoves.confined rest hvalid (hintact.guarded [h]) hlent (by simp)).2.1
    refine ⟨hintact', fun cell halloc => ⟨hspares.allocated cell halloc, fun hout => ?_⟩⟩
    by_cases hlibrary : cell ∈ libraryCells
    · exact hintact.content?_library hintact' hspares hlibrary
    · refine hsame cell ⟨halloc, hlibrary, ?_⟩
      simpa using fun hreached => hlibrary (hout hreached)
  cases hrun : reduceUpTo options depth h s with
  | ok r s' =>
    rw [hrun] at hmoves hleaves
    exact hcourse hmoves hleaves.1
  | error signal s' =>
    rw [hrun] at hmoves hleaves
    exact hcourse hmoves hleaves.1

end GraphReduction
