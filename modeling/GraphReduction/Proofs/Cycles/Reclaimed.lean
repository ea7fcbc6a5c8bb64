import Mathlib
import GraphReduction.Proofs.Cycles.Untied

/-! Counting references is enough where no data is tied. Functions can be tied to themselves, terms
shared, bound, copied and evaluated in any order, and no cell ever comes to own itself. So whatever
is there is owned by somebody outside or by a static object, and when everybody outside has let go
only static objects and what they own are left. Nor does a self reference ever find nothing. -/
namespace GraphReduction

open Heap Run Relation

variable {m m' : Heap} {errors : Set EvalError} {own rest : Multiset Holding} {lent : Set Edge}
  {cell : Edge} {s s' : Machine} {w w' : Holder} {h r : Handle} {options : Options}

namespace Heap

theorem Counted.anchored (h : m.Counted own) (hacyclic : ∀ cell, ¬ TransGen m.Owns cell cell)
    (hlive : m.IsLive cell) : m.Anchored own cell := by
  refine owners_first hacyclic (fun cell hlive ih => ?_) hlive
  obtain hstatic | hown | ⟨owner, howns⟩ := h.owned cell
  · exact ⟨cell, .inr ⟨hlive, hstatic⟩, .refl⟩
  · exact ⟨cell, .inl hown, .refl⟩
  · obtain ⟨root, hroot, hpath⟩ := ih owner howns
    exact ⟨root, hroot, hpath.tail howns⟩

theorem AgreeOff.newCombinator (m : Heap) (k : Combinator) :
    AgreeOff {.combinator (m.newCombinator k).1} m (m.newCombinator k).2 := by
  intro cell hcell
  cases cell with
  | combinator c =>
    have hne : c.index ≠ m.combinators.next := fun heq => hcell (by cases c; cases heq; rfl)
    simp [content?, combinatorOf?, combinator?, Heap.newCombinator, hne]
  | object o | thunk t => rfl

/-- The library is there and nothing in the heap leads back. -/
structure Untangled (m : Heap) (errors : Set EvalError) : Prop where
  intact : m.Intact
  orderly : m.Orderly errors

namespace Untangled

theorem of_contents (h : m.Untangled errors) (hsame : m'.contents = m.contents) :
    m'.Untangled errors :=
  ⟨h.intact.of_contents hsame, h.orderly.of_contents hsame⟩

theorem grow {content : Multiset Holding} (h : m.Untangled errors)
    (hcounted : m.Counted (content + own)) (hagree : AgreeOff {cell} m m')
    (hgrows : m.Grows m' cell content) (honward : ∀ r ∈ content, m.Onward errors r) :
    m'.Untangled errors where
  intact := h.intact.of_same fun a ha => hagree a fun heq =>
    hgrows.fresh (heq ▸ (h.intact.isLive ha).allocated)
  orderly := h.orderly.grow hcounted hagree hgrows honward

theorem newObject {kind : ObjectKind} (h : m.Untangled Set.univ)
    (hcounted : m.Counted (kind.holdings + own))
    (hparts : ∀ r ∈ kind.holdings, (∃ g : Handle, r = g.holding) ∨ ∃ e, r = .error e) :
    (m.newObject kind).2.Untangled Set.univ := by
  refine h.grow hcounted (.addObject m _ kind) (grows_newObject m kind) fun r hr => ?_
  obtain ⟨g, rfl⟩ | ⟨e, rfl⟩ := hparts r hr
  · exact .handle m g
  · exact trivial

theorem moves {own' : Multiset Holding} (h : s.heap.Untangled errors)
    (hmoves : Moves lent s own s' own') (hvalid : s.heap.Valid (own + rest))
    (herrors : ∀ e, e ≠ .releasedSelfReference → e ∈ errors)
    (huntied : ∀ k v m, .tied k v m ∉ s'.trace) (hlent : s.heap.Lends errors lent)
    (hown : ∀ r ∈ own, s.heap.Onward errors r) : s'.heap.Untangled errors :=
  ⟨h.intact.moves hmoves hvalid,
    (hmoves.orderly rest hvalid h.intact h.orderly herrors huntied hlent hown).1⟩

theorem moves_of_handles {own' : Multiset Holding} {held : List Handle} (h : s.heap.Untangled Set.univ)
    (hmoves : Moves lent s own s' own') (hvalid : s.heap.Valid (own + ↑(held.map Handle.holding)))
    (huntied : ∀ k v m, .tied k v m ∉ s'.trace) (hlent : ∀ cell ∈ lent, ∃ g ∈ held, cell = g.edge)
    (hown : ∀ r ∈ own, ∃ g : Handle, g.holding = r) : s'.heap.Untangled Set.univ := by
  refine h.moves hmoves hvalid (fun _ _ => trivial) huntied (fun cell hcell => ?_) fun r hr => ?_
  · obtain ⟨g, hg, rfl⟩ := hlent cell hcell
    have hheld : g.holding ∈ (held.map Handle.holding : Multiset Holding) :=
      Multiset.mem_coe.mpr (List.mem_map_of_mem hg)
    exact ⟨hvalid.counted.allocated_target (Multiset.mem_add.mpr (.inr hheld)) rfl,
      .handle s.heap g⟩
  · obtain ⟨g, rfl⟩ := hown r hr
    exact .handle s.heap g

theorem declare {k : Combinator} (h : m.Untangled Set.univ) (hcounted : m.Counted (k.holdings + own))
    (hold : Hold) (hstrong : ∀ n, hold.strong? = some n → n = 1)
    (hweak : ∀ n, hold.weak? = some n → n = 0) :
    ((m.newCombinator k).2.addObject hold
      (.closure (.bare (m.newCombinator k).1 k.arity))).2.Untangled Set.univ := by
  have hgrows := grows_newCombinator m k
  have hdeclared : (m.newCombinator k).2.Untangled Set.univ := by
    refine h.grow hcounted (.newCombinator m k) hgrows fun r hr => ?_
    simp only [Combinator.holdings, Multiset.mem_coe, List.mem_append, List.mem_map] at hr
    obtain ⟨g, -, rfl⟩ | ⟨e, -, rfl⟩ := hr
    · exact .handle m g
    · exact trivial
  have hholdings : (ObjectKind.closure (.bare (m.newCombinator k).1 k.arity)).holdings =
      {.strong (.combinator (m.newCombinator k).1)} := by
    rw [ObjectKind.holdings_closure, Closure.arguments_bare]
    rfl
  have hcounted' : (m.newCombinator k).2.Counted
      ((ObjectKind.closure (.bare (m.newCombinator k).1 k.arity)).holdings + own) := by
    rw [hholdings, Multiset.singleton_add]
    exact hcounted.grow hgrows
  refine hdeclared.grow hcounted' (.addObject _ hold _) (grows_addObject _ hold _ hstrong hweak) ?_
  rw [hholdings]
  simp [Onward]

theorem initial : Machine.initial.heap.Untangled Set.univ := by
  have hintact : Machine.initial.heap.Intact := by
    refine ⟨Machine.kindOf?_initial, fun p => ?_⟩
    cases p <;> rfl
  have hobject : ∀ o b, Machine.initial.heap.Owns (.object o) b → ∃ c, b = .combinator c := by
    intro o b howns
    obtain ⟨kind, hkind⟩ := exists_kindOf? howns.isLive
    obtain ⟨c, arity, rfl⟩ := Machine.fresh_initial.bare o kind hkind
    rw [Owns, holds_of_kindOf? hkind, ObjectKind.holdings_closure, Closure.arguments_bare] at howns
    exact ⟨c, by simpa [Closure.bare, Memo.result?] using howns⟩
  have hcombinator : ∀ c b, ¬ Machine.initial.heap.Owns (.combinator c) b := by
    intro c b howns
    obtain ⟨x, hx⟩ := Option.isSome_iff_exists.mp howns.isLive
    obtain ⟨p, hp⟩ := Reading.exists_place_of_initial rfl hx
    obtain rfl : c = ⟨p.place⟩ := congrArg CombinatorId.mk hp.symm
    rw [Owns, holds_combinator (hintact.body p)] at howns
    simp at howns
  refine ⟨hintact, ⟨?_, ?_, ?_, fun _ _ _ => trivial⟩⟩
  · intro cell hcycle
    obtain ⟨b, howns, hback⟩ := TransGen.head'_iff.mp hcycle
    cases cell with
    | object o =>
      obtain ⟨c, rfl⟩ := hobject o b howns
      obtain heq | ⟨d, hnext, -⟩ := ReflTransGen.cases_head hback
      · cases heq
      · exact hcombinator c d hnext
    | thunk t => cases howns
    | combinator c => exact hcombinator c b howns
  · intro t o a hstate
    cases hstate
  · intro k o hkind
    obtain ⟨c, arity, heq⟩ := Machine.fresh_initial.bare k _ hkind
    cases heq

end Untangled

end Heap

namespace Holder

theorem Truthful.untangled_declare {held : List Handle} {k : Combinator} {static : Bool}
    (hw : Truthful ⟨s, held⟩) (h : s.heap.Untangled Set.univ)
    (huntied : ∀ k v m, .tied k v m ∉ s'.trace) (hcaptures : ∀ g ∈ k.body.captures, g ∈ held)
    (hrun : (do
      k.body.captures.forM fun g => Run.change (·.retain g)
      let c ← Run.add (·.newCombinator k)
      let kind := ObjectKind.closure (.bare c k.arity)
      if static then Run.add (·.newStatic kind) else Run.newObject kind : Run Handle) s =
        .ok r s') : s'.heap.Untangled Set.univ := by
  have hvalid : s.heap.Valid ((held.map Handle.holding : Multiset Holding) + 0) :=
    (add_zero (held.map Handle.holding : Multiset Holding)).symm ▸ hw.upright.valid
  have hretains : Gives 0 ∅ s (held.map Handle.holding : Multiset Holding)
      (k.body.captures.forM fun part => Run.change (·.retain part)) fun _ => _ :=
    retainAll_gives k.body.captures fun g hg =>
      ⟨.own (holding_mem (hcaptures g hg)), hw.upright.live (holding_mem (hcaptures g hg))⟩
  obtain ⟨_, s₁, hretain, hmoves⟩ := hretains hvalid
  rw [Run.bind_run, hretain] at hrun
  have hsame : s'.trace = s₁.trace := by
    cases static <;> cases hrun <;> rfl
  have h₁ : s₁.heap.Untangled Set.univ := h.moves hmoves hvalid (fun _ _ => trivial)
    (hsame ▸ huntied) (fun _ hin => hin.elim) (by simp [Handle.holding, Handle.edge, Onward])
  have hcounted : s₁.heap.Counted (k.holdings + (held.map Handle.holding : Multiset Holding)) := by
    have hraises := (Valid.errors k.body.raises).mpr (by simpa using hmoves.valid 0 hvalid)
    convert hraises.counted using 1
    simp only [Combinator.holdings, ← Multiset.coe_add]
    abel
  cases static with
  | true =>
    cases hrun
    exact h₁.declare hcounted .static (by simp [Hold.strong?]) (by simp [Hold.weak?])
  | false =>
    cases hrun
    exact h₁.declare hcounted (.shared 1 0) (by simp [Hold.strong?]) (by simp [Hold.weak?])

/-- Each deed keeps a heap untangled as long as it ties no data. -/
theorem Deed.untangled (hw : Truthful w) (hdeed : Deed w w') (h : w.heap.Untangled Set.univ)
    (huntied : ∀ k v m, .tied k v m ∉ w'.machine.trace) : w'.heap.Untangled Set.univ := by
  have hnone (held : List Handle) : ∀ cell ∈ (∅ : Set Edge), ∃ g ∈ held, cell = g.edge :=
    fun _ hin => hin.elim
  have hlends {held : List Handle} {g : Handle} (hg : g ∈ held) :
      ∀ cell ∈ ({g.edge} : Set Edge), ∃ g' ∈ held, cell = g'.edge := by
    rintro _ rfl
    exact ⟨g, hg, rfl⟩
  have happly (s : Machine) (f x : Handle) (rest : Multiset Holding) :
      Does rest ∅ s {f.holding, x.holding} (Run.applyArgument f x) (fun r => {r.holding}) 0 :=
    applyArgument_does
  have hvalid := hw.upright.valid
  have hvalid₀ : w.heap.Valid (0 + w.holdings) := (zero_add w.holdings).symm ▸ hvalid
  cases hdeed with
  | @value s s' held h' type payload hrun =>
    cases hrun
    have hcounted : s.heap.Counted ((ObjectKind.value ⟨type, payload⟩).holdings +
        (held.map Handle.holding : Multiset Holding)) := by
      rw [ObjectKind.holdings_value, Multiset.cons_add, Multiset.coe_add, ← List.map_append]
      exact ((Valid.error (.badFix type.text)).mpr hvalid).counted
    refine h.newObject hcounted fun r hr => ?_
    rw [ObjectKind.holdings_value, Multiset.mem_cons] at hr
    obtain rfl | hr := hr
    · exact .inr ⟨_, rfl⟩
    · obtain ⟨g, -, rfl⟩ := List.mem_map.mp (Multiset.mem_coe.mp hr)
      exact .inl ⟨g, rfl⟩
  | @exception s s' held h' e hrun =>
    cases hrun
    have hcounted : s.heap.Counted ((ObjectKind.exception e).holdings +
        (held.map Handle.holding : Multiset Holding)) := by
      rw [ObjectKind.holdings_exception, Multiset.singleton_add]
      exact ((Valid.error e).mpr hvalid).counted
    refine h.newObject hcounted fun r hr => .inr ⟨e, ?_⟩
    rwa [ObjectKind.holdings_exception, Multiset.mem_singleton] at hr
  | primitive p hrun | share hheld hrun =>
    cases hrun
    exact h.of_contents (contents_retain _ _)
  | declare static hdeclared hcaptures hrun =>
    exact hw.untangled_declare h huntied hcaptures hrun
  | @apply s s' held f x h' hrun =>
    cases hrun
    have hcounted : s.heap.Counted ((ObjectKind.application (.pending f x)).holdings +
      (held.map Handle.holding : Multiset Holding)) := hvalid.counted
    refine h.newObject hcounted fun r hr => .inl ?_
    obtain rfl | rfl : r = f.holding ∨ r = x.holding := by simpa using hr
    · exact ⟨f, rfl⟩
    · exact ⟨x, rfl⟩
  | @bind s s' held f x h' hrun =>
    have hdoes := happly s f x (held.map Handle.holding : Multiset Holding) hvalid
    rw [hrun] at hdoes
    exact h.moves_of_handles hdoes hvalid huntied (hnone held) (by simp)
  | @refused s s' held f x signal hrun =>
    have hdoes := happly s f x (held.map Handle.holding : Multiset Holding) hvalid
    rw [hrun] at hdoes
    exact h.moves_of_handles hdoes hvalid huntied (hnone held) (by simp)
  | @bindSelf s s' held f h' hheld hrun =>
    have hbinds : Does (held.map Handle.holding : Multiset Holding) {f.edge} s 0 (Run.bindSelf f)
        (fun r => {r.holding}) 0 := bindSelf_does rfl (holding_mem hheld)
    have hdoes := hbinds hvalid₀
    rw [hrun] at hdoes
    exact h.moves_of_handles hdoes hvalid₀ huntied (hlends hheld) (by simp)
  | @clone s s' held h' r hheld hrun =>
    have hclones : Gives (held.map Handle.holding : Multiset Holding) {h'.edge} s 0
        (Run.cloneObject h') fun r => {r.holding} := cloneObject_gives rfl (holding_mem hheld)
    obtain ⟨r', s'', hrun', hgives⟩ := hclones hvalid₀
    cases hrun.symm.trans hrun'
    exact h.moves_of_handles hgives hvalid₀ huntied (hlends hheld) (by simp)
  | evaluate hheld hrun =>
    have hmoves := (hw.evaluate_does hheld).1 _ _ hrun
    exact h.moves_of_handles hmoves hvalid₀ huntied (hlends hheld) (by simp)
  | interrupted hheld hrun =>
    have hmoves := (hw.evaluate_does hheld).2 _ _ hrun
    exact h.moves_of_handles hmoves hvalid₀ huntied (hlends hheld) (by simp)
  | @release s s' held h' hrun =>
    cases hrun
    have hmoves : Moves ∅ s {h'.holding} (s.on (·.release h')) 0 := .release s h'
    exact h.moves_of_handles hmoves hvalid huntied (hnone held) (by simp)
  | reorder => exact h

/-- While no data has been tied, nothing is tangled, whatever functions have been tied. -/
theorem Obtained.untangled (hobtained : Obtained w)
    (huntied : ∀ k v m, .tied k v m ∉ w.machine.trace) : w.heap.Untangled Set.univ := by
  induction hobtained with
  | refl => exact .initial
  | @tail w₁ w₂ hbefore hdeed ih =>
    have hw : Truthful w₁ := Obtained.truthful hbefore
    obtain ⟨events, htrace, -⟩ := hdeed.goesOn hw
    exact hdeed.untangled hw (ih fun k v m hin =>
      huntied k v m (htrace ▸ Array.mem_append.mpr (.inl hin))) huntied

/-- So no cell owns itself, over any number of references. -/
theorem Obtained.acyclic (hobtained : Obtained w)
    (huntied : ∀ k v m, .tied k v m ∉ w.machine.trace) (cell : Edge) :
    ¬ TransGen w.heap.Owns cell cell :=
  (hobtained.untangled huntied).orderly.acyclic cell

/-- Counts reclaim everything: when nobody holds anything, what is left is owned by static objects. -/
theorem Obtained.reclaimed (hobtained : Obtained ⟨s, []⟩)
    (huntied : ∀ k v m, .tied k v m ∉ s.trace) (hlive : s.heap.IsLive cell) :
    s.heap.Anchored 0 cell :=
  Counted.anchored hobtained.truthful.upright.valid.counted (hobtained.acyclic huntied) hlive

/-- A self reference always leads somewhere: unless somebody has made the error by hand, no
evaluation finds one that has been released. -/
theorem Obtained.not_dangling (hobtained : Obtained w) (hheld : h ∈ w.held)
    (hclean : ∀ cell, .error .releasedSelfReference ∉ w.heap.holds cell)
    (hrun : Evaluator.evaluate options h w.machine = .ok r s')
    (huntied : ∀ k v m, .tied k v m ∉ s'.trace) :
    s'.heap.error? r ≠ some .releasedSelfReference := by
  have hw := hobtained.truthful
  have hmoves := (hw.evaluate_does hheld).1 _ _ hrun
  obtain ⟨events, htrace, -⟩ := hmoves.goesOn
  obtain ⟨hintact, hord⟩ := hobtained.untangled fun k v m hin =>
    huntied k v m (htrace ▸ Array.mem_append.mpr (.inl hin))
  have hord₁ : w.heap.Orderly { e | e ≠ .releasedSelfReference } :=
    ⟨hord.acyclic, hord.slot, hord.knot, fun cell e he heq => hclean cell (heq ▸ he)⟩
  have hlends : w.heap.Lends { e | e ≠ .releasedSelfReference } {h.edge} := by
    rintro _ rfl
    exact ⟨(hw.upright.live (holding_mem hheld)).allocated, .handle w.heap h⟩
  obtain ⟨hord₂, -⟩ := hmoves.orderly _ (by rw [zero_add]; exact hw.upright.valid) hintact hord₁
    (fun _ hne => hne) huntied hlends (by simp)
  intro herror
  have hholds : Holding.error .releasedSelfReference ∈ s'.heap.holds (.object r.target) := by
    rw [holds_of_kindOf? (kindOf?_of_error? herror), ObjectKind.holdings_exception]
    exact Multiset.mem_singleton_self _
  exact hord₂.error _ _ hholds rfl

end Holder

end GraphReduction
