import Mathlib
import GraphReduction.Proofs.Cycles.Orderly
import GraphReduction.Proofs.Tags.Events

/-! Computations that tie no data. Whatever they get hold of leads onward, and a result never leads
back to the cell that keeps it: the course that has found it began without a reference to that cell,
so the ancestors of the cell are out of its reach. Hence no cycle comes about, and no weak reference
is followed to a place where nothing is left. -/
namespace GraphReduction

open Heap Relation

variable {m m' : Heap} {errors : Set EvalError} {own own' rest : Multiset Holding} {lent : Set Edge}
  {r : Holding} {cell : Edge} {s s' : Machine}

namespace Heap

/-- The cells are there and lead onward. -/
def Lends (m : Heap) (errors : Set EvalError) (lent : Set Edge) : Prop :=
  ∀ cell ∈ lent, m.Allocated cell ∧ m.Onward errors (.strong cell)

theorem Counted.allocated_target (h : m.Counted own) (hr : r ∈ own) (htarget : r.target? = some cell) :
    m.Allocated cell := by
  have hmem : r ∈ m.held + own := Multiset.mem_add.mpr (.inr hr)
  cases r with
  | strong cell =>
    cases htarget
    exact (h.live _ hmem).allocated
  | weak o =>
    cases htarget
    exact h.allocated o hmem
  | error e => cases htarget

theorem Counted.onward {change : ObjectKind → ObjectKind → Prop} (h : m.Counted (own + rest))
    (honward : ∀ r ∈ own, m.Onward errors r) (hdevelops : Develops change m m') :
    ∀ r ∈ own, m'.Onward errors r := fun r hr =>
  (honward r hr).develops hdevelops fun _ =>
    h.allocated_target (Multiset.mem_add.mpr (.inl hr))

theorem Lends.develops {change : ObjectKind → ObjectKind → Prop} (h : m.Lends errors lent)
    (hdevelops : Develops change m m') : m'.Lends errors lent := fun cell hcell =>
  ⟨hdevelops.allocated _ (h cell hcell).1, (h cell hcell).2.develops hdevelops fun _ htarget => by
    cases htarget
    exact (h cell hcell).1⟩

namespace Access

theorem allocated (h : m.Access lent own (.strong cell)) (hvalid : m.Valid (own + rest))
    (hlent : m.Lends errors lent) : m.Allocated cell := by
  cases h with
  | own hr => exact hvalid.counted.allocated_target (Multiset.mem_add.mpr (.inl hr)) rfl
  | lent hcell => exact (hlent cell hcell).1
  | library p => exact (hvalid.library.live p).allocated
  | inside _ hr _ => exact (hvalid.counted.live_of_owns hr).allocated

theorem onward (h : m.Access lent own r) (hord : m.Orderly errors) (hlent : m.Lends errors lent)
    (hown : ∀ r ∈ own, m.Onward errors r) :
    m.Onward errors r ∨ ∃ o, r = .weak o ∧ m.IsLive (.object o) := by
  induction h with
  | own hr => exact .inl (hown _ hr)
  | lent hcell => exact .inl (hlent _ hcell).2
  | library p => exact .inl trivial
  | @inside cell r _ hr hopen ih =>
    have hcell : m.Onward errors (.strong cell) := ih.resolve_right (by rintro ⟨o, ⟨⟩, -⟩)
    -- Only a recursive thunk and the slot that keeps it point back: the one is no onward cell, and
    -- the other is closed to access.
    obtain honward | ⟨t, o, hstate, ⟨rfl, -⟩ | ⟨rfl, rfl⟩⟩ := hord.inside hr
    · exact .inl honward
    · exact absurd hstate (hcell o)
    · obtain ⟨-, c, hkind, hmissing⟩ := hord.slot t o _ hstate hr
      refine absurd ⟨o, c, t, rfl, hkind, ?_, rfl, ?_⟩ hopen
      · simpa [Closure.isSaturated] using hmissing.ne'
      · have halive : m.isAlive o = true := isLive_of_kindOf? hkind
        simp [backEdge?, hstate, halive]
  | @back f o c t _ _ _ hback _ =>
    rw [backEdge?] at hback
    split at hback
    · next p _ =>
      obtain ⟨halive, heq⟩ := Option.ite_none_right_eq_some.mp hback
      cases heq
      exact .inr ⟨o, rfl, halive⟩
    · split at hback
      · next hknot => exact absurd (kindOf?_of_application? hknot) (hord.knot _ _)
      · cases hback
    · cases hback

end Access

theorem Orderly.not_ancestor {b : Edge} (h : m.Orderly errors) (howns : m.Owns cell b)
    (honward : m.Onward errors (.strong b)) : b ∉ m.ancestors cell :=
  fun hpath => h.acyclic cell (.head' howns (h.owned honward hpath))

theorem Orderly.avoids_ancestors (h : m.Orderly errors) (hr : r ∈ m.holds cell)
    (honward : m.Onward errors r) : r.Avoids (m.ancestors cell) := by
  intro b htarget
  cases r with
  | strong a =>
    cases htarget
    exact h.not_ancestor hr honward
  | weak o => exact honward.elim
  | error e => cases htarget

theorem Orderly.startMemo {o : ObjectId} {c : Closure} (h : m.Orderly errors)
    (hvalid : m.Valid own) (hintact : m.Intact) (hkind : m.kindOf? o = some (.closure c))
    (hmissing : c.missing = 0) :
    .object o ∉ libraryCells ∧ (m.setMemo o .running).Intact ∧
      (m.setMemo o .running).Orderly errors ∧ (m.setMemo o .running).Lends errors c.operands ∧
      ∀ a ∈ c.operands, a ∉ (m.setMemo o .running).ancestors (.object o) := by
  have hother : .object o ∉ libraryCells := by
    refine not_mem_libraryCells hintact hkind fun p heq => ?_
    cases heq
    exact p.arity_pos.ne' hmissing
  have hord : (m.setMemo o .running).Orderly errors := h.setMemo hkind hmissing (by simp)
  have hrunning : (m.setMemo o .running).kindOf? o = some (.closure { c with memo := .running }) := by
    rw [kindOf?_setMemo, if_pos rfl, hkind]
    rfl
  have hoperand : ∀ a ∈ c.operands, m.Owns (.object o) a ∧ (m.setMemo o .running).Owns (.object o) a ∧
      (m.setMemo o .running).Onward errors (.strong a) := by
    intro a ha
    rw [Owns, Owns, holds_of_kindOf? hkind, holds_of_kindOf? hrunning, ObjectKind.holdings_closure,
      ObjectKind.holdings_closure]
    obtain rfl | ⟨t, ht, rfl⟩ := ha
    · exact ⟨Multiset.mem_cons_self _ _, Multiset.mem_cons_self _ _, trivial⟩
    · have ht' : t ∈ ({ c with memo := .running } : Closure).arguments := ht
      exact ⟨Multiset.mem_cons_of_mem (by simp [ht]), Multiset.mem_cons_of_mem (by simp [ht']),
        hord.slots hrunning hmissing t ht'⟩
  refine ⟨hother, hintact.of_same fun cell hcell => ?_, hord, fun a ha => ?_, fun a ha => ?_⟩
  · exact AgreeOff.setMemo m o .running cell fun heq => hother (heq ▸ hcell)
  · exact ⟨(allocated_setMemo m o _ a).mpr (hvalid.counted.live_of_owns (hoperand a ha).1).allocated,
      (hoperand a ha).2.2⟩
  · exact hord.not_ancestor (hoperand a ha).2.1 (hoperand a ha).2.2

end Heap

namespace Moves

theorem not_back {v : Handle} {post : Multiset Holding} (h : Moves lent s own s' (v.holding ::ₘ post))
    (hvalid : s.heap.Valid (own + rest)) (hintact : s.heap.Intact) (halloc : s.heap.Allocated cell)
    (hother : cell ∉ libraryCells) (hlent : ∀ a ∈ lent, a ∉ s.heap.ancestors cell)
    (hown : ∀ r ∈ own, r.Avoids (s.heap.ancestors cell)) :
    ¬ ReflTransGen s'.heap.Owns v.edge cell := by
  obtain ⟨hguarded, -, havoids⟩ := h.confined rest hvalid
    (hintact.guarded_ancestors halloc hother) hlent hown
  have hv : v.edge ∉ s.heap.ancestors cell :=
    (Holding.avoids_strong _).mp (havoids _ (Multiset.mem_cons_self _ _))
  exact fun hpath => hguarded.not_owned hv hpath .refl

theorem not_back_of_held {v : Handle} {post : Multiset Holding}
    (h : Moves ∅ s own s' (v.holding ::ₘ post)) (hvalid : s.heap.Valid (own + rest))
    (hintact : s.heap.Intact) (hord : s.heap.Orderly errors) (hlive : s.heap.IsLive cell)
    (hother : cell ∉ libraryCells) (hheld : ∀ r ∈ own, r ∈ s.heap.holds cell)
    (honward : ∀ r ∈ own, s.heap.Onward errors r) : ¬ ReflTransGen s'.heap.Owns v.edge cell :=
  h.not_back hvalid hintact hlive.allocated hother (fun _ hin => hin.elim)
    fun r hr => hord.avoids_ancestors (hheld r hr) (honward r hr)

/-- Moves that tie no data make no cycle, and what is held in the end leads onward. -/
theorem orderly (h : Moves lent s own s' own') (rest : Multiset Holding)
    (hvalid : s.heap.Valid (own + rest)) (hintact : s.heap.Intact) (hord : s.heap.Orderly errors)
    (herrors : ∀ e, e ≠ .releasedSelfReference → e ∈ errors)
    (huntied : ∀ k v m, .tied k v m ∉ s'.trace) (hlent : s.heap.Lends errors lent)
    (hown : ∀ r ∈ own, s.heap.Onward errors r) :
    s'.heap.Orderly errors ∧ ∀ r ∈ own', s'.heap.Onward errors r := by
  induction h generalizing rest with
  | refl | drawn | noted => exact ⟨hord, hown⟩
  | @trans lent s own s₁ own₁ s₂ own₂ h h' ih ih' =>
    obtain ⟨events, htrace, -⟩ := h'.goesOn
    obtain ⟨hord₁, hown₁⟩ := ih rest hvalid hintact hord
      (fun k v m hin => huntied k v m (htrace ▸ Array.mem_append.mpr (.inl hin))) hlent hown
    exact ih' rest (h.valid rest hvalid) (hintact.moves h hvalid) hord₁ huntied
      (hlent.develops h.advances) hown₁
  | @frame lent s own s' own' other h ih =>
    rw [add_assoc] at hvalid
    have hother : ∀ r ∈ other, s.heap.Onward errors r :=
      fun r hr => hown r (Multiset.mem_add.mpr (.inr hr))
    have hcounted : s.heap.Counted (other + (own + rest)) := by
      have hcounted := hvalid.counted
      rwa [add_left_comm] at hcounted
    obtain ⟨hord', hown'⟩ := ih _ hvalid hintact hord huntied
      (fun cell hcell => hcell.elim (hlent cell) fun hin => ⟨hcounted.allocated_target
        (Multiset.mem_add.mpr (.inl hin)) rfl, hother _ hin⟩)
      fun r hr => hown r (Multiset.mem_add.mpr (.inl hr))
    refine ⟨hord', fun r hr => (Multiset.mem_add.mp hr).elim (hown' r) ?_⟩
    exact hcounted.onward hother h.advances r
  | lend _ hmore ih =>
    refine ih rest hvalid hintact hord huntied (fun cell hcell => ?_) hown
    obtain hcell | ⟨-, haccess⟩ := hmore cell hcell
    · exact hlent cell hcell
    · exact ⟨haccess.allocated hvalid hlent,
        (haccess.onward hord hlent hown).resolve_right (by rintro ⟨o, ⟨⟩, -⟩)⟩
  | raised e hne => exact ⟨hord, Multiset.forall_mem_cons.mpr ⟨herrors e hne, hown⟩⟩
  | copied e haccess =>
    exact ⟨hord, Multiset.forall_mem_cons.mpr
      ⟨(haccess.onward hord hlent hown).resolve_right (by rintro ⟨o, ⟨⟩, -⟩), hown⟩⟩
  | dangled o haccess hdead =>
    obtain hweak | ⟨p, heq, hlive⟩ := haccess.onward hord hlent hown
    · exact hweak.elim
    · cases heq
      exact absurd hlive hdead
  | forgot e => exact ⟨hord, (Multiset.forall_mem_cons.mp hown).2⟩
  | @retain lent s own cell haccess =>
    have hsame := contents_retainEdge s.heap cell
    refine ⟨hord.of_contents hsame, Multiset.forall_mem_cons.mpr ⟨?_, ?_⟩⟩
    · exact ((haccess.onward hord hlent hown).resolve_right (by rintro ⟨o, ⟨⟩, -⟩)).of_contents hsame
    · exact fun r hr => (hown r hr).of_contents hsame
  | retainWeak o haccess hkind => exact absurd hkind (hord.knot _ _)
  | @releaseWeak lent s own o =>
    have hsame := contents_releaseWeak s.heap o
    exact ⟨hord.of_contents hsame,
      fun r hr => (hown r (Multiset.mem_cons_of_mem hr)).of_contents hsame⟩
  | @upgrade lent s own o =>
    have hsame := contents_retainEdge s.heap (.object o)
    exact ⟨hord.of_contents hsame, Multiset.forall_mem_cons.mpr
      ⟨trivial, fun r hr => (hown r hr).of_contents hsame⟩⟩
  | @dropped lent s own loose =>
    have hwithin := within_releaseAll s.heap [loose]
    exact ⟨hord.within hwithin, fun r hr =>
      (hown r (Multiset.mem_cons_of_mem hr)).mono fun t o => hwithin.state t _⟩
  | @newObject lent s own kind =>
    rw [add_assoc] at hvalid
    refine ⟨hord.grow hvalid.counted (.addObject s.heap _ kind) (grows_newObject s.heap kind)
      fun r hr => hown r (Multiset.mem_add.mpr (.inl hr)), Multiset.forall_mem_cons.mpr
      ⟨trivial, fun r hr => ?_⟩⟩
    exact hown r (Multiset.mem_add.mpr (.inr hr))
  | @newThunk lent s own state hstate =>
    rw [add_assoc] at hvalid
    exact ⟨hord.grow hvalid.counted (.newThunk s.heap state) (grows_newThunk s.heap state)
      fun r hr => hown r (Multiset.mem_add.mpr (.inl hr)), Multiset.forall_mem_cons.mpr
      ⟨.of_newThunk s.heap hstate,
        fun r hr => (hown r (Multiset.mem_add.mpr (.inr hr))).newThunk hstate⟩⟩
  | @fill lent s own o c t hkind hunique hmissing hback =>
    have hproper := hvalid.proper _ _ hkind
    rw [Multiset.cons_swap, Multiset.cons_add] at hvalid
    obtain ⟨ht, hrest⟩ := Multiset.forall_mem_cons.mp hown
    -- the reference at hand is the only one, so nobody owns the closure that is written to
    have hfree : ∀ a, ¬ s.heap.Owns a (.object o) := fun a hat =>
      (hvalid.counted.not_held_of_unique hunique).1
        (Multiset.mem_add.mpr (.inl (Multiset.mem_of_le (holds_le_held s.heap a) hat)))
    exact ⟨hord.fill hkind hproper hmissing hback hfree ht, hrest⟩
  | @bindSelf lent s own fresh hproper hmissing =>
    rw [add_assoc] at hvalid
    refine ⟨hord.bindSelf hvalid.counted hproper hmissing
      fun r hr => hown r (Multiset.mem_add.mpr (.inl hr)), Multiset.forall_mem_cons.mpr
      ⟨trivial, ?_⟩⟩
    rw [← add_assoc, add_comm (ObjectKind.holdings _), add_assoc] at hvalid
    have hdevelops : Develops ObjectKind.Changes s.heap (s.heap.bindSelf fresh) := .bindSelf _ _
    exact hvalid.counted.onward (fun r hr => hown r (Multiset.mem_add.mpr (.inr hr))) hdevelops
  | @memoNode s s₁ post o f x f' x' v hkind h _ ih =>
    rw [zero_add] at hvalid
    have hsame : ((s.heap.retainEdge f.edge).retainEdge x.edge).contents = s.heap.contents := by
      simp
    have hkind₀ := (kindOf?_congr hsame o).trans hkind
    have hvalid₀ := hvalid.takeOperands hkind
    have hintact₀ := hintact.of_contents hsame
    have hord₀ := hord.of_contents hsame
    have honward : ∀ r ∈ ({f.holding, x.holding} : Multiset Holding),
        ((s.heap.retainEdge f.edge).retainEdge x.edge).Onward errors r := by
      simp [Handle.holding, Handle.edge, Onward]
    obtain ⟨hord₁, hown₁⟩ := ih rest hvalid₀ hintact₀ hord₀ huntied (fun _ hin => hin.elim) honward
    have hback := h.not_back_of_held hvalid₀ hintact₀ hord₀ (isLive_of_kindOf? hkind₀)
      (not_mem_libraryCells hintact₀ hkind₀ (by simp))
      (fun r hr => by rwa [Machine.heap_on, holds_of_kindOf? hkind₀, ObjectKind.holdings_pending])
      honward
    refine ⟨hord₁.setKind (by simp [Handle.holding, Handle.edge, Onward]) fun b hb => ?_,
      Multiset.forall_mem_cons.mpr ⟨trivial, Multiset.forall_mem_cons.mpr ⟨trivial, fun r hr => ?_⟩⟩⟩
    · obtain rfl : b = v.edge := by simpa [Handle.holding] using hb
      exact hback
    · exact (hown₁ r (Multiset.mem_cons_of_mem hr)).mono fun _ _ hstate => hstate
  | @memoThunk s s₁ post t x x' v hstate _ h _ ih =>
    rw [zero_add] at hvalid
    have hsame := contents_retainEdge s.heap x.edge
    have hstate₀ := (stateOf?_congr hsame t).trans hstate
    have hvalid₀ := hvalid.takeSuspended hstate
    have hintact₀ := hintact.of_contents hsame
    have hord₀ := hord.of_contents hsame
    have honward : ∀ r ∈ ({x.holding} : Multiset Holding),
        (s.heap.retainEdge x.edge).Onward errors r := by
      simp [Handle.holding, Handle.edge, Onward]
    obtain ⟨hord₁, hown₁⟩ := ih rest hvalid₀ hintact₀ hord₀ huntied (fun _ hin => hin.elim) honward
    have hback := h.not_back_of_held hvalid₀ hintact₀ hord₀ (isLive_of_stateOf? hstate₀)
      (thunk_not_mem_libraryCells t)
      (fun r hr => by rwa [Machine.heap_on, holds_of_stateOf? hstate₀, ThunkState.holdings_pending])
      honward
    exact ⟨hord₁.setThunkState hback, Multiset.forall_mem_cons.mpr
      ⟨trivial, fun r hr => (hown₁ r (Multiset.mem_cons_of_mem hr)).setThunkState v⟩⟩
  | @memoClosure s s₁ post o c v hkind hmissing hmemo h hkind' ih =>
    obtain ⟨hother, hintact₀, hord₀, hlent₀, hnot⟩ :=
      hord.startMemo hvalid hintact hkind hmissing
    have hvalid₀ := hvalid.startMemo hkind hmemo
    obtain ⟨hord₁, hown₁⟩ := ih rest hvalid₀ hintact₀ hord₀ huntied hlent₀ hown
    have hback := h.not_back hvalid₀ hintact₀
      ((allocated_setMemo _ o _ _).mpr (isLive_of_kindOf? hkind).allocated) hother hnot (by simp)
    refine ⟨hord₁.setMemo hkind' hmissing fun w hw => ?_, fun r hr => ?_⟩
    · cases hw
      exact hback
    · exact (hown₁ r (Multiset.mem_cons_of_mem hr)).mono fun _ _ hstate => hstate
  | @memoFailed s s₁ post o c hkind hmissing hmemo _ hkind' ih =>
    obtain ⟨-, hintact₀, hord₀, hlent₀, -⟩ := hord.startMemo hvalid hintact hkind hmissing
    obtain ⟨hord₁, hown₁⟩ := ih rest (hvalid.startMemo hkind hmemo) hintact₀ hord₀ huntied hlent₀ hown
    exact ⟨hord₁.setMemo hkind' hmissing (by simp),
      fun r hr => (hown₁ r hr).mono fun _ _ hstate => hstate⟩
  | tied gone h hknot hlive ih =>
    exact absurd (Array.mem_push_self) (huntied _ _ _)

end Moves

end GraphReduction
