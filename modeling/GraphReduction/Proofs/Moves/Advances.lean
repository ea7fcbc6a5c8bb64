import Mathlib
import GraphReduction.Proofs.Runs.Develops

/-! What moves write. A node or a saturated closure gets its result once, a closure its next argument,
and nothing else is written to what has been there. -/
namespace GraphReduction

open Heap

/-- A single change of an object: a node or a saturated closure gets its result, or a closure its next
argument. -/
inductive ObjectKind.Advances : ObjectKind → ObjectKind → Prop
  | reduced (f x r : Handle) : Advances (.application (.pending f x)) (.application (.reduced r))
  | computed {c : Closure} (r : Handle) (hmissing : c.missing = 0) (hmemo : c.memo = .empty) :
      Advances (.closure c) (.closure { c with memo := .done r })
  | filled {c : Closure} (t : ThunkId) (hmissing : 0 < c.missing) :
      Advances (.closure c) (.closure (c.fill t))

/-- What is there of the cells that were there before has its content, or what that has become. -/
abbrev Heap.Advances : Heap → Heap → Prop := Develops ObjectKind.Advances

variable {m m' : Heap} {o : ObjectId} {c c' : Closure} {kind kind' : ObjectKind}

namespace ObjectKind.Advances

open Relation

theorem of_pending {f x : Handle}
    (h : ReflTransGen Advances (.application (.pending f x)) kind') :
    kind' = .application (.pending f x) ∨ ∃ r, kind' = .application (.reduced r) := by
  obtain heq | ⟨next, hnext, hsteps⟩ := h.cases_head
  · exact .inl heq.symm
  · cases hnext with
    | reduced f x r =>
      refine .inr ⟨r, (reflTransGen_iff_eq fun next hnext => ?_).mp hsteps⟩
      cases hnext

theorem of_saturated (hmissing : c.missing = 0) (h : ReflTransGen Advances (.closure c) kind') :
    kind' = .closure c ∨ c.memo = .empty ∧ ∃ r, kind' = .closure { c with memo := .done r } := by
  obtain heq | ⟨next, hnext, hsteps⟩ := h.cases_head
  · exact .inl heq.symm
  · cases hnext with
    | computed r _ hmemo =>
      refine .inr ⟨hmemo, r, (reflTransGen_iff_eq fun next hnext => ?_).mp hsteps⟩
      cases hnext with
      | computed r _ hdone => cases hdone
      | filled t hopen => exact absurd hmissing (Nat.ne_of_gt hopen)
    | filled t hopen => exact absurd hmissing (Nat.ne_of_gt hopen)

theorem running (h : ReflTransGen Advances kind (.closure c')) (hmemo : c'.memo = .running) :
    ∃ c, kind = .closure c ∧ c.memo = .running := by
  generalize hend : ObjectKind.closure c' = kind' at h
  induction h using ReflTransGen.head_induction_on with
  | refl => exact ⟨c', hend.symm, hmemo⟩
  | head hstep _ ih =>
    obtain ⟨c, rfl, hrunning⟩ := ih
    cases hstep with
    | computed r => cases hrunning
    | filled t => exact ⟨_, rfl, hrunning⟩

/-- A closure stays one and misses no more arguments than before. If it misses as many, and any, then
it is as it was. -/
theorem of_closure (h : ReflTransGen Advances (.closure c) kind') :
    ∃ c', kind' = .closure c' ∧ c'.missing ≤ c.missing ∧
      (c'.missing = c.missing → 0 < c.missing → c' = c) := by
  induction h with
  | refl => exact ⟨c, rfl, le_rfl, fun _ _ => rfl⟩
  | tail _ hstep ih =>
    obtain ⟨c₁, rfl, hle, -⟩ := ih
    cases hstep with
    | computed r hmissing =>
      exact ⟨_, rfl, hle, fun hsame hopen => absurd (hmissing.symm.trans hsame) hopen.ne⟩
    | filled t hopen =>
      have hless : (c₁.fill t).missing < c₁.missing := Nat.sub_lt hopen Nat.one_pos
      exact ⟨_, rfl, hless.le.trans hle, fun hsame _ => absurd hsame (hless.trans_le hle).ne⟩

end ObjectKind.Advances

namespace Heap.Advances

/-- While a result is computed, the closure says so; in the end it has the result, or it is as it was
before. -/
theorem bracket {memo : Memo} (hkind : m.kindOf? o = some (.closure c)) (hmissing : c.missing = 0)
    (hmemo : c.memo = .empty) (h : (m.setMemo o .running).Advances m')
    (hend : memo = .empty ∨ ∃ r, memo = .done r) : m.Advances (m'.setMemo o memo) := by
  refine Develops.bracket hkind h (fun kind' hsteps => ?_) ?_
  · obtain rfl | ⟨hempty, -⟩ :=
      ObjectKind.Advances.of_saturated (c := { c with memo := .running }) hmissing hsteps
    · exact ⟨.running, rfl⟩
    · cases hempty
  · obtain rfl | ⟨r, rfl⟩ := hend
    · rw [← hmemo]
    · exact .single (.computed r hmissing hmemo)

end Heap.Advances

/-- Whoever moves the machine writes to what has been there only in that way. -/
theorem Moves.advances {lent : Set Edge} {s s' : Machine} {own own' : Multiset Holding}
    (h : Moves lent s own s' own') : s.heap.Advances s'.heap := by
  induction h with
  | refl | drawn | noted | raised | copied | forgot | dangled => exact .of_contents rfl
  | trans _ _ ih ih' => exact ih.trans ih'
  | frame _ _ ih | lend _ _ ih => exact ih
  | retain cell | upgrade o => exact .of_contents (contents_retainEdge _ _)
  | retainWeak o => exact .of_contents (contents_retainWeak _ o)
  | releaseWeak o => exact .of_contents (contents_releaseWeak _ o)
  | dropped loose => exact .within (within_releaseAll _ _)
  | newObject kind => exact .of_extends (extends_addObject _ _ kind)
  | newThunk state => exact .of_extends (extends_newThunk _ state)
  | fill t hkind _ hmissing => exact .setKind hkind (.filled t hmissing)
  | bindSelf fresh => exact .bindSelf _ fresh
  | memoNode _ _ hkind' ih =>
    refine (Develops.of_contents ?_).trans (ih.trans (.setKind hkind' (.reduced ..)))
    simp
  | @memoThunk s s₁ post t x x' r _ _ _ hstate' ih =>
    have hstart : s.heap.Advances (s.heap.retainEdge x.edge) :=
      .of_contents (contents_retainEdge _ _)
    exact (hstart.trans ih).trans (.setThunkState hstate')
  | memoClosure hkind hmissing hmemo _ _ ih =>
    exact Heap.Advances.bracket hkind hmissing hmemo ih (.inr ⟨_, rfl⟩)
  | memoFailed hkind hmissing hmemo _ _ ih =>
    exact Heap.Advances.bracket hkind hmissing hmemo ih (.inl rfl)
  | @tied lent s own s₁ own₁ value gone _ _ _ ih =>
    have hbefore : s.heap.Advances s₁.heap :=
      .trans (.of_extends (extends_addObject _ _ _)) ih
    have hknot := (grows_newObject s.heap (.exception .blackHole)).fresh
    exact (hbefore.tie hknot).trans (.releases _ gone)

end GraphReduction
