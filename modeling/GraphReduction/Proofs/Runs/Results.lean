import Mathlib
import GraphReduction.Proofs.Runs.Commands
import GraphReduction.Proofs.Runs.Develops

/-! Results stay. Nodes, knots, suspended arguments and closures get their results once, whoever
writes them: evaluation, or a command that stores one directly. What an evaluation has found is
therefore found again by every later one, and that runs nothing. -/
namespace GraphReduction

open Heap Run Relation

/-- A single change of an object: a node gets its result, a knot its value, and a closure a result
that it has not had, or its next argument. -/
inductive ObjectKind.Changes : ObjectKind → ObjectKind → Prop
  | reduced (f x r : Handle) : Changes (.application (.pending f x)) (.application (.reduced r))
  | tied (k : Knot) : Changes (.application (.knot .unresolved)) (.application (.knot k))
  | memoized {c : Closure} (r : Handle) (hmemo : c.memo.result? = none) :
      Changes (.closure c) (.closure { c with memo := .done r })
  | filled {c : Closure} (t : ThunkId) (hmissing : 0 < c.missing) :
      Changes (.closure c) (.closure (c.fill t))

variable {m m' : Heap} {o : ObjectId} {c c' : Closure} {kind kind' : ObjectKind} {f x r : Handle}
  {options : Options} {s s' : Machine} {depth : Nat}

namespace ObjectKind.Changes

theorem of_reduced (h : ReflTransGen Changes (.application (.reduced r)) kind') :
    kind' = .application (.reduced r) :=
  (reflTransGen_iff_eq fun _ hnext => by cases hnext).mp h

theorem of_knot {k : Knot} (hk : k ≠ .unresolved)
    (h : ReflTransGen Changes (.application (.knot k)) kind') : kind' = .application (.knot k) := by
  refine (reflTransGen_iff_eq fun _ hnext => ?_).mp h
  cases hnext
  exact hk rfl

theorem of_pending (h : ReflTransGen Changes (.application (.pending f x)) kind') :
    kind' = .application (.pending f x) ∨ ∃ r, kind' = .application (.reduced r) := by
  obtain heq | ⟨next, hnext, hsteps⟩ := h.cases_head
  · exact .inl heq.symm
  · cases hnext with
    | reduced f x r => exact .inr ⟨r, of_reduced hsteps⟩

theorem of_done (hmemo : c.memo = .done r) (h : ReflTransGen Changes (.closure c) kind') :
    ∃ c', kind' = .closure c' ∧ c'.memo = .done r := by
  induction h with
  | refl => exact ⟨c, rfl, hmemo⟩
  | tail _ hstep ih =>
    obtain ⟨c₁, rfl, hdone⟩ := ih
    cases hstep with
    | memoized r hnone => simp [hdone, Memo.result?] at hnone
    | filled t => exact ⟨_, rfl, hdone⟩

theorem of_saturated (hmissing : c.missing = 0) (h : ReflTransGen Changes (.closure c) kind') :
    ∃ memo, kind' = .closure { c with memo } := by
  induction h with
  | refl => exact ⟨c.memo, rfl⟩
  | tail _ hstep ih =>
    obtain ⟨memo, rfl⟩ := ih
    cases hstep with
    | memoized r => exact ⟨.done r, rfl⟩
    | filled t hopen => exact absurd hmissing (Nat.ne_of_gt hopen)

end ObjectKind.Changes

namespace Heap

theorem Develops.setMemo (hkind : m.kindOf? o = some (.closure c)) (hmemo : c.memo.result? = none)
    (r : Handle) : Develops ObjectKind.Changes m (m.setMemo o (.done r)) where
  allocated cell := (allocated_setMemo m o _ cell).mpr
  object p kind' _ hkind' := by
    rw [kindOf?_setMemo] at hkind'
    split at hkind'
    · next heq =>
      subst heq
      rw [hkind] at hkind'
      cases hkind'
      exact ⟨_, hkind, .single (.memoized r hmemo)⟩
    · exact ⟨kind', hkind', .refl⟩
  thunk t state' _ hstate := ⟨state', hstate, .refl⟩

theorem extends_newCombinator (m : Heap) (k : Combinator) : m.Extends (m.newCombinator k).2 where
  kind _ _ h := h
  state _ _ h := h
  combinator c k' hk' := by
    have hne : c.index ≠ m.combinators.next := by
      obtain ⟨held, hheld, -⟩ := Option.map_eq_some_iff.mp hk'
      have hlive : m.IsLive (.combinator c) := by simp [IsLive, hheld]
      exact Nat.ne_of_lt hlive.allocated
    simpa [combinatorOf?, combinator?, Heap.newCombinator, hne] using hk'
  allocated cell halloc := ((grows_newCombinator m k).allocated cell).mpr (.inr halloc)
  live cell halloc hlive := by
    obtain rfl | hlive := ((grows_newCombinator m k).isLive cell).mp hlive
    · exact absurd halloc (grows_newCombinator m k).fresh
    · exact hlive
  static _ h := h

/-- Whatever runs, objects change in these ways only. -/
instance : IsHistory (Develops ObjectKind.Changes) where
  refl _ := .of_contents rfl
  trans := .trans
  retainEdge m cell := .of_contents (contents_retainEdge m cell)
  retainWeak m o := .of_contents (contents_retainWeak m o)
  addObject m hold _ _ := .of_extends (extends_addObject m hold _)
  newThunk m state := .of_extends (extends_newThunk m state)
  within := .within
  keep hstate _ := .setThunkState hstate
  reduce hkind h := .setKind hkind (.reduced _ _ h)
  point hkind k := .setKind hkind (.tied k)
  memoize hkind hmemo h := .setMemo hkind hmemo h
  compute {_ _ _ c _} hkind hmissing hmemo h hend := by
    refine .bracket hkind h (fun kind' hsteps => ?_) ?_
    · exact ObjectKind.Changes.of_saturated (c := { c with memo := .running }) hmissing hsteps
    · obtain rfl | ⟨r, rfl⟩ := hend
      · rw [← hmemo]
      · exact .single (.memoized r (by rw [hmemo]; rfl))
  declare m hold k _ :=
    .trans (.of_extends (extends_newCombinator m k)) (.of_extends (extends_addObject _ hold _))
  fill hkind hmissing t := .setKind hkind (.filled t hmissing)
  clone _ := .of_extends (extends_addObject _ _ _)
  box _ _ := .of_extends (extends_addObject _ _ _)
  copy _ _ := .of_extends (extends_addObject _ _ _)
  copyFilled _ _ _ _ := .of_extends (extends_addObject _ _ _)

/-- Whatever has its result has the same one later, if it is still there. What is gone does not come
back in the same place. -/
structure KeepsResults (m m' : Heap) : Prop where
  gone : ∀ o, m.Allocated (.object o) → m.kindOf? o = none → m'.kindOf? o = none
  node : ∀ o r kind', m.kindOf? o = some (.application (.reduced r)) →
    m'.kindOf? o = some kind' → kind' = .application (.reduced r)
  knot : ∀ o k kind', m.kindOf? o = some (.application (.knot k)) → k ≠ .unresolved →
    m'.kindOf? o = some kind' → kind' = .application (.knot k)
  closure : ∀ o c r kind', m.kindOf? o = some (.closure c) → c.memo = .done r →
    m'.kindOf? o = some kind' → ∃ c', kind' = .closure c' ∧ c'.memo = .done r
  thunk : ∀ t r state', m.stateOf? t = some (.forced r) → m'.stateOf? t = some state' →
    state' = .forced r

theorem Develops.keepsResults (h : Develops ObjectKind.Changes m m') : m.KeepsResults m' where
  gone o halloc hnone := by
    by_contra hsome
    obtain ⟨kind', hkind'⟩ := Option.ne_none_iff_exists'.mp hsome
    obtain ⟨kind, hkind, -⟩ := h.object o kind' halloc hkind'
    exact absurd (hnone.symm.trans hkind) (by simp)
  node _ _ _ hkind hkind' :=
    ObjectKind.Changes.of_reduced (h.of_kind hkind hkind')
  knot _ _ _ hkind hk hkind' :=
    ObjectKind.Changes.of_knot hk (h.of_kind hkind hkind')
  closure _ _ _ _ hkind hmemo hkind' :=
    ObjectKind.Changes.of_done hmemo (h.of_kind hkind hkind')
  thunk _ _ _ hstate hstate' :=
    ThunkState.Advances.eq_of_forced (h.of_state hstate hstate')

end Heap

/-- Whatever commands come, and however evaluations end, results stay. -/
theorem Session.keeps_results (s : Session) (cs : List Command) :
    s.machine.heap.KeepsResults (s.runAll cs).2.machine.heap :=
  (runAll_along (r := Develops ObjectKind.Changes) s cs).keepsResults

/-! Evaluation keeps what it finds. -/

/-- The object has its result: it is a node that has been reduced, or a saturated closure whose body
has run. -/
inductive Heap.HasResult (m : Heap) (o : ObjectId) (r : Handle) : Prop
  | node (hkind : m.kindOf? o = some (.application (.reduced r)))
  | closure {c : Closure} (hkind : m.kindOf? o = some (.closure c)) (hmissing : c.missing = 0)
      (hmemo : c.memo = .done r)

/-- Where evaluation keeps what it finds: a node that is no knot, or a saturated closure. -/
def ObjectKind.IsRedex : ObjectKind → Prop
  | .application (.pending ..) | .application (.reduced _) => True
  | .closure c => c.missing = 0
  | _ => False

namespace Heap.HasResult

theorem develops (h : m.HasResult o r) (hdevelops : Develops ObjectKind.Changes m m')
    (hlive : m'.IsLive (.object o)) : m'.HasResult o r := by
  obtain ⟨kind', hkind'⟩ := exists_kindOf? hlive
  cases h with
  | node hkind =>
    obtain rfl := ObjectKind.Changes.of_reduced (hdevelops.of_kind hkind hkind')
    exact .node hkind'
  | closure hkind hmissing hmemo =>
    have hsteps := hdevelops.of_kind hkind hkind'
    obtain ⟨memo, rfl⟩ := ObjectKind.Changes.of_saturated hmissing hsteps
    obtain ⟨c', heq, hdone⟩ := ObjectKind.Changes.of_done hmemo hsteps
    cases heq
    exact .closure hkind' hmissing hdone

theorem reduceUpTo (h : s.heap.HasResult o r) (options : Options) (depth : Nat) :
    Evaluator.reduceUpTo options (depth + 1) (.plain o) s = .ok r (s.on (·.retain r)) := by
  cases h with
  | node hkind =>
    rw [Evaluator.reduceUpTo, Evaluator.reduceOnce_of_kind hkind]
    rfl
  | closure hkind hmissing hmemo =>
    rw [Evaluator.reduceUpTo, Evaluator.reduceOnce_saturated hkind hmissing, Evaluator.result, hmemo]
    rfl

end Heap.HasResult

namespace Run

/-- A node that has waited for its result has what is returned. -/
theorem store_hasResult {v : Handle} (hkind : ∀ kind, s.heap.kindOf? o = some kind →
      kind = .application (.pending f x) ∨ ∃ r, kind = .application (.reduced r))
    (hrun : store o v s = .ok r s') (hlive : s'.heap.IsLive (.object o)) :
    s'.heap.HasResult o r := by
  have hdevelops : Develops ObjectKind.Changes s.heap s'.heap := (store_along o v).of_ok hrun
  rw [store, Run.bind_run, inspect_run] at hrun
  dsimp only at hrun
  cases hlook : s.heap.kindOf? o with
  | none =>
    have hnone : s.heap.kind? (.plain o) = none := hlook
    rw [hnone] at hrun
    cases hrun
    obtain ⟨kind, hsome⟩ := exists_kindOf? hlive
    exact absurd (hlook.symm.trans hsome) (by simp)
  | some kind =>
    have hsome : s.heap.kind? (.plain o) = some kind := hlook
    rw [hsome] at hrun
    obtain rfl | ⟨first, rfl⟩ := hkind kind hlook
    · cases hrun
      refine HasResult.develops (m := (s.heap.retain v.asCached).setKind o
        (.application (.reduced v.asCached))) (.node ?_) (.releases _ [f, x]) hlive
      rw [Valid.kindOf?_setKind, if_pos rfl, kindOf?_congr (contents_retain _ _), hlook]
      rfl
    · cases hrun
      exact (HasResult.node hlook).develops hdevelops hlive

end Run

namespace Evaluator

/-- The result of a closure that is still there is kept in it. -/
theorem result_hasResult {reduce : Reducer} {h : Handle}
    (hreduce : ∀ g, Along (Develops ObjectKind.Changes) (reduce g))
    (hkind : s.heap.kindOf? h.target = some (.closure c)) (hmissing : c.missing = 0)
    (hrun : result options reduce h c s = .ok r s') (hlive : s'.heap.IsLive h.edge) :
    s'.heap.HasResult h.target r := by
  rw [result] at hrun
  cases hmemo : c.memo with
  | running =>
    rw [hmemo] at hrun
    cases hrun
  | done kept =>
    rw [hmemo] at hrun
    cases hrun
    exact .closure ((kindOf?_congr (contents_retain _ _) _).trans hkind) hmissing hmemo
  | empty =>
    rw [hmemo] at hrun
    have hcompute : Along (Develops ObjectKind.Changes) (compute options reduce h c) :=
      compute_along hreduce h c
    simp only [Run.bind_run, change_run, tryCatch_run] at hrun
    cases hact : compute options reduce h c
        { s with heap := s.heap.setMemo h.target .running } with
    | error signal s₁ =>
      rw [hact] at hrun
      cases hrun
    | ok value s₁ =>
      have hleads : Develops ObjectKind.Changes (s.heap.setMemo h.target .running) s₁.heap :=
        hcompute.of_ok hact
      rw [hact] at hrun
      cases hrun
      -- in the meantime the closure has stayed as it was but for its result
      have hrunning : (s.heap.setMemo h.target .running).kindOf? h.target =
          some (.closure { c with memo := .running }) := by
        rw [kindOf?_setMemo, if_pos rfl, hkind]
        rfl
      obtain ⟨kind', hkind'⟩ := exists_kindOf? hlive
      have hlater := hkind'
      simp only [kindOf?_setMemo, if_pos] at hlater
      obtain ⟨kind₁, hkind₁, rfl⟩ := Option.map_eq_some_iff.mp hlater
      rw [kindOf?_congr (contents_retain _ _)] at hkind₁
      obtain ⟨memo, rfl⟩ := ObjectKind.Changes.of_saturated (c := { c with memo := .running })
        hmissing (Develops.of_kind hleads hrunning hkind₁)
      exact .closure hkind' hmissing rfl

/-- An evaluation that returns leaves its result in the term, if that is still there. -/
theorem reduceUpTo_hasResult (hkind : s.heap.kindOf? o = some kind) (hredex : kind.IsRedex)
    (hrun : reduceUpTo options depth (.plain o) s = .ok r s')
    (hlive : s'.heap.IsLive (.object o)) : s'.heap.HasResult o r := by
  obtain _ | depth := depth
  · cases hrun
  have hreduce : ∀ h, Along (Develops ObjectKind.Changes) (reduceUpTo options depth h) :=
    fun h => reduceUpTo_along options depth h
  match kind, hredex with
  | .application (.reduced first), _ =>
    have hfirst : s.heap.HasResult o first := .node hkind
    rw [hfirst.reduceUpTo] at hrun
    cases hrun
    exact hfirst.develops (.of_contents (contents_retain _ _)) hlive
  | .closure c, (hmissing : c.missing = 0) =>
    rw [reduceUpTo, reduceOnce_saturated hkind hmissing] at hrun
    exact result_hasResult hreduce (h := .plain o) hkind hmissing hrun hlive
  | .application (.pending f x), _ =>
    rw [reduceUpTo, reduceOnce_pending hkind, releasing_run, Run.bind_run] at hrun
    have happlication : Along (Develops ObjectKind.Changes)
        (application options (reduceUpTo options depth) f x) :=
      application_along hreduce f x
    cases hact : application options (reduceUpTo options depth) f x (takeNode s f x) with
    | error signal s₁ =>
      rw [hact] at hrun
      cases hrun
    | ok v s₁ =>
      have hleads : Develops ObjectKind.Changes (takeNode s f x).heap s₁.heap :=
        happlication.of_ok hact
      rw [hact] at hrun
      dsimp only at hrun
      cases hstore : store o v s₁ with
      | error signal s₂ =>
        rw [hstore] at hrun
        cases hrun
      | ok r₂ s₂ =>
        rw [hstore] at hrun
        cases hrun
        have hrelease : Develops ObjectKind.Changes s₂.heap (s₂.heap.release f) :=
          .within (within_release _ f)
        have hbefore : Develops ObjectKind.Changes s.heap s₁.heap :=
          (Develops.of_contents (contents_takeNode s f x)).trans hleads
        have halloc : s.heap.Allocated (.object o) := (isLive_of_kindOf? hkind).allocated
        have hstored : Develops ObjectKind.Changes s₁.heap s₂.heap := (store_along o v).of_ok hstore
        have hnode : ∀ kind', s₁.heap.kindOf? o = some kind' →
            kind' = .application (.pending f x) ∨ ∃ r, kind' = .application (.reduced r) :=
          fun kind' hkind' => ObjectKind.Changes.of_pending (hbefore.of_kind hkind hkind')
        exact (store_hasResult hnode hstore (hrelease.isLive
          (hstored.allocated _ (hbefore.allocated _ halloc)) hlive)).develops hrelease hlive

end Evaluator

/-- What an evaluation has found for a node or a closure is found again by any later one, with whatever
options, after any commands, as long as the term is there: the identical handle. Then nothing happens
but that there is one more reference to it, so no body runs. -/
theorem Session.evaluates_once (s : Session) {machine : Machine}
    (hkind : s.machine.heap.kindOf? o = some kind) (hredex : kind.IsRedex)
    (hrun : Evaluator.evaluate options (.plain o) s.machine = .ok r machine) (cs : List Command) :
    let later := (({ s with machine } : Session).runAll cs).2.machine
    later.heap.IsLive (.object o) →
      ∀ options', Evaluator.evaluate options' (.plain o) later = .ok r (later.on (·.retain r)) := by
  intro later hlive options'
  have hfirst : Develops ObjectKind.Changes s.machine.heap machine.heap :=
    (Evaluator.reduceUpTo_along options _ _).of_ok hrun
  have hlater : Develops ObjectKind.Changes machine.heap later.heap :=
    runAll_along { s with machine } cs
  have hfound : machine.heap.HasResult o r := Evaluator.reduceUpTo_hasResult hkind hredex hrun
    (hlater.isLive (hfirst.allocated _ (isLive_of_kindOf? hkind).allocated) hlive)
  obtain ⟨depth, hdepth⟩ := Evaluator.exists_unboundedDepth
  rw [Evaluator.evaluate, hdepth]
  exact (hfound.develops hlater hlive).reduceUpTo options' depth

end GraphReduction
