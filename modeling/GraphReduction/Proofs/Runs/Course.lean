import Mathlib
import GraphReduction.Proofs.Moves.Evaluator
import GraphReduction.Proofs.Runs.Leads

/-! Single changes of a heap, and the runs that go by them. Whatever bodies do and however an
evaluation ends, it gets from one heap to another by changes of these kinds. -/
namespace GraphReduction

open Heap Run

/-- The single changes of a heap. Cells come and go, what is evaluated is kept, knots are pointed at
their values, combinators are declared, values are copied, and arguments are bound, in place or in a
copy. While a result is computed, its closure says so. -/
class Heap.IsCourse (r : Heap → Heap → Prop) : Prop extends IsGrowth r where
  within {m m' : Heap} (h : m'.Within m) : r m m'
  keep {m : Heap} {t : ThunkId} {x : Handle} (hstate : m.stateOf? t = some (.pending x))
    (h : Handle) : r m (m.setThunkState t (.forced h))
  reduce {m : Heap} {o : ObjectId} {f x : Handle}
    (hkind : m.kindOf? o = some (.application (.pending f x))) (h : Handle) :
    r m (m.setKind o (.application (.reduced h)))
  point {m : Heap} {o : ObjectId} (hkind : m.kindOf? o = some (.application (.knot .unresolved)))
    (k : Knot) : r m (m.setKind o (.application (.knot k)))
  memoize {m : Heap} {o : ObjectId} {c : Closure} (hkind : m.kindOf? o = some (.closure c))
    (hmemo : c.memo.result? = none) (h : Handle) : r m (m.setMemo o (.done h))
  compute {m m' : Heap} {o : ObjectId} {c : Closure} {memo : Memo}
    (hkind : m.kindOf? o = some (.closure c)) (hmissing : c.missing = 0) (hmemo : c.memo = .empty)
    (h : r (m.setMemo o .running) m') (hend : memo = .empty ∨ ∃ h, memo = .done h) :
    r m (m'.setMemo o memo)
  declare (m : Heap) (hold : Hold) {k : Combinator} (hk : 0 < k.arity) :
    r m ((m.newCombinator k).2.addObject hold
      (.closure (.bare (m.newCombinator k).1 k.arity))).2
  fill {m : Heap} {o : ObjectId} {c : Closure} (hkind : m.kindOf? o = some (.closure c))
    (hmissing : 0 < c.missing) (t : ThunkId) : r m (m.setKind o (.closure (c.fill t)))
  clone {m : Heap} {o : ObjectId} {v : Boxed} (hkind : m.kindOf? o = some (.value v)) :
    r m (m.newObject (.value v)).2
  copy {m : Heap} {o : ObjectId} {c c' : Closure} (hkind : m.kindOf? o = some (.closure c))
    (hcopy : c'.CopyOf m c) : r m (m.newObject (.closure c')).2
  copyFilled {m : Heap} {o : ObjectId} {c c' : Closure} (hkind : m.kindOf? o = some (.closure c))
    (hcopy : c'.CopyOf m c) (hmissing : 0 < c.missing) (t : ThunkId) :
    r m (m.newObject (.closure (c'.fill t))).2

variable {r : Heap → Heap → Prop} [IsCourse r]

theorem Leads.releasing {α : Type} {act : Run α} {s : Machine} {h : Handle} (hact : Leads r s act) :
    Leads r s (Run.releasing h act) :=
  have hrelease : Along r (Run.release h) :=
    .change fun m => IsCourse.within (within_release m h)
  .bind (.tryCatch hact fun _ s' _ => (Along.bind hrelease fun _ => .throw _ : Along r _) s')
    fun _ s' _ => (Along.bind hrelease fun _ => .pure _ : Along r _) s'

namespace Along

variable {α : Type} {act : Run α}

theorem releasing {h : Handle} (hact : Along r act) : Along r (Run.releasing h act) :=
  fun s => .releasing (hact s)

theorem releasingOnSignal {h : Handle} (hact : Along r act) :
    Along r (Run.releasingOnSignal h act) :=
  .tryCatch hact fun _ =>
    .bind (change fun m => IsCourse.within (within_release m h)) fun _ => .throw _

end Along

namespace Run

theorem release_along (h : Handle) : Along r (release h) :=
  .change fun m => IsCourse.within (within_release m h)

theorem releaseThunk_along (t : ThunkId) : Along r (change (·.releaseThunk t)) :=
  .change fun m => IsCourse.within (within_releaseThunk m t)

theorem intoResult_along (h : Handle) : Along r (intoResult h) :=
  .bind (.inspect _) fun error? => by
    cases error? with
    | none => exact .pure _
    | some e => exact .bind (release_along h) fun _ => .throw _

theorem kindOf?_of_shared {m m' : Heap} {node : ObjectId} {a : Application}
    (hnode : (m.kind? (.plain node)).bind ObjectKind.application? = some a)
    (hsame : m'.contents = m.contents) : m'.kindOf? node = some (.application a) :=
  (kindOf?_congr hsame node).trans (kindOf?_of_node hnode)

theorem store_along (node : ObjectId) (result : Handle) : Along r (store node result) := by
  intro s
  refine .inspect ?_
  cases happ : (s.heap.kind? (.plain node)).bind ObjectKind.application? with
  | none => exact .pure _
  | some a =>
    cases a with
    | pending f x =>
      refine .bind (share_along _ s) fun kept s₁ hrun => ?_
      cases hrun
      have hnode := kindOf?_of_shared happ (contents_retain s.heap result.asCached)
      refine .bind (.change (IsCourse.reduce hnode _)) fun _ s₂ _ => ?_
      exact (Along.bind (release_along f) fun _ =>
        .bind (release_along x) fun _ => .pure _) s₂
    | reduced first =>
      exact (Along.bind (share_along first) fun _ =>
        .bind (release_along _) fun _ => .pure _) s
    | knot k =>
      exact (Along.bind (k.reduced_along) fun _ =>
        .bind (release_along _) fun _ => .pure _) s

theorem resolve_along (node : ObjectId) (value : Handle) : Along r (resolve node value) := by
  intro s
  refine .inspect ?_
  cases happ : (s.heap.kind? (.plain node)).bind ObjectKind.application? with
  | none => exact .pure _
  | some a =>
    match a with
    | .knot .unresolved =>
      refine .inspect (.ite ?_ (.ite ?_ ?_))
      · refine .bind (share_along value s) fun _ s₁ hrun => ?_
        cases hrun
        exact .bind (.pure _) fun _ s₂ hrun => by
          cases hrun
          exact .change (IsCourse.point (kindOf?_of_shared happ (contents_retain _ _)) _)
      · exact .bind (.pure _) fun _ s₂ hrun => by
          cases hrun
          exact .change (IsCourse.point (kindOf?_of_node happ) _)
      · refine .bind (retainWeak_along value.target s) fun _ s₁ hrun => ?_
        cases hrun
        exact .bind (.pure _) fun _ s₂ hrun => by
          cases hrun
          exact .change (IsCourse.point (kindOf?_of_shared happ (contents_retainWeak _ _)) _)
    | .knot (.weak o) | .knot (.strong h) | .pending f x | .reduced first => exact .pure _

end Run

/-! Thunks -/

namespace ThunkId

theorem keep_along (t : ThunkId) (value : Handle) : Along r (t.keep value) := by
  intro s
  refine .inspect ?_
  match hstate : (s.heap.thunk? t).map Thunk.state with
  | some (.forced first) =>
    exact (Along.bind (Run.share_along first) fun _ =>
      .bind (release_along value) fun _ => .pure _ : Along r _) s
  | some (.pending suspended) =>
    refine .bind (Run.share_along value s) fun kept s₁ hrun => ?_
    cases hrun
    have hstate₁ : (s.heap.retain value).stateOf? t = some (.pending suspended) :=
      (stateOf?_congr (contents_retain s.heap value) t).trans hstate
    exact .bind (.change (IsCourse.keep hstate₁ _)) fun _ s₂ _ =>
      (Along.bind (release_along suspended) fun _ => .pure _ : Along r _) s₂
  | some (.recursive o) | none => exact .pure _

theorem force_along {reduce : Reducer} (hreduce : ∀ h, Along r (reduce h)) (t : ThunkId) :
    Along r (t.force reduce) :=
  .bind (.inspect _) fun state? => by
    match state? with
    | some (.forced h) => exact Run.share_along h
    | some (.recursive o) => exact upgrade_along o
    | some (.pending h) =>
      exact .bind (Run.share_along h) fun _ => .releasing (.bind (.inspect _) fun _ =>
        .bind (hreduce _) fun value => .ite (.pure _) (t.keep_along value))
    | none => exact newException_along _

theorem peek_along (t : ThunkId) : Along r t.peek :=
  .bind (.inspect _) fun state? => by
    match state? with
    | some (.forced h) | some (.pending h) => exact Run.share_along h
    | some (.recursive o) => exact upgrade_along o
    | none => exact newException_along _

end ThunkId

namespace Run

theorem bindThunk_along (function : Handle) (t : ThunkId) : Along r (bindThunk function t) := by
  intro s
  refine .inspect ?_
  cases hclosure : s.heap.closure? function.untagged with
  | none =>
    exact (Along.bind (.inspect _) fun _ => .bind (releaseThunk_along t) fun _ =>
      .bind (release_along _) fun _ => .throw _ : Along r _) s
  | some c =>
    have hkind : s.heap.kindOf? function.target = some (.closure c) :=
      kindOf?_of_closure? (h := function.untagged) hclosure
    dsimp only
    split
    · exact (Along.bind (.inspect _) fun _ => .bind (releaseThunk_along t) fun _ =>
        .bind (release_along _) fun _ => .throw _ : Along r _) s
    · next hsaturated =>
      have hmissing : 0 < c.missing := by
        simp only [Closure.isSaturated, beq_iff_eq] at hsaturated
        omega
      refine .inspect (.inspect (.ite ?_ ?_))
      · exact .bind (.change (IsCourse.fill hkind hmissing t)) fun _ _ _ => .pure _
      · refine .bind (c.copy_along s) fun fresh s₁ hcopy => ?_
        have hkind₁ := (Closure.copy_extends hcopy).kind _ _ hkind
        refine .bind (.add (IsCourse.copyFilled hkind₁ (Closure.copy_copyOf hcopy) hmissing t))
          fun _ s₂ _ => ?_
        exact (Along.bind (release_along _) fun _ => .pure _) s₂

theorem bindSelf_along (function : Handle) : Along r (bindSelf function) := by
  intro s
  have hrefuse : Along r (do
      Run.raise (.badFix (← Run.inspect (·.describe function))) : Run Handle) :=
    .bind (.inspect _) fun _ => .throw _
  refine .inspect ?_
  cases hclosure : s.heap.closure? function with
  | none => exact hrefuse s
  | some c =>
    have hkind := kindOf?_of_closure? hclosure
    dsimp only
    split
    · exact hrefuse s
    · next hmissing =>
      refine .bind (c.copy_along s) fun fresh s₁ hcopy => ?_
      have hkind₁ := (Closure.copy_extends hcopy).kind _ _ hkind
      refine .inspect (.bind (newThunk_along _ s₁) fun t s₂ hrun => ?_)
      cases hrun
      have hkind₂ : (s₁.heap.newThunk (.recursive s₁.heap.nextObject)).2.kindOf? function.target =
          some (.closure c) := hkind₁
      have hlike := (Closure.copy_copyOf hcopy).extends
        (IsGrowth.newThunk s₁.heap (.recursive s₁.heap.nextObject))
      refine .bind (.add (IsCourse.copyFilled hkind₂ hlike (by omega) _)) fun _ s₃ _ => ?_
      exact (Along.bind (retainWeak_along _) fun _ => .pure _) s₃

theorem cloneObject_along (h : Handle) : Along r (cloneObject h) := by
  intro s
  have hfinish : ∀ kind s, Leads r s (newObject kind) → Leads r s (cloneObject.finish h kind) :=
    fun kind s hnew => .bind hnew fun _ _ _ => .pure _
  refine .inspect ?_
  cases hkind : s.heap.kind? h with
  | none => exact newException_along _ s
  | some kind =>
    cases kind with
    | value v =>
      refine .bind (Along.forM retain_along _ s) fun _ s₁ hparts => hfinish _ s₁ ?_
      have hext : s.heap.Extends s₁.heap := (Along.forM retain_along _).of_ok hparts
      exact .add (IsCourse.clone (hext.kind _ _ hkind))
    | closure c =>
      refine .bind (c.copy_along s) fun fresh s₁ hcopy => ?_
      have hkind₁ := (Closure.copy_extends hcopy).kind _ _ hkind
      exact hfinish _ s₁ (.add (IsCourse.copy hkind₁ (Closure.copy_copyOf hcopy)))
    | application a =>
      exact .bind (a.duplicate_along s) fun _ s₁ _ => hfinish _ s₁ (newObject_along (by trivial) s₁)
    | exception e => exact hfinish _ s (newObject_along (by trivial) s)

theorem applyArgument_along (function argument : Handle) :
    Along r (applyArgument function argument) :=
  .bind (newThunk_along _) fun t => bindThunk_along function t

theorem typeOf_along (h : Handle) : Along r (typeOf h) := fun s =>
  ⟨IsGrowth.refl s.heap, .of_serves (s.heap.handsOut_typeOf h s.vars) rfl⟩

theorem typeText_along (h : Handle) : Along r (typeText h) :=
  .bind (typeOf_along h) fun found => by
    cases found with
    | ok t => exact .pure _
    | error e => exact .throw _

end Run

/-! Bodies -/

section Bodies

variable {reduce : Reducer} (hreduce : ∀ h, Along r (reduce h))
include hreduce

namespace Args

variable (args : Args) (i : Nat)

omit hreduce in
theorem thunk_along : Along r (args.thunk i) := by
  rw [Args.thunk]
  cases args.closure.argument? i with
  | some t => exact .pure _
  | none => exact .throw _

theorem force_along : Along r (args.force reduce i) :=
  .bind (args.thunk_along i) fun t => .bind (t.force_along hreduce) fun h =>
    intoResult_along h

theorem unbox_along {α : Type} (expected : TypeName) (take : Payload → Option α) :
    Along r (args.unbox reduce i expected take) := by
  refine .bind (args.force_along hreduce i) fun h => .bind (.inspect _) fun v? => ?_
  cases v?.bind fun v => take v.payload with
  | some a => exact .bind (release_along h) fun _ => .pure _
  | none =>
    exact .bind (.inspect _) fun _ => .bind (release_along h) fun _ => .throw _

theorem pair_along : Along r (args.pair reduce i) := by
  refine .bind (args.force_along hreduce i) fun h => .bind (.inspect _) fun v? => ?_
  have hrefuse : Along r (do
      let actual ← Run.inspect (·.describe h)
      release h
      Run.raise (.typeMismatch TypeName.pair.text actual) : Run (Handle × Handle)) :=
    .bind (.inspect _) fun _ => .bind (release_along h) fun _ => .throw _
  match v?.map Boxed.payload with
  | some (.pair first second) =>
    exact .bind (share_along first) fun _ => .bind (share_along second) fun _ =>
      .bind (release_along h) fun _ => .pure _
  | some (.int n) | some (.bool b) | some (.str t) | some (.tracked c) | none => exact hrefuse

end Args

theorem Run.tie_along (function : Handle) : Along r (tie reduce function) := by
  refine .bind (.inspect _) fun c? => ?_
  match (c?.map Closure.missing).getD 0 with
  | 0 =>
    exact .bind (.inspect _) fun _ =>
      .bind (release_along function) fun _ => .throw _
  | 1 =>
    refine .bind (newObject_along trivial) fun knot =>
      .bind (.releasing (.bind (share_along knot) fun argument =>
        .bind (applyArgument_along function argument) fun saturated =>
          .releasing (.bind (hreduce saturated) fun value =>
            .bind (intoResult_along value) fun value =>
              .bind (resolve_along knot.target value) fun _ => .pure value)))
      fun value => .bind (.tied _ _) fun _ => .pure value
  | n + 2 => exact .releasing (bindSelf_along function)

theorem Body.run_along (args : Args) (part : Body Handle) : Along r (part.run reduce args) := by
  induction part with
  | lazy i => exact .bind (args.thunk_along i) fun t => t.peek_along
  | force i => exact args.force_along hreduce i
  | value type i =>
    cases type with
    | int => exact .bind (args.unbox_along hreduce i _ _) fun _ => newValue_along _ _
    | bool => exact .bind (args.unbox_along hreduce i _ _) fun _ => newValue_along _ _
    | str => exact .bind (args.unbox_along hreduce i _ _) fun _ => newValue_along _ _
    | pair => exact .bind (args.pair_along hreduce i) fun _ => newValue_along _ _
  | length => exact newValue_along _ _
  | isEmpty => exact newValue_along _ _
  | name => exact newValue_along _ _
  | int n => exact newValue_along _ _
  | bool b => exact newValue_along _ _
  | str t => exact newValue_along _ _
  | primitive p => exact share_along _
  | captured h => exact share_along h
  | apply function argument ihf iha =>
    exact .bind ihf fun _ => .bind (.releasingOnSignal iha) fun _ =>
      newApplication_along _ _
  | bind function argument ihf iha =>
    exact .bind ihf fun _ => .bind (.releasingOnSignal iha) fun _ =>
      applyArgument_along _ _
  | pair first second ih₁ ih₂ =>
    exact .bind ih₁ fun _ => .bind (.releasingOnSignal ih₂) fun _ => newValue_along _ _
  | field i e ih =>
    refine .bind ih fun h => .releasing (.bind (.inspect _) fun part? => ?_)
    cases part? with
    | some part => exact share_along part
    | none => exact .throw _
  | eval e ih =>
    exact .bind ih fun h => .releasing (.bind (hreduce h) fun r => intoResult_along r)
  | clone e ih => exact .bind ih fun h => .releasing (cloneObject_along h)
  | bindSelf e ih => exact .bind ih fun h => .releasing (bindSelf_along h)
  | typeOf e ih =>
    exact .bind ih fun h => .releasing (.bind (typeText_along h) fun _ =>
      newValue_along _ _)
  | seq first second ih₁ ih₂ =>
    exact .bind ih₁ fun h => .bind (release_along h) fun _ => ih₂
  | recover attempt otherwise ih₁ ih₂ =>
    refine .tryCatch ih₁ fun signal => ?_
    cases signal with
    | raised e => exact ih₂
    | panicked p => exact .throw _
    | exhausted => exact .throw _
  | log text e ih => exact .bind (.note text) fun _ => ih
  | compare how i n yes no ih₁ ih₂ =>
    exact .bind (args.unbox_along hreduce i _ _) fun _ => .ite ih₁ ih₂
  | cond i yes no ih₁ ih₂ =>
    exact .bind (args.unbox_along hreduce i _ _) fun _ => .ite ih₁ ih₂
  | raise e => exact .throw _
  | panic p => exact .throw _
  | arith op =>
    refine .bind (args.unbox_along hreduce 0 _ _) fun a =>
      .bind (args.unbox_along hreduce 1 _ _) fun b => ?_
    cases op.result? a b with
    | some n => exact newValue_along _ _
    | none => exact .throw _
  | test how =>
    exact .bind (args.unbox_along hreduce 0 _ _) fun _ =>
      .bind (args.unbox_along hreduce 1 _ _) fun _ => newValue_along _ _
  | fail i => exact .bind (args.unbox_along hreduce i _ _) fun _ => .throw _
  | tie => exact .bind (args.force_along hreduce 0) fun f => tie_along hreduce f

end Bodies

/-! Evaluation -/

namespace Evaluator

variable {options : Options} {reduce : Reducer} (hreduce : ∀ h, Along r (reduce h))
include hreduce

theorem invoke_along (closure : ObjectId) (c : Closure) :
    Along r (invoke options reduce closure c) := by
  refine .bind (.event _) fun _ => .bind (.inspect _) fun held? => ?_
  cases held? with
  | none => exact newException_along _
  | some held =>
    refine .bind (.tryCatch (.bind (Body.run_along hreduce _ _) fun _ => .pure _)
      fun signal => ?_) fun outcome => .bind (.event _) fun _ => ?_
    · cases signal with
      | raised e => exact .pure _
      | panicked p => exact .ite (.pure _) (.throw _)
      | exhausted => exact .throw _
    · cases outcome with
      | ok h => exact .pure h
      | error e => exact newException_along e

omit hreduce in
omit [IsCourse r] in
theorem check_along [IsGrowth r] (closure result : Handle) : Along r (check closure result) :=
  fun s => ⟨IsGrowth.refl s.heap, .of_serves (s.heap.handsOut_checkResult closure result s.vars) rfl⟩

omit hreduce in
theorem accept_along (closure result : Handle) : Along r (accept options closure result) := by
  refine .ite (.bind (check_along closure result) fun outcome => ?_) (.pure _)
  cases outcome with
  | ok _ => exact .pure _
  | error e => exact .bind (release_along result) fun _ => newException_along e

theorem compute_along (closure : Handle) (c : Closure) :
    Along r (compute options reduce closure c) := by
  rw [compute_eq]
  exact .bind (invoke_along hreduce _ c) fun raw =>
    .releasing (.bind (hreduce raw) fun result => accept_along closure result)

theorem result_leads {s : Machine} {closure : Handle} {c : Closure}
    (hkind : s.heap.kindOf? closure.target = some (.closure c)) (hmissing : c.missing = 0) :
    Leads r s (result options reduce closure c) := by
  rw [result]
  cases hmemo : c.memo with
  | done h => exact share_along h s
  | running => exact .throw _
  | empty =>
    have hcompute : Along r (compute options reduce closure c) := compute_along hreduce closure c
    obtain ⟨hleads, hrequests⟩ := hcompute (s.on (·.setMemo closure.target .running))
    have hbegins : Requests s (s.on (·.setMemo closure.target .running)) := .of_vars rfl
    simp only [Leads, Run.bind_run, change_run, tryCatch_run]
    cases hrun : compute options reduce closure c
        { s with heap := s.heap.setMemo closure.target .running } with
    | error signal s₁ =>
      rw [Machine.on, hrun] at hleads hrequests
      exact ⟨IsCourse.compute hkind hmissing hmemo hleads (.inl rfl),
        hbegins.trans (hrequests.trans (.of_vars rfl))⟩
    | ok value s₁ =>
      rw [Machine.on, hrun] at hleads hrequests
      have hshared : r (s.heap.setMemo closure.target .running) (s₁.heap.retain value) :=
        IsGrowth.trans hleads (IsGrowth.retainEdge s₁.heap value.edge)
      exact ⟨IsCourse.compute hkind hmissing hmemo hshared (.inr ⟨value, rfl⟩),
        hbegins.trans (hrequests.trans (.of_vars rfl))⟩

omit hreduce in
theorem tryApply_along (function argument : Handle) : Along r (tryApply function argument) := by
  refine .tryCatch (.bind (applyArgument_along _ _) fun _ => .pure _) fun signal => ?_
  cases signal with
  | raised e => exact .pure _
  | panicked p => exact .throw _
  | exhausted => exact .throw _

theorem applyReduced_along (function argument : Handle) :
    Along r (applyReduced options reduce function argument) := by
  refine .ite (.bind (release_along argument) fun _ => .pure function)
    (.bind (tryApply_along _ _) fun outcome => ?_)
  cases outcome with
  | error e => exact newException_along e
  | ok bound =>
    intro s
    refine .inspect ?_
    cases hclosure : s.heap.closure? bound with
    | none => exact .pure bound
    | some c =>
      dsimp only
      split
      · next hsaturated =>
        have hmissing : c.missing = 0 := by simpa [Closure.isSaturated] using hsaturated
        exact .releasing (result_leads hreduce (kindOf?_of_closure? hclosure) hmissing)
      · exact .pure bound

theorem application_along (function argument : Handle) :
    Along r (application options reduce function argument) := by
  rw [application_eq]
  exact .bind (.releasingOnSignal (hreduce function)) fun f =>
    applyReduced_along hreduce f argument

theorem reduceOnce_along (h : Handle) : Along r (reduceOnce options reduce h) := by
  refine .ite (fun s => .inspect ?_) (share_along h)
  match hkind : s.heap.kind? h with
  | some (.application a) =>
    refine (Along.bind (a.snapshot_along) fun found => ?_ : Along r _) s
    cases found with
    | reduced r => exact .pure r
    | pending f x =>
      exact .releasing (.bind (application_along hreduce f x) fun r =>
        store_along _ r)
  | some (.closure c) =>
    dsimp only
    split
    · next hsaturated =>
      exact result_leads hreduce hkind (by simpa [Closure.isSaturated] using hsaturated)
    · exact share_along h s
  | some (.value v) | some (.exception e) | none => exact share_along h s

omit hreduce in
theorem reduceUpTo_along (options : Options) (depth : Nat) (h : Handle) :
    Along r (reduceUpTo options depth h) := by
  induction depth generalizing h with
  | zero => exact .throw _
  | succ depth ih => exact reduceOnce_along ih h

omit hreduce in
theorem evaluateToResult_along (options : Options) (h : Handle) :
    Along r (evaluateToResult options h) :=
  .bind (reduceUpTo_along options _ h) fun result => intoResult_along result

end Evaluator

end GraphReduction
