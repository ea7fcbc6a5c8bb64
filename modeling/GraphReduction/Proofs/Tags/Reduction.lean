import Mathlib
import GraphReduction.Proofs.Tags.Bodies
import GraphReduction.Proofs.Moves.Evaluator

/-! Reduction ends with results. One layer of reduction does over a reducer that does, so every
stack of layers does; what a closure or a node keeps of it is a result for that reason. -/
namespace GraphReduction

open Heap ObjectKind Leaves

variable {rest : Multiset Holding} {s : Machine} {m : Heap} {o : ObjectId}
  {h r function argument closure result : Handle} {c : Closure} {k : Combinator}
  {reduce : Reducer} {options : Options}

theorem Heap.Honest.final_of_tagged (hhonest : m.Honest h) (htag : h.tag ≠ .plain) :
    m.Final h := by
  obtain ⟨tag, o⟩ := h
  cases tag with
  | plain => exact absurd rfl htag
  | cached | exception => exact hhonest

/-- What is there in place of a result, if there is none, is no reference. -/
def caught : Except EvalError Handle → Multiset Holding
  | .ok h => {h.holding}
  | .error _ => 0

/-- What is said of a result, if there is one. -/
def Heap.Comes (good : Heap → Handle → Prop) (m : Heap) : Except EvalError Handle → Prop
  | .ok h => good m h
  | .error _ => True

namespace Leaves

theorem caught {act : Run Handle} {handler : Signal → Run (Except EvalError Handle)}
    {good : Heap → Handle → Prop}
    (h : Leaves s.heap rest (fun r : Handle => {r.holding}) good (act s))
    (hhandler : ∀ signal, (∃ e, handler signal = Pure.pure (.error e)) ∨
      handler signal = MonadExcept.throw signal) :
    Leaves s.heap rest GraphReduction.caught (Comes good)
      ((MonadExcept.tryCatch (do return Except.ok (← act)) handler : Run _) s) := by
  refine .tryCatch (.bind h fun r s₁ _ hup₁ hgood => .pure hup₁ hgood) fun signal s₁ _ hup₁ => ?_
  obtain ⟨e, heq⟩ | heq := hhandler signal
  · rw [heq]
    exact .pure (by simpa [GraphReduction.caught] using hup₁) trivial
  · rw [heq]
    exact .throw hup₁

end Leaves

namespace Evaluator

open Run

theorem invoke_leaves (hreduce : reduce.Finishes) (hup : s.heap.Upright rest)
    (hheld : .strong (.object o) ∈ rest) (hat : c.At s.heap o) :
    Leaves s.heap rest (fun r : Handle => {r.holding}) (fun m r => m.Honest r)
      (invoke options reduce o c s) := by
  refine .step (event_run _ s) (.refl ..) (.inspect ?_)
  rw [Machine.heap_push]
  cases hfound : s.heap.combinator? c.combinator with
  | none =>
    exact (newException_produces (s := s.push (.began o)) _ hup).leaves.imp
      fun _ _ h => h.honest
  | some x =>
    have hprovides : (s.push (.began o)).heap.Provides rest o ⟨x.combinator.name, c⟩ x.combinator :=
      ⟨hheld, hat, by simp [combinatorOf?, hfound]⟩
    refine .bind (.caught (Body.run_leaves hreduce _ hup hprovides (List.Subset.refl _))
      fun signal => ?_) fun outcome s₁ _ hup₁ hcomes => .step (event_run _ s₁) (.refl ..) ?_
    · cases signal with
      | raised e => exact .inl ⟨e, rfl⟩
      | exhausted => exact .inr rfl
      | panicked p =>
        dsimp only
        split
        · exact .inl ⟨_, rfl⟩
        · exact .inr rfl
    · cases outcome with
      | ok r => exact .pure hup₁ hcomes
      | error e =>
        have hup₂ : (s₁.push (.ended o)).heap.Upright rest := by simpa [caught] using hup₁
        exact (newException_produces e hup₂).leaves.imp fun _ _ h => h.honest

theorem accept_leaves (hup : s.heap.Upright (result.holding ::ₘ rest))
    (hfinal : s.heap.Final result) :
    Leaves s.heap rest (fun r : Handle => {r.holding}) (fun m r => m.Final r)
      (accept options closure result s) := by
  rw [accept]
  split
  · refine .bind (.of_ok (.refl ..) (by simpa using hup) hfinal :
      Leaves s.heap rest (fun _ => {result.holding}) (fun m _ => m.Final result)
        (check closure result s)) fun verdict s₁ _ hup₁ hfinal₁ => ?_
    cases verdict with
    | ok _ => exact .pure hup₁ hfinal₁
    | error e =>
      rw [Multiset.singleton_add] at hup₁
      exact .step rfl (.release _ result)
        (newException_produces (s := s₁.on (·.release result)) e hup₁.release).leaves
  · exact .pure (by rwa [Multiset.singleton_add]) hfinal

theorem compute_leaves (hreduce : reduce.Finishes) (hup : s.heap.Upright rest)
    (hheld : closure.holding ∈ rest) (hat : c.At s.heap closure.target) :
    Leaves s.heap rest (fun r : Handle => {r.holding}) (fun m r => m.Final r)
      (compute options reduce closure c s) := by
  rw [compute_eq]
  refine .bind (invoke_leaves hreduce hup hheld hat) fun raw s₁ _ hup₁ hhonest =>
    .releasing ?_ persists_final
  rw [Multiset.singleton_add] at hup₁
  refine .bind (hreduce hup₁ (Multiset.mem_cons_self ..) hhonest) fun r s₂ _ hup₂ hfinal => ?_
  rw [Multiset.singleton_add] at hup₂
  exact accept_leaves hup₂ hfinal

theorem memoized_leaves (hreduce : reduce.Finishes) (hup : s.heap.Upright rest)
    (hheld : h.holding ∈ rest) (hkind : s.heap.kindOf? h.target = some (.closure c))
    (hmissing : c.missing = 0) (hempty : c.memo = .empty) :
    Leaves s.heap rest (fun r : Handle => {r.holding}) (fun m r => m.Final r)
      ((do
        change (·.setMemo h.target .running)
        let value ← tryCatch (compute options reduce h c) fun signal => do
          change (·.setMemo h.target .empty)
          throw signal
        let kept ← share value
        change (·.setMemo h.target (.done kept))
        pure value : Run Handle) s) := by
  let s₀ : Machine := s.on (·.setMemo h.target .running)
  have hup₀ : s₀.heap.Upright rest :=
    hup.setMemo hkind (by simp [hempty, Memo.result?]) hmissing (by simp)
  have hrunning : s₀.heap.kindOf? h.target = some (.closure { c with memo := .running }) := by
    rw [Machine.heap_on, kindOf?_setMemo, if_pos rfl, hkind]
    rfl
  have hleaves : Leaves s₀.heap rest (fun r : Handle => {r.holding}) (fun m r => m.Final r)
      (compute options reduce h c s₀) := compute_leaves hreduce hup₀ hheld
    ⟨.running, hrunning, fun hfull => absurd hempty hfull⟩
  -- meanwhile the memo stays as it is
  have hafter : ∀ {s₁ : Machine}, Spares (objectsOf rest) s₀.heap s₁.heap →
      s₁.heap.IsLive h.edge →
      s₁.heap.kindOf? h.target = some (.closure { c with memo := .running }) := by
    intro s₁ hspares hlive
    obtain ⟨memo, hkind₁, hmemo⟩ := hspares.closure hheld hrunning hlive
    obtain rfl := hmemo (by simp)
    exact hkind₁
  simp only [bind_run, change_run, tryCatch_run]
  change Leaves _ _ _ _ (compute options reduce h c
    { s with heap := s.heap.setMemo h.target .running }) at hleaves
  cases hrun : compute options reduce h c { s with heap := s.heap.setMemo h.target .running } with
  | error signal s₁ =>
    rw [hrun] at hleaves
    obtain ⟨hspares, hup₁⟩ := hleaves
    have hforgotten : (s₁.heap.setMemo h.target .empty).Upright rest :=
      hup₁.setMemo (hafter hspares (hup₁.live hheld)) (by simp [Memo.result?]) hmissing (by simp)
    exact .of_error (s := s₁.on (·.setMemo h.target .empty)) (hspares.around hkind hempty .empty)
      hforgotten
  | ok value s₁ =>
    rw [hrun] at hleaves
    obtain ⟨hspares, hup₁, hfinal⟩ := hleaves
    have hretain : ∀ {fixed}, Spares fixed s₁.heap (s₁.heap.retain value) := .share _ value
    have hshared := hup₁.share (h := value) (hup₁.live (by simp))
    have hkind₁ := (kindOf?_congr (contents_retain _ value) _).trans (hafter hspares
      (hup₁.live (Multiset.mem_add.mpr (.inr hheld))))
    have hkept : ((s₁.heap.retain value).setMemo h.target (.done value)).Upright
        ({value.holding} + rest) := hshared.setMemo hkind₁ (by simp [Memo.result?]) hmissing
      (by rintro _ ⟨⟩; exact (hretain.lasts (Set.mem_univ _)).final hfinal)
    refine .of_ok (s := s₁.on fun m => (m.retain value).setMemo h.target (.done value))
      ((hspares.trans hretain).around hkind hempty _) hkept ?_
    exact (lasts_setMemo hkind₁ _ _).final ((hretain.lasts (Set.mem_univ _)).final hfinal)

theorem result_leaves (hreduce : reduce.Finishes) (hup : s.heap.Upright rest)
    (hheld : h.holding ∈ rest) (hkind : s.heap.kindOf? h.target = some (.closure c))
    (hmissing : c.missing = 0) :
    Leaves s.heap rest (fun r : Handle => {r.holding}) (fun m r => m.Final r)
      (Evaluator.result options reduce h c s) := by
  rw [Evaluator.result]
  cases hmemo : c.memo with
  | empty => exact memoized_leaves hreduce hup hheld hkind hmissing hmemo
  | running => exact .throw hup
  | done r =>
    refine (share_produces hup (hup.live_of_kind hkind ?_) persists_final
      ((hup.cells.object _ _ hkind).2 r hmemo)).leaves
    simp [ObjectKind.holdings_closure, hmemo, Memo.result?, Handle.holding]

theorem saturate_leaves (hreduce : reduce.Finishes) (hup : s.heap.Upright (h.holding ::ₘ rest))
    (hbound : s.heap.Bound h) :
    Leaves s.heap rest (fun r : Handle => {r.holding}) (fun m r => m.Final r)
      ((do
        match ← inspect (·.closure? h) with
        | some c =>
          if c.isSaturated then releasing h (Evaluator.result options reduce h c) else pure h
        | none => pure h : Run Handle) s) := by
  obtain ⟨htag, c, hkind, -⟩ := hbound
  refine .inspect ?_
  rw [closure?_of_kindOf? htag hkind]
  dsimp only
  split
  · next hsaturated =>
    exact .releasing (result_leaves hreduce hup (Multiset.mem_cons_self ..) hkind
      (by simpa [Closure.isSaturated] using hsaturated)) persists_final
  · next hopen =>
    have hmissing : 0 < c.missing := Nat.pos_of_ne_zero (by simpa [Closure.isSaturated] using hopen)
    exact .pure (by rwa [Multiset.singleton_add])
      (.of_isResult (by simp [htag]) (.of_kind hkind hmissing))

theorem applyReduced_leaves (hreduce : reduce.Finishes)
    (hup : s.heap.Upright (function.holding ::ₘ argument.holding ::ₘ rest))
    (hfunction : s.heap.Final function) (hargument : s.heap.Honest argument) :
    Leaves s.heap rest (fun r : Handle => {r.holding}) (fun m r => m.Final r)
      (applyReduced options reduce function argument s) := by
  rw [applyReduced]
  split
  · rw [Multiset.cons_swap] at hup
    have hrelease : ∀ {fixed}, Spares fixed s.heap (s.heap.release argument) := .release _ argument
    exact .step rfl hrelease (.pure (by rw [Multiset.singleton_add]; exact hup.release)
      ((hrelease.lasts (Set.mem_univ _)).final hfunction))
  · refine .bind (.caught (applyArgument_leaves hup hargument) fun signal => ?_)
      fun outcome s₁ _ hup₁ hcomes => ?_
    · cases signal with
      | raised e => exact .inl ⟨e, rfl⟩
      | panicked p | exhausted => exact .inr rfl
    · cases outcome with
      | error e => exact (newException_produces e (by simpa [caught] using hup₁)).leaves
      | ok bound => exact saturate_leaves hreduce (by simpa [caught] using hup₁) hcomes

theorem application_leaves (hreduce : reduce.Finishes)
    (hup : s.heap.Upright (argument.holding ::ₘ rest)) (hheld : function.holding ∈ rest)
    (hfunction : s.heap.Honest function) (hargument : s.heap.Honest argument) :
    Leaves s.heap rest (fun r : Handle => {r.holding}) (fun m r => m.Final r)
      (application options reduce function argument s) := by
  rw [application_eq]
  refine .bind (.releasingOnSignal (hreduce hup (Multiset.mem_cons_of_mem hheld) hfunction))
    fun f s₁ _ hup₁ hf => ?_
  obtain ⟨hfinal, hstays⟩ := hf
  rw [Multiset.cons_add, Multiset.singleton_add, Multiset.cons_swap] at hup₁
  exact applyReduced_leaves hreduce hup₁ hfinal (hstays.lasts.honest hargument)

theorem node_leaves {a : Application} (hreduce : reduce.Finishes) (hup : s.heap.Upright rest)
    (hkind : s.heap.kindOf? h.target = some (.application a)) :
    Leaves s.heap rest (fun r : Handle => {r.holding}) (fun m r => m.Final r)
      ((do
        match ← a.snapshot with
        | .reduced result => pure result
        | .pending function argument =>
          releasing function do
            store h.target (← application options reduce function argument) : Run Handle) s) := by
  refine .bind (Application.snapshot_produces hup hkind).leaves fun found s₁ _ hup₁ hfound => ?_
  cases found with
  | reduced r => exact .pure hup₁ hfound
  | pending f x =>
    have hheld : Snapshot.holdings (.pending f x) + rest = x.holding ::ₘ f.holding ::ₘ rest := by
      rw [Snapshot.holdings, Multiset.insert_eq_cons, Multiset.cons_add, Multiset.singleton_add,
        Multiset.cons_swap]
    rw [hheld] at hup₁
    refine .releasing (.bind (application_leaves hreduce hup₁ (Multiset.mem_cons_self ..) hfound.1
      hfound.2) fun r s₂ _ hup₂ hfinal => ?_) persists_final
    rw [Multiset.singleton_add] at hup₂
    exact store_leaves hup₂ hfinal

theorem reduceOnce_finishes (hreduce : reduce.Finishes) :
    Reducer.Finishes (reduceOnce options reduce) := by
  intro s rest h hup hheld hhonest
  have hshare : s.heap.Final h → Leaves s.heap rest (fun r : Handle => {r.holding})
      (fun m r => m.Final r) (share h s) := fun hfinal =>
    (share_produces hup (hup.live hheld) persists_final hfinal).leaves
  rw [reduceOnce]
  split
  · next htag =>
    obtain ⟨kind, hkind⟩ := hup.kindOf?_of_held hheld
    have hlook : s.heap.kind? h = some kind := hkind
    have hresult : kind.IsResult → s.heap.Final h := fun hresult =>
      .of_isResult (by simp [htag]) (.of_kind hkind hresult)
    refine .inspect ?_
    rw [hlook]
    cases kind with
    | value v => exact hshare (hresult trivial)
    | application a => exact node_leaves hreduce hup hkind
    | exception e =>
      have hsuits := hhonest.2 _ hkind
      rw [htag] at hsuits
      exact absurd ⟨e, rfl⟩ hsuits
    | closure c =>
      dsimp only
      split
      · next hsaturated =>
        exact result_leaves hreduce hup hheld hkind
          (by simpa [Closure.isSaturated] using hsaturated)
      · next hopen =>
        exact hshare (hresult (Nat.pos_of_ne_zero (by simpa [Closure.isSaturated] using hopen)))
  · next htag => exact hshare (hhonest.final_of_tagged htag)

theorem reduceUpTo_finishes (options : Options) (depth : Nat) :
    Reducer.Finishes (reduceUpTo options depth) := by
  induction depth with
  | zero => exact fun hup _ _ => .throw hup
  | succ depth ih => exact reduceOnce_finishes ih

/-- A result is its own result, and to find that out changes nothing but a count. -/
theorem reduceUpTo_final {depth : Nat} (hlive : s.heap.IsLive h.edge) (hfinal : s.heap.Final h) :
    reduceUpTo options (depth + 1) h s = share h s := by
  obtain ⟨x, hx⟩ := Option.isSome_iff_exists.mp hlive
  have hkind : s.heap.kindOf? h.target = some x.kind := by simp [kindOf?, hx]
  have hlook : s.heap.kind? h = some x.kind := hkind
  rw [reduceUpTo, reduceOnce]
  split
  · next htag =>
    have hresult := (hfinal.isResult (by simp [htag])).2 _ hkind
    rw [bind_run, inspect_run]
    dsimp only
    rw [hlook]
    cases hcontent : x.kind with
    | value v | exception e => rfl
    | application a =>
      rw [hcontent] at hresult
      exact hresult.elim
    | closure c =>
      rw [hcontent] at hresult
      have hopen : c.isSaturated = false := by
        have hmissing : 0 < c.missing := hresult
        simp [Closure.isSaturated, hmissing.ne']
      simp [hopen]
  · rfl

end Evaluator

end GraphReduction
