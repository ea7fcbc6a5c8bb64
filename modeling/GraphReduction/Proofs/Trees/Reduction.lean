import Mathlib
import GraphReduction.Proofs.Moves.Evaluator
import GraphReduction.Proofs.Trees.Bodies

/-! Reduction, read as evaluation of trees. One layer over a reducer that mirrors evaluation mirrors
it with one layer more. The memo of a closure says what its tree comes to; while it is being
computed, to ask for it is to wait for what is not there with fewer layers either. -/
namespace GraphReduction

open Heap Run Marks Reading

variable {options : Options} {d : Nat} {m m' : Heap} {R R' : Reading}
  {rest held : Multiset Holding} {s : Machine} {o : ObjectId} {h : Handle} {t v x : Tree}
  {reduce : Reducer} {given : Tree.Given} {k : Combinator} {c : Closure} {memo : Memo}

/-! Layers -/

theorem Mirrors.layer {α β : Type} {post : α → Multiset Holding} {good : Reading → α → β → Prop}
    {layers : Nat → Except Signal β} {result : EStateM.Result Signal Machine α}
    (hzero : layers 0 = .error .exhausted)
    (h : Mirrors options d m R rest post good (fun n => layers (n + 1)) result) :
    Mirrors options (d + 1) m R rest post good layers result := by
  refine Finishes.imp h (fun _ _ _ ⟨b, hgood, hlayers⟩ =>
    ⟨b, hgood, (Settles.succ_iff hzero).1 hlayers⟩) fun signal hsignal => ?_
  match signal with
  | .raised e => exact (Settles.succ_iff hzero).1 hsignal
  | .panicked p => exact (Settles.succ_iff hzero).1 hsignal
  | .exhausted =>
    intro n hn hwaits
    cases n with
    | zero => exact hzero
    | succ n => exact hsignal n (by omega) fun o ho k hk => hwaits o ho k (by omega)

namespace Tree

theorem saturate_of_missing (hcode : t.code?.isSome) (hmissing : t.missing = 0)
    (reduce : Tree.Reducer) : saturate options reduce t = result options reduce t :=
  if_pos ⟨hcode, hmissing⟩

theorem saturate_of_isNormal (h : t.IsNormal) (reduce : Tree.Reducer) :
    saturate options reduce t = .ok t :=
  (reduceOnce_of_not_isApply h.1).symm.trans (reduceOnce_of_isNormal h)

theorem reduceUpTo_of_missing (hcode : t.code?.isSome) (hmissing : t.missing = 0) (n : Nat) :
    reduceUpTo options (n + 1) t = result options (reduceUpTo options n) t := by
  obtain ⟨c, hc⟩ := Option.isSome_iff_exists.1 hcode
  rw [reduceUpTo, reduceOnce_of_not_isApply (not_isApply_of_code? hc),
    saturate_of_missing hcode hmissing]

end Tree

/-! Signals that become results -/

/-- A handler that makes an error of a signal where `f` does, and passes it on where `f` does. -/
structure Catches (handler : Signal → Run (Except EvalError Handle))
    (f : Except Signal Tree → Except Signal Tree) : Prop where
  ok : ∀ t, f (.ok t) = .ok t
  raised : ∀ e, handler (.raised e) = pure (.error e) ∧ f (.error (.raised e)) = .ok (.failed e)
  panicked : ∀ p,
    (∃ e, handler (.panicked p) = pure (.error e) ∧ f (.error (.panicked p)) = .ok (.failed e)) ∨
      handler (.panicked p) = throw (.panicked p) ∧
        f (.error (.panicked p)) = .error (.panicked p)
  exhausted : handler .exhausted = throw .exhausted ∧ f (.error .exhausted) = .error .exhausted

def Reading.Comes (good : Reading → Handle → Tree → Prop) (R : Reading) :
    Except EvalError Handle → Tree → Prop
  | .ok h, t => good R h t
  | .error e, t => t = .failed e

theorem Mirrors.caught {act : Run Handle} {handler : Signal → Run (Except EvalError Handle)}
    {f : Except Signal Tree → Except Signal Tree} {good : Reading → Handle → Tree → Prop}
    {layers : Nat → Except Signal Tree} (hcatches : Catches handler f)
    (h : Mirrors options d m R rest (fun r : Handle => {r.holding}) good layers (act s)) :
    Mirrors options d m R rest Evaluator.outcome (Comes good) (fun n => f (layers n))
      (tryCatch (do return Except.ok (← act)) handler s) := by
  have hgiven : ∀ n : Nat, f (.error .exhausted) = .error .exhausted := fun _ => hcatches.exhausted.2
  rw [tryCatch_run, Run.bind_run]
  match hact : act s with
  | .ok a s' =>
    rw [hact] at h
    obtain ⟨R', hev, hup, b, hgood, hlayers⟩ := h
    refine settled (f := fun o _ => f o) hlayers hgiven ?_
    exact .of_ok hev hup hgood (by rw [hcatches.ok]; exact .always _)
  | .error (.raised e) s' =>
    rw [hact] at h
    obtain ⟨hlayers, hends⟩ := h
    obtain ⟨R', hev, hup⟩ := hends nofun
    refine settled (f := fun o _ => f o) hlayers hgiven ?_
    dsimp only
    rw [(hcatches.raised e).1, (hcatches.raised e).2]
    exact .of_ok hev (hup.error e) rfl (.always _)
  | .error (.panicked p) s' =>
    rw [hact] at h
    obtain ⟨hlayers, hends⟩ := h
    obtain ⟨R', hev, hup⟩ := hends nofun
    refine settled (f := fun o _ => f o) hlayers hgiven ?_
    dsimp only
    obtain ⟨e, hhandler, hf⟩ | ⟨hhandler, hf⟩ := hcatches.panicked p
    · rw [hhandler, hf]
      exact .of_ok hev (hup.error e) rfl (.always _)
    · rw [hhandler, hf]
      exact .panicked hev hup (.always _)
  | .error .exhausted s' =>
    rw [hact] at h
    dsimp only
    rw [hcatches.exhausted.1]
    exact givenUp (f := fun o _ => f o) h hgiven

/-! Memos -/

namespace Reading

theorem Waits.running {n : Nat} (h : Waits options m R n)
    (hself : ∀ j ≤ n, Tree.reduceUpTo options j (R.object o) = .error .exhausted) :
    Waits options (m.setMemo o .running) R n := by
  rintro p ⟨e, hclosure, hrunning⟩ j hj
  rw [kindOf?_setMemo] at hclosure
  split at hclosure
  · next heq => exact heq ▸ hself j hj
  · exact h p ⟨e, hclosure, hrunning⟩ j hj

end Reading

namespace Evaluator

theorem invoke_mirrors (hreduce : reduce.IsMirror options d) (hup : R.Upholds options s.heap rest)
    (hruns : R.Runs s.heap rest o ⟨k.name, c⟩ given (fun h => R.object h.target) k) :
    Mirrors options d s.heap R rest (fun r : Handle => {r.holding})
      (fun R' r t => R'.Stands options r t)
      (fun n => Tree.caught options (Tree.run (Tree.reduceUpTo options n) given
        (k.body.map fun h => R.object h.target)))
      (invoke options reduce o c s) := by
  obtain ⟨x, hx, hcodes⟩ := hup.combinator hruns.kind
  obtain rfl : x.combinator = k := Option.some.inj ((by simp [combinatorOf?, hx] :
    s.heap.combinatorOf? c.combinator = some x.combinator).symm.trans hruns.combinator)
  refine .step (event_run _ s) (.refl ..) (.inspect ?_)
  rw [Machine.heap_push, hx]
  dsimp only
  have hbody := Body.run_mirrors hreduce (s := s.push (.began o)) x.combinator.body hcodes.stateless
    hup hruns (List.Subset.refl _)
  refine .of_settles (fun n => bind_pure _) (.bind (g := fun t _ => .ok t)
    (.caught ?_ hbody) fun outcome s₁ R₁ t hev hup₁ houtcome _ => ?_)
  · refine ⟨fun _ => rfl, fun _ => ⟨rfl, rfl⟩, fun p => ?_, rfl, rfl⟩
    cases hcatch : options.catchPanics with
    | true => exact .inl ⟨.foreign p.message, by simp, by simp [Tree.caught, hcatch]⟩
    | false => exact .inr ⟨by simp, by simp [Tree.caught, hcatch]⟩
  · refine .step (event_run _ s₁) (.refl ..) ?_
    cases outcome with
    | ok h => exact .of_ok (.refl ..) hup₁ houtcome.stands (.always _)
    | error e =>
      obtain rfl : t = .failed e := houtcome
      exact .imp (Mirrors.newException (s := s₁.push (.ended o)) e hup₁.of_outcome)
        fun _ _ _ hshows => ⟨.inl hshows.tree, hshows.tree ▸ hshows.tagged⟩

theorem compute_mirrors (hoptions : options.checkResults = false)
    (hreduce : reduce.IsMirror options d) (hup : R.Upholds options s.heap rest)
    (hruns : R.Runs s.heap rest h.target ⟨k.name, c⟩ given (fun h => R.object h.target) k) :
    Mirrors options d s.heap R rest (fun r : Handle => {r.holding}) (fun R' r v => R'.Shows r v)
      (fun n => do Tree.reduceUpTo options n (← Tree.caught options
        (Tree.run (Tree.reduceUpTo options n) given (k.body.map fun h => R.object h.target))))
      (compute options reduce h c s) := by
  refine .bind (g := fun t n => Tree.reduceUpTo options n t) (invoke_mirrors hreduce hup hruns)
    fun raw s₁ R₁ t _ hup₁ hstands _ => .releasing ?_
  rw [Multiset.singleton_add] at hup₁
  refine .of_settles (fun _ => bind_pure _) (.bind (g := fun v _ => .ok v)
    (hreduce.handle hup₁ (Multiset.mem_cons_self ..) hstands) fun r s₂ R₂ v _ hup₂ hshows _ => ?_)
  simp only [hoptions, Bool.false_and, Bool.false_eq_true, if_false]
  exact .of_ok (.refl ..) hup₂ hshows (.always _)

theorem runs_of_kind (hup : R.Upholds options s.heap rest)
    (hkind : s.heap.kindOf? o = some (.closure c)) (hmissing : c.missing = 0)
    (hheld : .strong (.object o) ∈ rest) (hmemo : c.memo = .running) :
    ∃ k given, R.Runs s.heap rest o ⟨k.name, c⟩ given (fun h => R.object h.target) k ∧
      ∀ reduce, Tree.result options reduce (R.object o) = (do
        reduce (← Tree.caught options (Tree.run reduce given
          (k.body.map fun h => R.object h.target)))) := by
  obtain ⟨x, hx, hcodes⟩ := hup.combinator hkind
  have hcloses := hup.closes hkind
  have hfound : s.heap.combinatorOf? c.combinator = some x.combinator := by simp [combinatorOf?, hx]
  have hsame : ({ c with memo := .running } : Closure) = c := by rw [← hmemo]
  refine ⟨x.combinator, ⟨x.combinator.name, (R.object o).args⟩,
    ⟨⟨hheld, hsame.symm ▸ hkind, hmissing, rfl, hcloses.args⟩, hfound, ?_⟩, fun reduce => ?_⟩
  · rw [hcodes.code]
  · rw [Tree.result, hcloses.code, hcodes.code]
    exact if_pos ((Body.isStateless_map ..).2 hcodes.stateless)

theorem kept_mirrors {r : Handle} (hup : R.Upholds options s.heap rest)
    (hkind : s.heap.kindOf? o = some (.closure c)) (hdone : c.memo = .done r) :
    Mirrors options d s.heap R rest (fun r : Handle => {r.holding}) (fun R' r v => R'.Shows r v)
      (fun n => Tree.result options (Tree.reduceUpTo options n) (R.object o)) (share r s) := by
  have hcloses := hup.closes hkind
  obtain ⟨v, hshows, hyields⟩ := hcloses.done r hdone
  have hmissing : (R.object o).missing = 0 :=
    hcloses.missing_eq.trans (hcloses.saturated (by simp [hdone]))
  have hlive : s.heap.IsLive r.edge :=
    hup.live_of_kind hkind (by simp [ObjectKind.holdings_closure, hdone, Memo.result?, Handle.holding])
  refine .of_ok (s := s.on (·.retain r)) .share
    (by rw [Multiset.singleton_add]; exact hup.share hlive) hshows ?_
  refine (Settles.succ_iff rfl).2 hyields |>.congr fun n => ?_
  exact Tree.reduceUpTo_of_missing (by simp [hcloses.code]) hmissing n

theorem memoized_mirrors (hup : R.Upholds options s.heap rest) (hheld : h.holding ∈ rest)
    (hkind : s.heap.kindOf? h.target = some (.closure c)) (hmissing : c.missing = 0)
    (hempty : c.memo = .empty) {act : Run Handle}
    (hact : Mirrors options d (s.heap.setMemo h.target .running) R rest
      (fun r : Handle => {r.holding}) (fun R' r v => R'.Shows r v)
      (fun n => Tree.result options (Tree.reduceUpTo options n) (R.object h.target))
      (act (s.on (·.setMemo h.target .running)))) :
    Mirrors options d s.heap R rest (fun r : Handle => {r.holding}) (fun R' r v => R'.Shows r v)
      (fun n => Tree.result options (Tree.reduceUpTo options n) (R.object h.target))
      ((do
        change (·.setMemo h.target .running)
        let value ← tryCatch act fun signal => do
          change (·.setMemo h.target .empty)
          throw signal
        let kept ← share value
        change (·.setMemo h.target (.done kept))
        pure value : Run Handle) s) := by
  have hcloses := hup.closes hkind
  have hlayers : ∀ n, Tree.reduceUpTo options (n + 1) (R.object h.target) =
      Tree.result options (Tree.reduceUpTo options n) (R.object h.target) :=
    Tree.reduceUpTo_of_missing (by simp [hcloses.code]) (hcloses.missing_eq.trans hmissing)
  refine memoized_finishes hheld hkind hempty ?_ (fun m' R' hreads => ?_) hact fun signal hsignal => ?_
  · rintro m' R' r ⟨v, hshows, hsettles⟩ hsame hreads
    cases hreads with
    | closure hrunning =>
      refine .closure (hrunning.setMemo hmissing fun first hfirst => ?_)
      cases hfirst
      rw [hsame]
      exact ⟨v, hshows, (Settles.succ_iff rfl).1 (hsettles.congr fun n => (hlayers n).symm)⟩
  · cases hreads with
    | closure hrunning =>
      refine .closure (hrunning.setMemo hmissing fun first hfirst => ?_)
      cases hempty.symm.trans hfirst
  · match signal with
    | .raised e => exact hsignal
    | .panicked p => exact hsignal
    | .exhausted =>
      -- with fewer layers, the result was not there to be asked for either
      intro n
      induction n using Nat.strong_induction_on with
      | _ n ih =>
        intro hn hwaits
        refine hsignal n hn (hwaits.running fun j hj => ?_)
        cases j with
        | zero => rfl
        | succ j =>
          rw [hlayers]
          exact ih j (by omega) (by omega) fun p hp i hi => hwaits p hp i (by omega)

theorem result_mirrors (hoptions : options.checkResults = false)
    (hreduce : reduce.IsMirror options d) (hup : R.Upholds options s.heap rest)
    (hheld : h.holding ∈ rest) (hkind : s.heap.kindOf? h.target = some (.closure c))
    (hmissing : c.missing = 0) (hidle : c.memo ≠ .running) :
    Mirrors options d s.heap R rest (fun r : Handle => {r.holding}) (fun R' r v => R'.Shows r v)
      (fun n => Tree.result options (Tree.reduceUpTo options n) (R.object h.target))
      (result options reduce h c s) := by
  rw [result]
  cases hmemo : c.memo with
  | done r => exact kept_mirrors hup hkind hmemo
  | running => exact (hidle hmemo).elim
  | empty =>
    refine memoized_mirrors hup hheld hkind hmissing hmemo ?_
    have hup₁ : R.Upholds options (s.on (·.setMemo h.target .running)).heap rest :=
      hup.setMemo hkind (by simp [hmemo, Memo.result?])
        (.closure ((hup.closes hkind).setMemo hmissing (by simp)))
    have hrunning : (s.on (·.setMemo h.target .running)).heap.kindOf? h.target =
        some (.closure { c with memo := .running }) := by
      rw [Machine.heap_on, kindOf?_setMemo, if_pos rfl, hkind]
      rfl
    obtain ⟨k, given, hruns, htree⟩ := runs_of_kind hup₁ hrunning hmissing hheld rfl
    exact .of_settles (fun n => (htree _).symm) (compute_mirrors hoptions hreduce hup₁
      (c := c) ⟨⟨hruns.held, hruns.kind, hruns.missing, hruns.name, hruns.trees⟩, hruns.combinator,
        hruns.body⟩)

theorem saturate_mirrors (hoptions : options.checkResults = false)
    (hreduce : reduce.IsMirror options d) (hup : R.Upholds options s.heap (h.holding ::ₘ rest))
    (hmade : R.Made h t) (hidle : ¬ s.heap.Running h.target) (hnode : ¬ t.IsApply) :
    Mirrors options d s.heap R rest (fun r : Handle => {r.holding}) (fun R' r v => R'.Shows r v)
      (fun n => Tree.saturate options (Tree.reduceUpTo options n) t)
      ((do
        match ← inspect (·.closure? h) with
        | some c => if c.isSaturated then releasing h (result options reduce h c) else pure h
        | none => pure h : Run Handle) s) := by
  obtain ⟨kind, hkind, hreads⟩ := hup.kindOf?_of_held (h := h) (Multiset.mem_cons_self ..)
  rw [hmade.tree] at hreads
  have hnormal : t.IsNormal → Mirrors options d s.heap R rest (fun r : Handle => {r.holding})
      (fun R' r v => R'.Shows r v) (fun n => Tree.saturate options (Tree.reduceUpTo options n) t)
      ((pure h : Run Handle) s) := fun hnormal => by
    refine .of_ok (.refl ..) (by rwa [Multiset.singleton_add])
      ⟨hmade.tree, hnormal, by simp [hmade.tag, hmade.sound], .inl hmade.tag⟩ ?_
    exact (Settles.always _).congr fun _ => (Tree.saturate_of_isNormal hnormal _).symm
  refine .inspect ?_
  cases hclosure : s.heap.closure? h with
  | none =>
    refine hnormal ⟨hnode, fun hcode => ?_⟩
    cases hreads with
    | closure => cases hclosure.symm.trans (closure?_of_kindOf? hmade.tag hkind)
    | value | pair | failed => cases hcode
    | pending | reduced => exact (hnode ⟨_, _, rfl⟩).elim
  | some c =>
    have hkind := kindOf?_of_closure? hclosure
    have hcloses := hup.closes hkind
    rw [hmade.tree] at hcloses
    dsimp only
    cases hsaturated : c.isSaturated with
    | false =>
      simp only [Bool.false_eq_true, if_false]
      exact hnormal (hcloses.isNormal (Nat.pos_of_ne_zero (by simpa [Closure.isSaturated]
        using hsaturated)))
    | true =>
      have hmissing : c.missing = 0 := by simpa [Closure.isSaturated] using hsaturated
      have hresult := result_mirrors hoptions hreduce hup (Multiset.mem_cons_self ..) hkind hmissing
        fun hmemo => hidle ⟨c, hkind, hmemo⟩
      rw [hmade.tree] at hresult
      simp only [if_true]
      refine .releasing (.of_settles (fun n => ?_) hresult)
      exact (Tree.saturate_of_missing (by simp [hcloses.code]) (hcloses.missing_eq.trans hmissing)
        _).symm

theorem tryApply_mirrors {function argument : Handle}
    (hup : R.Upholds options s.heap (function.holding ::ₘ argument.holding ::ₘ rest))
    (hargument : R.Stands options argument x) :
    Mirrors options d s.heap R rest outcome
      (Comes fun R' r b => R'.Made r b ∧ ¬ s.heap.Running r.target)
      (fun _ => Tree.refused ((R.object function.target).bindTo x))
      (tryApply function argument s) :=
  .caught ⟨fun _ => rfl, fun _ => ⟨rfl, rfl⟩, fun _ => .inr ⟨rfl, rfl⟩, rfl, rfl⟩
    (Run.applyArgument_mirrors hup hargument)

theorem applyReduced_mirrors (hoptions : options.checkResults = false)
    (hreduce : reduce.IsMirror options d) {function argument : Handle}
    (hup : R.Upholds options s.heap (function.holding ::ₘ argument.holding ::ₘ rest))
    (hfunction : R.Shows function v) (hargument : R.Stands options argument x) :
    Mirrors options d s.heap R rest (fun r : Handle => {r.holding}) (fun R' r v => R'.Shows r v)
      (fun n => Tree.applyReduced options (Tree.reduceUpTo options n) v x)
      (applyReduced options reduce function argument s) := by
  rw [applyReduced]
  cases hexception : function.isException with
  | true =>
    obtain ⟨e, rfl⟩ := hfunction.tagged.exception.1 (by simpa [Handle.isException] using hexception)
    rw [Multiset.cons_swap] at hup
    exact .of_ok (s := s.on (·.release argument)) (.release hup.valid (Multiset.subset_cons _ _))
      (by rw [Multiset.singleton_add]; exact hup.release) hfunction (.always _)
  | false =>
    have hsound : ∀ e, v ≠ .failed e := fun e heq => by
      have htag := hfunction.tagged.exception.2 ⟨e, heq⟩
      simp [Handle.isException, htag] at hexception
    have hbind := tryApply_mirrors (d := d) hup hargument
    rw [hfunction.tree] at hbind
    refine .of_settles (fun n => (Tree.applyReduced_of_not_failed hsound).symm)
      (.bind (g := fun b n => Tree.saturate options (Tree.reduceUpTo options n) b) hbind
        fun outcome s₁ R₁ b hev hup₁ houtcome hsettles => ?_)
    have hb := Settles.unique (.always _) hsettles
    cases outcome with
    | error e =>
      obtain rfl : b = .failed e := houtcome
      exact .of_settles (fun n => (Tree.saturate_of_isNormal (Tree.isNormal_failed e) _).symm)
        (.newException e hup₁.of_outcome)
    | ok bound =>
      obtain ⟨hmade, hidle⟩ := houtcome
      exact saturate_mirrors hoptions hreduce (by rwa [outcome, Multiset.singleton_add] at hup₁)
        hmade (fun hrunning => hidle (hev.running _ hrunning).1) (Tree.not_isApply_refused hb)

theorem application_mirrors (hoptions : options.checkResults = false)
    (hreduce : reduce.IsMirror options d) {function argument : Handle}
    (hup : R.Upholds options s.heap (argument.holding ::ₘ rest)) (hheld : function.holding ∈ rest)
    (hfunction : R.Stands options function t) (hargument : R.Stands options argument x) :
    Mirrors options d s.heap R rest (fun r : Handle => {r.holding}) (fun R' r v => R'.Shows r v)
      (fun n => Tree.application options (Tree.reduceUpTo options n) t x)
      (application options reduce function argument s) := by
  rw [application_eq]
  refine .bind (g := fun v n => Tree.applyReduced options (Tree.reduceUpTo options n) v x)
    (Mirrors.releasingOnSignal
      (hreduce.handle hup (Multiset.mem_cons_of_mem hheld) hfunction))
    fun f s₁ R₁ v _ hup₁ ⟨hshows, hsame⟩ _ => ?_
  rw [Multiset.cons_add, Multiset.singleton_add, Multiset.cons_swap] at hup₁
  exact applyReduced_mirrors hoptions hreduce hup₁ hshows
    ⟨hsame ▸ hargument.tree, hsame ▸ hargument.tagged⟩

theorem store_mirrors {node : ObjectId} {r : Handle}
    (hup : R.Upholds options s.heap (r.holding ::ₘ rest)) (hheld : .strong (.object node) ∈ rest)
    (hnode : (R.object node).IsApply) (hshows : R.Shows r v)
    (hyields : (R.object node).Yields options v) :
    Mirrors options d s.heap R rest (fun r : Handle => {r.holding}) (fun R' r v => R'.Shows r v)
      (fun _ => .ok v) (store node r s) := by
  obtain ⟨kind, hkind, hreads⟩ :=
    hup.kindOf?_of_held (h := .plain node) (Multiset.mem_cons_of_mem hheld)
  have hcached : R.Shows r.asCached v := by
    refine ⟨by simpa using hshows.tree, hshows.normal, ?_, .inr hshows.normal⟩
    rw [← hshows.tagged.exception]
    cases htag : r.tag <;> simp [Handle.asCached, htag]
  obtain ⟨a, b, htree⟩ := hnode
  have hread : R.Reads options s.heap node kind (.apply a b) := htree ▸ hreads
  cases hread with
  | closure hcloses => cases hcloses.code
  | pending _ _ =>
    have hstored : R.Reads options s.heap node (.application (.reduced r.asCached))
        (R.object node) := by
      rw [htree] at hyields ⊢
      exact .reduced hcached hyields
    refine Finishes.imp (store_pending hup hkind hstored) (fun m' R' r' ⟨hsame, hr⟩ => ?_)
      fun _ h => h
    subst hsame hr
    exact ⟨v, hcached, .always _⟩
  | @reduced first _ _ v' hfirst hyields' =>
    obtain rfl := hyields.unique (htree ▸ hyields')
    refine Finishes.imp (store_reduced hup hkind) (fun m' R' r' ⟨hsame, hr⟩ => ?_) fun _ h => h
    subst hsame hr
    exact ⟨v, hfirst, .always _⟩

theorem pending_mirrors (hoptions : options.checkResults = false)
    (hreduce : reduce.IsMirror options d) {node : ObjectId} {f y : Handle} {a b : Tree}
    (hup : R.Upholds options s.heap rest) (hheld : .strong (.object node) ∈ rest)
    (hnode : R.object node = .apply a b)
    (hkind : s.heap.kindOf? node = some (.application (.pending f y)))
    (hf : R.Stands options f a) (hy : R.Stands options y b) :
    Mirrors options d s.heap R rest (fun r : Handle => {r.holding}) (fun R' r v => R'.Shows r v)
      (fun n => Tree.application options (Tree.reduceUpTo options n) a b)
      ((do
        let function ← share f
        let argument ← share y
        releasing function do
          store node (← application options reduce function argument) : Run Handle) s) := by
  have hlive : ∀ h : Handle, h.holding ∈ (ObjectKind.application (.pending f y)).holdings →
      s.heap.IsLive h.edge := fun h hh => hup.live_of_kind hkind hh
  have hup₁ := hup.share (hlive f (by simp))
  have hup₂ := hup₁.share ((isLive_congr (contents_retain _ _) _).2 (hlive y (by simp)))
  refine .step (share_run f s) .share (.step (share_run y _) .share (.releasing ?_))
  refine .of_settles (fun _ => bind_pure _) (.bind (g := fun v _ => .ok v)
    (application_mirrors hoptions hreduce hup₂ (Multiset.mem_cons_self ..) hf hy)
    fun r s₁ R₁ v hev hup₃ hshows hsettles => ?_)
  rw [Multiset.singleton_add] at hup₃
  have hsame : R₁.object node = .apply a b :=
    (hev.object node (Multiset.mem_cons_of_mem hheld)).trans hnode
  refine store_mirrors hup₃ (Multiset.mem_cons_of_mem hheld) ⟨a, b, hsame⟩ hshows ?_
  rw [hsame]
  exact (Settles.succ_iff rfl).1 hsettles

theorem reduceOnce_normal (hup : R.Upholds options s.heap rest) (hheld : h.holding ∈ rest)
    (hnormal : (R.object h.target).IsNormal) : reduceOnce options reduce h s = share h s := by
  obtain ⟨kind, hkind, hreads⟩ := hup.kindOf?_of_held hheld
  have hlook : s.heap.kind? h = some kind := hkind
  rw [reduceOnce]
  split
  · rw [Run.bind_run, inspect_run]
    dsimp only
    rw [hlook]
    generalize R.object h.target = t at hreads hnormal
    cases hreads with
    | value | pair | failed => rfl
    | pending | reduced => exact (hnormal.1 ⟨_, _, rfl⟩).elim
    | @closure c _ hcloses =>
      have hopen := hnormal.2 (by simp [hcloses.code])
      rw [hcloses.missing_eq] at hopen
      simp [Closure.isSaturated, hopen.ne']
  · rfl

theorem reduceOnce_mirrors (hoptions : options.checkResults = false)
    (hreduce : reduce.IsMirror options d) (hup : R.Upholds options s.heap rest)
    (hheld : h.holding ∈ rest) (hstands : R.Stands options h t) :
    Mirrors options (d + 1) s.heap R rest (fun r : Handle => {r.holding})
      (fun R' r v => R'.Shows r v) (fun n => Tree.reduceUpTo options n t)
      (reduceOnce options reduce h s) := by
  by_cases hnormal : (R.object h.target).IsNormal
  · rw [reduceOnce_normal hup hheld hnormal]
    refine .of_ok (s := s.on (·.retain h)) .share
      (by rw [Multiset.singleton_add]; exact hup.share (hup.live hheld))
      ⟨rfl, hnormal, hstands.tagged⟩ ?_
    exact hstands.tree.elim (fun heq => heq ▸ Tree.Yields.of_isNormal hnormal) id
  have htag : h.tag = .plain := hstands.tagged.plain.resolve_right hnormal
  obtain rfl : R.object h.target = t :=
    hstands.tree.resolve_right fun hyields => hnormal hyields.isNormal
  obtain ⟨kind, hkind, hreads⟩ := hup.kindOf?_of_held hheld
  have hlook : s.heap.kind? h = some kind := hkind
  rw [reduceOnce, if_pos htag]
  refine .inspect ?_
  rw [hlook]
  generalize htree : R.object h.target = t at hreads hnormal
  cases hreads with
  | value | pair | failed => exact (hnormal ⟨by simp [Tree.IsApply], fun hcode => by cases hcode⟩).elim
  | @reduced r a b v hshows hyields =>
    have hlive : s.heap.IsLive r.edge := hup.live_of_kind hkind (by simp [Handle.holding])
    exact .of_ok (s := s.on (·.retain r)) .share
      (by rw [Multiset.singleton_add]; exact hup.share hlive) hshows hyields
  | @pending f y a b hf hy =>
    exact .layer rfl (pending_mirrors hoptions hreduce hup hheld htree hkind hf hy)
  | @closure c _ hcloses =>
    have hmissing : t.missing = 0 := by
      by_contra hopen
      exact hnormal (Tree.isNormal_function (by simp [hcloses.code]) (Nat.pos_of_ne_zero hopen))
    have hsaturated : c.missing = 0 := hcloses.missing_eq.symm.trans hmissing
    simp only [Closure.isSaturated, hsaturated, beq_self_eq_true, if_true]
    by_cases hmemo : c.memo = .running
    · rw [result, hmemo]
      refine .exhausted fun n _ hwaits => ?_
      rw [← htree]
      exact hwaits _ ⟨c, hkind, hmemo⟩ n le_rfl
    · have hresult := result_mirrors hoptions hreduce hup hheld hkind hsaturated hmemo
      rw [htree] at hresult
      exact .layer rfl (.of_settles (fun n => (Tree.reduceUpTo_of_missing (by simp [hcloses.code])
        hmissing n).symm) hresult)

end Evaluator

end GraphReduction
