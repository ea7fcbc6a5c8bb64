import Mathlib
import GraphReduction.Proofs.Moves.Evaluator
import GraphReduction.Proofs.Ranks.Bodies

/-! Reduction halts. One layer over a reducer that halts on what ranks below `d` halts on what ranks
below `d + 1`, so enough layers halt on anything. Nothing waits for itself: what is being computed
ranks above whatever is demanded meanwhile. -/
namespace GraphReduction

open Heap Run Marks Ranks

variable {options : Options} {m : Heap} {R R' : Ranks} {rest : Multiset Holding}
  {s : Machine} {o : ObjectId} {h : Handle} {c : Closure} {p : Primitive} {d n : Nat}
  {reduce : Reducer}

theorem Ranks.Delivers.caught {act : Run Handle} {handler : Signal → Run (Except EvalError Handle)}
    (hhandler : ∀ e, handler (.raised e) = pure (.error e))
    (h : Delivers raising m R rest n (act s)) :
    Finishes meaning m R rest Evaluator.outcome
      (fun _ R' a => ∀ r, a = .ok r → R'.object r.target ≤ n) silent
      (tryCatch (do return Except.ok (← act)) handler s) := by
  rw [tryCatch_run, Run.bind_run]
  cases hrun : act s with
  | ok r s' =>
    rw [hrun] at h
    obtain ⟨R', hev, hup, hrank⟩ := h
    exact .of_ok hev hup (by rintro _ ⟨⟩; exact hrank)
  | error signal s' =>
    rw [hrun] at h
    obtain ⟨⟨e, rfl⟩, hends⟩ := h
    obtain ⟨R', hev, hup⟩ := hends (by simp)
    dsimp only
    rw [hhandler]
    exact .of_ok hev (hup.error e) (by simp)

namespace Evaluator

theorem invoke_delivers (hreduce : reduce.HaltsBelow d) (hn : n < d) (hup : R.Upholds s.heap rest)
    (hcombinator : c.combinator = ⟨p.place⟩)
    (hsupplies : ∀ name, R.Supplies s.heap rest o p n ⟨name, c⟩) (hclear : R.Clear s.heap n) :
    Delivers silent s.heap R rest n (invoke options reduce o c s) := by
  have hlive : s.heap.IsLive (.combinator c.combinator) :=
    hup.live_of_kind (hsupplies "").kind (by simp [ObjectKind.holdings_closure])
  obtain ⟨x, hx⟩ := Option.isSome_iff_exists.mp hlive
  have hdeclared : x.combinator = p.declared :=
    hup.fits.combinator c.combinator _ (by rw [combinatorOf?, hx]; rfl) p hcombinator
  refine .step (event_run _ s) (.refl ..) (.inspect ?_)
  rw [Machine.heap_push, hx]
  dsimp only
  have hbody := Body.run_delivers (s := s.push (.began o)) hreduce hn hup
    (hsupplies x.combinator.name) hclear
  have hsame : x.combinator.body = p.body := by rw [hdeclared]; rfl
  rw [← hsame] at hbody
  refine .bind (hbody.caught fun _ => rfl) fun outcome s₁ R₁ _ hup₁ hrank => ?_
  refine .step (event_run _ s₁) (.refl ..) ?_
  cases outcome with
  | ok r => exact .of_ok (.refl ..) hup₁ (hrank r rfl)
  | error e => exact Delivers.newException (s := s₁.push (.ended o)) e hup₁.of_outcome

theorem accept_delivers {r : Handle} (hup : R.Upholds s.heap (r.holding ::ₘ rest))
    (hrank : R.object r.target ≤ n) :
    Delivers silent s.heap R rest n (accept options h r s) := by
  have hkeep : ∀ vars, Delivers silent s.heap R rest n ((pure r : Run Handle) { s with vars }) :=
    fun vars => .of_ok (s := { s with vars }) (.refl ..) hup hrank
  rw [accept]
  split
  · let checked := s.heap.checkResult h r s.vars
    refine .step (z := { s with vars := checked.2 }) (x := checked.1) rfl (.refl ..) ?_
    cases checked.1 with
    | ok _ => exact hkeep checked.2
    | error e =>
      refine .step (z := ({ s with vars := checked.2 } : Machine).on (·.release r)) rfl
        (.release hup.valid (Multiset.Subset.refl _)) ?_
      exact Delivers.newException e hup.release
  · exact hkeep s.vars

theorem compute_delivers (hreduce : reduce.HaltsBelow d) (hn : n < d) (hup : R.Upholds s.heap rest)
    (hcombinator : c.combinator = ⟨p.place⟩)
    (hsupplies : ∀ name, R.Supplies s.heap rest h.target p n ⟨name, c⟩)
    (hclear : R.Clear s.heap n) :
    Delivers silent s.heap R rest n (compute options reduce h c s) := by
  rw [compute_eq]
  refine .bind (invoke_delivers hreduce hn hup hcombinator hsupplies hclear)
    fun raw s₁ R₁ hev hup₁ hraw => .releasing ?_
  rw [Multiset.singleton_add] at hup₁
  refine .bind (hreduce hup₁ (Multiset.mem_cons_self ..) (hraw.trans_lt hn)
    ((hclear.advances hev).mono hraw)) fun r s₂ R₂ _ hup₂ ⟨hrank, _⟩ => ?_
  rw [Multiset.singleton_add] at hup₂
  exact accept_delivers hup₂ (hrank.trans hraw)

theorem result_delivers (hreduce : reduce.HaltsBelow d) (hn : n < d) (hup : R.Upholds s.heap rest)
    (hheld : h.holding ∈ rest) (hkind : s.heap.kindOf? h.target = some (.closure c))
    (hmissing : c.missing = 0) (hrank : R.object h.target = n + 1)
    (hclear : R.Clear s.heap (n + 1)) :
    Delivers silent s.heap R rest n (result options reduce h c s) := by
  obtain ⟨p, hcloses⟩ := hup.exists_closes hkind
  rw [result]
  cases hmemo : c.memo with
  | done r =>
    have hlive : s.heap.IsLive r.edge := hup.live_of_kind hkind
      (by simp [ObjectKind.holdings_closure, hmemo, Memo.result?, Handle.holding])
    have hlow := hcloses.done r hmemo
    exact Delivers.share hup hlive (by omega)
  | running =>
    -- it would wait for its own result, but whatever is being computed ranks higher
    have hself := hclear h.target ⟨c, hkind, hmemo⟩
    omega
  | empty =>
    have hup₁ : R.Upholds (s.on (·.setMemo h.target .running)).heap rest :=
      hup.setMemo hkind (by simp [hmemo, Memo.result?])
        (.closure (hcloses.setMemo hmissing (by simp)))
    have hrunning : (s.on (·.setMemo h.target .running)).heap.kindOf? h.target =
        some (.closure { c with memo := .running }) := by
      rw [Machine.heap_on, kindOf?_setMemo, if_pos rfl, hkind]
      rfl
    refine memoized_finishes hheld hkind hmemo (fun m' R' r hr hsame hbounds => ?_)
      (fun m' R' hbounds => ?_) (compute_delivers hreduce hn hup₁ hcloses.combinator
        (fun name => ⟨hheld, hrunning, fun t ht => ?_⟩) fun q hq => ?_) fun _ h => h
    · cases hbounds with
      | closure hcomputed =>
        refine .closure (hcomputed.setMemo hmissing fun r' hr' => ?_)
        cases hr'
        rw [hsame, hrank]
        exact Nat.lt_succ_of_le hr
    · cases hbounds with
      | closure hcomputed =>
        refine .closure (hcomputed.setMemo hmissing fun r' hr' => ?_)
        cases hmemo.symm.trans hr'
    · have hargument := hcloses.arguments t ht
      rw [Argument] at hargument
      cases hthunk : R.thunk t with
      | upTo k =>
        rw [hthunk] at hargument
        exact ⟨k, rfl, hargument.trans hrank.le⟩
      | backTo q =>
        rw [hthunk] at hargument
        omega
    · obtain ⟨e, hclosure, hmemo'⟩ := hq
      rw [Machine.heap_on, kindOf?_setMemo] at hclosure
      split at hclosure
      · next heq =>
        rw [heq]
        omega
      · exact (Nat.lt_succ_self n).trans (hclear q ⟨e, hclosure, hmemo'⟩)

theorem saturate_delivers (hreduce : reduce.HaltsBelow d) (hn : n ≤ d)
    (hup : R.Upholds s.heap (h.holding ::ₘ rest)) (hrank : R.object h.target ≤ n)
    (hclear : R.Clear s.heap n) :
    Delivers silent s.heap R rest n ((do
      match ← inspect (·.closure? h) with
      | some c => if c.isSaturated then releasing h (result options reduce h c) else pure h
      | none => pure h : Run Handle) s) := by
  refine .inspect ?_
  cases hclosure : s.heap.closure? h with
  | none => exact Delivers.of_ok (.refl ..) hup hrank
  | some c =>
    dsimp only
    split
    · next hsaturated =>
      have hmissing : c.missing = 0 := by simpa [Closure.isSaturated] using hsaturated
      have hkind := kindOf?_of_closure? hclosure
      obtain ⟨p, hcloses⟩ := hup.exists_closes hkind
      obtain ⟨k, hk⟩ := Nat.exists_eq_succ_of_ne_zero hcloses.pos.ne'
      have hresult : Delivers silent s.heap R (h.holding ::ₘ rest) k (result options reduce h c s) :=
        result_delivers hreduce (by omega) hup (Multiset.mem_cons_self ..) hkind hmissing hk
          (hclear.mono (by omega))
      exact .releasing (Delivers.mono hresult (by omega))
    · exact Delivers.of_ok (.refl ..) hup hrank

theorem tryApply_finishes {function argument : Handle}
    (hup : R.Upholds s.heap (function.holding ::ₘ argument.holding ::ₘ rest))
    (hfunction : R.object function.target ≤ n) (hargument : R.object argument.target ≤ n) :
    Finishes meaning s.heap R rest outcome
      (fun _ R' a => ∀ r, a = .ok r → R'.object r.target ≤ n + 2) silent
      (tryApply function argument s) :=
  Delivers.caught (fun _ => rfl) (applyArgument_delivers hup hfunction hargument)

theorem applyReduced_delivers (hreduce : reduce.HaltsBelow d) (hn : n + 2 ≤ d)
    {function argument : Handle}
    (hup : R.Upholds s.heap (function.holding ::ₘ argument.holding ::ₘ rest))
    (hfunction : R.object function.target ≤ n) (hargument : R.object argument.target ≤ n)
    (hclear : R.Clear s.heap (n + 2)) :
    Delivers silent s.heap R rest (n + 2) (applyReduced options reduce function argument s) := by
  rw [applyReduced]
  split
  · rw [Multiset.cons_swap] at hup
    exact Delivers.of_ok (s := s.on (·.release argument))
      (.release hup.valid (Multiset.subset_cons _ _)) hup.release (by omega)
  · refine .bind (tryApply_finishes hup hfunction hargument)
      fun outcome s₁ R₁ hev hup₁ hrank => ?_
    cases outcome with
    | error e => exact Delivers.newException e hup₁.of_outcome
    | ok bound =>
      rw [outcome, Multiset.singleton_add] at hup₁
      exact saturate_delivers hreduce hn hup₁ (hrank bound rfl) (hclear.advances hev)

theorem application_delivers (hreduce : reduce.HaltsBelow d) (hn : n + 2 ≤ d)
    {function argument : Handle} (hup : R.Upholds s.heap (argument.holding ::ₘ rest))
    (hheld : function.holding ∈ rest) (hfunction : R.object function.target ≤ n)
    (hargument : R.object argument.target ≤ n) (hclear : R.Clear s.heap (n + 2)) :
    Delivers silent s.heap R rest (n + 2) (application options reduce function argument s) := by
  rw [application_eq]
  refine .bind (.releasingOnSignal (hreduce hup (Multiset.mem_cons_of_mem hheld) (by omega)
    (hclear.mono (by omega)))) fun f s₁ R₁ hev hup₁ ⟨⟨hf, _⟩, hsame⟩ => ?_
  rw [Multiset.cons_add, Multiset.singleton_add, Multiset.cons_swap] at hup₁
  exact applyReduced_delivers hreduce hn hup₁ (hf.trans hfunction) (hsame.le.trans hargument)
    (hclear.advances hev)

theorem value?_finishes {k : Knot} (hup : R.Upholds s.heap rest)
    (hkind : s.heap.kindOf? o = some (.application (.knot k))) :
    Finishes meaning s.heap R rest (fun r? : Option Handle => r?.elim 0 fun r => {r.holding})
      (fun _ R' r? => ∀ r, r? = some r → R'.object r.target ≤ R.object o) silent (k.value? s) := by
  have hsome : ∀ {act : Run Handle}, Delivers silent s.heap R rest (R.object o) (act s) →
      Finishes meaning s.heap R rest (fun r? : Option Handle => r?.elim 0 fun r => {r.holding})
        (fun _ R' r? => ∀ r, r? = some r → R'.object r.target ≤ R.object o) silent
        ((do return some (← act) : Run (Option Handle)) s) := fun hact =>
    .bind hact fun r s₁ R₁ _ hup₁ hr =>
      .of_ok (.refl ..) hup₁ fun _ heq => Option.some.inj heq ▸ hr
  cases hup.fits.object _ _ hkind with
  | unresolved => exact .of_ok (.refl ..) (by simpa using hup) (by rintro r ⟨⟩)
  | weak hvalue => exact hsome (.upgrade hup hvalue)
  | @strong r hvalue =>
    exact hsome (.share hup (hup.live_of_kind hkind (by simp [Handle.holding])) hvalue)

theorem reduced_delivers {k : Knot} (hup : R.Upholds s.heap rest)
    (hkind : s.heap.kindOf? o = some (.application (.knot k))) :
    Delivers silent s.heap R rest (R.object o) (k.reduced s) := by
  refine .bind (value?_finishes hup hkind) fun r? s₁ R₁ _ hup₁ hr => ?_
  cases r? with
  | none => exact Delivers.newException _ (by simpa using hup₁)
  | some r => exact Delivers.of_ok (.refl ..) (by simpa using hup₁) (by simpa using hr r rfl)

theorem store_delivers {r : Handle} (hup : R.Upholds s.heap (r.holding ::ₘ rest))
    (hheld : .strong (.object o) ∈ rest) (hresult : R.object r.target ≤ R.object o) :
    Delivers silent s.heap R rest (R.object o) (store o r s) := by
  obtain ⟨kind, hkind, hbounds⟩ :=
    hup.kindOf?_of_held (h := .plain o) (Multiset.mem_cons_of_mem hheld)
  have hlook : s.heap.kind? (.plain o) = some kind := hkind
  have hcached : R.object r.asCached.target ≤ R.object o := by simpa using hresult
  cases hbounds with
  | pending =>
    refine .imp (store_pending hup hkind (.reduced hcached)) (fun _ R' r' hr => ?_) fun _ h => h
    obtain ⟨rfl, rfl⟩ := hr
    exact hcached
  | reduced hfirst =>
    refine .imp (store_reduced hup hkind) (fun _ R' r' hr => ?_) fun _ h => h
    obtain ⟨rfl, rfl⟩ := hr
    exact hfirst
  | value | closure | exception =>
    refine .inspect ?_
    rw [hlook]
    rw [← Handle.holding_asCached] at hup
    exact Delivers.of_ok (.refl ..) hup hcached
  | unresolved | weak | strong =>
    refine .inspect ?_
    rw [hlook]
    rw [← Handle.holding_asCached, ← Multiset.singleton_add] at hup
    refine .bind (.keeping (reduced_delivers hup hkind)) fun value s₁ R₁ _ hup₁ hvalue => ?_
    rw [add_assoc, Multiset.singleton_add, Multiset.singleton_add, Multiset.cons_swap] at hup₁
    refine .step rfl (.release hup₁.valid (Multiset.subset_cons _ _)) ?_
    exact Delivers.of_ok (.refl ..) hup₁.release hvalue

theorem pending_delivers (hreduce : reduce.HaltsBelow d) {f x : Handle}
    (hup : R.Upholds s.heap rest) (hheld : .strong (.object o) ∈ rest)
    (hkind : s.heap.kindOf? o = some (.application (.pending f x))) (hd : R.object o ≤ d)
    (hclear : R.Clear s.heap (R.object o)) :
    Delivers silent s.heap R rest (R.object o) ((do
      let function ← share f
      let argument ← share x
      releasing function do
        store o (← application options reduce function argument) : Run Handle) s) := by
  obtain ⟨hf, hx⟩ : R.object f.target + 2 ≤ R.object o ∧ R.object x.target + 2 ≤ R.object o := by
    cases hup.fits.object _ _ hkind with
    | pending hfunction hargument => exact ⟨hfunction, hargument⟩
  have hlive : ∀ h : Handle, h.holding ∈ (ObjectKind.application (.pending f x)).holdings →
      s.heap.IsLive h.edge := fun h hh => hup.live_of_kind hkind hh
  have hup₁ := hup.share (hlive f (by simp))
  have hup₂ := hup₁.share ((isLive_congr (contents_retain _ _) _).2 (hlive x (by simp)))
  obtain ⟨n, hn⟩ : ∃ n, R.object o = n + 2 := ⟨R.object o - 2, by omega⟩
  refine .step (share_run f s) .share (.step (share_run x _) .share (.releasing ?_))
  refine .bind (application_delivers (n := n) hreduce (by omega) hup₂ (Multiset.mem_cons_self ..)
    (by omega) (by omega) (hn ▸ hclear.share.share)) fun r s₁ R₁ hev hup₃ hr => ?_
  rw [Multiset.singleton_add] at hup₃
  have hheld₁ : .strong (.object o) ∈ f.holding ::ₘ rest := Multiset.mem_cons_of_mem hheld
  have hsame : R₁.object o = R.object o := hev.object o hheld₁
  rw [← hsame]
  exact store_delivers hup₃ hheld₁ (by omega)

theorem reduceOnce_halts (hreduce : reduce.HaltsBelow d) :
    Reducer.HaltsBelow (d + 1) (reduceOnce options reduce) := by
  intro s R rest h hup hheld hd hclear
  obtain ⟨kind, hkind, hbounds⟩ := hup.kindOf?_of_held hheld
  have hlook : s.heap.kind? h = some kind := hkind
  have hother : ∀ {result : EStateM.Result Signal Machine Handle}, ¬ s.heap.LeadsToCall h →
      Delivers silent s.heap R rest (R.object h.target) result →
        Finishes meaning s.heap R rest (fun r : Handle => {r.holding})
          (fun _ R' r => R'.object r.target ≤ R.object h.target ∧
            (s.heap.LeadsToCall h → R'.object r.target < R.object h.target)) silent result :=
    fun hnone hreturns =>
      .imp hreturns (fun _ _ _ hr => ⟨hr, fun hcall => (hnone hcall).elim⟩) fun _ h => h
  have hself : Delivers silent s.heap R rest (R.object h.target) (share h s) :=
    .share hup (hup.live hheld) le_rfl
  have hnone : (∀ c, kind ≠ .closure c) → ¬ s.heap.LeadsToCall h := by
    rintro hplain ⟨c, hclosure, -⟩
    exact hplain c (Option.some.inj (hkind.symm.trans (kindOf?_of_closure? hclosure)))
  rw [reduceOnce]
  split
  · next htag =>
    refine .inspect ?_
    rw [hlook]
    cases kind with
    | value | exception => exact hother (hnone (by simp)) hself
    | closure c =>
      dsimp only
      split
      · next hsaturated =>
        have hmissing : c.missing = 0 := by simpa [Closure.isSaturated] using hsaturated
        obtain ⟨p, hcloses⟩ := hup.exists_closes hkind
        obtain ⟨n, hn⟩ := Nat.exists_eq_succ_of_ne_zero hcloses.pos.ne'
        exact .imp (result_delivers hreduce (n := n) (by omega) hup hheld hkind hmissing hn
          (hclear.mono hn.ge)) (fun _ _ _ hr => ⟨by omega, fun _ => by omega⟩) fun _ h => h
      · next hopen =>
        refine hother ?_ hself
        rintro ⟨e, hclosure, hmissing⟩
        cases hkind.symm.trans (kindOf?_of_closure? hclosure)
        simp [Closure.isSaturated, hmissing] at hopen
    | application a =>
      refine hother (hnone (by simp)) ?_
      cases a with
      | pending f x =>
        exact pending_delivers hreduce hup hheld hkind (Nat.le_of_lt_succ hd) hclear
      | reduced r =>
        cases hbounds with
        | reduced hresult =>
          exact .share hup (hup.live_of_kind hkind (by simp [Handle.holding])) hresult
      | knot k =>
        simp only [Application.snapshot, bind_assoc, pure_bind, bind_pure]
        exact reduced_delivers hup hkind
  · next htag =>
    refine hother ?_ hself
    rintro ⟨c, hclosure, -⟩
    simp [closure?, plainKind?, htag] at hclosure

/-- Enough layers halt on anything that nothing of as low a rank waits for. -/
theorem reduceUpTo_halts (options : Options) (depth : Nat) :
    Reducer.HaltsBelow depth (reduceUpTo options depth) := by
  induction depth with
  | zero => exact fun _ _ hd _ => absurd hd (Nat.not_lt_zero _)
  | succ depth ih => exact reduceOnce_halts ih

end Evaluator

end GraphReduction
