import Mathlib
import GraphReduction.Reduce.Evaluator
import GraphReduction.Proofs.Labels.Bodies
import GraphReduction.Proofs.Moves.Evaluator

/-! Reduction keeps up the roles. One layer over a reducer that does what is asked of it does what
is asked of it, one layer deeper, so every stack of layers does. -/
namespace GraphReduction

open Heap Run

variable {X : Type} {L : Labelling X} {B : Set ObjectId} {m : Heap} {R : Roles X}
  {held rest : Multiset Holding} {s : Machine} {reduce : Reducer} {d n : Nat} {x f a : X}
  {options : Options}

namespace Ends

variable {good : Heap → Roles X → Handle → Prop} {bad : EvalError → Prop} {act : Run Handle}

def outcome : Except EvalError Handle → Multiset Holding
  | .ok h => {h.holding}
  | .error _ => 0

def Outcome (good : Heap → Roles X → Handle → Prop) (bad : EvalError → Prop) (m : Heap)
    (R : Roles X) : Except EvalError Handle → Prop
  | .ok h => good m R h
  | .error e => bad e

theorem caught {handler : Signal → Run (Except EvalError Handle)}
    (hhandler : ∀ e, handler (.raised e) = pure (.error e))
    (h : Ends L B m R rest (fun r : Handle => {r.holding}) good bad (act s)) :
    Ends L B m R rest outcome (Outcome good bad) never
      (tryCatch (do return Except.ok (← act)) handler s) := by
  rw [tryCatch_run, Run.bind_run]
  match hact : act s with
  | .ok a s' =>
    rw [hact] at h
    exact h
  | .error (.raised e) s' =>
    rw [hact] at h
    obtain ⟨R', hev, hup, hbad⟩ := h
    dsimp only
    rw [hhandler]
    exact .of_ok hev (by rwa [outcome, zero_add]) hbad
  | .error (.panicked p) s' =>
    rw [hact] at h
    exact h.elim
  | .error .exhausted s' =>
    rw [hact] at h
    exact h.elim

theorem tryCatch_never {α : Type} {post : α → Multiset Holding} {good : Heap → Roles X → α → Prop}
    {act : Run α} {handler : Signal → Run α} (h : Ends L B m R rest post good never (act s)) :
    Ends L B m R rest post good never (tryCatch act handler s) := by
  rw [tryCatch_run]
  match hact : act s with
  | .ok a s' =>
    rw [hact] at h
    exact h
  | .error (.raised e) s' =>
    rw [hact] at h
    obtain ⟨-, -, -, hnever⟩ := h
    exact hnever.elim
  | .error (.panicked p) s' =>
    rw [hact] at h
    exact h.elim
  | .error .exhausted s' =>
    rw [hact] at h
    exact h.elim

end Ends

theorem evolves_setMemo {o : ObjectId} (m : Heap) (memo : Memo) :
    Evolves {o} m R (m.setMemo o memo) R where
  object _ _ h := h
  thunk _ _ h := h
  noRole _ _ h := h
  noRoleThunk _ _ h := h
  kind p kind _ _ hne hkind := by
    rwa [kindOf?_setMemo, if_neg (by simpa using hne)] at hkind
  state _ _ _ _ h := h
  combinator _ _ h := h
  allocated cell h := (allocated_setMemo m o memo cell).2 h

theorem Heap.Ground.setMemo (h : m.Ground) (o : ObjectId) (memo : Memo) :
    (m.setMemo o memo).Ground := by
  intro p v hkind
  rw [kindOf?_setMemo] at hkind
  split at hkind
  · obtain ⟨kind, hkind, heq⟩ := Option.map_eq_some_iff.1 hkind
    cases kind with
    | value w =>
      cases heq
      exact h p v hkind
    | closure c | application a | exception e => cases heq
  · exact h p v hkind

theorem Labelling.Supports.setMemo {o : ObjectId} (hup : L.Supports m R) (hnone : R.object o = none)
    (memo : Memo) : L.Supports (m.setMemo o memo) R := by
  refine hup.evolve (evolves_setMemo m memo) (fun p role hrole => ⟨.inl hrole, fun kind hkind =>
    .inl ⟨hrole, ?_⟩⟩) (fun t h ht => ⟨.inl ht, fun state hstate => .inl ⟨ht, hstate⟩⟩)
    (hup.ground.setMemo o memo)
  have hne : p ≠ o := fun heq => by rw [heq, hnone] at hrole; cases hrole
  rwa [kindOf?_setMemo, if_neg hne] at hkind

namespace Roles.Call

variable {o : ObjectId} {c : Closure}

theorem kindOf?_running (hcall : R.Call L m o c x n) :
    (m.setMemo o .running).kindOf? o = some (.closure { c with memo := .running }) := by
  rw [kindOf?_setMemo, if_pos rfl, hcall.kind]
  rfl

theorem runs (hcall : R.Call L m o c x n) (hup : L.Upholds m R rest)
    (hheld : .strong (.object o) ∈ rest) :
    L.Upholds (m.setMemo o .running) R rest ∧
      ∃ p args, R.Runs L (m.setMemo o .running) rest o c p args x n := by
  obtain ⟨p, args, himplements, hlength, hslots, hx, hhole⟩ := hcall.arguments
  have hev : Evolves {o} m R (m.setMemo o .running) R := evolves_setMemo _ _
  have hslots₁ : List.Forall₂ (R.Slot L (m.setMemo o .running) n) c.arguments args :=
    hslots.imp fun t y hslot =>
      hev.slot (fun g hhole => by simpa using hhole.ne_of_closure hcall.kind) hslot
  refine ⟨⟨hup.valid.startMemo hcall.kind hcall.memo, hup.supports.setMemo hcall.noRole _⟩, p, args,
    ⟨hheld, hcall.noRole, ⟨.running, hcall.kindOf?_running⟩, hslots₁⟩, hev.implements himplements,
    hlength, hx, hhole⟩

end Roles.Call

theorem Ends.releasingOnSignal {α : Type} {post : α → Multiset Holding}
    {good : Heap → Roles X → α → Prop} {act : Run α} {h : Handle}
    (hact : Ends L B m R rest post good never (act s)) :
    Ends L B m R rest post good never (Run.releasingOnSignal h act s) :=
  .tryCatch_never hact

theorem Roles.Result.of_exception {h : Handle} {y : X} {k : Nat} (hresult : R.Result L h x n)
    (htag : h.tag = .exception) (herror : ∀ e, L.error e x → L.error e y) : R.Result L h y k := by
  obtain ⟨role, hrole, hmeans, htagged, hdone⟩ := hresult
  cases role with
  | failed e => exact ⟨.failed e, hrole, herror e hmeans, htagged, hdone⟩
  | node z rank => exact (hdone trivial).elim
  | declaration p | value v | function z rank => exact (htagged htag).elim

namespace Evaluator

variable {o : ObjectId} {c : Closure} {args : List X} {p : Primitive}

theorem invoke_ends (options : Options) (hlawful : L.Lawful) (hreduce : L.Reduces d reduce)
    (hn : n < d) (hup : L.Upholds s.heap R rest) (hruns : R.Runs L s.heap rest o c p args x n) :
    Ends L ∅ s.heap R rest (fun r : Handle => {r.holding}) (fun m R' r => R'.Demandable L m r x n)
      never (invoke options reduce o c s) := by
  obtain ⟨k, hk, hdeclared⟩ := hruns.combinator hup
  have hperforms := hlawful.performs p args x hruns.applied hruns.length
  refine .step (event_run _ s) (.refl _ _) (.inspect ?_)
  rw [Machine.heap_push, hk]
  dsimp only
  rw [hdeclared]
  refine .bind (Ends.caught (fun _ => rfl) (Body.run_ends (s := s.push (.began o)) hlawful hreduce
    hn _ hup hruns.supplies hperforms)) fun outcome s₁ R₁ hev hup₁ houtcome => ?_
  refine .step (event_run _ s₁) (.refl _ _) ?_
  cases outcome with
  | ok h => exact .of_ok (.refl _ _) hup₁ houtcome
  | error e =>
    refine (Ends.newException (s := s₁.push (.ended o)) (by simpa [Ends.outcome] using hup₁)).imp
      (fun m R' r hr => ?_) fun e he => he
    exact .inl (hr.2 x n houtcome).stands

theorem compute_ends {h : Handle} (hlawful : L.Lawful) (hreduce : L.Reduces d reduce) (hn : n < d)
    (hoptions : options.checkResults = false) (hup : L.Upholds s.heap R rest)
    (hruns : R.Runs L s.heap rest h.target c p args x n) :
    Ends L ∅ s.heap R rest (fun r : Handle => {r.holding}) (fun _ R' r => R'.Result L r x n)
      never (compute options reduce h c s) := by
  refine .bind (invoke_ends options hlawful hreduce hn hup hruns)
    fun raw s₁ R₁ _ hup₁ hraw => .releasing ?_ fun _ _ _ hr => hr
  rw [Multiset.singleton_add] at hup₁
  refine .bind (hreduce.handle hup₁ (Multiset.mem_cons_self _ _) hraw hn)
    fun r s₂ R₂ _ hup₂ hr => ?_
  simp only [hoptions, Bool.false_and, Bool.false_eq_true, if_false]
  exact .of_ok (.refl _ _) hup₂ (hr.1 x n hraw)

theorem result_ends {h : Handle} (hlawful : L.Lawful) (hreduce : L.Reduces d reduce) (hn : n < d)
    (hoptions : options.checkResults = false) (hup : L.Upholds s.heap R rest)
    (hheld : h.holding ∈ rest) (hcall : R.Call L s.heap h.target c x n) :
    Ends L {h.target} s.heap R rest (fun r : Handle => {r.holding})
      (fun _ R' r => R'.Result L r x n) never (result options reduce h c s) := by
  rw [result, hcall.memo]
  have hrunning := hcall.kindOf?_running
  obtain ⟨hup₁, p, args, hruns⟩ := hcall.runs hup hheld
  refine .step (change_run _ s) (evolves_setMemo _ _) ?_
  refine .bind_new (.tryCatch_never (compute_ends hlawful hreduce hn hoptions hup₁ hruns))
    (Set.empty_subset _) fun r s₂ R₂ hev₂ hup₂ hr =>
      ⟨{h.target}, fun o ho hnot => (hnot ho).elim, ?_⟩
  rw [Multiset.singleton_add] at hup₂
  have hkind₂ := hev₂.kindOf?_of_held hcall.noRole hrunning (Set.notMem_empty _) hup₂
    (Multiset.mem_cons_of_mem hheld)
  have hnone₂ := hev₂.noRole _ (isLive_of_kindOf? hrunning).allocated hcall.noRole
  have hshared := hup₂.share (hup₂.live (Multiset.mem_cons_self _ _))
  have hkept : L.Upholds ((s₂.heap.retain r).setMemo h.target (.done r)) R₂
      ({r.holding} + rest) := by
    refine ⟨hshared.valid.setMemo ((kindOf?_congr (contents_retain _ _) _).trans hkind₂)
      ?_, hshared.supports.setMemo hnone₂ _⟩
    simp [Memo.result?]
  exact .of_ok (s := s₂.on fun m => (m.retain r).setMemo h.target (.done r))
    (Evolves.share.trans (evolves_setMemo _ _)) hkept hr

theorem shared_of_settled {g h : Handle} (hup : L.Upholds m R held) (hthere : h.holding ∈ held)
    (hheld : h.holding ∈ rest) (hsettled : m.Settled h g) (htag : g.tag ≠ .exception) :
    g.holding ∈ m.held + rest := by
  obtain rfl | hexception | hreduced := hsettled
  · exact Multiset.mem_add.2 (.inr hheld)
  · exact (htag hexception).elim
  · obtain ⟨kind, hkind⟩ := hup.kindOf?_of_held hthere
    rw [hreduced kind hkind] at hkind
    refine Multiset.mem_add.2 (.inl (Multiset.mem_of_le (holds_le_held m (.object h.target)) ?_))
    rw [holds_of_kindOf? hkind]
    simp

theorem tryApply_ends (hlawful : L.Lawful) {function argument : Handle}
    (hup : L.Upholds s.heap R (function.holding ::ₘ argument.holding ::ₘ rest))
    (hshared : function.holding ∈ s.heap.held + rest) (hfunction : R.Result L function f n)
    (htag : function.tag ≠ .exception) (hargument : R.Stands L argument a n)
    (happly : L.apply f a x) :
    Ends L ∅ s.heap R rest Ends.outcome
      (Ends.Outcome (fun m R' r => ∃ missing, R'.Bound L missing s.heap m r x (n + 1))
        fun e => L.error e x) never (tryApply function argument s) :=
  .caught (fun _ => rfl) (applyArgument_ends hlawful hup hshared hfunction htag hargument happly)

theorem applyReduced_ends (hlawful : L.Lawful) (hreduce : L.Reduces d reduce) (hn : n + 1 < d)
    (hoptions : options.checkResults = false) {function argument : Handle}
    (hup : L.Upholds s.heap R (function.holding ::ₘ argument.holding ::ₘ rest))
    (hshared : function.tag ≠ .exception → function.holding ∈ s.heap.held + rest)
    (hfunction : R.Result L function f n) (hargument : R.Stands L argument a n)
    (happly : L.apply f a x) :
    Ends L ∅ s.heap R rest (fun r : Handle => {r.holding}) (fun _ R' r => R'.Result L r x (n + 1))
      never (applyReduced options reduce function argument s) := by
  rw [applyReduced]
  cases hexception : function.isException with
  | true =>
    have htag : function.tag = .exception := by simpa [Handle.isException] using hexception
    rw [Multiset.cons_swap] at hup
    exact .of_ok (s := s.on (·.release argument)) .release
      (by rw [Multiset.singleton_add]; exact hup.release)
      (hfunction.of_exception htag fun e he => hlawful.applyError e f a x he happly)
  | false =>
    have htag : function.tag ≠ .exception := by simpa [Handle.isException] using hexception
    refine .bind_new (tryApply_ends hlawful hup (hshared htag) hfunction htag hargument happly)
      subset_rfl fun outcome s₁ R₁ hev₁ hup₁ houtcome => ?_
    cases outcome with
    | error e =>
      rw [Ends.outcome, zero_add] at hup₁
      exact ⟨∅, fun o ho => (Set.notMem_empty o ho).elim, (Ends.newException hup₁).imp
        (fun m R' r hr => hr.2 x (n + 1) houtcome) fun e he => he⟩
    | ok bound =>
      obtain ⟨missing, hbound⟩ := houtcome
      cases hbound with
      | function hmore hclosure hopen hresult =>
        refine ⟨∅, fun o ho => (Set.notMem_empty o ho).elim, .inspect ?_⟩
        rw [hclosure]
        simp only [hopen, Bool.false_eq_true, if_false]
        exact .of_ok (.refl _ _) hup₁ hresult
      | @call c hlast hclosure hnew htag hcall =>
        refine ⟨{bound.target}, fun o ho _ => ho ▸ hnew, .inspect ?_⟩
        rw [hclosure]
        simp only [hcall.isSaturated_eq_true, if_true]
        rw [Ends.outcome, Multiset.singleton_add] at hup₁
        exact .releasing (result_ends hlawful hreduce hn hoptions hup₁ (Multiset.mem_cons_self _ _)
          hcall) fun _ _ _ hr => hr

theorem application_ends (hlawful : L.Lawful) (hreduce : L.Reduces d reduce) (hn : n + 1 < d)
    (hoptions : options.checkResults = false) {function argument : Handle}
    (hup : L.Upholds s.heap R (argument.holding ::ₘ rest)) (hheld : function.holding ∈ rest)
    (hfunction : R.Stands L function f n) (hargument : R.Stands L argument a n)
    (happly : L.apply f a x) :
    Ends L ∅ s.heap R rest (fun r : Handle => {r.holding}) (fun _ R' r => R'.Result L r x (n + 1))
      never (application options reduce function argument s) := by
  have hreduced := hreduce.handle hup (Multiset.mem_cons_of_mem hheld) (.inl hfunction) (by omega)
  rw [application_eq]
  refine .bind_sure hreduced.releasingOnSignal fun g s₁ R₁ hev₁ hup₁ ⟨hg, hsettled⟩ => ?_
  rw [Multiset.singleton_add] at hup₁
  refine applyReduced_ends hlawful hreduce hn hoptions hup₁ (fun htag => ?_)
    (hg f n (.inl hfunction)) (hev₁.stands hargument) happly
  exact shared_of_settled hup₁ (by simp [hheld]) hheld hsettled htag

theorem store_ends {node : ObjectId} {r : Handle} {rank : Nat}
    (hup : L.Upholds s.heap R (r.holding ::ₘ rest)) (hheld : .strong (.object node) ∈ rest)
    (hrole : R.object node = some (.node x rank)) (hresult : R.Result L r x rank) :
    Ends L ∅ s.heap R rest (fun r : Handle => {r.holding})
      (fun m R' r => R'.Result L r x rank ∧
        ∀ kind, m.kindOf? node = some kind → kind = .application (.reduced r)) never
      (store node r s) := by
  obtain ⟨kind, hkind⟩ : ∃ kind, s.heap.kindOf? node = some kind :=
    hup.kindOf?_of_held (h := .plain node) (Multiset.mem_cons_of_mem hheld)
  have hlook : s.heap.kind? (.plain node) = some kind := hkind
  have hcached : R.Result L r.asCached x rank := by
    obtain ⟨role, hrole, hmeans, htag, hdone⟩ := hresult
    refine ⟨role, by simpa using hrole, hmeans, ?_, hdone⟩
    cases role <;> cases hr : r.tag <;> simp_all [Role.Tagged, Handle.asCached, Role.IsNode]
  refine .inspect ?_
  rw [hlook]
  obtain ⟨g, y, xf, xa, k, rfl, -⟩ | ⟨first, rfl, hfirst⟩ := hup.supports.object _ _ _ hrole hkind
  · have hshared := hup.share (h := r.asCached) (hup.live (by simp))
    have hkind₁ := (kindOf?_congr (contents_retain s.heap r.asCached) node).trans hkind
    have hstored : L.Upholds ((s.heap.retain r.asCached).setKind node
        (.application (.reduced r.asCached))) R
        (g.holding ::ₘ y.holding ::ₘ r.asCached.holding ::ₘ rest) := by
      refine ⟨hshared.valid.setKind hkind₁ (by simp) ?_,
        hshared.supports.setKind hrole (.inr ⟨r.asCached, rfl, hcached⟩) (by simp)⟩
      simp only [ObjectKind.holdings_reduced, ObjectKind.holdings_pending, Handle.holding_asCached,
        Multiset.insert_eq_cons, ← Multiset.singleton_add]
      abel
    refine .of_ok (s := s.on fun m => (((m.retain r.asCached).setKind node
      (.application (.reduced r.asCached))).release g).release y)
      (((Evolves.share.trans (evolves_setKind hrole _)).trans .release).trans .release)
      (by rw [Multiset.singleton_add]; exact hstored.release.release)
      ⟨hcached, fun kind hafter => ?_⟩
    have hbefore := (within_release _ g).kind _ _ ((within_release _ y).kind _ _ hafter)
    rw [Valid.kindOf?_setKind, if_pos rfl, hkind₁] at hbefore
    exact (Option.some.inj hbefore).symm
  · have hlive : s.heap.IsLive first.edge :=
      hup.valid.counted.live_of_kind hkind (by simp [Handle.holding])
    have hshared := hup.share hlive
    rw [Multiset.cons_swap, ← Handle.holding_asCached] at hshared
    refine .of_ok (s := s.on fun m => (m.retain first).release r.asCached)
      (Evolves.share.trans .release) (by rw [Multiset.singleton_add]; exact hshared.release)
      ⟨hfirst, fun kind hafter => ?_⟩
    have hbefore := (within_release _ r.asCached).kind _ _ hafter
    rw [kindOf?_congr (contents_retain _ _), hkind] at hbefore
    exact (Option.some.inj hbefore).symm

theorem pending_ends (hlawful : L.Lawful) (hreduce : L.Reduces d reduce)
    (hoptions : options.checkResults = false) {node : ObjectId} {g y : Handle} {rank : Nat}
    (hup : L.Upholds s.heap R rest) (hheld : .strong (.object node) ∈ rest)
    (hrole : R.object node = some (.node x rank))
    (hkind : s.heap.kindOf? node = some (.application (.pending g y))) (hg : R.Stands L g f n)
    (hy : R.Stands L y a n) (hrank : n + 2 ≤ rank) (hd : rank ≤ d) (happly : L.apply f a x) :
    Ends L ∅ s.heap R rest (fun r : Handle => {r.holding})
      (fun m R' r => R'.Result L r x rank ∧
        ∀ kind, m.kindOf? node = some kind → kind = .application (.reduced r)) never
      ((do
        let function ← share g
        let argument ← share y
        releasing function do
          store node (← application options reduce function argument)) s) := by
  have hlive : ∀ h : Handle, h.holding ∈ (ObjectKind.application (.pending g y)).holdings →
      s.heap.IsLive h.edge := fun h hh =>
    hup.valid.counted.live_of_kind hkind hh
  have hup₁ := hup.share (hlive g (by simp))
  have hup₂ := hup₁.share ((isLive_congr (contents_retain _ _) _).2 (hlive y (by simp)))
  refine .step (share_run g s) .share (.step (share_run y _) .share (.releasing ?_ ?_))
  · refine .bind (application_ends hlawful hreduce (by omega) hoptions hup₂
      (Multiset.mem_cons_self _ _) hg hy happly) fun r s₁ R₁ hev hup₃ hr => ?_
    rw [Multiset.singleton_add] at hup₃
    exact store_ends hup₃ (Multiset.mem_cons_of_mem hheld) (hev.object _ _ hrole)
      (hr.mono (by omega))
  · rintro m' R' r ⟨hr, hkept⟩
    exact ⟨hr, fun kind hafter => hkept kind ((within_release m' g).kind _ _ hafter)⟩

theorem reduceOnce_run {h : Handle} {kind : ObjectKind} (hup : L.Supports s.heap R)
    (hresult : R.Result L h x n) (hkind : s.heap.kindOf? h.target = some kind) :
    reduceOnce options reduce h s = share h s := by
  have hlook : s.heap.kind? h = some kind := hkind
  rw [reduceOnce]
  split
  · next hplain =>
    rw [Run.bind_run, inspect_run]
    dsimp only
    rw [hlook]
    cases hup.normal hresult hkind with
    | value => rfl
    | failed htag => cases hplain.symm.trans htag
    | @function c p args _ hpartial =>
      simp only [hpartial.isSaturated_eq_false, Bool.false_eq_true, if_false]
  · rfl

theorem reduceOnce_handle (hlawful : L.Lawful) (hreduce : L.Reduces d reduce)
    (hoptions : options.checkResults = false) {h : Handle} (hup : L.Upholds s.heap R rest)
    (hheld : h.holding ∈ rest) (hdemand : R.Demandable L s.heap h x n) (hn : n < d + 1) :
    Ends L ∅ s.heap R rest (fun r : Handle => {r.holding})
      (fun m R' r => (∀ y k, R.Demandable L s.heap h y k → R'.Result L r y k) ∧ m.Settled h r) never
      (reduceOnce options reduce h s) := by
  obtain ⟨kind, hkind⟩ := hup.kindOf?_of_held hheld
  have hlook : s.heap.kind? h = some kind := hkind
  obtain hstands | hhole := hdemand
  · obtain ⟨role, hrole, hmeans, htag⟩ := hstands
    by_cases hdone : role.IsNode
    · cases role with
      | node z rank =>
        obtain ⟨rfl, hrank⟩ := hmeans
        have hall : ∀ {R' : Roles X} {r : Handle}, R'.Result L r z rank →
            ∀ y k, R.Demandable L s.heap h y k → R'.Result L r y k := by
          intro R' r hr y k hdemand
          obtain ⟨role, hrole', hmeans', -⟩ := hdemand.stands hrole
          cases hrole.symm.trans hrole'
          exact hmeans'.1 ▸ hr.mono hmeans'.2
        have hplain : h.tag = .plain := htag
        rw [reduceOnce, if_pos hplain]
        refine .inspect ?_
        rw [hlook]
        obtain ⟨g, y, xf, xa, k, rfl, hg, hy, hk, happly⟩ | ⟨r, rfl, hr⟩ :=
          hup.supports.object _ _ _ hrole hkind
        · exact (pending_ends hlawful hreduce hoptions hup hheld hrole hkind hg hy hk (by omega)
            happly).imp (fun m R' r hr => ⟨hall hr.1, .inr (.inr hr.2)⟩) fun e he => he
        · have hlive : s.heap.IsLive r.edge :=
            hup.valid.counted.live_of_kind hkind (by simp [Handle.holding])
          refine .of_ok (s := s.on (·.retain r)) .share
            (by rw [Multiset.singleton_add]; exact hup.share hlive) ⟨hall hr, .inr (.inr ?_)⟩
          intro kind hafter
          have hbefore := (kindOf?_congr (contents_retain s.heap r) h.target).symm.trans hafter
          exact (Option.some.inj (hkind.symm.trans hbefore)).symm
      | declaration p | value v | failed e | function z rank => exact hdone.elim
    · rw [reduceOnce_run hup.supports ⟨role, hrole, hmeans, htag, hdone⟩ hkind]
      refine .of_ok (s := s.on (·.retain h)) .share
        (by rw [Multiset.singleton_add]; exact hup.share (hup.live hheld)) ⟨?_, .inl rfl⟩
      intro y k hdemand
      obtain ⟨role', hrole', hmeans', htag'⟩ := hdemand.stands hrole
      cases hrole.symm.trans hrole'
      exact ⟨role, hrole, hmeans', htag', hdone⟩
  · obtain rfl := hhole.kind kind hkind
    rw [reduceOnce, if_pos hhole.tag]
    refine .inspect ?_
    rw [hlook]
    refine Ends.imp (Ends.newException (e := .blackHole) hup)
      (fun m R' r hr => ⟨fun y k hdemand => ?_, .inr (.inl hr.1)⟩) fun e he => he
    obtain ⟨role, hrole, -⟩ | hhole' := hdemand
    · cases hhole.noRole.symm.trans hrole
    · exact hr.2 y k hhole'.error

theorem reduceOnce_reduces (hlawful : L.Lawful) (hoptions : options.checkResults = false)
    (hreduce : L.Reduces d reduce) : L.Reduces (d + 1) (reduceOnce options reduce) where
  handle hup hheld hdemand hn := reduceOnce_handle hlawful hreduce hoptions hup hheld hdemand hn
  call {s R rest h c x n} hup hheld htag hcall hn := by
    have hlook : s.heap.kind? h = some (.closure c) := hcall.kind
    rw [reduceOnce, if_pos htag]
    refine .inspect ?_
    rw [hlook]
    simp only [hcall.isSaturated_eq_true, if_true]
    exact result_ends hlawful hreduce (by omega) hoptions hup hheld hcall

theorem reduceUpTo_reduces (hlawful : L.Lawful) (hoptions : options.checkResults = false)
    (depth : Nat) : L.Reduces depth (reduceUpTo options depth) := by
  induction depth with
  | zero => exact ⟨fun _ _ _ hn => absurd hn (Nat.not_lt_zero _),
      fun _ _ _ _ hn => absurd hn (Nat.not_lt_zero _)⟩
  | succ depth ih => exact reduceOnce_reduces hlawful hoptions ih

end Evaluator

end GraphReduction
