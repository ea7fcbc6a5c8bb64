import Mathlib
import GraphReduction.Proofs.Labels.Demand
import GraphReduction.Proofs.Moves.Tie

/-! Running the bodies of the primitives when roles are kept up. The raw result of a body is
something that the reducer can be asked for. While a data fixpoint is computed, its self reference
and the closure that it is the last argument of are new, so whatever becomes of them changes nothing
that was there before. -/
namespace GraphReduction

open Heap Run

variable {X : Type} {L : Labelling X} {m : Heap} {R : Roles X} {rest : Multiset Holding}
  {s : Machine} {reduce : Reducer} {d n : Nat} {x f : X} {bad : EvalError → Prop}

theorem evolves_tie {knot : ObjectId} (m : Heap) (value : Handle) :
    Evolves {knot} m R (m.tie knot value) R where
  object _ _ h := h
  thunk _ _ h := h
  noRole _ _ h := h
  noRoleThunk _ _ h := h
  kind o kind _ _ hne hkind := by rwa [kindOf?_tie _ _ (by simpa using hne)] at hkind
  state t state _ _ h := by
    unfold Heap.tie at h
    split at h <;> exact h
  combinator c k h := by
    unfold Heap.tie at h
    split at h <;> exact h
  allocated cell h := (allocated_tie m knot value cell).2 h

theorem Heap.Ground.tie (h : m.Ground) (knot : ObjectId) (value : Handle) :
    (m.tie knot value).Ground := by
  unfold Heap.tie
  split
  · exact h.setKind (by simp)
  · have hweak : (m.retainWeak value.target).Ground := fun o v hkind =>
      h o v (kindOf?_congr (contents_retainWeak m _) o ▸ hkind)
    exact hweak.setKind (by simp)

theorem Labelling.Upholds.tie {knot : ObjectId} {value : Handle} (hup : L.Upholds m R rest)
    (hnone : R.object knot = none)
    (hknot : m.kindOf? knot = some (.application (.knot .unresolved)))
    (hlive : m.IsLive value.edge) : L.Upholds (m.tie knot value) R rest where
  valid := hup.valid.tie hknot hlive
  supports := by
    refine hup.supports.evolve (evolves_tie m value) (fun o role hrole => ⟨.inl hrole,
      fun kind hkind => .inl ⟨hrole, ?_⟩⟩)
      (fun t p hp => ⟨.inl hp, fun state hstate => .inl ⟨hp, ?_⟩⟩)
      (hup.supports.ground.tie knot value)
    · have hne : o ≠ knot := fun heq => by rw [heq, hnone] at hrole; cases hrole
      rwa [kindOf?_tie _ _ hne] at hkind
    · unfold Heap.tie at hstate
      split at hstate <;> exact hstate

namespace Run

theorem newValue_ends (hup : L.Upholds s.heap R rest) {type : Ty} {payload : Payload}
    (hground : type.leaves = []) (hhandles : payload.handles = [])
    (hx : L.value ⟨type, payload⟩ x) :
    Ends L ∅ s.heap R rest (fun r : Handle => {r.holding})
      (fun m R' r => R'.Demandable L m r x n) bad (newValue type payload s) := by
  have hup' : L.Upholds s.heap R ((ObjectKind.value ⟨type, payload⟩).holdings + rest) := by
    refine ⟨?_, hup.supports⟩
    rw [ObjectKind.holdings_value, hhandles, Multiset.cons_add]
    exact (Valid.error _).2 (by simpa using hup.valid)
  refine .of_ok (s := s.on fun m => (m.newObject (.value ⟨type, payload⟩)).2)
    (evolves_newRole hup.supports _ (.value ⟨type, payload⟩)) ?_ (.inl ?_)
  · have hplays : (Role.value ⟨type, payload⟩).Plays L s.heap R (.value ⟨type, payload⟩) := rfl
    have hnew := hup'.newRole (by simp) (by simp [hground]) hplays
    rwa [← Multiset.singleton_add] at hnew
  · exact ⟨_, Roles.withObject_self, hx, by simp [Role.Tagged, Handle.plain]⟩

theorem resolveValue_ends {knot saturated : Handle} {c : Closure} (hreduce : L.Reduces d reduce)
    (hup : L.Upholds s.heap R (saturated.holding ::ₘ knot.holding ::ₘ rest))
    (hhole : R.Hole L s.heap knot f) (htag : saturated.tag = .plain)
    (hcall : R.Call L s.heap saturated.target c x n) (hn : n + 1 < d) :
    Ends L {knot.target, saturated.target} s.heap R (knot.holding ::ₘ rest)
      (fun r : Handle => {r.holding}) (fun _ R' r => R'.Result L r x n) (fun e => L.error e x)
      (releasing saturated (do
        let value ← intoResult (← reduce saturated)
        resolve knot.target value
        pure value) s) := by
  have hne : knot.target ≠ saturated.target := hhole.ne_of_closure hcall.kind
  refine .releasing ?_ fun _ _ _ h => h
  refine .bind_new (.imp (hreduce.call hup (Multiset.mem_cons_self _ _) htag hcall hn)
    (fun _ _ _ h => h) fun _ h => h.elim) (by simp) fun r s₁ R₁ hev₁ hup₁ hr =>
      ⟨{knot.target, saturated.target}, fun o ho hnot => (hnot ho).elim, ?_⟩
  have hhole₁ := hev₁.hole hhole (by simpa using hne)
  rw [Multiset.singleton_add] at hup₁
  refine .bind_new (intoResult_ends hup₁ hr) (by simp) fun value s₂ R₂ hev₂ hup₂ hvalue =>
    ⟨{knot.target}, fun o ho hnot => (hnot (.inl ho)).elim, ?_⟩
  obtain ⟨-, rfl, rfl, -, hresult⟩ := hvalue
  have hhole₂ := hev₂.hole hhole₁ (Set.notMem_empty _)
  obtain ⟨kind, hkind⟩ := hup₂.kindOf?_of_held (h := knot) (by simp)
  obtain rfl := hhole₂.kind kind hkind
  have htied := hup₂.tie hhole₂.noRole hkind (hup₂.live (h := r.untagged) (by simp))
  refine .step (resolve_run hkind rfl) (evolves_tie s₂.heap r.untagged) ?_
  exact .of_ok (.refl _ _) htied hresult

theorem knotValue_ends {knot function : Handle} {c : Closure} {p : Primitive} {args : List X}
    (hreduce : L.Reduces d reduce)
    (hup : L.Upholds s.heap R (knot.holding ::ₘ function.holding ::ₘ rest))
    (hshared : function.holding ∈ s.heap.held)
    (hkind : s.heap.kindOf? function.target = some (.closure c))
    (hpartial : R.Partial L s.heap c p args f n) (hlast : c.missing = 1)
    (hhole : R.Hole L s.heap knot x) (hx : L.partialApp p (args ++ [x]) x) (hn : n + 1 < d) :
    Ends L {knot.target} s.heap R rest (fun r : Handle => {r.holding})
      (fun _ R' r => R'.Result L r x n) (fun e => L.error e x)
      (releasing knot (do
        let saturated ← applyArgument function (← share knot)
        releasing saturated do
          let value ← intoResult (← reduce saturated)
          resolve knot.target value
          pure value) s) := by
  have hev₁ : Evolves ∅ s.heap R (s.heap.retain knot) R := .share
  refine .releasing (.step (share_run knot s) .share ?_) fun _ _ _ h => h
  have hup₁ : L.Upholds (s.heap.retain knot) R
      (function.holding ::ₘ knot.holding ::ₘ (knot.holding ::ₘ rest)) := by
    have hshare := hup.share (hup.live (Multiset.mem_cons_self _ _))
    rwa [Multiset.cons_swap knot.holding function.holding, Multiset.cons_swap] at hshare
  have hshared₁ : function.holding ∈ (s.heap.retain knot).held + (knot.holding ::ₘ rest) := by
    rw [held_congr (contents_retain _ _)]
    exact Multiset.mem_add.2 (.inl hshared)
  have hkind₁ : (s.heap.retain knot).kindOf? function.target = some (.closure c) :=
    (kindOf?_congr (contents_retain _ _) _).trans hkind
  have hhole₁ : R.Hole L (s.heap.retain knot) knot x :=
    hev₁.hole hhole (Set.notMem_empty _)
  refine .bind_new (applyKnot_ends hup₁ hshared₁ hkind₁ (hev₁.partially hpartial) hlast hhole₁ hx)
    (Set.empty_subset _) fun saturated s₂ R₂ hev₂ hup₂ hbound =>
      ⟨{knot.target, saturated.target}, ?_, ?_⟩
  · rintro o (rfl | rfl) hnot
    · exact (hnot rfl).elim
    · cases hbound with
      | function hmore => omega
      | call _ _ hnew => exact hnew
  · cases hbound with
    | function hmore => omega
    | call _ _ _ htag hcall =>
      rw [Multiset.singleton_add] at hup₂
      exact resolveValue_ends hreduce hup₂ (hev₂.hole hhole₁ (Set.notMem_empty _)) htag hcall hn

theorem tie_ends (hlawful : L.Lawful) (hreduce : L.Reduces d reduce) {function : Handle}
    (hup : L.Upholds s.heap R (function.holding ::ₘ rest))
    (hshared : function.holding ∈ s.heap.held) (hfunction : R.Result L function f n)
    (htag : function.tag = .plain) (hties : L.Ties f x) (hn : n + 1 < d) :
    Ends L ∅ s.heap R rest (fun r : Handle => {r.holding}) (fun _ R' r => R'.Result L r x n)
      (fun e => L.error e x) (tie reduce function s) := by
  obtain ⟨kind, hkind⟩ := hup.kindOf?_of_held (h := function) (by simp)
  have hkind' : s.heap.kind? function = some kind := hkind
  rw [tie]
  refine .inspect ?_
  cases hup.supports.normal hfunction hkind with
  | failed hexception _ => cases htag.symm.trans hexception
  | @value v _ hv =>
    have hclosure : s.heap.closure? function = none := by
      rw [closure?, plainKind?, hkind', htag]
      rfl
    simp only [hclosure, Option.map_none, Option.getD_none]
    refine .raised (s := s.on (·.release function)) .release hup.release ?_
    simpa [describe, hkind', describeKind] using hties.value v hv
  | @function c p args _ hpartial =>
    have hmissing := hpartial.missing
    have harity := hpartial.arity
    obtain ⟨hlength, happly, herror⟩ := hties.function p args hpartial.applied (by omega)
    have hlast : c.missing = 1 := by omega
    have hx := hlawful.bind p args f x x hpartial.applied (by omega) happly
    simp only [closure?_of_kindOf? htag hkind, Option.map_some, Option.getD_some, hlast]
    have hknot : L.Upholds s.heap R
        ((ObjectKind.application (.knot .unresolved)).holdings + (function.holding ::ₘ rest)) := by
      simpa using hup
    have hev : Evolves ∅ s.heap R _ R := evolves_newObject (.application (.knot .unresolved))
    have hup₁ := hknot.newObject (by simp) (by simp)
    have hact : newKnot s = .ok (.plain s.heap.nextObject)
        (s.on fun m => (m.newObject (.application (.knot .unresolved))).2) := rfl
    have hfresh : ∀ o ∈ ({s.heap.nextObject} : Set ObjectId), o ∉ (∅ : Set ObjectId) →
        ¬ s.heap.Allocated (.object o) := by
      rintro o rfl -
      exact (grows_newObject s.heap (.application (.knot .unresolved))).fresh
    refine .step_new hact hev (Set.empty_subset _) hfresh ?_
    have hhole : R.Hole L (s.heap.newObject (.application (.knot .unresolved))).2
        (Handle.plain s.heap.nextObject) x := by
      refine ⟨rfl, hup.supports.no_role_nextObject,
        ((grows_newObject s.heap _).allocated _).2 (.inl rfl), fun kind' hkind' => ?_, herror⟩
      have hself := kindOf?_newObject s.heap (.application (.knot .unresolved)) s.heap.nextObject
      rw [if_pos rfl] at hself
      exact (Option.some.inj (hself.symm.trans hkind')).symm
    have hshared₁ : function.holding ∈
        (s.heap.newObject (.application (.knot .unresolved))).2.held := by
      rw [(grows_newObject s.heap _).held]
      exact Multiset.mem_add.2 (.inl hshared)
    have hkind₁ : (s.heap.newObject (.application (.knot .unresolved))).2.kindOf? function.target =
        some (.closure c) := by
      rw [kindOf?_newObject, if_neg (ne_nextObject hkind), hkind]
    exact .bind
      (knotValue_ends (s := s.on fun m => (m.newObject (.application (.knot .unresolved))).2)
        hreduce hup₁ hshared₁ hkind₁ (hev.partially hpartial) hlast hhole hx hn)
      fun value s₂ R₂ _ hup₂ hvalue => .of_ok (.refl _ _) hup₂ hvalue

end Run

namespace Body

variable {o : ObjectId} {c : Closure} {args : List X} {name : String}

theorem run_ends (hlawful : L.Lawful) (hreduce : L.Reduces d reduce) (hn : n < d)
    (part : Body Handle) (hup : L.Upholds s.heap R rest)
    (hsupplies : R.Supplies L s.heap rest o c args n) (hperforms : L.Performs args x part) :
    Ends L ∅ s.heap R rest (fun r : Handle => {r.holding}) (fun m R' r => R'.Demandable L m r x n)
      (fun e => L.error e x) (part.run reduce ⟨name, c⟩ s) := by
  induction part generalizing s R with
  | lazy i =>
    obtain ⟨t, ht, hargument, hslot⟩ := hsupplies.argument hup hperforms
    exact .step (Args.thunk_run ht) (.refl _ _)
      (ThunkId.peek_ends hup hsupplies hargument hslot)
  | cond i yes no ihyes ihno =>
    obtain ⟨a, ha, hunboxes⟩ := hperforms
    refine .bind (Args.unbox_ends hreduce hup hsupplies ha hn hunboxes)
      fun b s₁ R₁ hev hup₁ hnext => ?_
    rw [zero_add] at hup₁
    have hsupplies₁ := hsupplies.evolve hev hup₁ hsupplies.held
    cases b with
    | true => exact ihyes hup₁ hsupplies₁ hnext
    | false => exact ihno hup₁ hsupplies₁ hnext
  | arith op =>
    obtain ⟨a, b, ha, hb, hunboxes⟩ := hperforms
    refine .bind (Args.unbox_ends hreduce hup hsupplies ha hn hunboxes)
      fun i s₁ R₁ hev hup₁ hnext => ?_
    rw [zero_add] at hup₁
    have hsupplies₁ := hsupplies.evolve hev hup₁ hsupplies.held
    refine .bind (Args.unbox_ends hreduce hup₁ hsupplies₁ hb hn hnext)
      fun j s₂ R₂ hev₂ hup₂ hresult => ?_
    rw [zero_add] at hup₂
    cases hop : op.result? i j with
    | none => exact .raised (.refl _ _) hup₂ (by simpa [hop] using hresult)
    | some k => exact newValue_ends hup₂ rfl rfl (by simpa [hop] using hresult)
  | test how =>
    obtain ⟨a, b, ha, hb, hunboxes⟩ := hperforms
    refine .bind (Args.unbox_ends hreduce hup hsupplies ha hn hunboxes)
      fun i s₁ R₁ hev hup₁ hnext => ?_
    rw [zero_add] at hup₁
    have hsupplies₁ := hsupplies.evolve hev hup₁ hsupplies.held
    refine .bind (Args.unbox_ends hreduce hup₁ hsupplies₁ hb hn hnext)
      fun j s₂ R₂ hev₂ hup₂ hresult => ?_
    rw [zero_add] at hup₂
    exact newValue_ends hup₂ rfl rfl hresult
  | fail i =>
    obtain ⟨a, ha, hunboxes⟩ := hperforms
    refine .bind (Args.unbox_ends hreduce hup hsupplies ha hn hunboxes)
      fun text s₁ R₁ hev hup₁ herror => ?_
    rw [zero_add] at hup₁
    exact .raised (.refl _ _) hup₁ herror
  | tie =>
    obtain ⟨f, hf, hties⟩ := hperforms
    refine .bind ((Args.force_ends hreduce hup hsupplies hf hn).imp (fun _ _ _ h => h) hties.error)
      fun h s₁ R₁ hev hup₁ hh => ?_
    obtain ⟨k, hk, hresult, htag, hshared⟩ := hh
    rw [Multiset.singleton_add] at hup₁
    exact (tie_ends hlawful hreduce hup₁ hshared hresult htag hties (by omega)).imp
      (fun m R' r hr => .inl (hr.mono hk.le).stands) fun e he => he
  | force | value | length | isEmpty | name | int | bool | str | primitive | captured | apply |
    bind | pair | field | eval | clone | bindSelf | typeOf | seq | recover | log | compare | raise |
    panic =>
    exact hperforms.elim

end Body

end GraphReduction
