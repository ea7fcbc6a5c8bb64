import Mathlib
import GraphReduction.Reduce.Body
import GraphReduction.Proofs.Labels.Binding
import GraphReduction.Proofs.Moves.Body

/-! Demands. A reducer does what is asked of it when its results have every label of what was
reduced; what a thunk keeps then has every label of what the thunk was made from. The body of a
closure demands the arguments while somebody else holds the closure, so the arguments stay there. -/
namespace GraphReduction

open Heap Run

variable {X α : Type} {L : Labelling X} {m m' : Heap} {R R' : Roles X}
  {held rest : Multiset Holding} {s : Machine} {reduce : Reducer} {d n : Nat} {x : X}

/-- A node that is reduced keeps the result; everything else that is not an error is its own. -/
def Heap.Settled (m : Heap) (h r : Handle) : Prop :=
  r = h ∨ r.tag = .exception ∨
    ∀ kind, m.kindOf? h.target = some kind → kind = .application (.reduced r)

/-- The reducer does what is asked of it, as long as that takes less than `d` layers. -/
structure Labelling.Reduces (L : Labelling X) (d : Nat) (reduce : Reducer) : Prop where
  handle : ∀ {s : Machine} {R : Roles X} {rest : Multiset Holding} {h : Handle} {x : X} {n : Nat},
    L.Upholds s.heap R rest → h.holding ∈ rest → R.Demandable L s.heap h x n → n < d →
    Ends L ∅ s.heap R rest (fun r : Handle => {r.holding})
      (fun m R' r => (∀ y k, R.Demandable L s.heap h y k → R'.Result L r y k) ∧ m.Settled h r) never
      (reduce h s)
  call : ∀ {s : Machine} {R : Roles X} {rest : Multiset Holding} {h : Handle} {c : Closure} {x : X}
    {n : Nat}, L.Upholds s.heap R rest → h.holding ∈ rest → h.tag = .plain →
    R.Call L s.heap h.target c x n → n + 1 < d →
    Ends L {h.target} s.heap R rest (fun r : Handle => {r.holding})
      (fun _ R' r => R'.Result L r x n) never (reduce h s)

theorem Evolves.kindOf?_of_held {B : Set ObjectId} {o : ObjectId} {kind : ObjectKind}
    (hev : Evolves B m R m' R') (hnone : R.object o = none) (hkind : m.kindOf? o = some kind)
    (hB : o ∉ B) (hup : L.Upholds m' R' held) (hheld : .strong (.object o) ∈ held) :
    m'.kindOf? o = some kind := by
  obtain ⟨kind', hkind'⟩ := hup.kindOf?_of_held (h := .plain o) hheld
  have hsame := hev.kind o kind' (isLive_of_kindOf? hkind).allocated hnone hB hkind'
  exact hkind'.trans (hsame.symm.trans hkind)

namespace Roles

structure Supplies (L : Labelling X) (m : Heap) (R : Roles X) (held : Multiset Holding)
    (o : ObjectId) (c : Closure) (args : List X) (n : Nat) : Prop where
  held : .strong (.object o) ∈ held
  noRole : R.object o = none
  kind : ∃ memo, m.kindOf? o = some (.closure { c with memo })
  arguments : List.Forall₂ (R.Slot L m n) c.arguments args

namespace Supplies

variable {o : ObjectId} {c : Closure} {args : List X}

theorem evolve (h : R.Supplies L m held o c args n) (hev : Evolves ∅ m R m' R')
    (hup : L.Upholds m' R' rest) (hheld : .strong (.object o) ∈ rest) :
    R'.Supplies L m' rest o c args n where
  held := hheld
  noRole := by
    obtain ⟨memo, hkind⟩ := h.kind
    exact hev.noRole o (isLive_of_kindOf? hkind).allocated h.noRole
  kind := by
    obtain ⟨memo, hkind⟩ := h.kind
    exact ⟨memo, hev.kindOf?_of_held h.noRole hkind (Set.notMem_empty o) hup hheld⟩
  arguments := h.arguments.imp fun _ _ hslot => hev.slot (fun _ _ => Set.notMem_empty _) hslot

theorem live (h : R.Supplies L m held o c args n) (hup : L.Upholds m R rest) {t : ThunkId}
    (ht : t ∈ c.arguments) : m.IsLive (.thunk t) := by
  obtain ⟨memo, hkind⟩ := h.kind
  have hslot : t ∈ ({ c with memo } : Closure).arguments := ht
  exact hup.valid.counted.live_of_kind hkind (by simp [ObjectKind.holdings_closure, hslot])

theorem proper (h : R.Supplies L m held o c args n) (hup : L.Upholds m R rest) : c.Proper := by
  obtain ⟨memo, hkind⟩ := h.kind
  have hproper := hup.valid.proper _ _ hkind
  exact hproper

end Supplies

/-- The closure of a primitive whose body runs, with all its arguments. -/
structure Runs (L : Labelling X) (m : Heap) (R : Roles X) (held : Multiset Holding) (o : ObjectId)
    (c : Closure) (p : Primitive) (args : List X) (x : X) (n : Nat) : Prop where
  supplies : R.Supplies L m held o c args n
  implements : m.Implements c.combinator p
  length : args.length = p.arity
  applied : L.partialApp p args x
  oneHole : R.OneHole L c.arguments args n

theorem OneHole.evolve {B : Set ObjectId} {slots : List ThunkId} {args : List X}
    (h : R.OneHole L slots args n) (hev : Evolves B m R m' R') : R'.OneHole L slots args n := by
  obtain ⟨y, hslots⟩ := h
  exact ⟨y, hslots.imp fun _ _ hslot => hslot.imp_left hev.made⟩

theorem Runs.evolve {o : ObjectId} {c : Closure} {p : Primitive} {args : List X}
    (h : R.Runs L m held o c p args x n) (hev : Evolves ∅ m R m' R') (hup : L.Upholds m' R' rest)
    (hheld : .strong (.object o) ∈ rest) : R'.Runs L m' rest o c p args x n where
  supplies := h.supplies.evolve hev hup hheld
  implements := hev.implements h.implements
  length := h.length
  applied := h.applied
  oneHole := h.oneHole.evolve hev

end Roles

namespace Closure

theorem argument?_eq {c : Closure} (h : c.Proper) (i : Nat) : c.argument? i = c.arguments[i]? := by
  have htotal := h.total_eq
  have hslots : c.slots[c.total - (i + 1)]? = c.slots.toList[c.total - (i + 1)]? :=
    (Array.getElem?_toList ..).symm
  rw [argument?, hslots, h]
  split
  · next hi =>
    by_cases hbound : i < c.arguments.length
    · rw [List.getElem?_append_right (by simp; omega), List.getElem?_reverse (by simp; omega)]
      have hplace : (c.arguments.map some).length - 1 -
          (c.total - (i + 1) - (List.replicate c.missing (none : Option ThunkId)).length) = i := by
        simp
        omega
      rw [hplace, List.getElem?_map, List.getElem?_eq_getElem hbound]
      rfl
    · rw [List.getElem?_append_left (by simp; omega), List.getElem?_replicate,
        List.getElem?_eq_none (by omega)]
      split <;> rfl
  · rw [List.getElem?_eq_none (by omega)]

end Closure

theorem Roles.Supplies.argument {o : ObjectId} {c : Closure} {args : List X} {i : Nat}
    (h : R.Supplies L m held o c args n) (hup : L.Upholds m R rest) (hi : args[i]? = some x) :
    ∃ t, c.argument? i = some t ∧ t ∈ c.arguments ∧ R.Slot L m n t x := by
  obtain ⟨hlt, rfl⟩ := List.getElem?_eq_some_iff.mp hi
  have hlen := h.arguments.length_eq
  refine ⟨c.arguments[i], ?_, List.getElem_mem _, ?_⟩
  · rw [Closure.argument?_eq (h.proper hup), List.getElem?_eq_getElem]
  · exact (List.forall₂_iff_get.mp h.arguments).2 i (hlen ▸ hlt) hlt

theorem Labelling.Supports.isKnot_eq_false {m : Heap} {h : Handle} {role : Role X}
    (hup : L.Supports m R) (hrole : R.object h.target = some role) : m.isKnot h = false := by
  rw [Heap.isKnot]
  split
  · next k happ => exact (hup.not_knot hrole k (kindOf?_of_application? happ)).elim
  · rfl

theorem Heap.Implements.combinatorOf?_eq {c : Closure} {p : Primitive} {o : ObjectId}
    (h : m.Implements c.combinator p) (hvalid : m.Valid held)
    (hkind : m.kindOf? o = some (.closure c)) : m.combinatorOf? c.combinator = some p.declared := by
  have hlive : m.IsLive (.combinator c.combinator) :=
    hvalid.counted.live_of_kind hkind (by simp [ObjectKind.holdings_closure])
  obtain ⟨k, hk⟩ := Option.isSome_iff_exists.mp hlive
  have hcombinator : m.combinatorOf? c.combinator = some k.combinator := by simp [combinatorOf?, hk]
  rw [hcombinator, h _ hcombinator]

theorem Roles.Runs.combinator {o : ObjectId} {c : Closure} {p : Primitive} {args : List X}
    (h : R.Runs L m held o c p args x n) (hup : L.Upholds m R rest) :
    ∃ k, m.combinator? c.combinator = some k ∧ k.combinator = p.declared := by
  obtain ⟨memo, hkind⟩ := h.supplies.kind
  have himplements : m.Implements ({ c with memo } : Closure).combinator p := h.implements
  exact Option.map_eq_some_iff.mp (himplements.combinatorOf?_eq hup.valid hkind)

theorem Heap.Implements.combinatorName_eq {c : Closure} {p : Primitive} {o : ObjectId}
    (h : m.Implements c.combinator p) (hvalid : m.Valid held)
    (hkind : m.kindOf? o = some (.closure c)) : m.combinatorName c.combinator = p.name := by
  have hname : m.combinatorName c.combinator =
      ((m.combinatorOf? c.combinator).map Combinator.name).getD "" := by
    rw [combinatorName, combinatorOf?, Option.map_map]
    rfl
  rw [hname, h.combinatorOf?_eq hvalid hkind]
  rfl

theorem Roles.Partial.total_eq {c : Closure} {p : Primitive} {args : List X} {o : ObjectId}
    (h : R.Partial L m c p args x n) (hvalid : m.Valid held)
    (hkind : m.kindOf? o = some (.closure c)) : c.total = p.arity := by
  rw [(hvalid.proper _ _ hkind).total_eq, h.binds.length_eq, h.arity]

theorem Roles.Partial.describeKind {c : Closure} {p : Primitive} {args : List X} {o : ObjectId}
    (h : R.Partial L m c p args x n) (hvalid : m.Valid held)
    (hkind : m.kindOf? o = some (.closure c)) :
    m.describeKind (.closure c) = p.describeApplied args.length := by
  have hmissing : c.missing = p.arity - args.length := by
    have := h.arity
    omega
  rw [Heap.describeKind, h.implements.combinatorName_eq hvalid hkind, h.total_eq hvalid hkind,
    hmissing, Primitive.describeApplied]

/-- What a demand for an argument ends in: an error, or a result that the thunk keeps. -/
def Roles.Forced (L : Labelling X) (m : Heap) (R : Roles X) (t : ThunkId) (x : X) (n : Nat)
    (r : Handle) : Prop :=
  ∃ k, R.Result L r x k ∧
    (r.tag = .exception ∨ k < n ∧ ∀ state, m.stateOf? t = some state → state = .forced r)

theorem Roles.Forced.within {t : ThunkId} {r : Handle} (h : R.Forced L m t x n r)
    (hwithin : m'.Within m) : R.Forced L m' t x n r := by
  obtain ⟨k, hr, hkept⟩ := h
  exact ⟨k, hr, hkept.imp_right fun ⟨hk, hsame⟩ =>
    ⟨hk, fun state hstate => hsame state (hwithin.state t state hstate)⟩⟩

namespace ThunkId

variable {t : ThunkId} {h value : Handle}

theorem keep_ends (hup : L.Upholds s.heap R (value.holding ::ₘ rest)) (ht : R.thunk t = some h)
    (hlive : s.heap.IsLive (.thunk t)) (hvalue : ∀ y k, R.Stands L h y k → R.Result L value y k) :
    Ends L ∅ s.heap R rest (fun r : Handle => {r.holding})
      (fun m R' r => (∀ y k, R.Stands L h y k → R'.Result L r y k) ∧
        ∀ state, m.stateOf? t = some state → state = .forced r) never (t.keep value s) := by
  obtain ⟨thunk, hthunk⟩ := Option.isSome_iff_exists.mp hlive
  have hstate : s.heap.stateOf? t = some thunk.state := by simp [stateOf?, hthunk]
  refine .step (state?_run t s) (.refl _ _) ?_
  obtain hpending | ⟨first, hforced, hfirst⟩ := hup.supports.thunk _ _ _ ht hstate
  · rw [hpending] at hstate
    rw [hstate]
    have hshared := hup.share (h := value) (hup.live (Multiset.mem_cons_self _ _))
    have hkept : L.Upholds ((s.heap.retain value).setThunkState t (.forced value)) R
        (h.holding ::ₘ value.holding ::ₘ rest) := by
      refine ⟨hshared.valid.setThunkState
        ((stateOf?_congr (contents_retain _ _) t).trans hstate) ?_,
        hshared.supports.setThunkState ht (.inr ⟨value, rfl, hvalue⟩)⟩
      simp only [ThunkState.holdings_forced, ThunkState.holdings_pending, Multiset.singleton_add]
      rw [Multiset.cons_swap]
    refine .of_ok (s := s.on fun m => ((m.retain value).setThunkState t (.forced value)).release h)
      ((Evolves.share.trans (evolves_setThunkState ht _)).trans .release)
      (by rw [Multiset.singleton_add]; exact hkept.release) ⟨hvalue, fun state hafter => ?_⟩
    have hbefore := (within_release _ h).state _ _ hafter
    rw [stateOf?_setThunkState, if_pos rfl] at hbefore
    obtain ⟨-, -, rfl⟩ := Option.map_eq_some_iff.mp hbefore
    rfl
  · rw [hforced] at hstate
    rw [hstate]
    have hfirstlive : s.heap.IsLive first.edge :=
      hup.valid.counted.live_of_state hstate (by simp [Handle.holding])
    have hshared := hup.share hfirstlive
    rw [Multiset.cons_swap] at hshared
    refine .of_ok (s := s.on fun m => (m.retain first).release value)
      (Evolves.share.trans .release) (by rw [Multiset.singleton_add]; exact hshared.release)
      ⟨hfirst, fun state hafter => ?_⟩
    have hbefore := (within_release _ value).state _ _ hafter
    rw [stateOf?_congr (contents_retain _ _)] at hbefore
    exact Option.some.inj (hbefore.symm.trans hstate)

theorem force_ends {o : ObjectId} {c : Closure} {args : List X} (hreduce : L.Reduces d reduce)
    (hup : L.Upholds s.heap R rest) (hsupplies : R.Supplies L s.heap rest o c args n)
    (hargument : t ∈ c.arguments) (hslot : R.Slot L s.heap n t x) (hn : n < d) :
    Ends L ∅ s.heap R rest (fun r : Handle => {r.holding})
      (fun m R' r => R'.Forced L m t x n r) never (t.force reduce s) := by
  obtain ⟨thunk, hthunk⟩ := Option.isSome_iff_exists.mp (hsupplies.live hup hargument)
  have hstate : s.heap.stateOf? t = some thunk.state := by simp [stateOf?, hthunk]
  refine .step (state?_run t s) (.refl _ _) ?_
  cases hslot with
  | made hmade =>
    obtain ⟨h, k, ht, hh, hk⟩ := hmade
    obtain hpending | ⟨r, hforced, hr⟩ := hup.supports.thunk _ _ _ ht hstate
    · rw [hpending] at hstate
      rw [hstate]
      have hup₁ := hup.share (h := h)
        (hup.valid.counted.live_of_state hstate (by simp [Handle.holding]))
      refine .step rfl .share (.releasing (.inspect ?_) fun m' R' r hr =>
        hr.within (within_release m' h))
      obtain ⟨role, hrole, -⟩ := id hh
      have hknot : (s.heap.retain h).isKnot h = false := hup₁.supports.isKnot_eq_false hrole
      refine .bind (hreduce.handle hup₁ (Multiset.mem_cons_self _ _) (.inl hh) (hk.trans hn))
        fun r s₁ R₁ hev hup₂ hr => ?_
      dsimp only
      rw [hknot]
      have hlive := (hsupplies.evolve (Evolves.share.trans hev) hup₂
        (by simp [hsupplies.held])).live hup₂ hargument
      rw [Multiset.singleton_add] at hup₂
      exact (keep_ends hup₂ (hev.thunk _ _ ht) hlive fun y k hy =>
        hr.1 y k (.inl ((hev.stands_iff hrole).1 hy))).imp
          (fun m R' r hkept => ⟨k, hkept.1 x k (hev.stands hh), .inr ⟨hk, hkept.2⟩⟩) fun e he => he
    · rw [hforced] at hstate
      rw [hstate]
      have hup₁ := hup.share (h := r)
        (hup.valid.counted.live_of_state hstate (by simp [Handle.holding]))
      refine .of_ok (s := s.on (·.retain r)) .share (by rwa [Multiset.singleton_add])
        ⟨k, hr x k hh, .inr ⟨hk, fun state hafter => ?_⟩⟩
      have hbefore : (s.heap.retain r).stateOf? t = some state := hafter
      rw [stateOf?_congr (contents_retain _ _)] at hbefore
      exact Option.some.inj (hbefore.symm.trans hstate)
  | @knot h hnone halloc hhole hpending =>
    rw [hpending _ hstate] at hstate
    rw [hstate]
    have hup₁ := hup.share (h := h)
      (hup.valid.counted.live_of_state hstate (by simp [Handle.holding]))
    have hhole₁ : R.Hole L (s.heap.retain h) h x := Evolves.share.hole hhole (Set.notMem_empty _)
    have hknot : (s.heap.retain h).isKnot h = true := by
      obtain ⟨kind, hkind⟩ := hup₁.kindOf?_of_held (h := h) (by simp)
      obtain rfl := hhole₁.kind kind hkind
      have hkind' : (s.heap.retain h).kind? h = some (.application (.knot .unresolved)) := hkind
      simp [isKnot, application?, plainKind?, hhole₁.tag, hkind', ObjectKind.application?]
    refine .step rfl .share (.releasing (.inspect ?_) fun m' R' r hr =>
      hr.within (within_release m' h))
    refine .bind (hreduce.handle hup₁ (Multiset.mem_cons_self _ _) (.inr hhole₁) hn)
      fun r s₁ R₁ hev hup₂ hr => ?_
    dsimp only
    rw [hknot]
    have hresult := hr.1 x n (.inr hhole₁)
    refine .of_ok (.refl _ _) hup₂ ⟨n, hresult, .inl ?_⟩
    have hhole₂ := hev.hole hhole₁ (Set.notMem_empty _)
    obtain rfl | hexception | hreduced := hr.2
    · obtain ⟨role, hrole, -⟩ := hresult
      cases hhole₂.noRole.symm.trans hrole
    · exact hexception
    · obtain ⟨kind, hkind⟩ := hup₂.kindOf?_of_held (h := h) (by simp)
      obtain rfl := hhole₂.kind kind hkind
      cases hreduced _ hkind

theorem peek_ends {o : ObjectId} {c : Closure} {args : List X} {bad : EvalError → Prop}
    (hup : L.Upholds s.heap R rest) (hsupplies : R.Supplies L s.heap rest o c args n)
    (hargument : t ∈ c.arguments) (hslot : R.Slot L s.heap n t x) :
    Ends L ∅ s.heap R rest (fun r : Handle => {r.holding})
      (fun m R' r => R'.Demandable L m r x n) bad (t.peek s) := by
  obtain ⟨thunk, hthunk⟩ := Option.isSome_iff_exists.mp (hsupplies.live hup hargument)
  have hstate : s.heap.stateOf? t = some thunk.state := by simp [stateOf?, hthunk]
  have hshare : ∀ h : Handle, h.holding ∈ thunk.state.holdings → L.Upholds (s.heap.retain h) R
      ({h.holding} + rest) := fun h hpart => by
    rw [Multiset.singleton_add]
    exact hup.share (hup.valid.counted.live_of_state hstate hpart)
  refine .step (state?_run t s) (.refl _ _) ?_
  cases hslot with
  | made hmade =>
    obtain ⟨h, k, ht, hh, hk⟩ := hmade
    obtain hpending | ⟨r, hforced, hr⟩ := hup.supports.thunk _ _ _ ht hstate
    · rw [hpending] at hstate hshare
      rw [hstate]
      exact .of_ok (s := s.on (·.retain h)) .share (hshare h (by simp)) (.inl (hh.mono hk.le))
    · rw [hforced] at hstate hshare
      rw [hstate]
      exact .of_ok (s := s.on (·.retain r)) .share (hshare r (by simp))
        (.inl ((hr x k hh).mono hk.le).stands)
  | @knot h hnone halloc hhole hpending =>
    have hknot := hpending _ hstate
    rw [hknot] at hstate hshare
    rw [hstate]
    exact .of_ok (s := s.on (·.retain h)) .share (hshare h (by simp))
      (.inr (Evolves.share.hole hhole (Set.notMem_empty _)))

end ThunkId

namespace Run

theorem intoResult_ends {h : Handle} (hup : L.Upholds s.heap R (h.holding ::ₘ rest))
    (hresult : R.Result L h x n) :
    Ends L ∅ s.heap R rest (fun r : Handle => {r.holding})
      (fun m R' r => m = s.heap ∧ R' = R ∧ r = h.untagged ∧ h.tag ≠ .exception ∧ R.Result L r x n)
      (fun e => L.error e x) (intoResult h s) := by
  obtain ⟨kind, hkind⟩ := hup.kindOf?_of_held (h := h) (by simp)
  have hkind' : s.heap.kind? h = some kind := hkind
  obtain ⟨role, hrole, hmeans, htag, hdone⟩ := id hresult
  refine .inspect ?_
  cases hup.supports.normal hresult hkind with
  | failed hexception he =>
    simp only [Heap.error?, hexception, if_true, hkind', Option.bind_some, ObjectKind.error?]
    exact .raised (s := s.on (·.release h)) .release hup.release he
  | value hplain _ | function hplain _ =>
    simp only [Heap.error?, hplain, if_false]
    refine .of_ok (.refl _ _) (by rwa [Handle.holding_untagged, Multiset.singleton_add])
      ⟨rfl, rfl, rfl, hplain, role, hrole, hmeans, ?_, hdone⟩
    cases role with
    | failed e => exact (hplain htag).elim
    | node y rank => exact (hdone trivial).elim
    | declaration p | value v | function y rank => simp [Role.Tagged, Handle.untagged]

end Run

namespace Args

variable {o : ObjectId} {c : Closure} {args : List X} {name : String} {i : Nat}

theorem thunk_run {t : ThunkId} (h : c.argument? i = some t) :
    (⟨name, c⟩ : Args).thunk i s = .ok t s := by
  simp only [thunk, h]
  rfl

theorem force_ends (hreduce : L.Reduces d reduce) (hup : L.Upholds s.heap R rest)
    (hsupplies : R.Supplies L s.heap rest o c args n) (hi : args[i]? = some x) (hn : n < d) :
    Ends L ∅ s.heap R rest (fun r : Handle => {r.holding})
      (fun m R' r => ∃ k < n, R'.Result L r x k ∧ r.tag = .plain ∧ r.holding ∈ m.held)
      (fun e => L.error e x) ((⟨name, c⟩ : Args).force reduce i s) := by
  obtain ⟨t, ht, hargument, hslot⟩ := hsupplies.argument hup hi
  refine .step (thunk_run ht) (.refl _ _) ?_
  refine .bind_sure (ThunkId.force_ends hreduce hup hsupplies hargument hslot hn)
    fun h s₁ R₁ hev hup₁ ⟨k, hresult, hfound⟩ => ?_
  have hlive := (hsupplies.evolve hev hup₁ (by simp [hsupplies.held])).live hup₁ hargument
  rw [Multiset.singleton_add] at hup₁
  refine (Run.intoResult_ends hup₁ hresult).imp ?_ fun e he => he
  rintro m R' r ⟨rfl, rfl, rfl, hplain, hresult⟩
  obtain ⟨hk, hkept⟩ := hfound.resolve_left hplain
  refine ⟨k, hk, hresult, rfl, ?_⟩
  obtain ⟨thunk, hthunk⟩ := Option.isSome_iff_exists.mp hlive
  have hforced := hkept thunk.state (by simp [stateOf?, hthunk])
  refine Multiset.mem_of_le (holds_le_held _ (.thunk t)) ?_
  have hstate : s₁.heap.stateOf? t = some (.forced h) := by simp [stateOf?, hthunk, hforced]
  rw [holds_of_stateOf? hstate]
  simp

theorem boxed?_of_kindOf? {h : Handle} {kind : ObjectKind} (htag : h.tag = .plain)
    (hkind : m.kindOf? h.target = some kind) : m.boxed? h = kind.value? := by
  have hkind' : m.kind? h = some kind := hkind
  simp [boxed?, plainKind?, htag, hkind']

theorem unbox_ends (hreduce : L.Reduces d reduce) (hup : L.Upholds s.heap R rest)
    (hsupplies : R.Supplies L s.heap rest o c args n) (hi : args[i]? = some x) (hn : n < d)
    {expected : TypeName} {take : Payload → Option α} {next : α → Prop} {y : X}
    (hunboxes : L.Unboxes take expected x next y) :
    Ends L ∅ s.heap R rest (fun _ => 0) (fun _ _ a => next a) (fun e => L.error e y)
      ((⟨name, c⟩ : Args).unbox reduce i expected take s) := by
  refine .bind ((force_ends hreduce hup hsupplies hi hn).imp (fun _ _ _ hh => hh)
    fun e he => hunboxes.1 e (.error he)) fun h s₁ R₁ hev hup₁ hh => ?_
  obtain ⟨k, -, hresult, hplain, -⟩ := hh
  rw [Multiset.singleton_add] at hup₁
  obtain ⟨kind, hkind⟩ := hup₁.kindOf?_of_held (h := h) (by simp)
  have hkind' : s₁.heap.kind? h = some kind := hkind
  have hboxed := boxed?_of_kindOf? hplain hkind
  refine .inspect ?_
  rw [hboxed]
  cases hup₁.supports.normal hresult hkind with
  | failed htag _ => cases hplain.symm.trans htag
  | @value v _ hv =>
    simp only [ObjectKind.value?, Option.bind_some]
    cases htake : take v.payload with
    | some a =>
      exact .of_ok (s := s₁.on (·.release h)) .release (by rw [zero_add]; exact hup₁.release)
        (hunboxes.2 v a hv htake)
    | none =>
      refine .raised (s := s₁.on (·.release h)) .release hup₁.release ?_
      simpa [describe, hkind', describeKind] using hunboxes.1 _ (.value hv htake)
  | @function k p bound _ hpartial =>
    refine .raised (s := s₁.on (·.release h)) .release hup₁.release ?_
    have htext : s₁.heap.describe h = p.describeApplied bound.length := by
      rw [describe, hkind', Option.map_some, Option.getD_some]
      exact hpartial.describeKind hup₁.valid hkind
    have hmissing := hpartial.missing
    have harity := hpartial.arity
    simpa [htext] using hunboxes.1 _ (.function hpartial.applied (by omega))

end Args

end GraphReduction
