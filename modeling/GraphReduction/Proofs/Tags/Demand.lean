import Mathlib
import GraphReduction.Proofs.Session.Looking
import GraphReduction.Proofs.Tags.Leaves

/-! Demands leave tags truthful. What is found in the place of a result is one, and what is kept as
a result has been reduced. -/
namespace GraphReduction

open Heap ObjectKind Leaves

variable {rest : Multiset Holding} {s : Machine} {o : ObjectId} {h r : Handle} {w : ThunkId}
  {good : Heap → Handle → Prop}

namespace Run

theorem share_produces (hup : s.heap.Upright rest) (hlive : s.heap.IsLive h.edge)
    (hpersists : Persists good) (hgood : good s.heap h) :
    Produces rest s (share h) (fun r => {r.holding}) good := by
  have hspares : Spares Set.univ s.heap (s.heap.retain h) := .share s.heap h
  refine ⟨h, s.on (·.retain h), rfl, .share s.heap h, ?_,
    hpersists _ _ h (fun _ => hspares.lasts trivial) hgood⟩
  rw [Multiset.singleton_add]
  exact hup.share hlive

theorem newObject_produces {kind : ObjectKind} (hup : s.heap.Upright (kind.holdings + rest))
    (hproper : ∀ c, kind = .closure c → c.Proper) (hhonest : s.heap.HonestKind kind) :
    Produces rest s (newObject kind) (fun r => {r.holding})
      fun m r => r.tag = .plain ∧ m.kindOf? r.target = some kind := by
  refine ⟨.plain s.heap.nextObject, s.on fun m => (m.newObject kind).2, rfl,
    .addObject s.heap _ kind, ?_, rfl, (kindOf?_newObject ..).trans (if_pos rfl)⟩
  rw [Multiset.singleton_add]
  exact hup.newObject hproper hhonest

theorem newException_produces (e : EvalError) (hup : s.heap.Upright rest) :
    Produces rest s (newException e) (fun r => {r.holding}) fun m r => m.Final r := by
  have hvalid : s.heap.Valid ((ObjectKind.exception e).holdings + rest) := by
    rw [ObjectKind.holdings_exception, Multiset.singleton_add]
    exact (Valid.error e).mpr hup.valid
  refine .bind (newObject_produces ⟨hvalid, hup.cells⟩ (by simp) trivial)
    fun h s₁ _ hup₁ hmade => .pure hup₁ ?_
  have his : s₁.heap.Is IsException h.target := .of_kind hmade.2 ⟨e, rfl⟩
  exact his

theorem upgrade_produces (hup : s.heap.Upright rest) (hresult : s.heap.Is IsResult o) :
    Produces rest s (upgrade o) (fun r => {r.holding}) fun m r => m.Final r := by
  rw [upgrade]
  refine .inspect ?_
  split
  · next hlive => exact share_produces hup hlive persists_final (.plain hresult)
  · exact newException_produces _ hup

theorem intoResult_leaves (hup : s.heap.Upright (h.holding ::ₘ rest)) (hfinal : s.heap.Final h) :
    Leaves s.heap rest (fun r : Handle => {r.holding})
      (fun m r => m.Final r ∧ r.tag = .plain) (intoResult h s) := by
  rw [intoResult]
  refine .inspect ?_
  cases herror : s.heap.error? h with
  | some e => exact .step rfl (.release s.heap h) (.raise hup.release)
  | none =>
    have htag : h.tag ≠ .exception := by
      intro htag
      obtain ⟨kind, hkind⟩ := hup.kindOf?_of_held (h := h) (by simp)
      have hsuits := hfinal.honest.2 kind hkind
      rw [htag] at hsuits
      obtain ⟨e, rfl⟩ := hsuits
      have hkind' : s.heap.kind? h = some (.exception e) := hkind
      simp [Heap.error?, htag, hkind', ObjectKind.error?] at herror
    refine .pure ?_ ⟨.of_isResult (by simp [Handle.untagged]) (hfinal.isResult htag), rfl⟩
    rwa [Multiset.singleton_add]

end Run

open Run

namespace Knot

theorem value?_produces {k : Knot} (hup : s.heap.Upright rest)
    (hhonest : s.heap.HonestKind (.application (.knot k)))
    (hlive : ∀ r, k = .strong r → s.heap.IsLive r.edge) :
    Produces rest s k.value? optional fun m h? => ∀ r, h? = some r → m.Final r := by
  have hsome : ∀ {act : Run Handle},
      Produces rest s act (fun r => {r.holding}) (fun m r => m.Final r) →
      Produces rest s (act >>= fun r => pure (some r)) optional
        fun m h? => ∀ r, h? = some r → m.Final r := fun hact =>
    hact.bind fun r s₁ _ hup₁ hfinal => .pure hup₁ fun _ heq => Option.some.inj heq ▸ hfinal
  cases k with
  | unresolved => exact .pure (by simpa using hup) (by simp)
  | weak p => exact hsome (upgrade_produces hup hhonest)
  | strong r => exact hsome (share_produces hup (hlive r rfl) persists_final hhonest)

theorem reduced_produces {k : Knot} (hup : s.heap.Upright rest)
    (hhonest : s.heap.HonestKind (.application (.knot k)))
    (hlive : ∀ r, k = .strong r → s.heap.IsLive r.edge) :
    Produces rest s k.reduced (fun r => {r.holding}) fun m r => m.Final r := by
  refine (value?_produces hup hhonest hlive).bind fun h? s₁ _ hup₁ hfinal => ?_
  cases h? with
  | none => exact newException_produces _ (by simpa using hup₁)
  | some r => exact .pure (by simpa using hup₁) (hfinal r rfl).asCached

end Knot

theorem Heap.Upright.shareBoth {m : Heap} {f x : Handle} (hup : m.Upright rest)
    (hnode : m.kindOf? o = some (.application (.pending f x))) :
    ((m.retain f).retain x).Upright ({f.holding, x.holding} + rest) ∧
      ((m.retain f).retain x).Honest f ∧ ((m.retain f).retain x).Honest x := by
  have hhonest := hup.cells.object o _ hnode
  have hf : m.IsLive f.edge := hup.live_of_kind hnode (by simp [Handle.holding])
  have hx : m.IsLive x.edge := hup.live_of_kind hnode (by simp [Handle.holding])
  have hshared := (hup.share hf).share ((isLive_congr (contents_retain _ _) _).mpr hx)
  have hspares : Spares Set.univ m ((m.retain f).retain x) := (Spares.share m f).trans (.share _ x)
  refine ⟨?_, (hspares.lasts trivial).honest hhonest.1, (hspares.lasts trivial).honest hhonest.2⟩
  rw [Multiset.cons_swap] at hshared
  simpa using hshared

/-- The parts of a node tell the truth, and what it was reduced to is a result. -/
def Snapshot.Honest (m : Heap) : Snapshot → Prop
  | .pending f x => m.Honest f ∧ m.Honest x
  | .reduced r => m.Final r

namespace Application

variable {a : Application}

theorem snapshot_produces (hup : s.heap.Upright rest)
    (hnode : s.heap.kindOf? o = some (.application a)) :
    Produces rest s a.snapshot Snapshot.holdings Snapshot.Honest := by
  have hhonest := hup.cells.object o _ hnode
  cases a with
  | pending f x =>
    obtain ⟨hshared, hf, hx⟩ := hup.shareBoth hnode
    exact ⟨.pending f x, s.on fun m => (m.retain f).retain x, rfl,
      (Spares.share s.heap f).trans (.share _ x), hshared, hf, hx⟩
  | reduced r =>
    refine (share_produces hup (hup.live_of_kind hnode ?_) persists_final hhonest).bind
      fun r' s₁ _ hup₁ hfinal => .pure hup₁ hfinal
    simp [Handle.holding]
  | knot k =>
    refine (k.reduced_produces hup hhonest ?_).bind fun r' s₁ _ hup₁ hfinal => .pure hup₁ hfinal
    rintro r rfl
    exact hup.live_of_kind hnode (by simp [Handle.holding])

end Application

namespace Run

theorem prefer_leaves {cached : Handle} {act : Run Handle}
    (hact : Produces ({cached.holding} + rest) s act (fun r => {r.holding}) fun m r => m.Final r) :
    Leaves s.heap rest (fun r : Handle => {r.holding}) (fun m r => m.Final r)
      ((do
        let first ← act
        release cached
        pure first : Run Handle) s) := by
  refine .bind hact.beside.leaves fun first s₁ _ hup₁ hfirst => ?_
  rw [Multiset.singleton_add, Multiset.cons_add] at hup₁
  have hspares : Spares Set.univ s₁.heap (s₁.heap.release cached) := .release _ _
  exact .step rfl (.release _ _) (.pure hup₁.release ((hspares.lasts trivial).final hfirst))

theorem store_leaves (hup : s.heap.Upright (r.holding ::ₘ rest)) (hfinal : s.heap.Final r) :
    Leaves s.heap rest (fun r : Handle => {r.holding}) (fun m r => m.Final r) (store o r s) := by
  have hcached := hfinal.asCached
  rw [← Handle.holding_asCached, ← Multiset.singleton_add] at hup
  rw [store]
  generalize r.asCached = cached at hup hcached
  refine .inspect ?_
  have hkind : s.heap.kind? (.plain o) = s.heap.kindOf? o := rfl
  rw [hkind]
  cases hnode : (s.heap.kindOf? o).bind ObjectKind.application? with
  | none => exact .pure hup hcached
  | some a =>
    obtain ⟨kind, hkind, happ⟩ := Option.bind_eq_some_iff.mp hnode
    obtain rfl : kind = .application a := by
      cases kind <;> cases happ
      rfl
    have hhonest := hup.cells.object o _ hkind
    cases a with
    | pending f x =>
      have hshared := hup.share (h := cached) (hup.live (by simp))
      have hkind' : (s.heap.retain cached).kindOf? o = some (.application (.pending f x)) :=
        (kindOf?_congr (contents_retain _ _) o).trans hkind
      have hretain : Spares Set.univ s.heap (s.heap.retain cached) := .share _ _
      have hkept := hshared.reduce hkind' ((hretain.lasts trivial).final hcached)
      have hend : ∀ {fixed}, Spares fixed s.heap
          ((((s.heap.retain cached).setKind o (.application (.reduced cached))).release f).release
            x) :=
        (((Spares.share _ _).trans (.setKind fun _ => becomes_of_node hkind' _)).trans
          (.release _ f)).trans (.release _ x)
      exact .of_ok (s := s.on fun m => ((((m.retain cached).setKind o
        (.application (.reduced cached))).release f).release x)) hend hkept.release.release
        ((hend.lasts (Set.mem_univ _)).final hcached)
    | reduced first =>
      refine prefer_leaves (share_produces hup (hup.live_of_kind hkind ?_) persists_final hhonest)
      simp [Handle.holding]
    | knot k =>
      refine prefer_leaves (k.reduced_produces hup hhonest ?_)
      rintro r rfl
      exact hup.live_of_kind hkind (by simp [Handle.holding])

end Run

namespace ThunkId

theorem keep_leaves (hup : s.heap.Upright (r.holding ::ₘ rest)) (hfinal : s.heap.Final r) :
    Leaves s.heap rest (fun r : Handle => {r.holding}) (fun m r => m.Final r) (w.keep r s) := by
  rw [← Multiset.singleton_add] at hup
  rw [keep]
  refine .step (state?_run w s) (.refl ..) ?_
  cases hstate : s.heap.stateOf? w with
  | none => exact .pure hup hfinal
  | some state =>
    have hhonest := hup.cells.thunk w _ hstate
    cases state with
    | recursive o => exact .pure hup hfinal
    | forced first =>
      refine prefer_leaves (share_produces hup (hup.live_of_state hstate ?_) persists_final hhonest)
      simp [Handle.holding]
    | pending h =>
      have hshared := hup.share (h := r) (hup.live (by simp))
      have hstate' : (s.heap.retain r).stateOf? w = some (.pending h) :=
        (stateOf?_congr (contents_retain _ _) w).trans hstate
      have hretain : Spares Set.univ s.heap (s.heap.retain r) := .share _ _
      have hkept := hshared.keep hstate' ((hretain.lasts trivial).final hfinal)
      have hend : ∀ {fixed}, Spares fixed s.heap
          (((s.heap.retain r).setThunkState w (.forced r)).release h) :=
        ((Spares.share _ _).trans (.setThunkState _ w _)).trans (.release _ h)
      exact .of_ok (s := s.on fun m => ((m.retain r).setThunkState w (.forced r)).release h) hend
        hkept.release ((hend.lasts (Set.mem_univ _)).final hfinal)

theorem peek_leaves (hup : s.heap.Upright rest) :
    Leaves s.heap rest (fun r : Handle => {r.holding}) (fun m r => m.Honest r) (w.peek s) := by
  rw [peek]
  refine .step (state?_run w s) (.refl ..) ?_
  cases hstate : s.heap.stateOf? w with
  | none => exact (newException_produces _ hup).leaves.imp fun _ _ h => h.honest
  | some state =>
    have hhonest := hup.cells.thunk w _ hstate
    cases state with
    | recursive o => exact (upgrade_produces hup hhonest).leaves.imp fun _ _ h => h.honest
    | forced r =>
      refine (share_produces hup (hup.live_of_state hstate ?_) persists_honest
        hhonest.honest).leaves
      simp [Handle.holding]
    | pending h =>
      refine (share_produces hup (hup.live_of_state hstate ?_) persists_honest hhonest).leaves
      simp [Handle.holding]

end ThunkId

/-- A reducer whose results are results. -/
def Reducer.Finishes (reduce : Reducer) : Prop :=
  ∀ {s : Machine} {rest : Multiset Holding} {h : Handle}, s.heap.Upright rest →
    h.holding ∈ rest → s.heap.Honest h →
      Leaves s.heap rest (fun r : Handle => {r.holding}) (fun m r => m.Final r) (reduce h s)

variable {reduce : Reducer}

theorem ThunkId.force_leaves (hreduce : reduce.Finishes) (hup : s.heap.Upright rest) :
    Leaves s.heap rest (fun r : Handle => {r.holding}) (fun m r => m.Final r)
      (w.force reduce s) := by
  rw [force]
  refine .step (state?_run w s) (.refl ..) ?_
  cases hstate : s.heap.stateOf? w with
  | none => exact (newException_produces _ hup).leaves
  | some state =>
    have hhonest := hup.cells.thunk w _ hstate
    cases state with
    | recursive o => exact (upgrade_produces hup hhonest).leaves
    | forced r =>
      refine (share_produces hup (hup.live_of_state hstate ?_) persists_final hhonest).leaves
      simp [Handle.holding]
    | pending h =>
      refine .bind (share_produces hup (hup.live_of_state hstate ?_) persists_honest hhonest).leaves
        fun h' s₁ _ hup₁ hh => .releasing ?_ persists_final
      · simp [Handle.holding]
      · rw [Multiset.singleton_add] at hup₁
        refine .inspect (.bind (hreduce hup₁ (Multiset.mem_cons_self ..) hh)
          fun r s₂ _ hup₂ hfinal => ?_)
        split
        · exact .pure hup₂ hfinal
        · rw [Multiset.singleton_add] at hup₂
          exact keep_leaves hup₂ hfinal

end GraphReduction
