import Mathlib
import GraphReduction.Proofs.Tags.Demand

/-! Binding and copying leave tags truthful. What becomes of a back edge in a copy is a result, a
copy has the result of its original, and what is bound in place has been seen by nobody else. -/
namespace GraphReduction

open Heap ObjectKind Leaves

variable {rest own : Multiset Holding} {s : Machine} {m m' : Heap} {o : ObjectId}
  {h function argument : Handle} {w : ThunkId} {c : Closure} {kind : ObjectKind}

namespace ThunkId

theorem copyTarget?_produces (hup : s.heap.Upright rest) :
    Produces rest s w.copyTarget? optional fun m h? => ∀ r, h? = some r → m.Final r := by
  refine .step (state?_run w s) (.refl ..) ?_
  cases hstate : s.heap.stateOf? w with
  | none => exact .pure (by simpa using hup) (by simp)
  | some state =>
    cases state with
    | forced r => exact .pure (by simpa using hup) (by simp)
    | recursive o =>
      refine .inspect ?_
      cases halive : s.heap.isAlive o with
      | false => exact .pure (by simpa using hup) (by simp)
      | true =>
        have hresult := hup.cells.thunk w _ hstate
        refine (Run.share_produces (h := .plain o) hup halive persists_final (.plain hresult)).bind
          fun r s₁ _ hup₁ hfinal => .pure hup₁ ?_
        rintro _ ⟨⟩
        exact hfinal
    | pending h =>
      refine .inspect ?_
      cases hnode : s.heap.application? h with
      | none => exact .pure (by simpa using hup) (by simp)
      | some a =>
        have hkind := kindOf?_of_application? hnode
        cases a with
        | pending f x => exact .pure (by simpa using hup) (by simp)
        | reduced r => exact .pure (by simpa using hup) (by simp)
        | knot k =>
          refine k.value?_produces hup (hup.cells.object _ _ hkind) ?_
          rintro r rfl
          exact hup.live_of_kind hkind (by simp [Handle.holding])

theorem forCopy_produces (hup : s.heap.Upright rest) (hlive : s.heap.IsLive (.thunk w)) :
    Produces rest s w.forCopy (fun u => {.strong (.thunk u)}) fun _ _ => True := by
  obtain ⟨h?, s₁, hrun, hspares, hup₁, hfinal⟩ := copyTarget?_produces (w := w) hup
  refine .step hrun hspares ?_
  cases h? with
  | none =>
    obtain ⟨rfl, -⟩ := copyTarget?_none hrun
    exact ⟨w, s₁.on (·.retainThunk w), rfl, .within (within_retainEdge _ (.thunk w)),
      hup.retainEdge hlive, trivial⟩
  | some r =>
    exact ⟨_, s₁.on fun m => (m.newThunk (.forced r)).2, rfl, .newThunk _ _,
      Upright.newThunk (by simpa using hup₁) (hfinal r rfl), trivial⟩

end ThunkId

namespace Closure

theorem At.spares (hat : c.At m o) (hspares : Spares (objectsOf rest) m m')
    (ho : .strong (.object o) ∈ rest) (hlive : m'.IsLive (.object o)) : c.At m' o := by
  obtain ⟨memo, hkind, hmemo⟩ := hat
  obtain ⟨memo', hkind', hmemo'⟩ := hspares.closure ho hkind hlive
  refine ⟨memo', hkind', fun hfull => ?_⟩
  have hsame := hmemo hfull
  subst hsame
  exact hmemo' hfull

theorem copySlots_produces (hup : s.heap.Upright rest) (ho : .strong (.object o) ∈ rest)
    (hat : c.At s.heap o) (slots : List (Option ThunkId))
    (hslots : ∀ t, some t ∈ slots → t ∈ c.arguments) :
    Produces rest s (slots.mapM copySlot) slotHoldings fun _ _ => True := by
  induction slots generalizing s rest with
  | nil => exact .pure (by simpa [slotHoldings] using hup) trivial
  | cons slot slots ih =>
    rw [List.mapM_cons]
    have hfirst : Produces rest s (copySlot slot) (fun slot' => slotHoldings [slot'])
        fun _ _ => True := by
      cases slot with
      | none => exact .pure (by simpa [slotHoldings] using hup) trivial
      | some t =>
        obtain ⟨memo, hkind, -⟩ := hat
        have ht := hslots t List.mem_cons_self
        have hpart : .strong (.thunk t) ∈ (ObjectKind.closure { c with memo }).holdings := by
          rw [ObjectKind.holdings_closure, Multiset.mem_cons]
          exact .inr (Multiset.mem_coe.mpr (List.mem_append_left _ (List.mem_map.mpr ⟨t, ht, rfl⟩)))
        exact (ThunkId.forCopy_produces hup (hup.live_of_kind hkind hpart)).bind
          fun u s₁ _ hup₁ _ => .pure (by simpa [slotHoldings] using hup₁) trivial
    refine hfirst.bind fun slot' s₁ hspares hup₁ _ => ?_
    have ho₁ : .strong (.object o) ∈ slotHoldings [slot'] + rest := Multiset.mem_add.mpr (.inr ho)
    have hat₁ := hat.spares hspares ho (hup₁.valid.counted.live _ (Multiset.mem_add.mpr (.inr ho₁)))
    refine (ih hup₁ ho₁ hat₁ fun t ht => hslots t (List.mem_cons_of_mem _ ht)).beside.bind
      fun slots' s₂ _ hup₂ _ => .pure ?_ trivial
    rwa [slotHoldings_cons]

theorem copyMemo_produces (hup : s.heap.Upright rest) (hat : c.At s.heap o) :
    Produces rest s (copyMemo c.memo) (fun memo => ↑(memo.result?.toList.map Handle.holding))
      fun m memo => m.HonestKind (.closure { c with memo }) := by
  obtain ⟨memo, hkind, hmemo⟩ := hat
  have hempty : ∀ {m : Heap}, m.HonestKind (.closure { c with memo := .empty }) :=
    ⟨fun hfull => absurd rfl hfull, fun r hr => by cases hr⟩
  cases hfull : c.memo with
  | empty => exact .pure (by simpa [Memo.result?] using hup) hempty
  | running => exact .pure (by simpa [Memo.result?] using hup) hempty
  | done r =>
    obtain rfl : memo = .done r := by rw [hmemo (by simp [hfull]), hfull]
    obtain ⟨hsaturated, hdone⟩ := hup.cells.object o _ hkind
    refine (Run.share_produces hup (hup.live_of_kind hkind ?_) persists_final (hdone r rfl)).bind
      fun r' s₁ _ hup₁ hfinal => .pure (by simpa [Memo.result?] using hup₁) ⟨?_, ?_⟩
    · simp [ObjectKind.holdings_closure, Memo.result?, Handle.holding]
    · exact fun _ => hsaturated (by simp)
    · rintro _ ⟨⟩
      exact hfinal

theorem copy_produces (hup : s.heap.Upright rest) (ho : .strong (.object o) ∈ rest)
    (hkind : s.heap.kindOf? o = some (.closure c)) :
    Produces rest s c.copy (fun fresh => (ObjectKind.closure fresh).holdings)
      fun m fresh => m.HonestKind (.closure fresh) := by
  have hat : c.At s.heap o := .of_kind hkind
  refine (copySlots_produces hup ho hat c.slots.toList fun t ht => by
    simpa [arguments] using ht).bind fun slots s₁ hspares hup₁ _ => ?_
  have ho₁ : .strong (.object o) ∈ slotHoldings slots + rest := Multiset.mem_add.mpr (.inr ho)
  have hat₁ := hat.spares hspares ho (hup₁.valid.counted.live _ (Multiset.mem_add.mpr (.inr ho₁)))
  obtain ⟨memo, hkind₁, -⟩ := id hat₁
  have hlive : s₁.heap.IsLive (.combinator c.combinator) :=
    hup₁.live_of_kind hkind₁ (by simp [ObjectKind.holdings_closure])
  have hup₂ := hup₁.retainEdge hlive
  have hretain : ∀ {fixed}, Spares fixed s₁.heap (s₁.heap.retainCombinator c.combinator) :=
    .within (within_retainEdge _ (.combinator c.combinator))
  have hat₂ : c.At (s₁.heap.retainCombinator c.combinator) o :=
    hat₁.spares hretain ho₁ (hup₂.valid.counted.live _
      (Multiset.mem_add.mpr (.inr (Multiset.mem_cons_of_mem ho₁))))
  refine .step (z := s₁.on (·.retainCombinator c.combinator)) rfl hretain ?_
  rw [← Multiset.cons_add] at hup₂
  refine (copyMemo_produces (s := s₁.on (·.retainCombinator c.combinator)) hup₂ hat₂).beside.bind
    fun memo' s₂ _ hup₃ hhonest => .pure ?_ hhonest
  rw [ObjectKind.holdings_closure]
  simp only [arguments, slotHoldings, List.filterMap_reverse, List.map_reverse,
    ← Multiset.coe_add, Multiset.coe_reverse, Multiset.cons_add] at hup₃ ⊢
  exact hup₃

end Closure

/-- A closure without a tag and without a result, as comes of binding. -/
def Heap.Bound (m : Heap) (r : Handle) : Prop :=
  r.tag = .plain ∧ ∃ c, m.kindOf? r.target = some (.closure c) ∧ c.memo = .empty

theorem Heap.Bound.honest {r : Handle} (h : m.Bound r) : m.Honest r := by
  obtain ⟨htag, c, hkind, -⟩ := h
  rw [Honest, htag]
  refine .of_kind hkind ?_
  rintro ⟨e, ⟨⟩⟩

theorem Heap.Bound.within {r : Handle} (h : m.Bound r) (hwithin : m'.Within m)
    (hlive : m'.IsLive r.edge) : m'.Bound r := by
  obtain ⟨htag, c, hkind, hmemo⟩ := h
  obtain ⟨x, hx⟩ := Option.isSome_iff_exists.mp hlive
  have hkind' : m'.kindOf? r.target = some x.kind := by simp [kindOf?, hx]
  exact ⟨htag, c, hkind'.trans ((hwithin.kind _ _ hkind').symm.trans hkind), hmemo⟩

namespace Run

theorem refuseBind_leaves {good : Heap → Handle → Prop} {post : Handle → Multiset Holding}
    (e : EvalError) (hup : s.heap.Upright (function.holding ::ₘ .strong (.thunk w) ::ₘ rest)) :
    Leaves s.heap rest post good
      ((do
        change (·.releaseThunk w)
        release function.untagged
        raise e : Run Handle) s) := by
  rw [Multiset.cons_swap] at hup
  refine .step rfl (.within (within_releaseThunk s.heap w)) ?_
  refine .step rfl (.release _ function.untagged) (.raise ?_)
  exact Upright.release (h := function.untagged) hup.releaseThunk

theorem bindInPlace_leaves (hup : s.heap.Upright (function.holding ::ₘ .strong (.thunk w) ::ₘ rest))
    (hkind : s.heap.kindOf? function.target = some (.closure c)) (hmissing : 0 < c.missing)
    (hunique : s.heap.IsUnique function.target) :
    Leaves s.heap rest (fun r : Handle => {r.holding}) (fun m r => m.Bound r)
      ((do
        change (·.setKind function.target (.closure (c.fill w)))
        pure function.untagged : Run Handle) s) := by
  have hnot := (hup.valid.counted.not_held_of_unique hunique).1
  have hempty : c.memo = .empty := by
    by_contra hfull
    exact hmissing.ne' ((hup.cells.object _ _ hkind).1 hfull)
  rw [Multiset.cons_swap] at hup
  refine .of_ok (s := s.on (·.setKind function.target (.closure (c.fill w))))
    (.setKind fun ho => ?_) (hup.fill hkind hunique hmissing) ⟨rfl, c.fill w, ?_, hempty⟩
  · exact absurd (Multiset.mem_add.mpr (.inr (Multiset.mem_cons_of_mem ho))) hnot
  · rw [Machine.heap_on, Handle.target_untagged, Valid.kindOf?_setKind, if_pos rfl, hkind]
    rfl

theorem bindCopy_leaves (hup : s.heap.Upright (function.holding ::ₘ .strong (.thunk w) ::ₘ rest))
    (hkind : s.heap.kindOf? function.target = some (.closure c)) (hmissing : 0 < c.missing) :
    Leaves s.heap rest (fun r : Handle => {r.holding}) (fun m r => m.Bound r)
      ((do
        let fresh ← c.copy
        let h ← newObject (.closure (fresh.fill w))
        release function.untagged
        pure h : Run Handle) s) := by
  obtain ⟨fresh, s₁, hrun, hspares, hup₁, hhonest⟩ :=
    Closure.copy_produces hup (Multiset.mem_cons_self ..) hkind
  obtain ⟨hsame, hproper⟩ := Closure.copy_shape hrun
  have hfresh := hproper (hup.valid.proper _ _ hkind)
  have hopen : 0 < fresh.missing := hsame ▸ hmissing
  have hempty : fresh.memo = .empty := by
    by_contra hfull
    exact hopen.ne' (hhonest.1 hfull)
  have hheld : (ObjectKind.closure fresh).holdings +
      (function.holding ::ₘ .strong (.thunk w) ::ₘ rest) =
      (ObjectKind.closure (fresh.fill w)).holdings + (function.holding ::ₘ rest) := by
    rw [Closure.holdings_fill hfresh hopen]
    simp only [← Multiset.singleton_add]
    abel
  rw [hheld] at hup₁
  have hsub : objectsOf rest ⊆ objectsOf (function.holding ::ₘ .strong (.thunk w) ::ₘ rest) :=
    objectsOf_subset fun r hr => by simp [hr]
  refine .step hrun (hspares.mono hsub) ?_
  obtain ⟨r, s₂, hrun₂, hspares₂, hup₂, htag, hmade⟩ := newObject_produces hup₁
    (by rintro _ ⟨⟩; exact hfresh.fill hopen w)
    ⟨fun hfull => absurd hempty hfull, fun r hr => by cases hempty.symm.trans hr⟩
  rw [Multiset.singleton_add, Multiset.cons_swap] at hup₂
  have hup₃ := Upright.release (h := function.untagged) hup₂
  refine .step hrun₂ (hspares₂.mono (objectsOf_subset (Multiset.subset_cons _ _))) ?_
  refine .step rfl (.release _ function.untagged) (.pure (by rwa [Multiset.singleton_add]) ?_)
  exact Bound.within ⟨htag, _, hmade, hempty⟩ (within_release s₂.heap function.untagged)
    (hup₃.live (by simp))

theorem bindThunk_leaves
    (hup : s.heap.Upright (function.holding ::ₘ .strong (.thunk w) ::ₘ rest)) :
    Leaves s.heap rest (fun r : Handle => {r.holding}) (fun m r => m.Bound r)
      (bindThunk function w s) := by
  refine .inspect ?_
  cases hclosure : s.heap.closure? function.untagged with
  | none => exact .inspect (refuseBind_leaves _ hup)
  | some c =>
    have hkind : s.heap.kindOf? function.target = some (.closure c) :=
      kindOf?_of_closure? (h := function.untagged) hclosure
    dsimp only
    split
    · exact .inspect (refuseBind_leaves _ hup)
    · next hsaturated =>
      have hmissing : 0 < c.missing :=
        Nat.pos_of_ne_zero (by simpa [Closure.isSaturated] using hsaturated)
      refine .inspect (.inspect ?_)
      split
      · next hinplace =>
        rw [Bool.and_eq_true] at hinplace
        exact bindInPlace_leaves hup hkind hmissing (isUnique_of_object? hinplace.2)
      · exact bindCopy_leaves hup hkind hmissing

theorem applyArgument_leaves
    (hup : s.heap.Upright (function.holding ::ₘ argument.holding ::ₘ rest))
    (hhonest : s.heap.Honest argument) :
    Leaves s.heap rest (fun r : Handle => {r.holding}) (fun m r => m.Bound r)
      (applyArgument function argument s) := by
  rw [Multiset.cons_swap, ← Multiset.singleton_add, ← ThunkState.holdings_pending] at hup
  have hup₁ := hup.newThunk hhonest
  rw [Multiset.cons_swap] at hup₁
  exact .step rfl (.newThunk _ _)
    (bindThunk_leaves (s := s.on fun m => (m.newThunk (.pending argument)).2) hup₁)

theorem bindSelf_leaves (hup : s.heap.Upright rest) (hheld : h.holding ∈ rest) :
    Leaves s.heap rest (fun r : Handle => {r.holding}) (fun m r => m.Bound r) (bindSelf h s) := by
  refine .inspect ?_
  cases hclosure : s.heap.closure? h with
  | none => exact .inspect (.raise hup)
  | some c =>
    have hkind := kindOf?_of_closure? hclosure
    dsimp only
    split
    · exact .inspect (.raise hup)
    · next hmissing =>
      obtain ⟨fresh, s₁, hrun, hspares, hup₁, hhonest⟩ := Closure.copy_produces hup hheld hkind
      obtain ⟨hsame, hproper⟩ := Closure.copy_shape hrun
      have hfresh := hproper (hup.valid.proper _ _ hkind)
      refine .step hrun hspares ?_
      refine .of_ok (s := s₁.on (·.bindSelf fresh)) (.bindSelf _ fresh)
        (hup₁.bindSelf hfresh (by omega) hhonest)
        ⟨rfl, _, (kindOf?_bindSelf ..).trans (if_pos rfl), ?_⟩
      by_contra hfull
      have hopen : 0 < fresh.missing := by omega
      exact hopen.ne' (hhonest.1 hfull)

end Run

/-! Copies of objects -/

namespace Application

theorem duplicate_produces {a : Application} (hup : s.heap.Upright rest)
    (hnode : s.heap.kindOf? o = some (.application a)) :
    Produces rest s a.duplicate (fun b => (ObjectKind.application b).holdings)
      fun m b => m.HonestKind (.application b) := by
  have hhonest := hup.cells.object o _ hnode
  cases a with
  | pending f x =>
    obtain ⟨hshared, hf, hx⟩ := hup.shareBoth hnode
    exact ⟨.pending f x, s.on fun m => (m.retain f).retain x, rfl,
      (Spares.share s.heap f).trans (.share _ x), by simpa using hshared, hf, hx⟩
  | reduced r =>
    refine (Run.share_produces hup (hup.live_of_kind hnode ?_) persists_final hhonest).bind
      fun r' s₁ _ hup₁ hfinal => .pure (by simpa using hup₁) hfinal
    simp [Handle.holding]
  | knot k =>
    cases k with
    | unresolved => exact .pure (by simpa using hup) trivial
    | weak p =>
      have hspares : Spares Set.univ s.heap (s.heap.retainWeak p) := .retainWeak _ p
      refine .step (z := s.on (·.retainWeak p)) rfl (.retainWeak _ p) (.pure ?_
        (hspares.lasts trivial .cached hhonest))
      simpa using hup.retainWeak hhonest.1
    | strong r =>
      refine (Run.share_produces hup (hup.live_of_kind hnode ?_) persists_final hhonest).bind
        fun r' s₁ _ hup₁ hfinal => .pure (by simpa using hup₁) hfinal
      simp [Handle.holding]

end Application

namespace Run

theorem finish_produces (hup : s.heap.Upright (kind.holdings + rest))
    (hproper : ∀ c, kind = .closure c → c.Proper) (hhonest : s.heap.HonestKind kind)
    (hsuits : h.tag.Suits kind) :
    Produces rest s (cloneObject.finish h kind) (fun r => {r.holding}) fun m r => m.Honest r :=
  (newObject_produces hup hproper hhonest).bind fun _ _ _ hup₁ hmade =>
    .pure hup₁ (Is.of_kind hmade.2 hsuits)

theorem retainAll_produces (hs : List Handle) (hup : s.heap.Upright rest)
    (hlive : ∀ h ∈ hs, s.heap.IsLive h.edge) :
    Produces rest s (hs.forM fun h => change (·.retain h))
      (fun _ => ↑(hs.map Handle.holding)) fun m _ => ∀ o, s.heap.Lasts m o := by
  induction hs generalizing s rest with
  | nil => exact .pure (by simpa using hup) fun _ _ his => his
  | cons h hs ih =>
    have hspares : Spares Set.univ s.heap (s.heap.retain h) := .share _ h
    obtain ⟨_, s', hrun, hspares', hup', hlasts⟩ := ih (s := s.on (·.retain h))
      (hup.share (hlive h List.mem_cons_self)) fun g hg =>
        (isLive_congr (contents_retain _ _) _).mpr (hlive g (List.mem_cons_of_mem _ hg))
    refine ⟨(), s', hrun, (Spares.share _ h).trans (hspares'.mono (objectsOf_subset
      (Multiset.subset_cons _ _))), ?_,
      fun o tag his => hlasts o tag (hspares.lasts trivial tag his)⟩
    rwa [List.map_cons, ← Multiset.cons_coe, Multiset.cons_add, ← Multiset.add_cons]

theorem cloneObject_produces (hup : s.heap.Upright rest) (hheld : h.holding ∈ rest)
    (hhonest : s.heap.Honest h) :
    Produces rest s (cloneObject h) (fun r => {r.holding}) fun m r => m.Honest r := by
  obtain ⟨kind, hkind⟩ := hup.kindOf?_of_held hheld
  have hlook : s.heap.kind? h = some kind := hkind
  have hsuits := hhonest.2 kind hkind
  refine .inspect ?_
  rw [hlook]
  cases kind with
  | value v =>
    have hlive : ∀ part ∈ v.payload.handles, s.heap.IsLive part.edge := fun part hpart =>
      hup.live_of_kind hkind (by
        rw [ObjectKind.holdings_value, Multiset.mem_cons]
        exact .inr (List.mem_map_of_mem (f := Handle.holding) hpart))
    refine (retainAll_produces _ hup hlive).bind fun _ s₁ _ hup₁ hlasts =>
      finish_produces ⟨?_, hup₁.cells⟩ (by simp) (fun part hpart => ?_) hsuits
    · rw [ObjectKind.holdings_value, Multiset.cons_add]
      exact (Valid.error _).mpr hup₁.valid
    · exact (hlasts _).honest (hup.cells.object _ _ hkind part hpart)
  | closure c =>
    obtain ⟨fresh, s₁, hrun, hspares, hup₁, hcells⟩ := Closure.copy_produces hup hheld hkind
    obtain ⟨hsame, hproper⟩ := Closure.copy_shape hrun
    exact .step hrun hspares (finish_produces hup₁
      (by rintro _ ⟨⟩; exact hproper (hup.valid.proper _ _ hkind)) hcells
      (Tag.suits_closure hsame hsuits))
  | application a =>
    exact (Application.duplicate_produces hup hkind).bind fun b s₁ _ hup₁ hcells =>
      finish_produces hup₁ (by simp) hcells (hsuits.becomes ⟨b, rfl⟩)
  | exception e =>
    refine finish_produces ⟨?_, hup.cells⟩ (by simp) trivial hsuits
    rw [ObjectKind.holdings_exception, Multiset.singleton_add]
    exact (Valid.error e).mpr hup.valid

end Run

end GraphReduction
