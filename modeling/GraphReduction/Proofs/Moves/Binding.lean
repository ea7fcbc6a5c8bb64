import Mathlib
import GraphReduction.Machine.Closure
import GraphReduction.Proofs.Moves.Machine

/-! Binding and copying as moves. A copy of a closure shares its arguments, and where an argument
leads back to the value of a fixpoint it gets that value in its place. -/
namespace GraphReduction

open Heap

variable {rest : Multiset Holding} {lent : Set Edge} {s s₁ : Machine} {own own₁ : Multiset Holding}

namespace ThunkId

variable {t : ThunkId} {o : ObjectId} {c : Closure}

theorem copyTarget?_none {s s' : Machine} (h : t.copyTarget? s = .ok none s') :
    s' = s ∧ s.heap.backEdge? t = none := by
  simp only [copyTarget?, Run.bind_run, state?_run] at h
  rcases hstate : s.heap.stateOf? t with _ | p | p | p
  all_goals simp only [hstate, Run.inspect_run, Run.bind_run, Run.pure_run] at h
  · cases h
    exact ⟨rfl, by simp [backEdge?, hstate]⟩
  · rcases hnode : s.heap.application? p with _ | ⟨f, x⟩ | r | k
    all_goals simp only [hnode, Application.knotValue?, Run.pure_run] at h
    · cases h
      exact ⟨rfl, by simp [backEdge?, hstate, hnode]⟩
    · cases h
      exact ⟨rfl, by simp [backEdge?, hstate, hnode]⟩
    · cases h
      exact ⟨rfl, by simp [backEdge?, hstate, hnode]⟩
    · cases k with
      | unresolved =>
        cases h
        exact ⟨rfl, by simp [backEdge?, hstate, hnode]⟩
      | weak o =>
        simp only [Knot.value?, Run.bind_run, Run.pure_run] at h
        split at h <;> cases h
      | strong r =>
        simp only [Knot.value?, Run.bind_run, Run.share_run, Run.pure_run] at h
        cases h
  · cases h
    exact ⟨rfl, by simp [backEdge?, hstate]⟩
  · cases halive : s.heap.isAlive p with
    | true => simp [halive, Run.bind_run] at h
    | false =>
      simp only [halive] at h
      cases h
      exact ⟨rfl, by simp [backEdge?, hstate, halive]⟩

theorem copyTarget?_gives (hclosure : s.heap.Access lent own (.strong (.object o)))
    (hkind : s.heap.kindOf? o = some (.closure c)) (ht : t ∈ c.arguments) :
    Gives rest lent s own t.copyTarget? fun h? => optional h? + own := by
  refine .step (state?_run t s) (fun _ => .refl ..) fun _ => ?_
  rcases hstate : s.heap.stateOf? t with _ | p | p | p
  · exact .pure none (by simp)
  · refine .inspect ?_
    rcases hnode : s.heap.application? p with _ | ⟨f, x⟩ | r | k
    · exact .pure none (by simp)
    · exact .pure none (by simp)
    · exact .pure none (by simp)
    · cases k with
      | unresolved => exact .pure none (by simp)
      | weak v =>
        have hweak : s.heap.Access lent own (.weak v) :=
          hclosure.back hkind ht (by simp [backEdge?, hstate, hnode])
        refine .map (Run.upgrade_gives hweak) fun r => ?_
        rw [optional_some, Multiset.singleton_add]
      | strong v =>
        have hthunk : s.heap.Access lent own (.strong (.thunk t)) :=
          hclosure.of_closure hkind (by simp [ObjectKind.holdings_closure, ht])
            (.inr fun u hu => by cases hu; simp [backEdge?, hstate, hnode])
        exact Knot.value?_gives (hthunk.of_state hstate (by simp [Handle.holding, Handle.edge]))
          (kindOf?_of_application? hnode)
  · exact .pure none (by simp)
  · refine .inspect ?_
    cases halive : s.heap.isAlive p with
    | true =>
      have hweak : s.heap.Access lent own (.weak p) :=
        hclosure.back hkind ht (by simp [backEdge?, hstate, halive])
      refine .step rfl (fun _ => .upgrade p hweak halive) fun _ => Gives.pure (some (Handle.plain p)) ?_
      rw [optional_some, Multiset.singleton_add]
      rfl
    | false => exact .pure none (by simp)

theorem forCopy_gives (hclosure : s.heap.Access lent own (.strong (.object o)))
    (hkind : s.heap.kindOf? o = some (.closure c)) (ht : t ∈ c.arguments) :
    Gives rest lent s own t.forCopy fun u => .strong (.thunk u) ::ₘ own := by
  refine .bind (copyTarget?_gives hclosure hkind ht) fun h? s' htarget _ hvalid => ?_
  cases h? with
  | none =>
    obtain ⟨rfl, hback⟩ := copyTarget?_none htarget
    rw [optional_none, zero_add]
    have hslot : .strong (.thunk t) ∈ (ObjectKind.closure c).holdings := by
      simp [ObjectKind.holdings_closure, ht]
    refine .of_ok rfl fun _ => .retain (.thunk t) ?_ ?_
    · exact hclosure.of_closure hkind hslot (.inr fun u hu => by cases hu; exact hback)
    · exact hvalid.counted.live_of_kind hkind hslot
  | some h =>
    refine .of_ok rfl fun _ => (Moves.newThunk (.forced h) rfl).conv ?_ rfl
    simp

end ThunkId

namespace Closure

variable {o : ObjectId} {c : Closure}

/-- A closure that is there, whatever has become of its result. -/
def At (c : Closure) (m : Heap) (o : ObjectId) : Prop :=
  ∃ memo, m.kindOf? o = some (.closure { c with memo }) ∧ (c.memo ≠ .empty → memo = c.memo)

theorem At.of_kind {m : Heap} (hkind : m.kindOf? o = some (.closure c)) : c.At m o :=
  ⟨c.memo, hkind, fun _ => rfl⟩

theorem At.moves {own' : Multiset Holding} (h : c.At s.heap o) (hmoves : Moves lent s own s₁ own')
    (hvalid : s.heap.Valid (own + rest)) (hheld : .strong (.object o) ∈ rest) : c.At s₁.heap o := by
  obtain ⟨memo, hkind, hmemo⟩ := h
  obtain ⟨_, hkind', memo', rfl, hmemo'⟩ := hmoves.kind_kept rest hvalid hheld hkind
  refine ⟨memo', hkind', fun hfull => ?_⟩
  have hsame := hmemo hfull
  subst hsame
  exact hmemo' hfull

def slotHoldings (slots : List (Option ThunkId)) : Multiset Holding :=
  ↑((slots.filterMap id).map fun t => Holding.strong (.thunk t))

theorem slotHoldings_cons (slot : Option ThunkId) (slots : List (Option ThunkId)) :
    slotHoldings (slot :: slots) = slotHoldings [slot] + slotHoldings slots := by
  cases slot <;> simp [slotHoldings]

theorem copySlot_gives (hclosure : s.heap.Access lent own (.strong (.object o)))
    (hat : c.At s.heap o) {slot : Option ThunkId} (hslot : ∀ t, slot = some t → t ∈ c.arguments) :
    Gives rest lent s own (copySlot slot) fun slot' => slotHoldings [slot'] + own := by
  cases slot with
  | none => exact .pure none (by simp [slotHoldings])
  | some t =>
    obtain ⟨memo, hkind, -⟩ := hat
    refine .map (ThunkId.forCopy_gives hclosure hkind (hslot t rfl)) fun u => ?_
    simp [slotHoldings]

theorem copySlots_gives (hlent : .object o ∈ lent) (hheld : .strong (.object o) ∈ rest)
    (slots : List (Option ThunkId)) (hslots : ∀ t, some t ∈ slots → t ∈ c.arguments)
    (hat : c.At s.heap o) :
    Gives rest lent s own (slots.mapM copySlot) fun slots' => slotHoldings slots' + own := by
  induction slots generalizing s own with
  | nil => exact .pure [] (by simp [slotHoldings])
  | cons slot slots ih =>
    rw [List.mapM_cons]
    intro hvalid
    refine Gives.bind (copySlot_gives (.lent hlent) hat fun t ht => ?_)
      (fun slot' s₁ _ hmoves _ => ?_) hvalid
    · exact hslots t (ht ▸ List.mem_cons_self)
    · refine .map (ih (fun t ht => hslots t (List.mem_cons_of_mem _ ht))
        (hat.moves hmoves hvalid hheld)) fun slots' => ?_
      rw [slotHoldings_cons slot' slots', ← add_assoc, add_comm (slotHoldings slots')]

theorem copySlots_filled {slots slots' : List (Option ThunkId)} {s s' : Machine}
    (h : slots.mapM copySlot s = .ok slots' s') :
    slots'.map Option.isSome = slots.map Option.isSome := by
  induction slots generalizing s slots' with
  | nil =>
    cases h
    rfl
  | cons slot slots ih =>
    rw [List.mapM_cons, Run.bind_run] at h
    cases hslot : copySlot slot s with
    | error signal s₁ => simp [hslot] at h
    | ok slot' s₁ =>
      rw [hslot] at h
      dsimp only at h
      rw [Run.bind_run] at h
      cases hrest : slots.mapM copySlot s₁ with
      | error signal s₂ => simp [hrest] at h
      | ok rest' s₂ =>
        rw [hrest] at h
        cases h
        have hsame : slot'.isSome = slot.isSome := by
          cases slot with
          | none =>
            cases hslot
            rfl
          | some t =>
            rw [copySlot, Run.bind_run] at hslot
            split at hslot <;> cases hslot
            rfl
        simp [hsame, ih hrest]

theorem copyMemo_gives (hclosure : s.heap.Access lent own (.strong (.object o)))
    (hat : c.At s.heap o) :
    Gives rest lent s own (copyMemo c.memo) fun memo =>
      ↑(memo.result?.toList.map Handle.holding) + own := by
  obtain ⟨memo, hkind, hmemo⟩ := hat
  rcases hfull : c.memo with _ | _ | h
  · exact .pure Memo.empty (by simp [Memo.result?])
  · exact .pure Memo.empty (by simp [Memo.result?])
  · obtain rfl : memo = .done h := by rw [hmemo (by simp [hfull]), hfull]
    have hresult : h.holding ∈ (ObjectKind.closure { c with memo := .done h }).holdings := by
      simp [ObjectKind.holdings_closure, Memo.result?]
    have haccess := hclosure.of_closure hkind hresult (.inr fun t ht => by cases ht)
    intro hvalid
    have hlive : s.heap.IsLive h.edge := hvalid.counted.live_of_kind hkind hresult
    refine Gives.map (Run.share_gives haccess hlive) (fun r => ?_) hvalid
    simp [Memo.result?]

theorem copy_gives (hlent : .object o ∈ lent) (hheld : .strong (.object o) ∈ rest)
    (hat : c.At s.heap o) :
    Gives rest lent s own c.copy fun fresh => (ObjectKind.closure fresh).holdings + own := by
  rw [copy]
  intro hvalid
  refine Gives.bind (copySlots_gives hlent hheld _ (fun t ht => ?_) hat)
    (fun slots s₁ _ hmoves hvalid₁ => ?_) hvalid
  · simpa [arguments] using ht
  have hat₁ := hat.moves hmoves hvalid hheld
  obtain ⟨memo, hkind, -⟩ := id hat₁
  have hcombinator : .strong (.combinator c.combinator) ∈
      (ObjectKind.closure { c with memo }).holdings := by
    simp [ObjectKind.holdings_closure]
  have hretain : Moves lent s₁ (slotHoldings slots + own)
      (s₁.on (·.retainEdge (.combinator c.combinator)))
      (.strong (.combinator c.combinator) ::ₘ (slotHoldings slots + own)) :=
    .retain _ (Access.of_closure (.lent hlent) hkind hcombinator (.inr fun t ht => by cases ht))
      (hvalid₁.counted.live_of_kind hkind hcombinator)
  refine .step rfl (fun _ => hretain) fun _ => ?_
  refine .map (copyMemo_gives (.lent hlent) (hat₁.moves hretain hvalid₁ hheld)) fun memo' => ?_
  rw [ObjectKind.holdings_closure]
  simp only [arguments, slotHoldings, List.filterMap_reverse, List.map_reverse,
    ← Multiset.coe_add, Multiset.coe_reverse, ← Multiset.singleton_add]
  abel

theorem copy_shape {fresh : Closure} {s s' : Machine} (h : c.copy s = .ok fresh s') :
    fresh.missing = c.missing ∧ (c.Proper → fresh.Proper) := by
  rw [copy, Run.bind_run] at h
  cases hslots : c.slots.toList.mapM copySlot s with
  | error signal s₁ => simp [hslots] at h
  | ok slots s₁ =>
    rw [hslots] at h
    dsimp only at h
    simp only [Run.bind_run, Run.change_run] at h
    split at h
    · cases h
      exact ⟨rfl, fun hproper => hproper.of_filled rfl (copySlots_filled hslots)⟩
    · cases h

end Closure

namespace Run

variable {h : Handle} {left : Multiset Holding}

theorem isUnique_of_object? {m : Heap} {o : ObjectId}
    (h : ((m.object? o).map Object.isUnique).getD false = true) : m.IsUnique o := by
  simp only [IsUnique]
  rcases hx : m.object? o with _ | ⟨_ | ⟨strong, weak⟩, kind⟩
  · simp [hx] at h
  · simp [hx, Object.isUnique] at h
  · obtain ⟨rfl, rfl⟩ : strong = 1 ∧ weak = 0 := by simpa [hx, Object.isUnique] using h
    rfl

theorem refuse_does {function : Handle} {t : ThunkId} {post : Handle → Multiset Holding}
    {e : EvalError} (he : e ≠ .releasedSelfReference) :
    Does rest lent s (function.holding ::ₘ .strong (.thunk t) ::ₘ own)
      (do
        change (·.releaseThunk t)
        release function.untagged
        raise e : Run Handle) post own := by
  refine .step rfl (fun _ => (Moves.releaseThunk s t).conv (Multiset.cons_swap _ _ _) rfl)
    fun _ => ?_
  refine .step rfl (fun _ => (Moves.release _ function.untagged).conv rfl rfl) fun _ => ?_
  exact .raise he rfl

theorem copy_frame {function : Handle} {c : Closure}
    (hkind : s.heap.kindOf? function.target = some (.closure c)) :
    Gives rest lent s (function.holding ::ₘ own) c.copy fun fresh =>
      (ObjectKind.closure fresh).holdings + own + {function.holding} := by
  refine Gives.conv (.frame {function.holding} (Closure.copy_gives ?_ ?_ (.of_kind hkind))) ?_
    fun _ => rfl
  · rw [Moves.lending_holding]
    exact Set.mem_insert _ _
  · simp [Handle.holding, Handle.edge]
  · rw [add_comm, Multiset.singleton_add]

theorem bindThunk_does {function : Handle} {t : ThunkId} :
    Does rest lent s (function.holding ::ₘ .strong (.thunk t) ::ₘ own) (bindThunk function t)
      (fun r => r.holding ::ₘ own) own := by
  refine .inspect ?_
  cases hclosure : s.heap.closure? function.untagged with
  | none => exact .inspect (refuse_does (badApply_ne _))
  | some c =>
    have hkind : s.heap.kindOf? function.target = some (.closure c) :=
      kindOf?_of_closure? (h := function.untagged) hclosure
    dsimp only
    split
    · exact .inspect (refuse_does (tooManyArguments_ne _))
    · next hsaturated =>
      have hmissing : 0 < c.missing := by
        simp only [Closure.isSaturated, beq_iff_eq] at hsaturated
        omega
      refine .inspect (.inspect ?_)
      split
      · next hinplace =>
        simp only [Bool.and_eq_true, Bool.not_eq_true', Bool.or_eq_false_iff] at hinplace
        refine .step rfl (fun _ => ?_) fun _ => .pure function.untagged rfl
        exact (Moves.fill t hkind (isUnique_of_object? hinplace.2) hmissing
          hinplace.1.2).conv (Multiset.cons_swap _ _ _) rfl
      · intro hvalid
        refine Does.bind (copy_frame hkind).does (fun fresh s₁ hcopy _ _ => ?_) hvalid
        obtain ⟨hsame, hproper⟩ := Closure.copy_shape hcopy
        have hfresh := hproper (hvalid.proper _ _ hkind)
        have hmissing' : 0 < fresh.missing := hsame ▸ hmissing
        have hmake : Moves lent s₁
            ((ObjectKind.closure (fresh.fill t)).holdings + (function.holding ::ₘ own)) _ _ :=
          .newObject _ ⟨fun c hc => by cases hc; exact hfresh.fill hmissing' t, by simp⟩
        refine .step rfl (fun _ => hmake.conv ?_ rfl) fun _ => ?_
        · rw [Closure.holdings_fill hfresh hmissing']
          simp only [← Multiset.singleton_add]
          abel
        · refine .step rfl (fun _ => ?_) fun _ => .pure (Handle.plain s₁.heap.nextObject) rfl
          exact (Moves.release _ function.untagged).conv (Multiset.cons_swap _ _ _) rfl

theorem applyArgument_does {function argument : Handle} :
    Does rest lent s (function.holding ::ₘ argument.holding ::ₘ own)
      (applyArgument function argument) (fun r => r.holding ::ₘ own) own := by
  have hmake : Moves lent s ((ThunkState.pending argument).holdings + (function.holding ::ₘ own))
    _ _ := .newThunk _ rfl
  refine .step rfl (fun _ => hmake.conv ?_ rfl) fun _ => ?_
  · rw [ThunkState.holdings_pending, Multiset.singleton_add, Multiset.cons_swap]
  · rw [Multiset.cons_swap]
    exact bindThunk_does

theorem refuseFix_does {post : Handle → Multiset Holding} (hlent : h.edge ∈ lent)
    (hheld : h.holding ∈ rest) :
    Does rest lent s own
      (do raise (.badFix (← inspect (·.describe h))) : Run Handle) post own := by
  refine .inspect (.of_error rfl fun hvalid => ?_)
  exact describeHandle_moves (.lent hlent) hvalid (Multiset.mem_add.mpr (.inr hheld))

theorem bindSelf_does (hlent : h.edge ∈ lent) (hheld : h.holding ∈ rest) :
    Does rest lent s own (bindSelf h) (fun r => r.holding ::ₘ own) own := by
  refine .inspect ?_
  cases hclosure : s.heap.closure? h with
  | none => exact refuseFix_does hlent hheld
  | some c =>
    have hkind := kindOf?_of_closure? hclosure
    dsimp only
    split
    · exact refuseFix_does hlent hheld
    · next hmissing =>
      intro hvalid
      refine Does.bind (Closure.copy_gives hlent hheld (.of_kind hkind)).does
        (fun fresh s₁ hcopy _ _ => ?_) hvalid
      obtain ⟨hsame, hproper⟩ := Closure.copy_shape hcopy
      exact .of_ok rfl fun _ =>
        .bindSelf fresh (hproper (hvalid.proper _ _ hkind)) (by omega)

theorem retainAll_gives (hs : List Handle)
    (haccess : ∀ h ∈ hs, s.heap.Access lent own h.holding ∧ s.heap.IsLive h.edge) :
    Gives rest lent s own (hs.forM fun part => change (·.retain part)) fun _ =>
      ↑(hs.map Handle.holding) + own := by
  induction hs generalizing s own with
  | nil => exact .pure () (by simp)
  | cons h hs ih =>
    obtain ⟨hfirst, hlive⟩ := haccess h List.mem_cons_self
    refine .step rfl (fun _ => .share hfirst hlive) fun _ => ?_
    refine (ih fun g hg => ?_).conv rfl fun _ => ?_
    · obtain ⟨hg, hlive⟩ := haccess g (List.mem_cons_of_mem _ hg)
      have hsame : (s.heap.retain h).contents = s.heap.contents :=
        contents_retainEdge s.heap h.edge
      exact ⟨(hg.congr hsame).cons _, (isLive_congr hsame _).mpr hlive⟩
    · rw [List.map_cons, ← Multiset.cons_coe, Multiset.add_cons, Multiset.cons_add]

theorem finish_gives {kind : ObjectKind} (h : Handle) (hown : own₁ = kind.holdings + own)
    (hmakes : s.heap.Makes lent own₁ kind) :
    Gives rest lent s own₁ (cloneObject.finish h kind) fun r => r.holding ::ₘ own := by
  subst hown
  exact .of_ok rfl fun _ => .newObject kind hmakes

theorem makes_of_ne {m : Heap} {kind : ObjectKind} (hproper : ∀ c, kind = .closure c → c.Proper)
    (hknot : ∀ o, kind ≠ .application (.knot (.weak o))) : m.Makes lent own kind :=
  ⟨hproper, fun o heq => absurd heq (hknot o)⟩

theorem duplicate_gives {a : Application} (hlent : h.edge ∈ lent)
    (hkind : s.heap.kindOf? h.target = some (.application a)) :
    Gives rest lent s own (do cloneObject.finish h (.application (← a.duplicate)))
      fun r => r.holding ::ₘ own := by
  intro hvalid
  have hpart : ∀ part : Handle, part.holding ∈ (ObjectKind.application a).holdings →
      s.heap.Access lent own part.holding ∧ s.heap.IsLive part.edge :=
    fun part hpart => ⟨.of_kind (.lent hlent) hkind hpart (by simp),
      hvalid.counted.live_of_kind hkind hpart⟩
  cases a with
  | pending f x =>
    obtain ⟨hf, hflive⟩ := hpart f (by simp)
    obtain ⟨hx, hxlive⟩ := hpart x (by simp)
    have hsame : (s.on (·.retain f)).heap.contents = s.heap.contents :=
      contents_retainEdge s.heap f.edge
    refine Gives.step rfl (fun _ => (Moves.share hf hflive).trans
      (.share ((hx.congr hsame).cons _) ((isLive_congr hsame _).mpr hxlive)))
      (fun _ => finish_gives h ?_ (makes_of_ne (by simp) (by simp))) hvalid
    rw [ObjectKind.holdings_pending, Multiset.cons_swap]
    simp
  | reduced r =>
    obtain ⟨hr, hlive⟩ := hpart r (by simp)
    exact Gives.step rfl (fun _ => .share hr hlive)
      (fun _ => finish_gives h (by simp) (makes_of_ne (by simp) (by simp))) hvalid
  | knot k =>
    cases k with
    | unresolved =>
      exact Gives.step rfl (fun _ => .refl ..)
        (fun _ => finish_gives h (by simp) (makes_of_ne (by simp) (by simp))) hvalid
    | weak o =>
      refine Gives.step rfl (fun _ => .retainWeak o (.lent hlent) hkind)
        (fun _ => finish_gives h (by simp) ⟨by simp, fun p hp => ?_⟩) hvalid
      cases hp
      exact ⟨h.target, .lent hlent, (kindOf?_congr (contents_retainWeak _ _) _).trans hkind⟩
    | strong v =>
      obtain ⟨hv, hlive⟩ := hpart v (by simp)
      exact Gives.step rfl (fun _ => .share hv hlive)
        (fun _ => finish_gives h (by simp) (makes_of_ne (by simp) (by simp))) hvalid

theorem cloneObject_gives (hlent : h.edge ∈ lent) (hheld : h.holding ∈ rest) :
    Gives rest lent s own (cloneObject h) fun r => r.holding ::ₘ own := by
  intro hvalid
  obtain ⟨kind, hkind⟩ := kindOf?_of_held hvalid (Multiset.mem_add.mpr (.inr hheld))
  have hkind' : s.heap.kind? h = some kind := hkind
  have hpart : ∀ part : Handle, part.holding ∈ kind.holdings → s.heap.IsLive part.edge :=
    fun part hpart => hvalid.counted.live_of_kind hkind hpart
  refine Gives.inspect ?_ hvalid
  rw [hkind']
  cases kind with
  | value v =>
    have htoken : s.heap.Access lent own (.error (.badFix v.type.text)) :=
      .of_kind (.lent hlent) hkind (by simp) (by simp)
    refine .after (.copied _ htoken) (.bind (retainAll_gives _ fun part hmem => ?_)
      fun _ s₁ _ _ _ => finish_gives h ?_ (makes_of_ne (by simp) (by simp)))
    · have hmem' : part.holding ∈ (ObjectKind.value v).holdings := by
        simp only [ObjectKind.holdings_value, Multiset.mem_cons, Multiset.mem_coe]
        exact .inr (List.mem_map_of_mem hmem)
      exact ⟨(Access.of_kind (.lent hlent) hkind hmem' (by simp)).cons _, hpart part hmem'⟩
    · rw [ObjectKind.holdings_value, Multiset.cons_add, Multiset.add_cons]
  | closure c =>
    refine .bind (Closure.copy_gives hlent hheld (.of_kind hkind)) fun fresh s₁ hcopy _ _ => ?_
    have hproper := (Closure.copy_shape hcopy).2 (hvalid.proper _ _ hkind)
    exact finish_gives h rfl (makes_of_ne (fun c hc => by cases hc; exact hproper) (by simp))
  | application a => exact duplicate_gives hlent hkind
  | exception e =>
    have htoken : s.heap.Access lent own (.error e) :=
      .of_kind (.lent hlent) hkind (by simp) (by simp)
    exact .after (.copied _ htoken) (finish_gives h
      (by rw [ObjectKind.holdings_exception, Multiset.singleton_add])
      (makes_of_ne (by simp) (by simp)))

end Run

end GraphReduction
