import Mathlib
import GraphReduction.Session.Look
import GraphReduction.Proofs.Moves.Machine

/-! Looking at what is behind a handle. References that are taken for it are given back, and the node
that is looked at stays as it is in the meantime. -/
namespace GraphReduction

open Heap

variable {rest own : Multiset Holding} {lent : Set Edge} {s : Machine} {o : ObjectId}

def Snapshot.holdings : Snapshot → Multiset Holding
  | .pending function argument => {function.holding, argument.holding}
  | .reduced result => {result.holding}

namespace Application

variable {a : Application}

theorem cached?_gives (hnode : s.heap.Access lent own (.strong (.object o)))
    (hkind : s.heap.kindOf? o = some (.application a)) :
    Gives rest lent s own a.cached? fun h? => optional h? + own := by
  cases a with
  | pending f x => exact .pure none (by simp)
  | reduced r =>
    have hr : s.heap.Access lent own r.holding := hnode.of_kind hkind (by simp) (by simp)
    refine .given fun hvalid => .map (Run.share_gives hr ?_) fun r => (Multiset.singleton_add _ _).symm
    exact hvalid.counted.live_of_kind hkind (by simp [Handle.holding])
  | knot k =>
    refine .map (Knot.value?_gives hnode hkind) fun h? => ?_
    cases h? <;> simp

theorem knotValue?_gives (hnode : s.heap.Access lent own (.strong (.object o)))
    (hkind : s.heap.kindOf? o = some (.application a)) :
    Gives rest lent s own a.knotValue? fun h? => optional h? + own := by
  cases a with
  | pending f x => exact .pure none (by simp)
  | reduced r => exact .pure none (by simp)
  | knot k => exact Knot.value?_gives hnode hkind

theorem snapshot_gives (hnode : s.heap.Access lent own (.strong (.object o)))
    (hkind : s.heap.kindOf? o = some (.application a)) :
    Gives rest lent s own a.snapshot fun parts => parts.holdings + own := by
  refine .given fun hvalid => ?_
  have hpart : ∀ p : Handle, p.holding ∈ (ObjectKind.application a).holdings →
      s.heap.Access lent own p.holding ∧ s.heap.IsLive p.edge := fun p hp =>
    ⟨hnode.of_kind hkind hp (by simp), hvalid.counted.live_of_kind hkind hp⟩
  cases a with
  | pending f x =>
    obtain ⟨hf, hflive⟩ := hpart f (by simp)
    obtain ⟨hx, hxlive⟩ := hpart x (by simp)
    have hsame : (s.on (·.retain f)).heap.contents = s.heap.contents :=
      contents_retainEdge s.heap f.edge
    refine .step rfl (fun _ => .share hf hflive) fun _ => ?_
    refine .step rfl (fun _ => .share ((hx.congr hsame).cons _)
      ((isLive_congr hsame _).mpr hxlive)) fun _ => .pure (Snapshot.pending f x) ?_
    simp [Snapshot.holdings, Multiset.cons_swap]
  | reduced r =>
    obtain ⟨hr, hlive⟩ := hpart r (by simp)
    exact .map (Run.share_gives hr hlive) fun r => (Multiset.singleton_add _ _).symm
  | knot k => exact .map (Knot.reduced_gives hnode hkind) fun r => (Multiset.singleton_add _ _).symm

theorem kept {s' : Machine} {own' : Multiset Holding} (hmoves : Moves lent s own s' own')
    (hvalid : s.heap.Valid (own + rest)) (hheld : .strong (.object o) ∈ rest)
    (hkind : s.heap.kindOf? o = some (.application a)) (hpending : ∀ f x, a ≠ .pending f x) :
    s'.heap.kindOf? o = some (.application a) := by
  obtain ⟨kind, hkind', hkept⟩ := hmoves.kind_kept rest hvalid hheld hkind
  cases a with
  | pending f x => exact absurd rfl (hpending f x)
  | reduced r =>
    cases hkept
    exact hkind'
  | knot k =>
    cases hkept
    exact hkind'

end Application

namespace Run

theorem shownOnce_gives (h : Handle) :
    Gives rest lent s (h.holding ::ₘ own) (shownOnce h) fun _ => own :=
  .step rfl (fun _ => .refl ..) fun _ => .step rfl (fun _ => .release s h) fun _ => .pure _ rfl

theorem shownOnce?_gives (h? : Option Handle) :
    Gives rest lent s (optional h? + own) (shownOnce? h?) fun _ => own := by
  cases h? with
  | none => exact .pure none (zero_add own)
  | some h => exact .map ((shownOnce_gives h).conv (by simp) fun _ => rfl) fun _ => rfl

theorem glance_bind {α : Type} {a : Application} {act : Run (Option Handle)}
    {next : Option Shown → Run α} {post : α → Multiset Holding}
    (hheld : .strong (.object o) ∈ rest) (hkind : s.heap.kindOf? o = some (.application a))
    (hact : Gives rest lent s own act fun h? => optional h? + own)
    (hpending : ∀ f x, a = .pending f x → act = pure none)
    (hnext : ∀ shown s', s'.heap.kindOf? o = some (.application a) →
      Gives rest lent s' own (next shown) post) :
    Gives rest lent s own (do next (← shownOnce? (← act))) post := by
  by_cases h : ∃ f x, a = .pending f x
  · obtain ⟨f, x, ha⟩ := h
    rw [hpending f x ha]
    exact .step rfl (fun _ => .refl ..) fun _ => .step rfl (fun _ => .refl ..) fun _ =>
      hnext none s hkind
  · refine .given fun hvalid => .bind hact fun h? s₁ _ hmoves _ => ?_
    refine .bind (shownOnce?_gives h?) fun shown s₂ _ hmoves' _ => hnext shown s₂ ?_
    exact Application.kept (hmoves.trans hmoves') hvalid hheld hkind
      fun f x ha => h ⟨f, x, ha⟩

theorem nodeView_gives {a : Application} (hlent : .object o ∈ lent)
    (hheld : .strong (.object o) ∈ rest) (hkind : s.heap.kindOf? o = some (.application a)) :
    Gives rest lent s own (nodeView a) fun _ => own := by
  refine glance_bind hheld hkind (Application.cached?_gives (.lent hlent) hkind)
    (by rintro f x rfl; rfl) fun result s₁ hkind => ?_
  refine glance_bind hheld hkind (Application.knotValue?_gives (.lent hlent) hkind)
    (by rintro f x rfl; rfl) fun knotValue s₂ hkind => ?_
  refine .bind (Application.snapshot_gives (.lent hlent) hkind) fun parts s₃ _ _ _ => ?_
  cases parts with
  | pending f x =>
    refine .bind ((shownOnce_gives f).conv ?_ fun _ => rfl) fun _ s₄ _ _ _ =>
      .bind (shownOnce_gives x) fun _ s₅ _ _ _ => .of_ok rfl fun _ => .refl ..
    simp [Snapshot.holdings]
  | reduced r =>
    refine .bind ((shownOnce_gives r).conv ?_ fun _ => rfl) fun _ s₄ _ _ _ =>
      .of_ok rfl fun _ => .refl ..
    simp [Snapshot.holdings]

theorem view_gives {h : Handle} (hlent : h.edge ∈ lent) (hheld : h.holding ∈ rest) :
    Gives rest lent s own (view h) fun _ => own := by
  refine .inspect ?_
  cases s.heap.closure? h
  case' none => refine .step rfl (fun _ => .refl ..) fun _ => .inspect ?_
  case' some c =>
    refine .step rfl (fun _ => .refl ..) fun _ => .step rfl (fun _ => .refl ..) fun _ => .inspect ?_
  -- the view of a closure reads the heap only
  all_goals
    cases hnode : s.heap.application? h with
    | none => exact .of_ok rfl fun _ => .refl ..
    | some a =>
      exact .bind (nodeView_gives hlent hheld (kindOf?_of_application? hnode))
        fun _ s₁ _ _ _ => .of_ok rfl fun _ => .refl ..

end Run

end GraphReduction
