import Mathlib
import GraphReduction.Proofs.Contexts.Aftermath
import GraphReduction.Proofs.Moves.Advances

/-! What an evaluation leaves behind, whatever way it ends. A cell that was there is as it was, or it
has come to the end of its own computation; nothing stays half done. So what a panic interrupts can
be begun again. -/
namespace GraphReduction

open Heap

variable {m m' : Heap} {o : ObjectId} {c c' : Closure} {kind kind' : ObjectKind}

namespace Heap.Advances

/-! What is to be found afterwards -/

theorem settles (h : m.Advances m') : m.Settles m' := by
  refine fun o halloc => ⟨h.allocated _ halloc, fun kind' hkind' => ?_⟩
  obtain ⟨kind, hkind, hsteps⟩ := h.object o kind' halloc hkind'
  refine ⟨kind, hkind, fun hsettled =>
    (Relation.reflTransGen_iff_eq fun next hnext => ?_).mp hsteps⟩
  obtain ⟨e, rfl⟩ | ⟨r, rfl⟩ := hsettled <;> cases hnext

theorem node {f x : Handle} (h : m.Advances m')
    (hkind : m.kindOf? o = some (.application (.pending f x))) (hkind' : m'.kindOf? o = some kind') :
    kind' = .application (.pending f x) ∨ ∃ r, kind' = .application (.reduced r) :=
  ObjectKind.Advances.of_pending (h.of_kind hkind hkind')

theorem closure (h : m.Advances m') (hkind : m.kindOf? o = some (.closure c))
    (hmissing : c.missing = 0) (hkind' : m'.kindOf? o = some kind') :
    kind' = .closure c ∨ c.memo = .empty ∧ ∃ r, kind' = .closure { c with memo := .done r } :=
  ObjectKind.Advances.of_saturated hmissing (h.of_kind hkind hkind')

theorem running (h : m.Advances m') (halloc : m.Allocated (.object o))
    (hkind' : m'.kindOf? o = some (.closure c')) (hmemo : c'.memo = .running) :
    ∃ c, m.kindOf? o = some (.closure c) ∧ c.memo = .running := by
  obtain ⟨kind, hkind, hsteps⟩ := h.object o _ halloc hkind'
  obtain ⟨c, rfl, hrunning⟩ := ObjectKind.Advances.running hsteps hmemo
  exact ⟨c, hkind, hrunning⟩

end Heap.Advances

/-- Whatever way an evaluation ends, a panic included, what was there can be evaluated again: counts
are exact, and whatever has not come to its end is as it was. -/
theorem Evaluator.reduceUpTo_resumable (options : Options) (depth : Nat) {s : Machine}
    {rest : Multiset Holding} {h : Handle} (hup : s.heap.Upright rest) (hheld : h.holding ∈ rest)
    (hhonest : s.heap.Honest h) :
    match reduceUpTo options depth h s with
    | .ok r s' => s.heap.Advances s'.heap ∧ s'.heap.Upright (r.holding ::ₘ rest)
    | .error _ s' => s.heap.Advances s'.heap ∧ s'.heap.Upright rest := by
  have hmoves := reduceUpTo_sound options depth rest {h.edge} s h hheld rfl
    (by rw [zero_add]; exact hup.valid)
  have hleaves := reduceUpTo_finishes options depth hup hheld hhonest
  cases hrun : reduceUpTo options depth h s with
  | ok r s' =>
    rw [hrun] at hmoves hleaves
    exact ⟨hmoves.advances, hleaves.2.1⟩
  | error signal s' =>
    rw [hrun] at hmoves hleaves
    exact ⟨hmoves.advances, hleaves.2⟩

end GraphReduction
