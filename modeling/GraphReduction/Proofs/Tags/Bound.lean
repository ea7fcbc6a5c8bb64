import Mathlib
import GraphReduction.Proofs.Tags.Events

/-! A result belongs to all the arguments of its closure. As long as nobody writes results into
closures but evaluation, there is none in a closure that misses an argument, whatever is bound, copied
and evaluated. So what comes of binding the last argument has none either, and to evaluate it is to
run its own body, once. -/
namespace GraphReduction

open Heap Run

variable {s s' : Machine} {rest : Multiset Holding} {o : ObjectId} {c : Closure} {f x r : Handle}
  {held : List Handle} {options : Options}

namespace Evaluator

theorem reduceUpTo_computes (hkind : s.heap.kindOf? o = some (.closure c)) (hmissing : c.missing = 0)
    (hmemo : c.memo = .empty) (options : Options) (depth : Nat) :
    reduceUpTo options (depth + 1) (.plain o) s =
      match compute options (reduceUpTo options depth) (.plain o) c
        (s.on (·.setMemo o .running)) with
      | .ok r s₁ => .ok r (s₁.on fun m => (m.retain r).setMemo o (.done r))
      | .error signal s₁ => .error signal (s₁.on (·.setMemo o .empty)) := by
  rw [reduceUpTo, reduceOnce_saturated hkind hmissing, result, hmemo]
  simp only [Run.bind_run, change_run, tryCatch_run]
  cases hact : compute options (reduceUpTo options depth) (.plain o) c
    (s.on (·.setMemo o .running)) with
  | ok | error =>
    have hrun : compute options (reduceUpTo options depth) (.plain o) c
      { s with heap := s.heap.setMemo (Handle.plain o).target .running } = _ := hact
    rw [hrun]
    rfl

theorem is_spent_begin (hkind : s.heap.kindOf? o = some (.closure c)) :
    (s.begin o).heap.Is ObjectKind.IsSpent o := by
  have hrunning : (s.begin o).heap.kindOf? o = some (.closure { c with memo := .running }) := by
    rw [Machine.heap_begin, kindOf?_setMemo, if_pos rfl, hkind]
    rfl
  exact .of_kind hrunning ⟨_, rfl, by simp⟩

/-- From then on there is a result, unless the closure is gone. -/
theorem reduceUpTo_spends (hkind : s.heap.kindOf? o = some (.closure c)) (hmissing : c.missing = 0)
    (hmemo : c.memo = .empty) {depth : Nat}
    (hrun : reduceUpTo options (depth + 1) (.plain o) s = .ok r s') :
    s'.heap.Is ObjectKind.IsSpent o := by
  have hcompute : Along (Develops ObjectKind.Changes)
      (compute options (reduceUpTo options depth) (.plain o) c) :=
    compute_along (reduceUpTo_along options depth) (.plain o) c
  rw [reduceUpTo_computes hkind hmissing hmemo] at hrun
  cases hact : compute options (reduceUpTo options depth) (.plain o) c
    (s.on (·.setMemo o .running)) with
  | error signal s₁ =>
    rw [hact] at hrun
    cases hrun
  | ok v s₁ =>
    rw [hact] at hrun
    cases hrun
    have hdevelops : Develops ObjectKind.Changes (s.heap.setMemo o .running) s₁.heap :=
      hcompute.of_ok hact
    have hspent : s₁.heap.Is ObjectKind.IsSpent o := (is_spent_begin hkind).develops .changes hdevelops
    exact (spends_setMemo _ o (by simp)).spent o
      (hspent.develops .changes (.of_contents (contents_retain s₁.heap _)))

/-- The body is the first thing that begins then, and it does not begin again. -/
theorem reduceUpTo_begins (hvalid : s.heap.Valid rest) (hheld : .strong (.object o) ∈ rest)
    (hkind : s.heap.kindOf? o = some (.closure c)) (hmissing : c.missing = 0)
    (hmemo : c.memo = .empty) (options : Options) (depth : Nat) :
    ∃ events, (ended (reduceUpTo options (depth + 1) (.plain o) s)).trace =
      s.trace ++ (#[.began o] ++ events) ∧ .began o ∉ events := by
  have hrunning : (s.begin o).heap.kindOf? o = some (.closure { c with memo := .running }) := by
    rw [Machine.heap_begin, kindOf?_setMemo, if_pos rfl, hkind]
    rfl
  have hspent : (s.begin o).heap.Is ObjectKind.IsSpent o := is_spent_begin hkind
  have hdoes : Does rest c.operands (s.begin o) 0 (fun _ => compute options
      (reduceUpTo options depth) (.plain o) c (s.on (·.setMemo o .running))) _ 0 :=
    compute_does (reduceUpTo_sound options depth) hheld ⟨.running, hrunning, by simp [hmemo]⟩ le_rfl
  have hmoves := hdoes (by simpa using hvalid.startMemo hkind hmemo)
  have hlater (s₁ : Machine) (hgoes : (s.begin o).GoesOn s₁) :
      ∃ events, s₁.trace = s.trace ++ (#[.began o] ++ events) ∧ .began o ∉ events := by
    obtain ⟨events, htrace, hall⟩ := hgoes
    refine ⟨events, ?_, fun hbegan => hall _ hbegan hspent⟩
    rw [htrace, ← Array.append_assoc]
    simp [Machine.begin, Machine.push, Machine.on]
  rw [reduceUpTo_computes hkind hmissing hmemo]
  cases hrun : compute options (reduceUpTo options depth) (.plain o) c
    (s.on (·.setMemo o .running)) with
  | ok r s₁ =>
    rw [hrun] at hmoves
    exact hlater s₁ (Moves.goesOn hmoves)
  | error signal s₁ =>
    rw [hrun] at hmoves
    exact hlater s₁ (Moves.goesOn hmoves)

end Evaluator

namespace Holder

variable {w : Holder}

theorem Obtained.unsaturated_empty (hobtained : Obtained w)
    (hkind : w.heap.kindOf? o = some (.closure c)) (hmissing : 0 < c.missing) :
    c.memo = .empty := by
  by_contra hfull
  exact hmissing.ne' ((hobtained.truthful.upright.cells.object o _ hkind).1 hfull)

/-- Binding an argument, whether in place or in a copy, gives a closure without a result. To evaluate
it once its last argument is bound is to run its body, once and before anything else. -/
theorem Obtained.applyArgument_begins (hobtained : Obtained ⟨s, f :: x :: held⟩)
    (hrun : applyArgument f x s = .ok r s') :
    ∃ c, s'.heap.kindOf? r.target = some (.closure c) ∧ c.memo = .empty ∧
      (c.missing = 0 → ∀ options, ∃ events,
        (ended (Evaluator.evaluate options r s')).trace =
          s'.trace ++ (#[.began r.target] ++ events) ∧ .began r.target ∉ events) := by
  have hw := hobtained.truthful
  have hx : s.heap.Honest x := hw.honest x (by simp)
  have hleaves := applyArgument_leaves (show s.heap.Upright (f.holding ::ₘ x.holding ::ₘ
    (held.map Handle.holding : Multiset Holding)) from hw.upright) hx
  rw [hrun] at hleaves
  obtain ⟨-, hup, htag, c, hkind, hmemo⟩ := hleaves
  refine ⟨c, hkind, hmemo, fun hmissing options => ?_⟩
  obtain ⟨depth, hdepth⟩ := Evaluator.exists_unboundedDepth
  rw [Evaluator.evaluate, hdepth]
  obtain ⟨tag, o⟩ := r
  obtain rfl : tag = .plain := htag
  exact Evaluator.reduceUpTo_begins hup.valid (by simp [Handle.holding, Handle.edge]) hkind hmissing
    hmemo options depth

end Holder

end GraphReduction
