import Mathlib
import GraphReduction.Reduce.Body
import GraphReduction.Proofs.Moves.Binding

/-! What tying a function to itself does. A data fixpoint runs the function on a knot first and
points the knot at the value then; while the function runs, nobody else can point it anywhere. -/
namespace GraphReduction.Run

open Heap

variable {rest : Multiset Holding} {lent : Set Edge} {s s₁ : Machine} {own : Multiset Holding}
  {reduce : Reducer} {function knot : Handle}

/-- What happens before the knot is pointed at the value, which is returned with the term that it is
the value of. -/
def untilValue (reduce : Reducer) (function knot : Handle) : Run (Handle × Handle) := do
  let saturated ← applyArgument function (← share knot)
  let value ← releasingOnSignal saturated do intoResult (← reduce saturated)
  pure (saturated, value)

theorem untilValue_does (hsound : reduce.Sound) (hheld : knot.holding ∈ rest)
    (hlent : knot.edge ∈ lent) :
    Does rest lent s (function.holding ::ₘ own) (untilValue reduce function knot)
      (fun r => r.2.holding ::ₘ r.1.holding ::ₘ own) own := by
  intro hvalid
  have hlive := hvalid.counted.live knot.edge
    (Multiset.mem_add.mpr (.inr (Multiset.mem_add.mpr (.inr hheld))))
  refine Does.step rfl (fun _ => .share (.lent hlent) hlive) (fun _ => ?_) hvalid
  rw [Multiset.cons_swap]
  refine .bind applyArgument_does fun saturated s₁ _ _ _ => ?_
  refine .bind (.releasingOnSignal (.bind (hsound.borrowed (Multiset.mem_cons_self _ _)
    (Set.mem_insert _ _)) fun r s₂ _ _ _ => intoResult_does)) fun value s₂ _ _ _ => ?_
  exact .pure (saturated, value) (Multiset.cons_swap _ _ _)

theorem resolve_run {node : ObjectId} {value : Handle}
    (hnode : s.heap.kindOf? node = some (.application (.knot .unresolved)))
    (hvalue : value.isException = false) :
    resolve node value s = .ok () (s.on (·.tie node value)) := by
  have hkind : s.heap.kind? (.plain node) = some (.application (.knot .unresolved)) := hnode
  simp only [resolve, Run.bind_run, inspect_run, hkind, Option.bind_some,
    ObjectKind.application?, hvalue, Heap.tie, Machine.on]
  cases hstatic : s.heap.isStatic value <;> simp [Run.bind_run]

theorem intoResult_plain {h r : Handle} (hrun : intoResult h s = .ok r s₁) :
    r.isException = false := by
  simp only [intoResult, Run.bind_run, inspect_run] at hrun
  cases herror : s.heap.error? h with
  | none =>
    rw [herror] at hrun
    cases hrun
    rfl
  | some e =>
    rw [herror] at hrun
    cases hrun

def tiedState (s₁ : Machine) (knot saturated value : Handle) : Machine :=
  (s₁.on fun m => [saturated, knot].foldl (·.release ·) (m.tie knot.target value)).push
    (.tied knot.target value
      ([saturated, knot].foldl (·.release ·) (s₁.heap.tie knot.target value)))

theorem tie_run_of_error {signal : Signal}
    (hmissing : ((s.heap.closure? function).map Closure.missing).getD 0 = 1)
    (hrun : untilValue reduce function (.plain s.heap.nextObject)
      (s.on fun m => (m.newObject (.application (.knot .unresolved))).2) = .error signal s₁) :
    tie reduce function s = .error signal (s₁.on (·.release (.plain s.heap.nextObject))) := by
  simp only [tie, Run.bind_run, inspect_run, hmissing, newKnot, newObject, add_run, newObject_fst,
    releasing_run, share_run]
  simp only [untilValue, Run.bind_run, share_run, releasingOnSignal_run, Machine.on] at hrun
  generalize applyArgument function (.plain s.heap.nextObject) _ = applied at hrun ⊢
  cases applied with
  | error signal' s₂ =>
    cases hrun
    rfl
  | ok saturated s₂ =>
    dsimp only at hrun ⊢
    cases hreduce : reduce saturated s₂ with
    | error signal' s₃ =>
      rw [hreduce] at hrun
      cases hrun
      rfl
    | ok r s₃ =>
      rw [hreduce] at hrun
      dsimp only at hrun ⊢
      cases hinto : intoResult r s₃ with
      | error signal' s₄ =>
        rw [hinto] at hrun
        cases hrun
        rfl
      | ok value s₄ =>
        rw [hinto] at hrun
        cases hrun

theorem tie_run_of_ok {saturated value : Handle}
    (hmissing : ((s.heap.closure? function).map Closure.missing).getD 0 = 1)
    (hrun : untilValue reduce function (.plain s.heap.nextObject)
      (s.on fun m => (m.newObject (.application (.knot .unresolved))).2) =
        .ok (saturated, value) s₁)
    (hknot : s₁.heap.kindOf? s.heap.nextObject = some (.application (.knot .unresolved))) :
    tie reduce function s =
      .ok value (tiedState s₁ (.plain s.heap.nextObject) saturated value) := by
  simp only [tie, Run.bind_run, inspect_run, hmissing, newKnot, newObject, add_run, newObject_fst,
    releasing_run, share_run]
  simp only [untilValue, Run.bind_run, share_run, releasingOnSignal_run, Machine.on] at hrun
  generalize applyArgument function (.plain s.heap.nextObject) _ = applied at hrun ⊢
  cases applied with
  | error signal' s₂ => cases hrun
  | ok saturated' s₂ =>
    dsimp only at hrun ⊢
    cases hreduce : reduce saturated' s₂ with
    | error signal' s₃ =>
      rw [hreduce] at hrun
      cases hrun
    | ok r s₃ =>
      rw [hreduce] at hrun
      dsimp only at hrun ⊢
      cases hinto : intoResult r s₃ with
      | error signal' s₄ =>
        rw [hinto] at hrun
        cases hrun
      | ok value' s₄ =>
        rw [hinto] at hrun
        cases hrun
        have hresolve : resolve (Handle.plain s.heap.nextObject).target value s₁ = _ :=
          resolve_run hknot (intoResult_plain hinto)
        dsimp only
        rw [hresolve]
        rfl

theorem refuseTie_does {left : Multiset Holding} {post : Handle → Multiset Holding} :
    Does rest lent s (function.holding ::ₘ left)
      (do
        let found ← inspect (·.describe function)
        release function
        raise (.badFix found) : Run Handle) post left := by
  refine .inspect (.given fun hvalid => ?_)
  have htoken : Moves lent s (function.holding ::ₘ left) s _ :=
    describeHandle_moves (.own (Multiset.mem_cons_self _ left)) hvalid (by simp)
  refine .step rfl (fun _ => htoken.trans ((Moves.release s function).conv
    (Multiset.cons_swap _ _ _) rfl)) fun _ => ?_
  exact .of_error rfl fun _ => .refl ..

theorem newKnot_moves :
    Moves lent s own (s.on fun m => (m.newObject (.application (.knot .unresolved))).2)
      ((Handle.plain s.heap.nextObject).holding ::ₘ own) :=
  (Moves.newObject _ ⟨by simp, by simp⟩).conv (by simp) rfl

/-- Nobody but the one who ties it can point the knot at a value. -/
theorem unresolved_until {own' : Multiset Holding}
    (hvalid : (s.on fun m => (m.newObject (.application (.knot .unresolved))).2).heap.Valid
      (own + (Handle.plain s.heap.nextObject).holding ::ₘ rest))
    (hmoves : Moves lent (s.on fun m => (m.newObject (.application (.knot .unresolved))).2) own
      s₁ own') : s₁.heap.kindOf? s.heap.nextObject = some (.application (.knot .unresolved)) := by
  obtain ⟨kind, hkind, hkept⟩ := hmoves.kind_kept _ hvalid (Multiset.mem_cons_self _ rest)
    (show _ = some (ObjectKind.application (.knot .unresolved)) by
      rw [Machine.heap_on, kindOf?_newObject]; exact if_pos rfl)
  cases hkept
  exact hkind

theorem tieData_does (hsound : reduce.Sound)
    (hmissing : ((s.heap.closure? function).map Closure.missing).getD 0 = 1) :
    Does rest lent s (function.holding ::ₘ own) (tie reduce function) (fun r => r.holding ::ₘ own)
      own := by
  intro hvalid
  have hbegin : Moves lent s (function.holding ::ₘ own) _ _ := newKnot_moves
  have hvalid₀ : (s.on fun m => (m.newObject (.application (.knot .unresolved))).2).heap.Valid
      (function.holding ::ₘ own + (Handle.plain s.heap.nextObject).holding ::ₘ rest) := by
    convert hbegin.valid rest hvalid using 1
    rw [Multiset.add_cons, ← Multiset.cons_add]
  have huntil := untilValue_does hsound
    (Multiset.mem_cons_self _ rest) (Set.mem_insert _ lent) hvalid₀
  cases hrun : untilValue reduce function (.plain s.heap.nextObject)
    (s.on fun m => (m.newObject (.application (.knot .unresolved))).2) with
  | error signal s₁ =>
    rw [hrun] at huntil
    rw [tie_run_of_error hmissing hrun]
    exact (hbegin.trans (Moves.around huntil)).trans (.release s₁ _)
  | ok r s₁ =>
    obtain ⟨saturated, value⟩ := r
    rw [hrun] at huntil
    have hknot := unresolved_until hvalid₀ huntil
    rw [tie_run_of_ok hmissing hrun hknot]
    have hcourse := Moves.around huntil
    have hlive : s₁.heap.IsLive value.edge :=
      (Moves.valid huntil _ hvalid₀).counted.live _ (by simp [Handle.holding])
    refine Moves.tied [saturated, .plain s.heap.nextObject] (hcourse.conv rfl ?_) hknot hlive
    simp only [List.map_cons, List.map_nil, ← Multiset.cons_coe, Multiset.coe_nil,
      ← Multiset.singleton_add]
    abel

theorem tie_does (hsound : reduce.Sound) :
    Does rest lent s (function.holding ::ₘ own) (tie reduce function) (fun r => r.holding ::ₘ own)
      own := by
  rcases hmissing : ((s.heap.closure? function).map Closure.missing).getD 0 with _ | _ | missing
  · rw [tie]
    refine .inspect ?_
    dsimp only
    rw [hmissing]
    exact refuseTie_does
  · exact tieData_does hsound hmissing
  · rw [tie]
    refine .inspect ?_
    dsimp only
    rw [hmissing]
    exact .releasing (bindSelf_does (Set.mem_insert _ _) (Multiset.mem_cons_self _ _))

end GraphReduction.Run
