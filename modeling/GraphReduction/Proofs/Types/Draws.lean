import Mathlib
import GraphReduction.Proofs.Types.Variants
import GraphReduction.Proofs.Types.Visit

/-! A walk over any heap draws variables from the supply, and does nothing else to it. -/
namespace GraphReduction

namespace Heap

variable {m : Heap}

theorem draws_application (w : Walk) (function argument : Ty) :
    w.vars.Draws (w.application function argument).2.vars := w.vars.draws_fresh

theorem draws_enter {parts : Walk → Ty × Walk}
    (hparts : ∀ w : Walk, w.vars.Draws (parts w).2.vars) (o : ObjectId) (w : Walk) :
    w.vars.Draws (visit.enter o parts w).2.vars :=
  w.vars.draws_fresh.trans (hparts (w.meet o))

theorem draws_arguments {inside : Option Handle → Walk → Ty × Walk}
    (hinside : ∀ h? (w : Walk), w.vars.Draws (inside h? w).2.vars) (slots : List ThunkId)
    (start : Ty × Walk) :
    start.2.vars.Draws (slots.foldl (fun (t, w) slot =>
      let (argument, w) := inside (m.slotHandle? slot) w
      w.application t argument) start).2.vars := by
  refine List.foldlRecOn slots _
    (motive := fun reached : Ty × Walk => start.2.vars.Draws reached.2.vars) (.refl _) ?_
  intro reached hreached slot _
  exact hreached.trans ((hinside _ _).trans (draws_application _ _ _))

theorem draws_visitClosure {inside : Option Handle → Walk → Ty × Walk}
    (hinside : ∀ h? (w : Walk), w.vars.Draws (inside h? w).2.vars) (c : Closure) (w : Walk) :
    w.vars.Draws (visit.visitClosure m inside c w).2.vars :=
  (Ty.draws_instantiate (m.declared c) w.vars).trans (draws_arguments hinside c.arguments
    (((m.declared c).instantiate w.vars).1,
      { w with vars := ((m.declared c).instantiate w.vars).2 }))

theorem draws_visit (m : Heap) (depth : Nat) (h? : Option Handle) (w : Walk) :
    w.vars.Draws (m.visit depth h? w).2.vars := by
  induction depth generalizing h? w with
  | zero => exact w.vars.draws_fresh
  | succ depth ih =>
    cases h? with
    | none => exact w.vars.draws_fresh
    | some h =>
      rw [visit]
      split
      · exact w.vars.draws_fresh
      split
      · exact .refl _
      · split
        · exact draws_visitClosure ih _ w
        · exact draws_enter (draws_visitClosure ih _) _ w
      · exact draws_enter (fun _ => .refl _) _ w
      · exact draws_enter (fun w => w.vars.draws_fresh) _ w
      · exact draws_enter (ih _) _ w
      · exact draws_enter (ih _) _ w
      · exact draws_enter
          (fun w => (ih _ w).trans ((ih _ _).trans (draws_application _ _ _))) _ w
      · exact w.vars.draws_fresh

theorem next_visit_le (m : Heap) (depth : Nat) (h? : Option Handle) (w : Walk) :
    w.vars.next ≤ (m.visit depth h? w).2.vars.next := (m.draws_visit depth h? w).next

theorem next_typeOf_le (m : Heap) (h : Handle) (vars : VarSupply) :
    vars.next ≤ (m.typeOf h vars).2.next := by
  have hwalk := m.next_visit_le m.visitDepth (some h) { vars }
  rw [typeOf]
  dsimp only
  split
  · exact hwalk
  · exact hwalk.trans (Ty.next_generalize _ _)

end Heap

end GraphReduction
