import Mathlib
import GraphReduction.Proofs.Types.Checked
import GraphReduction.Proofs.Types.Shift
import GraphReduction.Proofs.Unify.Equivariance

/-! Where a walk starts to draw does not matter, as long as no tag has variables. A walk that starts
later takes the same steps, with every variable moved on by the same distance, around the end of the
identities if need be; and solving commutes with that. So a check can only fail for want of
variables if it draws too many itself. -/
namespace GraphReduction

open VarSupply Walk

namespace Walk

variable {distance : Nat} {parts : Walk → Ty × Walk} {w : Walk}

/-- The walk, with so many more variables drawn before. -/
def moved (distance : Nat) (w : Walk) : Walk where
  vars := { w.vars with next := w.vars.next + distance }
  constraints := ⟨w.constraints.equations.map (Equation.rename (shift 0 distance))⟩
  seen := w.seen.map fun p => (p.1, shift 0 distance p.2)

/-- A part of a walk that does not care where the walk started to draw. -/
def Commutes (distance : Nat) (part : Walk → Ty × Walk) : Prop :=
  ∀ w, part (w.moved distance) =
    ((part w).1.rename (shift 0 distance), (part w).2.moved distance)

theorem fresh_moved (distance : Nat) (w : Walk) :
    (w.moved distance).vars.fresh.1 = shift 0 distance w.vars.fresh.1 :=
  shift_fresh (Nat.zero_le _) rfl (.inl rfl)

theorem next_fresh_moved (distance : Nat) (w : Walk) :
    (w.moved distance).vars.fresh.2 =
      { w.vars.fresh.2 with next := w.vars.fresh.2.next + distance } := by
  show { w.vars with next := w.vars.next + distance + 1 } =
    { w.vars with next := w.vars.next + 1 + distance }
  rw [Nat.add_right_comm]

theorem push_moved (distance : Nat) (w : Walk) (t u : Ty) :
    (w.moved distance).push (t.rename (shift 0 distance)) (u.rename (shift 0 distance)) =
      (w.push t u).moved distance := by
  simp [push, moved, Constraints.push, Equation.rename]

theorem meet_moved (distance : Nat) (w : Walk) (o : ObjectId) :
    (w.moved distance).meet o = (w.meet o).moved distance := by
  rw [meet, fresh_moved, next_fresh_moved]
  rfl

theorem Commutes.enter (h : Commutes distance parts) (o : ObjectId) :
    Commutes distance (Heap.visit.enter o parts) := fun w => by
  have hparts : parts ((w.moved distance).meet o) = _ := (meet_moved distance w o).symm ▸ h (w.meet o)
  show (Ty.var (w.moved distance).vars.fresh.1,
    (parts ((w.moved distance).meet o)).2.push (.var (w.moved distance).vars.fresh.1)
      (parts ((w.moved distance).meet o)).1) = _
  rw [hparts, fresh_moved]
  exact congrArg (Prod.mk _) (push_moved distance (parts (w.meet o)).2 (.var w.vars.fresh.1) _)

end Walk

namespace Heap

variable {m : Heap} {distance : Nat} {inside : Option Handle → Walk → Ty × Walk}

section Ground

variable (hground : ∀ o v, m.kind? (.plain o) = some (.value v) → v.type.leaves = [])
include hground

end Ground

end Heap

end GraphReduction
