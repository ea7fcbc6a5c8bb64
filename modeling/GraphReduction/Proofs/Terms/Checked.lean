import Mathlib
import GraphReduction.Proofs.Terms.RoleTypes
import GraphReduction.Proofs.Types.Moved

/-! The check of a result passes. A closure that runs has no role, but its arguments were made from
things that have types, except for the self reference of a data fixpoint, which can have any type.
So there is a type for everything behind the closure and behind its result, and the closure has the
type of the result. -/
namespace GraphReduction

open Heap

/-- The types that roles give while a closure runs: it has the type of its result, and everything
else without a role has the type that is expected of the self reference. -/
def Roles.typingRun (R : Roles Ty) (closure : ObjectId) (x y : Ty) : Typing where
  tags := .var
  object := Function.update (fun o => ((R.object o).map Role.type).getD y) closure x

variable {m : Heap} {R : Roles Ty} {held rest : Multiset Holding} {closure result : Handle}
  {c : Closure} {p : Primitive} {args : List Ty} {x y z : Ty} {n k : Nat} {o o' : ObjectId}
  {slot : ThunkId} {whole : Term}

theorem Roles.keeps_typingRun (hnone : R.object o = none) : (R.typingRun o x y).Keeps R where
  tags := rfl
  object o' role hrole := by
    have hne : o' ≠ o := by
      rintro rfl
      cases hnone.symm.trans hrole
    simp [typingRun, Function.update_of_ne hne, hrole]

theorem Roles.typingRun_self : (R.typingRun o x y).object o = x := by simp [typingRun]

theorem Roles.typingRun_of_none (hne : o' ≠ o) (hnone : R.object o' = none) :
    (R.typingRun o x y).object o' = y := by
  simp [typingRun, Function.update_of_ne hne, hnone]

theorem Roles.Slot.hole_or_stands (hslot : R.Slot (Ty.labelling whole) m n slot z)
    (hup : (Ty.labelling whole).Upholds m R held) {g : Handle} (hlook : m.slotHandle? slot = some g) :
    R.Hole (Ty.labelling whole) m g z ∨ ∃ k, R.Stands (Ty.labelling whole) g z k := by
  cases hslot with
  | made hmade => exact .inr (hmade.stands_of_slotHandle? hup hlook)
  | @knot h _ _ hhole hpending =>
    obtain ⟨state, hstate, hsame⟩ := exists_state_of_slotHandle? hlook
    exact .inl (hsame h (.inl (hpending state hstate)) ▸ hhole)

namespace Roles.Runs

variable (hruns : R.Runs (Ty.labelling whole) m held o c p args x n) (hup : (Ty.labelling whole).Upholds m R rest)
include hruns hup

theorem allows_slot (hslot : R.Slot (Ty.labelling whole) m n slot z)
    (hmade : R.Made (Ty.labelling whole) n slot z ∨ z = y) :
    (R.typingRun o x y).Allows m (m.slotHandle? slot) z := by
  have hkeeps : (R.typingRun o x y).Keeps R := keeps_typingRun hruns.supplies.noRole
  obtain hmade | rfl := hmade
  · exact hkeeps.allows_slot hup hmade
  cases hlook : m.slotHandle? slot with
  | none => exact Typing.allows_of_anything rfl z
  | some g =>
    obtain hhole | ⟨k, hstands⟩ := hslot.hole_or_stands hup hlook
    · cases hkind : m.kind? g with
      | none => exact Typing.allows_of_anything (occurrence_of_gone hkind) z
      | some kind =>
        obtain rfl := hhole.kind kind hkind
        obtain ⟨memo, hclosure⟩ := hruns.supplies.kind
        rw [Typing.allows_object (occurrence_of_kind (by simp [Handle.isException, hhole.tag]) hkind
          (by simp)), typingRun_of_none (hhole.ne_of_closure hclosure) hhole.noRole]
    · exact hkeeps.allows hup hstands

theorem bound_ne_zero {memo : Memo} (hkind : m.kindOf? o = some (.closure { c with memo })) :
    ({ c with memo } : Closure).bound ≠ 0 := by
  have htotal := (hup.valid.proper _ _ hkind).total_eq
  have hlength : ({ c with memo } : Closure).arguments.length = p.arity :=
    hruns.supplies.arguments.length_eq.trans hruns.length
  have hpos := p.arity_pos
  rw [Closure.bound]
  omega

theorem allows (htarget : closure.target = o) (htag : closure.tag = .plain) :
    (R.typingRun o x y).Allows m (some closure) x := by
  subst htarget
  obtain ⟨memo, hkind⟩ := hruns.supplies.kind
  have hbound := hruns.bound_ne_zero hup hkind
  rw [Typing.allows_object (occurrence_of_kind (by simp [Handle.isException, htag]) hkind
    (by rintro _ ⟨⟩; exact hbound)), typingRun_self]

end Roles.Runs

end GraphReduction
