import Mathlib
import GraphReduction.Proofs.Types.Canonical

/-! What the searches of a type find. They keep a stack of subtrees, with the leftmost on top, and
the stack stands for its leaves from left to right; so they see the leaves that the tree has, in the
order of the tree. Replacing a variable takes its leaves out and puts those of the replacement in. -/
namespace GraphReduction.Ty

theorem isGround_iff (t : Ty) : t.isGround = true ↔ t.leaves = [] := by
  rw [isGround, List.isEmpty_iff, List.eq_nil_iff_forall_not_mem, List.eq_nil_iff_forall_not_mem]
  simp only [mem_freeVars]

/-- The free variables are the leaves from left to right, each where it stands first. A variable
occurs if it is one of them, and a type is ground if there is none. -/
theorem searches_find_leaves (t : Ty) :
    t.freeVars = t.leaves.eraseDups ∧
      (∀ v, (t.occurs v = true ↔ v ∈ t.freeVars) ∧ (v ∈ t.freeVars ↔ v ∈ t.leaves)) ∧
      (t.isGround = true ↔ t.leaves = []) := by
  have hoccurs : ∀ v, t.occurs v = true ↔ v ∈ t.freeVars := fun v =>
    (t.occurs_iff v).trans mem_freeVars.symm
  exact ⟨t.freeVars_eq, fun v => ⟨hoccurs v, mem_freeVars⟩, t.isGround_iff⟩

/-- The parameter is searched to its end before the result. -/
example :
    (arrow (arrow (var ⟨2⟩) (var ⟨1⟩)) (arrow (var ⟨2⟩) (var ⟨3⟩))).freeVars = [⟨2⟩, ⟨1⟩, ⟨3⟩] := by
  cbv

/-! Leaves after a replacement -/

variable {t image : Ty} {v w : VarId}

theorem substitute_of_not_mem (habsent : v ∉ t.leaves) : t.substitute v image = t := by
  induction t with
  | named name => rfl
  | arrow parameter result ihp ihr =>
    rw [leaves, List.mem_append, not_or] at habsent
    rw [substitute, ihp habsent.1, ihr habsent.2]
  | var id =>
    rw [leaves, List.mem_singleton] at habsent
    exact if_neg (Ne.symm habsent)

theorem mem_leaves_substitute_iff :
    w ∈ (t.substitute v image).leaves ↔
      w ∈ t.leaves ∧ w ≠ v ∨ v ∈ t.leaves ∧ w ∈ image.leaves := by
  induction t with
  | named name => simp [substitute, leaves]
  | arrow parameter result ihp ihr =>
    simp only [substitute, leaves, List.mem_append, ihp, ihr]
    rw [or_and_right, or_and_right]
    exact or_or_or_comm
  | var id =>
    by_cases hhere : id = v
    · subst hhere
      simp [substitute, leaves]
    · simp only [substitute, hhere, if_false, leaves, List.mem_singleton, Ne.symm hhere, false_and,
        or_false]
      exact ⟨fun h => ⟨h, h ▸ hhere⟩, And.left⟩

end GraphReduction.Ty
