import Mathlib
import GraphReduction.Proofs.Unify.MostGeneral
import GraphReduction.Proofs.Types.Variants

/-! What the order of equations matters to. Equations in another order, some of them turned around,
have the same solutions. Two most general solutions of them are instances of each other on every
type, so they differ in the names that are left and in nothing that generalizing keeps. -/
namespace GraphReduction

namespace Equation

def swap (e : Equation) : Equation := ⟨e.actual, e.expected⟩

/-- The second list has the equations of the first in some order, some of them turned around. -/
def Reordered (equations equations' : List Equation) : Prop :=
  ∃ moved, equations.Perm moved ∧ List.Forall₂ (fun e e' => e' = e ∨ e' = e.swap) moved equations'

theorem holdsIn_swap (e : Equation) (θ : Assignment) : e.swap.HoldsIn θ ↔ e.HoldsIn θ := eq_comm

end Equation

namespace Assignment

theorem solves_perm {equations moved : List Equation} (hperm : equations.Perm moved)
    (θ : Assignment) : θ.Solves equations ↔ θ.Solves moved :=
  forall_congr' fun _ => imp_congr_left hperm.mem_iff

theorem solves_reordered {equations equations' : List Equation}
    (h : Equation.Reordered equations equations') (θ : Assignment) :
    θ.Solves equations ↔ θ.Solves equations' := by
  obtain ⟨moved, hperm, hturned⟩ := h
  rw [solves_perm hperm]
  clear hperm
  induction hturned with
  | nil => rfl
  | cons hhead _ ih =>
    rw [solves_cons, solves_cons, ih]
    rcases hhead with rfl | rfl
    · rfl
    · rw [Equation.holdsIn_swap]

end Assignment

theorem exists_unify_ok_iff (equations : List Equation) :
    (∃ s, unify equations = .ok s) ↔ ∃ θ : Assignment, θ.Solves equations := by
  constructor
  · rintro ⟨s, h⟩
    obtain ⟨hsolutions, hidem⟩ := holdsIn_of_unify h
    exact ⟨_, (hsolutions _).1 (Substitution.holdsIn_toAssignment hidem)⟩
  · rintro ⟨θ, hθ⟩
    cases h : unify equations with
    | ok s => exact ⟨s, rfl⟩
    | error error =>
      obtain ⟨hsides, hclash⟩ := clash_of_unify h
      exact absurd (hsides θ hθ) (hclash.unsolvable θ)

/-- What one substitution found makes of a type is an instance of what another makes of it, if the
equations have the same solutions. -/
theorem isInstanceOf_apply {equations equations' : List Equation} {s s' : Substitution}
    (h : unify equations = .ok s) (h' : unify equations' = .ok s')
    (hsame : ∀ θ : Assignment, θ.Solves equations' → θ.Solves equations) (t : Ty) :
    (s'.apply t).IsInstanceOf (s.apply t) := by
  obtain ⟨hsolutions, hidem⟩ := holdsIn_of_unify h
  obtain ⟨hsolutions', hidem'⟩ := holdsIn_of_unify h'
  have hsolves' : s'.toAssignment.Solves equations' :=
    (hsolutions' _).1 (Substitution.holdsIn_toAssignment hidem')
  have hholds : s.HoldsIn s'.toAssignment := (hsolutions _).2 (hsame _ hsolves')
  refine ⟨s'.toAssignment, ?_⟩
  rw [Substitution.apply_eq_subst hidem, Substitution.apply_eq_subst hidem',
    Substitution.subst_toAssignment hholds]

/-- The order of the equations and of their sides decides neither whether solving succeeds nor what
a type generalizes to under the result. The second type may be generalized at any time after the
first. -/
theorem unify_reordered {equations equations' : List Equation}
    (h : Equation.Reordered equations equations') :
    ((∃ s, unify equations = .ok s) ↔ ∃ s, unify equations' = .ok s) ∧
      ∀ s s', unify equations = .ok s → unify equations' = .ok s' →
        ∀ (t : Ty) (vars vars' : VarSupply), ((s.apply t).generalize vars).2.Precedes vars' →
          ((s.apply t).generalize vars).1 = ((s'.apply t).generalize vars').1 := by
  have hsame := Assignment.solves_reordered h
  constructor
  · rw [exists_unify_ok_iff, exists_unify_ok_iff]
    exact exists_congr hsame
  · intro s s' hok hok' t vars vars' hlater
    have hforth := isInstanceOf_apply hok hok' (fun θ => (hsame θ).2) t
    have hback := isInstanceOf_apply hok' hok (fun θ => (hsame θ).1) t
    exact (Ty.generalize_eq_of_instances hback hforth hlater).symm

/-- Which of two equal variables is bound depends on the order; the result does not. -/
theorem unify_reordered_pair :
    unify [⟨.var ⟨1⟩, .var ⟨2⟩⟩, ⟨.var ⟨3⟩, .arrow (.var ⟨1⟩) .int⟩] =
        .ok ⟨[(⟨1⟩, .var ⟨2⟩), (⟨3⟩, .arrow (.var ⟨2⟩) .int)]⟩ ∧
      unify [⟨.arrow (.var ⟨1⟩) .int, .var ⟨3⟩⟩, ⟨.var ⟨2⟩, .var ⟨1⟩⟩] =
        .ok ⟨[(⟨3⟩, .arrow (.var ⟨1⟩) .int), (⟨2⟩, .var ⟨1⟩)]⟩ ∧
      (Ty.generalize (.arrow (.var ⟨2⟩) .int) { next := 4 }).1 =
        (Ty.generalize (.arrow (.var ⟨1⟩) .int) { next := 5, generics := #[⟨4⟩] }).1 := by
  have hok : unify [⟨.var ⟨1⟩, .var ⟨2⟩⟩, ⟨.var ⟨3⟩, .arrow (.var ⟨1⟩) .int⟩] =
      .ok ⟨[(⟨1⟩, .var ⟨2⟩), (⟨3⟩, .arrow (.var ⟨2⟩) .int)]⟩ := by cbv
  have hok' : unify [⟨.arrow (.var ⟨1⟩) .int, .var ⟨3⟩⟩, ⟨.var ⟨2⟩, .var ⟨1⟩⟩] =
      .ok ⟨[(⟨3⟩, .arrow (.var ⟨1⟩) .int), (⟨2⟩, .var ⟨1⟩)]⟩ := by cbv
  have hreordered : Equation.Reordered
      [⟨.var ⟨1⟩, .var ⟨2⟩⟩, ⟨.var ⟨3⟩, .arrow (.var ⟨1⟩) .int⟩]
      [⟨.arrow (.var ⟨1⟩) .int, .var ⟨3⟩⟩, ⟨.var ⟨2⟩, .var ⟨1⟩⟩] :=
    ⟨[⟨.var ⟨3⟩, .arrow (.var ⟨1⟩) .int⟩, ⟨.var ⟨1⟩, .var ⟨2⟩⟩], .swap _ _ _,
      .cons (.inr rfl) (.cons (.inr rfl) .nil)⟩
  refine ⟨hok, hok', ?_⟩
  have hsame := (unify_reordered hreordered).2 _ _ hok hok' (.var ⟨3⟩) { next := 4 }
    { next := 5, generics := #[⟨4⟩] } ⟨by cbv, ⟨[], by cbv⟩⟩
  exact hsame

end GraphReduction
