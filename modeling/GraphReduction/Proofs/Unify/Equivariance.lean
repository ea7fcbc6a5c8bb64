import Mathlib
import GraphReduction.Unify.Solve
import GraphReduction.Proofs.Types.Variants

/-! Solving does not look at the names of variables. Equations renamed one-to-one go through the
same steps, so they have the renamed solution or fail with the renamed sides, and the renamed
solution does to renamed types what the solution does to types. -/
namespace GraphReduction

variable {σ : VarId → VarId}

namespace Ty

theorem rename_injective (hinj : Function.Injective σ) : Function.Injective (rename σ) := by
  intro t
  induction t with
  | named name => intro u h; cases u <;> simp_all
  | var id =>
    intro u h
    cases u with
    | var id' => exact congrArg var (hinj (var.inj h))
    | named | arrow => cases h
  | arrow parameter result ihp ihr =>
    intro u h
    cases u with
    | arrow parameter' result' =>
      obtain ⟨hp, hr⟩ := arrow.inj h
      rw [ihp hp, ihr hr]
    | named | var => cases h

theorem occurs_rename (hinj : Function.Injective σ) (t : Ty) (v : VarId) :
    (t.rename σ).occurs (σ v) = t.occurs v := by
  rw [Bool.eq_iff_iff, occurs_iff, occurs_iff, leaves_rename, List.mem_map_of_injective hinj]

theorem rename_substitute (hinj : Function.Injective σ) (t : Ty) (v : VarId) (image : Ty) :
    (t.substitute v image).rename σ = (t.rename σ).substitute (σ v) (image.rename σ) := by
  induction t with
  | named name => rfl
  | arrow parameter result ihp ihr => simp [substitute, ihp, ihr]
  | var id => by_cases hsame : id = v <;> simp [substitute, hsame, hinj.eq_iff]

end Ty

namespace Equation

def rename (σ : VarId → VarId) (e : Equation) : Equation :=
  ⟨e.expected.rename σ, e.actual.rename σ⟩

theorem rename_substitute (hinj : Function.Injective σ) (e : Equation) (v : VarId) (t : Ty) :
    (e.substitute v t).rename σ = (e.rename σ).substitute (σ v) (t.rename σ) := by
  simp [rename, substitute, Ty.rename_substitute hinj]

end Equation

namespace UnifyError

def rename (σ : VarId → VarId) : UnifyError → UnifyError
  | typeMismatch expected actual => typeMismatch (expected.rename σ) (actual.rename σ)
  | circularConstraint v within => circularConstraint (σ v) (within.rename σ)

end UnifyError

namespace Substitution

def rename (σ : VarId → VarId) (s : Substitution) : Substitution :=
  ⟨s.bindings.map fun b => (σ b.1, b.2.rename σ)⟩

theorem rename_bind (hinj : Function.Injective σ) (s : Substitution) (v : VarId) (t : Ty) :
    (s.bind v t).rename σ = (s.rename σ).bind (σ v) (t.rename σ) := by
  simp [rename, bind, Ty.rename_substitute hinj, Function.comp_def]

@[simp] theorem size_rename (σ : VarId → VarId) (s : Substitution) :
    (s.rename σ).size = s.size := by simp [size, rename]

theorem lookup_rename (hinj : Function.Injective σ) (s : Substitution) (v : VarId) :
    (s.rename σ).lookup (σ v) = (s.lookup v).map (Ty.rename σ) := by
  obtain ⟨bindings⟩ := s
  change (bindings.map fun b => (σ b.1, b.2.rename σ)).lookup (σ v) = _
  induction bindings with
  | nil => rfl
  | cons b bindings ih =>
    by_cases hsame : v = b.1
    · subst hsame
      rw [List.map_cons, List.lookup_cons_self]
      exact congrArg (Option.map (Ty.rename σ)) List.lookup_cons_self.symm
    · rw [List.map_cons, Ty.lookup_cons_of_ne (hinj.ne hsame), ih]
      exact congrArg (Option.map (Ty.rename σ)) (Ty.lookup_cons_of_ne hsame _ _).symm

theorem applyInOrder_rename (hinj : Function.Injective σ) (s : Substitution) (t : Ty) :
    (s.rename σ).applyInOrder (t.rename σ) = (s.applyInOrder t).rename σ := by
  obtain ⟨bindings⟩ := s
  induction bindings generalizing t with
  | nil => rfl
  | cons b bindings ih =>
    have hfirst := ih (t.substitute b.1 b.2)
    rwa [Ty.rename_substitute hinj] at hfirst

theorem applyAtOnce_rename (hinj : Function.Injective σ) (s : Substitution) (t : Ty) :
    (s.rename σ).applyAtOnce (t.rename σ) = (s.applyAtOnce t).rename σ := by
  induction t with
  | named name => rfl
  | arrow parameter result ihp ihr => simp [applyAtOnce, ihp, ihr]
  | var id =>
    rw [Ty.rename_var, applyAtOnce, applyAtOnce, lookup_rename hinj]
    cases s.lookup id <;> rfl

theorem apply_rename (hinj : Function.Injective σ) (s : Substitution) (t : Ty) :
    (s.rename σ).apply (t.rename σ) = (s.apply t).rename σ := by
  unfold apply
  rw [size_rename]
  split
  · exact applyAtOnce_rename hinj s t
  · exact applyInOrder_rename hinj s t

end Substitution

namespace Unify

def renamed (σ : VarId → VarId) : Except UnifyError Substitution → Except UnifyError Substitution
  | .ok s => .ok (s.rename σ)
  | .error error => .error (error.rename σ)

namespace State

def rename (σ : VarId → VarId) (st : State) : State :=
  ⟨st.pending.map (Equation.rename σ), st.solved.rename σ⟩

theorem rename_bind (hinj : Function.Injective σ) (st : State) (v : VarId) (t : Ty) :
    (st.bind v t).rename σ = (st.rename σ).bind (σ v) (t.rename σ) := by
  simp [rename, bind, Substitution.rename_bind hinj, Equation.rename_substitute hinj]

/-- The second step leads to the renaming of what the first leads to. -/
def Follows {st st' : State} (σ : VarId → VarId) : Progress st → Progress st' → Prop
  | .solved s, .solved s' => s' = s.rename σ
  | .failed error, .failed error' => error' = error.rename σ
  | .more next _, .more next' _ => next' = next.rename σ
  | _, _ => False

theorem follows_bindIn (hinj : Function.Injective σ) {whole whole' st : State} {v : VarId} {t : Ty}
    (present image rest present' image' rest') :
    Follows σ (bindIn whole st v t present image rest)
      (bindIn whole' (st.rename σ) (σ v) (t.rename σ) present' image' rest') := by
  unfold bindIn
  by_cases hoccurs : t.occurs v = true
  · rw [dif_pos hoccurs, dif_pos ((Ty.occurs_rename hinj t v).trans hoccurs)]
    rfl
  · rw [dif_neg hoccurs, dif_neg (by rwa [Ty.occurs_rename hinj])]
    exact (rename_bind hinj st v t).symm

theorem follows_step (hinj : Function.Injective σ) (st : State) :
    Follows σ st.step (st.rename σ).step := by
  obtain ⟨_ | ⟨⟨expected, actual⟩, rest⟩, solved⟩ := st
  · rfl
  change Follows σ _ (step ⟨⟨expected.rename σ, actual.rename σ⟩ :: rest.map (Equation.rename σ),
    solved.rename σ⟩)
  by_cases hsame : expected = actual
  · subst hsame
    simp only [step, if_true]
    rfl
  have hdiffer : expected.rename σ ≠ actual.rename σ := (Ty.rename_injective hinj).ne hsame
  simp only [step, if_neg hsame, if_neg hdiffer]
  cases expected with
  | var v => exact follows_bindIn hinj ..
  | named a =>
    cases actual with
    | var v => exact follows_bindIn hinj ..
    | named | arrow => rfl
  | arrow p r =>
    cases actual with
    | var v => exact follows_bindIn hinj ..
    | named | arrow => rfl

theorem run_rename (hinj : Function.Injective σ) (st : State) :
    (st.rename σ).run = renamed σ st.run := by
  -- On the recursion of the unifier: a renamed state takes the renamed step.
  induction st using run.induct with
  | case1 st s hstep =>
    have hfollows := follows_step hinj st
    rw [run, run, hstep]
    rw [hstep] at hfollows
    generalize (st.rename σ).step = progress at hfollows ⊢
    cases progress with
    | solved s' => exact congrArg Except.ok hfollows
    | failed | more => exact hfollows.elim
  | case2 st error hstep =>
    have hfollows := follows_step hinj st
    rw [run, run, hstep]
    rw [hstep] at hfollows
    generalize (st.rename σ).step = progress at hfollows ⊢
    cases progress with
    | failed error' => exact congrArg Except.error hfollows
    | solved | more => exact hfollows.elim
  | case3 st next below hstep ih =>
    have hfollows := follows_step hinj st
    rw [run, run, hstep]
    rw [hstep] at hfollows
    generalize (st.rename σ).step = progress at hfollows ⊢
    cases progress with
    | more next' below' =>
      obtain rfl : next' = next.rename σ := hfollows
      exact ih
    | solved | failed => exact hfollows.elim

end State

end Unify

theorem unify_rename (hinj : Function.Injective σ) (equations : List Equation) :
    unify (equations.map (Equation.rename σ)) = Unify.renamed σ (unify equations) :=
  Unify.State.run_rename hinj { pending := equations }

end GraphReduction
