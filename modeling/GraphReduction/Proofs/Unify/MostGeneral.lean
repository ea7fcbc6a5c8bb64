import Mathlib
import GraphReduction.Proofs.Unify.Assignment

/-! What solving equations achieves. A state of the solver has the solutions of its worklist that
also satisfy the bindings found so far. Every step keeps these solutions and keeps bound variables
out of what is left, so at the end the bindings alone have the solutions of the first equations:
they are a most general solution. When solving fails, the reported pair is equal in every solution
and yet can never be equal. -/
namespace GraphReduction

namespace UnifyError

/-- The two sides that no assignment makes equal. -/
def equation : UnifyError → Equation
  | typeMismatch expected actual => ⟨expected, actual⟩
  | circularConstraint v within => ⟨.var v, within⟩

/-- Why the two sides have no common image: a name is neither another name nor a function type,
and a variable is not a larger type around itself. -/
def Clash : UnifyError → Prop
  | typeMismatch expected actual =>
    (∃ a b, a ≠ b ∧ expected = .named a ∧ actual = .named b) ∨
      ∃ a p r, expected = .named a ∧ actual = .arrow p r ∨ expected = .arrow p r ∧ actual = .named a
  | circularConstraint v within => v ∈ within.leaves ∧ within ≠ .var v

theorem Clash.unsolvable {error : UnifyError} (h : error.Clash) (θ : Assignment) :
    error.equation.expected.subst θ ≠ error.equation.actual.subst θ := by
  intro hsame
  cases error with
  | circularConstraint v within => exact Ty.ne_subst_of_mem h.1 h.2 θ hsame
  | typeMismatch expected actual =>
    rcases h with ⟨a, b, hne, rfl, rfl⟩ | ⟨a, p, r, ⟨rfl, rfl⟩ | ⟨rfl, rfl⟩⟩
    · exact hne (Ty.named.inj hsame)
    · cases hsame
    · cases hsame

end UnifyError

namespace Unify.State

/-- The assignment satisfies what is left and what has been found. -/
def SolvedBy (st : State) (θ : Assignment) : Prop := θ.Solves st.pending ∧ st.solved.HoldsIn θ

/-- Bound variables are gone: from the worklist and from the bound types. -/
structure Eliminated (st : State) : Prop where
  idempotent : st.solved.Idempotent
  pending : ∀ v ∈ st.leaves, v ∉ st.solved.bound

theorem holdsIn_bind {s : Substitution} {v : VarId} {t : Ty} {θ : Assignment} :
    (s.bind v t).HoldsIn θ ↔ s.HoldsIn θ ∧ θ v = t.subst θ := by
  constructor
  · intro h
    have hv : θ v = t.subst θ := h (v, t) (by simp)
    refine ⟨fun b hb => ?_, hv⟩
    have hmoved : (b.1, b.2.substitute v t) ∈ (s.bind v t).bindings := by
      rw [Substitution.bindings_bind]
      exact List.mem_append_left _ (List.mem_map_of_mem hb)
    have := h _ hmoved
    rwa [Ty.subst_substitute hv] at this
  · rintro ⟨h, hv⟩ b hb
    simp only [Substitution.bindings_bind, List.mem_append, List.mem_map, List.mem_singleton] at hb
    rcases hb with ⟨c, hc, rfl⟩ | rfl
    · rw [Ty.subst_substitute hv]
      exact h c hc
    · exact hv

theorem solvedBy_bind {st : State} {v : VarId} {t : Ty} {θ : Assignment} :
    (st.bind v t).SolvedBy θ ↔ st.SolvedBy θ ∧ θ v = t.subst θ := by
  simp only [SolvedBy, bind, holdsIn_bind]
  constructor
  · rintro ⟨hpending, hsolved, hv⟩
    exact ⟨⟨(Assignment.solves_substitute hv _).1 hpending, hsolved⟩, hv⟩
  · rintro ⟨⟨hpending, hsolved⟩, hv⟩
    exact ⟨(Assignment.solves_substitute hv _).2 hpending, hsolved, hv⟩

theorem bound_bind (s : Substitution) (v : VarId) (t : Ty) : (s.bind v t).bound = s.bound ++ [v] := by
  simp [Substitution.bound]

theorem idempotent_bind {s : Substitution} {v : VarId} {t : Ty} (h : s.Idempotent)
    (hnew : v ∉ s.bound) (habsent : v ∉ t.leaves) (hfree : ∀ w ∈ t.leaves, w ∉ s.bound) :
    (s.bind v t).Idempotent := by
  constructor
  · rw [bound_bind]
    exact List.nodup_append.2 ⟨h.nodup, by simp, fun w hw u hu heq => hnew (by simp_all)⟩
  · intro b hb w hw
    rw [bound_bind, List.mem_append, List.mem_singleton, not_or]
    simp only [Substitution.bindings_bind, List.mem_append, List.mem_map, List.mem_singleton] at hb
    rcases hb with ⟨c, hc, rfl⟩ | rfl
    · rcases mem_leaves_substitute hw with ⟨hold, hne⟩ | ⟨_, himage⟩
      · exact ⟨h.free c hc w hold, hne⟩
      · exact ⟨hfree w himage, fun heq => habsent (heq ▸ himage)⟩
    · exact ⟨hfree w hw, fun heq => habsent (heq ▸ hw)⟩

theorem eliminated_bind {e : Equation} {rest : List Equation} {solved : Substitution} {v : VarId}
    {t : Ty} (h : Eliminated ⟨e :: rest, solved⟩) (hv : v ∈ e.leaves)
    (ht : ∀ w ∈ t.leaves, w ∈ e.leaves) (habsent : v ∉ t.leaves) :
    (bind ⟨rest, solved⟩ v t).Eliminated := by
  have hhead : ∀ w ∈ e.leaves, w ∉ solved.bound := fun w hw => h.pending w (by simp [leaves, hw])
  constructor
  · exact idempotent_bind h.idempotent (hhead v hv) habsent fun w hw => hhead w (ht w hw)
  · intro w hw
    obtain ⟨hne, hw⟩ := mem_leaves_bind habsent hw
    have hfree : w ∉ solved.bound := by
      rcases hw with hw | hw
      · exact hhead w (ht w hw)
      · exact h.pending w (by simpa [leaves] using .inr (by simpa [leaves] using hw))
    simpa [bind, bound_bind] using ⟨hfree, hne⟩

/-- What a step does to the solutions and to the variables that are left. -/
def Explains (st : State) : Progress st → Prop
  | .solved s => (∀ θ, s.HoldsIn θ ↔ st.SolvedBy θ) ∧ (st.Eliminated → s.Idempotent)
  | .failed error => (∀ θ, st.SolvedBy θ → error.equation.HoldsIn θ) ∧ error.Clash
  | .more next _ => (∀ θ, next.SolvedBy θ ↔ st.SolvedBy θ) ∧ (st.Eliminated → next.Eliminated)

theorem explains_bindIn {e : Equation} {rest : List Equation} {solved : Substitution} {v : VarId}
    {t : Ty} (present : v ∈ leaves ⟨e :: rest, solved⟩) (image : t.leaves ⊆ leaves ⟨e :: rest, solved⟩)
    (below : leaves ⟨rest, solved⟩ ⊆ leaves ⟨e :: rest, solved⟩) (hv : v ∈ e.leaves)
    (ht : ∀ w ∈ t.leaves, w ∈ e.leaves) (hlarger : t ≠ .var v)
    (hsides : ∀ θ : Assignment, e.HoldsIn θ ↔ θ v = t.subst θ) :
    Explains _ (bindIn ⟨e :: rest, solved⟩ ⟨rest, solved⟩ v t present image below) := by
  unfold bindIn
  split
  · next hoccurs =>
    refine ⟨fun θ h => ?_, (Ty.occurs_iff t v).1 hoccurs, hlarger⟩
    exact (hsides θ).1 ((Assignment.solves_cons θ e rest).1 h.1).1
  · next hoccurs =>
    have habsent : v ∉ t.leaves := fun h => hoccurs ((Ty.occurs_iff t v).2 h)
    refine ⟨fun θ => ?_, fun h => eliminated_bind h hv ht habsent⟩
    rw [solvedBy_bind]
    simp only [SolvedBy, Assignment.solves_cons, hsides]
    constructor
    · rintro ⟨⟨hsolved, hrest⟩, hbound⟩
      exact ⟨⟨hbound, hsolved⟩, hrest⟩
    · rintro ⟨⟨hbound, hsolved⟩, hrest⟩
      exact ⟨⟨hsolved, hrest⟩, hbound⟩

theorem explains_mismatch {expected actual : Ty} {rest : List Equation} {solved : Substitution}
    (hclash : (UnifyError.typeMismatch expected actual).Clash) :
    Explains ⟨⟨expected, actual⟩ :: rest, solved⟩
      (.failed (.typeMismatch expected actual)) :=
  ⟨fun θ h => ((Assignment.solves_cons θ _ rest).1 h.1).1, hclash⟩

theorem explains_split {parameter result parameter' result' : Ty} {rest : List Equation}
    {solved : Substitution} (below) :
    Explains ⟨⟨.arrow parameter result, .arrow parameter' result'⟩ :: rest, solved⟩
      (.more ⟨⟨parameter, parameter'⟩ :: ⟨result, result'⟩ :: rest, solved⟩ below) := by
  refine ⟨fun θ => ?_, fun h => ⟨h.idempotent, fun v hv => h.pending v ?_⟩⟩
  · simp [SolvedBy, Equation.HoldsIn, and_assoc]
  · simp only [leaves, Equation.leaves, Ty.leaves, List.flatMap_cons, List.mem_append] at hv ⊢
    grind

/-- Every rule keeps the solutions, and a failure names two sides that clash. -/
theorem explains_step (st : State) : Explains st st.step := by
  obtain ⟨_ | ⟨⟨expected, actual⟩, rest⟩, solved⟩ := st
  · exact ⟨fun θ => by simp [SolvedBy], fun h => h.idempotent⟩
  by_cases hsame : expected = actual
  · subst hsame
    simp only [step, if_true]
    refine ⟨fun θ => ?_, fun h => ⟨h.idempotent, fun v hv => h.pending v ?_⟩⟩
    · simp [SolvedBy, Equation.HoldsIn]
    · simpa [leaves] using .inr (by simpa [leaves] using hv)
  simp only [step, if_neg hsame]
  cases expected with
  | var v =>
    exact explains_bindIn _ _ _ (by simp [Equation.leaves, Ty.leaves])
      (fun w hw => List.mem_append.2 (.inr hw)) (Ne.symm hsame) fun θ => Iff.rfl
  | named a =>
    cases actual with
    | var v =>
      exact explains_bindIn _ _ _ (by simp [Equation.leaves, Ty.leaves])
        (fun w hw => List.mem_append.2 (.inl hw)) hsame fun θ => eq_comm
    | named b => exact explains_mismatch (.inl ⟨a, b, fun h => hsame (congrArg _ h), rfl, rfl⟩)
    | arrow p r => exact explains_mismatch (.inr ⟨a, p, r, .inl ⟨rfl, rfl⟩⟩)
  | arrow p r =>
    cases actual with
    | var v =>
      exact explains_bindIn _ _ _ (by simp [Equation.leaves, Ty.leaves])
        (fun w hw => List.mem_append.2 (.inl hw)) hsame fun θ => eq_comm
    | named b => exact explains_mismatch (.inr ⟨b, p, r, .inr ⟨rfl, rfl⟩⟩)
    | arrow p' r' => exact explains_split _

/-- What a run does to the solutions and to the bound variables. -/
def Settles (st : State) : Except UnifyError Substitution → Prop
  | .ok s => (∀ θ, s.HoldsIn θ ↔ st.SolvedBy θ) ∧ (st.Eliminated → s.Idempotent)
  | .error error => (∀ θ, st.SolvedBy θ → error.equation.HoldsIn θ) ∧ error.Clash

theorem Settles.of_step {st next : State} {outcome : Except UnifyError Substitution}
    (hsame : ∀ θ, next.SolvedBy θ ↔ st.SolvedBy θ) (hgone : st.Eliminated → next.Eliminated)
    (h : next.Settles outcome) : st.Settles outcome := by
  cases outcome with
  | ok s => exact ⟨fun θ => (h.1 θ).trans (hsame θ), fun hst => h.2 (hgone hst)⟩
  | error error => exact ⟨fun θ hθ => h.1 θ ((hsame θ).2 hθ), h.2⟩

theorem settles_run (st : State) : st.Settles st.run := by
  induction st using run.induct with
  | case1 st s hstep =>
    have hexplains := explains_step st
    rw [hstep] at hexplains
    rw [run, hstep]
    exact hexplains
  | case2 st error hstep =>
    have hexplains := explains_step st
    rw [hstep] at hexplains
    rw [run, hstep]
    exact hexplains
  | case3 st next below hstep ih =>
    have hexplains := explains_step st
    rw [hstep] at hexplains
    rw [run, hstep]
    exact ih.of_step hexplains.1 hexplains.2

theorem solvedBy_initial (equations : List Equation) (θ : Assignment) :
    SolvedBy { pending := equations } θ ↔ θ.Solves equations := by
  simp [SolvedBy, Substitution.HoldsIn]

theorem eliminated_initial (equations : List Equation) : Eliminated { pending := equations } :=
  ⟨⟨by simp [Substitution.bound], by simp⟩, by simp [Substitution.bound]⟩

end Unify.State

/-- The bindings found have the solutions of the equations and do not mention each other. -/
theorem holdsIn_of_unify {equations : List Equation} {s : Substitution}
    (h : unify equations = .ok s) :
    (∀ θ, s.HoldsIn θ ↔ θ.Solves equations) ∧ s.Idempotent := by
  have hsettles := Unify.State.settles_run { pending := equations }
  rw [show Unify.State.run { pending := equations } = .ok s from h] at hsettles
  exact ⟨fun θ => (hsettles.1 θ).trans (Unify.State.solvedBy_initial equations θ),
    hsettles.2 (Unify.State.eliminated_initial equations)⟩

theorem clash_of_unify {equations : List Equation} {error : UnifyError}
    (h : unify equations = .error error) :
    (∀ θ : Assignment, θ.Solves equations → error.equation.HoldsIn θ) ∧ error.Clash := by
  have hsettles := Unify.State.settles_run { pending := equations }
  rw [show Unify.State.run { pending := equations } = .error error from h] at hsettles
  exact ⟨fun θ hθ => hsettles.1 θ ((Unify.State.solvedBy_initial equations θ).2 hθ), hsettles.2⟩

/-- A solution found is one, and every other solution is an instance of it. -/
theorem unify_mostGeneral {equations : List Equation} {s : Substitution}
    (h : unify equations = .ok s) :
    (∀ e ∈ equations, s.apply e.expected = s.apply e.actual) ∧
      ∀ θ : Assignment, (∀ e ∈ equations, e.expected.subst θ = e.actual.subst θ) →
        ∀ t : Ty, (s.apply t).subst θ = t.subst θ := by
  obtain ⟨hsolutions, hidem⟩ := holdsIn_of_unify h
  constructor
  · intro e he
    rw [Substitution.apply_eq_subst hidem, Substitution.apply_eq_subst hidem]
    exact (hsolutions _).1 (Substitution.holdsIn_toAssignment hidem) e he
  · intro θ hθ t
    rw [Substitution.apply_eq_subst hidem]
    exact Substitution.subst_toAssignment ((hsolutions θ).2 hθ) t

/-- A variable that is bound first is replaced when the variable inside its type is bound. -/
theorem unify_mostGeneral_composed :
    unify [⟨.var ⟨1⟩, .arrow (.var ⟨2⟩) (.var ⟨3⟩)⟩, ⟨.var ⟨2⟩, .int⟩] =
      .ok ⟨[(⟨1⟩, .arrow .int (.var ⟨3⟩)), (⟨2⟩, .int)]⟩ ∧
    ∀ θ : Assignment, θ ⟨1⟩ = .arrow (θ ⟨2⟩) (θ ⟨3⟩) → θ ⟨2⟩ = .int →
      Ty.arrow .int (θ ⟨3⟩) = θ ⟨1⟩ := by
  have hok : unify [⟨.var ⟨1⟩, .arrow (.var ⟨2⟩) (.var ⟨3⟩)⟩, ⟨.var ⟨2⟩, .int⟩] =
      .ok ⟨[(⟨1⟩, .arrow .int (.var ⟨3⟩)), (⟨2⟩, .int)]⟩ := by cbv
  refine ⟨hok, fun θ hfirst hsecond => ?_⟩
  exact (unify_mostGeneral hok).2 θ (by simpa using ⟨hfirst, hsecond⟩) (.var ⟨1⟩)

/-- A failure names two sides that every solution would make equal and that cannot be equal. So
solving fails exactly on the equations without a solution. -/
theorem unify_fails_iff_unsolvable (equations : List Equation) :
    (∀ expected actual, unify equations = .error (.typeMismatch expected actual) →
      (∀ θ : Assignment, θ.Solves equations → expected.subst θ = actual.subst θ) ∧
      (∀ θ : Assignment, expected.subst θ ≠ actual.subst θ) ∧
      ((∃ a b, a ≠ b ∧ expected = .named a ∧ actual = .named b) ∨
        ∃ a p r, expected = .named a ∧ actual = .arrow p r ∨
          expected = .arrow p r ∧ actual = .named a)) ∧
    (∀ v within, unify equations = .error (.circularConstraint v within) →
      (∀ θ : Assignment, θ.Solves equations → θ v = within.subst θ) ∧
      (∀ θ : Assignment, θ v ≠ within.subst θ) ∧
      v ∈ within.leaves ∧ within ≠ .var v) ∧
    ((∃ error, unify equations = .error error) ↔ ¬ ∃ θ : Assignment, θ.Solves equations) := by
  refine ⟨fun expected actual h => ?_, fun v within h => ?_, ?_, fun hnone => ?_⟩
  · obtain ⟨hsides, hclash⟩ := clash_of_unify h
    exact ⟨hsides, hclash.unsolvable, hclash⟩
  · obtain ⟨hsides, hclash⟩ := clash_of_unify h
    exact ⟨hsides, hclash.unsolvable, hclash⟩
  · rintro ⟨error, h⟩ ⟨θ, hθ⟩
    obtain ⟨hsides, hclash⟩ := clash_of_unify h
    exact hclash.unsolvable θ (hsides θ hθ)
  · cases h : unify equations with
    | error error => exact ⟨error, rfl⟩
    | ok s =>
      obtain ⟨hsolutions, hidem⟩ := holdsIn_of_unify h
      exact absurd ⟨_, (hsolutions _).1 (Substitution.holdsIn_toAssignment hidem)⟩ hnone

end GraphReduction
