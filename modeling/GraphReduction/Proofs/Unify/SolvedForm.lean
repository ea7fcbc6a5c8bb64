import Mathlib
import GraphReduction.Proofs.Unify.MostGeneral

/-! The form of what solving finds. No step of the solver invents a variable: what is left and what
has been found mention only variables of the first equations. Together with the elimination of bound
variables this gives solved form, in which a type read once has nothing left to replace, so it does
not matter how the bindings are applied. -/
namespace GraphReduction

namespace Substitution

/-- The substitution speaks about these variables only. -/
structure Over (s : Substitution) (vs : List VarId) : Prop where
  bound : ∀ v ∈ s.bound, v ∈ vs
  images : ∀ b ∈ s.bindings, ∀ v ∈ b.2.leaves, v ∈ vs

variable {s : Substitution}

theorem Over.bind {vs : List VarId} (h : s.Over vs) {v : VarId} {t : Ty} (hv : v ∈ vs)
    (ht : ∀ w ∈ t.leaves, w ∈ vs) : (s.bind v t).Over vs := by
  constructor
  · intro w hw
    rw [Unify.State.bound_bind, List.mem_append, List.mem_singleton] at hw
    rcases hw with hw | rfl
    · exact h.bound w hw
    · exact hv
  · intro b hb w hw
    simp only [bindings_bind, List.mem_append, List.mem_map, List.mem_singleton] at hb
    rcases hb with ⟨c, hc, rfl⟩ | rfl
    · rcases Unify.mem_leaves_substitute hw with ⟨hold, -⟩ | ⟨-, himage⟩
      · exact h.images c hc w hold
      · exact ht w himage
    · exact ht w hw

theorem applyInOrder_eq_applyAtOnce (hidem : s.Idempotent) (t : Ty) :
    s.applyInOrder t = s.applyAtOnce t := by
  rw [applyInOrder_eq_subst hidem, applyAtOnce_eq_subst]

theorem apply_apply (hidem : s.Idempotent) (t : Ty) : s.apply (s.apply t) = s.apply t := by
  rw [apply_eq_subst hidem, apply_eq_subst hidem]
  exact subst_toAssignment (holdsIn_toAssignment hidem) t

theorem apply_of_lookup (hidem : s.Idempotent) {v : VarId} {t : Ty} (h : s.lookup v = some t) :
    s.apply (.var v) = t := by
  rw [apply_eq_subst hidem, Ty.subst_var, toAssignment, h, Option.getD_some]

theorem lookup_eq_some_iff (hidem : s.Idempotent) {v : VarId} {t : Ty} :
    s.lookup v = some t ↔ v ∈ s.bound ∧ s.apply (.var v) = t := by
  constructor
  · intro h
    exact ⟨List.mem_map_of_mem (mem_of_lookup h), apply_of_lookup hidem h⟩
  · rintro ⟨hbound, rfl⟩
    obtain ⟨b, hb, rfl⟩ := List.mem_map.1 hbound
    have hlookup := lookup_of_mem hidem hb
    rw [apply_of_lookup hidem hlookup, hlookup]

end Substitution

namespace Unify.State

/-- The worklist and the bindings found so far speak about these variables only. -/
structure Over (st : State) (vs : List VarId) : Prop where
  pending : ∀ v ∈ st.leaves, v ∈ vs
  solved : st.solved.Over vs

/-- No progress brings a variable that is not among these. -/
def Introduces (vs : List VarId) {st : State} : Progress st → Prop
  | .solved s => s.Over vs
  | .failed _ => True
  | .more next _ => next.Over vs

variable {vs : List VarId}

theorem introduces_bindIn {whole st : State} {v : VarId} {t : Ty} (present : v ∈ whole.leaves)
    (image : t.leaves ⊆ whole.leaves) (rest : st.leaves ⊆ whole.leaves) (h : whole.Over vs)
    (hsolved : st.solved = whole.solved) :
    Introduces vs (bindIn whole st v t present image rest) := by
  unfold bindIn
  split
  · trivial
  · next hcircular =>
    have habsent : v ∉ t.leaves := fun hv => hcircular ((Ty.occurs_iff t v).2 hv)
    constructor
    · intro w hw
      rcases (mem_leaves_bind habsent hw).2 with hw | hw
      · exact h.pending w (image hw)
      · exact h.pending w (rest hw)
    · have hold : st.solved.Over vs := hsolved ▸ h.solved
      exact hold.bind (h.pending v present) fun w hw => h.pending w (image hw)

theorem introduces_step {st : State} (h : st.Over vs) : Introduces vs st.step := by
  obtain ⟨_ | ⟨⟨expected, actual⟩, rest⟩, solved⟩ := st
  · exact h.solved
  by_cases hsame : expected = actual
  · subst hsame
    simp only [step, if_true]
    exact ⟨fun v hv => h.pending v (by simpa [leaves] using .inr (by simpa [leaves] using hv)),
      h.solved⟩
  simp only [step, if_neg hsame]
  cases expected with
  | var v => exact introduces_bindIn _ _ _ h rfl
  | named a =>
    cases actual with
    | var v => exact introduces_bindIn _ _ _ h rfl
    | named b => trivial
    | arrow p r => trivial
  | arrow p r =>
    cases actual with
    | var v => exact introduces_bindIn _ _ _ h rfl
    | named b => trivial
    | arrow p' r' =>
      refine ⟨fun v hv => h.pending v ?_, h.solved⟩
      simp only [leaves, Equation.leaves, Ty.leaves, List.flatMap_cons, List.mem_append] at hv ⊢
      grind

theorem over_run {st : State} {s : Substitution} (h : st.Over vs) (hrun : st.run = .ok s) :
    s.Over vs := by
  induction st using run.induct with
  | case1 st found hstep =>
    have hfound := introduces_step h
    rw [hstep] at hfound
    rw [run, hstep] at hrun
    obtain rfl := Except.ok.inj hrun
    exact hfound
  | case2 st error hstep =>
    rw [run, hstep] at hrun
    cases hrun
  | case3 st next below hstep ih =>
    have hnext := introduces_step h
    rw [hstep] at hnext
    rw [run, hstep] at hrun
    exact ih hnext hrun

theorem over_initial (equations : List Equation) :
    Over { pending := equations } (equations.flatMap Equation.leaves) :=
  ⟨fun _ hv => hv, by simp [Substitution.bound], by simp⟩

end Unify.State

theorem over_of_unify {equations : List Equation} {s : Substitution}
    (h : unify equations = .ok s) : s.Over (equations.flatMap Equation.leaves) :=
  Unify.State.over_run (Unify.State.over_initial equations) h

/-- What solving finds is in solved form: no variable is bound twice, bound types mention variables
of the equations that are not bound, and bound variables come from the equations. So applying the
bindings one by one and looking every leaf up once agree, for short substitutions and for long ones;
applying twice is applying once; and looking a variable up gives its image, if it is bound. -/
theorem unify_solvedForm {equations : List Equation} {s : Substitution}
    (h : unify equations = .ok s) :
    s.bound.Nodup ∧
      (∀ v ∈ s.bound, v ∈ equations.flatMap Equation.leaves) ∧
      (∀ b ∈ s.bindings, ∀ v ∈ b.2.leaves,
        v ∈ equations.flatMap Equation.leaves ∧ v ∉ s.bound) ∧
      (∀ t, s.applyInOrder t = s.applyAtOnce t) ∧
      (∀ t, s.apply (s.apply t) = s.apply t) ∧
      ∀ v t, s.lookup v = some t ↔ v ∈ s.bound ∧ s.apply (.var v) = t := by
  have hidem := (holdsIn_of_unify h).2
  have hover := over_of_unify h
  exact ⟨hidem.nodup, hover.bound, fun b hb v hv => ⟨hover.images b hb v hv, hidem.free b hb v hv⟩,
    Substitution.applyInOrder_eq_applyAtOnce hidem, Substitution.apply_apply hidem,
    fun v t => Substitution.lookup_eq_some_iff hidem⟩

/-- Each of nine variables equal to the next one. -/
def variableChain : List Equation :=
  (List.range 9).map fun i => ⟨.var ⟨.ofNat i⟩, .var ⟨.ofNat (i + 1)⟩⟩

def variableChainSolution : Substitution :=
  ⟨(List.range 9).map fun i => (⟨.ofNat i⟩, .var ⟨9⟩)⟩

/-- Every binding but the last is changed by the later ones, and there are enough of them to be
applied in one pass. -/
theorem unify_solvedForm_variableChain :
    unify variableChain = .ok variableChainSolution ∧
      Substitution.longFrom ≤ variableChainSolution.size ∧
      variableChainSolution.applyInOrder (.arrow (.var ⟨0⟩) (.var ⟨9⟩)) =
        variableChainSolution.applyAtOnce (.arrow (.var ⟨0⟩) (.var ⟨9⟩)) ∧
      variableChainSolution.lookup ⟨4⟩ = some (.var ⟨9⟩) := by
  have hok : unify variableChain = .ok variableChainSolution := by cbv
  obtain ⟨-, -, -, hagree, -, hlookup⟩ := unify_solvedForm hok
  exact ⟨hok, by decide, hagree _, (hlookup _ _).2 ⟨by decide, by cbv⟩⟩

end GraphReduction
