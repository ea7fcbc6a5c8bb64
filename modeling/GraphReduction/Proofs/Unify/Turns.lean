import Mathlib
import GraphReduction.Proofs.Unify.MostGeneral

/-! How long solving takes. A turn of the solver drops the head of the worklist, splits it or binds
a variable. Between two bindings every turn leaves a smaller worklist. A binding can square the size
of the worklist, since every leaf of it may be replaced by a type as large as the worklist, but it
takes the variable off the worklist for good. So there are at most as many bindings as variables,
and the number of turns is bounded before the first one is made. -/
namespace GraphReduction

theorem Ty.size_substitute_le (t : Ty) (v : VarId) (image : Ty) :
    (t.substitute v image).size ≤ t.size * image.size := by
  have hpos := image.size_pos
  induction t with
  | named => simpa only [substitute, size, Nat.one_mul] using Nat.succ_le_of_lt hpos
  | arrow parameter result ihp ihr =>
    simp only [substitute, size, Nat.add_mul, Nat.one_mul]
    omega
  | var id =>
    unfold substitute
    split
    · simp [size]
    · simpa only [size, Nat.one_mul] using Nat.succ_le_of_lt hpos

theorem Equation.size_substitute_le (e : Equation) (v : VarId) (image : Ty) :
    (e.substitute v image).size ≤ e.size * image.size := by
  have hexpected := e.expected.size_substitute_le v image
  have hactual := e.actual.size_substitute_le v image
  simp only [Equation.size, Equation.substitute, Nat.add_mul]
  omega

namespace Unify

/-- How many turns a worklist of this size with `free` variables takes at most. -/
def turnLimit : Nat → Nat → Nat
  | 0, size => size
  | free + 1, size => size + turnLimit free (size * size)

theorem turnLimit_mono (free : Nat) {size size' : Nat} (h : size ≤ size') :
    turnLimit free size ≤ turnLimit free size' := by
  induction free generalizing size size' with
  | zero => exact h
  | succ free ih => exact Nat.add_le_add h (ih (Nat.mul_le_mul h h))

theorem turnLimit_lt (free : Nat) {size size' : Nat} (h : size < size') :
    turnLimit free size < turnLimit free size' := by
  cases free with
  | zero => exact h
  | succ free =>
    exact Nat.add_lt_add_of_lt_of_le h (turnLimit_mono free (Nat.mul_le_mul h.le h.le))

theorem turnLimit_le_succ (free : Nat) {size : Nat} (hpos : 0 < size) :
    turnLimit free size ≤ turnLimit (free + 1) size := by
  induction free generalizing size with
  | zero => exact Nat.le_add_right ..
  | succ free ih => exact Nat.add_le_add_left (ih (Nat.mul_pos hpos hpos)) size

theorem turnLimit_le_of_le {free free' : Nat} (h : free ≤ free') {size : Nat} (hpos : 0 < size) :
    turnLimit free size ≤ turnLimit free' size := by
  induction h with
  | refl => exact Nat.le_refl _
  | @step free' _ ih => exact ih.trans (turnLimit_le_succ free' hpos)

namespace State

/-- What one turn of the solver makes of the worklist and of the bindings found so far. -/
inductive Turn : State → State → Prop where
  | drop (t : Ty) (rest : List Equation) (solved : Substitution) :
    Turn ⟨⟨t, t⟩ :: rest, solved⟩ ⟨rest, solved⟩
  | bindExpected {v : VarId} {t : Ty} (rest : List Equation) (solved : Substitution)
    (habsent : v ∉ t.leaves) : Turn ⟨⟨.var v, t⟩ :: rest, solved⟩ (bind ⟨rest, solved⟩ v t)
  | bindActual {v : VarId} {t : Ty} (rest : List Equation) (solved : Substitution)
    (hother : ∀ w, t ≠ .var w) (habsent : v ∉ t.leaves) :
    Turn ⟨⟨t, .var v⟩ :: rest, solved⟩ (bind ⟨rest, solved⟩ v t)
  | split {parameter result parameter' result' : Ty} (rest : List Equation) (solved : Substitution)
    (hdiffer : Ty.arrow parameter result ≠ .arrow parameter' result') :
    Turn ⟨⟨.arrow parameter result, .arrow parameter' result'⟩ :: rest, solved⟩
      ⟨⟨parameter, parameter'⟩ :: ⟨result, result'⟩ :: rest, solved⟩

/-- Where no turn is left, and what the outcome is there. -/
inductive Final : State → Except UnifyError Substitution → Prop where
  | solved (s : Substitution) : Final ⟨[], s⟩ (.ok s)
  | mismatch {expected actual : Ty} (rest : List Equation) (solved : Substitution)
    (hclash : (UnifyError.typeMismatch expected actual).Clash) :
    Final ⟨⟨expected, actual⟩ :: rest, solved⟩ (.error (.typeMismatch expected actual))
  | circularExpected {v : VarId} {t : Ty} (rest : List Equation) (solved : Substitution)
    (hlarger : t ≠ .var v) (hpresent : v ∈ t.leaves) :
    Final ⟨⟨.var v, t⟩ :: rest, solved⟩ (.error (.circularConstraint v t))
  | circularActual {v : VarId} {t : Ty} (rest : List Equation) (solved : Substitution)
    (hother : ∀ w, t ≠ .var w) (hpresent : v ∈ t.leaves) :
    Final ⟨⟨t, .var v⟩ :: rest, solved⟩ (.error (.circularConstraint v t))

/-- What a step is in terms of turns. -/
def Performs (st : State) : Progress st → Prop
  | .solved s => Final st (.ok s)
  | .failed error => Final st (.error error)
  | .more next _ => Turn st next

theorem performs_bindIn {whole st : State} {v : VarId} {t : Ty} (present) (image) (below)
    (hcircular : v ∈ t.leaves → Final whole (.error (.circularConstraint v t)))
    (hbind : v ∉ t.leaves → Turn whole (st.bind v t)) :
    Performs whole (bindIn whole st v t present image below) := by
  unfold bindIn
  split
  · next hoccurs => exact hcircular ((Ty.occurs_iff t v).1 hoccurs)
  · next hoccurs => exact hbind fun h => hoccurs ((Ty.occurs_iff t v).2 h)

theorem performs_step (st : State) : Performs st st.step := by
  obtain ⟨_ | ⟨⟨expected, actual⟩, rest⟩, solved⟩ := st
  · exact .solved solved
  by_cases hsame : expected = actual
  · subst hsame
    simp only [step, if_true]
    exact .drop expected rest solved
  simp only [step, if_neg hsame]
  cases expected with
  | var v =>
    exact performs_bindIn _ _ _ (.circularExpected rest solved (Ne.symm hsame))
      (.bindExpected rest solved)
  | named a =>
    cases actual with
    | var v =>
      exact performs_bindIn _ _ _ (.circularActual rest solved fun _ => Ty.noConfusion)
        (.bindActual rest solved fun _ => Ty.noConfusion)
    | named b => exact .mismatch rest solved (.inl ⟨a, b, fun h => hsame (congrArg _ h), rfl, rfl⟩)
    | arrow p r => exact .mismatch rest solved (.inr ⟨a, p, r, .inl ⟨rfl, rfl⟩⟩)
  | arrow p r =>
    cases actual with
    | var v =>
      exact performs_bindIn _ _ _ (.circularActual rest solved fun _ => Ty.noConfusion)
        (.bindActual rest solved fun _ => Ty.noConfusion)
    | named b => exact .mismatch rest solved (.inr ⟨b, p, r, .inr ⟨rfl, rfl⟩⟩)
    | arrow p' r' => exact .split rest solved hsame

theorem Turn.unique {st next next' : State} (h : Turn st next) (h' : Turn st next') :
    next = next' := by
  cases h <;> cases h' <;> simp_all [Ty.leaves]

theorem Final.unique {st : State} {outcome outcome' : Except UnifyError Substitution}
    (h : Final st outcome) (h' : Final st outcome') : outcome = outcome' := by
  cases h <;> cases h' <;> simp_all [UnifyError.Clash]

theorem Turn.not_final {st next : State} {outcome : Except UnifyError Substitution}
    (h : Turn st next) : ¬ Final st outcome := by
  intro h'
  cases h with
  | drop t =>
    cases h' with
    | mismatch _ _ hclash => exact hclash.unsolvable .var rfl
    | circularExpected _ _ hlarger => exact hlarger rfl
    | circularActual _ _ hother => exact hother _ rfl
  | bindExpected | bindActual | split => cases h' <;> simp_all [UnifyError.Clash]

theorem run_cases (st : State) :
    (∃ next, Turn st next ∧ st.run = next.run) ∨ ∃ outcome, Final st outcome ∧ st.run = outcome := by
  have hperforms := performs_step st
  rw [run]
  split
  · next hstep => exact .inr ⟨_, by rwa [hstep] at hperforms, rfl⟩
  · next hstep => exact .inr ⟨_, by rwa [hstep] at hperforms, rfl⟩
  · next hstep => exact .inl ⟨_, by rwa [hstep] at hperforms, rfl⟩

theorem run_of_turn {st next : State} (h : Turn st next) : st.run = next.run := by
  rcases run_cases st with ⟨next', hturn, hrun⟩ | ⟨outcome, hfinal, -⟩
  · rw [hrun, h.unique hturn]
  · exact absurd hfinal h.not_final

theorem run_of_final {st : State} {outcome : Except UnifyError Substitution}
    (h : Final st outcome) : st.run = outcome := by
  rcases run_cases st with ⟨next, hturn, -⟩ | ⟨outcome', hfinal, hrun⟩
  · exact absurd h hturn.not_final
  · rw [hrun, h.unique hfinal]

theorem Turn.below {st next : State} (h : Turn st next) : next.Below st := by
  have hperforms := performs_step st
  cases hstep : st.step with
  | solved s => rw [hstep] at hperforms; exact absurd hperforms h.not_final
  | failed error => rw [hstep] at hperforms; exact absurd hperforms h.not_final
  | more next' below => rw [hstep] at hperforms; exact h.unique hperforms ▸ below

theorem size_bind_le (st : State) (v : VarId) (t : Ty) : (st.bind v t).size ≤ st.size * t.size := by
  obtain ⟨pending, solved⟩ := st
  induction pending with
  | nil => exact Nat.zero_le _
  | cons e rest ih =>
    have hhead := e.size_substitute_le v t
    simp only [bind, size, List.map_cons, List.foldr_cons, Nat.add_mul] at ih ⊢
    omega

theorem Turn.size_le {st next : State} (h : Turn st next) :
    0 < st.size ∧ next.size ≤ st.size * st.size := by
  have hbind : ∀ {e : Equation} {rest solved} {v : VarId} {t : Ty}, t.size ≤ e.size →
      0 < size ⟨e :: rest, solved⟩ ∧
        size (bind ⟨rest, solved⟩ v t) ≤ size ⟨e :: rest, solved⟩ * size ⟨e :: rest, solved⟩ := by
    intro e rest solved v t hsize
    have hpos := t.size_pos
    have hwhole : size ⟨e :: rest, solved⟩ = e.size + size ⟨rest, solved⟩ := rfl
    exact ⟨by omega, (size_bind_le _ v t).trans (Nat.mul_le_mul (by omega) (by omega))⟩
  cases h with
  | drop t rest solved =>
    have hpos := t.size_pos
    have hwhole : size ⟨⟨t, t⟩ :: rest, solved⟩ = t.size + t.size + size ⟨rest, solved⟩ := rfl
    exact ⟨by omega, le_trans (by omega) (Nat.le_mul_self _)⟩
  | bindExpected rest solved habsent => exact hbind (Nat.le_add_left ..)
  | bindActual rest solved hother habsent => exact hbind (Nat.le_add_right ..)
  | split rest solved hdiffer =>
    refine ⟨by simp [size, Equation.size, Ty.size], le_trans ?_ (Nat.le_mul_self _)⟩
    simp [size, Equation.size, Ty.size]
    omega

/-- The bound on the turns that are left. -/
def limit (st : State) : Nat := turnLimit (distinct st.leaves) st.size

theorem Turn.limit_lt {st next : State} (h : Turn st next) : next.limit < st.limit := by
  obtain ⟨hpos, hsize⟩ := h.size_le
  rcases h.below with hvars | ⟨hvars, hless⟩
  · obtain ⟨free, hfree⟩ := Nat.exists_eq_add_one_of_ne_zero (Nat.ne_zero_of_lt hvars)
    calc next.limit ≤ turnLimit (distinct next.leaves) (st.size * st.size) := turnLimit_mono _ hsize
      _ ≤ turnLimit free (st.size * st.size) :=
        turnLimit_le_of_le (by omega) (Nat.mul_pos hpos hpos)
      _ < st.size + turnLimit free (st.size * st.size) := Nat.lt_add_of_pos_left hpos
      _ = st.limit := by rw [limit, hfree]; rfl
  · exact (turnLimit_lt _ hless).trans_le (turnLimit_le_of_le hvars hpos)

/-- The second state is the first one after so many turns. -/
inductive Turns : Nat → State → State → Prop where
  | none (st : State) : Turns 0 st st
  | cons {st next last : State} {n : Nat} (hturn : Turn st next) (hrest : Turns n next last) :
    Turns (n + 1) st last

theorem Turns.add_limit_le {n : Nat} {st last : State} (h : Turns n st last) :
    n + last.limit ≤ st.limit := by
  induction h with
  | none => simp
  | cons hturn _ ih =>
    have := hturn.limit_lt
    omega

theorem Turns.run_eq {n : Nat} {st last : State} (h : Turns n st last) : st.run = last.run := by
  induction h with
  | none => rfl
  | cons hturn _ ih => rw [run_of_turn hturn, ih]

theorem Turns.remaining {n k : Nat} {st st' last : State} {outcome : Except UnifyError Substitution}
    (h : Turns n st last) (hfinal : Final last outcome) (h' : Turns k st st') :
    k ≤ n ∧ Turns (n - k) st' last := by
  induction h' generalizing n with
  | none => exact ⟨Nat.zero_le n, h⟩
  | cons hturn _ ih =>
    cases h with
    | none => exact absurd hfinal hturn.not_final
    | cons hturn' hrest =>
      cases hturn'.unique hturn
      obtain ⟨hle, hremaining⟩ := ih hrest
      exact ⟨Nat.succ_le_succ hle, by simpa using hremaining⟩

theorem exists_turns_final (st : State) : ∃ n last outcome, Turns n st last ∧ Final last outcome := by
  induction hlimit : st.limit using Nat.strongRecOn generalizing st with
  | ind limit ih =>
    rcases run_cases st with ⟨next, hturn, -⟩ | ⟨outcome, hfinal, -⟩
    · obtain ⟨n, last, outcome, hturns, hfinal⟩ := ih _ (hlimit ▸ hturn.limit_lt) next rfl
      exact ⟨n + 1, last, outcome, .cons hturn hturns, hfinal⟩
    · exact ⟨0, st, outcome, .none st, hfinal⟩

end State

end Unify

open Unify.State in
/-- Solving ends. From any equations there are finitely many turns to make, no more than can be read
off the number of variables and the size of the equations, every way to make some of them goes on to
the same end, and there the worklist is solved or its head cannot be. -/
theorem unify_terminates (equations : List Equation) :
    ∃ n last, n ≤ limit { pending := equations } ∧ Turns n { pending := equations } last ∧
      Final last (unify equations) ∧
      ∀ k st, Turns k { pending := equations } st → k ≤ n ∧ Turns (n - k) st last := by
  obtain ⟨n, last, outcome, hturns, hfinal⟩ := exists_turns_final { pending := equations }
  have houtcome : unify equations = outcome := hturns.run_eq.trans (run_of_final hfinal)
  refine ⟨n, last, ?_, hturns, houtcome ▸ hfinal, fun k st => hturns.remaining hfinal⟩
  exact (Nat.le_add_right ..).trans hturns.add_limit_le

end GraphReduction
