import Mathlib
import GraphReduction.Unify.Solve

/-! Assignments of types to all variables, applied to whole trees at once. They are what equations
are about: a recorded substitution is finite and ordered, an assignment is neither. On a list of
bindings whose images mention no bound variable, the two ways of applying a substitution and the
assignment it stands for are the same function. -/
namespace GraphReduction

abbrev Assignment := VarId → Ty

namespace Ty

def subst (θ : Assignment) : Ty → Ty
  | named name => named name
  | arrow parameter result => arrow (parameter.subst θ) (result.subst θ)
  | var id => θ id

@[simp] theorem subst_named (θ : Assignment) (name : TypeName) :
    (named name).subst θ = named name := rfl

@[simp] theorem subst_arrow (θ : Assignment) (parameter result : Ty) :
    (arrow parameter result).subst θ = arrow (parameter.subst θ) (result.subst θ) := rfl

@[simp] theorem subst_var (θ : Assignment) (id : VarId) : (var id).subst θ = θ id := rfl

theorem subst_congr {θ η : Assignment} {t : Ty} (agree : ∀ v ∈ t.leaves, θ v = η v) :
    t.subst θ = t.subst η := by
  induction t with
  | named name => rfl
  | arrow parameter result ihp ihr =>
    simp only [leaves, List.mem_append] at agree
    rw [subst_arrow, subst_arrow, ihp fun v h => agree v (.inl h), ihr fun v h => agree v (.inr h)]
  | var id => exact agree id (by simp [leaves])

@[simp] theorem subst_id (t : Ty) : t.subst var = t := by
  induction t with
  | named name => rfl
  | arrow parameter result ihp ihr => rw [subst_arrow, ihp, ihr]
  | var id => rfl

theorem subst_subst (θ η : Assignment) (t : Ty) :
    (t.subst η).subst θ = t.subst fun v => (η v).subst θ := by
  induction t with
  | named name => rfl
  | arrow parameter result ihp ihr => simp only [subst_arrow, ihp, ihr]
  | var id => rfl

theorem subst_substitute {θ : Assignment} {v : VarId} {image : Ty} (same : θ v = image.subst θ)
    (t : Ty) : (t.substitute v image).subst θ = t.subst θ := by
  induction t with
  | named name => rfl
  | arrow parameter result ihp ihr => simp only [substitute, subst_arrow, ihp, ihr]
  | var id =>
    by_cases here : id = v
    · subst here
      simp [substitute, same]
    · simp [substitute, here]

theorem substitute_eq_subst (t : Ty) (v : VarId) (image : Ty) :
    t.substitute v image = t.subst fun w => if w = v then image else .var w := by
  induction t with
  | named name => rfl
  | arrow parameter result ihp ihr => simp only [substitute, subst_arrow, ihp, ihr]
  | var id => rfl

theorem size_subst_le {v : VarId} {t : Ty} (member : v ∈ t.leaves) (θ : Assignment) :
    (θ v).size ≤ (t.subst θ).size := by
  induction t with
  | named name => simp [leaves] at member
  | arrow parameter result ihp ihr =>
    simp only [leaves, List.mem_append] at member
    simp only [subst_arrow, size]
    rcases member with h | h
    · have := ihp h
      omega
    · have := ihr h
      omega
  | var id =>
    obtain rfl : v = id := by simpa [leaves] using member
    exact Nat.le_refl _

theorem ne_subst_of_mem {v : VarId} {t : Ty} (member : v ∈ t.leaves) (larger : t ≠ var v)
    (θ : Assignment) : θ v ≠ t.subst θ := by
  cases t with
  | named name => simp [leaves] at member
  | var id =>
    obtain rfl : v = id := by simpa [leaves] using member
    exact absurd rfl larger
  | arrow parameter result =>
    intro same
    have bound : (θ v).size = 1 + (parameter.subst θ).size + (result.subst θ).size := by
      rw [same, subst_arrow, size]
    simp only [leaves, List.mem_append] at member
    rcases member with h | h
    · have := size_subst_le h θ
      omega
    · have := size_subst_le h θ
      omega

end Ty

def Equation.HoldsIn (e : Equation) (θ : Assignment) : Prop :=
  e.expected.subst θ = e.actual.subst θ

namespace Assignment

def Solves (θ : Assignment) (equations : List Equation) : Prop := ∀ e ∈ equations, e.HoldsIn θ

@[simp] theorem solves_nil (θ : Assignment) : θ.Solves [] := by simp [Solves]

@[simp] theorem solves_cons (θ : Assignment) (e : Equation) (rest : List Equation) :
    θ.Solves (e :: rest) ↔ e.HoldsIn θ ∧ θ.Solves rest := by
  simp [Solves]

theorem solves_substitute {θ : Assignment} {v : VarId} {t : Ty} (same : θ v = t.subst θ)
    (equations : List Equation) :
    θ.Solves (equations.map (·.substitute v t)) ↔ θ.Solves equations := by
  simp [Solves, Equation.HoldsIn, Equation.substitute, Ty.subst_substitute same]

end Assignment

namespace Substitution

def bound (s : Substitution) : List VarId := s.bindings.map Prod.fst

/-- The assignment that a list of bindings stands for: unbound variables stay. -/
def toAssignment (s : Substitution) : Assignment := fun v => (s.lookup v).getD (.var v)

def HoldsIn (s : Substitution) (θ : Assignment) : Prop :=
  ∀ b ∈ s.bindings, θ b.1 = b.2.subst θ

/-- No variable is bound twice, and none that is bound occurs in a bound type. -/
structure Idempotent (s : Substitution) : Prop where
  nodup : s.bound.Nodup
  free : ∀ b ∈ s.bindings, ∀ v ∈ b.2.leaves, v ∉ s.bound

theorem lookup_of_mem {s : Substitution} (hidem : s.Idempotent) {b : VarId × Ty}
    (hb : b ∈ s.bindings) : s.lookup b.1 = some b.2 := by
  obtain ⟨bindings⟩ := s
  have hnodup : (bindings.map Prod.fst).Nodup := hidem.nodup
  change bindings.lookup b.1 = some b.2
  clear hidem
  induction bindings with
  | nil => simp at hb
  | cons head tail ih =>
    simp only [List.map_cons, List.nodup_cons] at hnodup
    rcases List.mem_cons.1 hb with rfl | hlater
    · exact List.lookup_cons_self
    · have hne : b.1 ≠ head.1 := fun h => hnodup.1 (h ▸ List.mem_map_of_mem hlater)
      rw [List.lookup_cons, beq_eq_false_iff_ne.2 hne]
      exact ih hlater hnodup.2

theorem mem_of_lookup {s : Substitution} {v : VarId} {t : Ty} (h : s.lookup v = some t) :
    (v, t) ∈ s.bindings := by
  obtain ⟨before, after, heq, _⟩ := List.lookup_eq_some_iff.1 h
  simp [heq]

theorem toAssignment_of_not_bound {s : Substitution} {v : VarId} (h : v ∉ s.bound) :
    s.toAssignment v = .var v := by
  cases hv : s.lookup v with
  | none => simp [toAssignment, hv]
  | some t => exact absurd (List.mem_map_of_mem (mem_of_lookup hv)) h

theorem applyAtOnce_eq_subst (s : Substitution) (t : Ty) :
    s.applyAtOnce t = t.subst s.toAssignment := by
  induction t with
  | named name => rfl
  | arrow parameter result ihp ihr => rw [applyAtOnce, ihp, ihr, Ty.subst_arrow]
  | var id => rfl

/-- Bindings that do not mention each other can be applied one by one or all at once. -/
theorem applyInOrder_eq_subst {s : Substitution} (hidem : s.Idempotent) (t : Ty) :
    s.applyInOrder t = t.subst s.toAssignment := by
  obtain ⟨bindings⟩ := s
  induction bindings generalizing t with
  | nil => exact (Ty.subst_id t).symm
  | cons head tail ih =>
    obtain ⟨v, image⟩ := head
    have htail : Idempotent ⟨tail⟩ :=
      ⟨(List.nodup_cons.1 hidem.nodup).2, fun b hb w hw hbound =>
        hidem.free b (List.mem_cons_of_mem _ hb) w hw (List.mem_cons_of_mem _ hbound)⟩
    have himage : image.subst (toAssignment ⟨tail⟩) = image :=
      (Ty.subst_congr fun w hw => toAssignment_of_not_bound fun hbound =>
        hidem.free (v, image) List.mem_cons_self w hw (List.mem_cons_of_mem _ hbound)).trans
        (Ty.subst_id image)
    calc applyInOrder ⟨(v, image) :: tail⟩ t
        = (t.substitute v image).subst (toAssignment ⟨tail⟩) := ih (t.substitute v image) htail
      _ = t.subst (toAssignment ⟨(v, image) :: tail⟩) := by
          rw [Ty.substitute_eq_subst, Ty.subst_subst]
          refine Ty.subst_congr fun w _ => ?_
          by_cases hw : w = v
          · simp [toAssignment, lookup, hw, himage]
          · simp [toAssignment, lookup, hw, List.lookup_cons, beq_eq_false_iff_ne.2 hw]

theorem apply_eq_subst {s : Substitution} (hidem : s.Idempotent) (t : Ty) :
    s.apply t = t.subst s.toAssignment := by
  unfold apply
  split
  · exact applyAtOnce_eq_subst s t
  · exact applyInOrder_eq_subst hidem t

theorem holdsIn_toAssignment {s : Substitution} (hidem : s.Idempotent) :
    s.HoldsIn s.toAssignment := by
  intro b hb
  have hfree : b.2.subst s.toAssignment = b.2.subst Ty.var :=
    Ty.subst_congr fun v hv => toAssignment_of_not_bound (hidem.free b hb v hv)
  rw [hfree, Ty.subst_id, toAssignment, lookup_of_mem hidem hb, Option.getD_some]

theorem subst_toAssignment {s : Substitution} {θ : Assignment} (h : s.HoldsIn θ) (t : Ty) :
    (t.subst s.toAssignment).subst θ = t.subst θ := by
  rw [Ty.subst_subst]
  refine Ty.subst_congr fun v _ => ?_
  cases hv : s.lookup v with
  | none => simp [toAssignment, hv]
  | some image => simpa [toAssignment, hv] using (h _ (mem_of_lookup hv)).symm

end Substitution

end GraphReduction
