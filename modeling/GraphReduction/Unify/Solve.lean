import GraphReduction.Unify.Substitution

/-!
Syntactic unification. Equations wait on a worklist whose head is resolved next: equal sides are
dropped, a variable is bound to the other side and disappears everywhere else, arrows split into
their parameters and then their results, and anything else is a mismatch. A variable that occurs in
the type it would be bound to has no finite solution.

Every step brings the worklist `Below` what it was: a binding leaves fewer variables on it, and the
other rules add no variable and leave less to look at. That is why solving ends.
-/
namespace GraphReduction

structure Equation where
  expected : Ty
  actual : Ty
deriving DecidableEq

inductive UnifyError where
  | typeMismatch (expected actual : Ty)
  | circularConstraint (v : VarId) (within : Ty)
deriving DecidableEq

namespace UnifyError

def message : UnifyError → String
  | typeMismatch expected actual =>
    "type mismatch: expected `" ++ expected.text ++ "`, found `" ++ actual.text ++ "`"
  | circularConstraint v within =>
    "circular constraint: " ++ v.text ++ " occurs in `" ++ within.text ++ "`"

end UnifyError

namespace Equation

def substitute (e : Equation) (v : VarId) (t : Ty) : Equation :=
  ⟨e.expected.substitute v t, e.actual.substitute v t⟩

def leaves (e : Equation) : List VarId := e.expected.leaves ++ e.actual.leaves

def size (e : Equation) : Nat := e.expected.size + e.actual.size

end Equation

namespace Unify

/-- Equations still to resolve, head first, and the bindings found so far. -/
structure State where
  pending : List Equation
  solved : Substitution := {}

def distinct : List VarId → Nat
  | [] => 0
  | v :: vs => if v ∈ vs then distinct vs else distinct vs + 1

theorem distinct_eq_succ {v : VarId} {vs : List VarId} (present : v ∈ vs) :
    distinct vs = distinct (vs.filter (· ≠ v)) + 1 := by
  induction vs with
  | nil => simp at present
  | cons w ws ih =>
    by_cases same : w = v
    · subst same
      by_cases again : w ∈ ws
      · simp [distinct, again, ih again]
      · have kept : ws.filter (fun x => !decide (x = w)) = ws :=
          List.filter_eq_self.2 fun x hx => by
            simpa using fun (h : x = w) => again (h ▸ hx)
        simp [distinct, again, kept]
    · have tail : v ∈ ws := by simpa [Ne.symm same] using present
      by_cases again : w ∈ ws <;> simp [distinct, again, same, ih tail]

theorem distinct_le_of_subset {vs ws : List VarId} (sub : vs ⊆ ws) : distinct vs ≤ distinct ws := by
  induction vs generalizing ws with
  | nil => simp [distinct]
  | cons v vs ih =>
    have inside : v ∈ ws := sub (by simp)
    by_cases again : v ∈ vs
    · simpa [distinct, again] using ih fun x hx => sub (by simp [hx])
    · have rest : vs ⊆ ws.filter (· ≠ v) := fun x hx => by
        have differs : x ≠ v := fun h => again (h ▸ hx)
        simp [sub (List.mem_cons_of_mem v hx), differs]
      have := ih rest
      simp only [distinct, again, if_false]
      have := distinct_eq_succ inside
      omega

theorem distinct_lt_of_subset {v : VarId} {vs ws : List VarId} (sub : vs ⊆ ws) (gone : v ∉ vs)
    (present : v ∈ ws) : distinct vs < distinct ws := by
  have rest : vs ⊆ ws.filter (· ≠ v) := fun x hx => by
    have differs : x ≠ v := fun h => gone (h ▸ hx)
    simp [sub hx, differs]
  have := distinct_le_of_subset rest
  have := distinct_eq_succ present
  omega

theorem mem_leaves_substitute {t image : Ty} {v w : VarId}
    (member : w ∈ (t.substitute v image).leaves) :
    (w ∈ t.leaves ∧ w ≠ v) ∨ (v ∈ t.leaves ∧ w ∈ image.leaves) := by
  induction t with
  | named => simp [Ty.substitute, Ty.leaves] at member
  | arrow parameter result ihp ihr =>
    simp only [Ty.substitute, Ty.leaves, List.mem_append] at member ⊢
    rcases member with h | h
    · rcases ihp h with h | h <;> simp [h]
    · rcases ihr h with h | h <;> simp [h]
  | var id =>
    by_cases same : id = v
    · subst same; right; simpa [Ty.substitute, Ty.leaves] using member
    · left; simp_all [Ty.substitute, Ty.leaves]

namespace State

def leaves (st : State) : List VarId := st.pending.flatMap Equation.leaves

def size (st : State) : Nat := st.pending.foldr (fun e rest => e.size + rest) 0

/-- Fewer variables on the worklist, or no more variables and less to look at. -/
def Below (next st : State) : Prop :=
  distinct next.leaves < distinct st.leaves ∨
    distinct next.leaves ≤ distinct st.leaves ∧ next.size < st.size

/-- Replace `v` by `t` in everything that is left and record the binding. -/
def bind (st : State) (v : VarId) (t : Ty) : State :=
  ⟨st.pending.map (·.substitute v t), st.solved.bind v t⟩

theorem mem_leaves_bind {st : State} {v w : VarId} {t : Ty} (absent : v ∉ t.leaves)
    (member : w ∈ (st.bind v t).leaves) : w ≠ v ∧ (w ∈ t.leaves ∨ w ∈ st.leaves) := by
  simp only [State.bind, State.leaves, List.mem_flatMap, List.mem_map] at member ⊢
  obtain ⟨_, ⟨e, inside, rfl⟩, member⟩ := member
  simp only [Equation.leaves, Equation.substitute, List.mem_append] at member
  rcases member with h | h
  · rcases mem_leaves_substitute h with h | h
    · exact ⟨h.2, .inr ⟨e, inside, by simp [Equation.leaves, h.1]⟩⟩
    · exact ⟨fun same => absent (same ▸ h.2), .inl h.2⟩
  · rcases mem_leaves_substitute h with h | h
    · exact ⟨h.2, .inr ⟨e, inside, by simp [Equation.leaves, h.1]⟩⟩
    · exact ⟨fun same => absent (same ▸ h.2), .inl h.2⟩

theorem bind_below {st whole : State} {v : VarId} {t : Ty} (absent : ¬ t.occurs v = true)
    (present : v ∈ whole.leaves) (image : t.leaves ⊆ whole.leaves)
    (rest : st.leaves ⊆ whole.leaves) : (st.bind v t).Below whole := by
  rw [Ty.occurs_iff] at absent
  refine .inl (distinct_lt_of_subset (fun w h => ?_) (fun h => ?_) present)
  · exact (mem_leaves_bind absent h).2.elim (image ·) (rest ·)
  · exact (mem_leaves_bind absent h).1 rfl

theorem drop_below (e : Equation) (rest : List Equation) (solved : Substitution) :
    Below ⟨rest, solved⟩ ⟨e :: rest, solved⟩ := by
  have := e.expected.size_pos
  exact .inr ⟨distinct_le_of_subset (by simp [leaves]), by simp [size, Equation.size]; omega⟩

theorem split_below (parameter result parameter' result' : Ty) (rest : List Equation)
    (solved : Substitution) :
    Below ⟨⟨parameter, parameter'⟩ :: ⟨result, result'⟩ :: rest, solved⟩
      ⟨⟨.arrow parameter result, .arrow parameter' result'⟩ :: rest, solved⟩ := by
  refine .inr ⟨distinct_le_of_subset fun w h => ?_, ?_⟩
  · simp only [leaves, Equation.leaves, Ty.leaves, List.flatMap_cons, List.mem_append] at h ⊢
    grind
  · simp [size, Equation.size, Ty.size]; omega

end State

/-- What resolving the head of a worklist leads to. -/
inductive Progress (st : State) where
  | solved (s : Substitution)
  | failed (error : UnifyError)
  | more (next : State) (below : next.Below st)

namespace State

/-- Bind a variable of `whole` to a type of `whole`, unless it would contain itself. -/
def bindIn (whole st : State) (v : VarId) (t : Ty) (present : v ∈ whole.leaves)
    (image : t.leaves ⊆ whole.leaves) (rest : st.leaves ⊆ whole.leaves) : Progress whole :=
  if circular : t.occurs v = true then
    .failed (.circularConstraint v t)
  else
    .more (st.bind v t) (bind_below circular present image rest)

def step (st : State) : Progress st :=
  match st with
  | ⟨[], solved⟩ => .solved solved
  | ⟨⟨expected, actual⟩ :: rest, solved⟩ =>
    if expected = actual then
      .more ⟨rest, solved⟩ (drop_below _ _ _)
    else
      match expected, actual with
      | .var v, t =>
        bindIn _ ⟨rest, solved⟩ v t (by simp [leaves, Equation.leaves, Ty.leaves])
          (by simp [leaves, Equation.leaves]) (by simp [leaves])
      | t, .var v =>
        bindIn _ ⟨rest, solved⟩ v t (by simp [leaves, Equation.leaves, Ty.leaves])
          (by simp [leaves, Equation.leaves]) (by simp [leaves])
      | .arrow parameter result, .arrow parameter' result' =>
        .more ⟨⟨parameter, parameter'⟩ :: ⟨result, result'⟩ :: rest, solved⟩
          (split_below _ _ _ _ _ _)
      | expected, actual => .failed (.typeMismatch expected actual)

def run (st : State) : Except UnifyError Substitution :=
  match st.step with
  | .solved s => .ok s
  | .failed error => .error error
  | .more next _ => next.run
termination_by (distinct st.leaves, st.size)
decreasing_by
  next below =>
  rcases below with h | ⟨h, h'⟩
  · exact Prod.Lex.left _ _ h
  · rcases Nat.lt_or_eq_of_le h with h | h
    · exact Prod.Lex.left _ _ h
    · rw [h]; exact Prod.Lex.right _ h'

end State

end Unify

/-- A substitution under which both sides of every equation are equal, or why there is none. The
first equation is resolved first. -/
def unify (equations : List Equation) : Except UnifyError Substitution :=
  Unify.State.run { pending := equations }

end GraphReduction
