import Mathlib
import GraphReduction.Proofs.Types.Leaves
import GraphReduction.Ty.Command

/-! Replacing a variable in a type whose nodes are shared. A search for the variable guards every
level, so a subtree without it is not copied; where it is a leaf stands the replacement itself, and
only the arrows above such a leaf are built anew. A position in a tree lists the sides to go to, one
after the other, from the root. -/
namespace GraphReduction.Node

def side? (which : TyPart) (n : Node) : Option Node :=
  n.arrow?.map fun (parameter, result) =>
    match which with
    | .parameter => parameter
    | .result => result

/-- The node at a position, if the position is in the tree. -/
def at? : Node → List TyPart → Option Node
  | n, [] => some n
  | n, which :: path => (n.side? which).bind (·.at? path)

@[simp] theorem at?_nil (n : Node) : n.at? [] = some n := rfl

@[simp] theorem at?_arrow_parameter (label : Nat) (parameter result : Node) (path : List TyPart) :
    (arrow label parameter result).at? (.parameter :: path) = parameter.at? path := rfl

@[simp] theorem at?_arrow_result (label : Nat) (parameter result : Node) (path : List TyPart) :
    (arrow label parameter result).at? (.result :: path) = result.at? path := rfl

theorem at?_cons_of_leaf {n : Node} (hleaf : n.arrow? = none) (which : TyPart)
    (path : List TyPart) : n.at? (which :: path) = none := by
  simp [at?, side?, hleaf]

/-- At the position begins a larger subtree that the variable is a leaf of. -/
def Above (n : Node) (v : VarId) (path : List TyPart) : Prop :=
  ∃ k, n.at? path = some k ∧ v ∈ k.ty.leaves ∧ k.ty ≠ .var v

/-- The node is an arrow that was built after the one moment and before the other. -/
def BuiltArrow (s s' : NodeSupply) (n : Node) : Prop :=
  n.arrow?.isSome ∧ s.nextLabel ≤ n.label ∧ n.label < s'.nextLabel

variable {n m k k' image : Node} {v w : VarId} {s s' : NodeSupply} {path path' : List TyPart}

theorem mem_leaves_of_at? (hat : n.at? path = some k) (hv : v ∈ k.ty.leaves) : v ∈ n.ty.leaves := by
  induction path generalizing n with
  | nil =>
    obtain rfl : n = k := by simpa using hat
    exact hv
  | cons which path ih =>
    cases n with
    | named | var => cases hat
    | arrow label parameter result =>
      apply List.mem_append.2
      cases which with
      | parameter => exact .inl (ih hat)
      | result => exact .inr (ih hat)

theorem Above.mem_leaves (h : n.Above v path) : v ∈ n.ty.leaves := by
  obtain ⟨k, hat, hv, -⟩ := h
  exact mem_leaves_of_at? hat hv

theorem not_above_var (label : Nat) (id : VarId) : ¬ (var label id).Above v path := by
  rintro ⟨k, hat, hv, hne⟩
  cases path with
  | nil =>
    obtain rfl : var label id = k := by simpa using hat
    obtain rfl : v = id := by simpa [Ty.leaves] using hv
    exact hne rfl
  | cons which path => cases hat

/-- How a replacement runs, by what there is to replace. -/
inductive Substitutes (v : VarId) (image : Node) : Node → NodeSupply → Node → NodeSupply → Prop
  | absent {n : Node} {s : NodeSupply} (habsent : v ∉ n.ty.leaves) : Substitutes v image n s n s
  | leaf {label : Nat} {s : NodeSupply} : Substitutes v image (.var label v) s image s
  | arrow {label : Nat} {parameter result parameter' result' : Node} {s s₁ s₂ : NodeSupply}
    (hmentions : v ∈ (Node.arrow label parameter result).ty.leaves)
    (hparameter : Substitutes v image parameter s parameter' s₁)
    (hresult : Substitutes v image result s₁ result' s₂) :
    Substitutes v image (.arrow label parameter result) s (.arrow s₂.nextLabel parameter' result')
      { s₂ with nextLabel := s₂.nextLabel + 1 }

theorem run_substitute (n : Node) (v : VarId) (image : Node) (s : NodeSupply) :
    Substitutes v image n s ((n.substitute v image).run s).1 ((n.substitute v image).run s).2 := by
  unfold substitute
  by_cases hmentions : v ∈ n.ty.leaves
  · rw [if_pos ((Ty.occurs_iff _ v).2 hmentions)]
    cases n with
    | named label name => simp [Ty.leaves] at hmentions
    | var label id =>
      obtain rfl : v = id := by simpa [Ty.leaves] using hmentions
      exact .leaf
    | arrow label parameter result =>
      exact .arrow hmentions (run_substitute parameter v image s) (run_substitute result v image _)
  · rw [if_neg fun hoccurs => hmentions ((Ty.occurs_iff _ v).1 hoccurs)]
    exact .absent hmentions

namespace Substitutes

theorem ty_eq (h : Substitutes v image n s m s') : m.ty = n.ty.substitute v image.ty := by
  induction h with
  | absent habsent => exact (Ty.substitute_of_not_mem habsent).symm
  | leaf => exact (if_pos rfl).symm
  | arrow _ _ _ ihp ihr => rw [ty_arrow, ihp, ihr, ty_arrow, Ty.substitute]

theorem untouched (h : Substitutes v image n s m s') (hat : n.at? path = some k)
    (habsent : v ∉ k.ty.leaves) : m.at? path = some k := by
  induction h generalizing path with
  | absent => exact hat
  | leaf =>
    cases path with
    | nil =>
      obtain rfl : _ = k := Option.some.inj hat
      simp [Ty.leaves] at habsent
    | cons which path => cases hat
  | arrow hmentions _ _ ihp ihr =>
    match path with
    | [] =>
      obtain rfl : _ = k := Option.some.inj hat
      exact absurd hmentions habsent
    | .parameter :: path => exact ihp hat
    | .result :: path => exact ihr hat

theorem replaced (h : Substitutes v image n s m s') (hat : n.at? path = some k)
    (hvar : k.ty = .var v) : m.at? path = some image := by
  have hv : v ∈ k.ty.leaves := by simp [hvar, Ty.leaves]
  induction h generalizing path with
  | absent habsent => exact absurd (mem_leaves_of_at? hat hv) habsent
  | leaf =>
    cases path with
    | nil => rfl
    | cons which path => cases hat
  | arrow _ _ _ ihp ihr =>
    match path with
    | [] =>
      obtain rfl : _ = k := Option.some.inj hat
      cases hvar
    | .parameter :: path => exact ihp hat
    | .result :: path => exact ihr hat

theorem next_le (h : Substitutes v image n s m s') : s.nextLabel ≤ s'.nextLabel := by
  induction h with
  | absent | leaf => exact Nat.le_refl _
  | arrow _ _ _ ihp ihr => exact (ihp.trans ihr).trans (Nat.le_succ _)

theorem rebuilt (h : Substitutes v image n s m s') (habove : n.Above v path) :
    ∃ k, m.at? path = some k ∧ BuiltArrow s s' k := by
  induction h generalizing path with
  | absent habsent => exact absurd habove.mem_leaves habsent
  | leaf => exact absurd habove (not_above_var _ v)
  | arrow _ hparameter hresult ihp ihr =>
    match path with
    | [] => exact ⟨_, rfl, rfl, hparameter.next_le.trans hresult.next_le, Nat.lt_succ_self _⟩
    | .parameter :: path =>
      obtain ⟨k, hk, harrow, hfirst, hlast⟩ := ihp habove
      exact ⟨k, hk, harrow, hfirst, Nat.lt_succ_of_lt (hlast.trans_le hresult.next_le)⟩
    | .result :: path =>
      obtain ⟨k, hk, harrow, hfirst, hlast⟩ := ihr habove
      exact ⟨k, hk, harrow, hparameter.next_le.trans hfirst, Nat.lt_succ_of_lt hlast⟩

theorem builtArrow (h : Substitutes v image n s m s') (habove : n.Above v path)
    (hat : m.at? path = some k) : BuiltArrow s s' k := by
  obtain ⟨k', hk', hbuilt⟩ := h.rebuilt habove
  obtain rfl : k' = k := Option.some.inj (hk'.symm.trans hat)
  exact hbuilt

theorem apart (h : Substitutes v image n s m s') (habove : n.Above v path)
    (habove' : n.Above v path') (hat : m.at? path = some k) (hat' : m.at? path' = some k')
    (hsame : k.label = k'.label) : path = path' := by
  induction h generalizing path path' with
  | absent habsent => exact absurd habove.mem_leaves habsent
  | leaf => exact absurd habove (not_above_var _ v)
  | @arrow label parameter result parameter' result' s s₁ s₂ _ hparameter hresult ihp ihr =>
    -- The parameter's arrows are built first, then the result's, and the root last.
    have hparameters : ∀ {path k}, parameter.Above v path → parameter'.at? path = some k →
        k.label < s₁.nextLabel := fun habove hat => (hparameter.builtArrow habove hat).2.2
    have hresults : ∀ {path k}, result.Above v path → result'.at? path = some k →
        s₁.nextLabel ≤ k.label ∧ k.label < s₂.nextLabel :=
      fun habove hat => (hresult.builtArrow habove hat).2
    have hsides : ∀ {which path k}, (Node.arrow label parameter result).Above v (which :: path) →
        (Node.arrow s₂.nextLabel parameter' result').at? (which :: path) = some k →
        k.label < s₂.nextLabel := by
      intro which path k habove hat
      cases which with
      | parameter => exact (hparameters habove hat).trans_le hresult.next_le
      | result => exact (hresults habove hat).2
    match path, path' with
    | [], [] => rfl
    | [], which :: path' =>
      obtain rfl : _ = k := Option.some.inj hat
      exact absurd hsame.symm (hsides habove' hat').ne
    | which :: path, [] =>
      obtain rfl : _ = k' := Option.some.inj hat'
      exact absurd hsame (hsides habove hat).ne
    | .parameter :: path, .parameter :: path' => rw [ihp habove habove' hat hat']
    | .result :: path, .result :: path' => rw [ihr habove habove' hat hat']
    | .parameter :: path, .result :: path' =>
      exact absurd hsame ((hparameters habove hat).trans_le (hresults habove' hat').1).ne
    | .result :: path, .parameter :: path' =>
      exact absurd hsame.symm ((hparameters habove' hat').trans_le (hresults habove hat).1).ne

theorem inside (h : Substitutes v image n s m s') (hat : m.at? path = some k) :
    (n.at? path).isSome ∨ ∃ above below leaf, path = above ++ below ∧ n.at? above = some leaf ∧
      leaf.ty = .var v ∧ image.at? below = some k := by
  induction h generalizing path with
  | absent => exact .inl (hat ▸ rfl)
  | leaf => exact .inr ⟨[], path, _, rfl, rfl, rfl, hat⟩
  | arrow _ _ _ ihp ihr =>
    match path with
    | [] => exact .inl rfl
    | .parameter :: path =>
      obtain hold | ⟨above, below, leaf, rfl, hleaf⟩ := ihp hat
      · exact .inl hold
      · exact .inr ⟨.parameter :: above, below, leaf, rfl, hleaf⟩
    | .result :: path =>
      obtain hold | ⟨above, below, leaf, rfl, hleaf⟩ := ihr hat
      · exact .inl hold
      · exact .inr ⟨.result :: above, below, leaf, rfl, hleaf⟩

end Substitutes

/-- What the node `n` has become, as `m`, between two moments of the supply. -/
structure Replaced (n : Node) (v : VarId) (image : Node) (s : NodeSupply) (m : Node)
    (s' : NodeSupply) : Prop where
  /-- All leaves `v` are replaced at once, so the replacement may contain `v`. -/
  ty : m.ty = n.ty.subst fun w => if w = v then image.ty else .var w
  freeVars : ∀ w, w ∈ m.ty.freeVars ↔
    w ∈ n.ty.freeVars ∧ w ≠ v ∨ v ∈ n.ty.freeVars ∧ w ∈ image.ty.freeVars
  untouched : ∀ path k, n.at? path = some k → v ∉ k.ty.freeVars → m.at? path = some k
  replaced : ∀ path k, n.at? path = some k → k.ty = .var v → m.at? path = some image
  rebuilt : ∀ path k, n.at? path = some k → v ∈ k.ty.freeVars → k.ty ≠ .var v →
    ∃ k', m.at? path = some k' ∧ BuiltArrow s s' k'
  /-- The new arrows are different ones at different positions. -/
  apart : ∀ path path' k k', n.Above v path → n.Above v path' → m.at? path = some k →
    m.at? path' = some k' → k.identical k' = true → path = path'
  /-- Positions that `n` has not are inside a replacement. -/
  inside : ∀ path k, m.at? path = some k → n.at? path = none → ∃ above below leaf,
    path = above ++ below ∧ n.at? above = some leaf ∧ leaf.ty = .var v ∧ image.at? below = some k

/-- Replacing a variable replaces its leaves and nothing else: a subtree without it stays the same
node, the replacement itself stands at every leaf, and every arrow above one is new. -/
theorem substitute_replaces (n : Node) (v : VarId) (image : Node) (s : NodeSupply) :
    Replaced n v image s ((n.substitute v image).run s).1 ((n.substitute v image).run s).2 := by
  have hrun := run_substitute n v image s
  constructor
  · rw [hrun.ty_eq, Ty.substitute_eq_subst]
  · intro w
    simp only [Ty.mem_freeVars, hrun.ty_eq, Ty.mem_leaves_substitute_iff]
  · intro path k hat habsent
    exact hrun.untouched hat fun hv => habsent (Ty.mem_freeVars.2 hv)
  · intro path k hat hvar
    exact hrun.replaced hat hvar
  · intro path k hat hv hne
    exact hrun.rebuilt ⟨k, hat, Ty.mem_freeVars.1 hv, hne⟩
  · intro path path' k k' habove habove' hat hat' hsame
    exact hrun.apart habove habove' hat hat' (eq_of_beq hsame)
  · intro path k hat hnew
    exact (hrun.inside hat).resolve_left (by simp [hnew])

/-- The replacement mentions the variable. The side without it is kept, and of the two arrows that
are built the inner one comes first. -/
example : ((arrow 9 (arrow 8 sharedInt sharedBool) (arrow 7 (var 6 ⟨1⟩) sharedInt)).substitute ⟨1⟩
      (arrow 5 (var 4 ⟨1⟩) sharedInt)).run { nextLabel := 10 } =
    (arrow 11 (arrow 8 sharedInt sharedBool) (arrow 10 (arrow 5 (var 4 ⟨1⟩) sharedInt) sharedInt),
      { nextLabel := 12 }) := by
  cbv

end GraphReduction.Node
