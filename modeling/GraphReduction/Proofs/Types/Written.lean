import Mathlib
import GraphReduction.Ty.Expr

/-! What holds of the types that are written. A computation over a scope goes on from one stage to a
later one. What a stage is, and which nodes and variables are in order at it, is left open here: if
types are put together in order from parts that are, so is the type that an expression denotes. -/
namespace GraphReduction

/-- From a stage the computation goes on to a later one, and what it returns there is as `P` says. -/
def Builds {σ ι α : Type} (le : ι → ι → Prop) (fits : σ → ι → Prop) (stage : ι) (act : StateM σ α)
    (P : ι → α → Prop) : Prop :=
  ∀ s, fits s stage → ∃ stage', le stage stage' ∧ fits (act.run s).2 stage' ∧
    P stage' (act.run s).1

namespace Builds

variable {σ ι α β : Type} {le : ι → ι → Prop} [IsPreorder ι le] {fits : σ → ι → Prop} {stage : ι}
  {act : StateM σ α} {next : α → StateM σ β} {P : ι → α → Prop} {Q : ι → β → Prop}

theorem pure {a : α} (h : P stage a) : Builds le fits stage (Pure.pure a : StateM σ α) P :=
  fun _ hfits => ⟨stage, Std.Refl.refl stage, hfits, h⟩

theorem bind (h : Builds le fits stage act P)
    (hnext : ∀ stage' a, le stage stage' → P stage' a → Builds le fits stage' (next a) Q) :
    Builds le fits stage (act >>= next) Q := by
  intro s hfits
  obtain ⟨stage₁, hle₁, hfits₁, ha⟩ := h s hfits
  obtain ⟨stage₂, hle₂, hfits₂, hb⟩ := hnext stage₁ _ hle₁ ha _ hfits₁
  exact ⟨stage₂, IsTrans.trans _ _ _ hle₁ hle₂, hfits₂, hb⟩

omit [IsPreorder ι le] in
theorem imp {P' : ι → α → Prop} (h : Builds le fits stage act P)
    (hP : ∀ stage' a, le stage stage' → P stage' a → P' stage' a) :
    Builds le fits stage act P' := by
  intro s hfits
  obtain ⟨stage', hle, hfits', ha⟩ := h s hfits
  exact ⟨stage', hle, hfits', hP stage' _ hle ha⟩

theorem get : Builds le fits stage (MonadState.get : StateM σ σ) fun stage' s => fits s stage' :=
  fun _ hfits => ⟨stage, Std.Refl.refl stage, hfits, hfits⟩

theorem foldlM {γ : Type} {f : γ → α → StateM σ γ} {R : ι → γ → Prop} {xs : List α} {c : γ}
    (hc : R stage c)
    (hf : ∀ stage' c, le stage stage' → R stage' c → ∀ x ∈ xs,
      Builds le fits stage' (f c x) R) :
    Builds le fits stage (xs.foldlM f c) R := by
  induction xs generalizing stage c with
  | nil => exact .pure hc
  | cons x xs ih =>
    rw [List.foldlM_cons]
    refine .bind (hf stage c (Std.Refl.refl stage) hc x List.mem_cons_self) fun _ c' hle hc' =>
      ih hc' fun stage'' c'' hle' hc'' y hy =>
        hf stage'' c'' (IsTrans.trans _ _ _ hle hle') hc'' y (List.mem_cons_of_mem x hy)

theorem mapM {f : α → StateM σ β} {R : ι → β → Prop} {xs : List α}
    (hmono : ∀ {stage stage' b}, le stage stage' → R stage b → R stage' b)
    (hf : ∀ stage', le stage stage' → ∀ x, Builds le fits stage' (f x) R) :
    Builds le fits stage (xs.mapM f) fun stage' ys => ∀ y ∈ ys, R stage' y := by
  induction xs generalizing stage with
  | nil => exact .pure (by simp)
  | cons x xs ih =>
    rw [List.mapM_cons]
    refine .bind (hf stage (Std.Refl.refl stage) x) fun stage₁ y hle₁ hy => ?_
    refine .bind (ih fun stage' hle => hf stage' (IsTrans.trans _ _ _ hle₁ hle))
      fun stage₂ ys hle₂ hys => .pure fun z hz => ?_
    obtain rfl | hz := List.mem_cons.1 hz
    · exact hmono hle₂ hy
    · exact hys z hz

end Builds

namespace TyExpr

/-- A computation that may fail, and whose result is as `P` says if it does not. -/
def Yields {ι α : Type} (le : ι → ι → Prop) (fits : TyScope → ι → Prop) (stage : ι)
    (act : Denotes α) (P : ι → α → Prop) : Prop :=
  Builds le fits stage act.run fun stage' r => ∀ a, r = .ok a → P stage' a

variable {ι α β : Type} {le : ι → ι → Prop} [IsPreorder ι le] {fits : TyScope → ι → Prop} {stage : ι}

namespace Yields

variable {act : Denotes α} {next : α → Denotes β} {P : ι → α → Prop} {Q : ι → β → Prop}

theorem pure {a : α} (h : P stage a) : Yields le fits stage (Pure.pure a) P :=
  Builds.pure fun _ ha => Except.ok.inj ha ▸ h

theorem throw (e : TyExprError) :
    Yields le fits stage (MonadExcept.throw e : Denotes α) P :=
  Builds.pure fun _ ha => nomatch ha

theorem bind (h : Yields le fits stage act P)
    (hnext : ∀ stage' a, le stage stage' → P stage' a → Yields le fits stage' (next a) Q) :
    Yields le fits stage (act >>= next) Q := by
  have hrun : (act >>= next).run = act.run >>= ExceptT.bindCont next := rfl
  unfold Yields
  rw [hrun]
  refine Builds.bind h fun stage' r hle hr => ?_
  cases r with
  | ok a => exact hnext stage' a hle (hr a rfl)
  | error e => exact throw e

theorem lift {act : StateM TyScope α} (h : Builds le fits stage act P) :
    Yields le fits stage (liftScope act) P :=
  Builds.bind h fun _ _ _ ha => .pure fun _ heq => Except.ok.inj heq ▸ ha

end Yields

open TyScope (liftBuilding varOfName)

/-- Nodes and variables that are in order stay so, those that a scope has are, and what is made is
if its parts are. -/
structure Rules {ι : Type} (le : ι → ι → Prop) (fits : TyScope → ι → Prop)
    (node : ι → Node → Prop) (var : ι → VarId → Prop) : Prop where
  mono {stage stage' : ι} {n : Node} (hle : le stage stage') (h : node stage n) : node stage' n
  base {scope : TyScope} {stage : ι} (h : fits scope stage) (type : BaseTy) : node stage type.node
  register {scope : TyScope} {stage : ι} (h : fits scope stage) :
    ∀ p ∈ scope.registers, node stage p.2
  newNamed (stage : ι) (name : TypeName) :
    Builds le fits stage (liftBuilding (Node.newNamed name)) node
  newArrow {stage : ι} {parameter result : Node} (hparameter : node stage parameter)
    (hresult : node stage result) :
    Builds le fits stage (liftBuilding (Node.newArrow parameter result)) node
  newVar {stage : ι} {v : VarId} (hv : var stage v) :
    Builds le fits stage (liftBuilding (Node.newVar v)) node
  genericVar (stage : ι) (index : Nat) :
    Builds le fits stage (liftBuilding (Building.genericVar index)) var
  varOfName (stage : ι) (name : String) : Builds le fits stage (varOfName name) var

namespace Rules

variable {node : ι → Node → Prop} {var : ι → VarId → Prop} (rules : Rules le fits node var)

include rules

theorem arrowChain {parameters : List Node} {result : Node}
    (hparameters : ∀ p ∈ parameters, node stage p) (hresult : node stage result) :
    Builds le fits stage (liftBuilding (Node.arrowChain parameters result)) node := by
  induction parameters with
  | nil => exact .pure hresult
  | cons p parameters ih =>
    rw [List.forall_mem_cons] at hparameters
    exact (ih hparameters.2).bind fun _ _ hle hrest =>
      rules.newArrow (rules.mono hle hparameters.1) hrest

theorem deep (side : Side) {leaf : Node} (hleaf : node stage leaf) (count : Nat) :
    Builds le fits stage (liftBuilding (Node.deep side leaf count)) node := by
  induction count with
  | zero => exact .pure hleaf
  | succ count ih =>
    cases side with
    | left => exact ih.bind fun _ _ hle hinner => rules.newArrow hinner (rules.mono hle hleaf)
    | right => exact ih.bind fun _ _ hle hinner => rules.newArrow (rules.mono hle hleaf) hinner
    | both => exact ih.bind fun _ _ _ hinner => rules.newArrow hinner hinner

theorem yields_register (name : String) (stage : ι) :
    Yields le fits stage (TyExpr.register name).build node := by
  refine Yields.bind (.lift .get) fun stage' scope _ hscope => ?_
  split
  · next n hn =>
    obtain ⟨before, after, hmem, -⟩ := List.lookup_eq_some_iff.1 hn
    exact .pure (rules.register hscope (name, n) (by simp [hmem]))
  · exact .throw _

mutual

theorem yields_build (e : TyExpr) (stage : ι) : Yields le fits stage e.build node := by
  match e with
  | .named name =>
    unfold build
    split
    · exact .lift (rules.newNamed stage _)
    · exact .throw _
  | .arrow parameter result =>
    unfold build
    exact (yields_build parameter stage).bind fun stage₁ _ _ hparameter =>
      (yields_build result stage₁).bind fun _ _ hle hresult =>
        .lift (rules.newArrow (rules.mono hle hparameter) hresult)
  | .var name =>
    unfold build
    exact .lift ((rules.varOfName stage name).bind fun _ _ _ hv => rules.newVar hv)
  | .generic index =>
    unfold build
    exact .lift ((rules.genericVar stage index).bind fun _ _ _ hv => rules.newVar hv)
  | .base type =>
    unfold build
    exact fun scope hscope => ⟨stage, Std.Refl.refl stage, hscope,
      fun n hn => Except.ok.inj hn ▸ rules.base hscope type⟩
  | .chain parameters result =>
    unfold build
    exact (yields_buildAll parameters stage).bind fun stage₁ _ _ hparameters =>
      (yields_build result stage₁).bind fun _ _ hle hresult =>
        .lift (rules.arrowChain (fun p hp => rules.mono hle (hparameters p hp)) hresult)
  | .deep count side? leaf =>
    unfold build
    refine (yields_build leaf stage).bind fun _ n _ hleaf => ?_
    split
    · exact .pure hleaf
    · exact .lift (rules.deep _ hleaf count)
    · exact .throw _
  | .register name => exact rules.yields_register name stage
  | .malformed =>
    unfold build
    exact .throw _

theorem yields_buildAll (es : List TyExpr) (stage : ι) :
    Yields le fits stage (buildAll es) fun stage' ns => ∀ n ∈ ns, node stage' n := by
  match es with
  | [] =>
    unfold buildAll
    exact .pure (by simp)
  | e :: es =>
    unfold buildAll
    exact (yields_build e stage).bind fun stage₁ _ _ hn =>
      (yields_buildAll es stage₁).bind fun _ _ hle hns =>
        .pure (List.forall_mem_cons.2 ⟨rules.mono hle hn, hns⟩)

end

end Rules

end TyExpr

end GraphReduction
