import Mathlib
import GraphReduction.Proofs.Types.Draws
import GraphReduction.Proofs.Types.Drawn
import GraphReduction.Proofs.Types.Written

/-! Which variables are handed out. Whoever gets variables asks for fresh ones and for generic ones,
so what a supply has handed out is told by the requests, one after the other. -/
namespace GraphReduction

inductive Draw where
  | fresh (v : VarId)
  | generic (index : Nat) (v : VarId)

namespace Draw

def var : Draw → VarId
  | fresh v => v
  | generic _ v => v

/-- Both were requests for the generic variable of one place. -/
def SamePlace : Draw → Draw → Prop
  | generic index _, generic index' _ => index = index'
  | _, _ => False

end Draw

namespace VarSupply

/-- Requests in any order, latest last. -/
inductive HandsOut (s : VarSupply) : List Draw → VarSupply → Prop
  | nil : HandsOut s [] s
  | fresh {ds : List Draw} {s' : VarSupply} (h : HandsOut s ds s') :
    HandsOut s (ds ++ [.fresh s'.fresh.1]) s'.fresh.2
  | generic {ds : List Draw} {s' : VarSupply} (h : HandsOut s ds s') (index : Nat) :
    HandsOut s (ds ++ [.generic index (s'.generic index).1]) (s'.generic index).2

variable {s s' s'' : VarSupply} {ds es : List Draw}

namespace HandsOut

theorem append (h : s.HandsOut ds s') (h' : s'.HandsOut es s'') : s.HandsOut (ds ++ es) s'' := by
  induction h' with
  | nil => simpa using h
  | fresh _ ih => simpa using ih.fresh
  | generic _ index ih => simpa using ih.generic index

theorem next_le (h : s.HandsOut ds s') : s.next ≤ s'.next := by
  induction h with
  | nil => exact Nat.le_refl _
  | fresh _ ih => exact ih.trans (Nat.le_succ _)
  | @generic ds s' _ index ih =>
    obtain ⟨count, hsupply, -⟩ := s'.generic_spec index
    rw [hsupply, next_extend]
    exact ih.trans (Nat.le_add_right _ _)

theorem issued (h : s.HandsOut ds s') (htable : ∀ v ∈ s.generics.toList, s.Issued v) :
    ∀ v ∈ s'.generics.toList, s'.Issued v := by
  induction h with
  | nil => exact htable
  | fresh _ ih => exact fun v hv => (ih v hv).mono (Nat.le_succ _)
  | @generic ds s' _ index ih =>
    obtain ⟨count, hsupply, -⟩ := s'.generic_spec index
    rw [hsupply]
    exact issued_extend ih count

end HandsOut

/-- Requests lead from one supply to the other. -/
def Serves (s s' : VarSupply) : Prop := ∃ ds, s.HandsOut ds s'

instance : IsPreorder VarSupply Serves where
  refl _ := ⟨[], .nil⟩
  trans _ _ _ := fun ⟨_, h⟩ ⟨_, h'⟩ => ⟨_, h.append h'⟩

/-! What computations ask for -/

theorem Draws.handsOut (h : s.Draws s') : s.Serves s' := by
  obtain ⟨count, rfl⟩ := h
  induction count with
  | zero => exact ⟨[], .nil⟩
  | succ count ih =>
    obtain ⟨ds, hds⟩ := ih
    exact ⟨_, hds.fresh⟩

theorem handsOut_firstGenerics (s : VarSupply) (count : Nat) :
    s.Serves (s.firstGenerics count).2 := by
  induction count with
  | zero => exact ⟨[], .nil⟩
  | succ count ih =>
    obtain ⟨ds, hds⟩ := ih
    rw [firstGenerics_succ]
    exact ⟨_, hds.generic count⟩

end VarSupply

open VarSupply (HandsOut)

theorem Ty.handsOut_generalize (t : Ty) (s : VarSupply) :
    s.Serves (t.generalize s).2 := by
  rw [generalize_eq]
  exact s.handsOut_firstGenerics _

namespace Heap

theorem handsOut_visit (m : Heap) (depth : Nat) (h? : Option Handle) (w : Walk) :
    w.vars.Serves (m.visit depth h? w).2.vars := (m.draws_visit depth h? w).handsOut

theorem handsOut_typeOf (m : Heap) (h : Handle) (s : VarSupply) : s.Serves (m.typeOf h s).2 := by
  have hwalk := m.handsOut_visit m.visitDepth (some h) { vars := s }
  rw [typeOf]
  dsimp only
  split
  · exact hwalk
  · exact IsTrans.trans _ _ _ hwalk (Ty.handsOut_generalize _ _)

theorem handsOut_checkResult (m : Heap) (closure result : Handle) (s : VarSupply) :
    s.Serves (m.checkResult closure result s).2 := by
  have hclosure := m.handsOut_visit m.visitDepth (some closure) { vars := s }
  have hresult := m.handsOut_visit m.visitDepth (some result)
    (m.visit m.visitDepth (some closure) { vars := s }).2
  rw [checkResult]
  dsimp only
  split <;> exact IsTrans.trans _ _ _ hclosure hresult

end Heap

/-! Writing a type -/

namespace TyScope

/-- What is named in the scope has been drawn: its variables, and those of the types it holds. -/
structure Drawn (scope : TyScope) (vars : VarSupply) : Prop where
  supply : scope.supply.vars = vars
  generics : ∀ v ∈ vars.generics.toList, vars.Issued v
  names : ∀ p ∈ scope.varNames, vars.Issued p.2
  registers : ∀ p ∈ scope.registers, p.2.ty.Issued vars

variable {scope : TyScope} {vars vars' : VarSupply}

theorem Drawn.later (h : scope.Drawn vars) (hserves : vars.Serves vars') {supply : NodeSupply}
    (hvars : supply.vars = vars') : { scope with supply }.Drawn vars' := by
  obtain ⟨ds, hds⟩ := hserves
  exact ⟨hvars, hds.issued h.generics, fun p hp => (h.names p hp).mono hds.next_le,
    fun p hp => (h.registers p hp).mono hds.next_le⟩

end TyScope

namespace TyExpr

open TyScope (Drawn)

abbrev Draws {α : Type} (vars : VarSupply) (act : StateM TyScope α) (P : VarSupply → α → Prop) :
    Prop :=
  Builds VarSupply.Serves Drawn vars act P

variable {vars : VarSupply}

theorem draws_label {n : Nat → Node} (hn : ∀ label, (n label).ty.Issued vars) :
    Draws vars (TyScope.liftBuilding do return n (← Building.label)) fun vars n =>
      n.ty.Issued vars :=
  fun _ hdrawn => ⟨vars, Std.Refl.refl _, hdrawn.later (Std.Refl.refl _) hdrawn.supply, hn _⟩

theorem draws_freshVar :
    Draws vars (TyScope.liftBuilding Building.freshVar) fun vars v => vars.Issued v := by
  rintro scope hdrawn
  obtain rfl := hdrawn.supply
  have hserves : scope.supply.vars.Serves scope.supply.vars.fresh.2 := ⟨_, .fresh .nil⟩
  exact ⟨_, hserves, hdrawn.later hserves rfl, VarSupply.issued_fresh _⟩

theorem draws_genericVar (index : Nat) :
    Draws vars (TyScope.liftBuilding (Building.genericVar index)) fun vars v => vars.Issued v := by
  rintro scope hdrawn
  obtain rfl := hdrawn.supply
  have hserves : scope.supply.vars.Serves (scope.supply.vars.generic index).2 :=
    ⟨_, .generic .nil index⟩
  have hlater : Drawn { scope with
      supply := { scope.supply with vars := (scope.supply.vars.generic index).2 } } _ :=
    hdrawn.later hserves rfl
  obtain ⟨-, -, hplace⟩ := scope.supply.vars.generic_spec index
  exact ⟨_, hserves, hlater, hlater.generics _ (List.mem_of_getElem? hplace)⟩

theorem draws_varOfName (name : String) :
    Draws vars (TyScope.varOfName name) fun vars v => vars.Issued v := by
  refine Builds.get.bind fun vars scope _ hdrawn => ?_
  split
  · next v hv =>
    obtain ⟨before, after, hmem, -⟩ := List.lookup_eq_some_iff.1 hv
    exact .pure (hdrawn.names (name, v) (by simp [hmem]))
  · refine draws_freshVar.bind fun vars v _ hv =>
      Builds.bind (P := fun vars _ => vars.Issued v) ?_ fun _ _ _ hv => .pure hv
    refine fun scope hdrawn => ⟨vars, Std.Refl.refl _, ⟨hdrawn.supply, hdrawn.generics, ?_,
      hdrawn.registers⟩, hv⟩
    exact List.forall_mem_append.2 ⟨hdrawn.names, List.forall_mem_singleton.2 hv⟩

theorem rules_drawn :
    Rules VarSupply.Serves Drawn (fun vars n => n.ty.Issued vars) fun vars v => vars.Issued v where
  mono := fun ⟨_, hds⟩ hn => hn.mono hds.next_le
  base _ type := by cases type <;> simp [BaseTy.node, Node.sharedInt, Node.sharedBool,
    Node.sharedStr, Ty.Issued, Ty.leaves]
  register hdrawn := hdrawn.registers
  newNamed _ name := draws_label fun _ => by simp [Node.ty, Ty.Issued, Ty.leaves]
  newArrow hparameter hresult := draws_label fun _ => by
    simpa [Node.ty, Ty.Issued, Ty.leaves, or_imp, forall_and] using ⟨hparameter, hresult⟩
  newVar hv := draws_label fun _ => by simpa [Node.ty, Ty.Issued, Ty.leaves] using hv
  genericVar _ index := draws_genericVar index
  varOfName _ name := draws_varOfName name

end TyExpr

end GraphReduction
