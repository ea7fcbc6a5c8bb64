import Mathlib
import GraphReduction.Proofs.Types.Rename

/-! Types that differ only in the names of their variables. They are the ones that are instances of
each other, and they generalize to the same tree: the generic names are handed out by first
occurrence, which a one-to-one renaming keeps, and a generic variable drawn once stays the same. -/
namespace GraphReduction

namespace Ty

def rename (σ : VarId → VarId) (t : Ty) : Ty := t.subst fun v => var (σ v)

@[simp] theorem rename_named (σ : VarId → VarId) (name : TypeName) :
    (named name).rename σ = named name := rfl

@[simp] theorem rename_arrow (σ : VarId → VarId) (parameter result : Ty) :
    (arrow parameter result).rename σ = arrow (parameter.rename σ) (result.rename σ) := rfl

@[simp] theorem rename_var (σ : VarId → VarId) (id : VarId) : (var id).rename σ = var (σ id) := rfl

theorem rename_congr {σ τ : VarId → VarId} {t : Ty} (hsame : ∀ v ∈ t.leaves, σ v = τ v) :
    t.rename σ = t.rename τ := subst_congr fun v hv => congrArg var (hsame v hv)

theorem rename_of_fixed {σ : VarId → VarId} {t : Ty} (hfixed : ∀ v ∈ t.leaves, σ v = v) :
    t.rename σ = t := (rename_congr hfixed).trans (subst_id t)

@[simp] theorem leaves_rename (σ : VarId → VarId) (t : Ty) :
    (t.rename σ).leaves = t.leaves.map σ := by
  induction t with
  | named name => rfl
  | arrow parameter result ihp ihr => simp [leaves, ihp, ihr]
  | var id => rfl

theorem eq_of_subst_eq {θ η : Assignment} {t : Ty} (hsame : t.subst θ = t.subst η) :
    ∀ v ∈ t.leaves, θ v = η v := by
  induction t with
  | named name => simp [leaves]
  | arrow parameter result ihp ihr =>
    obtain ⟨hp, hr⟩ := arrow.inj hsame
    intro v hv
    rcases List.mem_append.1 hv with hv | hv
    · exact ihp hp v hv
    · exact ihr hr v hv
  | var id =>
    intro v hv
    obtain rfl : v = id := by simpa [leaves] using hv
    exact hsame

/-- Types that are instances of each other differ by a one-to-one renaming. -/
theorem exists_rename_of_instances {t u : Ty} (h : t.IsInstanceOf u) (h' : u.IsInstanceOf t) :
    ∃ σ, Set.InjOn σ {v | v ∈ u.leaves} ∧ t = u.rename σ := by
  obtain ⟨ρ, rfl⟩ := h
  obtain ⟨ρ', hback⟩ := h'
  -- going there and back gives every variable of `u` again, so it went to a variable
  have hround : ∀ v ∈ u.leaves, (ρ v).subst ρ' = var v := by
    refine eq_of_subst_eq ?_
    rw [← subst_subst, ← hback, subst_id]
  have hvars : ∀ v ∈ u.leaves, ∃ w, ρ v = var w ∧ ρ' w = var v := by
    intro v hv
    have hv := hround v hv
    cases hρ : ρ v with
    | named name => simp [hρ] at hv
    | arrow parameter result => simp [hρ] at hv
    | var w => exact ⟨w, rfl, by simpa [hρ] using hv⟩
  choose! σ hσ hσ' using hvars
  refine ⟨σ, fun v hv w hw hsame => ?_, subst_congr hσ⟩
  have hvar : var v = var w := by rw [← hσ' v hv, ← hσ' w hw, hsame]
  exact var.inj hvar

theorem collectVars_rename {σ : VarId → VarId} {found : List VarId} {stack : List Ty}
    (hinj : Set.InjOn σ {v | v ∈ found ++ stack.flatMap leaves}) :
    collectVars (found.map σ) (stack.map (rename σ)) = (collectVars found stack).map σ := by
  fun_induction collectVars found stack with
  | case1 found => simp [collectVars]
  | case2 found name stack ih =>
    rw [List.map_cons, rename_named, collectVars]
    exact ih (by simpa [leaves] using hinj)
  | case3 found id stack ih =>
    simp only [dite_eq_ite] at ih
    -- Whether a variable was found before survives renaming, since `σ` is one to one on those here.
    have hmem : σ id ∈ found.map σ ↔ id ∈ found := by
      constructor
      · intro h
        obtain ⟨v, hv, hsame⟩ := List.mem_map.1 h
        rwa [← hinj (by simp [hv]) (by simp [leaves]) hsame]
      · exact List.mem_map_of_mem
    rw [List.map_cons, rename_var, collectVars]
    by_cases hold : id ∈ found
    · rw [if_pos hold] at ih ⊢
      rw [if_pos (hmem.2 hold)]
      refine ih (hinj.mono fun v hv => ?_)
      rcases List.mem_append.1 hv with hv | hv
      · exact List.mem_append_left _ hv
      · exact List.mem_append_right _ (List.mem_append_right _ hv)
    · rw [if_neg hold] at ih ⊢
      rw [if_neg fun h => hold (hmem.1 h)]
      have := ih (by simpa [leaves] using hinj)
      rwa [List.map_append] at this
  | case4 found parameter result stack ih =>
    rw [List.map_cons, rename_arrow, collectVars]
    exact ih (by simpa [leaves] using hinj)

theorem freeVars_rename {σ : VarId → VarId} {t : Ty} (hinj : Set.InjOn σ {v | v ∈ t.leaves}) :
    (t.rename σ).freeVars = t.freeVars.map σ := by
  have hstack : Set.InjOn σ {v | v ∈ [] ++ [t].flatMap leaves} := by simpa using hinj
  exact collectVars_rename hstack

theorem lookup_zip_map {σ : VarId → VarId} {vs : List VarId} {v : VarId} (images : List Ty)
    (hinj : Set.InjOn σ {w | w ∈ vs}) (hv : v ∈ vs) :
    ((vs.map σ).zip images).lookup (σ v) = (vs.zip images).lookup v := by
  induction vs generalizing images with
  | nil => simp at hv
  | cons w vs ih =>
    cases images with
    | nil => simp
    | cons image images =>
      simp only [List.map_cons, List.zip_cons_cons]
      by_cases hvw : v = w
      · simp [hvw]
      · have hrest : v ∈ vs := by simpa [hvw] using hv
        have hne : σ v ≠ σ w := fun h => hvw (hinj hv (by simp) h)
        rw [lookup_cons_of_ne hne, lookup_cons_of_ne hvw]
        exact ih images (hinj.mono fun u hu => List.mem_cons_of_mem w hu) hrest

theorem generalize_eq (t : Ty) (s : VarSupply) :
    t.generalize s =
      (t.subst fun v => ((t.freeVars.zip
        ((s.firstGenerics t.freeVars.length).1.map var)).lookup v).getD (.var v),
        (s.firstGenerics t.freeVars.length).2) := by
  obtain ⟨_, -, -, hlength⟩ := VarSupply.firstGenerics_spec s t.freeVars.length
  simp only [generalize]
  rw [instantiateWith_of_known fun v hv => lookup_zip (by simp [hlength]) (mem_freeVars.2 hv)]

theorem generalize_rename {σ : VarId → VarId} {t : Ty} (hinj : Set.InjOn σ {v | v ∈ t.leaves})
    (s : VarSupply) : (t.rename σ).generalize s = t.generalize s := by
  have hfree : Set.InjOn σ {v | v ∈ t.freeVars} := by simpa only [mem_freeVars] using hinj
  rw [generalize_eq, generalize_eq, freeVars_rename hinj, List.length_map]
  congr 1
  rw [rename, subst_subst]
  refine subst_congr fun v hv => ?_
  have hv := mem_freeVars.2 hv
  obtain ⟨_, -, -, hlength⟩ := VarSupply.firstGenerics_spec s t.freeVars.length
  have hknown : ((t.freeVars.zip ((s.firstGenerics t.freeVars.length).1.map var)).lookup v).isSome :=
    lookup_zip (by simp [hlength]) hv
  obtain ⟨image, himage⟩ := Option.isSome_iff_exists.1 hknown
  rw [subst_var, lookup_zip_map _ hfree hv, himage, Option.getD_some, Option.getD_some]

end Ty

namespace VarSupply

variable {s s' : VarSupply}

/-- The second supply may be what the first has become: it has drawn more, and the generic
variables of the first stand at their places. -/
structure Precedes (s s' : VarSupply) : Prop where
  next : s.next ≤ s'.next
  generics : s.generics.toList <+: s'.generics.toList

theorem Precedes.trans {s'' : VarSupply} (h : s.Precedes s') (h' : s'.Precedes s'') :
    s.Precedes s'' := ⟨h.next.trans h'.next, h.generics.trans h'.generics⟩

/-- So many fresh variables have been drawn, and nothing else has happened. -/
def Draws (s s' : VarSupply) : Prop := ∃ count, s' = { s with next := s.next + count }

theorem Draws.refl (s : VarSupply) : s.Draws s := ⟨0, rfl⟩

theorem Draws.trans {s'' : VarSupply} (h : s.Draws s') (h' : s'.Draws s'') : s.Draws s'' := by
  obtain ⟨count, rfl⟩ := h
  obtain ⟨more, rfl⟩ := h'
  exact ⟨count + more, by simp only [Nat.add_assoc]⟩

theorem Draws.precedes (h : s.Draws s') : s.Precedes s' := by
  obtain ⟨count, rfl⟩ := h
  exact ⟨Nat.le_add_right _ _, List.prefix_refl _⟩

theorem Draws.next (h : s.Draws s') : s.next ≤ s'.next := h.precedes.next

theorem draws_fresh (s : VarSupply) : s.Draws s.fresh.2 := ⟨1, rfl⟩

theorem firstGenerics_of_precedes {count : Nat} (h : (s.firstGenerics count).2.Precedes s') :
    (s'.firstGenerics count).1 = (s.firstGenerics count).1 := by
  obtain ⟨drawn, hsupply, htaken, hlength⟩ := firstGenerics_spec s count
  obtain ⟨more, -, htaken', -⟩ := firstGenerics_spec s' count
  rw [htaken, List.length_take] at hlength
  obtain ⟨rest, hrest⟩ := h.generics.trans (generics_prefix_extend s' more)
  rw [htaken', ← hrest, hsupply, htaken, List.take_append_of_le_length (by omega)]

end VarSupply

namespace Ty

theorem draws_instantiateWith (t : Ty) (known : Renaming) (s : VarSupply) :
    s.Draws (t.instantiateWith known s).2.2 := by
  induction t generalizing known s with
  | named name => exact .refl s
  | var id =>
    cases hknown : known.lookup id with
    | some image => simpa only [instantiateWith, hknown] using VarSupply.Draws.refl s
    | none => simpa only [instantiateWith, hknown] using s.draws_fresh
  | arrow parameter result ihp ihr => exact (ihp known s).trans (ihr _ _)

theorem draws_instantiate (t : Ty) (s : VarSupply) : s.Draws (t.instantiate s).2 :=
  t.draws_instantiateWith [] s

theorem generalize_of_precedes {t : Ty} {s s' : VarSupply} (h : (t.generalize s).2.Precedes s') :
    (t.generalize s').1 = (t.generalize s).1 := by
  rw [generalize_eq] at h
  rw [generalize_eq, generalize_eq, VarSupply.firstGenerics_of_precedes h]

/-- Types that are instances of each other generalize to the same tree, also where the second is
generalized after the first. -/
theorem generalize_eq_of_instances {t u : Ty} {s s' : VarSupply} (h : t.IsInstanceOf u)
    (h' : u.IsInstanceOf t) (hlater : (t.generalize s).2.Precedes s') :
    (u.generalize s').1 = (t.generalize s).1 := by
  obtain ⟨σ, hinj, rfl⟩ := exists_rename_of_instances h h'
  rw [generalize_rename hinj] at hlater ⊢
  exact generalize_of_precedes hlater

end Ty

end GraphReduction
