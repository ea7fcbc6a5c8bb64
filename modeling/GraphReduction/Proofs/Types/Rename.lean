import Mathlib
import GraphReduction.Proofs.Types.Supply

/-! What renaming achieves: an instance of a declared type has as instances what the declared type
has, and all of them, by a choice for the variables drawn; and a generalized type has the same
instances as the type itself, since the generic variables of different places are different. -/
namespace GraphReduction

namespace Ty

/-- What replacing the variables of a type can give. -/
def IsInstanceOf (t general : Ty) : Prop := ∃ ρ : Assignment, t = general.subst ρ

/-- All variables of the type have been drawn. -/
def Issued (s : VarSupply) (t : Ty) : Prop := ∀ v ∈ t.leaves, s.Issued v

theorem Issued.mono {s s' : VarSupply} {t : Ty} (h : t.Issued s) (hnext : s.next ≤ s'.next) :
    t.Issued s' := fun v hv => (h v hv).mono hnext

theorem IsInstanceOf.refl (t : Ty) : t.IsInstanceOf t := ⟨var, (subst_id t).symm⟩

theorem IsInstanceOf.trans {t middle general : Ty} (h : t.IsInstanceOf middle)
    (h' : middle.IsInstanceOf general) : t.IsInstanceOf general := by
  obtain ⟨ρ, rfl⟩ := h
  obtain ⟨ρ', rfl⟩ := h'
  exact ⟨_, subst_subst ρ ρ' general⟩

theorem IsInstanceOf.subst {t general : Ty} (h : t.IsInstanceOf general) (θ : Assignment) :
    (t.subst θ).IsInstanceOf general := IsInstanceOf.trans ⟨θ, rfl⟩ h

end Ty

/-- On the variables drawn so far the two assignments are the same. -/
def VarSupply.Agree (s : VarSupply) (σ σ' : Assignment) : Prop := ∀ v, s.Issued v → σ' v = σ v

namespace VarSupply

variable {s s' : VarSupply} {σ σ' σ'' : Assignment}

theorem Agree.refl (s : VarSupply) (σ : Assignment) : s.Agree σ σ := fun _ _ => rfl

theorem Agree.trans (h : s.Agree σ σ') (hnext : s.next ≤ s'.next) (h' : s'.Agree σ' σ'') :
    s.Agree σ σ'' := fun v hv => (h' v (hv.mono hnext)).trans (h v hv)

theorem Agree.subst_eq (h : s.Agree σ σ') {t : Ty} (ht : t.Issued s) : t.subst σ' = t.subst σ :=
  Ty.subst_congr fun v hv => h v (ht v hv)

theorem agree_update (hfits : s.next < capacity) (σ : Assignment) (t : Ty) :
    s.Agree σ (Function.update σ s.fresh.1 t) := fun v hv => by
  have hne : v ≠ s.fresh.1 := fun heq => not_issued_fresh hfits (heq ▸ hv)
  exact Function.update_of_ne hne t σ

end VarSupply

namespace Ty

/-- The image of each renamed variable has the type that `ρ` gives to the variable. -/
def Realizes (known : Renaming) (ρ σ : Assignment) : Prop :=
  ∀ v image, known.lookup v = some image → image.subst σ = ρ v

/-- The images are built from variables that have been drawn. -/
def ImagesIssued (s : VarSupply) (known : Renaming) : Prop :=
  ∀ v image, known.lookup v = some image → image.Issued s

theorem lookup_cons_of_ne {v w : VarId} (hne : v ≠ w) (image : Ty) (known : Renaming) :
    List.lookup v ((w, image) :: known) = known.lookup v := by
  rw [List.lookup_cons, beq_eq_false_iff_ne.2 hne]

/-- What renaming does to the supply, the renaming and the type. -/
structure Renames (known : Renaming) (s : VarSupply) (t renamed : Ty) (known' : Renaming)
    (s' : VarSupply) : Prop where
  next : s.next ≤ s'.next
  generics : s'.generics = s.generics
  extends_known : ∀ v image, known.lookup v = some image → known'.lookup v = some image
  covers : ∀ v ∈ t.leaves, (known'.lookup v).isSome
  eq : renamed = t.subst fun v => (known'.lookup v).getD (.var v)
  issued : ImagesIssued s known → ImagesIssued s' known'
  realizes : s'.next ≤ VarSupply.capacity → ImagesIssued s known → ∀ ρ σ, Realizes known ρ σ →
    ∃ σ', s.Agree σ σ' ∧ Realizes known' ρ σ'

theorem renames_instantiateWith (t : Ty) (known : Renaming) (s : VarSupply) :
    Renames known s t (t.instantiateWith known s).1 (t.instantiateWith known s).2.1
      (t.instantiateWith known s).2.2 := by
  -- On the type, for every renaming built so far: the right side of an arrow starts from the one
  -- that the left side leaves.
  induction t generalizing known s with
  | named name =>
    exact ⟨Nat.le_refl _, rfl, fun _ _ h => h, by simp [leaves], rfl, fun h => h,
      fun _ _ _ σ h => ⟨σ, .refl s σ, h⟩⟩
  | var id =>
    cases hknown : known.lookup id with
    | some image =>
      simp only [instantiateWith, hknown]
      refine ⟨Nat.le_refl _, rfl, fun _ _ h => h, fun v hv => ?_, by simp [hknown],
        fun h => h, fun _ _ _ σ h => ⟨σ, .refl s σ, h⟩⟩
      obtain rfl : v = id := by simpa [leaves] using hv
      rw [hknown, Option.isSome_some]
    | none =>
      simp only [instantiateWith, hknown]
      have hother : ∀ v image, known.lookup v = some image → v ≠ id := by
        rintro v image h rfl
        rw [hknown] at h
        cases h
      refine ⟨Nat.le_succ _, rfl, fun v image h => ?_, by simp [leaves],
        by simp, fun h v image hv => ?_, fun hfits himages ρ σ h => ?_⟩
      · rw [lookup_cons_of_ne (hother v image h), h]
      · by_cases hv' : v = id
        · subst hv'
          obtain rfl : var s.fresh.1 = image := by simpa using hv
          simpa [Issued, leaves] using VarSupply.issued_fresh s
        · rw [lookup_cons_of_ne hv'] at hv
          exact (h v image hv).mono (Nat.le_succ _)
      · have hagree := VarSupply.agree_update (s := s) hfits σ (ρ id)
        refine ⟨_, hagree, fun v image hv => ?_⟩
        by_cases hv' : v = id
        · subst hv'
          obtain rfl : var s.fresh.1 = image := by simpa using hv
          exact Function.update_self ..
        · rw [lookup_cons_of_ne hv'] at hv
          exact (hagree.subst_eq (himages v image hv)).trans (h v image hv)
  | arrow parameter result ihp ihr =>
    have hp := ihp known s
    have hr := ihr (parameter.instantiateWith known s).2.1 (parameter.instantiateWith known s).2.2
    simp only [instantiateWith]
    refine ⟨hp.next.trans hr.next, hr.generics.trans hp.generics,
      fun v image h => hr.extends_known v image (hp.extends_known v image h), fun v hv => ?_, ?_,
      fun h => hr.issued (hp.issued h), fun hfits himages ρ σ h => ?_⟩
    · rcases List.mem_append.1 hv with hv | hv
      · obtain ⟨image, himage⟩ := Option.isSome_iff_exists.1 (hp.covers v hv)
        rw [hr.extends_known v image himage, Option.isSome_some]
      · exact hr.covers v hv
    · rw [subst_arrow, ← hr.eq, hp.eq]
      congr 1
      refine subst_congr fun v hv => ?_
      obtain ⟨image, himage⟩ := Option.isSome_iff_exists.1 (hp.covers v hv)
      rw [himage, hr.extends_known v image himage]
    · obtain ⟨σ₁, hagree₁, h₁⟩ := hp.realizes (hr.next.trans hfits) himages ρ σ h
      obtain ⟨σ₂, hagree₂, h₂⟩ := hr.realizes hfits (hp.issued himages) ρ σ₁ h₁
      exact ⟨σ₂, hagree₁.trans hp.next hagree₂, h₂⟩

theorem mem_leaves_subst {θ : Assignment} {t : Ty} {v : VarId} (h : v ∈ (t.subst θ).leaves) :
    ∃ w ∈ t.leaves, v ∈ (θ w).leaves := by
  induction t with
  | named name => simp [leaves] at h
  | var id => exact ⟨id, by simp [leaves], h⟩
  | arrow parameter result ihp ihr =>
    rw [subst_arrow, leaves, List.mem_append] at h
    rcases h with h | h
    · obtain ⟨w, hw, hv⟩ := ihp h
      exact ⟨w, List.mem_append_left _ hw, hv⟩
    · obtain ⟨w, hw, hv⟩ := ihr h
      exact ⟨w, List.mem_append_right _ hw, hv⟩

theorem Renames.subst_eq {known known' : Renaming} {s s' : VarSupply} {t renamed : Ty}
    (h : Renames known s t renamed known' s') {ρ σ : Assignment} (hrealizes : Realizes known' ρ σ) :
    renamed.subst σ = t.subst ρ := by
  rw [h.eq, subst_subst]
  refine subst_congr fun v hv => ?_
  obtain ⟨image, himage⟩ := Option.isSome_iff_exists.1 (h.covers v hv)
  simpa [himage] using hrealizes v image himage

/-- What drawing an instance does: the new type is an instance, and its new variables can be chosen
so that it becomes any instance. -/
structure Instantiates (s : VarSupply) (t instance_ : Ty) (s' : VarSupply) : Prop where
  next : s.next ≤ s'.next
  generics : s'.generics = s.generics
  issued : instance_.Issued s'
  isInstanceOf : instance_.IsInstanceOf t
  complete : s'.next ≤ VarSupply.capacity → ∀ σ image, image.IsInstanceOf t →
    ∃ σ', s.Agree σ σ' ∧ instance_.subst σ' = image

theorem instantiates_instantiate (t : Ty) (s : VarSupply) :
    Instantiates s t (t.instantiate s).1 (t.instantiate s).2 := by
  have h := renames_instantiateWith t [] s
  refine ⟨h.next, h.generics, fun v hv => ?_, ⟨_, h.eq⟩, ?_⟩
  · rw [show (t.instantiate s).1 = (t.instantiateWith [] s).1 from rfl, h.eq] at hv
    obtain ⟨w, hw, hv⟩ := mem_leaves_subst hv
    obtain ⟨image, himage⟩ := Option.isSome_iff_exists.1 (h.covers w hw)
    rw [himage] at hv
    exact h.issued (by simp [ImagesIssued]) w image himage v hv
  · rintro hfits σ _ ⟨ρ, rfl⟩
    obtain ⟨σ', hagree, hrealizes⟩ :=
      h.realizes hfits (by simp [ImagesIssued]) ρ σ (by simp [Realizes])
    exact ⟨σ', hagree, h.subst_eq hrealizes⟩

/-! Generalizing -/

theorem mem_collectVars {found : List VarId} {stack : List Ty} {v : VarId} :
    v ∈ collectVars found stack ↔ v ∈ found ∨ v ∈ stack.flatMap leaves := by
  fun_induction collectVars found stack with
  | case1 => simp
  | case2 found name stack ih => simp [ih, leaves]
  | case3 found id stack ih =>
    simp only [dite_eq_ite] at ih
    rw [ih]
    by_cases hold : id ∈ found
    · simp only [hold, if_true, List.flatMap_cons, leaves, List.mem_append, List.mem_singleton]
      grind
    · simp [hold, leaves, or_assoc]
  | case4 found parameter result stack ih => simp [ih, leaves]

theorem mem_freeVars {t : Ty} {v : VarId} : v ∈ t.freeVars ↔ v ∈ t.leaves := by
  simp [freeVars, mem_collectVars]

theorem lookup_zip {vs : List VarId} {images : List Ty} (hlength : images.length = vs.length)
    {v : VarId} (hv : v ∈ vs) : ((vs.zip images).lookup v).isSome := by
  induction vs generalizing images with
  | nil => simp at hv
  | cons w vs ih =>
    obtain ⟨image, images, rfl⟩ := List.exists_cons_of_length_eq_add_one hlength
    by_cases hvw : v = w
    · simp [hvw]
    · have hrest : v ∈ vs := by simpa [hvw] using hv
      rw [List.zip_cons_cons, lookup_cons_of_ne hvw]
      exact ih (by simpa using hlength) hrest

theorem instantiateWith_of_known {t : Ty} {known : Renaming}
    (hknown : ∀ v ∈ t.leaves, (known.lookup v).isSome) (s : VarSupply) :
    t.instantiateWith known s = (t.subst fun v => (known.lookup v).getD (.var v), known, s) := by
  induction t with
  | named name => rfl
  | var id =>
    obtain ⟨image, himage⟩ := Option.isSome_iff_exists.1 (hknown id (by simp [leaves]))
    simp [instantiateWith, himage]
  | arrow parameter result ihp ihr =>
    simp only [leaves, List.mem_append] at hknown
    simp [instantiateWith, ihp fun v hv => hknown v (.inl hv), ihr fun v hv => hknown v (.inr hv)]

theorem realizes_zip {vs names : List VarId} (hnodup : names.Nodup)
    (hlength : names.length = vs.length) (ρ : Assignment) :
    ∃ σ, Realizes (vs.zip (names.map var)) ρ σ := by
  induction vs generalizing names with
  | nil => exact ⟨ρ, by simp [Realizes]⟩
  | cons w vs ih =>
    obtain ⟨name, names, rfl⟩ := List.exists_cons_of_length_eq_add_one hlength
    obtain ⟨hnew, hnodup⟩ := List.nodup_cons.1 hnodup
    obtain ⟨σ, hσ⟩ := ih hnodup (by simpa using hlength)
    refine ⟨Function.update σ name (ρ w), fun v image hv => ?_⟩
    rw [List.map_cons, List.zip_cons_cons] at hv
    by_cases hvw : v = w
    · subst hvw
      obtain rfl : var name = image := by simpa using hv
      exact Function.update_self ..
    · rw [lookup_cons_of_ne hvw] at hv
      obtain ⟨before, after, heq, -⟩ := List.lookup_eq_some_iff.1 hv
      have hmem : (v, image) ∈ vs.zip (names.map var) := by simp [heq]
      obtain ⟨other, hother, rfl⟩ := List.mem_map.1 (List.of_mem_zip hmem).2
      have hne : other ≠ name := fun h => hnew (h ▸ hother)
      rw [subst_var, Function.update_of_ne hne]
      exact hσ v (var other) hv

theorem next_generalize (t : Ty) (s : VarSupply) : s.next ≤ (t.generalize s).2.next :=
  (VarSupply.next_firstGenerics s _).trans (renames_instantiateWith t _ _).next

theorem isInstanceOf_generalize {t : Ty} {s : VarSupply} (horderly : s.Orderly)
    (hfits : (t.generalize s).2.next ≤ VarSupply.capacity) (T : Ty) :
    T.IsInstanceOf (t.generalize s).1 ↔ T.IsInstanceOf t := by
  obtain ⟨_, -, -, hlength⟩ := VarSupply.firstGenerics_spec s t.freeVars.length
  have hknown : ∀ v ∈ t.leaves,
      ((t.freeVars.zip ((s.firstGenerics t.freeVars.length).1.map var)).lookup v).isSome :=
    fun v hv => lookup_zip (by simp [hlength]) (mem_freeVars.2 hv)
  have hgeneralize := instantiateWith_of_known hknown (s.firstGenerics t.freeVars.length).2
  have hrenames := renames_instantiateWith t
    (t.freeVars.zip ((s.firstGenerics t.freeVars.length).1.map var))
    (s.firstGenerics t.freeVars.length).2
  constructor
  · exact fun h => h.trans ⟨_, hrenames.eq⟩
  · rintro ⟨ρ, rfl⟩
    have hnodup : (s.firstGenerics t.freeVars.length).1.Nodup :=
      horderly.nodup_firstGenerics (hrenames.next.trans hfits)
    obtain ⟨σ, hσ⟩ := realizes_zip hnodup hlength ρ
    refine ⟨σ, (hrenames.subst_eq ?_).symm⟩
    rw [hgeneralize]
    exact hσ

end Ty

end GraphReduction
