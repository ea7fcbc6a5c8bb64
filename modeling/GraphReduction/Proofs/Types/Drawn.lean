import Mathlib
import GraphReduction.Proofs.Types.Variants

/-! Copies of types with new variables. The images of a renaming that began empty are counted off
one after the other, so two of them could meet only if there were more of them than identities; but
a renaming has no more variables than that. So a copy differs from the type by a one-to-one
renaming, however many variables have been drawn before. -/
namespace GraphReduction

namespace VarSupply

/-- Fewer draws than there are identities give different ones, also where the count is cut down. -/
theorem ofNat_add_injOn (base : Nat) :
    Set.InjOn (fun i => UInt32.ofNat (base + i)) {i | i < capacity} := by
  intro i hi j hj hsame
  have hmod : base + i ≡ base + j [MOD capacity] := by
    have := congrArg UInt32.toNat hsame
    rwa [UInt32.toNat_ofNat', UInt32.toNat_ofNat'] at this
  exact (Nat.ModEq.add_left_cancel' base hmod).eq_of_lt_of_lt hi hj

theorem length_le_capacity {vs : List VarId} (hnodup : vs.Nodup) : vs.length ≤ capacity := by
  let number : VarId → Fin capacity := fun v => ⟨v.raw.toNat, v.raw.toNat_lt⟩
  have hinjective : Function.Injective number := fun ⟨v⟩ ⟨w⟩ h =>
    congrArg VarId.mk (UInt32.toNat_inj.1 (congrArg Fin.val h))
  have hlength := (hnodup.map hinjective).length_le_card
  rwa [List.length_map, Fintype.card_fin] at hlength

end VarSupply

namespace Ty

open VarSupply (capacity)

/-- The images of the renaming have been counted off since the count was `base`, one for each
variable. -/
structure CountedOff (base : Nat) (known : Renaming) (s : VarSupply) : Prop where
  keys : (known.map Prod.fst).Nodup
  images : known.map Prod.snd =
    (List.range known.length).reverse.map fun i => var ⟨.ofNat (base + i)⟩
  next : s.next = base + known.length

variable {base : Nat} {known : Renaming} {s : VarSupply}

theorem countedOff_nil (s : VarSupply) : CountedOff s.next [] s :=
  ⟨List.nodup_nil, rfl, rfl⟩

theorem CountedOff.cons (h : CountedOff base known s) {v : VarId}
    (hnew : known.lookup v = none) : CountedOff base ((v, var s.fresh.1) :: known) s.fresh.2 := by
  constructor
  · refine List.nodup_cons.2 ⟨fun hv => ?_, h.keys⟩
    obtain ⟨p, hp, rfl⟩ := List.mem_map.1 hv
    exact absurd (List.lookup_eq_none_iff.1 hnew p hp) (by simp)
  · rw [List.map_cons, h.images, List.length_cons, List.range_succ, List.reverse_concat,
      List.map_cons, VarSupply.fresh_fst, h.next]
  · rw [VarSupply.fresh_next, h.next, List.length_cons, Nat.add_assoc]

theorem CountedOff.instantiateWith (h : CountedOff base known s) (t : Ty) :
    CountedOff base (t.instantiateWith known s).2.1 (t.instantiateWith known s).2.2 := by
  induction t generalizing known s with
  | named name => exact h
  | var id =>
    cases hknown : known.lookup id with
    | some image => simpa only [Ty.instantiateWith, hknown] using h
    | none => simpa only [Ty.instantiateWith, hknown] using h.cons hknown
  | arrow parameter result ihp ihr => exact ihr (ihp h)

theorem CountedOff.length_le (h : CountedOff base known s) : known.length ≤ capacity := by
  simpa using VarSupply.length_le_capacity h.keys

theorem CountedOff.nodup_images (h : CountedOff base known s) :
    (known.map Prod.snd).Nodup := by
  rw [h.images]
  refine List.Nodup.map_on (fun i hi j hj hsame => ?_)
    (List.nodup_reverse.2 List.nodup_range)
  have hroom := h.length_le
  simp only [List.mem_reverse, List.mem_range] at hi hj
  exact VarSupply.ofNat_add_injOn base (show i < capacity by omega) (show j < capacity by omega)
    (congrArg VarId.raw (var.inj hsame))

/-- Different variables have different images, each one of the variables counted off. -/
theorem CountedOff.exists_name (h : CountedOff base known s) :
    ∃ σ : VarId → VarId, Set.InjOn σ {v | (known.lookup v).isSome} ∧
      ∀ v, (known.lookup v).isSome →
        known.lookup v = some (var (σ v)) ∧ ∃ i < known.length, σ v = ⟨.ofNat (base + i)⟩ := by
  have hmem : ∀ {v image}, known.lookup v = some image → (v, image) ∈ known := fun hv => by
    obtain ⟨before, after, heq, -⟩ := List.lookup_eq_some_iff.1 hv
    simp [heq]
  have hvars : ∀ v, (known.lookup v).isSome →
      ∃ w, known.lookup v = some (var w) ∧ ∃ i < known.length, w = ⟨.ofNat (base + i)⟩ := by
    intro v hv
    obtain ⟨image, himage⟩ := Option.isSome_iff_exists.1 hv
    have hcounted : image ∈ known.map Prod.snd := List.mem_map_of_mem (hmem himage)
    rw [h.images] at hcounted
    obtain ⟨i, hi, rfl⟩ := List.mem_map.1 hcounted
    exact ⟨_, himage, i, by simpa using hi, rfl⟩
  choose! σ hσ hcounted using hvars
  refine ⟨σ, fun v hv w hw hsame => ?_, fun v hv => ⟨hσ v hv, hcounted v hv⟩⟩
  have hpair := List.inj_on_of_nodup_map h.nodup_images (hmem (hσ v hv)) (hmem (hσ w hw))
    (congrArg var hsame)
  exact congrArg Prod.fst hpair

theorem exists_rename_instantiate (t : Ty) (s : VarSupply) :
    ∃ σ : VarId → VarId, Set.InjOn σ {v | v ∈ t.leaves} ∧ (t.instantiate s).1 = t.rename σ := by
  have hrenames := renames_instantiateWith t [] s
  obtain ⟨σ, hinj, hσ⟩ := ((countedOff_nil s).instantiateWith t).exists_name
  refine ⟨σ, hinj.mono fun v hv => hrenames.covers v hv, ?_⟩
  calc (t.instantiate s).1
      = t.subst fun v => ((t.instantiateWith [] s).2.1.lookup v).getD (.var v) := hrenames.eq
    _ = t.rename σ := subst_congr fun v hv => by
        rw [(hσ v (hrenames.covers v hv)).1, Option.getD_some]

end Ty

end GraphReduction
