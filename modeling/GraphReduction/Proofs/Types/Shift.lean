import Mathlib
import GraphReduction.Proofs.Types.Variants

/-! Supplies that draw in step. Where one supply has drawn so many variables more than another, what
both draw next differs by a fixed one-to-one renaming. So do the instances that both draw of a type.
The renaming can keep the variables drawn before, as long as identities last; one that keeps none
goes on where they start again. -/
namespace GraphReduction

theorem lookup_map_snd {α β γ : Type} [BEq α] (f : β → γ) (known : List (α × β)) (a : α) :
    (known.map fun p => (p.1, f p.2)).lookup a = (known.lookup a).map f := by
  induction known with
  | nil => rfl
  | cons p known ih =>
    rw [List.map_cons, List.lookup_cons, List.lookup_cons, ih]
    cases a == p.1 <;> rfl

namespace VarSupply

/-- Move the variables numbered from `first` on by `distance`, the last ones around to `first`. -/
def shift (first distance : Nat) (v : VarId) : VarId :=
  if v.raw.toNat < first then v
  else ⟨.ofNat (first + (v.raw.toNat - first + distance) % (capacity - first))⟩

variable {first distance : Nat} {s s' : VarSupply}

theorem shift_of_lt {v : VarId} (hbelow : v.raw.toNat < first) : shift first distance v = v :=
  if_pos hbelow

theorem toNat_shift {v : VarId} (hfrom : first ≤ v.raw.toNat) :
    (shift first distance v).raw.toNat =
      first + (v.raw.toNat - first + distance) % (capacity - first) := by
  have hroom : v.raw.toNat < capacity := v.raw.toNat_lt
  have hmod := Nat.mod_lt (v.raw.toNat - first + distance)
    (show 0 < capacity - first by omega)
  rw [shift, if_neg (Nat.not_lt.2 hfrom), UInt32.toNat_ofNat']
  exact Nat.mod_eq_of_lt (show _ < capacity by omega)

theorem shift_injective (first distance : Nat) : Function.Injective (shift first distance) := by
  have hext : ∀ v w : VarId, v.raw.toNat = w.raw.toNat → v = w := fun ⟨v⟩ ⟨w⟩ h =>
    congrArg VarId.mk (UInt32.toNat_inj.1 h)
  intro v w hsame
  have hroom : v.raw.toNat < capacity := v.raw.toNat_lt
  have hroom' : w.raw.toNat < capacity := w.raw.toNat_lt
  rcases Nat.lt_or_ge v.raw.toNat first with hv | hv <;>
    rcases Nat.lt_or_ge w.raw.toNat first with hw | hw
  · rwa [shift_of_lt hv, shift_of_lt hw] at hsame
  · have := @toNat_shift first distance w hw
    rw [← hsame, shift_of_lt hv] at this
    omega
  · have := @toNat_shift first distance v hv
    rw [hsame, shift_of_lt hw] at this
    omega
  · have hmod : (v.raw.toNat - first + distance) % (capacity - first) =
        (w.raw.toNat - first + distance) % (capacity - first) := by
      have := congrArg (fun v => v.raw.toNat) hsame
      simp only [toNat_shift hv, toNat_shift hw] at this
      omega
    have hcancel : v.raw.toNat - first ≡ w.raw.toNat - first [MOD capacity - first] :=
      Nat.ModEq.add_right_cancel' distance hmod
    have heq := hcancel.eq_of_lt_of_lt (by omega) (by omega)
    exact hext v w (by omega)

theorem shift_fresh (hstart : first ≤ s.next) (hnext : s'.next = s.next + distance)
    (hfits : first = 0 ∨ s'.next < capacity) :
    s'.fresh.1 = shift first distance s.fresh.1 := by
  rw [fresh_fst, hnext]
  obtain rfl | hfits := hfits
  · rw [shift, if_neg (Nat.not_lt_zero _), fresh_fst]
    refine congrArg VarId.mk (UInt32.toNat_inj.1 ?_)
    simp only [UInt32.toNat_ofNat', capacity, Nat.zero_add, Nat.sub_zero, Nat.mod_mod, Nat.mod_add_mod]
  · have hraw : s.fresh.1.raw.toNat = s.next := raw_fresh (by omega)
    have hmod : (s.next - first + distance) % (capacity - first) = s.next - first + distance :=
      Nat.mod_eq_of_lt (by omega)
    rw [shift, if_neg (by omega), hraw, hmod]
    congr 2
    omega

end VarSupply

namespace Ty

open VarSupply

variable {first distance : Nat}

/-- Instances drawn by two supplies differ by what the supplies differ by. -/
theorem instantiateWith_shift (t : Ty) (known : Renaming) (s s' : VarSupply)
    (hstart : first ≤ s.next) (hnext : s'.next = s.next + distance)
    (hfits : first = 0 ∨ (t.instantiateWith (known.map fun p =>
      (p.1, p.2.rename (shift first distance))) s').2.2.next ≤ capacity) :
    ∃ drawn, t.instantiateWith (known.map fun p => (p.1, p.2.rename (shift first distance))) s' =
        ((t.instantiateWith known s).1.rename (shift first distance),
          (t.instantiateWith known s).2.1.map fun p => (p.1, p.2.rename (shift first distance)),
          drawn) ∧
      drawn.next = (t.instantiateWith known s).2.2.next + distance := by
  induction t generalizing known s s' with
  | named name => exact ⟨s', rfl, hnext⟩
  | var id =>
    have hlookup := lookup_map_snd (rename (shift first distance)) known id
    cases hknown : known.lookup id with
    | some image =>
      rw [hknown] at hlookup
      simp only [instantiateWith, hlookup, hknown, Option.map_some]
      exact ⟨s', rfl, hnext⟩
    | none =>
      rw [hknown] at hlookup
      simp only [instantiateWith, hlookup, hknown, Option.map_none] at hfits ⊢
      have hfresh := shift_fresh hstart hnext hfits
      refine ⟨s'.fresh.2, ?_, by rw [fresh_next, fresh_next]; omega⟩
      rw [List.map_cons, rename_var, ← hfresh]
  | arrow parameter result ihp ihr =>
    have hfirst := (renames_instantiateWith result
      (parameter.instantiateWith (known.map fun p => (p.1, p.2.rename (shift first distance)))
        s').2.1 (parameter.instantiateWith (known.map fun p =>
          (p.1, p.2.rename (shift first distance))) s').2.2).next
    obtain ⟨drawn, hp, hdrawn⟩ := ihp known s s' hstart hnext (hfits.imp_right hfirst.trans)
    have hgrown := (renames_instantiateWith parameter known s).next
    simp only [instantiateWith, hp] at hfits ⊢
    obtain ⟨drawn', hr, hdrawn'⟩ := ihr (parameter.instantiateWith known s).2.1
      (parameter.instantiateWith known s).2.2 drawn (hstart.trans hgrown) hdrawn hfits
    rw [hr]
    exact ⟨drawn', rfl, hdrawn'⟩

theorem instantiate_shift (t : Ty) {s s' : VarSupply} (hstart : first ≤ s.next)
    (hnext : s'.next = s.next + distance)
    (hfits : first = 0 ∨ (t.instantiate s').2.next ≤ capacity) :
    (t.instantiate s').1 = (t.instantiate s).1.rename (shift first distance) ∧
      (t.instantiate s').2.next = (t.instantiate s).2.next + distance := by
  obtain ⟨drawn, hdrawn, hnext⟩ := t.instantiateWith_shift [] s s' hstart hnext hfits
  rw [List.map_nil] at hdrawn
  simp only [instantiate, hdrawn]
  exact ⟨trivial, hnext⟩

end Ty

end GraphReduction
