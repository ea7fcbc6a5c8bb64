import Mathlib
import GraphReduction.Ty.Rename
import GraphReduction.Proofs.Unify.Assignment

/-! What drawing variables achieves. A supply has issued the variables that are numbered below its
count, and as long as the count fits an identity, the next variable drawn is none of them. So an
assignment can be chosen for the new variables without changing any type built before. -/
namespace GraphReduction

namespace VarSupply

/-- The variable has been drawn. -/
def Issued (s : VarSupply) (v : VarId) : Prop := v.raw.toNat < s.next

/-- How many variables have different identities. -/
def capacity : Nat := 2 ^ 32

/-- The generic variables are different ones that have been drawn. -/
structure Orderly (s : VarSupply) : Prop where
  nodup : s.generics.toList.Nodup
  issued : ∀ v ∈ s.generics.toList, s.Issued v

variable {s : VarSupply}

theorem Issued.mono {s' : VarSupply} {v : VarId} (h : s.Issued v) (hnext : s.next ≤ s'.next) :
    s'.Issued v := Nat.lt_of_lt_of_le h hnext

theorem raw_fresh (hfits : s.next < capacity) : s.fresh.1.raw.toNat = s.next := by
  rw [fresh_fst, UInt32.toNat_ofNat']
  exact Nat.mod_eq_of_lt hfits

theorem not_issued_fresh (hfits : s.next < capacity) : ¬ s.Issued s.fresh.1 := by
  rw [Issued, raw_fresh hfits]
  exact Nat.lt_irrefl _

theorem issued_fresh (s : VarSupply) : s.fresh.2.Issued s.fresh.1 := by
  rw [Issued, fresh_next, fresh_fst, UInt32.toNat_ofNat']
  exact Nat.lt_succ_of_le (Nat.mod_le _ _)

theorem Orderly.fresh (h : s.Orderly) : s.fresh.2.Orderly :=
  ⟨h.nodup, fun v hv => (h.issued v hv).mono (Nat.le_succ _)⟩

theorem next_extend (s : VarSupply) (count : Nat) : (s.extend count).next = s.next + count := by
  induction count generalizing s with
  | zero => rfl
  | succ count ih => rw [extend, ih]; simp; omega

theorem generics_prefix_extend (s : VarSupply) (count : Nat) :
    s.generics.toList <+: (s.extend count).generics.toList := by
  induction count generalizing s with
  | zero => exact List.prefix_refl _
  | succ count ih =>
    refine List.IsPrefix.trans ?_ (ih _)
    simp

theorem issued_push (h : ∀ v ∈ s.generics.toList, s.Issued v) :
    ∀ v ∈ (s.generics.push s.fresh.1).toList, s.fresh.2.Issued v := by
  intro v hv
  rw [Array.toList_push, List.mem_append, List.mem_singleton] at hv
  obtain hv | rfl := hv
  · exact (h v hv).mono (Nat.le_succ _)
  · exact issued_fresh s

theorem issued_extend (h : ∀ v ∈ s.generics.toList, s.Issued v) (count : Nat) :
    ∀ v ∈ (s.extend count).generics.toList, (s.extend count).Issued v := by
  induction count generalizing s with
  | zero => exact h
  | succ count ih => exact ih (issued_push h)

theorem Orderly.extend (h : s.Orderly) {count : Nat} (hfits : s.next + count ≤ capacity) :
    (s.extend count).Orderly := by
  induction count generalizing s with
  | zero => exact h
  | succ count ih =>
    have hnew : s.fresh.1 ∉ s.generics.toList := fun hold =>
      not_issued_fresh (by omega) (h.issued _ hold)
    refine ih ⟨?_, issued_push h.issued⟩ (by simp; omega)
    rw [Array.toList_push, List.nodup_append]
    exact ⟨h.nodup, by simp, fun a ha b hb hab => hnew (by simp_all)⟩

theorem generic_spec (s : VarSupply) (index : Nat) :
    ∃ count, (s.generic index).2 = s.extend count ∧
      (s.generic index).2.generics.toList[index]? = some (s.generic index).1 := by
  unfold generic
  split
  · next v hv => exact ⟨0, rfl, by simpa using hv⟩
  · next hv =>
    have hsize := s.size_generics_extend (index + 1 - s.generics.size)
    rw [Array.getElem?_eq_none_iff] at hv
    refine ⟨_, rfl, ?_⟩
    have hinside : index < (s.extend (index + 1 - s.generics.size)).generics.size := by omega
    simp [hinside]

theorem firstGenerics_succ (s : VarSupply) (count : Nat) :
    s.firstGenerics (count + 1) =
      ((s.firstGenerics count).1 ++ [((s.firstGenerics count).2.generic count).1],
        ((s.firstGenerics count).2.generic count).2) := by
  simp [firstGenerics, List.range_succ]

theorem firstGenerics_spec (s : VarSupply) (count : Nat) :
    ∃ drawn, (s.firstGenerics count).2 = s.extend drawn ∧
      (s.firstGenerics count).1 = (s.extend drawn).generics.toList.take count ∧
      (s.firstGenerics count).1.length = count := by
  induction count with
  | zero => exact ⟨0, by simp [firstGenerics]⟩
  | succ count ih =>
    obtain ⟨drawn, hsupply, htaken, hlength⟩ := ih
    have hstep := s.firstGenerics_succ count
    obtain ⟨more, hmore, hplace⟩ := generic_spec (s.firstGenerics count).2 count
    have hall : (s.extend drawn).extend more = s.extend (drawn + more) := by
      clear * -
      induction drawn generalizing s with
      | zero => simp
      | succ drawn ih => rw [extend, ih, Nat.succ_add, extend]
    rw [hsupply, hall] at hmore
    refine ⟨drawn + more, by rw [hstep, hsupply]; exact hmore, ?_, by simp [hstep, hlength]⟩
    rw [hsupply] at hplace
    have hprefix : (s.extend drawn).generics.toList.take count =
        (s.extend (drawn + more)).generics.toList.take count := by
      obtain ⟨rest, hrest⟩ := generics_prefix_extend (s.extend drawn) more
      rw [htaken, List.length_take] at hlength
      rw [← hall, ← hrest, List.take_append_of_le_length (by omega)]
    rw [hstep, htaken, hprefix, List.take_add_one, hsupply, ← hmore, hplace, Option.toList_some]

/-- As long as identities last, the generic variables asked for are different. -/
theorem Orderly.nodup_firstGenerics (h : s.Orderly) {count : Nat}
    (hfits : (s.firstGenerics count).2.next ≤ capacity) : (s.firstGenerics count).1.Nodup := by
  obtain ⟨drawn, hsupply, htaken, -⟩ := firstGenerics_spec s count
  rw [hsupply, next_extend] at hfits
  rw [htaken]
  exact (h.extend hfits).nodup.sublist (List.take_sublist _ _)

theorem next_firstGenerics (s : VarSupply) (count : Nat) :
    s.next ≤ (s.firstGenerics count).2.next := by
  obtain ⟨drawn, hsupply, -⟩ := firstGenerics_spec s count
  rw [hsupply, next_extend]
  exact Nat.le_add_right _ _

theorem orderly_of_next (next : Nat) : Orderly { next } := ⟨by simp, by simp⟩

end VarSupply

end GraphReduction
