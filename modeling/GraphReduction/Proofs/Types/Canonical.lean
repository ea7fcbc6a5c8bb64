import Mathlib
import GraphReduction.Proofs.Types.Drawn

/-! Generalized types as canonical forms. The walk over a stack of subtrees finds the variables in
the order of the leaves, so the variable met first becomes the first generic one, whatever its name:
it may be a generic variable itself. Two types generalize to the same tree exactly when they differ
by a one-to-one renaming. -/
namespace GraphReduction

/-! First occurrences -/

theorem eraseDups_concat {α : Type} [BEq α] [LawfulBEq α] (l : List α) (a : α) [Decidable (a ∈ l)] :
    (l ++ [a]).eraseDups = if a ∈ l then l.eraseDups else l.eraseDups ++ [a] := by
  rw [List.eraseDups_append]
  split
  · next hold => simp [List.removeAll, hold]
  · next hnew => simp [List.removeAll, hnew, List.eraseDups_cons]

theorem nodup_eraseDups {α : Type} [DecidableEq α] (l : List α) : l.eraseDups.Nodup := by
  induction l using List.reverseRecOn with
  | nil => exact List.nodup_nil
  | append_singleton l a ih =>
    rw [eraseDups_concat]
    split
    · exact ih
    · next hnew =>
      refine List.nodup_append.2 ⟨ih, List.nodup_singleton a, fun b hb c hc hsame => hnew ?_⟩
      obtain rfl := List.mem_singleton.1 hc
      exact hsame ▸ List.mem_eraseDups.1 hb

namespace Ty

/-- The stack stands for its leaves from left to right: an arrow leaves its parameter on top. -/
theorem collectVars_eq {found before : List VarId} {stack : List Ty}
    (hfound : found = before.eraseDups) :
    collectVars found stack = (before ++ stack.flatMap leaves).eraseDups := by
  fun_induction collectVars found stack generalizing before with
  | case1 found => simpa using hfound
  | case2 found name stack ih => simpa [leaves] using ih hfound
  | case3 found id stack ih =>
    have hnext : (if id ∈ found then found else found ++ [id]) = (before ++ [id]).eraseDups := by
      rw [eraseDups_concat, hfound]
      simp only [List.mem_eraseDups]
    simpa [leaves] using ih hnext
  | case4 found parameter result stack ih => simpa [leaves] using ih hfound

/-- The variables are found in the order of the leaves, each at its first occurrence. -/
theorem freeVars_eq (t : Ty) : t.freeVars = t.leaves.eraseDups := by
  have hwalk : collectVars [] [t] = ([] ++ [t].flatMap leaves).eraseDups := collectVars_eq rfl
  simpa [freeVars] using hwalk

end Ty

namespace VarSupply

variable {s s' : VarSupply}

theorem generic_of_getElem? {index : Nat} {v : VarId} (h : s.generics.toList[index]? = some v) :
    s.generic index = (v, s) := by
  rw [Array.getElem?_toList] at h
  rw [generic, h]

theorem firstGenerics_of_le {count : Nat} (h : count ≤ s.generics.size) :
    s.firstGenerics count = (s.generics.toList.take count, s) := by
  induction count with
  | zero => simp [firstGenerics]
  | succ count ih =>
    have hplace : s.generics.toList[count]? = some s.generics.toList[count] :=
      List.getElem?_eq_getElem _
    rw [firstGenerics_succ, ih (by omega), generic_of_getElem? hplace, List.take_add_one, hplace,
      Option.toList_some]

theorem Precedes.length_le_size {t : Ty} (h : (t.generalize s).2.Precedes s') :
    t.freeVars.length ≤ s'.generics.size := by
  rw [Ty.generalize_eq] at h
  obtain ⟨drawn, hsupply, htaken, hlength⟩ := firstGenerics_spec s t.freeVars.length
  have hprefix := h.generics.length_le
  rw [htaken, List.length_take] at hlength
  rw [hsupply, @Array.length_toList VarId s'.generics] at hprefix
  omega

end VarSupply

namespace Ty

variable {t : Ty} {s : VarSupply}

theorem lookup_zip_getElem? {vs : List VarId} (hnodup : vs.Nodup) {k : Nat} {v : VarId}
    (hv : vs[k]? = some v) (images : List Ty) : (vs.zip images).lookup v = images[k]? := by
  induction vs generalizing k images with
  | nil => simp at hv
  | cons w vs ih =>
    obtain ⟨hnew, hnodup⟩ := List.nodup_cons.1 hnodup
    cases images with
    | nil => simp
    | cons image images =>
      cases k with
      | zero =>
        obtain rfl : w = v := by simpa using hv
        simp
      | succ k =>
        rw [List.getElem?_cons_succ] at hv
        have hne : v ≠ w := fun h => hnew (h ▸ List.mem_of_getElem? hv)
        rw [List.zip_cons_cons, lookup_cons_of_ne hne, List.getElem?_cons_succ]
        exact ih hnodup hv images

/-- The generic variable at the place of the variable among the first occurrences. -/
def genericFor (t : Ty) (s : VarSupply) (v : VarId) : VarId :=
  (s.generics.toList[t.freeVars.idxOf v]?).getD v

theorem getElem?_genericFor (hsize : t.freeVars.length ≤ s.generics.size) {v : VarId}
    (hv : v ∈ t.leaves) : s.generics.toList[t.freeVars.idxOf v]? = some (t.genericFor s v) := by
  have hplace : t.freeVars.idxOf v < t.freeVars.length :=
    List.idxOf_lt_length_iff.2 (mem_freeVars.2 hv)
  rw [genericFor, List.getElem?_eq_getElem (by simp; omega), Option.getD_some]

theorem generalize_eq_rename (hsize : t.freeVars.length ≤ s.generics.size) :
    t.generalize s = (t.rename (t.genericFor s), s) := by
  rw [generalize_eq, VarSupply.firstGenerics_of_le hsize]
  refine Prod.ext (subst_congr fun v hv => ?_) rfl
  have hfree := List.getElem?_idxOf (mem_freeVars.2 hv)
  have hplace : t.freeVars.idxOf v < t.freeVars.length :=
    List.idxOf_lt_length_iff.2 (mem_freeVars.2 hv)
  have hnodup : t.freeVars.Nodup := t.freeVars_eq ▸ nodup_eraseDups _
  rw [lookup_zip_getElem? hnodup hfree, List.getElem?_map, List.getElem?_take_of_lt hplace,
    getElem?_genericFor hsize hv, Option.map_some, Option.getD_some]

theorem injOn_genericFor (hnodup : s.generics.toList.Nodup)
    (hsize : t.freeVars.length ≤ s.generics.size) :
    Set.InjOn (t.genericFor s) {v | v ∈ t.leaves} := by
  intro v hv w hw hsame
  have hv := mem_freeVars.2 hv
  have hplace := List.idxOf_lt_length_iff.2 hv
  refine (List.idxOf_inj hv).1 ((List.getElem?_inj ?_ hnodup).1 ?_)
  · rw [Array.length_toList]
    omega
  · rw [getElem?_genericFor hsize (mem_freeVars.1 hv), getElem?_genericFor hsize hw, hsame]

theorem generic_eq_genericFor (hsize : t.freeVars.length ≤ s.generics.size) {k : Nat} {v : VarId}
    (hv : t.leaves.eraseDups[k]? = some v) : s.generic k = (t.genericFor s v, s) := by
  rw [← freeVars_eq] at hv
  obtain ⟨hk, hv⟩ := List.getElem?_eq_some_iff.1 hv
  have hplace : t.freeVars.idxOf v = k := by
    rw [← hv, List.Nodup.idxOf_getElem (t.freeVars_eq ▸ nodup_eraseDups _) k hk]
  have hmem : v ∈ t.leaves := mem_freeVars.1 (hv ▸ List.getElem_mem hk)
  exact VarSupply.generic_of_getElem? (hplace ▸ getElem?_genericFor hsize hmem)

/-- Generalizing is a canonical form up to one-to-one renaming. It is a renaming itself, to the
generic variables in the order of the leaves, so generalizing again changes nothing, and an instance
generalizes to the same tree. The second type may be generalized at any time after the first. That
needs generic variables to be different ones, so no more variables may have been drawn than there
are identities. -/
theorem generalize_canonical {t u : Ty} {s s' : VarSupply} (horderly : s'.Orderly)
    (hlater : (t.generalize s).2.Precedes s')
    (hfits : (u.generalize s').2.next ≤ VarSupply.capacity) :
    ((t.generalize s).1 = (u.generalize s').1 ∧
        (t.generalize s).1.text = (u.generalize s').1.text ↔
      ∃ σ, Set.InjOn σ {v | v ∈ t.leaves} ∧ u = t.rename σ) ∧
    (∃ σ, Set.InjOn σ {v | v ∈ t.leaves} ∧ (t.generalize s).1 = t.rename σ ∧
      ∀ k v, t.leaves.eraseDups[k]? = some v → (s'.generic k).1 = σ v) ∧
    ((t.generalize s).1.generalize s').1 = (t.generalize s).1 ∧
    ∀ s₀, ((t.instantiate s₀).1.generalize s').1 = (t.generalize s).1 := by
  have hsize := hlater.length_le_size
  have hrename := generalize_eq_rename hsize
  have hinj := injOn_genericFor horderly.nodup hsize
  have hroom : (t.generalize s').2.next ≤ VarSupply.capacity := by
    rw [hrename]
    exact (next_generalize u s').trans hfits
  rw [← generalize_of_precedes hlater]
  refine ⟨⟨?_, ?_⟩, ⟨t.genericFor s', hinj, by rw [hrename], fun k v hv => ?_⟩, ?_, fun s₀ => ?_⟩
  · rintro ⟨hsame, -⟩
    have ht := isInstanceOf_generalize horderly hroom
    have hu := isInstanceOf_generalize horderly hfits
    refine exists_rename_of_instances ((ht u).1 ?_) ((hu t).1 ?_)
    · exact hsame ▸ (hu u).2 (.refl u)
    · exact hsame ▸ (ht t).2 (.refl t)
  · rintro ⟨σ, hσ, rfl⟩
    rw [generalize_rename hσ]
    exact ⟨rfl, rfl⟩
  · rw [generic_eq_genericFor hsize hv]
  · rw [show (t.generalize s').1 = t.rename (t.genericFor s') by rw [hrename],
      generalize_rename hinj, hrename]
  · obtain ⟨σ, hσ, hinstance⟩ := exists_rename_instantiate t s₀
    rw [hinstance, generalize_rename hσ]

/-- A supply whose first draws were two generic variables. -/
def twoGenerics (next : Nat) : VarSupply := { next, generics := #[⟨1⟩, ⟨2⟩] }

/-- The generic variables in the wrong order, and a type that has one of them in the same place. -/
theorem generalize_canonical_swapped :
    (twoGenerics 5).Orderly ∧
      ((arrow (var ⟨2⟩) (var ⟨1⟩)).generalize (twoGenerics 3)).2.Precedes (twoGenerics 5) ∧
      ((arrow (var ⟨4⟩) (var ⟨1⟩)).generalize (twoGenerics 5)).2.next ≤ VarSupply.capacity ∧
      ((arrow (var ⟨2⟩) (var ⟨1⟩)).generalize (twoGenerics 3)).1 = arrow (var ⟨1⟩) (var ⟨2⟩) ∧
      ∃ σ, Set.InjOn σ {v | v ∈ (arrow (var ⟨2⟩) (var ⟨1⟩)).leaves} ∧
        arrow (var ⟨4⟩) (var ⟨1⟩) = (arrow (var ⟨2⟩) (var ⟨1⟩)).rename σ := by
  have horderly : (twoGenerics 5).Orderly :=
    ⟨by decide, by simp [twoGenerics, VarSupply.Issued]⟩
  have hfirst : (arrow (var ⟨2⟩) (var ⟨1⟩)).generalize (twoGenerics 3) =
      (arrow (var ⟨1⟩) (var ⟨2⟩), twoGenerics 3) := by cbv
  have hsecond : (arrow (var ⟨4⟩) (var ⟨1⟩)).generalize (twoGenerics 5) =
      (arrow (var ⟨1⟩) (var ⟨2⟩), twoGenerics 5) := by cbv
  have hlater : ((arrow (var ⟨2⟩) (var ⟨1⟩)).generalize (twoGenerics 3)).2.Precedes
      (twoGenerics 5) := by
    rw [hfirst]
    exact ⟨by decide, List.prefix_refl _⟩
  have hfits : ((arrow (var ⟨4⟩) (var ⟨1⟩)).generalize (twoGenerics 5)).2.next ≤
      VarSupply.capacity := by
    rw [hsecond]
    decide
  refine ⟨horderly, hlater, hfits, congrArg Prod.fst hfirst, ?_⟩
  have hcanonical := generalize_canonical horderly hlater hfits
  exact hcanonical.1.1 ⟨by rw [hfirst, hsecond], by rw [hfirst, hsecond]⟩

end Ty

end GraphReduction
