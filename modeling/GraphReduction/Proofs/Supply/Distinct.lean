import Mathlib
import GraphReduction.Proofs.Supply.HandsOut
import GraphReduction.Proofs.Types.Shift

/-! No variable is handed out twice. As long as there are identities that have not been drawn, no two
requests get the same variable, unless both ask for the generic variable of one place. After that
the identities come again. -/
namespace GraphReduction

open VarSupply (capacity)

namespace VarSupply

variable {s s' : VarSupply} {ds : List Draw}

/-- A fresh variable was drawn and is no generic one; a generic variable stands at its place. -/
def Records (s : VarSupply) : Draw → Prop
  | .fresh v => s.Issued v ∧ v ∉ s.generics.toList
  | .generic index v => s.generics.toList[index]? = some v

theorem Records.issued {d : Draw} (h : s.Records d) (horderly : s.Orderly) : s.Issued d.var := by
  cases d with
  | fresh v => exact h.1
  | generic index v => exact horderly.issued v (List.mem_of_getElem? h)

theorem Records.afterFresh {d : Draw} (h : s.Records d) : s.fresh.2.Records d := by
  cases d with
  | fresh v => exact ⟨h.1.mono (Nat.le_succ _), h.2⟩
  | generic index v => exact h

theorem mem_generics_of_extend {count : Nat} (hfits : s.next + count ≤ capacity) {v : VarId}
    (hissued : s.Issued v) (hv : v ∈ (s.extend count).generics.toList) :
    v ∈ s.generics.toList := by
  induction count generalizing s with
  | zero => exact hv
  | succ count ih =>
    have hpushed := ih (by simp; omega) (hissued.mono (Nat.le_succ _)) hv
    rw [Array.toList_push, List.mem_append, List.mem_singleton] at hpushed
    obtain hold | rfl := hpushed
    · exact hold
    · exact absurd hissued (not_issued_fresh (by omega))

theorem Records.extend {d : Draw} (h : s.Records d) {count : Nat}
    (hfits : s.next + count ≤ capacity) : (s.extend count).Records d := by
  cases d with
  | fresh v =>
    refine ⟨h.1.mono ?_, fun hv => h.2 (mem_generics_of_extend hfits h.1 hv)⟩
    rw [next_extend]
    exact Nat.le_add_right _ _
  | generic index v =>
    obtain ⟨rest, hrest⟩ := s.generics_prefix_extend count
    obtain ⟨hinside, -⟩ := List.getElem?_eq_some_iff.mp h
    rw [Records, ← hrest, List.getElem?_append_left hinside]
    exact h

theorem Records.var_eq_iff {d : Draw} (hd : s.Records d) (horderly : s.Orderly) {index : Nat}
    {v : VarId} (hv : s.Records (.generic index v)) :
    d.var = v ↔ d.SamePlace (.generic index v) := by
  cases d with
  | fresh w =>
    refine iff_of_false (fun hsame => hd.2 ?_) id
    obtain rfl : w = v := hsame
    exact List.mem_of_getElem? hv
  | generic index' w =>
    obtain ⟨hinside, -⟩ := List.getElem?_eq_some_iff.mp hd
    constructor
    · rintro rfl
      exact (List.getElem?_inj hinside horderly.nodup).mp (hd.trans hv.symm)
    · rintro rfl
      exact Option.some.inj (hd.symm.trans hv)

/-- What has been handed out so far. -/
structure Accounts (s : VarSupply) (ds : List Draw) : Prop where
  orderly : s.Orderly
  records : ∀ d ∈ ds, s.Records d
  distinct : ds.Pairwise fun d e => d.var = e.var ↔ d.SamePlace e

theorem Orderly.accounts (h : s.Orderly) : s.Accounts [] := ⟨h, by simp, .nil⟩

theorem Accounts.concat (h : s.Accounts ds) (horderly : s'.Orderly) {e : Draw}
    (hkeeps : ∀ d, s.Records d → s'.Records d) (he : s'.Records e)
    (hdistinct : ∀ d ∈ ds, d.var = e.var ↔ d.SamePlace e) : s'.Accounts (ds ++ [e]) where
  orderly := horderly
  records := by
    intro d hd
    obtain hd | hd := List.mem_append.mp hd
    · exact hkeeps d (h.records d hd)
    · exact List.mem_singleton.mp hd ▸ he
  distinct := by
    refine List.pairwise_append.mpr ⟨h.distinct, List.pairwise_singleton _ _, fun d hd d' hd' => ?_⟩
    exact List.mem_singleton.mp hd' ▸ hdistinct d hd

theorem Accounts.afterFresh (h : s.Accounts ds) (hfits : s.next < capacity) :
    s.fresh.2.Accounts (ds ++ [.fresh s.fresh.1]) := by
  have hnew : ¬ s.Issued s.fresh.1 := not_issued_fresh hfits
  refine h.concat h.orderly.fresh (fun _ => Records.afterFresh)
    ⟨s.issued_fresh, fun hold => hnew (h.orderly.issued _ hold)⟩ fun d hd => ?_
  have hother : d.var ≠ s.fresh.1 := fun hsame =>
    hnew (hsame ▸ (h.records d hd).issued h.orderly)
  cases d <;> exact iff_of_false hother id

theorem Accounts.afterGeneric (h : s.Accounts ds) (index : Nat)
    (hfits : (s.generic index).2.next ≤ capacity) :
    (s.generic index).2.Accounts (ds ++ [.generic index (s.generic index).1]) := by
  obtain ⟨count, hsupply, hplace⟩ := s.generic_spec index
  rw [hsupply, next_extend] at hfits
  have horderly : (s.generic index).2.Orderly := hsupply ▸ h.orderly.extend hfits
  have hkeeps : ∀ d, s.Records d → (s.generic index).2.Records d := fun d hd =>
    hsupply ▸ hd.extend hfits
  exact h.concat horderly hkeeps hplace fun d hd =>
    (hkeeps d (h.records d hd)).var_eq_iff horderly hplace

theorem HandsOut.accounts (hruns : s.HandsOut ds s') (horderly : s.Orderly)
    (hfits : s'.next ≤ capacity) : s'.Accounts ds := by
  induction hruns with
  | nil => exact horderly.accounts
  | fresh _ ih => exact (ih (Nat.le_of_succ_le hfits)).afterFresh hfits
  | @generic ds s' _ index ih =>
    obtain ⟨count, hsupply, -⟩ := s'.generic_spec index
    refine (ih ?_).afterGeneric index hfits
    rw [hsupply, next_extend] at hfits
    omega

/-- Two requests get the same variable exactly if both asked for the generic variable of one place,
as long as no more variables have been drawn than there are identities. -/
theorem handsOut_distinct (hruns : HandsOut {} ds s) (hfits : s.next ≤ capacity) :
    ds.Pairwise fun d e => d.var = e.var ↔ d.SamePlace e :=
  (hruns.accounts (orderly_of_next _) hfits).distinct

theorem fresh_of_next (hnext : s'.next = s.next + capacity) : s'.fresh.1 = s.fresh.1 := by
  rw [fresh_fst, fresh_fst, hnext, VarId.mk.injEq, ← UInt32.toNat_inj, UInt32.toNat_ofNat',
    UInt32.toNat_ofNat']
  exact Nat.add_mod_right _ _

/-- Without the bound a fresh variable can be one that was handed out before. -/
theorem handsOut_repeats : ∃ ds s, HandsOut {} ds s ∧
    ¬ ds.Pairwise fun d e => d.var = e.var ↔ d.SamePlace e := by
  have hfirst : HandsOut {} [.fresh ⟨1⟩] { next := 2 } := .fresh .nil
  obtain ⟨ds, hds⟩ : ∃ ds, HandsOut { next := 2 } ds { next := 1 + capacity } :=
    Draws.handsOut ⟨capacity - 1, by simp [capacity]⟩
  refine ⟨_, _, (hfirst.append hds).fresh, fun hdistinct => ?_⟩
  have hsame : (VarSupply.fresh { next := 1 + capacity }).1 = (VarSupply.fresh {}).1 :=
    fresh_of_next rfl
  have hlast := (List.pairwise_append.mp hdistinct).2.2 (.fresh ⟨1⟩) (by simp) _
    (List.mem_singleton_self _)
  exact hlast.mp hsame.symm

end VarSupply

/-! Instances of several types -/

namespace Ty

/-- Several types have been renamed one after the other: what is found for one is kept for the
others. -/
structure RenamesAll (known : Renaming) (ts renamed : List Ty) (known' : Renaming) : Prop where
  extends_known : ∀ v image, known.lookup v = some image → known'.lookup v = some image
  covers : ∀ t ∈ ts, ∀ v ∈ t.leaves, (known'.lookup v).isSome
  eq : renamed = ts.map fun t => t.subst fun v => (known'.lookup v).getD (.var v)

theorem RenamesAll.cons {known known' known'' : Renaming} {t renamed : Ty} {ts renameds : List Ty}
    {s s' : VarSupply} (h : Renames known s t renamed known' s')
    (hrest : RenamesAll known' ts renameds known'') :
    RenamesAll known (t :: ts) (renamed :: renameds) known'' where
  extends_known v image hv := hrest.extends_known v image (h.extends_known v image hv)
  covers u hu v hv := by
    obtain rfl | hu := List.mem_cons.mp hu
    · obtain ⟨image, himage⟩ := Option.isSome_iff_exists.mp (h.covers v hv)
      rw [hrest.extends_known v image himage, Option.isSome_some]
    · exact hrest.covers u hu v hv
  eq := by
    rw [List.map_cons, ← hrest.eq, h.eq]
    congr 1
    refine subst_congr fun v hv => ?_
    obtain ⟨image, himage⟩ := Option.isSome_iff_exists.mp (h.covers v hv)
    rw [himage, hrest.extends_known v image himage]

end Ty

namespace Node

/-- The renaming of types that a renaming of nodes stands for. -/
def types (known : List (VarId × Node)) : Renaming := known.map fun p => (p.1, p.2.ty)

theorem run_instantiateWith (n : Node) (known : List (VarId × Node)) (s : NodeSupply) :
    (((n.instantiateWith known).run s).1.1.ty, types ((n.instantiateWith known).run s).1.2,
      ((n.instantiateWith known).run s).2.vars) = n.ty.instantiateWith (types known) s.vars := by
  induction n generalizing known s with
  | named label name => rfl
  | var label id =>
    have hlookup : (types known).lookup id = (known.lookup id).map ty := lookup_map_snd ty known id
    cases hknown : known.lookup id with
    | some image =>
      rw [hknown, Option.map_some] at hlookup
      simp only [ty, Ty.instantiateWith, hlookup, instantiateWith, hknown]
      rfl
    | none =>
      rw [hknown, Option.map_none] at hlookup
      simp only [ty, Ty.instantiateWith, hlookup, instantiateWith, hknown]
      rfl
  | arrow label parameter result ihp ihr =>
    simp only [ty, Ty.instantiateWith, ← ihp, ← ihr]
    rfl

/-- One turn of the loop over several types. -/
def instantiateNext (found : List Node × List (VarId × Node)) (n : Node) :
    Building (List Node × List (VarId × Node)) := do
  let (image, known) ← n.instantiateWith found.2
  pure (found.1 ++ [image], known)

theorem instantiateAll_eq (ns : List Node) :
    instantiateAll ns = (do
      let (images, known) ← ns.foldlM instantiateNext ([], [])
      pure (images, known.length)) := rfl

theorem run_foldlM_instantiateNext (ns images : List Node) (known : List (VarId × Node))
    (s : NodeSupply) {base : Nat} (hcounted : Ty.CountedOff base (types known) s.vars) :
    ∃ more known', ∃ s' : NodeSupply,
      (ns.foldlM instantiateNext (images, known)).run s = ((images ++ more, known'), s') ∧
        Ty.CountedOff base (types known') s'.vars ∧
        Ty.RenamesAll (types known) (ns.map ty) (more.map ty) (types known') := by
  induction ns generalizing images known s with
  | nil =>
    refine ⟨[], known, s, ?_, hcounted, fun _ _ h => h, by simp, rfl⟩
    rw [List.append_nil]
    rfl
  | cons n ns ih =>
    have hrun := n.run_instantiateWith known s
    have hrenames := Ty.renames_instantiateWith n.ty (types known) s.vars
    have hcounted := hcounted.instantiateWith n.ty
    rw [← hrun] at hrenames hcounted
    obtain ⟨more, known', s', hloop, hcounted', hrest⟩ :=
      ih (images ++ [((n.instantiateWith known).run s).1.1]) _ _ hcounted
    refine ⟨_ :: more, known', s', ?_, hcounted', hrest.cons hrenames⟩
    rw [← List.append_cons] at hloop
    exact hloop

/-- Instances of several types with one renaming for all. It is one-to-one, and as long as no more
variables have been drawn than there are identities it leads to variables that were not drawn
before. -/
theorem instantiateAll_distinct (ns : List Node) (s : NodeSupply) :
    ∃ σ : VarId → VarId, Set.InjOn σ {v | ∃ n ∈ ns, v ∈ n.ty.leaves} ∧
      ((instantiateAll ns).run s).1.1.map ty = ns.map (fun n => n.ty.rename σ) ∧
      (((instantiateAll ns).run s).2.vars.next ≤ capacity →
        ∀ n ∈ ns, ∀ v ∈ n.ty.leaves, ¬ s.vars.Issued (σ v)) := by
  obtain ⟨more, known, s', hloop, hcounted, hrenames⟩ :=
    run_foldlM_instantiateNext ns [] [] s (Ty.countedOff_nil s.vars)
  have hrun : (instantiateAll ns).run s = ((more, known.length), s') := by
    rw [instantiateAll_eq, StateT.run_bind, hloop]
    rfl
  obtain ⟨σ, hinj, hσ⟩ := hcounted.exists_name
  have hcovers : ∀ n ∈ ns, ∀ v ∈ n.ty.leaves, ((types known).lookup v).isSome := fun n hn =>
    hrenames.covers n.ty (List.mem_map_of_mem hn)
  rw [hrun]
  refine ⟨σ, hinj.mono fun v ⟨n, hn, hv⟩ => hcovers n hn v hv, ?_, fun hfits n hn v hv => ?_⟩
  · rw [hrenames.eq, List.map_map]
    refine List.map_congr_left fun n hn => Ty.subst_congr fun v hv => ?_
    rw [(hσ v (hcovers n hn v hv)).1, Option.getD_some]
  · obtain ⟨-, i, hi, heq⟩ := hσ v (hcovers n hn v hv)
    have hnext := hcounted.next
    have hroom : s.vars.next + i < capacity := by
      dsimp only at hfits
      omega
    have hraw : (VarId.mk (.ofNat (s.vars.next + i))).raw.toNat = s.vars.next + i :=
      VarSupply.raw_fresh (s := { next := s.vars.next + i }) hroom
    rw [heq, VarSupply.Issued, hraw]
    omega

end Node

end GraphReduction
