import Mathlib
import GraphReduction.Proofs.Types.Consistent

/-! What a walk says about types. A part of the walk `Describes` a condition on types when, read under
a solution of the equations collected, the type it returns satisfies the condition, and when every
type that satisfies it is found by some solution. One such description for each thing a walk does,
put together along the walk, is the description of a handle. -/
namespace GraphReduction

namespace Walk

def Knows (w : Walk) (o : ObjectId) : Prop := ∃ v, (o, v) ∈ w.seen

/-- If the handle leads to an object, that object has been given a variable. -/
def Covers (w : Walk) (m : Heap) (h? : Option Handle) : Prop :=
  ∀ o, m.occurrence h? = .object o → w.Knows o

def Solved (w : Walk) (θ : Assignment) : Prop := θ.Solves w.constraints.equations.toList

/-- The objects have the types that their variables have. -/
def Reads (w : Walk) (θ : Assignment) (τ : Typing) : Prop := ∀ o v, (o, v) ∈ w.seen → τ.object o = θ v

/-- What holds all along a walk that starts with the supply `s`. -/
structure Orderly (w : Walk) (m : Heap) (s : VarSupply) : Prop where
  next : s.next ≤ w.vars.next
  nodup : (w.seen.map Prod.fst).Nodup
  object : ∀ o, w.Knows o → m.occurrence (some (.plain o)) = .object o
  seen : ∀ p ∈ w.seen, w.vars.Issued p.2
  constraints : ∀ e ∈ w.constraints.equations.toList,
    e.expected.Issued w.vars ∧ e.actual.Issued w.vars

/-- A walk that goes on from an earlier point. -/
structure Extends (w' w : Walk) : Prop where
  next : w.vars.next ≤ w'.vars.next
  generics : w'.vars.generics = w.vars.generics
  constraints : w.constraints.equations.toList ⊆ w'.constraints.equations.toList
  seen : w.seen <:+ w'.seen

variable {m : Heap} {s : VarSupply} {w w' w'' : Walk} {θ σ σ' : Assignment} {τ : Typing}

theorem Extends.trans (h' : w''.Extends w') (h : w'.Extends w) : w''.Extends w :=
  ⟨h.next.trans h'.next, h'.generics.trans h.generics, fun _ he => h'.constraints (h.constraints he),
    h.seen.trans h'.seen⟩

theorem Extends.knows (h : w'.Extends w) {o : ObjectId} (ho : w.Knows o) : w'.Knows o :=
  ho.imp fun _ hv => h.seen.subset hv

theorem Extends.covers (h : w'.Extends w) {h? : Option Handle} (hcovers : w.Covers m h?) :
    w'.Covers m h? := fun o ho => h.knows (hcovers o ho)

theorem Extends.solved (h : w'.Extends w) (hsolved : w'.Solved θ) : w.Solved θ :=
  fun e he => hsolved e (h.constraints he)

theorem Extends.reads (h : w'.Extends w) (hreads : w'.Reads θ τ) : w.Reads θ τ :=
  fun o v hv => hreads o v (h.seen.subset hv)

theorem Orderly.solved_agree (h : w.Orderly m s) (hagree : w.vars.Agree σ σ') (hsolved : w.Solved σ) :
    w.Solved σ' := fun e he => by
  obtain ⟨hexpected, hactual⟩ := h.constraints e he
  rw [Equation.HoldsIn, hagree.subst_eq hexpected, hagree.subst_eq hactual]
  exact hsolved e he

theorem Orderly.reads_agree (h : w.Orderly m s) (hagree : w.vars.Agree σ σ') (hreads : w.Reads σ τ) :
    w.Reads σ' τ := fun o v hv => (hreads o v hv).trans (hagree v (h.seen _ hv)).symm

theorem Orderly.draw (h : w.Orderly m s) {vars : VarSupply} (hnext : w.vars.next ≤ vars.next) :
    Orderly { w with vars } m s :=
  ⟨h.next.trans hnext, h.nodup, h.object, fun p hp => (h.seen p hp).mono hnext,
    fun e he => (h.constraints e he).imp (·.mono hnext) (·.mono hnext)⟩

theorem Orderly.push (h : w.Orderly m s) {expected actual : Ty} (hexpected : expected.Issued w.vars)
    (hactual : actual.Issued w.vars) : (w.push expected actual).Orderly m s := by
  refine ⟨h.next, h.nodup, h.object, h.seen, fun e he => ?_⟩
  rw [Walk.push, Constraints.equations_push, Array.toList_push, List.mem_append,
    List.mem_singleton] at he
  rcases he with he | rfl
  · exact h.constraints e he
  · exact ⟨hexpected, hactual⟩

theorem extends_push (w : Walk) (expected actual : Ty) : (w.push expected actual).Extends w :=
  ⟨Nat.le_refl _, rfl, by simp [Walk.push], List.suffix_refl _⟩

theorem solved_push {expected actual : Ty} :
    (w.push expected actual).Solved θ ↔ w.Solved θ ∧ expected.subst θ = actual.subst θ := by
  simp only [Solved, Assignment.Solves, Walk.push, Constraints.equations_push, Array.toList_push,
    List.mem_append, List.mem_singleton]
  exact ⟨fun h => ⟨fun e he => h e (.inl he), h _ (.inr rfl)⟩, fun h e he =>
    he.elim (h.1 e) fun heq => heq ▸ h.2⟩

theorem length_seen_le (hnodup : (w.seen.map Prod.fst).Nodup)
    (halive : ∀ o, w.Knows o → (m.kind? (.plain o)).isSome) : w.seen.length ≤ m.objects.next := by
  have hinside : w.seen.map (fun p => p.1.index) ⊆ List.range m.objects.next := by
    intro i hi
    obtain ⟨p, hp, rfl⟩ := List.mem_map.1 hi
    have halive := halive p.1 ⟨p.2, hp⟩
    rw [List.mem_range]
    by_contra hout
    rw [Nat.not_lt, Arena.next] at hout
    simp [Heap.kind?, Heap.object?, Arena.get?, Handle.plain, hout] at halive
  have hnodup : (w.seen.map fun p => p.1.index).Nodup := by
    have hinj : Function.Injective ObjectId.index := fun a b hab => by cases a; cases b; simp_all
    have hmapped := hnodup.map hinj
    rwa [List.map_map] at hmapped
  have := (hnodup.subperm hinside).length_le
  simpa using this

theorem Orderly.length_seen_le (h : w.Orderly m s) : w.seen.length ≤ m.objects.next :=
  Walk.length_seen_le h.nodup fun o ho => Heap.kind?_of_occurrence (h.object o ho)

theorem lookup_isSome_iff {o : ObjectId} : (w.seen.lookup o).isSome ↔ w.Knows o := by
  rw [List.lookup_isSome_iff]
  constructor
  · rintro ⟨p, hp, heq⟩
    exact ⟨p.2, by rwa [show o = p.1 from eq_of_beq heq]⟩
  · rintro ⟨v, hv⟩
    exact ⟨_, hv, beq_self_eq_true o⟩

theorem mem_of_lookup {o : ObjectId} {v : VarId} (h : w.seen.lookup o = some v) : (o, v) ∈ w.seen := by
  obtain ⟨before, after, heq, -⟩ := List.lookup_eq_some_iff.1 h
  simp [heq]

/-- The part of a walk from `w` to `w'` that returns `t` finds the types that satisfy `R`. The
objects that `hs` depends on are those that `R` speaks of. -/
structure Describes (m : Heap) (s : VarSupply) (hs : List (Option Handle)) (R : Typing → Ty → Prop)
    (w : Walk) (t : Ty) (w' : Walk) : Prop where
  orderly : w'.Orderly m s
  goesOn : w'.Extends w
  issued : t.Issued w'.vars
  covers : ∀ h? ∈ hs, w'.Covers m h?
  closed : ∀ o kind, w'.Knows o → ¬ w.Knows o → m.kind? (.plain o) = some kind →
    ∀ part ∈ m.parts kind, w'.Covers m part
  sound : ∀ τ : Typing, w'.Solved τ.tags → w'.Reads τ.tags τ → R τ (t.subst τ.tags) ∧
    ∀ o kind, w'.Knows o → ¬ w.Knows o → m.kind? (.plain o) = some kind →
      τ.Fits m kind (τ.object o)
  complete : w'.vars.next ≤ VarSupply.capacity → ∀ (τ : Typing) (σ : Assignment) (T : Ty),
    (∀ h? ∈ hs, τ.Consistent m h?) → s.Agree τ.tags σ → w.Solved σ → w.Reads σ τ → R τ T →
    ∃ σ', w.vars.Agree σ σ' ∧ w'.Solved σ' ∧ w'.Reads σ' τ ∧ t.subst σ' = T

variable {hs : List (Option Handle)} {h? : Option Handle} {R : Typing → Ty → Prop} {t a : Ty}

theorem describes_drawn (hw : w.Orderly m s) {vars : VarSupply} (hnext : w.vars.next ≤ vars.next)
    (hgenerics : vars.generics = w.vars.generics) (hissued : t.Issued vars)
    (hcovers : ∀ h? ∈ hs, w.Covers m h?)
    (hsound : ∀ τ : Typing, w.Reads τ.tags τ → R τ (t.subst τ.tags))
    (hcomplete : vars.next ≤ VarSupply.capacity → ∀ (τ : Typing) (σ : Assignment) (T : Ty),
      s.Agree τ.tags σ → w.Reads σ τ → R τ T → ∃ σ', w.vars.Agree σ σ' ∧ t.subst σ' = T) :
    Describes m s hs R w t { w with vars } where
  orderly := hw.draw hnext
  goesOn := ⟨hnext, hgenerics, fun _ h => h, List.suffix_refl _⟩
  issued := hissued
  covers := hcovers
  closed _ _ hnew hold := absurd hnew hold
  sound τ _ hreads := ⟨hsound τ hreads, fun _ _ hnew hold => absurd hnew hold⟩
  complete hfits τ σ T _ htags hsolved hreads hT := by
    obtain ⟨σ', hagree, heq⟩ := hcomplete hfits τ σ T htags hreads hT
    exact ⟨σ', hagree, hw.solved_agree hagree hsolved, hw.reads_agree hagree hreads, heq⟩

theorem covers_of_ne_object (h : ∀ o, m.occurrence h? ≠ .object o) : w.Covers m h? :=
  fun o ho => absurd ho (h o)

theorem describes_fresh (hw : w.Orderly m s) (hcovers : ∀ h? ∈ hs, w.Covers m h?)
    (hany : ∀ τ T, R τ T) : Describes m s hs R w w.fresh.1 w.fresh.2 := by
  refine describes_drawn hw (Nat.le_succ _) rfl ?_ hcovers (fun τ _ => hany τ _) ?_
  · intro v hv
    obtain rfl : v = w.vars.fresh.1 := by simpa [Walk.fresh, Ty.leaves] using hv
    exact VarSupply.issued_fresh w.vars
  · intro hfits τ σ T _ _ _
    exact ⟨_, VarSupply.agree_update hfits σ T, Function.update_self ..⟩

theorem describes_known (hw : w.Orderly m s) {o : ObjectId} {v : VarId} (hv : (o, v) ∈ w.seen)
    (hat : m.occurrence h? = .object o) :
    Describes m s [h?] (fun τ t => τ.Allows m h? t) w (.var v) w := by
  have hissued : Ty.Issued w.vars (.var v) := by simpa [Ty.Issued, Ty.leaves] using hw.seen _ hv
  refine describes_drawn hw (Nat.le_refl _) rfl hissued ?_ (fun τ hreads => ?_) ?_
  · simp only [List.mem_singleton, forall_eq]
    intro o' ho'
    obtain rfl : o = o' := by simpa [hat] using ho'
    exact ⟨v, hv⟩
  · exact (Typing.allows_object hat).2 (hreads o v hv).symm
  · rintro - τ σ T - hreads hT
    exact ⟨σ, .refl _ σ, (hreads o v hv).symm.trans ((Typing.allows_object hat).1 hT).symm⟩

theorem describes_instance (hw : w.Orderly m s) (declared : Ty) :
    Describes m s [] (fun _ t => t.IsInstanceOf declared) w (declared.instantiate w.vars).1
      { w with vars := (declared.instantiate w.vars).2 } := by
  have h := Ty.instantiates_instantiate declared w.vars
  exact describes_drawn hw h.next h.generics h.issued (by simp)
    (fun τ _ => h.isInstanceOf.subst τ.tags) fun hfits τ σ T _ _ hT => h.complete hfits σ T hT

theorem describes_tag (hw : w.Orderly m s) {tag : Ty} (htag : tag.Issued s) :
    Describes m s [] (fun τ t => t = tag.subst τ.tags) w tag w :=
  describes_drawn hw (Nat.le_refl _) rfl (htag.mono hw.next) (by simp) (fun _ _ => rfl)
    fun _ _ σ _ htags _ hT => ⟨σ, .refl _ σ, hT ▸ htags.subst_eq htag⟩

theorem Describes.weaken {hs' : List (Option Handle)} (h : Describes m s hs R w t w')
    (hcovers : ∀ h? ∈ hs', w'.Covers m h?) (hsub : hs ⊆ hs') : Describes m s hs' R w t w' :=
  { h with
    covers := hcovers
    complete := fun hfits τ σ T hconsistent =>
      h.complete hfits τ σ T fun h? hh => hconsistent h? (hsub hh) }

theorem Describes.congr {R' : Typing → Ty → Prop} (h : Describes m s hs R w t w')
    (hiff : ∀ τ T, R τ T ↔ R' τ T) : Describes m s hs R' w t w' := by
  obtain rfl : R = R' := funext fun τ => funext fun T => propext (hiff τ T)
  exact h

theorem Describes.application (hw : w.Orderly m s) (h : Describes m s hs R w t w')
    (hargument : Describes m s [h?] (fun τ t => τ.Allows m h? t) w' a w'') :
    Describes m s (h? :: hs) (fun τ T => ∃ b, R τ (.arrow b T) ∧ τ.Allows m h? b) w
      (w''.application t a).1 (w''.application t a).2 := by
  have hnext : w''.vars.next ≤ w''.vars.fresh.2.next := Nat.le_succ _
  have hissued : Ty.Issued w''.vars.fresh.2 (.var w''.vars.fresh.1) := by
    intro v hv
    obtain rfl : v = w''.vars.fresh.1 := by simpa [Ty.leaves] using hv
    exact VarSupply.issued_fresh w''.vars
  have ht : t.Issued w''.vars := h.issued.mono hargument.goesOn.next
  have harrow : Ty.Issued w''.vars.fresh.2 (.arrow a (.var w''.vars.fresh.1)) := by
    intro v hv
    rcases List.mem_append.1 hv with hv | hv
    · exact (hargument.issued v hv).mono hnext
    · exact hissued v hv
  have hdrawn : Extends { w'' with vars := w''.vars.fresh.2 } w'' :=
    ⟨hnext, rfl, fun _ he => he, List.suffix_refl _⟩
  have hlast : (w''.application t a).2.Extends w'' := (extends_push _ _ _).trans hdrawn
  have hnew : ∀ o, w''.Knows o → ¬ w.Knows o →
      (w''.Knows o ∧ ¬ w'.Knows o) ∨ (w'.Knows o ∧ ¬ w.Knows o) := fun o hnow hbefore => by
    by_cases hmid : w'.Knows o
    · exact .inr ⟨hmid, hbefore⟩
    · exact .inl ⟨hnow, hmid⟩
  constructor
  · exact (hargument.orderly.draw hnext).push (ht.mono hnext) harrow
  · exact hlast.trans (hargument.goesOn.trans h.goesOn)
  · exact hissued
  · intro h?' hh
    rcases List.mem_cons.1 hh with rfl | hh
    · exact hlast.covers (hargument.covers _ List.mem_cons_self)
    · exact hlast.covers (hargument.goesOn.covers (h.covers _ hh))
  · intro o kind hnow hbefore hkind part hpart
    rcases hnew o hnow hbefore with ⟨hnow, hbefore⟩ | ⟨hnow, hbefore⟩
    · exact hlast.covers (hargument.closed o kind hnow hbefore hkind part hpart)
    · exact hlast.covers (hargument.goesOn.covers (h.closed o kind hnow hbefore hkind part hpart))
  · intro τ hsolved hreads
    obtain ⟨hsolved, hequal⟩ := solved_push.1 hsolved
    have hreads'' : w''.Reads τ.tags τ := hlast.reads hreads
    have hsolved'' : w''.Solved τ.tags := hdrawn.solved hsolved
    obtain ⟨hR, hold⟩ := h.sound τ (hargument.goesOn.solved hsolved'') (hargument.goesOn.reads hreads'')
    obtain ⟨hallows, hlater⟩ := hargument.sound τ hsolved'' hreads''
    rw [hequal] at hR
    refine ⟨⟨_, hR, hallows⟩, fun o kind hnow hbefore => ?_⟩
    rcases hnew o hnow hbefore with ⟨hnow, hbefore⟩ | ⟨hnow, hbefore⟩
    · exact hlater o kind hnow hbefore
    · exact hold o kind hnow hbefore
  · rintro hfits τ σ T hconsistent htags hsolved hreads ⟨b, hR, hallows⟩
    have hfits' : w''.vars.next < VarSupply.capacity := hfits
    obtain ⟨σ₁, hagree₁, hsolved₁, hreads₁, hfunction⟩ := h.complete
      (hargument.goesOn.next.trans hfits'.le) τ σ (.arrow b T)
      (fun h?' hh => hconsistent h?' (List.mem_cons_of_mem _ hh)) htags hsolved hreads hR
    obtain ⟨σ₂, hagree₂, hsolved₂, hreads₂, hfound⟩ := hargument.complete hfits'.le τ σ₁ b
      (by simpa using hconsistent h? List.mem_cons_self) (htags.trans hw.next hagree₁) hsolved₁
      hreads₁ hallows
    have hagree₃ := VarSupply.agree_update hfits' σ₂ T
    refine ⟨_, hagree₁.trans h.goesOn.next (hagree₂.trans hargument.goesOn.next hagree₃),
      solved_push.2 ⟨hargument.orderly.solved_agree hagree₃ hsolved₂, ?_⟩,
      hargument.orderly.reads_agree hagree₃ hreads₂, Function.update_self ..⟩
    calc t.subst (Function.update σ₂ w''.vars.fresh.1 T)
        = t.subst σ₂ := hagree₃.subst_eq ht
      _ = .arrow b T := (hagree₂.subst_eq h.issued).trans hfunction
      _ = (Ty.arrow a (.var w''.vars.fresh.1)).subst (Function.update σ₂ w''.vars.fresh.1 T) := by
          rw [Ty.subst_arrow, hagree₃.subst_eq hargument.issued, hfound, Ty.subst_var,
            Function.update_self]

end Walk

end GraphReduction
