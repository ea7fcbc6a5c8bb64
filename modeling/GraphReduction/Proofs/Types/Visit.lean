import Mathlib
import GraphReduction.Proofs.Heap.Proper
import GraphReduction.Proofs.Types.Walk

/-! The walk over a heap describes the types of the handle it starts from. The induction is on the
depth; since every object entered has just got its variable, there are always fewer objects left than
layers, and the walk never stops short. -/
namespace GraphReduction

open Walk

namespace Walk

variable {m : Heap} {s : VarSupply} {w w' : Walk} {hs : List (Option Handle)} {h? : Option Handle}
  {R : Typing → Ty → Prop} {t : Ty}

/-- Give an object a variable that is not used yet. -/
def meet (w : Walk) (o : ObjectId) : Walk :=
  { w with vars := w.vars.fresh.2, seen := (o, w.vars.fresh.1) :: w.seen }

theorem knows_meet {o o' : ObjectId} : (w.meet o).Knows o' ↔ o' = o ∨ w.Knows o' := by
  simp only [Knows, meet, List.mem_cons, Prod.mk.injEq, exists_or, exists_and_left]
  simp

theorem extends_meet (w : Walk) (o : ObjectId) : (w.meet o).Extends w :=
  ⟨Nat.le_succ _, rfl, fun _ h => h, List.suffix_cons _ _⟩

theorem Orderly.meet (h : w.Orderly m s) {o : ObjectId} (hnew : ¬ w.Knows o)
    (hat : m.occurrence (some (.plain o)) = .object o) : (w.meet o).Orderly m s where
  next := h.next.trans (Nat.le_succ _)
  nodup := by
    rw [Walk.meet, List.map_cons, List.nodup_cons]
    refine ⟨fun hmem => hnew ?_, h.nodup⟩
    obtain ⟨p, hp, rfl⟩ := List.mem_map.1 hmem
    exact ⟨p.2, hp⟩
  object o' ho' := by
    rcases knows_meet.1 ho' with rfl | ho'
    · exact hat
    · exact h.object o' ho'
  seen p hp := by
    rcases List.mem_cons.1 hp with rfl | hp
    · exact VarSupply.issued_fresh w.vars
    · exact (h.seen p hp).mono (Nat.le_succ _)
  constraints e he := (h.constraints e he).imp (·.mono (Nat.le_succ _)) (·.mono (Nat.le_succ _))

theorem Describes.enter (hw : w.Orderly m s) {o : ObjectId} {kind : ObjectKind} (hnew : ¬ w.Knows o)
    (hat : m.occurrence h? = .object o) (hkind : m.kind? (.plain o) = some kind)
    (hparts : Describes m s (m.parts kind) (fun τ t => τ.Fits m kind t) (w.meet o) t w') :
    Describes m s [h?] (fun τ t => τ.Allows m h? t) w (.var w.vars.fresh.1)
      (w'.push (.var w.vars.fresh.1) t) := by
  have hgoes : w'.Extends w := hparts.goesOn.trans (extends_meet w o)
  have hknown : w'.Knows o := hparts.goesOn.knows (knows_meet.2 (.inl rfl))
  have hplace : (o, w.vars.fresh.1) ∈ w'.seen := hparts.goesOn.seen.subset List.mem_cons_self
  have hissued : Ty.Issued w'.vars (.var w.vars.fresh.1) := fun v hv => by
    obtain rfl : v = w.vars.fresh.1 := by simpa [Ty.leaves] using hv
    exact (VarSupply.issued_fresh w.vars).mono hparts.goesOn.next
  have hinside : ∀ o', w'.Knows o' → ¬ w.Knows o' → o' = o ∨ w'.Knows o' ∧ ¬ (w.meet o).Knows o' :=
    fun o' hnow hbefore => by
      rw [knows_meet]
      tauto
  constructor
  · exact hparts.orderly.push hissued hparts.issued
  · exact (extends_push _ _ _).trans hgoes
  · exact hissued
  · simp only [List.mem_singleton, forall_eq]
    intro o' ho'
    obtain rfl : o = o' := by simpa [hat] using ho'
    exact hknown
  · intro o' kind' hnow hbefore hkind' part hpart
    rcases hinside o' hnow hbefore with rfl | ⟨hnow, hbefore⟩
    · obtain rfl : kind = kind' := by simpa [hkind] using hkind'
      exact hparts.covers part hpart
    · exact hparts.closed o' kind' hnow hbefore hkind' part hpart
  · intro τ hsolved hreads
    obtain ⟨hsolved, hequal⟩ := solved_push.1 hsolved
    have hobject : τ.object o = τ.tags w.vars.fresh.1 := hreads o _ hplace
    obtain ⟨hfits, hrest⟩ := hparts.sound τ hsolved hreads
    refine ⟨(Typing.allows_object hat).2 hobject.symm, fun o' kind' hnow hbefore hkind' => ?_⟩
    rcases hinside o' hnow hbefore with rfl | ⟨hnow, hbefore⟩
    · obtain rfl : kind = kind' := by simpa [hkind] using hkind'
      rw [hobject]
      rwa [← hequal] at hfits
    · exact hrest o' kind' hnow hbefore hkind'
  · intro hfits τ σ T hconsistent htags hsolved hreads hT
    obtain rfl : T = τ.object o := (Typing.allows_object hat).1 hT
    have hconsistent : τ.Consistent m h? := by simpa using hconsistent
    have hroom : w.vars.next < VarSupply.capacity :=
      Nat.lt_of_lt_of_le (Nat.lt_succ_self _) (hparts.goesOn.next.trans hfits)
    have hagree := VarSupply.agree_update hroom σ (τ.object o)
    have hreads' : (w.meet o).Reads (Function.update σ w.vars.fresh.1 (τ.object o)) τ := by
      intro o' v hv
      rcases List.mem_cons.1 hv with heq | hv
      · obtain ⟨rfl, rfl⟩ := Prod.mk.inj heq
        simp
      · exact hw.reads_agree hagree hreads o' v hv
    obtain ⟨σ', hagree', hsolved', hreads'', hfound⟩ := hparts.complete hfits τ _ (τ.object o)
      (fun part hpart => hconsistent.part (.here hat) hkind hpart) (htags.trans hw.next hagree)
      (hw.solved_agree hagree hsolved) hreads' (hconsistent o kind (.here hat) hkind)
    have hvar : σ' w.vars.fresh.1 = τ.object o := (hreads'' o _ hplace).symm
    exact ⟨σ', hagree.trans (Nat.le_succ _) hagree',
      solved_push.2 ⟨hsolved', by rw [Ty.subst_var, hvar, hfound]⟩, hreads'', hvar⟩

end Walk

namespace Heap

variable {m : Heap} {s : VarSupply} {depth : Nat}

/-- The function describes every handle while fewer objects are left than `depth`. -/
def Visits (m : Heap) (s : VarSupply) (depth : Nat) (visit : Option Handle → Walk → Ty × Walk) :
    Prop :=
  ∀ h? w, w.Orderly m s → m.objects.next < depth + w.seen.length →
    Describes m s [h?] (fun τ t => τ.Allows m h? t) w (visit h? w).1 (visit h? w).2

theorem describes_arguments {visit : Option Handle → Walk → Ty × Walk} (hvisit : Visits m s depth visit)
    {w : Walk} (hw : w.Orderly m s) (hdepth : m.objects.next < depth + w.seen.length)
    (slots : List ThunkId) {hs : List (Option Handle)} {R : Typing → Ty → Prop} (start : Ty × Walk)
    (h : Describes m s hs R w start.1 start.2) :
    Describes m s ((slots.map m.slotHandle?).reverse ++ hs)
      (fun τ T => ∃ arguments, List.Forall₂ (fun slot a => τ.Allows m (m.slotHandle? slot) a) slots
        arguments ∧ R τ (Ty.arrowChain arguments T)) w
      (slots.foldl (fun (t, w) slot =>
        let (argument, w) := visit (m.slotHandle? slot) w
        w.application t argument) start).1
      (slots.foldl (fun (t, w) slot =>
        let (argument, w) := visit (m.slotHandle? slot) w
        w.application t argument) start).2 := by
  induction slots generalizing hs R start with
  | nil => exact h.congr (by simp)
  | cons slot slots ih =>
    have hlength := h.goesOn.seen.length_le
    have hargument := hvisit (m.slotHandle? slot) start.2 h.orderly (by omega)
    have hrest := ih _ (h.application hw hargument)
    rw [List.map_cons, List.reverse_cons, List.append_assoc]
    refine hrest.congr fun τ T => ?_
    constructor
    · rintro ⟨arguments, harguments, b, hR, hallows⟩
      exact ⟨b :: arguments, .cons hallows harguments, hR⟩
    · rintro ⟨_, _ | ⟨hallows, harguments⟩, hR⟩
      exact ⟨_, harguments, _, hR, hallows⟩

theorem visitClosure_bare {visit : Option Handle → Walk → Ty × Walk} {c : Closure}
    (hproper : c.Proper) (hbare : c.bound = 0) (w : Walk) :
    Heap.visit.visitClosure m visit c w = (((m.declared c).instantiate w.vars).1,
      { w with vars := ((m.declared c).instantiate w.vars).2 }) := by
  rw [visit.visitClosure, hproper.arguments_eq_nil hbare]
  rfl

theorem describes_closure {visit : Option Handle → Walk → Ty × Walk} (hvisit : Visits m s depth visit)
    {w : Walk} (hw : w.Orderly m s) (hdepth : m.objects.next < depth + w.seen.length) (c : Closure) :
    Describes m s (m.parts (.closure c)) (fun τ t => τ.Fits m (.closure c) t) w
      (Heap.visit.visitClosure m visit c w).1 (Heap.visit.visitClosure m visit c w).2 := by
  have h := describes_arguments hvisit hw hdepth c.arguments (_, _)
    (describes_instance hw (m.declared c))
  refine h.weaken (fun h? hh => h.covers h? ?_) ?_
  · rw [List.append_nil, List.mem_reverse]
    exact hh
  · intro h? hh
    rwa [List.append_nil, List.mem_reverse] at hh

theorem describes_enter {w : Walk} (hw : w.Orderly m s) {h : Handle} (hplain : h.isException = false)
    {kind : ObjectKind} (hkind : m.kind? h = some kind)
    (hbound : ∀ c, kind = .closure c → c.bound ≠ 0) (hnew : w.seen.lookup h.target = none)
    (parts : Walk → Ty × Walk)
    (hparts : (w.meet h.target).Orderly m s →
      Describes m s (m.parts kind) (fun τ t => τ.Fits m kind t) (w.meet h.target)
        (parts (w.meet h.target)).1 (parts (w.meet h.target)).2) :
    Describes m s [some h] (fun τ t => τ.Allows m (some h) t) w (visit.enter h.target parts w).1
      (visit.enter h.target parts w).2 := by
  have hat := occurrence_of_kind hplain hkind hbound
  have hunknown : ¬ w.Knows h.target := by
    rw [← lookup_isSome_iff, hnew]
    exact Bool.false_ne_true
  exact Describes.enter hw hunknown hat hkind
    (hparts (hw.meet hunknown ((occurrence_of_plain hplain).symm.trans hat)))

theorem visits_visit (hproper : ∀ o c, m.kind? (.plain o) = some (.closure c) → c.Proper)
    (htags : ∀ o v, m.kind? (.plain o) = some (.value v) → v.type.Issued s) (depth : Nat) :
    Visits m s depth (m.visit depth) := by
  induction depth with
  | zero =>
    intro h? w hw hdepth
    -- No layer is left, yet a walk meets each object once and there are no more of them.
    have := hw.length_seen_le
    omega
  | succ depth ih =>
    intro h? w hw hdepth
    have hanything : m.occurrence h? = .anything →
        Describes m s [h?] (fun τ t => τ.Allows m h? t) w w.fresh.1 w.fresh.2 := fun hat =>
      describes_fresh hw (by simpa using covers_of_ne_object (by simp [hat]))
        fun τ t => Typing.allows_of_anything hat t
    cases h? with
    | none => exact hanything rfl
    | some h =>
      rw [visit]
      split
      · next hexception => exact hanything (occurrence_of_exception hexception)
      next hplain =>
      have hplain : h.isException = false := by simpa using hplain
      have hroom : ∀ o, m.objects.next < depth + (w.meet o).seen.length := fun o => by
        rw [Walk.meet, List.length_cons]
        omega
      split
      · next v hv =>
        have hseen := mem_of_lookup hv
        exact describes_known hw hseen
          ((occurrence_of_plain hplain).trans (hw.object _ ⟨v, hseen⟩))
      · next c hnew hkind =>
        split
        · next hbare =>
          have hat := occurrence_of_bare hplain hkind hbare
          rw [visitClosure_bare (hproper h.target c hkind) hbare]
          refine ((describes_instance hw (m.declared c)).weaken ?_ (by simp)).congr fun τ T =>
            (Typing.allows_declaration hat).symm
          simpa using covers_of_ne_object (by simp [hat])
        · next hbound =>
          exact describes_enter hw hplain hkind (by rintro _ ⟨⟩; exact hbound) hnew _ fun hmeet =>
            describes_closure ih hmeet (hroom _) c
      · next v hnew hkind =>
        exact describes_enter hw hplain hkind (by simp) hnew _ fun hmeet =>
          describes_tag hmeet (htags h.target v hkind)
      · next e hnew hkind =>
        exact describes_enter hw hplain hkind (by simp) hnew _ fun hmeet =>
          describes_fresh hmeet (by simp [parts]) fun _ _ => trivial
      · next result hnew hkind =>
        exact describes_enter hw hplain hkind (by simp) hnew _ fun hmeet =>
          ih _ _ hmeet (hroom _)
      · next k hnew hkind =>
        exact describes_enter hw hplain hkind (by simp) hnew _ fun hmeet =>
          ih _ _ hmeet (hroom _)
      · next function argument hnew hkind =>
        refine describes_enter hw hplain hkind (by simp) hnew _ fun hmeet => ?_
        have hfunction := ih (some function) _ hmeet (hroom _)
        have hlength := hfunction.goesOn.seen.length_le
        have hargument := ih (some argument) _ hfunction.orderly (by have := hroom h.target; omega)
        have happlied := hfunction.application hmeet hargument
        refine happlied.weaken (fun h? hh => happlied.covers h? ?_) ?_
        · simpa [parts, or_comm] using hh
        · simp [parts]
      · next hnew hkind => exact hanything (occurrence_of_gone hkind)

end Heap

end GraphReduction
