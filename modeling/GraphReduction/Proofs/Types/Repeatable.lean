import Mathlib
import GraphReduction.Proofs.Heap.Reaches
import GraphReduction.Proofs.Types.Draws
import GraphReduction.Proofs.Types.Principal
import GraphReduction.Proofs.Types.Shift
import GraphReduction.Proofs.Unify.Equivariance

/-! A type found again is the same type. Two walks from one handle, with nothing behind it changed in
between, take the same steps; they differ in the variables drawn, and the later ones are the earlier
ones moved up. Solving commutes with that renaming and generalizing does not see it. -/
namespace GraphReduction

open Walk VarSupply

namespace Walk

variable {m : Heap} {h : Handle} {first distance : Nat} {w w' : Walk} {o : ObjectId}

/-- The second walk is where the first is, with its variables moved up. -/
structure Alike (m : Heap) (h : Handle) (first distance : Nat) (w w' : Walk) : Prop where
  start : first ≤ w.vars.next
  next : w'.vars.next = w.vars.next + distance
  seen : w'.seen = w.seen.map fun p => (p.1, shift first distance p.2)
  equations : w'.constraints.equations.toList =
    w.constraints.equations.toList.map (Equation.rename (shift first distance))
  nodup : (w.seen.map Prod.fst).Nodup
  reached : ∀ o, w.Knows o → m.Reaches h (.object o) ∧ (m.kind? (.plain o)).isSome

/-- Parts of both walks that find the same type and leave the walks alike. -/
structure Repeats (m : Heap) (h : Handle) (first distance : Nat) (w : Walk) (r r' : Ty × Walk) :
    Prop where
  type : r'.1 = r.1.rename (shift first distance)
  alike : Alike m h first distance r.2 r'.2
  longer : w.seen.length ≤ r.2.seen.length

theorem Alike.repeats (h' : Alike m h first distance w w') {t t' : Ty}
    (htype : t' = t.rename (shift first distance)) :
    Repeats m h first distance w (t, w) (t', w') := ⟨htype, h', Nat.le_refl _⟩

theorem Alike.draw (h' : Alike m h first distance w w') {vars vars' : VarSupply}
    (hgrown : w.vars.next ≤ vars.next) (hnext : vars'.next = vars.next + distance) :
    Alike m h first distance { w with vars } { w' with vars := vars' } :=
  ⟨h'.start.trans hgrown, hnext, h'.seen, h'.equations, h'.nodup, h'.reached⟩

theorem Alike.push (h' : Alike m h first distance w w') {t t' u u' : Ty}
    (ht : t' = t.rename (shift first distance)) (hu : u' = u.rename (shift first distance)) :
    Alike m h first distance (w.push t u) (w'.push t' u') := by
  refine ⟨h'.start, h'.next, h'.seen, ?_, h'.nodup, h'.reached⟩
  subst ht hu
  simp [Walk.push, h'.equations, Equation.rename]

theorem Alike.fresh_eq (h' : Alike m h first distance w w') (hfits : w'.vars.next < capacity) :
    w'.vars.fresh.1 = shift first distance w.vars.fresh.1 := shift_fresh h'.start h'.next (.inr hfits)

theorem Alike.repeats_fresh (h' : Alike m h first distance w w') (hfits : w'.vars.next < capacity) :
    Repeats m h first distance w w.fresh w'.fresh := by
  have hnext : w'.vars.fresh.2.next = w.vars.fresh.2.next + distance := by
    rw [fresh_next, fresh_next, h'.next]
    omega
  exact ⟨congrArg Ty.var (h'.fresh_eq hfits), h'.draw (Nat.le_succ _) hnext, Nat.le_refl _⟩

theorem Alike.repeats_instantiate (h' : Alike m h first distance w w') (declared : Ty)
    (hfits : (declared.instantiate w'.vars).2.next ≤ capacity) :
    Repeats m h first distance w
      ((declared.instantiate w.vars).1, { w with vars := (declared.instantiate w.vars).2 })
      ((declared.instantiate w'.vars).1, { w' with vars := (declared.instantiate w'.vars).2 }) := by
  obtain ⟨htype, hnext⟩ := declared.instantiate_shift h'.start h'.next (.inr hfits)
  exact ⟨htype, h'.draw (Ty.draws_instantiate declared w.vars).next hnext, Nat.le_refl _⟩

theorem Alike.meet (h' : Alike m h first distance w w') (hnew : ¬ w.Knows o)
    (ho : m.Reaches h (.object o)) (halive : (m.kind? (.plain o)).isSome)
    (hfits : w'.vars.next < capacity) : Alike m h first distance (w.meet o) (w'.meet o) := by
  have hnext : w'.vars.fresh.2.next = w.vars.fresh.2.next + distance := by
    rw [fresh_next, fresh_next, h'.next]
    omega
  refine ⟨h'.start.trans (Nat.le_succ _), hnext, ?_, h'.equations, ?_, fun o' ho' => ?_⟩
  · rw [Walk.meet, Walk.meet, List.map_cons, ← h'.fresh_eq hfits, h'.seen]
  · rw [Walk.meet, List.map_cons, List.nodup_cons]
    refine ⟨fun hmem => hnew ?_, h'.nodup⟩
    obtain ⟨p, hp, rfl⟩ := List.mem_map.1 hmem
    exact ⟨p.2, hp⟩
  · rcases knows_meet.1 ho' with rfl | ho'
    · exact ⟨ho, halive⟩
    · exact h'.reached o' ho'

theorem Repeats.application {r r' a a' : Ty × Walk} (hfunction : Repeats m h first distance w r r')
    (hargument : Repeats m h first distance r.2 a a') (hfits : a'.2.vars.next < capacity) :
    Repeats m h first distance w (a.2.application r.1 a.1) (a'.2.application r'.1 a'.1) := by
  have hfresh := hargument.alike.repeats_fresh hfits
  refine ⟨hfresh.type, hfresh.alike.push hfunction.type ?_,
    hfunction.longer.trans hargument.longer⟩
  rw [hargument.type, Ty.rename_arrow]
  exact congrArg (Ty.arrow _) hfresh.type

theorem Alike.repeats_enter (h' : Alike m h first distance w w') (hnew : ¬ w.Knows o)
    (ho : m.Reaches h (.object o)) (halive : (m.kind? (.plain o)).isSome)
    {parts parts' : Walk → Ty × Walk} (hgrows : ∀ w : Walk, w.vars.Draws (parts' w).2.vars)
    (hfits : (Heap.visit.enter o parts' w').2.vars.next ≤ capacity)
    (hparts : Alike m h first distance (w.meet o) (w'.meet o) →
      (parts' (w'.meet o)).2.vars.next ≤ capacity →
      Repeats m h first distance (w.meet o) (parts (w.meet o)) (parts' (w'.meet o))) :
    Repeats m h first distance w (Heap.visit.enter o parts w) (Heap.visit.enter o parts' w') := by
  have hroom : w'.vars.next < capacity :=
    Nat.lt_of_lt_of_le (Nat.lt_succ_self _) ((hgrows (w'.meet o)).next.trans hfits)
  have hinside := hparts (h'.meet hnew ho halive hroom) hfits
  have hvar : Ty.var w'.vars.fresh.1 = (Ty.var w.vars.fresh.1).rename (shift first distance) :=
    congrArg Ty.var (h'.fresh_eq hroom)
  exact ⟨hvar, hinside.alike.push hvar hinside.type, (Nat.le_succ _).trans hinside.longer⟩

end Walk

namespace Heap

variable {m m' : Heap} {h : Handle} {first distance depth depth' : Nat}

/-- On walks that are alike, with fewer objects left than layers, the second function repeats the
first. -/
def Repeating (m m' : Heap) (h : Handle) (first distance depth depth' : Nat)
    (inside inside' : Option Handle → Walk → Ty × Walk) : Prop :=
  ∀ h? w w', Alike m h first distance w w' → m.Inside h h? →
    m.objects.next < depth + w.seen.length → m'.objects.next < depth' + w.seen.length →
    (inside' h? w').2.vars.next ≤ capacity →
    Repeats m h first distance w (inside h? w) (inside' h? w')

variable {inside inside' : Option Handle → Walk → Ty × Walk}

theorem repeats_arguments (hsame : m.Unchanged m' h)
    (hinside : Repeating m m' h first distance depth depth' inside inside')
    (hgrows : ∀ h? (w : Walk), w.vars.Draws (inside' h? w).2.vars) {w : Walk}
    (hdepth : m.objects.next < depth + w.seen.length)
    (hdepth' : m'.objects.next < depth' + w.seen.length) (slots : List ThunkId)
    (hslots : ∀ t ∈ slots, m.Reaches h (.thunk t)) (r r' : Ty × Walk)
    (hr : Repeats m h first distance w r r')
    (hfits : (slots.foldl (fun (t, w) slot =>
      let (argument, w) := inside' (m'.slotHandle? slot) w
      w.application t argument) r').2.vars.next ≤ capacity) :
    Repeats m h first distance w
      (slots.foldl (fun (t, w) slot =>
        let (argument, w) := inside (m.slotHandle? slot) w
        w.application t argument) r)
      (slots.foldl (fun (t, w) slot =>
        let (argument, w) := inside' (m'.slotHandle? slot) w
        w.application t argument) r') := by
  induction slots generalizing r r' with
  | nil => exact hr
  | cons slot slots ih =>
    have hlonger := hr.longer
    obtain ⟨hslot, hreached⟩ := hsame.slot (hslots slot List.mem_cons_self)
    have hrest := (draws_arguments hgrows slots
      ((inside' (m'.slotHandle? slot) r'.2).2.application r'.1
        (inside' (m'.slotHandle? slot) r'.2).1)).next.trans hfits
    have hroom : (inside' (m'.slotHandle? slot) r'.2).2.vars.next < capacity := hrest
    have hargument : Repeats m h first distance r.2 (inside (m.slotHandle? slot) r.2)
        (inside' (m'.slotHandle? slot) r'.2) := by
      rw [hslot] at hroom ⊢
      exact hinside _ _ _ hr.alike hreached (by omega) (by omega) hroom.le
    exact ih (fun t ht => hslots t (List.mem_cons_of_mem _ ht)) _ _
      (hr.application hargument hroom) hfits

theorem repeats_closure (hsame : m.Unchanged m' h)
    (hinside : Repeating m m' h first distance depth depth' inside inside')
    (hgrows : ∀ h? (w : Walk), w.vars.Draws (inside' h? w).2.vars) {w w' : Walk}
    (halike : Alike m h first distance w w') {o : ObjectId} (ho : m.Reaches h (.object o))
    {c : Closure} (hkind : m.kind? (.plain o) = some (.closure c))
    (hdepth : m.objects.next < depth + w.seen.length)
    (hdepth' : m'.objects.next < depth' + w.seen.length)
    (hfits : (visit.visitClosure m' inside' c w').2.vars.next ≤ capacity) :
    Repeats m h first distance w (visit.visitClosure m inside c w)
      (visit.visitClosure m' inside' c w') := by
  have hroom := (draws_arguments hgrows c.arguments (((m'.declared c).instantiate w'.vars).1,
    { w' with vars := ((m'.declared c).instantiate w'.vars).2 })).next.trans hfits
  have hdeclared : Repeats m h first distance w
      (((m.declared c).instantiate w.vars).1,
        { w with vars := ((m.declared c).instantiate w.vars).2 })
      (((m'.declared c).instantiate w'.vars).1,
        { w' with vars := ((m'.declared c).instantiate w'.vars).2 }) := by
    rw [hsame.declared ho hkind] at hroom ⊢
    exact halike.repeats_instantiate _ hroom
  exact repeats_arguments hsame hinside hgrows hdepth hdepth' c.arguments
    (fun t ht => ho.argument hkind ht) _ _ hdeclared hfits

/-- Walks over what is the same in both heaps repeat each other. The induction is on the depth of
the first walk; both still have a layer because every object seen is alive in both heaps. -/
theorem repeating_visit (hsame : m.Unchanged m' h)
    {vars : VarSupply} (hm : m.Typable vars) (distance depth depth' : Nat) :
    Repeating m m' h vars.next distance depth depth' (m.visit depth) (m'.visit depth') := by
  induction depth generalizing depth' with
  | zero =>
    intro h? w w' halike _ hdepth
    -- No layer is left, yet a walk meets each object once and there are no more of them.
    have := length_seen_le halike.nodup fun o ho => (halike.reached o ho).2
    omega
  | succ depth ih =>
    intro h? w w' halike hinside hdepth hdepth' hfits
    cases depth' with
    | zero =>
      have := length_seen_le halike.nodup fun o ho => by
        rw [hsame.object o (halike.reached o ho).1]
        exact (halike.reached o ho).2
      omega
    | succ depth' =>
      cases h? with
      | none => exact halike.repeats_fresh hfits
      | some x =>
        have hx : m.Reaches h (.object x.target) := hinside x rfl
        have hkinds : m'.kind? x = m.kind? x := hsame.object x.target hx
        have hlookup := lookup_map_snd (shift vars.next distance) w.seen x.target
        rw [← halike.seen] at hlookup
        have hgrows : ∀ h? (w : Walk), w.vars.Draws (m'.visit depth' h? w).2.vars :=
          m'.draws_visit depth'
        have hlayer : m.objects.next < depth + (w.meet x.target).seen.length := by
          rw [Walk.meet, List.length_cons]
          omega
        have hlayer' : m'.objects.next < depth' + (w.meet x.target).seen.length := by
          rw [Walk.meet, List.length_cons]
          omega
        rw [visit] at hfits ⊢
        rw [visit]
        by_cases hexception : x.isException = true
        · rw [if_pos hexception] at hfits ⊢
          rw [if_pos hexception]
          exact halike.repeats_fresh hfits
        rw [if_neg hexception] at hfits ⊢
        rw [if_neg hexception]
        cases hseen : w.seen.lookup x.target with
        | some v =>
          rw [hseen, Option.map_some] at hlookup
          rw [hlookup] at hfits ⊢
          exact halike.repeats rfl
        | none =>
          rw [hseen, Option.map_none] at hlookup
          have hnew : ¬ w.Knows x.target := by
            rw [← lookup_isSome_iff, hseen]
            exact Bool.false_ne_true
          rw [hlookup, hkinds] at hfits ⊢
          cases hkind : m.kind? x with
          | none =>
            rw [hkind] at hfits
            exact halike.repeats_fresh hfits
          | some kind =>
            rw [hkind] at hfits
            have halive : (m.kind? (.plain x.target)).isSome := by
              rw [show m.kind? (.plain x.target) = some kind from hkind]
              rfl
            cases kind with
            | closure c =>
              dsimp only at hfits ⊢
              split
              · next hbare =>
                rw [if_pos hbare] at hfits
                have hproper := hm.proper x.target c hkind
                rw [visitClosure_bare hproper hbare, hsame.declared hx hkind] at hfits
                rw [visitClosure_bare hproper hbare, visitClosure_bare hproper hbare,
                  hsame.declared hx hkind]
                exact halike.repeats_instantiate _ hfits
              · next hbound =>
                rw [if_neg hbound] at hfits
                exact halike.repeats_enter hnew hx halive (draws_visitClosure hgrows c) hfits
                  fun hmeet hroom => repeats_closure hsame (ih depth') hgrows hmeet hx hkind hlayer
                    hlayer' hroom
            | value v =>
              refine halike.repeats_enter hnew hx halive (fun _ => .refl _) hfits
                fun hmeet _ => hmeet.repeats ?_
              exact (Ty.rename_of_fixed fun u hu => shift_of_lt (hm.tags _ v hkind u hu)).symm
            | exception e =>
              exact halike.repeats_enter hnew hx halive (fun w => w.vars.draws_fresh) hfits
                fun hmeet hroom => hmeet.repeats_fresh hroom
            | application a =>
              cases a with
              | reduced result =>
                refine halike.repeats_enter hnew hx halive (hgrows _) hfits fun hmeet hroom =>
                  ih depth' _ _ _ hmeet (fun y hy => ?_) hlayer hlayer' hroom
                obtain rfl := Option.some.inj hy
                exact hx.edge hkind (by simp [ObjectKind.edges, Handle.edge])
              | knot k =>
                obtain ⟨hknot, hreached⟩ := hsame.knot hx hkind
                dsimp only at hfits ⊢
                rw [hknot] at hfits ⊢
                exact halike.repeats_enter hnew hx halive (hgrows _) hfits fun hmeet hroom =>
                  ih depth' _ _ _ hmeet hreached hlayer hlayer' hroom
              | pending function argument =>
                have hfunction : m.Inside h (some function) := fun y hy => by
                  obtain rfl := Option.some.inj hy
                  exact hx.edge hkind (by simp [ObjectKind.edges, Handle.edge])
                have hargument : m.Inside h (some argument) := fun y hy => by
                  obtain rfl := Option.some.inj hy
                  exact hx.edge hkind (by simp [ObjectKind.edges, Handle.edge])
                refine halike.repeats_enter hnew hx halive (fun w => (hgrows _ w).trans
                  ((hgrows _ _).trans (draws_application _ _ _))) hfits fun hmeet hroom => ?_
                have hlast := Nat.lt_of_succ_le hroom
                have hf := ih depth' (some function) _ _ hmeet hfunction hlayer hlayer'
                  ((hgrows _ _).next.trans hlast.le)
                have hlonger := hf.longer
                exact hf.application (ih depth' (some argument) _ _ hf.alike hargument (by omega)
                  (by omega) hlast.le) hlast

theorem repeats_walked {vars vars' : VarSupply} (hsame : m.Unchanged m' h) (hm : m.Typable vars)
    (hlater : vars.next ≤ vars'.next) (hfits : (m'.walked h vars').2.vars.next ≤ capacity) :
    Repeats m h vars.next (vars'.next - vars.next) { vars } (m.walked h vars)
      (m'.walked h vars') := by
  refine repeating_visit hsame hm _ m.visitDepth m'.visitDepth (some h) { vars } { vars := vars' }
    ⟨Nat.le_refl _, (Nat.add_sub_of_le hlater).symm, rfl, rfl, by simp, by simp [Knows]⟩ ?_ ?_ ?_
    hfits
  · intro x hx
    obtain rfl := Option.some.inj hx
    exact .here
  · simp [visitDepth]
  · simp [visitDepth]

/-- Asking for the type of a handle again, at any later time and in a heap where nothing that can be
reached from the handle has changed, gives the same type, with the same text. Where there is none,
it gives the same failure: the two reports differ by a one-to-one renaming that keeps every variable
drawn before. The reason is that solving commutes with every one-to-one renaming. That needs fresh
variables to be fresh, so no more of them may have been drawn than there are identities. -/
theorem typeOf_repeatable {m m' : Heap} {h : Handle} {vars vars' : VarSupply} (hm : m.Typable vars)
    (hsame : m.Unchanged m' h) (hlater : (m.typeOf h vars).2.Precedes vars')
    (hfits : (m'.typeOf h vars').2.next ≤ capacity) :
    (∀ σ : VarId → VarId, Function.Injective σ → ∀ equations : List Equation,
        unify (equations.map (Equation.rename σ)) = Unify.renamed σ (unify equations)) ∧
      ((∃ t t', (m.typeOf h vars).1 = .ok t ∧ (m'.typeOf h vars').1 = .ok t' ∧ t' = t ∧
          t'.text = t.text) ∨
        ∃ error, (m.typeOf h vars).1 = .error error ∧
          ∃ σ : VarId → VarId, Function.Injective σ ∧ (∀ v, vars.Issued v → σ v = v) ∧
            (m'.typeOf h vars').1 = .error (error.rename σ)) := by
  refine ⟨fun σ hinj => unify_rename hinj, ?_⟩
  have hnext : vars.next ≤ vars'.next := (m.next_typeOf_le h vars).trans hlater.next
  have hinj := shift_injective vars.next (vars'.next - vars.next)
  have hrepeats := repeats_walked hsame hm hnext ((next_walked_le m' h vars').trans hfits)
  have hsolves : (m'.walked h vars').2.constraints.solve =
      Unify.renamed (shift vars.next (vars'.next - vars.next))
        (m.walked h vars).2.constraints.solve := by
    rw [Constraints.solve, hrepeats.alike.equations]
    exact unify_rename hinj _
  cases hsolve : (m.walked h vars).2.constraints.solve with
  | error error =>
    rw [hsolve] at hsolves
    rw [typeOf_of_unsolvable hsolve, typeOf_of_unsolvable hsolves]
    exact .inr ⟨error, rfl, _, hinj, fun v hv => shift_of_lt hv, rfl⟩
  | ok s =>
    rw [hsolve] at hsolves
    rw [typeOf_of_solve hsolve] at hlater ⊢
    rw [typeOf_of_solve hsolves, hrepeats.type, Substitution.apply_rename hinj,
      Ty.generalize_rename hinj.injOn]
    have hdrawn := hlater.trans (m'.draws_visit m'.visitDepth (some h) { vars := vars' }).precedes
    have hsame := Ty.generalize_of_precedes hdrawn
    exact .inl ⟨_, _, rfl, rfl, hsame, congrArg Ty.text hsame⟩

/-- A number applied to itself, with so many references to the application. -/
def misapplied (strong : Nat) : Heap where
  objects := ⟨#[some ⟨.shared 2 0, .value ⟨.int, .int 1⟩⟩,
    some ⟨.shared strong 0, .application (.pending (.plain ⟨0⟩) (.plain ⟨0⟩))⟩]⟩

theorem typable_misapplied (strong : Nat) (vars : VarSupply) : (misapplied strong).Typable vars := by
  have hkind : ∀ o kind, (misapplied strong).kind? (.plain o) = some kind →
      kind = .value ⟨.int, .int 1⟩ ∨ kind = .application (.pending (.plain ⟨0⟩) (.plain ⟨0⟩)) := by
    rintro ⟨_ | _ | n⟩ kind h <;> simp_all [kind?, object?, Arena.get?, misapplied, Handle.plain]
  constructor
  · intro o c h
    rcases hkind o _ h with h | h <;> cases h
  · intro o v h
    rcases hkind o _ h with h | h <;> cases h
    simp [Ty.Issued, Ty.int, Ty.leaves]

theorem unchanged_misapplied (strong strong' : Nat) (h : Handle) :
    (misapplied strong).Unchanged (misapplied strong') h := by
  refine ⟨fun o _ => ?_, fun _ _ => rfl, fun _ _ => rfl⟩
  rcases o with ⟨_ | _ | n⟩ <;> rfl

/-- The application has no type, and both reports name the variable of its result. -/
theorem typeOf_repeatable_misapplied :
    (misapplied 1).Typable {} ∧ (misapplied 1).Unchanged (misapplied 2) (.plain ⟨1⟩) ∧
      ((misapplied 1).typeOf (.plain ⟨1⟩) {}).2.Precedes { next := 20 } ∧
      ((misapplied 2).typeOf (.plain ⟨1⟩) { next := 20 }).2.next ≤ capacity ∧
      ((misapplied 1).typeOf (.plain ⟨1⟩) {}).1 =
        .error (.typeMismatch .int (.arrow .int (.var ⟨3⟩))) ∧
      ∃ σ : VarId → VarId, Function.Injective σ ∧
        ((misapplied 2).typeOf (.plain ⟨1⟩) { next := 20 }).1 =
          .error (.typeMismatch .int (.arrow .int (.var (σ ⟨3⟩)))) := by
  have hfound : (misapplied 1).typeOf (.plain ⟨1⟩) {} =
      (.error (.typeMismatch .int (.arrow .int (.var ⟨3⟩))), ⟨4, #[]⟩) := by cbv
  have hfound' : (misapplied 2).typeOf (.plain ⟨1⟩) { next := 20 } =
      (.error (.typeMismatch .int (.arrow .int (.var ⟨22⟩))), ⟨23, #[]⟩) := by cbv
  have hlater : ((misapplied 1).typeOf (.plain ⟨1⟩) {}).2.Precedes { next := 20 } := by
    rw [hfound]
    exact ⟨by decide, List.prefix_refl _⟩
  have hfits : ((misapplied 2).typeOf (.plain ⟨1⟩) { next := 20 }).2.next ≤ capacity := by
    rw [hfound']
    decide
  refine ⟨typable_misapplied 1 _, unchanged_misapplied 1 2 _, hlater, hfits,
    congrArg Prod.fst hfound, ?_⟩
  rcases (typeOf_repeatable (typable_misapplied 1 _) (unchanged_misapplied 1 2 _) hlater hfits).2
    with ⟨t, t', ht, -⟩ | ⟨error, herror, σ, hinj, -, hrenamed⟩
  · rw [hfound] at ht
    cases ht
  · rw [hfound] at herror
    obtain rfl := Except.error.inj herror
    exact ⟨σ, hinj, hrenamed⟩

end Heap

end GraphReduction
