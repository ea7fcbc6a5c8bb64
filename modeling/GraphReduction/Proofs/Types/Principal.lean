import Mathlib
import GraphReduction.Proofs.Types.Visit
import GraphReduction.Proofs.Unify.MostGeneral

/-! The type of a term is principal. The solution of the equations collected, and every assignment
that goes through it, is read back as types for the objects; and types that fit together solve the
equations. Both directions are what the description of the walk says. -/
namespace GraphReduction.Heap

open Walk

variable {m : Heap} {h : Handle} {vars : VarSupply}

/-- Closures are in order, and tags are built from variables that have been drawn. The heap of every
session is (`Session.typable`): arguments are bound by filling the next slot, and the types of values
are written with variables from the supply. -/
structure Typable (m : Heap) (vars : VarSupply) : Prop where
  proper : ∀ o c, m.kind? (.plain o) = some (.closure c) → c.Proper
  tags : ∀ o v, m.kind? (.plain o) = some (.value v) → v.type.Issued vars

def walked (m : Heap) (h : Handle) (vars : VarSupply) : Ty × Walk :=
  m.visit m.visitDepth (some h) { vars }

theorem describes_walked (hm : m.Typable vars) (h : Handle) :
    Describes m vars [some h] (fun τ t => τ.Allows m (some h) t) { vars } (m.walked h vars).1
      (m.walked h vars).2 :=
  visits_visit hm.proper hm.tags m.visitDepth (some h) { vars }
    ⟨Nat.le_refl _, by simp, by simp [Knows], by simp, by simp⟩ (by simp [visitDepth])

def typing (w : Walk) (θ : Assignment) : Typing where
  tags := θ
  object o := ((w.seen.lookup o).map θ).getD .int

theorem reads_typing {w : Walk} {s : VarSupply} (hw : w.Orderly m s) (θ : Assignment) :
    w.Reads θ (typing w θ) := by
  intro o v hv
  have hlookup : w.seen.lookup o = some v := by
    obtain ⟨v', hv'⟩ := Option.isSome_iff_exists.1 (lookup_isSome_iff.2 ⟨v, hv⟩)
    have hinj := List.inj_on_of_nodup_map hw.nodup hv (mem_of_lookup hv') rfl
    rw [hv', (Prod.mk.inj hinj).2]
  simp [typing, hlookup]

theorem consistent_of_solved (hm : m.Typable vars) {θ : Assignment}
    (hsolved : (m.walked h vars).2.Solved θ) :
    (typing (m.walked h vars).2 θ).Consistent m (some h) ∧
      (typing (m.walked h vars).2 θ).Allows m (some h) ((m.walked h vars).1.subst θ) := by
  have hdescribes := describes_walked hm h
  obtain ⟨hallows, hfits⟩ := hdescribes.sound (typing _ θ) hsolved
    (reads_typing hdescribes.orderly θ)
  have hunknown : ∀ o, ¬ Knows { vars } o := by simp [Knows]
  refine ⟨fun o kind hvisible hkind => ?_, hallows⟩
  have hknows : (m.walked h vars).2.Knows o := by
    clear hkind
    induction hvisible with
    | here hat => exact hdescribes.covers _ List.mem_cons_self _ hat
    | part _ hkind hpart hat ih =>
      exact hdescribes.closed _ _ ih (hunknown _) hkind _ hpart _ hat
  exact hfits o kind hknows (hunknown o) hkind

theorem solved_of_consistent (hm : m.Typable vars)
    (hfits : (m.walked h vars).2.vars.next ≤ VarSupply.capacity) {τ : Typing} {T : Ty}
    (hconsistent : τ.Consistent m (some h)) (hT : τ.Allows m (some h) T) :
    ∃ θ, (m.walked h vars).2.Solved θ ∧ (m.walked h vars).1.subst θ = T := by
  obtain ⟨θ, -, hsolved, -, heq⟩ := (describes_walked hm h).complete hfits τ τ.tags T
    (by simpa using hconsistent) (.refl _ _) (by simp [Solved]) (by simp [Reads]) hT
  exact ⟨θ, hsolved, heq⟩

theorem visit_eq_walked (m : Heap) (h : Handle) (vars : VarSupply) :
    m.visit m.visitDepth (some h) { vars } = ((m.walked h vars).1, (m.walked h vars).2) := rfl

theorem typeOf_of_solve {s : Substitution}
    (hsolve : (m.walked h vars).2.constraints.solve = .ok s) :
    m.typeOf h vars = (.ok ((s.apply (m.walked h vars).1).generalize (m.walked h vars).2.vars).1,
      ((s.apply (m.walked h vars).1).generalize (m.walked h vars).2.vars).2) := by
  rw [typeOf, visit_eq_walked]
  dsimp only
  rw [hsolve]

theorem typeOf_of_unsolvable {error : UnifyError}
    (hsolve : (m.walked h vars).2.constraints.solve = .error error) :
    m.typeOf h vars = (.error error, (m.walked h vars).2.vars) := by
  rw [typeOf, visit_eq_walked]
  dsimp only
  rw [hsolve]

theorem next_walked_le (m : Heap) (h : Handle) (vars : VarSupply) :
    (m.walked h vars).2.vars.next ≤ (m.typeOf h vars).2.next := by
  cases hsolve : (m.walked h vars).2.constraints.solve with
  | error error => rw [typeOf_of_unsolvable hsolve]
  | ok s =>
    rw [typeOf_of_solve hsolve]
    exact Ty.next_generalize _ _

theorem exists_consistent_of_solve (hm : m.Typable vars) {s : Substitution}
    (hsolve : (m.walked h vars).2.constraints.solve = .ok s) (ρ : Assignment) :
    ∃ τ : Typing, τ.Consistent m (some h) ∧
      τ.Allows m (some h) ((s.apply (m.walked h vars).1).subst ρ) := by
  obtain ⟨hsolutions, hidem⟩ := holdsIn_of_unify hsolve
  have hholds := Substitution.holdsIn_toAssignment hidem
  have hsolved : (m.walked h vars).2.Solved fun v => (s.toAssignment v).subst ρ := by
    refine fun e he => ?_
    have hsame := (hsolutions _).1 hholds e he
    rw [Equation.HoldsIn, ← Ty.subst_subst, ← Ty.subst_subst, hsame]
  obtain ⟨hconsistent, hallows⟩ := consistent_of_solved hm hsolved
  rw [Substitution.apply_eq_subst hidem, Ty.subst_subst]
  exact ⟨_, hconsistent, hallows⟩

/-- Variables that meet make fewer assignments solutions, not more: whatever has been drawn before,
a type is only found where there are types that fit together. -/
theorem exists_consistent_of_ok (hm : m.Typable vars) {t : Ty} (ht : (m.typeOf h vars).1 = .ok t) :
    ∃ (τ : Typing) (T : Ty), τ.Consistent m (some h) ∧ τ.Allows m (some h) T := by
  cases hsolve : (m.walked h vars).2.constraints.solve with
  | error error => rw [typeOf_of_unsolvable hsolve] at ht; cases ht
  | ok s =>
    obtain ⟨τ, hconsistent, hallows⟩ := exists_consistent_of_solve hm hsolve .var
    exact ⟨τ, _, hconsistent, hallows⟩

theorem orderly_walked (hm : m.Typable vars) (horderly : vars.Orderly) (h : Handle) :
    (m.walked h vars).2.vars.Orderly := by
  have hgoes := (describes_walked hm h).goesOn
  exact ⟨hgoes.generics ▸ horderly.nodup, fun v hv =>
    (horderly.issued v (hgoes.generics ▸ hv)).mono hgoes.next⟩

/-- Where the type is found, there are types that fit together, and every instance of it is one of
the types that the term can have. -/
theorem exists_consistent_of_typeOf (hm : m.Typable vars) (horderly : vars.Orderly)
    (hfits : (m.typeOf h vars).2.next ≤ VarSupply.capacity) {t T : Ty}
    (ht : (m.typeOf h vars).1 = .ok t) (hT : T.IsInstanceOf t) :
    ∃ τ : Typing, τ.Consistent m (some h) ∧ τ.Allows m (some h) T := by
  cases hsolve : (m.walked h vars).2.constraints.solve with
  | error error => rw [typeOf_of_unsolvable hsolve] at ht; cases ht
  | ok s =>
    rw [typeOf_of_solve hsolve] at ht hfits
    obtain rfl := Except.ok.inj ht
    obtain ⟨ρ, rfl⟩ := (Ty.isInstanceOf_generalize (orderly_walked hm horderly h) hfits T).1 hT
    exact exists_consistent_of_solve hm hsolve ρ

/-- Where types fit together, a type is found, and it has theirs as an instance. -/
theorem typeOf_of_consistent (hm : m.Typable vars) (horderly : vars.Orderly)
    (hfits : (m.typeOf h vars).2.next ≤ VarSupply.capacity) {τ : Typing} {T : Ty}
    (hconsistent : τ.Consistent m (some h)) (hT : τ.Allows m (some h) T) :
    ∃ t, (m.typeOf h vars).1 = .ok t ∧ T.IsInstanceOf t := by
  obtain ⟨θ, hsolved, rfl⟩ :=
    solved_of_consistent hm ((next_walked_le m h vars).trans hfits) hconsistent hT
  cases hsolve : (m.walked h vars).2.constraints.solve with
  | error error =>
    obtain ⟨hsides, hclash⟩ := clash_of_unify hsolve
    exact absurd (hsides θ hsolved) (hclash.unsolvable θ)
  | ok s =>
    rw [typeOf_of_solve hsolve] at hfits ⊢
    obtain ⟨hsolutions, hidem⟩ := holdsIn_of_unify hsolve
    refine ⟨_, rfl, (Ty.isInstanceOf_generalize (orderly_walked hm horderly h) hfits _).2 ⟨θ, ?_⟩⟩
    rw [Substitution.apply_eq_subst hidem]
    exact (Substitution.subst_toAssignment ((hsolutions θ).2 hsolved) _).symm

/-- A type is found exactly when the objects behind the handle have types that fit together, and then
the types that the handle can have are the instances of the one found. That needs fresh variables to
be fresh, so no more of them may have been drawn than there are identities. -/
theorem typeOf_principal (m : Heap) (h : Handle) (vars : VarSupply) (hm : m.Typable vars)
    (horderly : vars.Orderly) (hfits : (m.typeOf h vars).2.next ≤ VarSupply.capacity) :
    ((∃ t, (m.typeOf h vars).1 = .ok t) ↔ ∃ τ : Typing, τ.Consistent m (some h)) ∧
      ∀ t, (m.typeOf h vars).1 = .ok t → ∀ T : Ty,
        (∃ τ : Typing, τ.Consistent m (some h) ∧ τ.Allows m (some h) T) ↔ T.IsInstanceOf t := by
  refine ⟨⟨?_, ?_⟩, fun t ht T => ⟨?_, exists_consistent_of_typeOf hm horderly hfits ht⟩⟩
  · rintro ⟨t, ht⟩
    obtain ⟨τ, hconsistent, -⟩ := exists_consistent_of_typeOf hm horderly hfits ht (.refl t)
    exact ⟨τ, hconsistent⟩
  · rintro ⟨τ, hconsistent⟩
    obtain ⟨T, hT⟩ := τ.exists_allows m (some h)
    obtain ⟨t, ht, -⟩ := typeOf_of_consistent hm horderly hfits hconsistent hT
    exact ⟨t, ht⟩
  · rintro ⟨τ, hconsistent, hT⟩
    obtain ⟨t', ht', hinstance⟩ := typeOf_of_consistent hm horderly hfits hconsistent hT
    rw [ht] at ht'
    exact Except.ok.inj ht' ▸ hinstance

/-- A function bound to itself by a back edge, under an application of the identity. -/
def tiedChain : Heap where
  objects := ⟨#[
    some ⟨.shared 2 1, .closure ⟨⟨0⟩, 1, #[none, some ⟨0⟩], .empty⟩⟩,
    some ⟨.static, .closure (.bare ⟨1⟩ 1)⟩,
    some ⟨.shared 1 0, .application (.pending (.plain ⟨1⟩) (.plain ⟨0⟩))⟩]⟩
  thunks := ⟨#[some ⟨1, .recursive ⟨0⟩⟩]⟩
  combinators := ⟨#[
    some ⟨1, ⟨"chain", .arrow (.var ⟨1⟩) (.arrow (.var ⟨2⟩) (.var ⟨2⟩)), 2, .lazy 1⟩⟩,
    some ⟨1, ⟨"identity", .arrow (.var ⟨3⟩) (.var ⟨3⟩), 1, .lazy 0⟩⟩]⟩

theorem typable_tiedChain (vars : VarSupply) : tiedChain.Typable vars := by
  have hkind : ∀ o kind, tiedChain.kind? (.plain o) = some kind →
      kind = .closure ⟨⟨0⟩, 1, #[none, some ⟨0⟩], .empty⟩ ∨ kind = .closure (.bare ⟨1⟩ 1) ∨
        kind = .application (.pending (.plain ⟨1⟩) (.plain ⟨0⟩)) := by
    rintro ⟨_ | _ | _ | n⟩ kind h <;> simp_all [kind?, object?, Arena.get?, tiedChain, Handle.plain]
  constructor
  · intro o c h
    rcases hkind o _ h with h | h | h <;> cases h
    · simp [Closure.Proper, Closure.arguments]
    · exact Closure.proper_bare _ _
  · intro o v h
    rcases hkind o _ h with h | h | h <;> cases h

theorem typeOf_principal_tiedChain :
    tiedChain.Typable { next := 4 } ∧ VarSupply.Orderly { next := 4 } ∧
      (tiedChain.typeOf (.plain ⟨2⟩) { next := 4 }).2.next ≤ VarSupply.capacity ∧
      ∀ T : Ty, (∃ τ : Typing, τ.Consistent tiedChain (some (.plain ⟨2⟩)) ∧
        τ.Allows tiedChain (some (.plain ⟨2⟩)) T) ↔ T.IsInstanceOf (.arrow (.var ⟨11⟩) (.var ⟨11⟩)) := by
  have hfound : tiedChain.typeOf (.plain ⟨2⟩) { next := 4 } =
      (.ok (.arrow (.var ⟨11⟩) (.var ⟨11⟩)), ⟨12, #[⟨11⟩]⟩) := by cbv
  have horderly : VarSupply.Orderly { next := 4 } := ⟨by simp, by simp⟩
  have hfits : (tiedChain.typeOf (.plain ⟨2⟩) { next := 4 }).2.next ≤ VarSupply.capacity := by
    rw [hfound]
    decide
  refine ⟨typable_tiedChain _, horderly, hfits, ?_⟩
  exact (typeOf_principal tiedChain (.plain ⟨2⟩) { next := 4 } (typable_tiedChain _) horderly
    hfits).2 _ (by rw [hfound])

end GraphReduction.Heap
