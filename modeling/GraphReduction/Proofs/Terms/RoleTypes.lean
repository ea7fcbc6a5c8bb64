import Mathlib
import GraphReduction.Proofs.Terms.Typed

/-! Types read off roles. Where every object that plays a role has the type of the role, whatever
stands for a type is allowed it, and everything behind it fits, however far it was evaluated. -/
namespace GraphReduction

open Heap

/-- The type of what has the role. Errors and declarations have a type of their own at every use. -/
def Role.type : Role Ty → Ty
  | value v => v.type
  | function t _ | node t _ => t
  | failed _ | declaration _ => .int

/-- Objects with a role have the type of the role. -/
structure Typing.Keeps (τ : Typing) (R : Roles Ty) : Prop where
  tags : τ.tags = .var
  object : ∀ o role, R.object o = some role → τ.object o = role.type

section Consistent

variable {m : Heap} {R : Roles Ty} {τ : Typing} {held : Multiset Holding} {h root : Handle} {y : Ty}
  {n : Nat} {o : ObjectId} {role : Role Ty} {kind : ObjectKind} {whole : Term}

theorem Heap.bound_ne_zero_of_occurrence {part : Option Handle} {k : Closure}
    (hat : m.occurrence part = .object o) (hkind : m.kind? (.plain o) = some (.closure k)) :
    k.bound ≠ 0 := by
  cases part with
  | none => cases hat
  | some g =>
    obtain rfl := eq_target_of_occurrence hat
    have hkind : m.kind? g = some (.closure k) := hkind
    intro hbare
    simp only [occurrence, hkind, hbare, if_true] at hat
    split at hat <;> cases hat

theorem Heap.Visible.bound_ne_zero {k : Closure} (hvisible : m.Visible (some root) o)
    (hkind : m.kind? (.plain o) = some (.closure k)) : k.bound ≠ 0 := by
  cases hvisible with
  | here hat => exact bound_ne_zero_of_occurrence hat hkind
  | part _ _ _ hat => exact bound_ne_zero_of_occurrence hat hkind

theorem Role.Tagged.isException_eq (htag : role.Tagged h.tag) :
    h.isException = match role with
      | .failed _ => true
      | _ => false := by
  cases role with
  | node t rank =>
    have hplain : h.tag = .plain := htag
    simp [Handle.isException, hplain]
  | declaration p | value v | failed e | function t rank =>
    simpa [Handle.isException, Tagged] using htag

theorem Typing.Keeps.allows (hτ : τ.Keeps R) (hup : (Ty.labelling whole).Upholds m R held)
    (hstands : R.Stands (Ty.labelling whole) h y n) : τ.Allows m (some h) y := by
  obtain ⟨role, hrole, hmeans, htag⟩ := hstands
  cases hlook : m.kind? h with
  | none => exact Typing.allows_of_anything (occurrence_of_gone hlook) y
  | some kind =>
    have hkind : m.kindOf? h.target = some kind := hlook
    have hplays := hup.supports.object _ _ _ hrole hkind
    have hexception := htag.isException_eq
    cases role with
    | declaration p =>
      obtain ⟨k, rfl, himpl⟩ := hplays
      have hat := occurrence_of_bare hexception hlook
        (by simp [Closure.bound, Closure.total, Closure.bare])
      rw [Typing.allows_declaration hat, himpl.declared_eq hup.valid hkind]
      exact hmeans.2
    | value v =>
      cases hplays
      obtain ⟨l, -, rfl, rfl⟩ := hmeans
      rw [Typing.allows_object (occurrence_of_kind hexception hlook (by simp)), hτ.object _ _ hrole]
      rfl
    | failed e =>
      exact Typing.allows_of_anything (occurrence_of_exception hexception) y
    | function t rank =>
      obtain ⟨k, p, arguments, rfl, -, -, -, hsome, -, hbinds, -⟩ := hplays
      have hbound : k.bound ≠ 0 := by
        have htotal := (hup.valid.proper _ _ hkind).total_eq
        have hlength := hbinds.length_eq
        rw [Closure.bound]
        omega
      have hat := occurrence_of_kind hexception hlook (by rintro _ ⟨⟩; exact hbound)
      rw [Typing.allows_object hat, hτ.object _ _ hrole]
      exact hmeans.1.symm
    | node t rank =>
      have hbound : ∀ k, kind = .closure k → k.bound ≠ 0 := by
        rintro k rfl
        obtain ⟨f, a, xf, xa, n, heq, -⟩ | ⟨r, heq, -⟩ := hplays
        · cases heq
        · cases heq
      rw [Typing.allows_object (occurrence_of_kind hexception hlook hbound),
        hτ.object _ _ hrole]
      exact hmeans.1.symm

theorem Heap.exists_state_of_slotHandle? {slot : ThunkId} {g : Handle}
    (hlook : m.slotHandle? slot = some g) : ∃ state, m.stateOf? slot = some state ∧
      ∀ h, state = .pending h ∨ state = .forced h → h = g := by
  cases hstate : m.stateOf? slot with
  | none =>
    have hthunk : (m.thunk? slot).map Thunk.state = none := hstate
    rw [slotHandle?, hthunk] at hlook
    cases hlook
  | some state =>
    have hthunk : (m.thunk? slot).map Thunk.state = some state := hstate
    rw [slotHandle?, hthunk] at hlook
    refine ⟨state, rfl, ?_⟩
    rintro h (rfl | rfl)
    · exact Option.some.inj hlook
    · exact Option.some.inj hlook

theorem Roles.Made.stands_of_slotHandle? {slot : ThunkId} {g : Handle}
    (hmade : R.Made (Ty.labelling whole) n slot y) (hup : (Ty.labelling whole).Upholds m R held)
    (hlook : m.slotHandle? slot = some g) : ∃ k, R.Stands (Ty.labelling whole) g y k := by
  obtain ⟨g', k, hslot, hg', -⟩ := hmade
  obtain ⟨state, hstate, hsame⟩ := exists_state_of_slotHandle? hlook
  obtain hpending | ⟨r, hforced, hr⟩ := hup.supports.thunk _ _ _ hslot hstate
  · exact ⟨k, hsame g' (.inl hpending) ▸ hg'⟩
  · exact ⟨k, hsame r (.inr hforced) ▸ (hr y k hg').stands⟩

theorem Typing.Keeps.allows_slot (hτ : τ.Keeps R) (hup : (Ty.labelling whole).Upholds m R held)
    {slot : ThunkId} (hmade : R.Made (Ty.labelling whole) n slot y) :
    τ.Allows m (m.slotHandle? slot) y := by
  cases hlook : m.slotHandle? slot with
  | none => exact Typing.allows_of_anything rfl y
  | some g =>
    obtain ⟨k, hg⟩ := hmade.stands_of_slotHandle? hup hlook
    exact hτ.allows hup hg

theorem Role.Plays.stands_of_part {part : Handle} (hplays : role.Plays (Ty.labelling whole) m R kind)
    (hup : (Ty.labelling whole).Upholds m R held) (hpart : some part ∈ m.parts kind) :
    ∃ y n, R.Stands (Ty.labelling whole) part y n := by
  cases role with
  | declaration p =>
    obtain ⟨k, rfl, -⟩ := hplays
    simp [parts, Closure.arguments_bare] at hpart
  | value v =>
    cases hplays
    cases hpart
  | failed e =>
    cases hplays
    cases hpart
  | function t rank =>
    obtain ⟨k, p, arguments, rfl, -, -, -, -, -, hbinds, -⟩ := hplays
    obtain ⟨slot, hslot, hlook⟩ := List.mem_map.1 hpart
    obtain ⟨i, hi, rfl⟩ := List.mem_iff_getElem.1 hslot
    exact ⟨_, (hbinds.get hi (hbinds.length_eq ▸ hi)).stands_of_slotHandle? hup hlook⟩
  | node t rank =>
    obtain ⟨f, a, xf, xa, i, rfl, hf, ha, -⟩ | ⟨r, rfl, hr⟩ := hplays
    · obtain rfl | rfl : part = f ∨ part = a := by simpa [parts] using hpart
      · exact ⟨_, _, hf⟩
      · exact ⟨_, _, ha⟩
    · obtain rfl : part = r := by simpa [parts] using hpart
      exact ⟨_, _, hr.stands⟩

theorem Heap.Visible.exists_role (hvisible : m.Visible (some root) o)
    (hroot : R.Stands (Ty.labelling whole) root y n) (hup : (Ty.labelling whole).Upholds m R held) :
    ∃ role, R.object o = some role := by
  induction hvisible with
  | here hat =>
    obtain ⟨role, hrole, -⟩ := hroot
    exact ⟨role, eq_target_of_occurrence hat ▸ hrole⟩
  | @part o o' kind part _ hkind hpart hat ih =>
    obtain ⟨role, hrole⟩ := ih
    have hplays := hup.supports.object _ _ _ hrole hkind
    cases part with
    | none => cases hat
    | some g =>
      obtain ⟨z, k, role', hrole', -⟩ := hplays.stands_of_part hup hpart
      exact ⟨role', eq_target_of_occurrence hat ▸ hrole'⟩

/-- What plays a role fits the type of the role, unless every use of it has a type of its own. -/
theorem Typing.Keeps.fits (hτ : τ.Keeps R) (hup : (Ty.labelling whole).Upholds m R held)
    (hrole : R.object o = some role) (hkind : m.kindOf? o = some kind)
    (hbound : ∀ k, kind = .closure k → k.bound ≠ 0) : τ.Fits m kind (τ.object o) := by
  have hplays := hup.supports.object _ _ _ hrole hkind
  rw [hτ.object _ _ hrole]
  cases role with
  | declaration p =>
    obtain ⟨k, rfl, -⟩ := hplays
    exact (hbound _ rfl (by simp [Closure.bound, Closure.total, Closure.bare])).elim
  | value v =>
    cases hplays
    rw [Fits, hτ.tags]
    exact (Ty.subst_id _).symm
  | failed e =>
    cases hplays
    trivial
  | function t rank =>
    obtain ⟨k, p, arguments, rfl, -, -, -, -, himpl, hbinds, happlied⟩ := hplays
    refine ⟨arguments, hbinds.imp fun _ _ hmade => hτ.allows_slot hup hmade, ?_⟩
    rw [himpl.declared_eq hup.valid hkind]
    exact happlied.2
  | node t rank =>
    obtain ⟨f, a, xf, xa, k, rfl, hf, ha, -, happly⟩ | ⟨r, rfl, hr⟩ := hplays
    · cases happly
      exact ⟨xa, hτ.allows hup hf, hτ.allows hup ha⟩
    · exact hτ.allows hup hr.stands

theorem Typing.Keeps.consistent (hτ : τ.Keeps R) (hup : (Ty.labelling whole).Upholds m R held)
    (hroot : R.Stands (Ty.labelling whole) root y n) : τ.Consistent m (some root) := by
  intro o kind hvisible hkind
  obtain ⟨role, hrole⟩ := hvisible.exists_role hroot hup
  exact hτ.fits hup hrole hkind fun k hk => hvisible.bound_ne_zero (hk ▸ hkind)

theorem Labelling.Upholds.typable {X : Type} {L : Labelling X} {R : Roles X}
    (hup : L.Upholds m R held) (vars : VarSupply) : m.Typable vars where
  proper o k hkind := hup.valid.proper o k hkind
  tags o v hkind := by
    intro w hw
    rw [hup.supports.ground o v hkind] at hw
    cases hw

end Consistent

end GraphReduction
