import Mathlib
import GraphReduction.Proofs.Terms.RoleTypes

/-! Evaluation preserves types and well-typed terms do not go wrong. -/
namespace GraphReduction

open Heap

def Roles.typing (R : Roles Ty) : Typing where
  tags := .var
  object o := ((R.object o).map Role.type).getD .int

theorem Roles.keeps_typing (R : Roles Ty) : R.typing.Keeps R where
  tags := rfl
  object o role hrole := by simp [typing, hrole]

section Consistent

variable {m : Heap} {R : Roles Ty} {held : Multiset Holding} {h root : Handle} {y : Ty} {n : Nat}
  {whole : Term}

theorem Roles.Stands.allows (hstands : R.Stands (Ty.labelling whole) h y n)
    (hup : (Ty.labelling whole).Upholds m R held) : R.typing.Allows m (some h) y :=
  R.keeps_typing.allows hup hstands

theorem Roles.consistent (hroot : R.Stands (Ty.labelling whole) root y n)
    (hup : (Ty.labelling whole).Upholds m R held) : R.typing.Consistent m (some root) :=
  R.keeps_typing.consistent hup hroot

end Consistent

namespace Client

def partsOf (c : Client) (root : Handle) : Set (Handle × Term) :=
  { x | x ∈ c.terms ∧ c.heap.IsPart root x.1 }

variable {usable : Primitive → Prop} {c c' : Client} {root : Handle} {t : Term} {T : Ty}
  {vars : VarSupply} {τ : Typing}

/-- What a term stands for that has a type, whatever of it has been evaluated since. -/
theorem Reaches.stands (hmade : Reaches usable ∅ {} c) (hroot : (root, t) ∈ c.terms)
    (hheld : root ∈ c.held) (hconsistent : τ.Consistent c.heap (some root))
    (hallows : τ.Allows c.heap (some root) T) (hreaches : Reaches usable (c.partsOf root) c c') :
    ∃ R, (Ty.labelling t).Upholds c'.heap R c'.holdings ∧
      R.Stands (Ty.labelling t) root T (2 * t.height) := by
  obtain ⟨hup, term, hlaid⟩ := hmade.laid (Ty.labelling t)
  have hup' : (Ty.labelling t).Upholds c.heap (Roles.typed c.heap root term τ) c.holdings :=
    ⟨hup.valid, hlaid.supports_typed hup hroot hheld hconsistent⟩
  have hparts : ∀ x ∈ c.partsOf root, ∃ y,
      (Roles.typed c.heap root term τ).Stands (Ty.labelling t) x.1 y (2 * x.2.height) := by
    rintro ⟨g, u⟩ ⟨hg, hpart⟩
    obtain ⟨y, hy⟩ := τ.exists_allows c.heap (some g)
    have hstands := hlaid.stands hup hroot hheld hconsistent hpart hy
    rw [hlaid.made _ _ hg] at hstands
    exact ⟨y, hstands⟩
  obtain ⟨R, hev, hup''⟩ := hreaches.upholds (Ty.lawful_labelling t) hup' hparts
  have hstands := hlaid.stands hup hroot hheld hconsistent .self hallows
  rw [hlaid.made _ _ hroot] at hstands
  exact ⟨R, hup'', hev.stands hstands⟩

/-- A term that has a type evaluates, and if that ends in an error, it is one that a body of the term
raises of its own: the black hole, an overflow, or a text of the term given to `fail`. -/
theorem typed_evaluates (hmade : Reaches usable ∅ {} c) (hroot : (root, t) ∈ c.terms)
    (hheld : root ∈ c.held) (htype : (c.heap.typeOf root vars).1 = .ok T)
    (hreaches : Reaches usable (c.partsOf root) c c') (hheld' : root ∈ c'.held) {options : Options}
    (hoptions : options.checkResults = false) {depth : Nat} (hdepth : 2 * t.height < depth) :
    ∃ r s', Evaluator.reduceUpTo options depth root c'.machine = .ok r s' ∧
      ∀ e, s'.heap.error? r = some e → t.Raises e := by
  have htypable := (hmade.laid (Ty.labelling t)).1.typable vars
  obtain ⟨τ, T', hconsistent, hallows⟩ := exists_consistent_of_ok htypable htype
  obtain ⟨R, hup, hstands⟩ := hmade.stands hroot hheld hconsistent hallows hreaches
  obtain ⟨r, s', R', hrun, -, hup', hresult⟩ :=
    evaluates (Ty.lawful_labelling t) hup hheld' hstands hoptions hdepth
  exact ⟨r, s', hrun, fun e he => hup'.supports.error (hresult _ _ hstands) he⟩

/-- The sum of something with itself that is defined as itself. -/
theorem typed_evaluates_blackHole :
    ∃ c root, Reaches (fun _ => True) ∅ {} c ∧
      (root, .twice .add (.apply (.primitive .fix) (.primitive .identity))) ∈ c.terms ∧
      (c.heap.typeOf root { next := 10 }).1 = .ok .int ∧
      ∃ r s', Evaluator.reduceUpTo {} 10 root c.machine = .ok r s' ∧
        ∀ e, s'.heap.error? r = some e →
          Term.Raises (.twice .add (.apply (.primitive .fix) (.primitive .identity))) e := by
  have hnothing : Reaches (fun _ => True) ∅ {} {} := .refl
  have hidentity := hnothing.makes (.primitive .identity trivial rfl)
  have hfix := hidentity.makes (.primitive .fix trivial rfl)
  have hknot := hfix.makes (.apply (.head _) (.tail _ (.head _)) rfl)
  have hshared := hknot.makes (.share (h := .plain ⟨10⟩) rfl rfl)
  have hadd := hshared.makes (.primitive .add trivial rfl)
  have hmore := hadd.makes (.apply (.head _) (.tail _ (.head _)) rfl)
  have hsum := hmore.makes (.apply (.head _) (.tail _ (.tail _ (.head _))) rfl)
  refine ⟨_, _, hsum, .head _, ?htype, typed_evaluates hsum (.head _) (.head _) ?htype .refl
    (.head _) rfl (by decide)⟩
  case htype => cbv

/-- A term that has a type has it after any evaluation of its parts. -/
theorem typeOf_preserved (hmade : Reaches usable ∅ {} c) (hroot : (root, t) ∈ c.terms)
    (hheld : root ∈ c.held) (horderly : vars.Orderly)
    (hfits : (c.heap.typeOf root vars).2.next ≤ VarSupply.capacity)
    (htype : (c.heap.typeOf root vars).1 = .ok T)
    (hreaches : Reaches usable (c.partsOf root) c c') {vars' : VarSupply}
    (horderly' : vars'.Orderly)
    (hfits' : (c'.heap.typeOf root vars').2.next ≤ VarSupply.capacity) :
    ∃ T', (c'.heap.typeOf root vars').1 = .ok T' ∧ T.IsInstanceOf T' := by
  have htypable := (hmade.laid (Ty.labelling t)).1.typable vars
  obtain ⟨τ, hconsistent, hallows⟩ :=
    exists_consistent_of_typeOf htypable horderly hfits htype (.refl T)
  obtain ⟨R, hup, hstands⟩ := hmade.stands hroot hheld hconsistent hallows hreaches
  exact typeOf_of_consistent (hup.typable vars') horderly' hfits' (R.consistent hstands hup)
    (hstands.allows hup)

theorem exists_evaluated {P : Client → Prop} (hroot : (root, t) ∈ c.terms) (hheld : root ∈ c.held)
    {options : Options} (hoptions : options.checkResults = false) {depth : Nat}
    (hdepth : 2 * t.height < depth)
    (hrun : match Evaluator.reduceUpTo options depth root c.machine with
      | .ok r s => P ⟨s, r :: c.held, (r, t) :: c.terms⟩
      | .error .. => False) :
    ∃ c', Reaches usable (c.partsOf root) c c' ∧ P c' := by
  obtain ⟨s, held, terms⟩ := c
  split at hrun
  · next r s' hok =>
      exact ⟨_, .single (.inr (.evaluate hroot ⟨hroot, .self⟩ hheld hoptions hdepth hok)), hrun⟩
  · exact hrun.elim

/-- The choice between the identity and adding one is the identity, which has more types. -/
theorem typeOf_preserved_choice :
    ∃ c root c', Reaches (fun _ => True) ∅ {} c ∧
      (root, .apply (.apply (.apply (.primitive .ifThenElse) (.literal (.bool true)))
        (.primitive .identity)) (.apply (.primitive .add) (.literal (.int 1)))) ∈ c.terms ∧
      (c.heap.typeOf root { next := 10 }).1 = .ok (.arrow .int .int) ∧
      Reaches (fun _ => True) (c.partsOf root) c c' ∧
      (c'.heap.typeOf root { next := 10 }).1 = .ok (.arrow (.var ⟨12⟩) (.var ⟨12⟩)) ∧
      (Ty.arrow .int .int).IsInstanceOf (.arrow (.var ⟨12⟩) (.var ⟨12⟩)) := by
  have hnothing : Reaches (fun _ => True) ∅ {} {} := .refl
  have hone := hnothing.makes (.literal (.int 1) (Literal.box_run _ _))
  have hadd := hone.makes (.primitive .add trivial rfl)
  have hmore := hadd.makes (.apply (.head _) (.tail _ (.head _)) rfl)
  have hidentity := hmore.makes (.primitive .identity trivial rfl)
  have htrue := hidentity.makes (.literal (.bool true) (Literal.box_run _ _))
  have hif := htrue.makes (.primitive .ifThenElse trivial rfl)
  have hthen := hif.makes (.apply (.head _) (.tail _ (.head _)) rfl)
  have helse := hthen.makes (.apply (.head _) (.tail _ (.tail _ (.tail _ (.head _)))) rfl)
  have hchoice := helse.makes
    (.apply (.head _) (.tail _ (.tail _ (.tail _ (.tail _ (.tail _ (.head _)))))) rfl)
  obtain ⟨c, hmade, hroot, hheld, hbefore, c', hreaches, hafter⟩ :
      ∃ c, Reaches (fun _ => True) ∅ {} c ∧ (.plain ⟨15⟩, _) ∈ c.terms ∧ .plain ⟨15⟩ ∈ c.held ∧
        c.heap.typeOf (.plain ⟨15⟩) { next := 10 } = (.ok (.arrow .int .int), ⟨22, #[]⟩) ∧
        ∃ c', Reaches (fun _ => True) (c.partsOf (.plain ⟨15⟩)) c c' ∧
          c'.heap.typeOf (.plain ⟨15⟩) { next := 10 } =
            (.ok (.arrow (.var ⟨12⟩) (.var ⟨12⟩)), ⟨13, #[⟨12⟩]⟩) :=
    ⟨_, hchoice, .head _, .head _, by cbv, exists_evaluated (.head _) (.head _)
      (show Options.checkResults {} = false from rfl) (show _ < 10 by decide) (by cbv)⟩
  have horderly := VarSupply.orderly_of_next 10
  obtain ⟨T, hT, hinstance⟩ := typeOf_preserved hmade hroot hheld horderly
    (by rw [hbefore]; decide) (by rw [hbefore]) hreaches horderly (by rw [hafter]; decide)
  rw [hafter] at hT
  cases hT
  exact ⟨c, .plain ⟨15⟩, c', hmade, hroot, by rw [hbefore], hreaches, by rw [hafter], hinstance⟩

end Client

end GraphReduction
