import Mathlib
import GraphReduction.Proofs.Terms.Client
import GraphReduction.Proofs.Types.Consistent
import GraphReduction.Proofs.Types.Curried

/-! Types as labels. What has a type evaluates to something of the type, or to one of the errors
that no type rules out; binding and the bodies of the primitives keep to the types declared. No text
comes up that is not in the term, and no primitive runs that is not in it. -/
namespace GraphReduction

namespace Ty

theorem arity_le_arity_subst (θ : Assignment) (t : Ty) : t.arity ≤ (t.subst θ).arity := by
  induction t with
  | named name => exact Nat.zero_le _
  | arrow parameter result _ ih => simpa using ih
  | var id => exact Nat.zero_le _

theorem exists_arrow_of_arity_pos {t : Ty} (h : 0 < t.arity) : ∃ a r, t = arrow a r := by
  cases t with
  | arrow a r => exact ⟨a, r, rfl⟩
  | named name => cases h
  | var id => cases h

theorem ne_arrow_result (a t : Ty) : t ≠ arrow a t := by
  intro h
  have hsize := congrArg size h
  simp only [size] at hsize
  omega

def labelling (whole : Term) : Labelling Ty where
  value v t := ∃ l : Literal, (∀ text, l = .str text → .literal l ∈ whole.subterms) ∧
    v = l.boxed ∧ t = l.type
  error e _ := whole.Raises e
  partialApp p arguments t := .primitive p ∈ whole.subterms ∧
    (arrowChain arguments t).IsInstanceOf p.declaredType
  apply f a r := f = arrow a r

variable {α : Type} {whole : Term} {p : Primitive} {arguments : List Ty} {t r : Ty}

theorem exists_arrow_of_partialApp (h : (labelling whole).partialApp p arguments t)
    (hmissing : arguments.length < p.arity) : ∃ a r, t = arrow a r := by
  obtain ⟨-, ρ, hρ⟩ := h
  have harity := arity_le_arity_subst ρ p.declaredType
  rw [← hρ, arity_arrowChain] at harity
  have hpos : p.arity = p.declaredType.arity := rfl
  exact exists_arrow_of_arity_pos (by omega)

theorem unboxes {take : Payload → Option α} {expected : TypeName} {next : α → Prop}
    (hplain : t.arity = 0) (htake : ∀ l : Literal, l.type = t → take l.payload ≠ none)
    (hnext : ∀ v a, (labelling whole).value v t → take v.payload = some a → next a) :
    (labelling whole).Unboxes take expected t next r := by
  refine ⟨fun e he => ?_, hnext⟩
  cases he with
  | error h => exact h
  | value h hnone =>
    obtain ⟨l, -, rfl, hl⟩ := h
    exact (htake l hl.symm hnone).elim
  | function h hmissing =>
    obtain ⟨a, b, rfl⟩ := exists_arrow_of_partialApp h hmissing
    cases hplain

theorem unboxes_int {next : Int64 → Prop} (hnext : ∀ n, next n) :
    (labelling whole).Unboxes Payload.int? .int int next r := by
  refine unboxes rfl (fun l hl => ?_) fun _ n _ _ => hnext n
  cases l with
  | int n => exact Option.some_ne_none n
  | bool b => exact absurd hl (show bool ≠ int by decide)
  | str text => exact absurd hl (show str ≠ int by decide)

theorem unboxes_bool {next : Bool → Prop} (hnext : ∀ b, next b) :
    (labelling whole).Unboxes Payload.bool? .bool bool next r := by
  refine unboxes rfl (fun l hl => ?_) fun _ b _ _ => hnext b
  cases l with
  | int n => exact absurd hl (show int ≠ bool by decide)
  | bool b => exact Option.some_ne_none b
  | str text => exact absurd hl (show str ≠ bool by decide)

theorem unboxes_str {next : String → Prop}
    (hnext : ∀ text, .literal (.str text) ∈ whole.subterms → next text) :
    (labelling whole).Unboxes Payload.str? .str str next r := by
  refine unboxes rfl (fun l hl => ?_) fun v text hv htext => ?_
  cases l with
  | int n => exact absurd hl (show int ≠ str by decide)
  | bool b => exact absurd hl (show bool ≠ str by decide)
  | str text => exact Option.some_ne_none text
  obtain ⟨l, hmem, rfl, -⟩ := hv
  cases l with
  | str text' =>
    cases htext
    exact hnext _ (hmem _ rfl)
  | int n | bool b => cases htext

theorem performs_arith {op : Arith} (hp : .primitive p ∈ whole.subterms)
    (hop : p.body = (.arith op : Body Handle)) :
    (labelling whole).Performs [int, int] int (.arith op) := by
  refine ⟨int, int, rfl, rfl, unboxes_int fun n => unboxes_int fun k => ?_⟩
  cases hresult : op.result? n k with
  | some j => exact ⟨.int j, by rintro _ ⟨⟩, rfl, rfl⟩
  | none => exact .overflow hp hop hresult

theorem performs_test (how : Comparison) :
    (labelling whole).Performs [int, int] bool (.test how) :=
  ⟨int, int, rfl, rfl, unboxes_int fun _ => unboxes_int fun _ =>
    ⟨.bool _, by rintro _ ⟨⟩, rfl, rfl⟩⟩

theorem ties (hfix : .primitive .fix ∈ whole.subterms) (r : Ty) :
    (labelling whole).Ties (arrow r r) r where
  error e h := h
  value v h := by
    obtain ⟨l, -, rfl, hl⟩ := h
    cases l <;> cases hl
  function p arguments h hmissing := by
    refine ⟨?_, rfl, .blackHole hfix⟩
    obtain ⟨-, ρ, hρ⟩ := h
    -- with two arguments missing, the argument would be the type of the function that is left
    by_contra hmore
    rw [Primitive.arity_eq] at hmissing hmore
    cases p with
    | add | sub | mul | eq | lt =>
      obtain rfl : arguments = [] := List.length_eq_zero_iff.1 (by dsimp only at *; omega)
      cases hρ
    | constant =>
      obtain rfl : arguments = [] := List.length_eq_zero_iff.1 (by dsimp only at *; omega)
      obtain ⟨hr, hr'⟩ := Ty.arrow.inj hρ
      exact ne_arrow_result _ _ (hr.symm.trans hr')
    | ifThenElse =>
      rcases arguments with _ | ⟨c, _ | ⟨x, arguments⟩⟩
      · cases hρ
      · obtain ⟨-, hρ⟩ := Ty.arrow.inj hρ
        obtain ⟨hr, hr'⟩ := Ty.arrow.inj hρ
        exact ne_arrow_result _ _ (hr.symm.trans hr')
      · dsimp only [List.length_cons] at *
        omega
    | identity | fail | fix =>
      dsimp only at *
      omega

theorem performs_of_length (h : (labelling whole).partialApp p arguments t)
    (hlength : arguments.length = p.arity) : (labelling whole).Performs arguments t p.body := by
  obtain ⟨hp, ρ, hρ⟩ := h
  rw [Primitive.arity_eq] at hlength
  cases p with
  | add =>
    obtain ⟨x, y, rfl⟩ := List.length_eq_two.1 hlength
    cases hρ
    exact performs_arith hp rfl
  | sub =>
    obtain ⟨x, y, rfl⟩ := List.length_eq_two.1 hlength
    cases hρ
    exact performs_arith hp rfl
  | mul =>
    obtain ⟨x, y, rfl⟩ := List.length_eq_two.1 hlength
    cases hρ
    exact performs_arith hp rfl
  | eq =>
    obtain ⟨x, y, rfl⟩ := List.length_eq_two.1 hlength
    cases hρ
    exact performs_test .equal
  | lt =>
    obtain ⟨x, y, rfl⟩ := List.length_eq_two.1 hlength
    cases hρ
    exact performs_test .less
  | ifThenElse =>
    obtain ⟨c, x, y, rfl⟩ := List.length_eq_three.1 hlength
    cases hρ
    refine ⟨bool, rfl, unboxes_bool fun b => ?_⟩
    cases b <;> rfl
  | identity =>
    obtain ⟨x, rfl⟩ := List.length_eq_one_iff.1 hlength
    cases hρ
    rfl
  | constant =>
    obtain ⟨x, y, rfl⟩ := List.length_eq_two.1 hlength
    cases hρ
    rfl
  | fail =>
    obtain ⟨x, rfl⟩ := List.length_eq_one_iff.1 hlength
    cases hρ
    exact ⟨str, rfl, unboxes_str fun text htext => .fail hp htext⟩
  | fix =>
    obtain ⟨f, rfl⟩ := List.length_eq_one_iff.1 hlength
    cases hρ
    exact ⟨_, rfl, ties hp _⟩

theorem lawful_labelling (whole : Term) : (labelling whole).Lawful where
  bind p arguments f a r hf _ hr := by
    cases hr
    obtain ⟨hp, hinstance⟩ := hf
    refine ⟨hp, ?_⟩
    rw [arrowChain_append]
    exact hinstance
  applyValue v f a r hf hr := by
    obtain ⟨l, -, rfl, rfl⟩ := hf
    cases l <;> cases hr
  applyError e f a r hf _ := hf
  performs p arguments r := performs_of_length

end Ty

end GraphReduction
