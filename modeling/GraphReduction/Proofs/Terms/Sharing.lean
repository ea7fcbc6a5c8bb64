import Mathlib
import GraphReduction.Proofs.Terms.CallByName

/-! Evaluating a graph with sharing and memory comes to what call by name comes to. Whatever stands
for a term has the meaning of the term as its label, and the label is kept by every evaluation. -/
namespace GraphReduction

open Heap

def Heap.Shows (m : Heap) (r : Handle) : Outcome → Prop
  | .value l => r.tag ≠ .exception ∧ m.kind? r = some (.value l.boxed)
  | .function p bound => r.tag ≠ .exception ∧ ∃ c, m.kind? r = some (.closure c) ∧
      m.combinatorName c.combinator = p.name ∧ c.bound = bound ∧ c.total = p.arity
  | .error e => m.error? r = some e

theorem Arith.result?_eq (op : Arith) (n k : Int64) :
    op.result? n k =
      if -2 ^ 63 ≤ op.onInt n.toInt k.toInt ∧ op.onInt n.toInt k.toInt < 2 ^ 63 then
        some (.ofInt (op.onInt n.toInt k.toInt))
      else none := by
  have hmin : Int64.minValue.toInt = -2 ^ 63 := by decide
  have hmax : Int64.maxValue.toInt = 2 ^ 63 - 1 := by decide
  simp only [result?, int64OfInt?, hmin, hmax, Int.le_sub_one_iff]

namespace Literal

theorem int?_payload (l : Literal) : l.payload.int? = l.int? := by cases l <;> rfl

theorem bool?_payload (l : Literal) : l.payload.bool? = l.bool? := by cases l <;> rfl

theorem str?_payload (l : Literal) : l.payload.str? = l.str? := by cases l <;> rfl

end Literal

namespace Meaning

variable {α : Type} {x y r : Meaning}

def labelling : Labelling Meaning where
  value v x := ∃ l : Literal, v = l.boxed ∧ x = .value l
  error e x := x = .error e
  partialApp p arguments x := p ≠ .fix ∧ x = applied p arguments
  apply f a x := x = f.apply a

theorem unboxes {take : Payload → Option α} {take? : Literal → Option α}
    (htake : ∀ l : Literal, take l.payload = take? l) {expected : TypeName} {next : α → Prop}
    (herror : ∀ e, x.outcome.take take? expected = .error e → r = .error e)
    (hok : ∀ a, x.outcome.take take? expected = .ok a → next a) :
    labelling.Unboxes take expected x next r := by
  constructor
  · intro e he
    cases he with
    | error h =>
      cases h
      exact herror e rfl
    | value h hnone =>
      obtain ⟨l, rfl, rfl⟩ := h
      rw [Literal.boxed_payload, htake] at hnone
      exact herror _ (by simp [outcome, Outcome.take, hnone])
    | function h hmissing =>
      obtain ⟨-, rfl⟩ := h
      exact herror _ (by simp [applied, hmissing, outcome, Outcome.take])
  · rintro v a ⟨l, rfl, rfl⟩ ha
    rw [Literal.boxed_payload, htake] at ha
    exact hok a (by simp [outcome, Outcome.take, ha])

theorem performs_arith (op : Arith) :
    labelling.Performs [x, y] (returned (op.exact x.outcome y.outcome)) (.arith op) := by
  refine ⟨x, y, rfl, rfl, unboxes Literal.int?_payload (fun e hx => ?_) fun n hx =>
    unboxes Literal.int?_payload (fun e hy => ?_) fun k hy => ?_⟩
  · have hresult : op.exact x.outcome y.outcome = .error e := by
      simp only [Arith.exact, Outcome.int, hx]
      rfl
    rw [hresult, returned]
  · have hresult : op.exact x.outcome y.outcome = .error e := by
      simp only [Arith.exact, Outcome.int, hx, hy]
      rfl
    rw [hresult, returned]
  · have hresult : op.exact x.outcome y.outcome =
        if -2 ^ 63 ≤ op.onInt n.toInt k.toInt ∧ op.onInt n.toInt k.toInt < 2 ^ 63 then
          .ok (.int (.ofInt (op.onInt n.toInt k.toInt)))
        else .error (op.overflow n k) := by
      simp only [Arith.exact, Outcome.int, hx, hy]
      rfl
    rw [hresult, op.result?_eq]
    by_cases hfits : -2 ^ 63 ≤ op.onInt n.toInt k.toInt ∧ op.onInt n.toInt k.toInt < 2 ^ 63
    · rw [if_pos hfits, if_pos hfits]
      exact ⟨.int _, rfl, rfl⟩
    · rw [if_neg hfits, if_neg hfits]
      rfl

theorem performs_test (how : Comparison) :
    labelling.Performs [x, y] (returned (how.exact x.outcome y.outcome)) (.test how) := by
  refine ⟨x, y, rfl, rfl, unboxes Literal.int?_payload (fun e hx => ?_) fun n hx =>
    unboxes Literal.int?_payload (fun e hy => ?_) fun k hy => ?_⟩
  · have hresult : how.exact x.outcome y.outcome = .error e := by
      simp only [Comparison.exact, Outcome.int, hx]
      rfl
    rw [hresult, returned]
  · have hresult : how.exact x.outcome y.outcome = .error e := by
      simp only [Comparison.exact, Outcome.int, hx, hy]
      rfl
    rw [hresult, returned]
  · have hresult : how.exact x.outcome y.outcome = .ok (.bool (how.holds n k)) := by
      simp only [Comparison.exact, Outcome.int, hx, hy]
      rfl
    rw [hresult]
    exact ⟨.bool _, rfl, rfl⟩

theorem performs_cond {c : Meaning} :
    labelling.Performs [c, x, y] (perform .ifThenElse [c, x, y]) (.cond 0 (.lazy 1) (.lazy 2)) := by
  refine ⟨c, rfl, unboxes Literal.bool?_payload (fun e hc => ?_) fun b hc => ?_⟩
  · have hbool : c.outcome.bool = .error e := hc
    rw [perform, hbool]
  · have hbool : c.outcome.bool = .ok b := hc
    rw [perform, hbool]
    cases b <;> rfl

theorem performs_fail : labelling.Performs [x] (perform .fail [x]) (.fail 0) := by
  refine ⟨x, rfl, unboxes Literal.str?_payload (fun e hx => ?_) fun text hx => ?_⟩
  · have hstr : x.outcome.str = .error e := hx
    rw [perform, hstr]
  · have hstr : x.outcome.str = .ok text := hx
    rw [perform, hstr]
    rfl

theorem performs_of_length {p : Primitive} {arguments : List Meaning} (hp : p ≠ .fix)
    (hlength : arguments.length = p.arity) :
    labelling.Performs arguments (perform p arguments) p.body := by
  rw [Primitive.arity_eq] at hlength
  cases p with
  | add =>
    obtain ⟨x, y, rfl⟩ := List.length_eq_two.1 hlength
    exact performs_arith .add
  | sub =>
    obtain ⟨x, y, rfl⟩ := List.length_eq_two.1 hlength
    exact performs_arith .sub
  | mul =>
    obtain ⟨x, y, rfl⟩ := List.length_eq_two.1 hlength
    exact performs_arith .mul
  | eq =>
    obtain ⟨x, y, rfl⟩ := List.length_eq_two.1 hlength
    exact performs_test .equal
  | lt =>
    obtain ⟨x, y, rfl⟩ := List.length_eq_two.1 hlength
    exact performs_test .less
  | ifThenElse =>
    obtain ⟨c, x, y, rfl⟩ := List.length_eq_three.1 hlength
    exact performs_cond
  | identity =>
    obtain ⟨x, rfl⟩ := List.length_eq_one_iff.1 hlength
    rfl
  | constant =>
    obtain ⟨x, y, rfl⟩ := List.length_eq_two.1 hlength
    rfl
  | fail =>
    obtain ⟨x, rfl⟩ := List.length_eq_one_iff.1 hlength
    exact performs_fail
  | fix => exact absurd rfl hp

theorem lawful_labelling : labelling.Lawful where
  bind p arguments f a r hf hmissing hr := by
    obtain ⟨hp, rfl⟩ := hf
    cases hr
    exact ⟨hp, by rw [applied, if_pos hmissing, apply]⟩
  applyValue v f a r hf hr := by
    obtain ⟨l, rfl, rfl⟩ := hf
    exact hr
  applyError e f a r hf hr := by
    cases hf
    exact hr
  performs p arguments r hr hlength := by
    obtain ⟨hp, rfl⟩ := hr
    rw [applied, if_neg hlength.ge.not_gt]
    exact performs_of_length hp hlength

end Meaning

namespace Client

variable {c c' : Client} {R : Roles Meaning} {m : Heap} {held : Multiset Holding} {r h : Handle}
  {t : Term} {n : Nat}

def Means (c : Client) (R : Roles Meaning) : Prop :=
  ∀ h t, (h, t) ∈ c.terms → R.Stands Meaning.labelling h t.meaning (2 * t.height)

theorem Means.evolve (hmeans : c.Means R) {R' : Roles Meaning} (hev : Evolves ∅ m R c'.heap R')
    (hterms : c'.terms = c.terms) : c'.Means R' := fun h t hht =>
  hev.stands (hmeans h t (hterms ▸ hht))

theorem Means.cons (hmeans : c.Means R) {R' : Roles Meaning} (hev : Evolves ∅ m R c'.heap R')
    (hterms : c'.terms = (h, t) :: c.terms)
    (hnew : R'.Stands Meaning.labelling h t.meaning (2 * t.height)) : c'.Means R' := by
  intro h' t' hht
  rw [hterms, List.mem_cons] at hht
  obtain heq | hold := hht
  · cases heq
    exact hnew
  · exact hev.stands (hmeans h' t' hold)

end Client

end GraphReduction
