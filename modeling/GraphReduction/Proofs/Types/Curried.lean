import Mathlib
import GraphReduction.Ty.Node

/-! Curried function types. Building a chain of arrows and splitting arrows off undo each other, and
the number of leading arrows says how many can be split off. On nodes, splitting a chain gives back
the very nodes that it was built from. -/
namespace GraphReduction

namespace Ty

variable {count : Nat} {t result : Ty} {parameters : List Ty}

theorem arity_arrowChain (parameters : List Ty) (t : Ty) :
    (arrowChain parameters t).arity = parameters.length + t.arity := by
  induction parameters with
  | nil => simp
  | cons p parameters ih =>
    rw [arrowChain_cons, arity_arrow, ih, List.length_cons]
    omega

theorem arrowChain_append (parameters : List Ty) (a t : Ty) :
    arrowChain (parameters ++ [a]) t = arrowChain parameters (.arrow a t) := by
  simp [arrowChain]

theorem splitOff_arrowChain (parameters : List Ty) (result : Ty) :
    splitOff parameters.length (arrowChain parameters result) = some (parameters, result) := by
  induction parameters with
  | nil => rfl
  | cons p parameters ih => rw [List.length_cons, arrowChain_cons, splitOff, ih, Option.map_some]

theorem splitOff_eq_some_iff :
    splitOff count t = some (parameters, result) ↔
      parameters.length = count ∧ arrowChain parameters result = t := by
  constructor
  · intro hsplit
    fun_induction splitOff count t generalizing parameters with
    | case1 t =>
      cases hsplit
      exact ⟨rfl, rfl⟩
    | case2 count p t ih =>
      obtain ⟨⟨rest, last⟩, hrest, hparts⟩ := Option.map_eq_some_iff.1 hsplit
      cases hparts
      obtain ⟨hlength, hchain⟩ := ih hrest
      exact ⟨congrArg Nat.succ hlength, congrArg (arrow p) hchain⟩
    | case3 => cases hsplit
  · rintro ⟨rfl, rfl⟩
    exact splitOff_arrowChain parameters result

theorem splitOff_eq_none_iff : splitOff count t = none ↔ t.arity < count := by
  fun_induction splitOff count t with
  | case1 t => simp
  | case2 count p t ih => rw [Option.map_eq_none_iff, ih, arity_arrow, Nat.succ_lt_succ_iff]
  | case3 count t hother =>
    cases t with
    | arrow p t => exact absurd rfl (hother p t)
    | named | var => simp [arity]

end Ty

namespace Node

theorem ty_arrowChain (parameters : List Node) (result : Node) (s : NodeSupply) :
    ((arrowChain parameters result).run s).1.ty = Ty.arrowChain (parameters.map ty) result.ty := by
  induction parameters with
  | nil => rfl
  | cons p parameters ih => exact congrArg (Ty.arrow p.ty) ih

theorem splitOff_arrowChain (parameters : List Node) (result : Node) (s : NodeSupply) :
    splitOff parameters.length ((arrowChain parameters result).run s).1 =
      some (parameters, result) := by
  induction parameters with
  | nil => rfl
  | cons p parameters ih =>
    show (splitOff parameters.length ((arrowChain parameters result).run s).1).map _ = _
    rw [ih, Option.map_some]

theorem ty_splitOff (count : Nat) (n : Node) :
    (splitOff count n).map (fun (parameters, result) => (parameters.map ty, result.ty)) =
      Ty.splitOff count n.ty := by
  fun_induction splitOff count n with
  | case1 n => rfl
  | case2 count label p n ih =>
    rw [ty_arrow, Ty.splitOff, ← ih, Option.map_map, Option.map_map]
    rfl
  | case3 count n hother =>
    cases n with
    | arrow label p n => exact absurd rfl (hother label p n)
    | named | var => rfl

theorem splitOff_eq_none_iff {count : Nat} {n : Node} :
    splitOff count n = none ↔ n.ty.arity < count := by
  rw [← Ty.splitOff_eq_none_iff, ← ty_splitOff, Option.map_eq_none_iff]

theorem uncurry_of_lt {count : Nat} (hroom : count < noRoom) (n : Node) :
    uncurry count n = .ok (splitOff count n) := if_pos hroom

/-- Splitting undoes building, and building undoes splitting. As many parameters can be split off as
there are leading arrows, and each one leaves an arrow less. Where there is no room for so many
parameters, that is not found out: asking for the room is a panic. -/
theorem uncurry_inverts_arrowChain :
    (∀ (parameters : List Node) (result : Node) (s : NodeSupply),
      ((arrowChain parameters result).run s).1.ty.arity = parameters.length + result.ty.arity ∧
        (parameters.length < noRoom →
          uncurry parameters.length ((arrowChain parameters result).run s).1 =
            .ok (some (parameters, result)))) ∧
    ∀ (n : Node) (count : Nat),
      (count < noRoom →
        (count ≤ n.ty.arity → ∃ parameters result,
          uncurry count n = .ok (some (parameters, result)) ∧ parameters.length = count ∧
            (∀ s, ((arrowChain parameters result).run s).1.ty = n.ty) ∧
            result.ty.arity = n.ty.arity - count) ∧
        (n.ty.arity < count → uncurry count n = .ok none)) ∧
      (noRoom ≤ count → uncurry count n = .error "capacity overflow") := by
  refine ⟨fun parameters result s => ⟨?_, fun hroom => ?_⟩,
    fun n count => ⟨fun hroom => ⟨fun hcount => ?_, fun hmore => ?_⟩, fun hlarge => ?_⟩⟩
  · rw [ty_arrowChain, Ty.arity_arrowChain, List.length_map]
  · rw [uncurry_of_lt hroom, splitOff_arrowChain]
  · have hsplits : splitOff count n ≠ none := fun h =>
      absurd (splitOff_eq_none_iff.1 h) hcount.not_gt
    obtain ⟨⟨parameters, result⟩, hsplit⟩ := Option.ne_none_iff_exists'.1 hsplits
    have htypes : Ty.splitOff count n.ty = some (parameters.map ty, result.ty) := by
      rw [← ty_splitOff, hsplit, Option.map_some]
    obtain ⟨hlength, hchain⟩ := Ty.splitOff_eq_some_iff.1 htypes
    rw [List.length_map] at hlength
    refine ⟨parameters, result, by rw [uncurry_of_lt hroom, hsplit], hlength,
      fun s => (ty_arrowChain ..).trans hchain, ?_⟩
    rw [← hchain, Ty.arity_arrowChain, List.length_map]
    omega
  · rw [uncurry_of_lt hroom, splitOff_eq_none_iff.2 hmore]
  · exact if_neg (Nat.not_lt.2 hlarge)

/-- `Int` has no leading arrow, but that many parameters are no question of what it has. -/
example : uncurry 3 sharedInt = .ok none ∧
    uncurry (2 ^ 62) sharedInt = .error "capacity overflow" := by decide

end Node

end GraphReduction
