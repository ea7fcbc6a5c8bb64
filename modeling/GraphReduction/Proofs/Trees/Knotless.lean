import Mathlib
import GraphReduction.Proofs.Heap.Holdings
import GraphReduction.Proofs.Supply.Deepens
import GraphReduction.Proofs.Trees.Reduction

/-! Evaluation without data fixpoints. To tie data is to put a self reference into the heap and to
evaluate something while it is there. An evaluation that gives up whenever it is asked for something
in such a heap comes to what evaluation comes to as long as no data is tied, and mirrors trees. -/
namespace GraphReduction

open Heap Run

variable {options : Options} {m : Heap} {s s' : Machine} {h r : Handle} {d d' : Nat}

/-- The self reference of a data fixpoint. -/
def ObjectKind.IsKnot : ObjectKind → Prop
  | .application (.knot _) => True
  | _ => False

instance ObjectKind.decidableIsKnot : (kind : ObjectKind) → Decidable kind.IsKnot
  | .application (.knot _) => .isTrue trivial
  | .application (.pending _ _) | .application (.reduced _) | .value _ | .closure _ |
    .exception _ => .isFalse id

theorem ObjectKind.isKnot_iff {kind : ObjectKind} :
    kind.IsKnot ↔ ∃ k, kind = .application (.knot k) := by
  rcases kind with v | c | (⟨f, x⟩ | r | k) | e <;> simp [IsKnot]

theorem Heap.holdsKnot_iff : m.HoldsKnot ↔ ∃ x ∈ m.objects.live, x.kind.IsKnot := by
  simp only [HoldsKnot, Arena.mem_live, ObjectKind.isKnot_iff, kindOf?, object?,
    Option.map_eq_some_iff]
  constructor
  · rintro ⟨o, k, x, hx, hk⟩
    exact ⟨x, ⟨o.index, hx⟩, k, hk⟩
  · rintro ⟨x, ⟨i, hx⟩, k, hk⟩
    exact ⟨⟨i⟩, k, x, hx, hk⟩

instance Heap.decidableHoldsKnot (m : Heap) : Decidable m.HoldsKnot :=
  decidable_of_iff _ holdsKnot_iff.symm

theorem Marks.Upholds.not_holdsKnot {R : Reading} {held : Multiset Holding}
    (hup : R.Upholds options m held) : ¬ m.HoldsKnot :=
  fun ⟨o, k, hk⟩ => Reading.Reads.not_knot (hup.fits.object o _ hk) k rfl

namespace Evaluator

/-- Reduction that gives up at any demand that is made while the self reference of a data fixpoint is
in the heap. -/
def reduceKnotless (options : Options) : Nat → Handle → Run Handle
  | 0, _ => throw .exhausted
  | depth + 1, h => do
    if ← inspect fun m => decide m.HoldsKnot then throw .exhausted
    else reduceOnce options (reduceKnotless options depth) h

theorem reduceKnotless_of_holdsKnot (hknot : s.heap.HoldsKnot) (d : Nat) (h : Handle) :
    reduceKnotless options d h s = .error .exhausted s := by
  cases d with
  | zero => rfl
  | succ d =>
    rw [reduceKnotless, Run.bind_run, inspect_run]
    simp only [decide_eq_true hknot, if_true, throw_run]

theorem reduceKnotless_of_not_holdsKnot (hfree : ¬ s.heap.HoldsKnot) (d : Nat) (h : Handle) :
    reduceKnotless options (d + 1) h s = reduceOnce options (reduceKnotless options d) h s := by
  rw [reduceKnotless, Run.bind_run, inspect_run]
  simp only [decide_eq_false hfree, Bool.false_eq_true, if_false]

theorem reduceKnotless_isMirror (hoptions : options.checkResults = false) (d : Nat) :
    Reducer.IsMirror options d (reduceKnotless options d) := by
  refine ⟨?_, fun h hknot => ⟨_, reduceKnotless_of_holdsKnot hknot d h⟩⟩
  induction d with
  | zero =>
    refine fun {s R rest h t} _ _ _ => .exhausted fun n hn _ => ?_
    obtain rfl : n = 0 := by omega
    rfl
  | succ d ih =>
    intro s R rest h t hup hheld hstands
    rw [reduceKnotless_of_not_holdsKnot hup.not_holdsKnot]
    exact reduceOnce_mirrors hoptions
      ⟨ih, fun h hknot => ⟨_, reduceKnotless_of_holdsKnot hknot d h⟩⟩ hup hheld hstands

theorem reduceKnotless_deepens (options : Options) (d : Nat) :
    Reducer.Deepens (reduceKnotless options d) (reduceUpTo options d) := by
  induction d with
  | zero => exact fun h s => .of_givesUp ⟨s, rfl⟩
  | succ d ih =>
    intro h s
    by_cases hknot : s.heap.HoldsKnot
    · exact .of_givesUp ⟨s, reduceKnotless_of_holdsKnot hknot _ h⟩
    · exact (reduceOnce_deepens ih h s).of_run (reduceKnotless_of_not_holdsKnot hknot d h)

/-- If evaluation returns, then it does so without a demand that is made while data is tied. -/
def TiesNoData (options : Options) (h : Handle) (s : Machine) : Prop :=
  ∀ depth r s', reduceUpTo options depth h s = .ok r s' →
    ∃ depth', reduceKnotless options depth' h s = .ok r s'

theorem TiesNoData.of_ok (hrun : reduceKnotless options d h s = .ok r s') :
    TiesNoData options h s := by
  intro depth r₁ s₁ hrun₁
  have hlast := reduceUpTo_mono ((reduceKnotless_deepens options d).ok hrun) (le_max_left d depth)
  cases hlast.symm.trans (reduceUpTo_mono hrun₁ (le_max_right d depth))
  exact ⟨d, hrun⟩

end Evaluator

end GraphReduction
