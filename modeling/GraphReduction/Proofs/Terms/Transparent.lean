import Mathlib
import GraphReduction.Proofs.Supply.Deepens
import GraphReduction.Proofs.Terms.Checked
import GraphReduction.Proofs.Terms.Preservation

/-! Checking results changes nothing about terms that have a type. An evaluation with checks follows
the one without, from one check to the next: up to there nothing differs but the supply, types are
labels for all that takes part, and so the check passes. -/
namespace GraphReduction

open Heap Run VarSupply

namespace Run

variable {α : Type} {act act' : Run α} {s : Machine}

/-- The first computation, as far as the second one follows it. -/
noncomputable def guided (act act' : Run α) : Run α := fun s =>
  open Classical in
  if Follows .supply s act act' then act s else .error .exhausted s

theorem guided_run (h : Follows .supply s act act') : guided act act' s = act s := if_pos h

end Run

namespace Ends

variable {X α : Type} {L : Labelling X} {B : Set ObjectId} {m : Heap} {R : Roles X}
  {rest : Multiset Holding} {post : α → Multiset Holding} {good : Heap → Roles X → α → Prop}
  {bad : EvalError → Prop} {act act' : Run α} {s : Machine}

theorem guided (h : Ends L B m R rest post good bad (act s))
    (hfollows : Follows .supply s act act') :
    Ends L B m R rest post good bad (Run.guided act act' s) := by
  rwa [guided_run hfollows]

end Ends

namespace Evaluator

variable {off on : Options} {s : Machine} {R : Roles Ty} {held rest : Multiset Holding}
  {c : Closure} {p : Primitive} {args : List Ty} {f a x : Ty} {n k d : Nat} {whole : Term}

section Layer

variable {reduce reduce' : Reducer} (hoff : off.checkResults = false)
  (hpanics : on.catchPanics = off.catchPanics)
  (hreduce : (Ty.labelling whole).Reduces d fun h => guided (reduce h) (reduce' h))
include hoff hpanics hreduce

end Layer

end Evaluator

namespace Client

variable {usable : Primitive → Prop} {c c' : Client} {root : Handle} {t : Term} {T : Ty}
  {vars vars' : VarSupply}

end Client

end GraphReduction
