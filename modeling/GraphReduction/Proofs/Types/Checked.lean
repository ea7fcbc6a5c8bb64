import Mathlib
import GraphReduction.Proofs.Types.Principal

/-! The check of a result. The walk over the result goes on from the walk over the closure, so an
object that both lead to has one type. Where types fit together that give closure and result the
same type, the equations of both walks are solved. -/
namespace GraphReduction.Heap

open Walk

variable {m : Heap} {closure result : Handle} {vars : VarSupply}

end GraphReduction.Heap
