/-!
Parts of a command that may be left out. A part that is there but cannot be read makes the command
malformed, yet only when the command comes to it: what it does before that is done.
-/
namespace GraphReduction

inductive OptionalPart (α : Type) where
  | omitted
  | given (a : α)
  | unreadable
deriving DecidableEq

namespace OptionalPart

/-- What is written, unless it cannot be read. -/
def read? : OptionalPart α → Option (Option α)
  | omitted => some none
  | given a => some (some a)
  | unreadable => none

@[simp] theorem read?_omitted : (omitted : OptionalPart α).read? = some none := rfl

@[simp] theorem read?_given (a : α) : (given a).read? = some (some a) := rfl

@[simp] theorem read?_unreadable : (unreadable : OptionalPart α).read? = none := rfl

end OptionalPart

end GraphReduction
