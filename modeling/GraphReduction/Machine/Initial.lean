import GraphReduction.Machine.Basic

/-!
The machine before anything has happened. Its heap holds one static closure for each primitive, in
the place that the primitive has in the list of all primitives.
-/
namespace GraphReduction.Machine

def addPrimitive (s : Machine) (p : Primitive) : Machine :=
  let (combinator, vars) := p.combinator s.vars
  let (c, heap) := s.heap.newCombinator combinator
  let (_, heap) := heap.newStatic (.closure (.bare c combinator.arity))
  { s with heap, vars }

def initial : Machine := Primitive.all.foldl addPrimitive {}

end GraphReduction.Machine
