import GraphReduction.Ty.Leaves

/-!
Ordered bindings of variables to types. A new binding is composed into the earlier ones before it is
recorded, which keeps bound variables out of every bound type. A substitution is applied one binding
after the other while it is short and in one pass over the type when it is long.
-/
namespace GraphReduction

/-- Bindings in the order they were recorded. -/
structure Substitution where
  bindings : List (VarId × Ty) := []
deriving DecidableEq

namespace Substitution

def size (s : Substitution) : Nat := s.bindings.length

def lookup (s : Substitution) (v : VarId) : Option Ty := s.bindings.lookup v

/-- Apply the bindings one after the other. -/
def applyInOrder (s : Substitution) (t : Ty) : Ty :=
  s.bindings.foldl (fun t (v, image) => t.substitute v image) t

/-- Look every leaf up once. -/
def applyAtOnce (s : Substitution) : Ty → Ty
  | .named name => .named name
  | .arrow parameter result => .arrow (s.applyAtOnce parameter) (s.applyAtOnce result)
  | .var v => (s.lookup v).getD (.var v)

/-- From this many bindings on a type is changed in one pass. -/
def longFrom : Nat := 9

def apply (s : Substitution) (t : Ty) : Ty :=
  if longFrom ≤ s.size then s.applyAtOnce t else s.applyInOrder t

/-- Record `v` as bound to `t`, which replaces it in the earlier bindings. -/
def bind (s : Substitution) (v : VarId) (t : Ty) : Substitution where
  bindings := s.bindings.map (fun (w, image) => (w, image.substitute v t)) ++ [(v, t)]

@[simp] theorem bindings_bind (s : Substitution) (v : VarId) (t : Ty) :
    (s.bind v t).bindings =
      s.bindings.map (fun (w, image) => (w, image.substitute v t)) ++ [(v, t)] := rfl

@[simp] theorem size_bind (s : Substitution) (v : VarId) (t : Ty) :
    (s.bind v t).size = s.size + 1 := by simp [size]

end Substitution

end GraphReduction
