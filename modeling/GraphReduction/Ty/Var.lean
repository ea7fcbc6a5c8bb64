/-!
Type variables and where their identities come from. Identities have 32 bits. Fresh ones are counted
off, and the count is cut down to 32 bits, so after 2^32 draws the identities start again; the generic
variables are fresh identities too, drawn when first asked for and kept in a table, so a generic
variable stays the same at every later request.
-/
namespace GraphReduction

structure VarId where
  raw : UInt32
deriving DecidableEq

/-- The count behind fresh variables and the generic variables drawn so far. Counting starts at
one, so no variable is ever shown as number zero before the identities start again. -/
structure VarSupply where
  next : Nat := 1
  generics : Array VarId := #[]

namespace VarId

def text (v : VarId) : String := "Var[" ++ v.raw.toNat.repr ++ "]"

end VarId

namespace VarSupply

def fresh (s : VarSupply) : VarId × VarSupply :=
  (⟨.ofNat s.next⟩, { s with next := s.next + 1 })

def extend (s : VarSupply) : Nat → VarSupply
  | 0 => s
  | count + 1 =>
    let (v, s) := s.fresh
    extend { s with generics := s.generics.push v } count

/-- The generic variable of a place. The table grows up to that place on first request. -/
def generic (s : VarSupply) (index : Nat) : VarId × VarSupply :=
  match s.generics[index]? with
  | some v => (v, s)
  | none =>
    let s := s.extend (index + 1 - s.generics.size)
    (s.generics[index]?.getD ⟨0⟩, s)

def firstGenerics (s : VarSupply) (count : Nat) : List VarId × VarSupply :=
  (List.range count).foldl
    (fun (vs, s) index => let (v, s) := s.generic index; (vs ++ [v], s)) ([], s)

@[simp] theorem fresh_fst (s : VarSupply) : s.fresh.1 = ⟨.ofNat s.next⟩ := rfl

@[simp] theorem fresh_next (s : VarSupply) : s.fresh.2.next = s.next + 1 := rfl

@[simp] theorem fresh_generics (s : VarSupply) : s.fresh.2.generics = s.generics := rfl

@[simp] theorem extend_zero (s : VarSupply) : s.extend 0 = s := rfl

theorem size_generics_extend (s : VarSupply) (count : Nat) :
    (s.extend count).generics.size = s.generics.size + count := by
  induction count generalizing s with
  | zero => rfl
  | succ count ih => simp [extend, ih]; omega

end VarSupply

end GraphReduction
