import GraphReduction.Ty.Leaves

/-!
Renaming the variables of a type. `instantiate` gives every variable a fresh name; `generalize`
gives the generic name of its place in the order of first occurrence, so types that differ only in
the names of their variables become the same tree.
-/
namespace GraphReduction

/-- The types that variables are renamed to, newest first. -/
abbrev Renaming := List (VarId × Ty)

namespace Ty

/-- Rename along `known`; a variable that is not in it gets a fresh one and is added. -/
def instantiateWith (t : Ty) (known : Renaming) (vars : VarSupply) : Ty × Renaming × VarSupply :=
  match t with
  | named name => (named name, known, vars)
  | var id =>
    match known.lookup id with
    | some image => (image, known, vars)
    | none =>
      let (v, vars) := vars.fresh
      (var v, (id, var v) :: known, vars)
  | arrow parameter result =>
    let (parameter, known, vars) := parameter.instantiateWith known vars
    let (result, known, vars) := result.instantiateWith known vars
    (arrow parameter result, known, vars)

/-- A copy with every variable replaced by a fresh one, equal ones by the same one. -/
def instantiate (t : Ty) (vars : VarSupply) : Ty × VarSupply :=
  let (t, _, vars) := t.instantiateWith [] vars
  (t, vars)

/-- Rename the variables to the generic ones, numbered by first occurrence. -/
def generalize (t : Ty) (vars : VarSupply) : Ty × VarSupply :=
  let (generics, vars) := vars.firstGenerics t.freeVars.length
  let (t, _, vars) := t.instantiateWith (t.freeVars.zip (generics.map var)) vars
  (t, vars)

end Ty

end GraphReduction
