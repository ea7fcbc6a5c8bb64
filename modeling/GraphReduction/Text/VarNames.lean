/-!
Names for type variables in finished text. A variable is written `Var[` digits `]`, where the digits
are the number of a variable, so a word. One whose number somebody has named gets that name; the
others are numbered in order of first appearance, over as many texts as share one naming. Other text
in brackets is left alone.
-/
namespace GraphReduction.Text

/-- The names given to variable numbers, and the unnamed numbers met so far in order. -/
structure VarNaming where
  given : List (Nat × String) := []
  met : List Nat := []

namespace VarNaming

/-- What stands between the brackets for the variable of a number. -/
def nameOf (naming : VarNaming) (number : Nat) : String × VarNaming :=
  match naming.given.lookup number with
  | some name => (name, naming)
  | none =>
    match naming.met.idxOf? number with
    | some place => ("#" ++ place.repr, naming)
    | none => ("#" ++ naming.met.length.repr, { naming with met := naming.met ++ [number] })

/-- A word written up to a closing bracket, and what follows it. `read` is the value of the digits
read so far, if there were any. -/
def numberUpToBracket (read : Option Nat) (cs : List Char) :
    Option (Nat × { rest : List Char // rest.length < cs.length }) :=
  match cs with
  | [] => none
  | c :: cs =>
    if c.isDigit then
      (numberUpToBracket (some (10 * read.getD 0 + (c.toNat - '0'.toNat))) cs).map
        fun (number, rest) => (number, ⟨rest.1, by have := rest.2; simp; omega⟩)
    else if c = ']' then
      (read.filter (· < UInt32.size)).map fun number => (number, ⟨cs, by simp⟩)
    else
      none

/-- The number of a variable at the start of the text, and what follows it. -/
def variableAt? (cs : List Char) : Option (Nat × { rest : List Char // rest.length < cs.length }) :=
  match cs with
  | 'V' :: 'a' :: 'r' :: '[' :: cs =>
    (numberUpToBracket none cs).map
      fun (number, rest) => (number, ⟨rest.1, by have := rest.2; simp; omega⟩)
  | _ => none

def renameChars (naming : VarNaming) (done : String) (cs : List Char) : String × VarNaming :=
  match variableAt? cs with
  | some (number, ⟨rest, _⟩) =>
    let (name, naming) := naming.nameOf number
    renameChars naming (done ++ "Var[" ++ name ++ "]") rest
  | none =>
    match cs with
    | [] => (done, naming)
    | c :: cs => renameChars naming (done.push c) cs
termination_by cs.length

def rename (naming : VarNaming) (text : String) : String × VarNaming :=
  renameChars naming "" text.toList

end VarNaming

end GraphReduction.Text
