/-!
Names of value types. A name is not empty and takes at most 31 bytes, and both facts travel with
it, so no later operation has to look at the bounds again.
-/
namespace GraphReduction

/-- Longest accepted name of a value type, in bytes of its UTF-8 form. -/
def maxTypeNameBytes : Nat := 31

/-- Why a text is not the name of a value type. -/
inductive TypeError where
  | emptyName
  | nameTooLong (name : String) (bytes : Nat)
deriving DecidableEq

structure TypeName where
  text : String
  ne_empty : text ≠ ""
  bytes_le : text.utf8ByteSize ≤ maxTypeNameBytes

instance : DecidableEq TypeName := fun a b =>
  decidable_of_iff (a.text = b.text) <| by cases a; cases b; simp

namespace TypeError

def message : TypeError → String
  | emptyName => "type name must not be empty"
  | nameTooLong name bytes =>
    "type name `" ++ name ++ "` is " ++ bytes.repr ++ " bytes long, at most " ++
      maxTypeNameBytes.repr ++ " are allowed"

end TypeError

namespace TypeName

/-- Length is counted in bytes, so fewer characters fit where they are not ASCII. -/
def ofString (text : String) : Except TypeError TypeName :=
  if empty : text = "" then
    .error .emptyName
  else if fits : text.utf8ByteSize ≤ maxTypeNameBytes then
    .ok ⟨text, empty, fits⟩
  else
    .error (.nameTooLong text text.utf8ByteSize)

@[simp] theorem ofString_text (name : TypeName) : ofString name.text = .ok name := by
  simp [ofString, name.ne_empty, name.bytes_le]

theorem text_injective {a b : TypeName} (same : a.text = b.text) : a = b := by
  cases a; cases b; simp_all

def int : TypeName := ⟨"Int", by decide, by decide⟩
def bool : TypeName := ⟨"Bool", by decide, by decide⟩
def str : TypeName := ⟨"Str", by decide, by decide⟩
def pair : TypeName := ⟨"Pair", by decide, by decide⟩
def tracked : TypeName := ⟨"Tracked", by decide, by decide⟩

end TypeName

end GraphReduction
