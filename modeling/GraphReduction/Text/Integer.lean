/-!
Integers of 64 bits in decimal text: an optional sign and at least one digit.
-/
namespace GraphReduction.Text

def natOfDigits (cs : List Char) : Option Nat :=
  if cs.isEmpty then none
  else if cs.all Char.isDigit then
    some (cs.foldl (fun n d => 10 * n + (d.toNat - '0'.toNat)) 0)
  else none

def intOfChars (cs : List Char) : Option Int :=
  match cs with
  | '-' :: cs => (natOfDigits cs).map fun n => -(n : Int)
  | '+' :: cs => (natOfDigits cs).map fun n => (n : Int)
  | cs => (natOfDigits cs).map fun n => (n : Int)

end GraphReduction.Text

namespace GraphReduction

/-- The value as a 64-bit integer, if it is one. -/
def int64OfInt? (n : Int) : Option Int64 :=
  if Int64.minValue.toInt ≤ n ∧ n ≤ Int64.maxValue.toInt then some (Int64.ofInt n) else none

def int64OfText? (text : String) : Option Int64 :=
  (Text.intOfChars text.toList).bind int64OfInt?

def int64Text (n : Int64) : String :=
  match n.toInt with
  | .ofNat m => m.repr
  | .negSucc m => "-" ++ (m + 1).repr

end GraphReduction
