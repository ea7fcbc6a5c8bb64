import GraphReduction.Heap.Basic
import GraphReduction.Text.Integer

/-!
Texts that show what is in the heap. `describe` names an object in an error message; `handleText`
and `thunkText` show contents. A memoized application shows its result, so the text follows results
from node to node, which cannot take more turns than there are objects.
-/
namespace GraphReduction

def boolText (b : Bool) : String := if b then "true" else "false"

def Payload.text : Payload → String
  | int n => "Int(" ++ int64Text n ++ ")"
  | bool b => "Bool(" ++ boolText b ++ ")"
  | str s => "Str(" ++ Text.quoted s ++ ")"
  | tracked _ => "Tracked"
  | p@(pair ..) => "Pair(" ++ p.handles.length.repr ++ ")"

namespace Heap

def combinatorName (m : Heap) (c : CombinatorId) : String :=
  ((m.combinator? c).map (·.combinator.name)).getD ""

def closureText (m : Heap) (c : Closure) : String :=
  "Closure(" ++ m.combinatorName c.combinator ++ " " ++ c.bound.repr ++ "/" ++ c.total.repr ++ ")"

def describeKind (m : Heap) : ObjectKind → String
  | .value v => v.type.text
  | .closure c =>
    "closure `" ++ m.combinatorName c.combinator ++ "` (" ++ c.missing.repr ++ " of " ++
      c.total.repr ++ " arguments missing)"
  | .application _ => "unevaluated application"
  | .exception error => "exception: " ++ error.message

def describe (m : Heap) (h : Handle) : String := ((m.kind? h).map m.describeKind).getD ""

/-- The text of a handle, following at most `depth` memoized results. -/
def textUpTo (m : Heap) : Nat → Handle → String
  | 0, _ => ""
  | depth + 1, h =>
    let text := match m.kind? h with
      | none => ""
      | some (.value v) => "Value(" ++ v.payload.text ++ " : " ++ v.type.text ++ ")"
      | some (.closure c) => m.closureText c
      | some (.application (.pending ..)) => "Apply(pending)"
      | some (.application (.reduced result)) => "Apply(" ++ m.textUpTo depth result ++ ")"
      | some (.application (.knot _)) => "Apply(self)"
      | some (.exception error) => "Exception(" ++ error.debug ++ ")"
    if h.isCached then "Cached(" ++ text ++ ")" else text

def handleText (m : Heap) (h : Handle) : String := m.textUpTo (m.objects.next + 1) h

def thunkText (m : Heap) (t : ThunkId) : String :=
  match (m.thunk? t).map Thunk.state with
  | none => ""
  | some (.pending _) => "Thunk(pending)"
  | some (.forced h) => "Thunk(" ++ m.handleText h ++ ")"
  | some (.recursive _) => "Thunk(self)"

end Heap

end GraphReduction
