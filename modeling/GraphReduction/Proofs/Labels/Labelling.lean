import Mathlib
import GraphReduction.Machine.Initial
import GraphReduction.Reduce.Body

/-! What handles can stand for: a meaning, a type, or anything else that evaluation respects. A
labelling says which labels values, errors and partial applications of primitives can have, and what
applying one label to another gives. It is lawful when binding an argument and running the body of a
primitive agree with that. Everything that evaluation keeps about labels follows from the laws. -/
namespace GraphReduction

namespace Primitive

/-- The type of the combinator in the machine before anything has happened. -/
def declaredType : Primitive → Ty
  | add | sub | mul => .arrowChain [.int, .int] .int
  | eq | lt => .arrowChain [.int, .int] .bool
  | ifThenElse => .arrowChain [.bool, .var ⟨1⟩, .var ⟨1⟩] (.var ⟨1⟩)
  | identity => .arrow (.var ⟨2⟩) (.var ⟨2⟩)
  | constant => .arrowChain [.var ⟨3⟩, .var ⟨4⟩] (.var ⟨3⟩)
  | fail => .arrow .str (.var ⟨5⟩)
  | fix => .arrow (.arrow (.var ⟨6⟩) (.var ⟨6⟩)) (.var ⟨6⟩)

def arity (p : Primitive) : Nat := p.declaredType.arity

def declared (p : Primitive) : Combinator := ⟨p.name, p.declaredType, p.arity, p.body⟩

/-- How an error message shows the primitive with some arguments bound. -/
def describeApplied (p : Primitive) (bound : Nat) : String :=
  "closure `" ++ p.name ++ "` (" ++ (p.arity - bound).repr ++ " of " ++ p.arity.repr ++
    " arguments missing)"

theorem arity_eq (p : Primitive) :
    p.arity = match p with
      | .add | .sub | .mul | .eq | .lt | .constant => 2
      | .ifThenElse => 3
      | .identity | .fail | .fix => 1 := by
  cases p <;> rfl

theorem arity_pos (p : Primitive) : 0 < p.arity := by
  cases p <;> exact Nat.succ_pos _

end Primitive

structure Labelling (X : Type) where
  value : Boxed → X → Prop
  error : EvalError → X → Prop
  /-- A primitive applied to so many arguments. -/
  partialApp : Primitive → List X → X → Prop
  /-- Function, argument and result. -/
  apply : X → X → X → Prop

namespace Labelling

variable {X α : Type} (L : Labelling X)

/-- What is raised when a payload is expected of something labelled `x` and there is none. -/
inductive Refuses (take : Payload → Option α) (expected : TypeName) (x : X) : EvalError → Prop where
  | error {e : EvalError} (h : L.error e x) : Refuses take expected x e
  | value {v : Boxed} (h : L.value v x) (hnone : take v.payload = none) :
      Refuses take expected x (.typeMismatch expected.text v.type.text)
  | function {p : Primitive} {args : List X} (h : L.partialApp p args x)
      (hmissing : args.length < p.arity) :
      Refuses take expected x (.typeMismatch expected.text (p.describeApplied args.length))

/-- Taking the payload out of `x` on the way to `r`: a refusal is the error of `r`, and what is
taken leads on. -/
def Unboxes (take : Payload → Option α) (expected : TypeName) (x : X) (next : α → Prop) (r : X) :
    Prop :=
  (∀ e, L.Refuses take expected x e → L.error e r) ∧
    ∀ v a, L.value v x → take v.payload = some a → next a

/-- Tying `f` gives `r`: only a function that misses one argument can be tied, and its result is its
own argument, which is not there before it is computed. -/
structure Ties (f r : X) : Prop where
  error : ∀ e, L.error e f → L.error e r
  value : ∀ v, L.value v f → L.error (.badFix v.type.text) r
  function : ∀ p args, L.partialApp p args f → args.length < p.arity →
    args.length + 1 = p.arity ∧ L.apply f r r ∧ L.error .blackHole r

/-- The body makes `r` of the arguments. -/
def Performs (args : List X) (r : X) : Body Handle → Prop
  | .lazy i => args[i]? = some r
  | .cond i yes no => ∃ a, args[i]? = some a ∧
      L.Unboxes Payload.bool? .bool a
        (fun c => if c = true then Performs args r yes else Performs args r no) r
  | .arith op => ∃ a b, args[0]? = some a ∧ args[1]? = some b ∧
      L.Unboxes Payload.int? .int a (fun n =>
        L.Unboxes Payload.int? .int b (fun k =>
          match op.result? n k with
          | some j => L.value ⟨.int, .int j⟩ r
          | none => L.error (op.overflow n k) r) r) r
  | .test how => ∃ a b, args[0]? = some a ∧ args[1]? = some b ∧
      L.Unboxes Payload.int? .int a (fun n =>
        L.Unboxes Payload.int? .int b (fun k => L.value ⟨.bool, .bool (how.holds n k)⟩ r) r) r
  | .fail i => ∃ a, args[i]? = some a ∧
      L.Unboxes Payload.str? .str a (fun s => L.error (.foreign s) r) r
  | .tie => ∃ f, args[0]? = some f ∧ L.Ties f r
  | _ => False

structure Lawful : Prop where
  bind : ∀ p args f a r, L.partialApp p args f → args.length < p.arity → L.apply f a r →
    L.partialApp p (args ++ [a]) r
  applyValue : ∀ v f a r, L.value v f → L.apply f a r → L.error (.badApply v.type.text) r
  applyError : ∀ e f a r, L.error e f → L.apply f a r → L.error e r
  performs : ∀ p args r, L.partialApp p args r → args.length = p.arity → L.Performs args r p.body

end Labelling

end GraphReduction
