import GraphReduction.Ty.Basic

/-!
The variables of a type. `leaves` reads them off the tree from left to right. The searches `occurs`
and `freeVars` walk the same leaves with an explicit stack of subtrees still to visit: an arrow
puts its result below its parameter, so the parameter is visited first.
-/
namespace GraphReduction.Ty

/-- The variable leaves from left to right, with repetitions. -/
def leaves : Ty → List VarId
  | named _ => []
  | arrow parameter result => parameter.leaves ++ result.leaves
  | var id => [id]

/-- Nodes still to visit: what bounds a walk over a stack of subtrees. -/
def stackSize (stack : List Ty) : Nat := stack.foldr (fun t rest => t.size + rest) 0

@[simp] theorem stackSize_cons (t : Ty) (stack : List Ty) :
    stackSize (t :: stack) = t.size + stackSize stack := by simp [stackSize]

def occursOnStack (v : VarId) : List Ty → Bool
  | [] => false
  | named _ :: stack => occursOnStack v stack
  | var id :: stack => if id = v then true else occursOnStack v stack
  | arrow parameter result :: stack => occursOnStack v (parameter :: result :: stack)
termination_by stack => stackSize stack
decreasing_by all_goals simp [size]; try omega

def collectVars (found : List VarId) : List Ty → List VarId
  | [] => found
  | named _ :: stack => collectVars found stack
  | var id :: stack => collectVars (if id ∈ found then found else found ++ [id]) stack
  | arrow parameter result :: stack => collectVars found (parameter :: result :: stack)
termination_by stack => stackSize stack
decreasing_by all_goals simp [size]; try omega

def occurs (t : Ty) (v : VarId) : Bool := occursOnStack v [t]

/-- The variables in order of first occurrence. -/
def freeVars (t : Ty) : List VarId := collectVars [] [t]

def isGround (t : Ty) : Bool := t.freeVars.isEmpty

theorem occursOnStack_iff (v : VarId) (stack : List Ty) :
    occursOnStack v stack = true ↔ v ∈ stack.flatMap leaves := by
  fun_induction occursOnStack v stack with
  | case1 => simp
  | case2 => simp_all [leaves]
  | case3 => simp_all [leaves]
  | case4 id stack differs ih => simp [leaves, ih, Ne.symm differs]
  | case5 => simp_all [leaves]

theorem occurs_iff (t : Ty) (v : VarId) : t.occurs v = true ↔ v ∈ t.leaves := by
  simp [occurs, occursOnStack_iff]

end GraphReduction.Ty
