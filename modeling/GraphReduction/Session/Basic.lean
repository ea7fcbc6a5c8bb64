import GraphReduction.Machine.Initial
import GraphReduction.Session.Answer
import GraphReduction.Session.Command

/-!
The state of a session and the access to its registers. A command that fails leaves what it has done
to registers and heap so far, so a content that was moved out stays out.
-/
namespace GraphReduction

abbrev RegisterFile (α : Type) := List (String × α)

namespace RegisterFile

def erase (file : RegisterFile α) (name : String) : RegisterFile α := file.filter (·.1 != name)

def set (file : RegisterFile α) (name : String) (a : α) : RegisterFile α :=
  (name, a) :: erase file name

end RegisterFile

structure Session where
  machine : Machine := .initial
  handles : RegisterFile Handle := []
  thunks : RegisterFile ThunkId := []
  weaks : RegisterFile ObjectId := []
  options : Options := {}
  varNames : List (String × VarId) := []

abbrev Step := EStateM Failure Session

namespace Step

def run (act : Run α) : Step α := fun s =>
  match s with
  | ⟨machine, handles, thunks, weaks, options, varNames⟩ =>
    match act machine with
    | .ok a machine => .ok a ⟨machine, handles, thunks, weaks, options, varNames⟩
    | .error signal machine =>
      .error (.ofSignal signal) ⟨machine, handles, thunks, weaks, options, varNames⟩

def inspect (f : Heap → α) : Step α := run (Run.inspect f)

def release (h : Handle) : Step Unit := run (Run.release h)

def share (h : Handle) : Step Handle := run (Run.share h)

/-- Do something and then clean up, whether it failed or not. -/
def cleaningUp (act : Step α) (cleanUp : Step Unit) : Step α := do
  let a ← tryCatch act fun failure => do
    cleanUp
    throw failure
  cleanUp
  pure a

/-- Clean up only if it failed. -/
def onFailure (act : Step α) (cleanUp : Step Unit) : Step α :=
  tryCatch act fun failure => do
    cleanUp
    throw failure

/-! Operands -/

def require (a? : Option α) (failure : Failure) : Step α :=
  match a? with
  | some a => pure a
  | none => throw failure

def handleIn (x : Operand) : Step Handle := do
  let h ← require ((← get).handles.lookup x.register) (.noRegister x.text)
  if x.moved then modify fun s => { s with handles := s.handles.erase x.register }
  pure h

def handleNamed (name : String) : Step Handle := do
  require ((← get).handles.lookup name) (.noRegister name)

def thunkIn (name : String) : Step ThunkId := do
  require ((← get).thunks.lookup name) (.noRegister name)

def weakIn (name : String) : Step ObjectId := do
  require ((← get).weaks.lookup name) (.noRegister name)

/-- A reference of one's own to what an operand names. -/
def taking (x : Operand) : Step Handle := do
  let h ← handleIn x
  if x.moved then pure h else share h

/-- Work with what an operand names without another reference to it. What was moved out is released
at the end. -/
def borrowing (x : Operand) (act : Handle → Step α) : Step α := do
  let h ← handleIn x
  if x.moved then cleaningUp (act h) (release h) else act h

/-! Keeping results. The old content of a register is released after the new one is there. A result
that no readable register is given for is released and the command is malformed. -/

/-- Keep a handle if a register is named, and give it back otherwise. -/
def keep (into : OptionalPart String) (h : Handle) : Step Unit := do
  match ← onFailure (require into.read? .malformed) (release h) with
  | some name =>
    let old? := (← get).handles.lookup name
    modify fun s => { s with handles := s.handles.set name h }
    if let some old := old? then release old
  | none => release h

def keepThunk (into? : Option String) (t : ThunkId) : Step Unit := do
  let name ← onFailure (require into? .malformed) (run (Run.change (·.releaseThunk t)))
  let old? := (← get).thunks.lookup name
  modify fun s => { s with thunks := s.thunks.set name t }
  if let some old := old? then run (Run.change (·.releaseThunk old))

def keepWeak (into? : Option String) (o : ObjectId) : Step Unit := do
  let name ← onFailure (require into? .malformed) (run (Run.change (·.releaseWeak o)))
  let old? := (← get).weaks.lookup name
  modify fun s => { s with weaks := s.weaks.set name o }
  if let some old := old? then run (Run.change (·.releaseWeak old))

/-! Types -/

/-- The type that an expression denotes. Variables it names stay named in the session. -/
def buildType (e : TyExpr) : Step Ty := do
  let s ← get
  let (outcome, scope) := e.build.run.run
    { supply := { vars := s.machine.vars }, varNames := s.varNames }
  modify fun s => { s with varNames := scope.varNames }
  run (Run.withVars fun _ => ((), scope.supply.vars))
  match outcome with
  | .ok n => pure n.ty
  | .error (.invalidName error) => throw (.invalidName error)
  | .error (.noRegister name) => throw (.noRegister name)
  | .error .malformed => throw .malformed

end Step

end GraphReduction
