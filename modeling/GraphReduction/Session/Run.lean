import GraphReduction.Session.Look
import GraphReduction.Session.Produce

/-!
Running commands. A command answers or fails, and either way the notes that bodies made meanwhile
are its log.
-/
namespace GraphReduction

open Step

namespace Step

/-- Show a produced handle, and keep it or give it back. -/
def showAndKeep (into : OptionalPart String) (h : Handle) : Step Shown := do
  let shown ← run (Run.shown h)
  keep into h
  pure shown

def shareThunk (i : ThunkId) : Step ThunkId := run i.share

/-- Look at a register without doing anything with its content. -/
def lookAt : RegisterUse → Step Unit
  | .handle x => borrowing x fun _ => pure ()
  | .plainHandle name => do let _ ← handleNamed name
  | .thunk name => do let _ ← thunkIn name
  | .weak name => do let _ ← weakIn name

def newThunk (kind : ThunkChoice) (h : Handle) : Step ThunkId := do
  match kind with
  | .pending =>
    let h ← share h
    run (Run.newThunk (.pending h))
  | .forced =>
    let h ← share h
    run (Run.newThunk (.forced h))
  | .recursive =>
    if ← inspect (·.isStatic h) then
      throw .static
    else
      run do
        Run.change (·.retainWeak h.target)
        Run.newThunk (.recursive h.target)

def thunkInfo (i : ThunkId) : Step Answer := do
  let text ← inspect (·.thunkText i)
  let state? ← run i.state?
  let forced := match state? with
    | some (.forced _) => true
    | _ => false
  pure (.thunkInfo text forced (← inspect (·.isRecursive i)))

/-- Release everything in handle and thunk registers. -/
def clear : Step Unit := do
  let s ← get
  set { s with handles := [], thunks := [] }
  s.thunks.forM fun (_, t) => run (Run.change (·.releaseThunk t))
  s.handles.forM fun (_, h) => release h

end Step

namespace Command

def run : Command → Step Answer
  | produce p into => do
    let h ← p.run
    return .handle (← showAndKeep into h)
  | bind f x into => do
    let f ← taking f
    let x ← onFailure (taking x) (release f)
    let h ← Step.run (Run.applyArgument f x)
    return .bound (← showAndKeep into h) (h.target == f.target)
  | resolve v x => do
    let v ← taking v
    cleaningUp
      (borrowing x fun h => do
        let _ ← applicationOf h
        Step.run (Run.resolve h.target v)
        return .resolved (← Step.run (Run.shown h)))
      (release v)
  | options => return .options (← get).options
  | thunk kind x into? => borrowing x fun h => do
    let i ← Step.newThunk kind h
    let text ← inspect (·.thunkText i)
    keepThunk into? i
    pure (.thunk text)
  | argumentThunk x i into? => borrowing x fun h => do
    let t ← shareThunk (← argumentOf h i)
    let text ← inspect (·.thunkText t)
    keepThunk into? t
    pure (.thunk text)
  | thunkInfo t => do Step.thunkInfo (← thunkIn t)
  | sameThunk a b => do
    let i ← thunkIn a
    let j ← thunkIn b
    pure (.same (i == j))
  | dropThunk t => do
    let i ← thunkIn t
    modify fun s => { s with thunks := s.thunks.erase t }
    Step.run (Run.change (·.releaseThunk i))
    pure (.dropped t)
  | view x => borrowing x fun h => return .view (← Step.run (Run.view h))
  | refs x => borrowing x fun h => return .refs (← inspect (·.refCount h))
  | same a b => do
    let h ← taking a
    cleaningUp (borrowing b fun i => pure (.same (h.target == i.target))) (release h)
  | weak x into? => borrowing x fun h => do
    if ← inspect (·.isStatic h) then
      pure (.weak false)
    else
      Step.run (Run.change (·.retainWeak h.target))
      keepWeak into? h.target
      pure (.weak true)
  | isAlive w => do
    let o ← weakIn w
    return .alive (← inspect (·.isAlive o))
  | typeOf x asEvalError => borrowing x fun h => do
    match ← Step.run (Run.typeOf h) with
    | .ok t => pure (.type t)
    | .error error =>
      throw (if asEvalError then .evaluation (.ofUnify error) else .unification error)
  | drop name => do
    let h ← handleNamed name
    modify fun s => { s with handles := s.handles.erase name }
    release h
    pure (.dropped name)
  | clear => do
    Step.clear
    pure .cleared
  | drops => return .drops (← inspect (·.drops))
  | malformed registers => do
    registers.forM lookAt
    throw .malformed

end Command

namespace Session

/-- Run one command. The notes of this command are answered with it. -/
def step (s : Session) (c : Command) : Except Failure Answer × List String × Session :=
  let before := s.machine.trace.size
  let finish (outcome : Except Failure Answer) (s : Session) :=
    let notes := (s.machine.trace.extract before).toList.filterMap fun
      | .note text => some text
      | _ => none
    (outcome, notes, s)
  match c.run s with
  | .ok answer s => finish (.ok answer) s
  | .error failure s => finish (.error failure) s

def runAll (s : Session) (cs : List Command) :
    List (Except Failure Answer × List String) × Session :=
  cs.foldl (fun (answers, s) c =>
    let (outcome, notes, s) := s.step c
    (answers ++ [(outcome, notes)], s)) ([], s)

end Session

end GraphReduction
