import Mathlib
import GraphReduction.Reduce.Evaluator

/-! Computations that have nothing to do with type variables. On another supply such a computation
ends as before, and the supply is left as it was. Everything is of this kind that works on the heap
alone; only the search for types draws variables. -/
namespace GraphReduction

def Machine.supplied (s : Machine) (vars : VarSupply) : Machine := { s with vars }

@[simp] theorem Machine.vars_supplied (s : Machine) (vars : VarSupply) :
    (s.supplied vars).vars = vars := rfl

@[simp] theorem Machine.heap_supplied (s : Machine) (vars : VarSupply) :
    (s.supplied vars).heap = s.heap := rfl

namespace Run

variable {α β : Type}

def supplied (vars : VarSupply) :
    EStateM.Result Signal Machine α → EStateM.Result Signal Machine α
  | .ok a s => .ok a (s.supplied vars)
  | .error signal s => .error signal (s.supplied vars)

/-- The computation neither reads the supply of variables nor draws from it. -/
def Heedless (act : Run α) : Prop := ∀ s vars, act (s.supplied vars) = supplied vars (act s)

namespace Heedless

variable {act : Run α} {next : α → Run β}

theorem pure (a : α) : Heedless (Pure.pure a : Run α) := fun _ _ => rfl

theorem throw (signal : Signal) : Heedless (MonadExcept.throw signal : Run α) := fun _ _ => rfl

theorem raise (e : EvalError) : Heedless (Run.raise e : Run α) := fun _ _ => rfl

theorem inspect (f : Heap → α) : Heedless (Run.inspect f) := fun _ _ => rfl

theorem change (f : Heap → Heap) : Heedless (Run.change f) := fun _ _ => rfl

theorem add (f : Heap → α × Heap) : Heedless (Run.add f) := fun _ _ => rfl

theorem note (text : String) : Heedless (Run.note text) := fun _ _ => rfl

theorem event (e : Event) : Heedless (Run.event e) := fun _ _ => rfl

theorem tied (knot : ObjectId) (value : Handle) : Heedless (Run.tied knot value) := fun _ _ => rfl

theorem bind (h : Heedless act) (hnext : ∀ a, Heedless (next a)) : Heedless (act >>= next) := by
  intro s vars
  rw [bind_run, bind_run, h s vars]
  cases act s with
  | ok a s' => exact hnext a s' vars
  | error signal s' => rfl

theorem tryCatch {handle : Signal → Run α} (h : Heedless act) (hhandle : ∀ e, Heedless (handle e)) :
    Heedless (MonadExcept.tryCatch act handle) := by
  intro s vars
  rw [tryCatch_run, tryCatch_run, h s vars]
  cases act s with
  | ok a s' => rfl
  | error signal s' => exact hhandle signal s' vars

theorem ite {c : Prop} [Decidable c] {act' : Run α} (h : Heedless act) (h' : Heedless act') :
    Heedless (if c then act else act') := by
  split
  · exact h
  · exact h'

theorem mapM {f : α → Run β} (h : ∀ a, Heedless (f a)) (xs : List α) : Heedless (xs.mapM f) := by
  induction xs with
  | nil => exact .pure []
  | cons x xs ih =>
    rw [List.mapM_cons]
    exact .bind (h x) fun _ => .bind ih fun _ => .pure _

theorem forM {f : α → Run PUnit} (h : ∀ a, Heedless (f a)) (xs : List α) :
    Heedless (xs.forM f) := by
  induction xs with
  | nil => exact .pure _
  | cons x xs ih => exact .bind (h x) fun _ => ih

end Heedless

/-! References and new cells. -/

theorem share_heedless (h : Handle) : Heedless (share h) := fun _ _ => rfl

theorem release_heedless (h : Handle) : Heedless (release h) := .change _

theorem newObject_heedless (kind : ObjectKind) : Heedless (newObject kind) := .add _

theorem newValue_heedless (type : Ty) (payload : Payload) : Heedless (newValue type payload) :=
  newObject_heedless _

theorem newPair_heedless (first second : Handle) : Heedless (newPair first second) :=
  newObject_heedless _

theorem newApplication_heedless (function argument : Handle) :
    Heedless (newApplication function argument) := newObject_heedless _

theorem newException_heedless (e : EvalError) : Heedless (newException e) := fun _ _ => rfl

theorem upgrade_heedless (o : ObjectId) : Heedless (upgrade o) :=
  .bind (.inspect _) fun _ => .ite (share_heedless _) (newException_heedless _)

theorem intoResult_heedless (h : Handle) : Heedless (intoResult h) :=
  .bind (.inspect _) fun error? => by
    cases error? with
    | none => exact .pure _
    | some e => exact .bind (release_heedless h) fun _ => .raise e

theorem fieldOf?_heedless (h : Handle) (i : Nat) : Heedless (fieldOf? h i) := .inspect _

end Run

open Run

/-! Nodes. -/

theorem Knot.value?_heedless (k : Knot) : Heedless k.value? := by
  cases k with
  | unresolved => exact .pure _
  | weak o => exact .bind (upgrade_heedless o) fun _ => .pure _
  | strong h => exact .bind (share_heedless h) fun _ => .pure _

theorem Knot.reduced_heedless (k : Knot) : Heedless k.reduced :=
  .bind k.value?_heedless fun value? => by
    cases value? with
    | none => exact newException_heedless _
    | some h => exact .pure _

theorem Application.snapshot_heedless (a : Application) : Heedless a.snapshot := by
  cases a with
  | pending f x => exact .bind (share_heedless f) fun _ => .bind (share_heedless x) fun _ => .pure _
  | reduced r => exact .bind (share_heedless r) fun _ => .pure _
  | knot k => exact .bind k.reduced_heedless fun _ => .pure _

theorem Application.knotValue?_heedless (a : Application) : Heedless a.knotValue? := by
  cases a with
  | knot k => exact k.value?_heedless
  | pending f x => exact .pure _
  | reduced r => exact .pure _

theorem Application.duplicate_heedless (a : Application) : Heedless a.duplicate := by
  cases a with
  | pending f x => exact .bind (share_heedless f) fun _ => .bind (share_heedless x) fun _ => .pure _
  | reduced r => exact .bind (share_heedless r) fun _ => .pure _
  | knot k =>
    cases k with
    | unresolved => exact .pure _
    | weak o => exact .bind (.change _) fun _ => .pure _
    | strong h => exact .bind (share_heedless h) fun _ => .pure _

namespace Run

theorem store_heedless (node : ObjectId) (result : Handle) : Heedless (store node result) :=
  .bind (.inspect _) fun kind? => by
    match kind?.bind ObjectKind.application? with
    | some (.pending f x) =>
      exact .bind (share_heedless _) fun _ => .bind (.change _) fun _ =>
        .bind (release_heedless f) fun _ => .bind (release_heedless x) fun _ => .pure _
    | some (.reduced first) =>
      exact .bind (share_heedless first) fun _ => .bind (release_heedless _) fun _ => .pure _
    | some (.knot k) =>
      exact .bind k.reduced_heedless fun _ => .bind (release_heedless _) fun _ => .pure _
    | none => exact .pure _

theorem resolve_heedless (node : ObjectId) (value : Handle) : Heedless (resolve node value) :=
  .bind (.inspect _) fun kind? => by
    match kind?.bind ObjectKind.application? with
    | some (.knot .unresolved) =>
      refine .bind (.inspect _) fun _ => .ite ?_ (.ite ?_ ?_)
      · exact .bind (share_heedless value) fun _ => .bind (.pure _) fun _ => .change _
      · exact .bind (.pure _) fun _ => .change _
      · exact .bind (.change _) fun _ => .bind (.pure _) fun _ => .change _
    | some (.knot (.weak o)) | some (.knot (.strong h)) | some (.pending f x) | some (.reduced r)
    | none => exact .pure _

end Run

/-! Thunks. -/

namespace ThunkId

theorem state?_heedless (t : ThunkId) : Heedless t.state? := .inspect _

theorem keep_heedless (t : ThunkId) (value : Handle) : Heedless (t.keep value) :=
  .bind t.state?_heedless fun state? => by
    match state? with
    | some (.forced first) =>
      exact .bind (share_heedless first) fun _ => .bind (release_heedless value) fun _ => .pure _
    | some (.pending suspended) =>
      exact .bind (share_heedless value) fun _ => .bind (.change _) fun _ =>
        .bind (release_heedless suspended) fun _ => .pure _
    | some (.recursive o) | none => exact .pure _

theorem peek_heedless (t : ThunkId) : Heedless t.peek :=
  .bind t.state?_heedless fun state? => by
    match state? with
    | some (.forced h) | some (.pending h) => exact share_heedless h
    | some (.recursive o) => exact upgrade_heedless o
    | none => exact newException_heedless _

theorem copyTarget?_heedless (t : ThunkId) : Heedless t.copyTarget? :=
  .bind t.state?_heedless fun state? => by
    match state? with
    | some (.recursive o) =>
      exact .bind (.inspect _) fun _ => .ite (.bind (share_heedless _) fun _ => .pure _) (.pure _)
    | some (.pending h) =>
      refine .bind (.inspect _) fun a? => ?_
      cases a? with
      | some a => exact a.knotValue?_heedless
      | none => exact .pure _
    | some (.forced h) | none => exact .pure _

theorem forCopy_heedless (t : ThunkId) : Heedless t.forCopy :=
  .bind t.copyTarget?_heedless fun target? => by
    cases target? with
    | some target => exact .add _
    | none => exact .bind (.change _) fun _ => .pure _

end ThunkId

/-! Closures. -/

theorem Closure.copy_heedless (c : Closure) : Heedless c.copy := by
  refine .bind (.mapM (fun slot => ?_) _) fun _ =>
    .bind (.change _) fun _ => .bind ?_ fun _ => .pure _
  · cases slot with
    | some t => exact .bind t.forCopy_heedless fun _ => .pure _
    | none => exact .pure _
  · cases c.memo with
    | done h => exact .bind (share_heedless h) fun _ => .pure _
    | empty => exact .pure _
    | running => exact .pure _

namespace Run

theorem bindThunk_heedless (function : Handle) (t : ThunkId) : Heedless (bindThunk function t) :=
  .bind (.inspect _) fun c? => by
    cases c? with
    | none =>
      exact .bind (.inspect _) fun _ => .bind (.change _) fun _ =>
        .bind (release_heedless _) fun _ => .raise _
    | some c =>
      refine .ite ?_ (.bind (.inspect _) fun _ => .bind (.inspect _) fun _ => .ite ?_ ?_)
      · exact .bind (.inspect _) fun _ => .bind (.change _) fun _ =>
          .bind (release_heedless _) fun _ => .raise _
      · exact .bind (.change _) fun _ => .pure _
      · exact .bind c.copy_heedless fun _ => .bind (.add _) fun _ =>
          .bind (release_heedless _) fun _ => .pure _

theorem applyArgument_heedless (function argument : Handle) :
    Heedless (applyArgument function argument) :=
  .bind (.add _) fun t => bindThunk_heedless function t

theorem bindSelf_heedless (function : Handle) : Heedless (bindSelf function) := by
  have hrefuse : Heedless (do
      Run.raise (.badFix (← Run.inspect (·.describe function))) : Run Handle) :=
    .bind (.inspect _) fun _ => .raise _
  refine .bind (.inspect _) fun c? => ?_
  cases c? with
  | none => exact hrefuse
  | some c =>
    exact .ite hrefuse (.bind c.copy_heedless fun _ => .bind (.inspect _) fun _ =>
      .bind (.add _) fun _ => .bind (.add _) fun _ => .bind (.change _) fun _ => .pure _)

theorem cloneObject_heedless (h : Handle) : Heedless (cloneObject h) := by
  have hfinish : ∀ kind, Heedless (cloneObject.finish h kind) := fun _ =>
    .bind (.add _) fun _ => .pure _
  refine .bind (.inspect _) fun kind? => ?_
  match kind? with
  | some (.value v) => exact .bind (.forM (fun _ => .change _) _) fun _ => hfinish _
  | some (.closure c) => exact .bind c.copy_heedless fun _ => hfinish _
  | some (.application a) => exact .bind a.duplicate_heedless fun _ => hfinish _
  | some (.exception e) => exact hfinish _
  | none => exact newException_heedless _

end Run

end GraphReduction
