import Mathlib
import GraphReduction.Session.Run
import GraphReduction.Proofs.Runs.Course
import GraphReduction.Proofs.Session.Producers

/-! What single changes of a heap have in common holds for every session. Each command, answered or
failed, goes by such changes, so commands in any order do. -/
namespace GraphReduction

open Heap

variable {r : Heap → Heap → Prop} [IsCourse r]

namespace Run

theorem shown_along (h : Handle) : Along r (shown h) :=
  .bind (.inspect _) fun _ => .pure _

theorem shownOnce_along (h : Handle) : Along r (shownOnce h) :=
  .bind (shown_along h) fun _ => .bind (release_along h) fun _ => .pure _

theorem shownOnce?_along (h? : Option Handle) : Along r (shownOnce? h?) := by
  cases h? with
  | none => exact .pure _
  | some h => exact .bind (shownOnce_along h) fun _ => .pure _

theorem nodeView_along (a : Application) : Along r (nodeView a) := by
  refine .bind (a.cached?_along) fun result? => .bind (shownOnce?_along _) fun _ =>
    .bind (a.knotValue?_along) fun value? => .bind (shownOnce?_along _) fun _ =>
      .bind (a.snapshot_along) fun found => ?_
  cases found with
  | pending f x =>
    exact .bind (shownOnce_along f) fun _ => .bind (shownOnce_along x) fun _ =>
      .bind (.pure _) fun _ => .pure _
  | reduced h =>
    exact .bind (shownOnce_along h) fun _ => .bind (.pure _) fun _ => .pure _

theorem view_along (h : Handle) : Along r (view h) := by
  refine .bind (.inspect _) fun c? => ?_
  cases c?
  case' none => refine .bind (.pure _) fun _ => .bind (.inspect _) fun a? => ?_
  case' some c =>
    refine .bind (.inspect _) fun _ => .bind (.pure _) fun _ =>
      .bind (.inspect _) fun a? => ?_
  -- the view of a closure reads the heap only
  all_goals
    cases a? with
    | none =>
      exact .bind (.pure _) fun _ => .bind (shown_along h) fun _ => .inspect _
    | some a =>
      exact .bind (nodeView_along a) fun _ => .bind (.pure _) fun _ =>
        .bind (shown_along h) fun _ => .inspect _

end Run

namespace Step

variable {α β : Type} {act : Step α}

theorem requests_of_machine {machine machine' : Machine} (h : Requests machine machine') (s : Session) :
    Requests { s with machine } { s with machine := machine' } := by
  intro hdrawn
  obtain ⟨hserves, -⟩ := h ⟨hdrawn.generics, by simp [HasHeap.named]⟩
  exact Requests.of_serves hserves rfl hdrawn

omit [IsCourse r] in
theorem run_leads {s : Session} {act : Run α} (h : Leads r s.machine act) : Leads r s (run act) := by
  obtain ⟨machine, handles, thunks, weaks, options, varNames⟩ := s
  obtain ⟨hheap, hrequests⟩ := h
  rw [Leads, run]
  cases hact : act machine with
  | ok a s =>
    rw [hact] at hheap hrequests
    exact ⟨hheap, requests_of_machine hrequests ⟨machine, handles, thunks, weaks, options, varNames⟩⟩
  | error signal s =>
    rw [hact] at hheap hrequests
    exact ⟨hheap, requests_of_machine hrequests ⟨machine, handles, thunks, weaks, options, varNames⟩⟩

omit [IsCourse r] in
theorem run_along {act : Run α} (h : Along r act) : Along r (run act) := fun s =>
  run_leads (h s.machine)

theorem inspect_along (f : Heap → α) : Along r (inspect f) := run_along (.inspect f)

theorem share_along (h : Handle) : Along r (share h) := run_along (Run.share_along h)

theorem release_along (h : Handle) : Along r (release h) := run_along (Run.release_along h)

theorem get_along : Along r (get : Step Session) := fun s => ⟨IsGrowth.refl _, .refl s⟩

theorem modify_along {f : Session → Session}
    (hf : ∀ s, ∃ handles thunks weaks, f s = { s with handles, thunks, weaks }) :
    Along r (modify f : Step Unit) := by
  intro s
  obtain ⟨handles, thunks, weaks, heq⟩ := hf s
  have hrun : (modify f : Step Unit) s = .ok () { s with handles, thunks, weaks } :=
    congrArg _ heq
  rw [Leads, hrun]
  exact ⟨IsGrowth.refl _, .of_serves (Std.Refl.refl _) rfl⟩

theorem require_along (a? : Option α) (failure : Failure) : Along r (require a? failure) := by
  cases a? with
  | none => exact .throw _
  | some a => exact .pure a

theorem onFailure_along {cleanUp : Step Unit} (hact : Along r act) (hclean : Along r cleanUp) :
    Along r (onFailure act cleanUp) :=
  .tryCatch hact fun _ => .bind hclean fun _ => .throw _

theorem cleaningUp_along {cleanUp : Step Unit} (hact : Along r act) (hclean : Along r cleanUp) :
    Along r (cleaningUp act cleanUp) :=
  .bind (onFailure_along hact hclean) fun _ => .bind hclean fun _ => .pure _

/-! Operands and results -/

theorem handleIn_along (x : Operand) : Along r (handleIn x) := by
  refine .bind (get_along) fun s => .bind (require_along _ _) fun h => ?_
  dsimp only
  split
  · exact .bind (modify_along fun _ => ⟨_, _, _, rfl⟩) fun _ => .pure h
  · exact .pure h

theorem handleNamed_along (name : String) : Along r (handleNamed name) :=
  .bind (get_along) fun _ => require_along _ _

theorem thunkIn_along (name : String) : Along r (thunkIn name) :=
  .bind (get_along) fun _ => require_along _ _

theorem weakIn_along (name : String) : Along r (weakIn name) :=
  .bind (get_along) fun _ => require_along _ _

theorem taking_along (x : Operand) : Along r (taking x) :=
  .bind (handleIn_along x) fun h => .ite (.pure h) (share_along h)

theorem borrowing_along {x : Operand} {act : Handle → Step α} (hact : ∀ h, Along r (act h)) :
    Along r (borrowing x act) :=
  .bind (handleIn_along x) fun h =>
    .ite (cleaningUp_along (hact h) (release_along h)) (hact h)

theorem keep_along (into : OptionalPart String) (h : Handle) : Along r (keep into h) := by
  refine .bind (onFailure_along (require_along _ _) (release_along h)) fun name? => ?_
  cases name? with
  | none => exact release_along h
  | some name =>
    refine .bind (get_along) fun s => .bind (modify_along fun _ => ⟨_, _, _, rfl⟩) fun _ => ?_
    cases s.handles.lookup name with
    | none => exact .pure _
    | some old => exact release_along old

theorem keepThunk_along (into? : Option String) (t : ThunkId) : Along r (keepThunk into? t) := by
  have hrelease : ∀ t, Along r (run (Run.change (·.releaseThunk t))) := fun t =>
    run_along (Run.releaseThunk_along t)
  refine .bind (onFailure_along (require_along _ _) (hrelease t)) fun name =>
    .bind (get_along) fun s => .bind (modify_along fun _ => ⟨_, _, _, rfl⟩) fun _ => ?_
  cases s.thunks.lookup name with
  | none => exact .pure _
  | some old => exact hrelease old

theorem releaseWeak_along (o : ObjectId) : Along r (run (Run.change (·.releaseWeak o))) :=
  run_along (.change fun m => IsCourse.within (.of_contents (contents_releaseWeak m o)))

theorem keepWeak_along (into? : Option String) (o : ObjectId) : Along r (keepWeak into? o) := by
  refine .bind (onFailure_along (require_along _ _) (releaseWeak_along o)) fun name =>
    .bind (get_along) fun s => .bind (modify_along fun _ => ⟨_, _, _, rfl⟩) fun _ => ?_
  cases s.weaks.lookup name with
  | none => exact .pure _
  | some old => exact releaseWeak_along old

theorem buildType_drawn (e : TyExpr) (s : Session) :
    (ended (buildType e s)).machine.heap = s.machine.heap ∧ Requests s (ended (buildType e s)) ∧
      (HasDrawn s → ∀ t s', buildType e s = .ok t s' → t.Issued s'.machine.vars) := by
  have hbuilds := TyExpr.rules_drawn.yields_build e s.machine.vars
    { supply := { vars := s.machine.vars }, varNames := s.varNames }
  have hget : (get : Step Session) s = .ok s s := rfl
  rcases hrun : e.build.run.run { supply := { vars := s.machine.vars }, varNames := s.varNames }
    with ⟨outcome, scope⟩
  have hend : ended (buildType e s) =
      { s with machine := { s.machine with vars := scope.supply.vars }
               varNames := scope.varNames } := by
    simp only [buildType, Balances.bind_run, hget, hrun]
    rcases outcome with (_ | _ | _) | n <;> rfl
  rw [hrun] at hbuilds
  have hscope (hdrawn : HasDrawn s) := hbuilds
    ⟨rfl, hdrawn.generics, List.forall_mem_map.1 hdrawn.named, by simp⟩
  refine ⟨by rw [hend], fun hdrawn => ?_, fun hdrawn t s' ht => ?_⟩
  · obtain ⟨vars, hserves, hdrawn', -⟩ := hscope hdrawn
    obtain rfl := hdrawn'.supply
    rw [hend]
    exact ⟨hserves, hdrawn'.generics, List.forall_mem_map.2 hdrawn'.names⟩
  · obtain ⟨vars, -, hdrawn', hissued⟩ := hscope hdrawn
    obtain rfl := hdrawn'.supply
    simp only [buildType, Balances.bind_run, hget, hrun] at ht
    rcases outcome with (_ | _ | _) | n
    · cases ht
    · cases ht
    · cases ht
    · cases ht
      exact hissued n rfl

theorem buildType_along (e : TyExpr) : Along r (buildType e) := by
  intro s
  obtain ⟨hheap, hrequests, -⟩ := buildType_drawn e s
  have hsame : r s.machine.heap (ended (buildType e s)).machine.heap := by
    rw [hheap]
    exact IsGrowth.refl _
  exact ⟨hsame, hrequests⟩

theorem closureOf_along (h : Handle) : Along r (closureOf h) :=
  .bind (inspect_along _) fun _ => require_along _ _

theorem applicationOf_along (h : Handle) : Along r (applicationOf h) :=
  .bind (inspect_along _) fun _ => require_along _ _

theorem argumentOf_along (h : Handle) (i : Nat) : Along r (argumentOf h i) :=
  .bind (closureOf_along h) fun _ => require_along _ _

/-! What produces a handle -/

theorem nestLayer_along (f : Handle) (side : NestSide) (inner : Handle) :
    Along r (nestLayer f side inner) :=
  .bind (Run.share_along f) fun f => by
    cases side with
    | argument => exact Run.newApplication_along f inner
    | function => exact Run.newApplication_along inner f
    | bound => exact Run.applyArgument_along f inner
    | paired => exact Run.newValue_along _ _

theorem nestLayers_along (f : Handle) (side : NestSide) (count : Nat) (inner : Handle) :
    Along r (nestLayers f side count inner) := by
  induction count generalizing inner with
  | zero => exact .pure inner
  | succ count ih => exact .bind (nestLayer_along f side inner) fun inner => ih inner

theorem nest_along (f : Handle) (side? : Option NestSide) (count : Nat) (inner : Handle) :
    Along r (nest f side? count inner) := by
  rcases count with _ | count
  · exact .pure inner
  · cases side? with
    | none => exact .bind (release_along inner) fun _ => .throw _
    | some side => exact run_along (nestLayers_along f side _ inner)

theorem firstClosure_along {k : Combinator} (hk : 0 < k.arity) (isStatic : Bool) :
    Along r (do
      let c ← Run.add (·.newCombinator k)
      let kind := .closure (.bare c k.arity)
      if isStatic then Run.add (·.newStatic kind) else Run.newObject kind) := by
  intro s
  cases isStatic with
  | true => exact ⟨IsCourse.declare s.heap .static hk, .of_vars rfl⟩
  | false => exact ⟨IsCourse.declare s.heap (.shared 1 0) hk, .of_vars rfl⟩

theorem declare_along (d : Declaration) : Along r (declare d) := by
  refine .bind (.mapM (handleNamed_along) _) fun captured =>
    .bind (require_along _ _) fun written => .bind (require_along _ _) fun body =>
      .bind (require_along _ _) fun name => .bind
        (.tryCatch (buildType_along d.type) fun failure => ?_) fun type =>
          .bind (require_along _ _) fun arity? =>
            .bind (require_along _ _) fun static? => ?_
  · cases failure <;> exact .throw _
  · cases hdeclare : Combinator.declare name type arity? (.log name body) with
    | error error => exact .throw _
    | ok k =>
      exact run_along (.bind (.forM (Run.retain_along) _) fun _ =>
        firstClosure_along (Combinator.arity_of_declare hdeclare).1 _)

theorem invoke_along {reduce : Reducer} (hreduce : ∀ h, Along r (reduce h)) (h : Handle) :
    Along r (invoke reduce h) :=
  .bind (closureOf_along h) fun _ => .bind (inspect_along _) fun _ =>
    .bind (require_along _ _) fun _ => run_along (Body.run_along hreduce _ _)

theorem memoize_along (v h : Handle) : Along r (memoize v h) := by
  intro s
  refine .bind (onFailure_along (closureOf_along h) (release_along v) s) fun c s₁ hrun => ?_
  obtain ⟨rfl, hclosure⟩ := closureOf_run (onFailure_ok hrun)
  have hset (hmemo : c.memo.result? = none) : Leads r s₁ (do
      let kept ← share v
      run (Run.change (·.setMemo h.target (.done kept)))
      pure v : Step Handle) := by
    refine .bind (share_along v s₁) fun kept s₂ hshare => ?_
    cases hshare
    have hkind : (s₁.machine.heap.retain v).kindOf? h.target = some (.closure c) :=
      (kindOf?_congr (contents_retain _ v) _).trans (kindOf?_of_closure? hclosure)
    exact .bind (run_leads (.change (IsCourse.memoize hkind hmemo v))) fun _ _ _ => .pure v
  cases hmemo : c.memo with
  | done kept =>
    exact (Along.bind (release_along v) fun _ => share_along kept : Along r _) s₁
  | empty => exact hset (by rw [hmemo]; rfl)
  | running => exact hset (by rw [hmemo]; rfl)

theorem reducer_along (options : Options) (choice : ReducerChoice) (h : Handle) :
    Along r (choice.reducer options h) := by
  cases choice with
  | leaveAsIs => exact Run.share_along h
  | evaluator => exact Evaluator.reduceUpTo_along options _ h

theorem evaluate_along (options : Options) (h : Handle) (mode : EvalMode) :
    Along r (mode.evaluate options h) := by
  cases mode with
  | tagged catchPanics checkResults => exact Evaluator.reduceUpTo_along _ _ h
  | result catchPanics checkResults => exact Evaluator.evaluateToResult_along _ h
  | defaultTagged => exact Evaluator.reduceUpTo_along _ _ h
  | defaultResult => exact Evaluator.evaluateToResult_along _ h

theorem releaseMoved_along (x : Operand) (h : Handle) :
    Along r (if x.moved then release h else pure () : Step Unit) :=
  .ite (release_along h) (.pure _)

end Step

open Step

theorem Producer.run_along_of_ne (p : Producer) (hp : ∀ type payload?, p ≠ .box type payload?) :
    Along r p.run := by
  cases p with
  | literal l =>
    cases l with
    | int n => exact Step.run_along (Run.newValue_along _ _)
    | bool b => exact Step.run_along (Run.newValue_along _ _)
    | str t => exact Step.run_along (Run.newValue_along _ _)
  | primitive p => exact share_along _
  | tracked counter =>
    have hmention : Along r (Run.change (·.mentionCounter counter)) :=
      .change fun m => IsCourse.within (.of_contents rfl)
    exact Step.run_along (.bind hmention fun _ => Run.newValue_along _ _)
  | pair a b =>
    exact .bind (taking_along a) fun a =>
      .bind (onFailure_along (taking_along b) (release_along a)) fun _ =>
        Step.run_along (Run.newValue_along _ _)
  | box type payload? => exact absurd rfl (hp type payload?)
  | declare d => exact declare_along d
  | exception error => exact Step.run_along (Run.newException_along error)
  | staticException error => exact Step.run_along (Run.newStatic_along (by trivial))
  | apply f x =>
    exact .bind (taking_along f) fun f =>
      .bind (onFailure_along (taking_along x) (release_along f)) fun _ =>
        Step.run_along (Run.newApplication_along _ _)
  | knot => exact Step.run_along (Run.newObject_along (by trivial))
  | nest f x count side? =>
    exact .bind (taking_along f) fun f => cleaningUp_along
      (.bind (taking_along x) fun _ => nest_along f side? count _) (release_along f)
  | copy x => exact taking_along x
  | untag x => exact borrowing_along fun h => share_along _
  | clone x => exact borrowing_along fun h => Step.run_along (Run.cloneObject_along h)
  | intoResult x =>
    exact .bind (taking_along x) fun h => Step.run_along (Run.intoResult_along h)
  | field x i =>
    refine borrowing_along fun h => .bind (Step.run_along (.inspect _)) fun part? => ?_
    cases part? with
    | none => exact .throw _
    | some part => exact share_along part
  | upgrade w =>
    exact .bind (weakIn_along w) fun o => .bind (inspect_along _) fun _ =>
      .ite (share_along _) (.throw _)
  | bindSelf x => exact borrowing_along fun h => Step.run_along (Run.bindSelf_along h)
  | argument x i =>
    exact borrowing_along fun h => .bind (argumentOf_along h i) fun t =>
      Step.run_along (t.peek_along)
  | memo x =>
    refine borrowing_along fun h => .bind (closureOf_along h) fun c => ?_
    cases c.memo with
    | done kept => exact share_along kept
    | empty => exact .throw _
    | running => exact .throw _
  | memoize v x =>
    exact .bind (taking_along v) fun v =>
      .bind (onFailure_along (handleIn_along x) (release_along v)) fun h =>
        cleaningUp_along (memoize_along v h) (releaseMoved_along x h)
  | invoke reducer x =>
    exact borrowing_along fun h => .bind (get_along) fun s =>
      invoke_along (reducer_along s.options reducer) h
  | store v x =>
    exact .bind (taking_along v) fun v =>
      .bind (onFailure_along (handleIn_along x) (release_along v)) fun h =>
        cleaningUp_along
          (.bind (onFailure_along (applicationOf_along h) (release_along v)) fun _ =>
            Step.run_along (Run.store_along _ v))
          (releaseMoved_along x h)
  | cached x =>
    exact borrowing_along fun h => .bind (applicationOf_along h) fun a =>
      .bind (Step.run_along (a.cached?_along)) fun _ => require_along _ _
  | knotValue x =>
    exact borrowing_along fun h => .bind (applicationOf_along h) fun a =>
      .bind (Step.run_along (a.knotValue?_along)) fun _ => require_along _ _
  | functionPart x | argumentPart x =>
    refine borrowing_along fun h => .bind (applicationOf_along h) fun a => ?_
    cases a with
    | pending f x => exact share_along _
    | reduced result => exact .throw _
    | knot k => exact .throw _
  | eval x mode =>
    exact borrowing_along fun h => .bind (get_along) fun s =>
      Step.run_along (evaluate_along s.options h mode)
  | peek t => exact .bind (thunkIn_along t) fun i => Step.run_along (i.peek_along)
  | force t reducer =>
    exact .bind (thunkIn_along t) fun i => .bind (get_along) fun s =>
      Step.run_along (i.force_along (reducer_along s.options reducer))

namespace Step

theorem showAndKeep_along (into : OptionalPart String) (h : Handle) :
    Along r (showAndKeep into h) :=
  .bind (run_along (Run.shown_along h)) fun _ =>
    .bind (keep_along into h) fun _ => .pure _

theorem lookAt_along (use : RegisterUse) : Along r (lookAt use) := by
  cases use with
  | handle x => exact borrowing_along fun _ => .pure _
  | plainHandle name => exact .bind (handleNamed_along name) fun _ => .pure _
  | thunk name => exact .bind (thunkIn_along name) fun _ => .pure _
  | weak name => exact .bind (weakIn_along name) fun _ => .pure _

theorem newThunk_along (kind : ThunkChoice) (h : Handle) : Along r (newThunk kind h) := by
  cases kind with
  | pending | forced =>
    exact .bind (share_along h) fun h => run_along (Run.newThunk_along _)
  | recursive =>
    exact .bind (inspect_along _) fun _ => .ite (.throw _)
      (run_along (.bind (Run.retainWeak_along _) fun _ => Run.newThunk_along _))

theorem clear_along : Along r clear := by
  intro s
  refine .bind (get_along s) fun s' s₁ hget => ?_
  cases hget
  refine .bind ⟨IsGrowth.refl _, .of_serves (Std.Refl.refl _) rfl⟩ fun _ s₁ _ => ?_
  exact (Along.bind (.forM (fun _ => run_along (Run.releaseThunk_along _)) _) fun _ =>
    .forM (fun _ => release_along _) _ : Along r _) s₁

end Step

theorem Command.produce_leads {s : Session} {p : Producer} (hproduce : Leads r s p.run)
    (into : OptionalPart String) : Leads r s (produce p into).run :=
  .bind hproduce fun h s' _ =>
    (Along.bind (showAndKeep_along into h) fun _ => .pure _ : Along r _) s'

theorem Command.run_along_of_ne (c : Command) (hc : ∀ p into, c ≠ .produce p into) :
    Along r c.run := by
  cases c with
  | produce p into => exact absurd rfl (hc p into)
  | bind f x into =>
    exact .bind (taking_along f) fun f =>
      .bind (onFailure_along (taking_along x) (release_along f)) fun x =>
        .bind (Step.run_along (Run.applyArgument_along f x)) fun h =>
          .bind (showAndKeep_along into h) fun _ => .pure _
  | resolve v x =>
    exact .bind (taking_along v) fun v => cleaningUp_along
      (borrowing_along fun h => .bind (applicationOf_along h) fun _ =>
        .bind (Step.run_along (Run.resolve_along _ v)) fun _ =>
          .bind (Step.run_along (Run.shown_along h)) fun _ => .pure _)
      (release_along v)
  | options => exact .bind (get_along) fun _ => .pure _
  | thunk kind x into? =>
    exact borrowing_along fun h => .bind (Step.newThunk_along kind h) fun t =>
      .bind (inspect_along _) fun _ => .bind (keepThunk_along into? t) fun _ =>
        .pure _
  | argumentThunk x i into? =>
    exact borrowing_along fun h => .bind (argumentOf_along h i) fun t =>
      .bind (Step.run_along (t.share_along)) fun t => .bind (inspect_along _) fun _ =>
        .bind (keepThunk_along into? t) fun _ => .pure _
  | thunkInfo t =>
    exact .bind (thunkIn_along t) fun i => .bind (inspect_along _) fun _ =>
      .bind (Step.run_along (.inspect _)) fun _ => .bind (inspect_along _) fun _ =>
        .pure _
  | sameThunk a b =>
    exact .bind (thunkIn_along a) fun _ => .bind (thunkIn_along b) fun _ => .pure _
  | dropThunk t =>
    exact .bind (thunkIn_along t) fun i => .bind (modify_along fun _ => ⟨_, _, _, rfl⟩) fun _ =>
      .bind (Step.run_along (Run.releaseThunk_along i)) fun _ => .pure _
  | view x =>
    exact borrowing_along fun h => .bind (Step.run_along (Run.view_along h)) fun _ =>
      .pure _
  | refs x => exact borrowing_along fun h => .bind (inspect_along _) fun _ => .pure _
  | same a b =>
    exact .bind (taking_along a) fun h =>
      cleaningUp_along (borrowing_along fun _ => .pure _) (release_along h)
  | weak x into? =>
    exact borrowing_along fun h => .bind (inspect_along _) fun _ => .ite (.pure _)
      (.bind (Step.run_along (Run.retainWeak_along h.target)) fun _ =>
        .bind (keepWeak_along into? h.target) fun _ => .pure _)
  | isAlive w =>
    exact .bind (weakIn_along w) fun _ => .bind (inspect_along _) fun _ => .pure _
  | typeOf x asEvalError =>
    refine borrowing_along fun h => .bind (Step.run_along (Run.typeOf_along h))
      fun outcome => ?_
    cases outcome with
    | ok t => exact .pure _
    | error error => exact .throw _
  | drop name =>
    exact .bind (handleNamed_along name) fun h => .bind (modify_along fun _ => ⟨_, _, _, rfl⟩)
      fun _ => .bind (release_along h) fun _ => .pure _
  | clear => exact .bind (clear_along) fun _ => .pure _
  | drops => exact .bind (inspect_along _) fun _ => .pure _
  | malformed registers =>
    exact .bind (.forM (lookAt_along) registers) fun _ => .throw _

theorem Session.step_state (s : Session) (c : Command) : (s.step c).2.2 = ended (c.run s) := by
  rw [step]
  cases c.run s <;> rfl

/-- A session can box values, and their types can have variables. -/
class Heap.IsHistory (r : Heap → Heap → Prop) : Prop extends IsCourse r where
  box (m : Heap) (v : Boxed) : r m (m.newObject (.value v)).2

section

variable {r : Heap → Heap → Prop} [IsHistory r]

theorem Run.box_along (type : Ty) (payload : Payload) : Along r (Run.newValue type payload) := by
  intro s
  show Leads r s (Run.newObject (.value ⟨type, payload⟩))
  exact .add (IsHistory.box s.heap _)

theorem Producer.run_along (p : Producer) : Along r p.run := by
  by_cases hp : ∀ type payload?, p ≠ .box type payload?
  · exact p.run_along_of_ne hp
  · push Not at hp
    obtain ⟨type, payload?, rfl⟩ := hp
    exact .bind (buildType_along type) fun _ => .bind (require_along _ _) fun _ =>
      Step.run_along (Run.box_along _ _)

theorem Command.run_along (c : Command) : Along r c.run := by
  by_cases hc : ∀ p into, c ≠ .produce p into
  · exact c.run_along_of_ne hc
  · push Not at hc
    obtain ⟨p, into, rfl⟩ := hc
    exact fun s => produce_leads (p.run_along s) into

namespace Session

theorem step_along (s : Session) (c : Command) :
    r s.machine.heap (s.step c).2.2.machine.heap := by
  rw [step_state]
  exact (c.run_along s).1

theorem runAll_along (s : Session) (cs : List Command) :
    r s.machine.heap (s.runAll cs).2.machine.heap :=
  List.foldlRecOn cs _
    (motive := fun reached : List (Except Failure Answer × List String) × Session =>
      r s.machine.heap reached.2.machine.heap)
    (IsGrowth.refl _) fun reached hreached c _ => IsGrowth.trans hreached (reached.2.step_along c)

end Session

end

end GraphReduction
