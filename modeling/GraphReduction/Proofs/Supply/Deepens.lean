import Mathlib
import GraphReduction.Proofs.Supply.Accepts

/-! More layers, and results accepted more often. Where one reducer follows another on the same supply,
so do bodies, whatever they are, and layers over them. So evaluation with more layers follows
evaluation with fewer: it ends in the same way, unless the layers were too few. It also follows
evaluation with fewer variables for a check. -/
namespace GraphReduction

open Run

variable {α : Type} {s : Machine} {reduce reduce' : Reducer}

/-- The second reducer ends as the first one does, unless that one gives up. -/
def Reducer.Deepens (reduce reduce' : Reducer) : Prop :=
  ∀ h s, Follows .none s (reduce h) (reduce' h)

theorem Reducer.Deepens.ok {h r : Handle} {s' : Machine} (hreduce : reduce.Deepens reduce')
    (hrun : reduce h s = .ok r s') : reduce' h s = .ok r s' := by
  refine ((hreduce h s).eq_of_none ?_).trans hrun
  rintro ⟨s₁, hgives⟩
  cases hrun.symm.trans hgives

theorem Args.pair_deepens (hreduce : reduce.Deepens reduce') (args : Args) (i : Nat) :
    Follows .none s (args.pair reduce i) (args.pair reduce' i) := by
  refine .bind (args.force_follows hreduce i) fun h _ => Heedless.follows (.bind (.inspect _) fun v? => ?_)
  have hrefuse : Heedless (do
      let actual ← Run.inspect (·.describe h)
      release h
      Run.raise (.typeMismatch TypeName.pair.text actual) : Run (Handle × Handle)) :=
    .bind (.inspect _) fun _ => .bind (release_heedless h) fun _ => .raise _
  match v?.map Boxed.payload with
  | some (.pair first second) =>
    exact .bind (share_heedless first) fun _ => .bind (share_heedless second) fun _ =>
      .bind (release_heedless h) fun _ => .pure _
  | some (.int n) | some (.bool b) | some (.str t) | some (.tracked c) | none =>
    exact hrefuse

/-- What a signal is caught for, where both reducers go on in the same way. -/
theorem Run.Follows.recover {act act' other other' : Run α} (h : Follows .none s act act')
    (hother : ∀ s', Follows .none s' other other') :
    Follows .none s
      (MonadExcept.tryCatch act fun
        | .raised _ => other
        | signal => throw signal)
      (MonadExcept.tryCatch act' fun
        | .raised _ => other'
        | signal => throw signal) := by
  refine .tryCatch h (fun s' => ⟨s', rfl⟩) (fun s' => ⟨s', rfl⟩) fun signal s' => ?_
  cases signal with
  | raised e => exact hother s'
  | panicked p => exact (Heedless.throw _).follows
  | exhausted => exact (Heedless.throw _).follows

theorem Body.run_deepens (hreduce : reduce.Deepens reduce') (args : Args) (b : Body Handle) :
    Follows .none s (b.run reduce args) (b.run reduce' args) := by
  induction b generalizing s with
  | «lazy» i => exact (Heedless.bind (args.thunk_heedless i) fun t => t.peek_heedless).follows
  | length | isEmpty | name | int | bool | str => exact (newValue_heedless _ _).follows
  | primitive | captured => exact (share_heedless _).follows
  | raise e => exact (Heedless.raise e).follows
  | panic p => exact (Heedless.throw _).follows
  | force i => exact args.force_follows hreduce i
  | value type i =>
    cases type with
    | int | bool | str =>
      exact .bind (args.unbox_follows hreduce ..) fun _ _ => (newValue_heedless _ _).follows
    | pair => exact .bind (args.pair_deepens hreduce i) fun _ _ => (newPair_heedless _ _).follows
  | apply f x ihf ihx =>
    exact .bind ihf fun _ _ => .bind ihx.releasingOnSignal fun _ _ =>
      (newApplication_heedless _ _).follows
  | bind f x ihf ihx =>
    exact .bind ihf fun _ _ => .bind ihx.releasingOnSignal fun _ _ =>
      (applyArgument_heedless _ _).follows
  | pair a b iha ihb =>
    exact .bind iha fun _ _ => .bind ihb.releasingOnSignal fun _ _ =>
      (newPair_heedless _ _).follows
  | field i e ih =>
    refine .bind ih fun h _ => .releasing (Heedless.follows ?_)
    refine .bind (fieldOf?_heedless h i) fun part? => ?_
    cases part? with
    | some part => exact share_heedless part
    | none => exact .raise _
  | eval e ih =>
    exact .bind ih fun h _ => .releasing (.bind (hreduce h _) fun r _ =>
      (intoResult_heedless r).follows)
  | clone e ih => exact .bind ih fun h _ => .releasing (cloneObject_heedless h).follows
  | bindSelf e ih => exact .bind ih fun h _ => .releasing (bindSelf_heedless h).follows
  | typeOf e ih =>
    exact .bind ih fun h _ => .releasing (.bind (.refl _ _) fun _ _ =>
      (newValue_heedless _ _).follows)
  | seq a b iha ihb => exact .bind iha fun h _ => .bind (release_heedless h).follows fun _ _ => ihb
  | recover a b iha ihb => exact .recover iha fun _ => ihb
  | log text e ih => exact .bind (Heedless.note text).follows fun _ _ => ih
  | compare how i n yes no ihyes ihno =>
    exact .bind (args.unbox_follows hreduce ..) fun _ _ => .ite (fun _ => ihyes) fun _ => ihno
  | cond i yes no ihyes ihno =>
    exact .bind (args.unbox_follows hreduce ..) fun _ _ => .ite (fun _ => ihyes) fun _ => ihno
  | arith op =>
    refine .bind (args.unbox_follows hreduce ..) fun a _ =>
      .bind (args.unbox_follows hreduce ..) fun b _ => Heedless.follows ?_
    cases op.result? a b with
    | some n => exact newValue_heedless _ _
    | none => exact .raise _
  | test how =>
    exact .bind (args.unbox_follows hreduce ..) fun _ _ =>
      .bind (args.unbox_follows hreduce ..) fun _ _ => (newValue_heedless _ _).follows
  | fail i => exact .bind (args.unbox_follows hreduce ..) fun _ _ => (Heedless.raise _).follows
  | tie => exact .bind (args.force_follows hreduce 0) fun f _ => tie_follows hreduce f

namespace Evaluator

variable {options : Options}

theorem invoke_deepens (hreduce : reduce.Deepens reduce') (o : ObjectId) (c : Closure) :
    Follows .none s (invoke options reduce o c) (invoke options reduce' o c) := by
  refine .bind (Heedless.event _).follows fun _ _ =>
    .bind (Heedless.inspect _).follows fun held? _ => ?_
  cases held? with
  | none => exact (newException_heedless _).follows
  | some held =>
    refine .bind (.tryCatch (.bind (Body.run_deepens hreduce _ _) fun _ _ =>
      (Heedless.pure _).follows) (fun s' => ⟨s', rfl⟩) (fun s' => ⟨s', rfl⟩)
      fun signal _ => Heedless.follows ?_)
      fun outcome _ => Heedless.follows (.bind (.event _) fun _ => ?_)
    · cases signal with
      | raised e => exact .pure _
      | panicked p => exact .ite (.pure _) (.throw _)
      | exhausted => exact .throw _
    · cases outcome with
      | ok h => exact .pure h
      | error e => exact newException_heedless e

theorem tryApply_heedless (function argument : Handle) : Heedless (tryApply function argument) := by
  refine .tryCatch (.bind (applyArgument_heedless _ _) fun _ => .pure _) fun signal => ?_
  cases signal with
  | raised e => exact .pure _
  | panicked p => exact .throw _
  | exhausted => exact .throw _

section Accepts

variable {accept accept' : Handle → Handle → Run Handle}
  (haccept : ∀ closure result s, Follows .none s (accept closure result) (accept' closure result))
  (hreduce : reduce.Deepens reduce')
include haccept hreduce

theorem computeBy_deepens (closure : Handle) (c : Closure) :
    Follows .none s (computeBy accept options reduce closure c)
      (computeBy accept' options reduce' closure c) :=
  .bind (invoke_deepens hreduce _ c) fun raw _ => .releasing (.bind (hreduce raw _)
    fun result _ => haccept closure result _)

theorem resultBy_deepens (closure : Handle) (c : Closure) :
    Follows .none s (resultBy accept options reduce closure c)
      (resultBy accept' options reduce' closure c) := by
  rw [resultBy, resultBy]
  cases c.memo with
  | done h => exact (share_heedless h).follows
  | running => exact (Heedless.throw _).follows
  | empty =>
    refine .bind (Heedless.change _).follows fun _ _ => .bind (.tryCatch
      (computeBy_deepens haccept hreduce closure c) (fun s' => ⟨_, rfl⟩) (fun s' => ⟨_, rfl⟩)
      fun signal _ => ?_) fun value _ => ?_
    · exact (Heedless.bind (.change _) fun _ => .throw _).follows
    · exact (Heedless.bind (share_heedless value) fun _ =>
        .bind (.change _) fun _ => .pure value).follows

theorem applyReducedBy_deepens (function argument : Handle) :
    Follows .none s (applyReducedBy accept options reduce function argument)
      (applyReducedBy accept' options reduce' function argument) := by
  refine .ite (fun _ => (Heedless.bind (release_heedless argument) fun _ => .pure function).follows)
    fun _ => .bind (tryApply_heedless _ _).follows fun outcome _ => ?_
  cases outcome with
  | error e => exact (newException_heedless e).follows
  | ok bound =>
    refine .bind (Heedless.inspect _).follows fun c? _ => ?_
    cases c? with
    | none => exact (Heedless.pure bound).follows
    | some c =>
      exact .ite (fun _ => .releasing (resultBy_deepens haccept hreduce bound c))
        fun _ => (Heedless.pure bound).follows

theorem applicationBy_deepens (function argument : Handle) :
    Follows .none s (applicationBy accept options reduce function argument)
      (applicationBy accept' options reduce' function argument) :=
  .bind (hreduce function _).releasingOnSignal fun g _ =>
    applyReducedBy_deepens haccept hreduce g argument

theorem reduceOnceBy_deepens : Reducer.Deepens (reduceOnceBy accept options reduce)
    (reduceOnceBy accept' options reduce') := by
  intro h s
  refine .ite (fun _ => .bind (Heedless.inspect _).follows fun kind? _ => ?_)
    fun _ => (share_heedless h).follows
  match kind? with
  | some (.application a) =>
    refine .bind a.snapshot_heedless.follows fun found _ => ?_
    cases found with
    | reduced r => exact (Heedless.pure r).follows
    | pending f x =>
      exact .releasing (.bind (applicationBy_deepens haccept hreduce f x) fun r _ =>
        (store_heedless _ r).follows)
  | some (.closure c) =>
    exact .ite (fun _ => resultBy_deepens haccept hreduce h c) fun _ => (share_heedless h).follows
  | some (.value v) | some (.exception e) | none => exact (share_heedless h).follows

end Accepts

theorem reduceOnce_deepens (hreduce : reduce.Deepens reduce') :
    Reducer.Deepens (reduceOnce options reduce) (reduceOnce options reduce') :=
  reduceOnceBy_deepens (fun _ _ _ => .refl _ _) hreduce

/-- With more layers evaluation ends in the same way. -/
theorem reduceUpTo_deepens (options : Options) {depth depth' : Nat} (hdepth : depth ≤ depth') :
    Reducer.Deepens (reduceUpTo options depth) (reduceUpTo options depth') := by
  induction depth generalizing depth' with
  | zero => exact fun h s => .of_givesUp ⟨s, rfl⟩
  | succ depth ih =>
    obtain ⟨depth', rfl⟩ : ∃ k, depth' = k + 1 := ⟨depth' - 1, by omega⟩
    exact reduceOnce_deepens (ih (by omega))

/-- What was returned is returned with more layers. -/
theorem reduceUpTo_mono {h r : Handle} {s' : Machine} {depth depth' : Nat}
    (hrun : reduceUpTo options depth h s = .ok r s') (hdepth : depth ≤ depth') :
    reduceUpTo options depth' h s = .ok r s' :=
  (reduceUpTo_deepens options hdepth).ok hrun

end Evaluator

end GraphReduction
