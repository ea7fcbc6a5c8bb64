import Mathlib
import GraphReduction.Proofs.Contexts.Aftermath
import GraphReduction.Proofs.Tags.Reduction
import GraphReduction.Proofs.Labels.Demand

/-! How an error gets out of a computation. What carries it comes back from a demand, and is raised
where the demand was an argument of a body; where the body ends, it is in a new object. Whatever is
done on the way out leaves what has been settled alone. -/
namespace GraphReduction

open Heap Run

variable {α β : Type} {s s' : Machine} {m m' : Heap} {rest : Multiset Holding} {c : Closure}
  {h r y raw : Handle} {t : ThunkId} {o : ObjectId} {p : Primitive} {e : EvalError}
  {reduce : Reducer} {options : Options} {args : Args} {act : Run Handle}

/-- What is returned has carried the error since some heap on the way, and what was settled in `m` is
as it was. -/
def Carries (m : Heap) (e : EvalError) (result : EStateM.Result Signal Machine Handle) : Prop :=
  ∃ m' r s', m.Rests m' ∧ m'.error? r = some e ∧ m'.Rests s'.heap ∧ result = .ok r s'

/-- The error is raised, and what was settled in `m` is as it was. -/
def Raises (m : Heap) (e : EvalError) (result : EStateM.Result Signal Machine α) : Prop :=
  ∃ s', m.Rests s'.heap ∧ result = .error (.raised e) s'

theorem Heap.isException_of_error? (herror : m.error? r = some e) : r.isException = true := by
  by_contra hne
  have htag : r.tag ≠ .exception := by simpa [Handle.isException] using hne
  simp [Heap.error?, htag] at herror

namespace Carries

theorem of_ok (herror : s'.heap.error? r = some e) : Carries s'.heap e (.ok r s') :=
  ⟨s'.heap, r, s', .refl _, herror, .refl _, rfl⟩

theorem after {result : EStateM.Result Signal Machine Handle} (hrests : m.Rests m')
    (h : Carries m' e result) : Carries m e result := by
  obtain ⟨m₁, r, s', hbefore, herror, hafter, hrun⟩ := h
  exact ⟨m₁, r, s', hrests.trans hbefore, herror, hafter, hrun⟩

theorem onward {result : EStateM.Result Signal Machine Handle} (h : Carries m e (act s))
    (hnext : ∀ r s₁, act s = .ok r s₁ → r.isException = true →
      ∃ s₂, s₁.heap.Rests s₂.heap ∧ result = .ok r s₂) : Carries m e result := by
  obtain ⟨m₁, r, s₁, hbefore, herror, hafter, hrun⟩ := h
  obtain ⟨s₂, hrests, hend⟩ := hnext r s₁ hrun (isException_of_error? herror)
  exact ⟨m₁, r, s₂, hbefore, herror, hafter.trans hrests, hend⟩

theorem releasing (h : Carries m e (act s)) (x : Handle) :
    Carries m e (Run.releasing x act s) :=
  h.onward fun r s₁ hrun _ => ⟨s₁.on (·.release x), .release _ x, by rw [releasing_run, hrun]; rfl⟩

theorem newException (s : Machine) (e : EvalError) :
    Carries s.heap e (Run.newException e s) := by
  refine ⟨(s.heap.newObject (.exception e)).2, ⟨.exception, s.heap.nextObject⟩,
    s.on fun m => (m.newObject (.exception e)).2, .newObject _ _, ?_, .refl _, rfl⟩
  have hlook : (s.heap.newObject (.exception e)).2.kind? ⟨.exception, s.heap.nextObject⟩ =
      some (.exception e) := (kindOf?_newObject ..).trans (if_pos rfl)
  rw [Heap.error?, if_pos rfl, hlook]
  rfl

end Carries

namespace Raises

theorem bind {act : Run α} {next : α → Run β} (h : Raises m e (act s)) :
    Raises m e ((act >>= next) s) := by
  obtain ⟨s', hafter, hrun⟩ := h
  exact ⟨s', hafter, by rw [bind_run, hrun]⟩

end Raises

theorem Carries.intoResult (h : Carries m e (act s))
    (hlive : ∀ r s', act s = .ok r s' → s'.heap.IsLive r.edge) :
    Raises m e ((act >>= Run.intoResult) s) := by
  obtain ⟨m₁, r, s₁, hbefore, herror, hafter, hrun⟩ := h
  have hcarried := hafter.settles.error? herror (hlive r s₁ hrun)
  refine ⟨s₁.on (·.release r), (hbefore.trans hafter).trans (.release _ r), ?_⟩
  rw [bind_run, hrun]
  simp only [Run.intoResult, bind_run, inspect_run, hcarried, release_run, raise_run]
  rfl

/-! Arguments on demand -/

theorem ThunkId.force_carries (hstate : s.heap.stateOf? t = some (.pending y))
    (hreduce : Carries m e (reduce y (s.on (·.retain y))))
    (hkept : ∀ r s₁, reduce y (s.on (·.retain y)) = .ok r s₁ →
      s₁.heap.stateOf? t = some (.pending y)) :
    Carries m e (t.force reduce s) := by
  have hlook : t.state? s = .ok (some (.pending y)) s := by rw [state?_run, hstate]
  refine hreduce.onward fun r s₁ hrun _ => ?_
  have hrun' : reduce y { s with heap := s.heap.retain y } = .ok r s₁ := hrun
  have hlook₁ : t.state? s₁ = .ok (some (.pending y)) s₁ := by
    rw [state?_run, hkept r s₁ hrun]
  simp only [force, bind_run, hlook, share_run, releasing_run, inspect_run, hrun']
  by_cases hknot : (s.heap.retain y).isKnot y = true
  · exact ⟨s₁.on (·.release y), .release _ y, by rw [if_pos hknot]; rfl⟩
  · refine ⟨s₁.on fun m => (((m.retain r).setThunkState t (.forced r)).release y).release y, ?_, ?_⟩
    · exact (((Keeps.retain _ r).trans (.setThunkState _ t _)).trans (.release _ y)).trans
        (.release _ y)
    · simp only [if_neg hknot, keep, bind_run, hlook₁, share_run, change_run, release_run, pure_run]
      rfl

namespace Args

theorem force_raises {i : Nat} (ht : args.closure.argument? i = some t)
    (hforce : Carries m e (t.force reduce s)) (hreduce : reduce.Finishes)
    (hup : s.heap.Upright rest) : Raises m e (args.force reduce i s) := by
  rw [force, thunk, ht]
  refine hforce.intoResult fun r s₁ hrun => ?_
  have hleaves := ThunkId.force_leaves (w := t) hreduce hup
  rw [hrun] at hleaves
  exact hleaves.2.1.live (by simp)

theorem lazy_run (reduce : Reducer) {i : Nat} (ht : args.closure.argument? i = some t)
    (hstate : s.heap.stateOf? t = some (.pending y)) :
    (Body.lazy i).run reduce args s = .ok y (s.on (·.retain y)) := by
  have hlook : t.state? s = .ok (some (.pending y)) s := by
    rw [ThunkId.state?_run, hstate]
  simp only [Body.run, thunk, ht, bind_run, pure_run, ThunkId.peek, hlook, share_run]
  rfl

end Args

/-- Whatever it returns unevaluated, a primitive asks for its first argument first. -/
theorem Primitive.body_raises (hforce : Raises m e (args.force reduce 0 s))
    (hstrict : p.body ≠ (.lazy 0 : Body Handle)) : Raises m e (p.body.run reduce args s) := by
  cases p with
  | add | sub | mul | eq | lt | ifThenElse | fail => exact hforce.bind.bind
  | fix => exact hforce.bind
  | identity | constant => exact absurd rfl hstrict

def Primitive.IsOperation (p : Primitive) : Prop :=
  (∃ op, p.body = (.arith op : Body Handle)) ∨ ∃ how, p.body = (.test how : Body Handle)

theorem Primitive.IsOperation.raises {v : Int64} (hp : p.IsOperation)
    (hfirst : args.int reduce 0 s = .ok v s') (hforce : Raises m e (args.force reduce 1 s')) :
    Raises m e (p.body.run reduce args s) := by
  obtain ⟨op, hop⟩ | ⟨how, hhow⟩ := hp
  · rw [hop, Body.run, bind_run, hfirst]
    exact hforce.bind.bind
  · rw [hhow, Body.run, bind_run, hfirst]
    exact hforce.bind.bind

theorem Primitive.ifThenElse_run {v : Bool} (hfirst : args.bool reduce 0 s = .ok v s')
    (ht : args.closure.argument? (if v then 1 else 2) = some t)
    (hstate : s'.heap.stateOf? t = some (.pending y)) :
    Primitive.ifThenElse.body.run reduce args s = .ok y (s'.on (·.retain y)) := by
  rw [Primitive.body, Body.run, bind_run, hfirst]
  cases v with
  | true => exact Args.lazy_run reduce ht hstate
  | false => exact Args.lazy_run reduce ht hstate

namespace Evaluator

theorem invoke_ok {k : HeldCombinator} (hk : s.heap.combinator? c.combinator = some k)
    (hbody : k.combinator.body.run reduce ⟨k.combinator.name, c⟩ (s.push (.began o)) = .ok r s') :
    invoke options reduce o c s = .ok r (s'.push (.ended o)) := by
  simp only [invoke, bind_run, event_run, inspect_run, Machine.heap_push, hk, tryCatch_run, hbody,
    pure_run]

theorem invoke_carries {k : HeldCombinator} (hk : s.heap.combinator? c.combinator = some k)
    (hbody : Raises m e (k.combinator.body.run reduce ⟨k.combinator.name, c⟩ (s.push (.began o)))) :
    Carries m e (invoke options reduce o c s) := by
  obtain ⟨s₁, hrests, hrun⟩ := hbody
  have hend := Carries.newException (s₁.push (.ended o)) e
  have hrun' : invoke options reduce o c s = Run.newException e (s₁.push (.ended o)) := by
    simp only [invoke, bind_run, event_run, inspect_run, Machine.heap_push, hk, tryCatch_run, hrun,
      pure_run]
  rw [hrun']
  exact hend.after hrests

theorem accept_exception (hexception : r.isException = true) :
    accept options h r s = .ok r s := by
  simp [accept, hexception]

theorem compute_carries (hinvoke : invoke options reduce h.target c s = .ok raw s')
    (hreduce : Carries m e (reduce raw s')) : Carries m e (compute options reduce h c s) := by
  have hend : Carries m e (Run.releasing raw (reduce raw >>= accept options h) s') := by
    refine .releasing (hreduce.onward fun r s₁ hrun hexception => ⟨s₁, .refl _, ?_⟩) raw
    rw [bind_run, hrun]
    exact accept_exception hexception
  rwa [compute_eq, bind_run, hinvoke]

theorem reduceUpTo_exception {depth : Nat} (hexception : r.isException = true) :
    reduceUpTo options (depth + 1) r s = share r s := by
  have htag : r.tag ≠ .plain := by
    intro h
    simp [Handle.isException, h] at hexception
  rw [reduceUpTo, reduceOnce, if_neg htag]

theorem compute_carries_raised {depth : Nat}
    (hinvoke : Carries m e (invoke options (reduceUpTo options (depth + 1)) h.target c s)) :
    Carries m e (compute options (reduceUpTo options (depth + 1)) h c s) := by
  obtain ⟨m₁, r, s₁, hbefore, herror, hafter, hrun⟩ := hinvoke
  refine compute_carries hrun ⟨m₁, r, s₁.on (·.retain r), hbefore, herror,
    hafter.trans (Keeps.retain _ r), ?_⟩
  rw [reduceUpTo_exception (isException_of_error? herror)]
  rfl

theorem result_carries (hmemo : c.memo = .empty)
    (hcompute : Carries m e (compute options reduce h c (s.on (·.setMemo h.target .running)))) :
    Carries m e (result options reduce h c s) := by
  refine hcompute.onward fun r s₁ hrun _ =>
    ⟨s₁.on fun m => (m.retain r).setMemo h.target (.done r),
      (Keeps.retain _ r).trans (.setMemo _ _ _ nofun), ?_⟩
  have hrun' : compute options reduce h c { s with heap := s.heap.setMemo h.target .running } =
      .ok r s₁ := hrun
  simp only [result, hmemo, bind_run, change_run, tryCatch_run, hrun', share_run, pure_run]
  rfl

end Evaluator

end GraphReduction
