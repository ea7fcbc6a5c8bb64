import Mathlib
import GraphReduction.Proofs.Tags.Bound

/-! A data fixpoint is one shared value. Its body runs once, on a knot that has no value until then;
a demand in the meantime finds a black hole. From the end on the knot stands for the value, whoever
demands it: directly, through an argument that is suspended on it, or through a copy of that. -/
namespace GraphReduction

open Heap Run Relation

variable {s s' s₁ : Machine} {m m' : Heap} {rest : Multiset Holding} {k : ObjectId} {t : ThunkId}
  {c : Closure} {kind : ObjectKind} {function v r : Handle} {options : Options} {depth : Nat}

/-! Knots with a value -/

namespace Evaluator

theorem reduceUpTo_knot (hkind : s.heap.kindOf? k = some kind) (hstands : kind.StandsFor v)
    (hlive : s.heap.IsLive v.edge) (options : Options) (depth : Nat) :
    reduceUpTo options (depth + 1) (.plain k) s =
      .ok v.untagged.asCached (s.on (·.retain v)) := by
  rw [reduceUpTo, reduceOnce_of_kind hkind]
  obtain rfl | rfl := hstands
  · have halive : s.heap.isAlive v.target = true := hlive
    simp only [Application.snapshot, Knot.reduced, Knot.value?, upgrade, Run.bind_run, inspect_run,
      halive, if_true, share_run, Run.pure_run]
    rfl
  · rfl

/-- A demand of a knot without a value finds a black hole and runs nothing. -/
theorem reduceUpTo_unresolved (hkind : s.heap.kindOf? k = some (.application (.knot .unresolved)))
    (options : Options) (depth : Nat) :
    ∃ m, reduceUpTo options (depth + 1) (.plain k) s =
        .ok ⟨.exception, s.heap.nextObject⟩ { s with heap := m } ∧
      m.error? ⟨.exception, s.heap.nextObject⟩ = some .blackHole := by
  refine ⟨(s.heap.newObject (.exception .blackHole)).2, ?_, ?_⟩
  · rw [reduceUpTo, reduceOnce_of_kind hkind]
    rfl
  · simp [error?, kind?, ObjectKind.error?]

end Evaluator

theorem Heap.application?_plain (m : Heap) (o : ObjectId) :
    m.application? (.plain o) = (m.kindOf? o).bind ObjectKind.application? := rfl

namespace ThunkId

/-- An argument that is suspended on the knot is not evaluated for good: each demand looks through the
knot. -/
theorem force_knot (hstate : s.heap.stateOf? t = some (.pending (.plain k)))
    (hkind : s.heap.kindOf? k = some kind) (hstands : kind.StandsFor v)
    (hlive : s.heap.IsLive v.edge) (options : Options) (depth : Nat) :
    ∃ m, t.force (Evaluator.reduceUpTo options (depth + 1)) s =
      .ok v.untagged.asCached { s with heap := m } := by
  have hsame := contents_retain s.heap (.plain k)
  have hkind' : (s.heap.retain (.plain k)).kindOf? k = some kind :=
    (kindOf?_congr hsame k).trans hkind
  have hknot : (s.heap.retain (.plain k)).isKnot (.plain k) = true := by
    rw [isKnot, application?_plain, hkind']
    obtain rfl | rfl := hstands <;> rfl
  have hreduce := Evaluator.reduceUpTo_knot (s := { s with heap := s.heap.retain (.plain k) })
    hkind' hstands ((isLive_congr hsame _).mpr hlive) options depth
  have hlook : (s.heap.thunk? t).map Thunk.state = some (.pending (.plain k)) := hstate
  rw [force, Run.bind_run, state?, inspect_run]
  dsimp only
  rw [hlook]
  simp only [Run.bind_run, share_run, releasing_run, inspect_run, hknot, if_true, hreduce]
  exact ⟨_, rfl⟩

/-- In a copy of its closure the argument is the value, which the copy owns. -/
theorem forCopy_knot (hstate : s.heap.stateOf? t = some (.pending (.plain k)))
    (hkind : s.heap.kindOf? k = some kind) (hstands : kind.StandsFor v)
    (hlive : s.heap.IsLive v.edge) :
    ∃ t' m, t.forCopy s = .ok t' { s with heap := m } ∧
      m.stateOf? t' = some (.forced v.untagged) := by
  have hlook : (s.heap.thunk? t).map Thunk.state = some (.pending (.plain k)) := hstate
  have halive : s.heap.isAlive v.target = true := hlive
  refine ⟨_, ((s.heap.retain v).newThunk (.forced v.untagged)).2, ?_,
    (stateOf?_newThunk _ _ _).trans (if_pos rfl)⟩
  rw [forCopy, Run.bind_run, copyTarget?, Run.bind_run, state?, inspect_run]
  dsimp only
  rw [hlook]
  dsimp only
  rw [Run.bind_run, inspect_run]
  dsimp only
  rw [application?_plain, hkind]
  obtain rfl | rfl := hstands
  · simp only [Option.bind_some, ObjectKind.application?, Application.knotValue?, Knot.value?,
      upgrade, Run.bind_run, inspect_run, halive, if_true, share_run, Run.pure_run]
    rfl
  · rfl

end ThunkId

/-! The body of a data fixpoint -/

/-- The machine with a new knot that has no value, held twice: for whoever ties it and for the
function that is run on it. -/
def Machine.withKnot (s : Machine) : Machine :=
  (s.on fun m => (m.newObject (.application (.knot .unresolved))).2).on
    (·.retain (.plain s.heap.nextObject))

theorem Heap.Upright.newKnot {own : Multiset Holding} (hup : m.Upright own) :
    (m.newObject (.application (.knot .unresolved))).2.Upright
      ((Handle.plain m.nextObject).holding ::ₘ own) :=
  .newObject (by simpa using hup) (by simp) trivial

namespace Run

/-- Until the value is there, the function is bound to the knot and what comes of that is evaluated. -/
theorem untilValue_steps {reduce : Reducer} {saturated : Handle}
    (hrun : untilValue reduce function (.plain s.heap.nextObject)
      (s.on fun m => (m.newObject (.application (.knot .unresolved))).2) = .ok (saturated, v) s₁) :
    ∃ z r, applyArgument function (.plain s.heap.nextObject) s.withKnot = .ok saturated z ∧
      reduce saturated z = .ok r s₁ ∧ v = r.untagged := by
  simp only [untilValue, Run.bind_run, share_run, releasingOnSignal_run, Machine.on] at hrun
  cases happlied : applyArgument function (.plain s.heap.nextObject) s.withKnot with
  | error signal z =>
    simp only [Machine.withKnot, Machine.on] at happlied
    rw [happlied] at hrun
    cases hrun
  | ok f z =>
    simp only [Machine.withKnot, Machine.on] at happlied
    rw [happlied] at hrun
    dsimp only at hrun
    cases hreduce : reduce f z with
    | error signal z' =>
      rw [hreduce] at hrun
      cases hrun
    | ok r z' =>
      rw [hreduce] at hrun
      simp only [intoResult, Run.bind_run, inspect_run] at hrun
      cases herror : z'.heap.error? r with
      | some e =>
        rw [herror] at hrun
        cases hrun
      | none =>
        rw [herror] at hrun
        cases hrun
        exact ⟨z, r, rfl, hreduce, rfl⟩

theorem bindKnot (hup : s.heap.Upright (function.holding ::ₘ rest))
    (hclosure : s.heap.closure? function = some c) (hmissing : c.missing = 1) :
    ∃ o z c', applyArgument function (.plain s.heap.nextObject) s.withKnot = .ok (.plain o) z ∧
      z.trace = s.trace ∧
      z.heap.Upright
        ((Handle.plain o).holding ::ₘ (Handle.plain s.heap.nextObject).holding ::ₘ rest) ∧
      z.heap.kindOf? o = some (.closure c') ∧ c'.missing = 0 ∧ c'.memo = .empty := by
  have hnew := hup.newKnot
  have hup₁ : s.withKnot.heap.Upright (function.holding ::ₘ
      (Handle.plain s.heap.nextObject).holding ::ₘ
        (Handle.plain s.heap.nextObject).holding ::ₘ rest) := by
    have hshared := hnew.share (h := .plain s.heap.nextObject) (hnew.live (by simp))
    rwa [Multiset.cons_swap _ function.holding, Multiset.cons_swap _ function.holding] at hshared
  have hknot : s.withKnot.heap.Honest (.plain s.heap.nextObject) := by
    refine .of_kind ((kindOf?_congr (contents_retain _ _) _).trans
      ((kindOf?_newObject ..).trans (if_pos rfl))) ?_
    rintro ⟨e, ⟨⟩⟩
  have hkind : s.withKnot.heap.kindOf? function.target = some (.closure c) := by
    have hold := kindOf?_of_closure? hclosure
    exact (kindOf?_congr (contents_retain _ _) _).trans
      ((extends_addObject s.heap _ _).kind _ _ hold)
  obtain ⟨f, m, hrun, happended⟩ := (applyArgument_appends hup₁.valid).1 c hkind (by omega)
  have hleaves := applyArgument_leaves hup₁ hknot
  rw [hrun] at hleaves
  obtain ⟨-, hup₂, htag, c', hkind', hmemo⟩ := hleaves
  obtain ⟨c₁, -, -, hkind₁, -, -, hmissing₁, -⟩ := happended.closure
  obtain rfl : c₁ = c' := by simpa using hkind₁.symm.trans hkind'
  obtain ⟨tag, o⟩ := f
  obtain rfl : tag = .plain := htag
  exact ⟨o, _, c₁, hrun, rfl, hup₂, hkind', by omega, hmemo⟩

/-- A data fixpoint that has a value ran its body once. The body belongs to the function with the knot
for its last argument: it begins before anything else, and not again, because its result has been
kept. The last event is that the knot is tied. From then on it stands for the value. -/
theorem tie_shares (hup : s.heap.Upright (function.holding ::ₘ rest))
    (hclosure : s.heap.closure? function = some c) (hmissing : c.missing = 1)
    (hrun : tie (Evaluator.reduceUpTo options depth) function s = .ok v s') :
    ∃ o z events,
      applyArgument function (.plain s.heap.nextObject) s.withKnot = .ok (.plain o) z ∧
      s'.trace = s.trace ++ #[.began o] ++ events ++ #[.tied s.heap.nextObject v s'.heap] ∧
      .began o ∉ events ∧ s'.heap.Is ObjectKind.IsSpent o ∧
      s'.heap.Is (ObjectKind.StandsFor v) s.heap.nextObject := by
  have hone : ((s.heap.closure? function).map Closure.missing).getD 0 = 1 := by
    simp [hclosure, hmissing]
  have hnew : (s.on fun m => (m.newObject (.application (.knot .unresolved))).2).heap.Valid
      (function.holding ::ₘ 0 + (Handle.plain s.heap.nextObject).holding ::ₘ rest) := by
    simpa [Multiset.cons_swap] using hup.newKnot.valid
  have huntil := untilValue_does (Evaluator.reduceUpTo_sound options depth)
    (Multiset.mem_cons_self _ rest) (Set.mem_singleton _) hnew
  cases hact : untilValue (Evaluator.reduceUpTo options depth) function (.plain s.heap.nextObject)
    (s.on fun m => (m.newObject (.application (.knot .unresolved))).2) with
  | error signal s₁ =>
    rw [tie_run_of_error hone hact] at hrun
    cases hrun
  | ok found s₁ =>
    obtain ⟨saturated, value⟩ := found
    rw [hact] at huntil
    have hknot := unresolved_until hnew huntil
    rw [tie_run_of_ok hone hact hknot] at hrun
    cases hrun
    obtain ⟨z, r, happlied, hreduce, -⟩ := untilValue_steps hact
    obtain ⟨o, z, c', hbind, hquiet, hup', hkind, hfull, hempty⟩ := bindKnot hup hclosure hmissing
    rw [hbind] at happlied
    cases happlied
    obtain _ | depth := depth
    · cases hreduce
    obtain ⟨events, htrace, hnot⟩ := Evaluator.reduceUpTo_begins (o := o) hup'.valid
      (Multiset.mem_cons_self _ _) hkind hfull hempty options depth
    have hspent := Evaluator.reduceUpTo_spends hkind hfull hempty hreduce
    rw [hreduce] at htrace
    obtain ⟨htie, hstands⟩ := develops_tie hknot v
    have hend : Develops ObjectKind.Changes (s₁.heap.tie s.heap.nextObject v) _ :=
      .releases _ [.plain o, .plain s.heap.nextObject]
    refine ⟨o, z, events, hbind, ?_, hnot, hspent.develops .changes (htie.trans hend),
      hstands.develops .changes hend⟩
    have hinner : s₁.trace = s.trace ++ (#[.began o] ++ events) := by rw [← hquiet]; exact htrace
    change s₁.trace.push (.tied s.heap.nextObject v _) = _
    rw [hinner, Array.push_eq_append, ← Array.append_assoc]
    rfl

end Run

namespace Holder

variable {w : Holder}

theorem Obtained.knot_stands (hobtained : Obtained w) (htied : .tied k v m ∈ w.machine.trace) :
    w.heap.Is (ObjectKind.StandsFor v) k := by
  have hstart : Obtained {} := .refl
  obtain ⟨⟨events, htrace, hall⟩, -⟩ := hstart.goesOn hobtained
  have hearlier : ({} : Holder).machine.trace = #[] := rfl
  rw [htrace, hearlier, Array.empty_append] at htied
  have hbetween : Event.Between _ _ (.tied k v m) := hall _ htied
  exact hbetween.2

/-- Whoever demands it, with whatever options, gets the one value as long as that is there, and runs
nothing. -/
theorem Obtained.knot_demanded (hobtained : Obtained w) (htied : .tied k v m ∈ w.machine.trace)
    (hknot : w.heap.IsLive (.object k)) (hvalue : w.heap.IsLive v.edge) (options : Options) :
    Evaluator.evaluate options (.plain k) w.machine =
      .ok v.untagged.asCached (w.machine.on (·.retain v)) := by
  obtain ⟨kind, hkind⟩ := exists_kindOf? hknot
  obtain ⟨depth, hdepth⟩ := Evaluator.exists_unboundedDepth
  rw [Evaluator.evaluate, hdepth]
  exact Evaluator.reduceUpTo_knot hkind ((hobtained.knot_stands htied).2 kind hkind) hvalue options
    depth

end Holder

end GraphReduction
