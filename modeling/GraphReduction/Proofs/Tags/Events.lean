import Mathlib
import GraphReduction.Proofs.Contexts.Resumed
import GraphReduction.Proofs.Runs.Results
import GraphReduction.Proofs.Tags.Obtained

/-! What the events of a run tell. The body of a closure begins only where the closure has no result
and none is being computed for it, so a body whose result has been kept is not run again. The knot of
a data fixpoint is new when it is tied, and stands for the value from then on. -/
namespace GraphReduction

open Heap Run Relation

/-- A closure that has its result, or whose result is being computed. -/
def ObjectKind.IsSpent (kind : ObjectKind) : Prop := ∃ c, kind = .closure c ∧ c.memo ≠ .empty

def ObjectKind.StandsFor (v : Handle) (kind : ObjectKind) : Prop :=
  kind = .application (.knot (.weak v.target)) ∨ kind = .application (.knot (.strong v.untagged))

/-- What an event between two states of the heap says about these. -/
def Event.Between (m m' : Heap) : Event → Prop
  | note _ | ended _ => True
  | began o => ¬ m.Is ObjectKind.IsSpent o
  | tied k v _ => ¬ m.Allocated (.object k) ∧ m'.Is (ObjectKind.StandsFor v) k

/-- The machine has gone on: its trace goes on with events that say the truth. -/
def Machine.GoesOn (s s' : Machine) : Prop :=
  ∃ events, s'.trace = s.trace ++ events ∧ ∀ e ∈ events, e.Between s.heap s'.heap

variable {m m' m₁ m₂ : Heap} {o : ObjectId} {kind kind' : ObjectKind} {e : Event} {v : Handle}
  {s s' s₁ : Machine}

namespace ObjectKind

theorem Advances.changes (h : kind.Advances kind') : kind.Changes kind' := by
  cases h with
  | reduced f x r => exact .reduced f x r
  | computed r _ hmemo => exact .memoized r (by rw [hmemo]; rfl)
  | filled t hmissing => exact .filled t hmissing

theorem IsSpent.changes (h : kind.IsSpent) (hstep : kind.Changes kind') : kind'.IsSpent := by
  obtain ⟨c, rfl, hmemo⟩ := h
  cases hstep with
  | memoized r => exact ⟨_, rfl, by simp⟩
  | filled t => exact ⟨_, rfl, hmemo⟩

theorem StandsFor.changes (h : kind.StandsFor v) (hstep : kind.Changes kind') :
    kind'.StandsFor v := by
  obtain rfl | rfl := h <;> cases hstep

end ObjectKind

namespace Heap

theorem Develops.mono {change change' : ObjectKind → ObjectKind → Prop}
    (hmono : ∀ kind kind', change kind kind' → change' kind kind') (h : Develops change m m') :
    Develops change' m m' where
  allocated := h.allocated
  object o kind' halloc hkind' := by
    obtain ⟨kind, hkind, hsteps⟩ := h.object o kind' halloc hkind'
    exact ⟨kind, hkind, ReflTransGen.mono hmono _ _ hsteps⟩
  thunk := h.thunk

theorem Is.develops {P : ObjectKind → Prop}
    (hP : ∀ {kind kind'}, P kind → kind.Changes kind' → P kind') (h : m.Is P o)
    (hdevelops : Develops ObjectKind.Changes m m') : m'.Is P o := by
  refine ⟨hdevelops.allocated _ h.1, fun kind' hkind' => ?_⟩
  obtain ⟨kind, hkind, hsteps⟩ := hdevelops.object o kind' h.1 hkind'
  clear hkind'
  induction hsteps with
  | refl => exact h.2 kind hkind
  | tail _ hstep ih => exact hP ih hstep

end Heap

/-! What an event says holds of longer runs as well. -/

/-- What is spent stays so, and no place is given out twice. -/
structure Heap.Spends (m m' : Heap) : Prop where
  allocated : ∀ cell, m.Allocated cell → m'.Allocated cell
  spent : ∀ o, m.Is ObjectKind.IsSpent o → m'.Is ObjectKind.IsSpent o

/-- Knots stay pointed at their values. -/
def Heap.KeepsKnots (m m' : Heap) : Prop :=
  ∀ v k, m.Is (ObjectKind.StandsFor v) k → m'.Is (ObjectKind.StandsFor v) k

namespace Heap

theorem Develops.spends (h : Develops ObjectKind.Changes m m') : m.Spends m' :=
  ⟨h.allocated, fun _ hspent => hspent.develops .changes h⟩

theorem Develops.keepsKnots (h : Develops ObjectKind.Changes m m') : m.KeepsKnots m' :=
  fun _ _ hstands => hstands.develops .changes h

theorem spends_setMemo (m : Heap) (o : ObjectId) {memo : Memo} (hmemo : memo ≠ .empty) :
    m.Spends (m.setMemo o memo) where
  allocated cell := (allocated_setMemo m o memo cell).mpr
  spent p hspent := by
    refine ⟨(allocated_setMemo m o memo _).mpr hspent.1, fun kind hkind => ?_⟩
    rw [kindOf?_setMemo] at hkind
    split at hkind
    · obtain ⟨old, hold, rfl⟩ := Option.map_eq_some_iff.mp hkind
      obtain ⟨c, rfl, -⟩ := hspent.2 old hold
      exact ⟨_, rfl, hmemo⟩
    · exact hspent.2 kind hkind

theorem keepsKnots_setMemo (m : Heap) (o : ObjectId) (memo : Memo) :
    m.KeepsKnots (m.setMemo o memo) := by
  refine fun v k hstands => ⟨(allocated_setMemo m o memo _).mpr hstands.1, fun kind hkind => ?_⟩
  rw [kindOf?_setMemo] at hkind
  split at hkind
  · obtain ⟨old, hold, rfl⟩ := Option.map_eq_some_iff.mp hkind
    obtain rfl | rfl := hstands.2 old hold
    · exact .inl rfl
    · exact .inr rfl
  · exact hstands.2 kind hkind

theorem tie_eq (m : Heap) (k : ObjectId) (v : Handle) :
    ∃ m₁ kind, m.tie k v = setKind m₁ k kind ∧ m₁.contents = m.contents ∧
      ObjectKind.StandsFor v kind ∧ ∃ knot, kind = .application (.knot knot) := by
  rw [tie]
  split
  · exact ⟨m, _, rfl, rfl, .inr rfl, _, rfl⟩
  · exact ⟨m.retainWeak v.target, _, rfl, contents_retainWeak m _, .inl rfl, _, rfl⟩

theorem develops_tie {k : ObjectId} (hknot : m.kindOf? k = some (.application (.knot .unresolved)))
    (v : Handle) :
    Develops ObjectKind.Changes m (m.tie k v) ∧ (m.tie k v).Is (ObjectKind.StandsFor v) k := by
  obtain ⟨m₁, kind, heq, hsame, hstands, knot, rfl⟩ := tie_eq m k v
  have hknot₁ := (kindOf?_congr hsame k).trans hknot
  rw [heq]
  refine ⟨(Develops.of_contents hsame).trans (.setKind hknot₁ (.tied knot)), .of_kind ?_ hstands⟩
  rw [Valid.kindOf?_setKind, if_pos rfl, hknot₁]
  rfl

end Heap

theorem Event.Between.wider (h : e.Between m₁ m₂) (hbefore : m.Spends m₁)
    (hafter : m₂.KeepsKnots m') : e.Between m m' := by
  cases e with
  | note | ended => trivial
  | began o => exact fun hspent => h (hbefore.spent o hspent)
  | tied k v heap => exact ⟨fun halloc => h.1 (hbefore.allocated _ halloc), hafter v k h.2⟩

namespace Machine.GoesOn

theorem of_trace (h : s'.trace = s.trace) : s.GoesOn s' := ⟨#[], by simpa using h, by simp⟩

theorem wider {z z' : Machine} (h : s.GoesOn s') (hbefore : z.heap.Spends s.heap)
    (hafter : s'.heap.KeepsKnots z'.heap) (htrace : s.trace = z.trace)
    (htrace' : z'.trace = s'.trace) : z.GoesOn z' := by
  obtain ⟨events, heq, hall⟩ := h
  exact ⟨events, by rw [htrace', heq, htrace], fun e he => (hall e he).wider hbefore hafter⟩

theorem trans (h : s.GoesOn s₁) (h' : s₁.GoesOn s')
    (hbefore : Develops ObjectKind.Changes s.heap s₁.heap)
    (hafter : Develops ObjectKind.Changes s₁.heap s'.heap) : s.GoesOn s' := by
  obtain ⟨events, heq, hall⟩ := h
  obtain ⟨events', heq', hall'⟩ := h'
  refine ⟨events ++ events', by rw [heq', heq, Array.append_assoc], fun e he => ?_⟩
  obtain he | he := Array.mem_append.mp he
  · exact (hall e he).wider (Develops.of_contents rfl).spends hafter.keepsKnots
  · exact (hall' e he).wider hbefore.spends (Develops.of_contents rfl).keepsKnots

theorem cons (h : (s.push e).GoesOn s') (he : e.Between s.heap s'.heap) : s.GoesOn s' := by
  obtain ⟨events, heq, hall⟩ := h
  refine ⟨#[e] ++ events, ?_, fun e' he' => ?_⟩
  · rw [heq, ← Array.append_assoc]
    simp [Machine.push]
  · obtain he' | he' := Array.mem_append.mp he'
    · rwa [Array.mem_singleton.mp he']
    · exact hall e' he'

theorem snoc (h : s.GoesOn s') (he : e.Between s.heap s'.heap) : s.GoesOn (s'.push e) := by
  obtain ⟨events, heq, hall⟩ := h
  refine ⟨events.push e, ?_, fun e' he' => ?_⟩
  · rw [Array.append_push, ← heq]
    rfl
  · obtain he' | rfl := Array.mem_push.mp he'
    · exact hall e' he'
    · exact he

theorem computes {c : Closure} (hkind : s.heap.kindOf? o = some (.closure c))
    (hmemo : c.memo = .empty) (h : (s.begin o).GoesOn s₁) (memo : Memo) :
    s.GoesOn (s₁.on (·.setMemo o memo)) := by
  have hbegan : Event.Between s.heap (s₁.heap.setMemo o memo) (.began o) := by
    intro hspent
    obtain ⟨c', heq, hfull⟩ := hspent.2 _ hkind
    cases heq
    exact hfull hmemo
  exact .cons (.wider h (spends_setMemo s.heap o (by simp)) (keepsKnots_setMemo s₁.heap o memo)
    rfl rfl) hbegan

end Machine.GoesOn

theorem Moves.develops {lent : Set Edge} {own own' : Multiset Holding}
    (h : Moves lent s own s' own') : Develops ObjectKind.Changes s.heap s'.heap :=
  h.advances.mono fun _ _ hstep => hstep.changes

theorem Moves.goesOn {lent : Set Edge} {own own' : Multiset Holding}
    (h : Moves lent s own s' own') : s.GoesOn s' := by
  induction h with
  | refl | drawn | raised | copied | forgot | dangled | retain | retainWeak | releaseWeak
  | upgrade | dropped | newObject | newThunk | fill | bindSelf => exact .of_trace rfl
  | trans h h' ih ih' => exact ih.trans ih' h.develops h'.develops
  | frame _ _ ih | lend _ _ ih => exact ih
  | noted e he =>
    refine .snoc (.of_trace rfl) ?_
    cases e with
    | note | ended => trivial
    | began | tied => exact he.elim
  | @memoNode s _ _ _ f x _ _ r _ _ hkind' ih =>
    have hstart : ((s.heap.retainEdge f.edge).retainEdge x.edge).contents = s.heap.contents := by
      simp
    exact .wider ih (Develops.of_contents hstart).spends
      (Develops.setKind hkind' (.reduced _ _ r)).keepsKnots rfl rfl
  | @memoThunk s _ _ _ x _ _ _ _ _ hstate' ih =>
    exact .wider ih (Develops.of_contents (contents_retainEdge s.heap x.edge)).spends
      (Develops.setThunkState hstate').keepsKnots rfl rfl
  | memoClosure hkind _ hmemo _ _ ih | memoFailed hkind _ hmemo _ _ ih =>
    exact ih.computes hkind hmemo _
  | @tied _ s _ s₁ _ value gone _ hknot _ ih =>
    have hfresh := (grows_newObject s.heap (.application (.knot .unresolved))).fresh
    obtain ⟨htie, hstands⟩ := develops_tie hknot value
    have hend := htie.trans (.releases (s₁.heap.tie s.heap.nextObject value) gone)
    refine .snoc (.wider ih (Develops.of_extends (extends_addObject _ _ _)).spends
      hend.keepsKnots rfl rfl) ⟨hfresh, ?_⟩
    exact Develops.keepsKnots (.releases _ gone) _ _ hstands

/-! Only evaluation runs anything. -/

namespace Run

namespace Quiet

variable {α : Type} {act : Run α}

theorem throw (signal : Signal) : (MonadExcept.throw signal : Run α).Quiet := fun s => ⟨s.heap, rfl⟩

theorem forM {f : α → Run PUnit} (h : ∀ a, (f a).Quiet) : ∀ as : List α, (as.forM f).Quiet
  | [] => pure _
  | a :: as => (h a).bind fun _ => forM h as

theorem trace (h : act.Quiet) (s : Machine) : (ended (act s)).trace = s.trace := by
  obtain ⟨m, hm⟩ := h s
  rw [hm]

end Quiet

theorem applyArgument_quiet (function argument : Handle) :
    (applyArgument function argument).Quiet := by
  refine (Quiet.add _).bind fun t => (Quiet.inspect _).bind fun c? => ?_
  cases c? with
  | none => exact (Quiet.inspect _).bind fun _ => (Quiet.change _).bind fun _ =>
      (Quiet.change _).bind fun _ => .throw _
  | some c =>
    dsimp only
    split
    · exact (Quiet.inspect _).bind fun _ => (Quiet.change _).bind fun _ =>
        (Quiet.change _).bind fun _ => .throw _
    · refine (Quiet.inspect _).bind fun mustCopy => (Quiet.inspect _).bind fun unique => ?_
      split
      · exact (Quiet.change _).bind fun _ => .pure _
      · exact c.copy_quiet.bind fun _ => (Quiet.add _).bind fun _ =>
          (Quiet.change _).bind fun _ => .pure _

theorem bindSelf_quiet (function : Handle) : (bindSelf function).Quiet := by
  refine (Quiet.inspect _).bind fun c? => ?_
  cases c? with
  | none => exact (Quiet.inspect _).bind fun _ => .throw _
  | some c =>
    dsimp only
    split
    · exact (Quiet.inspect _).bind fun _ => .throw _
    · exact c.copy_quiet.bind fun _ => (Quiet.inspect _).bind fun _ => (Quiet.add _).bind fun _ =>
        (Quiet.add _).bind fun _ => (Quiet.change _).bind fun _ => .pure _

theorem cloneObject_quiet (h : Handle) : (cloneObject h).Quiet := by
  have hfinish (kind : ObjectKind) : (cloneObject.finish h kind).Quiet :=
    (Quiet.add _).bind fun _ => .pure _
  refine (Quiet.inspect _).bind fun kind? => ?_
  match kind? with
  | none => exact (Quiet.add _).bind fun _ => .pure _
  | some (.value v) => exact (Quiet.forM (fun _ => .change _) _).bind fun _ => hfinish _
  | some (.closure c) => exact c.copy_quiet.bind fun _ => hfinish _
  | some (.exception e) => exact hfinish _
  | some (.application (.pending f x)) =>
    exact ((Quiet.share f).bind fun _ => (Quiet.share x).bind fun _ => .pure _).bind fun _ =>
      hfinish _
  | some (.application (.reduced r)) | some (.application (.knot (.strong r))) =>
    exact ((Quiet.share r).bind fun _ => .pure _).bind fun _ => hfinish _
  | some (.application (.knot (.weak o))) =>
    exact ((Quiet.change _).bind fun _ => .pure _).bind fun _ => hfinish _
  | some (.application (.knot .unresolved)) => exact (Quiet.pure _).bind fun _ => hfinish _

end Run

/-! Whoever starts with the machine before anything has happened -/

namespace Holder

variable {w w' : Holder} {c : Closure} {h : Handle} {options : Options}

theorem Truthful.evaluate_does (hw : Truthful w) (hheld : h ∈ w.held) :
    (∀ r s', Evaluator.evaluate options h w.machine = .ok r s' →
      Moves {h.edge} w.machine 0 s' {r.holding}) ∧
    ∀ signal s', Evaluator.evaluate options h w.machine = .error signal s' →
      Moves {h.edge} w.machine 0 s' (signal.holdings + 0) := by
  have hdoes := Evaluator.reduceUpTo_sound options Evaluator.unboundedDepth _ {h.edge} w.machine h
    (holding_mem hheld) rfl (by rw [zero_add]; exact hw.upright.valid)
  constructor
  · intro r s' hrun
    rwa [show Evaluator.reduceUpTo options _ h w.machine = _ from hrun] at hdoes
  · intro signal s' hrun
    rwa [show Evaluator.reduceUpTo options _ h w.machine = _ from hrun] at hdoes

theorem Deed.develops (hdeed : Deed w w') : Develops ObjectKind.Changes w.heap w'.heap := by
  have hok {s s' : Machine} {act : Run Handle} {h : Handle}
      (halong : Along (Develops ObjectKind.Changes) act) (hrun : act s = .ok h s') :
      Develops ObjectKind.Changes s.heap s'.heap := halong.of_ok hrun
  have herror {s s' : Machine} {act : Run Handle} {signal : Signal}
      (halong : Along (Develops ObjectKind.Changes) act) (hrun : act s = .error signal s') :
      Develops ObjectKind.Changes s.heap s'.heap := by
    have hend := (halong s).1
    rwa [hrun] at hend
  cases hdeed with
  | value hrun => exact hok (box_along _ _) hrun
  | exception e hrun => exact hok (newException_along e) hrun
  | primitive p hrun => exact hok (share_along _) hrun
  | declare static hdeclared _ hrun =>
    exact hok (.bind (.forM retain_along _) fun _ =>
      Step.firstClosure_along (Combinator.arity_of_declare hdeclared).1 static) hrun
  | apply hrun => exact hok (newApplication_along _ _) hrun
  | bind hrun => exact hok (applyArgument_along _ _) hrun
  | refused hrun => exact herror (applyArgument_along _ _) hrun
  | bindSelf _ hrun => exact hok (bindSelf_along _) hrun
  | clone _ hrun => exact hok (cloneObject_along _) hrun
  | evaluate _ hrun => exact hok (Evaluator.reduceUpTo_along _ _ _) hrun
  | interrupted _ hrun => exact herror (Evaluator.reduceUpTo_along _ _ _) hrun
  | share _ hrun => exact hok (share_along _) hrun
  | release hrun => exact (release_along (r := Develops ObjectKind.Changes) _).of_ok hrun
  | reorder => exact .of_contents rfl

theorem Deed.goesOn (hw : Truthful w) (hdeed : Deed w w') : w.machine.GoesOn w'.machine := by
  have hquiet {s s' : Machine} {act : Run Handle} {h : Handle} (hact : act.Quiet)
      (hrun : act s = .ok h s') : s.GoesOn s' := by
    have htrace := hact.trace s
    rw [hrun] at htrace
    exact .of_trace htrace
  cases hdeed with
  | value hrun | apply hrun | release hrun =>
    cases hrun
    exact .of_trace rfl
  | exception e hrun => exact hquiet ((Quiet.add _).bind fun _ => .pure _) hrun
  | primitive p hrun => exact hquiet (.share _) hrun
  | declare static hdeclared _ hrun =>
    refine hquiet ((Quiet.forM (fun _ => .change _) _).bind fun _ => (Quiet.add _).bind fun _ => ?_)
      hrun
    dsimp only
    split
    · exact .add _
    · exact .add _
  | bind hrun => exact hquiet (applyArgument_quiet _ _) hrun
  | @refused s s' held f x signal hrun =>
    have htrace := (applyArgument_quiet f x).trace s
    rw [hrun] at htrace
    exact .of_trace htrace
  | bindSelf _ hrun => exact hquiet (bindSelf_quiet _) hrun
  | clone _ hrun => exact hquiet (cloneObject_quiet _) hrun
  | evaluate hheld hrun => exact ((hw.evaluate_does hheld).1 _ _ hrun).goesOn
  | interrupted hheld hrun => exact ((hw.evaluate_does hheld).2 _ _ hrun).goesOn
  | share _ hrun => exact hquiet (.share _) hrun
  | reorder => exact .of_trace rfl

theorem Obtained.goesOn (hobtained : Obtained w) (hdeeds : ReflTransGen Deed w w') :
    w.machine.GoesOn w'.machine ∧ Develops ObjectKind.Changes w.heap w'.heap := by
  induction hdeeds with
  | refl => exact ⟨.of_trace rfl, .of_contents rfl⟩
  | tail hbefore hdeed ih =>
    have hreached : Obtained _ := hobtained.trans hbefore
    exact ⟨ih.1.trans (hdeed.goesOn hreached.truthful) ih.2 hdeed.develops, ih.2.trans hdeed.develops⟩

/-- Once the result of a closure has been kept its body is not run again, whatever is evaluated later
and however that ends. -/
theorem Obtained.not_begun_again (hobtained : Obtained w) (hdeeds : ReflTransGen Deed w w')
    (hkind : w.heap.kindOf? o = some (.closure c)) (hmemo : c.memo ≠ .empty) :
    ∃ events, w'.machine.trace = w.machine.trace ++ events ∧ .began o ∉ events := by
  obtain ⟨⟨events, htrace, hall⟩, -⟩ := hobtained.goesOn hdeeds
  exact ⟨events, htrace, fun hbegan => hall _ hbegan (.of_kind hkind ⟨c, rfl, hmemo⟩)⟩

end Holder

end GraphReduction
