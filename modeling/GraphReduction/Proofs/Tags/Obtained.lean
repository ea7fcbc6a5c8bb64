import Mathlib
import GraphReduction.Proofs.Supply.Deepens
import GraphReduction.Proofs.Tags.Reduction
import GraphReduction.Proofs.Trees.Holder

/-! What is evaluated is in normal form, and to evaluate it once more changes nothing. This holds
for everyone who starts with the machine before anything has happened, and makes, binds, copies and
evaluates from there, whatever the bodies of the functions do: tags tell the truth at the start, and
each deed leaves them truthful. -/
namespace GraphReduction

open Heap ObjectKind

/-- In weak head normal form: an error under the tag for errors, a value, or a closure that misses
an argument. -/
def Heap.IsNormal (m : Heap) (h : Handle) : Prop :=
  (h.tag = .exception ∧ ∃ e, m.kind? h = some (.exception e)) ∨
    h.tag ≠ .exception ∧
      ((∃ v, m.kind? h = some (.value v)) ∨
        ∃ c, m.kind? h = some (.closure c) ∧ 0 < c.missing)

theorem Heap.Final.isNormal {m : Heap} {h : Handle} (hfinal : m.Final h)
    (hlive : m.IsLive h.edge) : m.IsNormal h := by
  obtain ⟨x, hx⟩ := Option.isSome_iff_exists.mp hlive
  have hkind : m.kindOf? h.target = some x.kind := by simp [kindOf?, hx]
  have hlook : m.kind? h = some x.kind := hkind
  by_cases htag : h.tag = .exception
  · have hsuits := hfinal.honest.2 _ hkind
    rw [htag] at hsuits
    obtain ⟨e, he⟩ := hsuits
    exact .inl ⟨htag, e, hlook.trans (congrArg some he)⟩
  · have hresult := (hfinal.isResult htag).2 _ hkind
    refine .inr ⟨htag, ?_⟩
    cases hcontent : x.kind with
    | value v => exact .inl ⟨v, hlook.trans (congrArg some hcontent)⟩
    | closure c =>
      rw [hcontent] at hresult
      exact .inr ⟨c, hlook.trans (congrArg some hcontent), hresult⟩
    | application a | exception e =>
      rw [hcontent] at hresult
      exact hresult.elim

theorem Heap.Upright.declare {m : Heap} {own : Multiset Holding} {k : Combinator}
    (hup : m.Upright (k.holdings + own)) (hcaptures : ∀ h ∈ k.body.captures, m.Honest h) :
    ∀ hold ∈ [Hold.static, .shared 1 0],
      ((m.newCombinator k).2.addObject hold
        (.closure (.bare (m.newCombinator k).1 k.arity))).2.Upright
          ((Handle.plain m.nextObject).holding ::ₘ own) ∧
      ((m.newCombinator k).2.addObject hold
        (.closure (.bare (m.newCombinator k).1 k.arity))).2.Honest (.plain m.nextObject) := by
  have hup' := hup.newCombinator hcaptures
  have hholdings : (ObjectKind.closure (.bare (m.newCombinator k).1 k.arity)).holdings =
      {.strong (.combinator (m.newCombinator k).1)} := by
    rw [ObjectKind.holdings_closure, Closure.arguments_bare]
    rfl
  rw [← Multiset.singleton_add, ← hholdings] at hup'
  have hproper : ∀ c, ObjectKind.closure (.bare (m.newCombinator k).1 k.arity) = .closure c →
      c.Proper := by
    rintro _ ⟨⟩
    exact Closure.proper_bare ..
  have hhonest : (m.newCombinator k).2.HonestKind
      (.closure (.bare (m.newCombinator k).1 k.arity)) := by
    refine ⟨fun hmemo => absurd rfl hmemo, ?_⟩
    rintro r ⟨⟩
  intro hold hhold
  constructor
  · obtain rfl | rfl : hold = .static ∨ hold = .shared 1 0 := by simpa using hhold
    · exact hup'.newStatic hproper hhonest
    · exact hup'.newObject hproper hhonest
  · have hnew : (Handle.plain m.nextObject).target = (m.newCombinator k).2.nextObject := rfl
    refine .of_kind (by rw [kindOf?, object?_addObject, if_pos hnew, Option.map_some]) ?_
    rintro ⟨e, ⟨⟩⟩

theorem Evaluator.evaluate_of_reduceUpTo {options : Options} {h : Handle} {s : Machine}
    {x : ObjectKind} (depth : Nat) (hdepth : depth ≤ unboundedDepth)
    (hrun : (match reduceUpTo options depth h s with
      | .ok r s' => s'.heap.kind? r
      | .error .. => none) = some x) :
    ∃ r s', evaluate options h s = .ok r s' ∧ s'.heap.kind? r = some x := by
  cases hact : reduceUpTo options depth h s with
  | ok r s' => exact ⟨r, s', reduceUpTo_mono hact hdepth, by rwa [hact] at hrun⟩
  | error signal s' =>
    rw [hact] at hrun
    cases hrun

namespace Holder

/-- Values, errors and functions with any bodies are made. Functions are applied, bound and tied to
themselves, objects are copied, and what is held is evaluated, whatever the way that ends;
references come and go. Nobody writes into a memo, a node or a knot but evaluation itself. -/
inductive Deed : Holder → Holder → Prop
  | value {s s' held h type} {payload : Payload} (hrun : Run.newValue type payload s = .ok h s') :
      Deed ⟨s, payload.handles ++ held⟩ ⟨s', h :: held⟩
  | exception {s s' held h} (e : EvalError) (hrun : Run.newException e s = .ok h s') :
      Deed ⟨s, held⟩ ⟨s', h :: held⟩
  | primitive {s s' held h} (p : Primitive) (hrun : Run.share (.plain ⟨p.place⟩) s = .ok h s') :
      Deed ⟨s, held⟩ ⟨s', h :: held⟩
  | declare {s s' held h name type arity? body k} (static : Bool)
      (hdeclared : Combinator.declare name type arity? body = .ok k)
      (hcaptures : ∀ g ∈ k.body.captures, g ∈ held)
      (hrun : (do
        k.body.captures.forM fun g => Run.change (·.retain g)
        let c ← Run.add (·.newCombinator k)
        let kind := ObjectKind.closure (.bare c k.arity)
        if static then Run.add (·.newStatic kind) else Run.newObject kind : Run Handle) s =
          .ok h s') :
      Deed ⟨s, held⟩ ⟨s', h :: held⟩
  | apply {s s' held f x h} (hrun : Run.newApplication f x s = .ok h s') :
      Deed ⟨s, f :: x :: held⟩ ⟨s', h :: held⟩
  | bind {s s' held f x h} (hrun : Run.applyArgument f x s = .ok h s') :
      Deed ⟨s, f :: x :: held⟩ ⟨s', h :: held⟩
  | refused {s s' held f x signal} (hrun : Run.applyArgument f x s = .error signal s') :
      Deed ⟨s, f :: x :: held⟩ ⟨s', held⟩
  | bindSelf {s s' held f h} (hheld : f ∈ held) (hrun : Run.bindSelf f s = .ok h s') :
      Deed ⟨s, held⟩ ⟨s', h :: held⟩
  | clone {s s' held h r} (hheld : h ∈ held) (hrun : Run.cloneObject h s = .ok r s') :
      Deed ⟨s, held⟩ ⟨s', r :: held⟩
  | evaluate {s s' held h r options} (hheld : h ∈ held)
      (hrun : Evaluator.evaluate options h s = .ok r s') : Deed ⟨s, held⟩ ⟨s', r :: held⟩
  | interrupted {s s' held h signal options} (hheld : h ∈ held)
      (hrun : Evaluator.evaluate options h s = .error signal s') : Deed ⟨s, held⟩ ⟨s', held⟩
  | share {s s' held h h'} (hheld : h ∈ held) (hrun : Run.share h s = .ok h' s') :
      Deed ⟨s, held⟩ ⟨s', h' :: held⟩
  | release {s s' held h} (hrun : Run.release h s = .ok () s') :
      Deed ⟨s, h :: held⟩ ⟨s', held⟩
  | reorder {s held held'} (hperm : held.Perm held') : Deed ⟨s, held⟩ ⟨s, held'⟩

/-- What comes of a machine before anything has happened. -/
def Obtained : Holder → Prop := Relation.ReflTransGen Deed {}

/-- The heap is upright for what is held, and the tags of that tell the truth. -/
structure Truthful (w : Holder) : Prop where
  upright : w.heap.Upright w.holdings
  honest : ∀ h ∈ w.held, w.heap.Honest h

variable {w w' : Holder} {s s' : Machine} {h r : Handle} {held hs : List Handle} {k : Combinator}
  {options : Options} {static : Bool}

/-! The start -/

theorem honestCells_initial : Machine.initial.heap.HonestCells where
  object o kind hkind := by
    obtain ⟨k, arity, rfl⟩ := Machine.fresh_initial.bare o kind hkind
    refine ⟨fun hmemo => absurd rfl hmemo, ?_⟩
    rintro r ⟨⟩
  thunk t state hstate := by cases hstate
  combinator c k hk := by
    obtain ⟨x, hx, -⟩ := Option.map_eq_some_iff.mp hk
    obtain ⟨p, hp⟩ := Reading.exists_place_of_initial rfl hx
    obtain rfl : c = ⟨p.place⟩ := congrArg CombinatorId.mk hp.symm
    obtain rfl := Option.some.inj ((Machine.combinatorOf?_initial p).symm.trans hk)
    simp [Primitive.declared]
  library p := by
    refine .of_kind (Machine.kindOf?_initial p) ?_
    rintro ⟨e, ⟨⟩⟩

theorem truthful_initial : Truthful {} :=
  ⟨⟨Machine.valid_initial, honestCells_initial⟩, by simp⟩

/-! What each deed leaves -/

theorem honest_of_spares {m m' : Heap} (hspares : Spares (objectsOf ↑(hs.map Handle.holding)) m m')
    (hhonest : ∀ g ∈ hs, m.Honest g) : ∀ g ∈ hs, m'.Honest g :=
  fun g hg => (hspares.lasts (o := g.target) (holding_mem hg)).honest (hhonest g hg)

namespace Truthful

theorem cons {good : Heap → Handle → Prop} {act : Run Handle}
    (hhonest : ∀ g ∈ hs, s.heap.Honest g)
    (hleaves : Leaves s.heap ↑(hs.map Handle.holding) (fun r : Handle => {r.holding}) good (act s))
    (hgood : ∀ m r, good m r → m.Honest r) (hrun : act s = .ok r s') : Truthful ⟨s', r :: hs⟩ := by
  rw [hrun] at hleaves
  obtain ⟨hspares, hup, hr⟩ := hleaves
  exact ⟨hup, List.forall_mem_cons.mpr ⟨hgood _ _ hr, honest_of_spares hspares hhonest⟩⟩

theorem interrupted {good : Heap → Handle → Prop} {act : Run Handle} {signal : Signal}
    (hhonest : ∀ g ∈ hs, s.heap.Honest g)
    (hleaves : Leaves s.heap ↑(hs.map Handle.holding) (fun r : Handle => {r.holding}) good (act s))
    (hrun : act s = .error signal s') : Truthful ⟨s', hs⟩ := by
  rw [hrun] at hleaves
  exact ⟨hleaves.2, honest_of_spares hleaves.1 hhonest⟩

theorem declare (hw : Truthful ⟨s, hs⟩) (hcaptures : ∀ g ∈ k.body.captures, g ∈ hs)
    (hrun : (do
      k.body.captures.forM fun g => Run.change (·.retain g)
      let c ← Run.add (·.newCombinator k)
      let kind := ObjectKind.closure (.bare c k.arity)
      if static then Run.add (·.newStatic kind) else Run.newObject kind : Run Handle) s =
        .ok r s') : Truthful ⟨s', r :: hs⟩ := by
  obtain ⟨_, s₁, hretain, hspares, hup₁, hlasts⟩ :=
    Run.retainAll_produces (s := s) k.body.captures hw.upright fun g hg =>
      hw.upright.live (holding_mem (hcaptures g hg))
  have hup₂ : s₁.heap.Upright (k.holdings + (hs.map Handle.holding : Multiset Holding)) := by
    refine ⟨?_, hup₁.cells⟩
    have hraises := (Valid.errors k.body.raises).mpr hup₁.valid
    convert hraises using 1
    simp only [Combinator.holdings, Holder.holdings, ← Multiset.coe_add]
    abel
  have hdeclared := hup₂.declare fun g hg => (hlasts _).honest (hw.honest g (hcaptures g hg))
  have hspares' : ∀ hold kind, Spares (objectsOf ↑(hs.map Handle.holding)) s.heap
      ((s₁.heap.newCombinator k).2.addObject hold kind).2 :=
    fun hold kind => (hspares.trans (.newCombinator _ k)).trans (.addObject _ hold kind)
  rw [Run.bind_run, hretain] at hrun
  cases static with
  | true =>
    cases hrun
    obtain ⟨hup, hmade⟩ := hdeclared .static (by simp)
    exact ⟨hup, List.forall_mem_cons.mpr ⟨hmade, honest_of_spares (hspares' _ _) hw.honest⟩⟩
  | false =>
    cases hrun
    obtain ⟨hup, hmade⟩ := hdeclared (.shared 1 0) (by simp)
    exact ⟨hup, List.forall_mem_cons.mpr ⟨hmade, honest_of_spares (hspares' _ _) hw.honest⟩⟩

theorem deed (hw : Truthful w) (hdeed : Deed w w') : Truthful w' := by
  have hkeep : ∀ (m : Heap) r, m.Honest r → m.Honest r := fun _ _ hr => hr
  have hfinal : ∀ (m : Heap) r, m.Final r → m.Honest r := fun _ _ hr => hr.honest
  have hbound : ∀ (m : Heap) r, m.Bound r → m.Honest r := fun _ _ hr => hr.honest
  obtain ⟨hup, hhonest⟩ := hw
  cases hdeed with
  | @value s s' held h type payload hrun =>
    have hup' : s.heap.Upright (↑(payload.handles.map Handle.holding) +
        (held.map Handle.holding : Multiset Holding)) := by
      simpa [Holder.holdings, Holder.heap, ← Multiset.coe_add] using hup
    obtain ⟨hparts, hrest⟩ := List.forall_mem_append.mp hhonest
    exact cons hrest (Run.newValue_leaves hup' hparts) hkeep hrun
  | exception e hrun =>
    exact cons hhonest (Run.newException_produces e hup).leaves hfinal hrun
  | @primitive s s' held h p hrun =>
    exact cons hhonest (Run.share_produces (s := s) (h := .plain ⟨p.place⟩) hup
      (hup.valid.library.live p) persists_honest (hup.cells.library p)).leaves hkeep hrun
  | declare static hdeclared hcaptures hrun =>
    exact declare ⟨hup, hhonest⟩ hcaptures hrun
  | apply hrun =>
    obtain ⟨hf, hx, hrest⟩ := by simpa only [List.forall_mem_cons] using hhonest
    exact cons hrest (Run.newApplication_leaves hup hf hx) hkeep hrun
  | bind hrun =>
    obtain ⟨-, hx, hrest⟩ := by simpa only [List.forall_mem_cons] using hhonest
    exact cons hrest (Run.applyArgument_leaves hup hx) hbound hrun
  | refused hrun =>
    obtain ⟨-, hx, hrest⟩ := by simpa only [List.forall_mem_cons] using hhonest
    exact interrupted hrest (Run.applyArgument_leaves hup hx) hrun
  | bindSelf hheld hrun =>
    exact cons hhonest (Run.bindSelf_leaves hup (holding_mem hheld)) hbound hrun
  | clone hheld hrun =>
    exact cons hhonest (Run.cloneObject_produces hup (holding_mem hheld) (hhonest _ hheld)).leaves
      hkeep hrun
  | evaluate hheld hrun =>
    exact cons hhonest (Evaluator.reduceUpTo_finishes _ _ hup (holding_mem hheld)
      (hhonest _ hheld)) hfinal hrun
  | interrupted hheld hrun =>
    exact interrupted hhonest (Evaluator.reduceUpTo_finishes _ _ hup (holding_mem hheld)
      (hhonest _ hheld)) hrun
  | share hheld hrun =>
    exact cons hhonest (Run.share_produces hup (hup.live (holding_mem hheld)) persists_honest
      (hhonest _ hheld)).leaves hkeep hrun
  | @release s s' held h hrun =>
    cases hrun
    have hup' : s.heap.Upright (h.holding ::ₘ (held.map Handle.holding : Multiset Holding)) := hup
    exact ⟨hup'.release, honest_of_spares (.release _ h) (List.forall_mem_cons.mp hhonest).2⟩
  | @reorder s held held' hperm =>
    have hsame : (held'.map Handle.holding : Multiset Holding) = held.map Handle.holding :=
      Multiset.coe_eq_coe.mpr (hperm.map Handle.holding).symm
    have hup' : s.heap.Upright ↑(held'.map Handle.holding) := hsame ▸ hup
    exact ⟨hup', fun g hg => hhonest g (hperm.mem_iff.mpr hg)⟩

end Truthful

/-- Tags tell the truth in whatever can be obtained. -/
theorem Obtained.truthful (hobtained : Obtained w) : Truthful w := by
  induction hobtained with
  | refl => exact truthful_initial
  | tail _ hdeed ih => exact ih.deed hdeed

/-- Evaluation returns something in normal form. Whoever evaluates that, with whatever options, gets
the same handle, while no body is run and no content of the heap changes. -/
theorem evaluate_idempotent (hobtained : Obtained w) (hheld : h ∈ w.held)
    (hrun : Evaluator.evaluate options h w.machine = .ok r s') :
    s'.heap.IsNormal r ∧
      ∀ options', ∃ s'', Evaluator.evaluate options' r s' = .ok r s'' ∧
        s''.heap.contents = s'.heap.contents ∧ s''.trace = s'.trace := by
  have hw := hobtained.truthful
  have hleaves : Leaves w.heap w.holdings (fun r : Handle => {r.holding}) (fun m r => m.Final r)
      (Evaluator.evaluate options h w.machine) :=
    Evaluator.reduceUpTo_finishes options _ hw.upright (holding_mem hheld) (hw.honest h hheld)
  rw [hrun] at hleaves
  obtain ⟨-, hup, hfinal⟩ := hleaves
  have hlive : s'.heap.IsLive r.edge := hup.live (by simp)
  refine ⟨hfinal.isNormal hlive, fun options' => ⟨s'.on (·.retain r), ?_, contents_retain .., rfl⟩⟩
  obtain ⟨depth, hdepth⟩ := Evaluator.exists_unboundedDepth
  rw [Evaluator.evaluate, hdepth]
  exact Evaluator.reduceUpTo_final hlive hfinal

def sumMachine : Machine :=
  Machine.initial.on fun m =>
    (((((m.retain (.plain ⟨Primitive.add.place⟩)).newObject (.value ⟨.int, .int 5⟩)).2.newObject
      (.application (.pending (.plain ⟨Primitive.add.place⟩) (.plain ⟨10⟩)))).2.newObject
        (.value ⟨.int, .int 7⟩)).2.newObject
          (.application (.pending (.plain ⟨11⟩) (.plain ⟨12⟩)))).2

/-- The sum is twelve, and twelve is itself. -/
theorem evaluate_idempotent_sum :
    ∃ r s', Obtained ⟨sumMachine, [.plain ⟨13⟩]⟩ ∧
      Evaluator.evaluate {} (.plain ⟨13⟩) sumMachine = .ok r s' ∧
      s'.heap.kind? r = some (.value ⟨.int, .int 12⟩) ∧ s'.heap.IsNormal r ∧
      ∀ options', ∃ s'', Evaluator.evaluate options' r s' = .ok r s'' ∧
        s''.heap.contents = s'.heap.contents ∧ s''.trace = s'.trace := by
  have hfive := ((Relation.ReflTransGen.refl (r := Deed) (a := {})).tail
    (.primitive .add rfl)).tail
      (.value (show Run.newValue .int (.int 5) _ = .ok (.plain ⟨10⟩) _ from rfl))
  have hpartial := (hfive.tail (.reorder (.swap ..))).tail (.apply (h := .plain ⟨11⟩) rfl)
  have hseven := hpartial.tail
    (.value (show Run.newValue .int (.int 7) _ = .ok (.plain ⟨12⟩) _ from rfl))
  have hobtained : Obtained ⟨sumMachine, [.plain ⟨13⟩]⟩ :=
    (hseven.tail (.reorder (.swap ..))).tail (.apply rfl)
  obtain ⟨r, s', hrun, hvalue⟩ : ∃ r s',
      Evaluator.evaluate {} (.plain ⟨13⟩) sumMachine = .ok r s' ∧
        s'.heap.kind? r = some (.value ⟨.int, .int 12⟩) :=
    Evaluator.evaluate_of_reduceUpTo 20 (Nat.le_of_ble_eq_true rfl) (by decide +kernel)
  exact ⟨r, s', hobtained, hrun, hvalue,
    evaluate_idempotent hobtained List.mem_cons_self hrun⟩

end Holder

end GraphReduction
