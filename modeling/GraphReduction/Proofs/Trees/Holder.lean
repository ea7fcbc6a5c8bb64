import Mathlib
import GraphReduction.Proofs.Labels.Initial
import GraphReduction.Proofs.Trees.Knotless

/-! Heaps that are read as trees. Whoever starts with the machine before anything has happened,
declares stateless combinators, puts terms together and has some evaluated, always has a heap that
can be read: there is a reading for the start, and each step keeps one. -/
namespace GraphReduction

open Heap Marks Reading

structure Holder where
  machine : Machine := .initial
  held : List Handle := []

namespace Holder

def heap (w : Holder) : Heap := w.machine.heap

def holdings (w : Holder) : Multiset Holding := w.held.map Handle.holding

/-- Terms are made of values, errors and functions with stateless bodies; a function is bound to an
argument or tied to itself; what is held is evaluated, as long as that ties no data; references come
and go. -/
inductive Step (options : Options) : Holder → Holder → Prop
  | value {s s' held h type payload} (hplain : payload.handles = [])
      (hrun : Run.newValue type payload s = .ok h s') : Step options ⟨s, held⟩ ⟨s', h :: held⟩
  | exception {s s' held h} (e : EvalError) (hrun : Run.newException e s = .ok h s') :
      Step options ⟨s, held⟩ ⟨s', h :: held⟩
  | primitive {s s' held h} (p : Primitive) (hrun : Run.share (.plain ⟨p.place⟩) s = .ok h s') :
      Step options ⟨s, held⟩ ⟨s', h :: held⟩
  | declare {s s' held h k} (static : Bool)
      (hdeclared : Combinator.declare k.name k.type (some k.arity) k.body = .ok k)
      (hstateless : k.body.IsStateless) (hcaptures : ∀ g ∈ k.body.captures, g ∈ held)
      (hrun : (do
        k.body.captures.forM fun g => Run.change (·.retain g)
        let c ← Run.add (·.newCombinator k)
        let kind := ObjectKind.closure (.bare c k.arity)
        if static then Run.add (·.newStatic kind) else Run.newObject kind : Run Handle) s =
          .ok h s') :
      Step options ⟨s, held⟩ ⟨s', h :: held⟩
  | pair {s s' held f x h} (hrun : Run.newPair f x s = .ok h s') :
      Step options ⟨s, f :: x :: held⟩ ⟨s', h :: held⟩
  | apply {s s' held f x h} (hrun : Run.newApplication f x s = .ok h s') :
      Step options ⟨s, f :: x :: held⟩ ⟨s', h :: held⟩
  | bind {s s' held f x h} (hrun : Run.applyArgument f x s = .ok h s') :
      Step options ⟨s, f :: x :: held⟩ ⟨s', h :: held⟩
  | refused {s s' held f x e} (hrun : Run.applyArgument f x s = .error (.raised e) s') :
      Step options ⟨s, f :: x :: held⟩ ⟨s', held⟩
  | bindSelf {s s' held f h} (hheld : f ∈ held) (hrun : Run.bindSelf f s = .ok h s') :
      Step options ⟨s, held⟩ ⟨s', h :: held⟩
  | evaluate {s s' held h r depth} (hheld : h ∈ held) (hties : Evaluator.TiesNoData options h s)
      (hrun : Evaluator.reduceUpTo options depth h s = .ok r s') :
      Step options ⟨s, held⟩ ⟨s', r :: held⟩
  | share {s s' held h h'} (hheld : h ∈ held) (hrun : Run.share h s = .ok h' s') :
      Step options ⟨s, held⟩ ⟨s', h' :: held⟩
  | release {s s' held h} (hrun : Run.release h s = .ok () s') :
      Step options ⟨s, h :: held⟩ ⟨s', held⟩
  | reorder {s held held'} (hperm : held.Perm held') : Step options ⟨s, held⟩ ⟨s, held'⟩

/-- What comes of a machine before anything has happened. -/
def Reached (options : Options) : Holder → Prop := Relation.ReflTransGen (Step options) {}

end Holder

variable {options : Options} {d : Nat} {m : Heap} {R R' : Reading} {held rest : Multiset Holding}
  {s s' : Machine} {h : Handle} {t : Tree}

/-! The start -/

namespace Reading

/-- The primitives, each of which stands for itself. -/
def library : Reading where
  object o := (Primitive.all[o.index]?.map fun p => Tree.function p.code).getD default
  thunk _ := default
  code c := (Primitive.all[c.index]?.map Primitive.code).getD ⟨c, "", 0, .tie⟩

theorem object_library (p : Primitive) : library.object ⟨p.place⟩ = .function p.code := by
  simp [library, Primitive.all_getElem?_place]

theorem code_library (p : Primitive) : library.code ⟨p.place⟩ = p.code := by
  simp [library, Primitive.all_getElem?_place]

theorem closes_bare {o : ObjectId} (c : CombinatorId) :
    R.Closes options m o (.bare c (R.code c).arity) (.function (R.code c)) := by
  have hnone : (Closure.bare c (R.code c).arity).arguments = [] := Closure.arguments_bare ..
  refine ⟨rfl, ?_, ?_, ?_, ?_, ?_⟩
  · rw [hnone]
    rfl
  · rw [hnone]
    rfl
  · exact fun hmemo => absurd rfl hmemo
  · rintro r ⟨⟩
  · rintro u hu
    rw [hnone] at hu
    cases hu

theorem exists_place {i : Nat} (h : i < Primitive.all.length) : ∃ p : Primitive, p.place = i := by
  have hplace : ∀ j (hj : j < Primitive.all.length), Primitive.all[j].place = j := by decide
  exact ⟨_, hplace i h⟩

theorem exists_place_of_initial {α : Type} {a : Arena α} {i : Nat} {x : α}
    (hsize : a.cells.size = Primitive.all.length) (hx : a.get? i = some x) :
    ∃ p : Primitive, p.place = i := by
  refine exists_place ?_
  rw [Arena.get?, Option.join_eq_some_iff, Array.getElem?_eq_some_iff] at hx
  obtain ⟨hi, -⟩ := hx
  omega

theorem upholds_initial (options : Options) :
    library.Upholds options Machine.initial.heap 0 where
  valid := Machine.valid_initial
  fits :=
    { object := fun o kind hkind => by
        obtain ⟨x, hx, -⟩ := Option.map_eq_some_iff.1 hkind
        obtain ⟨p, hp⟩ := exists_place_of_initial rfl hx
        obtain rfl : o = ⟨p.place⟩ := congrArg ObjectId.mk hp.symm
        obtain rfl := Option.some.inj ((Machine.kindOf?_initial p).symm.trans hkind)
        have hcloses : library.Closes options Machine.initial.heap ⟨p.place⟩
            (.bare ⟨p.place⟩ (library.code ⟨p.place⟩).arity)
            (.function (library.code ⟨p.place⟩)) := closes_bare _
        rw [code_library] at hcloses
        rw [object_library]
        exact .closure hcloses
      thunk := fun w state hstate => by cases hstate
      combinator := fun c k hk => by
        obtain ⟨x, hx, -⟩ := Option.map_eq_some_iff.1 hk
        obtain ⟨p, hp⟩ := exists_place_of_initial rfl hx
        obtain rfl : c = ⟨p.place⟩ := congrArg CombinatorId.mk hp.symm
        obtain rfl := Option.some.inj ((Machine.combinatorOf?_initial p).symm.trans hk)
        refine ⟨?_, p.isStateless_body, by simp [Primitive.declared]⟩
        rw [code_library, Primitive.declared, Body.map_body]
        rfl
      library := object_library }

theorem not_running_initial (o : ObjectId) : ¬ Machine.initial.heap.Running o := by
  rintro ⟨c, hkind, hmemo⟩
  obtain ⟨k, arity, heq⟩ := Machine.fresh_initial.bare o _ hkind
  cases heq
  cases hmemo

end Reading

/-! A new combinator -/

namespace Marks.Upholds

theorem retainAll {hs : List Handle} (hup : R.Upholds options s.heap held)
    (hlive : ∀ h ∈ hs, s.heap.IsLive h.edge) :
    ∃ s', hs.forM (fun h => Run.change (·.retain h)) s = .ok () s' ∧
      s'.heap.contents = s.heap.contents ∧
      R.Upholds options s'.heap (↑(hs.map Handle.holding) + held) := by
  induction hs generalizing s held with
  | nil => exact ⟨s, rfl, rfl, by simpa using hup⟩
  | cons h hs ih =>
    have hsame : (s.heap.retain h).contents = s.heap.contents := contents_retain ..
    obtain ⟨s', hrun, hcontents, hup'⟩ := ih (s := s.on (·.retain h))
      (hup.share (hlive h List.mem_cons_self))
      fun g hg => (isLive_congr hsame _).2 (hlive g (List.mem_cons_of_mem _ hg))
    refine ⟨s', hrun, hcontents.trans hsame, ?_⟩
    rwa [List.map_cons, ← Multiset.cons_coe, Multiset.cons_add, ← Multiset.add_cons]

theorem declare {k : Combinator} (hup : R.Upholds options m (k.holdings + held))
    (hstateless : k.body.IsStateless)
    (htagged : ∀ h ∈ k.body.captures, (R.object h.target).Tagged h.tag) :
    ∃ R' : Reading, (∀ o ≠ m.nextObject, R'.object o = R.object o) ∧
      R'.object m.nextObject = .function (R'.code (m.newCombinator k).1) ∧
      ∀ hold ∈ [Hold.static, .shared 1 0], R'.Upholds options
        ((m.newCombinator k).2.addObject hold
          (.closure (.bare (m.newCombinator k).1 k.arity))).2
        ((Handle.plain m.nextObject).holding ::ₘ held) := by
  set code : Code Tree := ⟨(m.newCombinator k).1, k.name, k.arity,
    k.body.map fun h => R.object h.target⟩
  let R₁ : Reading := R.withCode (m.newCombinator k).1 code
  have hup' : R₁.Upholds options (m.newCombinator k).2
      (.strong (.combinator (m.newCombinator k).1) ::ₘ held) :=
    hup.newCombinator ⟨rfl, hstateless, htagged⟩
  have hkind : (ObjectKind.closure (.bare (m.newCombinator k).1 k.arity)).holdings =
      {.strong (.combinator (m.newCombinator k).1)} := by
    rw [ObjectKind.holdings_closure, Closure.arguments_bare]
    rfl
  rw [← Multiset.singleton_add, ← hkind] at hup'
  have hproper : ∀ c, ObjectKind.closure (.bare (m.newCombinator k).1 k.arity) = .closure c →
      c.Proper := by
    rintro _ ⟨⟩
    exact Closure.proper_bare ..
  have hcode : R₁.code (m.newCombinator k).1 = code := withCode_self
  have hcloses : R₁.Closes options (m.newCombinator k).2 m.nextObject
      (.bare (m.newCombinator k).1 _) _ := closes_bare _
  rw [hcode] at hcloses
  refine ⟨R₁.withObject m.nextObject (.function code), fun o ho => withObject_of_ne ho, ?_,
    fun hold hhold => ?_⟩
  · rw [withObject_self]
    exact congrArg Tree.function hcode.symm
  · obtain rfl | rfl : hold = .static ∨ hold = .shared 1 0 := by simpa using hhold
    · exact hup'.newStatic hproper (.closure hcloses)
    · exact hup'.newObject hproper (.closure hcloses)

end Marks.Upholds

namespace Holder

variable {w w' : Holder}

/-- How a holder's heap is read. What is held can have its tag, and nothing is being computed. -/
structure Read (options : Options) (R : Reading) (w : Holder) : Prop where
  upholds : R.Upholds options w.heap w.holdings
  tagged : ∀ h ∈ w.held, (R.object h.target).Tagged h.tag
  idle : ∀ o, ¬ w.heap.Running o

theorem holding_mem {hs : List Handle} (hheld : h ∈ hs) :
    h.holding ∈ (hs.map Handle.holding : Multiset Holding) :=
  Multiset.mem_coe.2 (List.mem_map_of_mem hheld)

theorem bindSelf_ok {f r : Handle} (hrun : Run.bindSelf f s = .ok r s') :
    ∃ c, s.heap.closure? f = some c ∧ 1 < c.missing := by
  rw [Run.bindSelf, Run.bind_run, Run.inspect_run] at hrun
  cases hclosure : s.heap.closure? f with
  | none =>
    simp only [hclosure] at hrun
    cases hrun
  | some c =>
    refine ⟨c, rfl, ?_⟩
    by_contra hmissing
    simp only [hclosure, if_pos (show c.missing < 2 by omega)] at hrun
    cases hrun

namespace Read

theorem stands (hread : Read options R w) (hheld : h ∈ w.held) :
    R.Stands options h (R.object h.target) :=
  ⟨.inl rfl, hread.tagged h hheld⟩

theorem advances {hs : List Handle} (hread : Read options R w) (hsub : hs ⊆ w.held)
    (hev : Advances (hs.map Handle.holding : Multiset Holding) w.heap R s'.heap R')
    (hup : R'.Upholds options s'.heap (hs.map Handle.holding)) : Read options R' ⟨s', hs⟩ where
  upholds := hup
  tagged g hg := by
    rw [hev.object g.target (holding_mem hg)]
    exact hread.tagged g (hsub hg)
  idle o ho := hread.idle o (hev.running o ho).1

theorem cons {hs : List Handle} {r : Handle} (hread : Read options R w) (hsub : hs ⊆ w.held)
    (hev : Advances (hs.map Handle.holding : Multiset Holding) w.heap R s'.heap R')
    (hup : R'.Upholds options s'.heap ({r.holding} + (hs.map Handle.holding : Multiset Holding)))
    (hr : (R'.object r.target).Tagged r.tag) : Read options R' ⟨s', r :: hs⟩ where
  upholds := hup
  tagged g hg := by
    obtain rfl | hg := List.mem_cons.1 hg
    · exact hr
    · rw [hev.object g.target (Multiset.mem_coe.2 (List.mem_map_of_mem hg))]
      exact hread.tagged g (hsub hg)
  idle o ho := hread.idle o (hev.running o ho).1

theorem of_mirrors {hs : List Handle} {r : Handle} {act : Run Handle}
    {good : Reading → Handle → Tree → Prop} {layers : Nat → Except Signal Tree}
    (hread : Read options R w) (hsub : hs ⊆ w.held)
    (h : Mirrors options d w.heap R (hs.map Handle.holding : Multiset Holding)
      (fun r : Handle => {r.holding}) good layers (act w.machine))
    (hgood : ∀ R' r t, good R' r t → (R'.object r.target).Tagged r.tag)
    (hrun : act w.machine = .ok r s') : ∃ R', Read options R' ⟨s', r :: hs⟩ := by
  rw [hrun] at h
  obtain ⟨R', hev, hup, t, hr, -⟩ := h
  exact ⟨R', hread.cons hsub hev hup (hgood R' r t hr)⟩

theorem perm {hs hs' : List Handle} (hread : Read options R ⟨s, hs⟩) (hperm : hs.Perm hs') :
    Read options R ⟨s, hs'⟩ := by
  have hsame : (hs'.map Handle.holding : Multiset Holding) = hs.map Handle.holding :=
    Multiset.coe_eq_coe.2 (hperm.map Handle.holding).symm
  have hup : R.Upholds options s.heap ↑(hs'.map Handle.holding) := hsame ▸ hread.upholds
  exact ⟨hup, fun g hg => hread.tagged g (hperm.mem_iff.2 hg), hread.idle⟩

theorem share {hs : List Handle} (hread : Read options R ⟨s, hs⟩) (hlive : s.heap.IsLive h.edge)
    (htagged : (R.object h.target).Tagged h.tag) :
    Read options R ⟨s.on (·.retain h), h :: hs⟩ :=
  hread.cons (List.Subset.refl _) .share (hread.upholds.share hlive) htagged

theorem release {hs : List Handle} (hread : Read options R ⟨s, h :: hs⟩) :
    Read options R ⟨s.on (·.release h), hs⟩ := by
  have hup : R.Upholds options s.heap (h.holding ::ₘ (hs.map Handle.holding : Multiset Holding)) :=
    hread.upholds
  exact hread.advances (List.subset_cons_self ..) (.release hup.valid (Multiset.Subset.refl _))
    hup.release

theorem declare {hs : List Handle} {k : Combinator} {r : Handle} {static : Bool}
    (hread : Read options R ⟨s, hs⟩) (hstateless : k.body.IsStateless)
    (hcaptures : ∀ g ∈ k.body.captures, g ∈ hs)
    (hrun : (do
      k.body.captures.forM fun g => Run.change (·.retain g)
      let c ← Run.add (·.newCombinator k)
      let kind := ObjectKind.closure (.bare c k.arity)
      if static then Run.add (·.newStatic kind) else Run.newObject kind : Run Handle) s =
        .ok r s') : ∃ R', Read options R' ⟨s', r :: hs⟩ := by
  have hheld : ∀ g ∈ k.body.captures, g.holding ∈ (hs.map Handle.holding : Multiset Holding) :=
    fun g hg => holding_mem (hcaptures g hg)
  obtain ⟨s₁, hretain, hcontents, hup₁⟩ := hread.upholds.retainAll (s := s)
    fun g hg => hread.upholds.live (hheld g hg)
  have hup₂ : R.Upholds options s₁.heap (k.holdings + (hs.map Handle.holding : Multiset Holding)) := by
    refine ⟨?_, hup₁.fits⟩
    have hraises := (Valid.errors k.body.raises).2 hup₁.valid
    convert hraises using 1
    simp only [Combinator.holdings, Holder.holdings, ← Multiset.coe_add]
    abel
  obtain ⟨R', hsame, hobject, hup'⟩ := hup₂.declare hstateless fun g hg =>
    hread.tagged g (hcaptures g hg)
  have hidle : ∀ hold o, ¬ ((s₁.heap.newCombinator k).2.addObject hold
      (.closure (.bare (s₁.heap.newCombinator k).1 k.arity))).2.Running o := by
    rintro hold o ⟨c, hkind, hmemo⟩
    simp only [kindOf?, object?_addObject] at hkind
    split at hkind
    · cases hkind
      cases hmemo
    · have hadvances : Advances 0 s.heap R s₁.heap R := .of_contents hcontents
      exact hread.idle o (hadvances.running o ⟨c, hkind, hmemo⟩).1
  have htagged : ∀ g ∈ .plain s₁.heap.nextObject :: hs, (R'.object g.target).Tagged g.tag := by
    intro g hg
    obtain rfl | hg := List.mem_cons.1 hg
    · exact ⟨by simp [hobject, Handle.plain, Tree.IsFailed], .inl rfl⟩
    · rw [hsame _ (hup₂.valid.ne_nextObject
        (Multiset.mem_add.2 (.inr (Multiset.mem_add.2 (.inr (holding_mem hg))))))]
      exact hread.tagged g hg
  rw [Run.bind_run, hretain] at hrun
  cases static with
  | true =>
    cases hrun
    exact ⟨R', hup' .static (by simp), htagged, hidle .static⟩
  | false =>
    cases hrun
    exact ⟨R', hup' (.shared 1 0) (by simp), htagged, hidle (.shared 1 0)⟩

theorem step (hoptions : options.checkResults = false) (hread : Read options R w)
    (hstep : Step options w w') : ∃ R', Read options R' w' := by
  have hmade : ∀ (R' : Reading) r t, R'.Made r t → (R'.object r.target).Tagged r.tag :=
    fun R' r t h => ⟨by simp [h.tag, h.tree, h.sound], .inl h.tag⟩
  have hshows : ∀ (R' : Reading) r t, R'.Shows r t → (R'.object r.target).Tagged r.tag :=
    fun R' r t h => h.tree ▸ h.tagged
  cases hstep with
  | value hplain hrun =>
    exact hread.of_mirrors (d := 0) (List.Subset.refl _)
      (Run.newValue_mirrors hread.upholds hplain) hmade hrun
  | exception e hrun =>
    exact hread.of_mirrors (d := 0) (List.Subset.refl _) (.newException e hread.upholds) hshows hrun
  | primitive p hrun =>
    have hplain : R.object ⟨p.place⟩ = .function p.code := hread.upholds.fits.library p
    cases hrun
    exact ⟨R, hread.share (hread.upholds.valid.library.live p)
      ⟨by simp [Handle.plain, hplain, Tree.IsFailed], .inl rfl⟩⟩
  | declare static hdeclared hstateless hcaptures hrun =>
    exact hread.declare hstateless hcaptures hrun
  | pair hrun =>
    exact hread.of_mirrors (d := 0) (List.subset_cons_of_subset _ (List.subset_cons_self ..))
      (Run.newPair_mirrors hread.upholds (hread.stands List.mem_cons_self)
        (hread.stands (List.mem_cons_of_mem _ List.mem_cons_self))) hmade hrun
  | apply hrun =>
    exact hread.of_mirrors (d := 0) (List.subset_cons_of_subset _ (List.subset_cons_self ..))
      (Run.newApplication_mirrors hread.upholds (hread.stands List.mem_cons_self)
        (hread.stands (List.mem_cons_of_mem _ List.mem_cons_self))) hmade hrun
  | bind hrun =>
    exact hread.of_mirrors (d := 0) (List.subset_cons_of_subset _ (List.subset_cons_self ..))
      (Run.applyArgument_mirrors hread.upholds
        (hread.stands (List.mem_cons_of_mem _ List.mem_cons_self)))
      (fun R' r t h => hmade R' r t h.1) hrun
  | @refused s s' held f x e hrun =>
    have hup₀ : R.Upholds options s.heap
        (f.holding ::ₘ x.holding ::ₘ (held.map Handle.holding : Multiset Holding)) := hread.upholds
    have hmirrors := Run.applyArgument_mirrors (d := 0) hup₀
      (hread.stands (List.mem_cons_of_mem _ List.mem_cons_self))
    rw [hrun] at hmirrors
    obtain ⟨R', hev, hup⟩ := hmirrors.2 (by simp)
    exact ⟨R', hread.advances (List.subset_cons_of_subset _ (List.subset_cons_self ..)) hev hup⟩
  | bindSelf hheld hrun =>
    obtain ⟨c, hclosure, hmissing⟩ := bindSelf_ok hrun
    exact hread.of_mirrors (d := 0) (List.Subset.refl _)
      (Run.bindSelf_mirrors hread.upholds (holding_mem hheld) hclosure hmissing) hmade hrun
  | evaluate hheld hties hrun =>
    obtain ⟨depth, hknotless⟩ := hties _ _ _ hrun
    exact hread.of_mirrors (List.Subset.refl _)
      ((Evaluator.reduceKnotless_isMirror hoptions depth).handle hread.upholds
        (holding_mem hheld) (hread.stands hheld)) hshows hknotless
  | share hheld hrun =>
    cases hrun
    exact ⟨R, hread.share (hread.upholds.live (holding_mem hheld)) (hread.tagged _ hheld)⟩
  | release hrun =>
    cases hrun
    exact ⟨R, hread.release⟩
  | reorder hperm => exact ⟨R, hread.perm hperm⟩

end Read

theorem Reached.read (hoptions : options.checkResults = false) (hreached : Reached options w) :
    ∃ R, Read options R w := by
  induction hreached with
  | refl => exact ⟨library, upholds_initial options, by simp, not_running_initial⟩
  | tail _ hstep ih =>
    obtain ⟨R, hread⟩ := ih
    exact hread.step hoptions hstep

end Holder

end GraphReduction
