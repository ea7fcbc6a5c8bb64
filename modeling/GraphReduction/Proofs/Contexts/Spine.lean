import Mathlib
import GraphReduction.Proofs.Contexts.Aftermath
import GraphReduction.Proofs.Tags.Reduction

/-! Spines of applications. A closure that somebody else refers to as well is copied when it is bound
to one more argument; what was there before stays as it is, and the copy holds all the arguments
unevaluated. -/
namespace GraphReduction

open Heap Run

namespace Heap

/-- The handle is no self reference that has been tied already. -/
def Untied (m : Heap) (x : Handle) : Prop :=
  ∀ k, m.application? x = some (.knot k) → k = .unresolved

/-- The handle `f` applies `head` to the arguments `xs` over the nodes `ns`, first ones first. -/
inductive Spine (m : Heap) (head : Handle) : List Handle → List ObjectId → Handle → Prop where
  | nil : Spine m head [] [] head
  | snoc {xs ns f n x} (hf : Spine m head xs ns f)
      (hkind : m.kindOf? n = some (.application (.pending f x))) :
      Spine m head (xs ++ [x]) (ns ++ [n]) (.plain n)

/-- All that was there is as it was, but for cells of `W`. -/
structure Preserves (W : Set Edge) (m m' : Heap) : Prop where
  allocated : ∀ cell, m.Allocated cell → m'.Allocated cell
  content : ∀ cell, m.Allocated cell → cell ∉ W → m'.content? cell = m.content? cell

/-- The closure `c` is bound to one more argument, which is suspended, in an object of its own. -/
structure Suspends (m : Heap) (c : Closure) (x : Handle) (b : ObjectId) (t : ThunkId) (m' : Heap) :
    Prop where
  freshObject : ¬ m.Allocated (.object b)
  freshThunk : ¬ m.Allocated (.thunk t)
  closure : m'.kindOf? b = some (.closure (c.fill t))
  thunk : m'.stateOf? t = some (.pending x)
  preserves : Preserves ∅ m m'

/-- The closure is the primitive applied to the arguments, of which nothing has been evaluated. -/
structure Applied (m : Heap) (p : Primitive) (xs : List Handle) (c : Closure) : Prop where
  combinator : c.combinator = ⟨p.place⟩
  missing : c.missing + xs.length = p.arity
  memo : c.memo = .empty
  arguments : List.Forall₂ (fun x t => m.stateOf? t = some (.pending x)) xs c.arguments
  distinct : c.arguments.Nodup

end Heap

variable {s s' : Machine} {m m' : Heap} {own rest others : Multiset Holding} {c : Closure}
  {f g h x r : Handle} {t : ThunkId} {o : ObjectId} {p : Primitive} {xs : List Handle}
  {ns : List ObjectId} {options : Options}

namespace Heap.Preserves

variable {W : Set Edge} {m'' : Heap}

theorem of_contents (hsame : m'.contents = m.contents) : Preserves W m m' :=
  ⟨fun cell => (allocated_congr hsame cell).mpr, fun cell _ _ => content?_congr hsame cell⟩

theorem of_extends (hext : m.Extends m') : Preserves W m m' where
  allocated := hext.allocated
  content cell halloc _ := by
    cases cell with
    | object o => rw [content?, content?, hext.kindOf?_eq halloc]
    | thunk t => rw [content?, content?, hext.stateOf?_eq halloc]
    | combinator k =>
      rw [content?, content?]
      by_cases hlive : m.IsLive (.combinator k)
      · obtain ⟨d, hd⟩ := exists_combinatorOf? hlive
        rw [hd, hext.combinator k d hd]
      · have hdead : ¬ m'.IsLive (.combinator k) := fun hlive' =>
          hlive (hext.live _ halloc hlive')
        rw [IsLive, Option.not_isSome_iff_eq_none] at hlive hdead
        simp [combinatorOf?, hlive, hdead]

theorem trans (h : Preserves W m m') (h' : Preserves W m' m'') : Preserves W m m'' where
  allocated cell halloc := h'.allocated cell (h.allocated cell halloc)
  content cell halloc hcell :=
    (h'.content cell (h.allocated cell halloc) hcell).trans (h.content cell halloc hcell)

theorem mono {W' : Set Edge} (h : Preserves W m m') (hsub : W ⊆ W') : Preserves W' m m' :=
  ⟨h.allocated, fun cell halloc hcell => h.content cell halloc fun hin => hcell (hsub hin)⟩

theorem kindOf?_eq (h : Preserves W m m') (halloc : m.Allocated (.object o)) (ho : .object o ∉ W) :
    m'.kindOf? o = m.kindOf? o :=
  kindOf?_of_content? (h.content _ halloc ho)

theorem stateOf?_eq (h : Preserves W m m') (halloc : m.Allocated (.thunk t)) (ht : .thunk t ∉ W) :
    m'.stateOf? t = m.stateOf? t :=
  stateOf?_of_content? (h.content _ halloc ht)

theorem unchanged {own : Multiset Holding} {y : Handle} (h : Preserves W m m')
    (hcounted : m.Counted own) (hlive : m.IsLive y.edge) (hout : ∀ cell ∈ W, ¬ m.Reaches y cell) :
    m.Unchanged m' y :=
  unchanged_iff.mpr fun cell hcell => h.content cell (hcell.allocated hcounted hlive) fun hin =>
    hout cell hin hcell

theorem intact (h : Preserves W m m') (hintact : m.Intact) (hout : ∀ cell ∈ W, cell ∉ libraryCells) :
    m'.Intact :=
  hintact.of_same fun cell hcell => h.content cell (hintact.isLive hcell).allocated fun hin =>
    hout cell hin hcell

end Heap.Preserves

/-! Sharing slots with a copy -/

theorem ThunkId.copyTarget?_pending (hstate : s.heap.stateOf? t = some (.pending x))
    (huntied : s.heap.Untied x) : t.copyTarget? s = .ok none s := by
  simp only [copyTarget?, Run.bind_run, state?_run, hstate, Run.inspect_run]
  cases hnode : s.heap.application? x with
  | none => rfl
  | some a =>
    cases a with
    | pending | reduced => rfl
    | knot k =>
      obtain rfl := huntied k hnode
      rfl

namespace Heap.Untied

theorem of_kind (huntied : m.Untied x) (hsame : m'.kindOf? x.target = m.kindOf? x.target) :
    m'.Untied x := by
  have hnode : m'.application? x = m.application? x := by
    simp only [kindOf?] at hsame
    simp [application?, plainKind?, kind?, hsame]
  exact fun k hk => huntied k (hnode ▸ hk)

theorem congr (huntied : m.Untied x) (hsame : m'.contents = m.contents) : m'.Untied x :=
  huntied.of_kind (kindOf?_congr hsame _)

end Heap.Untied

namespace Closure

theorem copySlots_shared {slots : List (Option ThunkId)}
    (hslots : ∀ t, some t ∈ slots → ∃ x, s.heap.stateOf? t = some (.pending x) ∧ s.heap.Untied x) :
    ∃ m, slots.mapM copySlot s = .ok slots { s with heap := m } ∧ m.contents = s.heap.contents := by
  induction slots generalizing s with
  | nil => exact ⟨s.heap, rfl, rfl⟩
  | cons slot slots ih =>
    have hrest := fun t ht => hslots t (List.mem_cons_of_mem _ ht)
    rw [List.mapM_cons]
    cases slot with
    | none =>
      obtain ⟨m, hrun, hsame⟩ := ih hrest
      exact ⟨m, by simp only [Run.bind_run, copySlot, Run.pure_run, hrun], hsame⟩
    | some t =>
      obtain ⟨x, hstate, huntied⟩ := hslots t List.mem_cons_self
      have hshared : (s.heap.retainThunk t).contents = s.heap.contents :=
        contents_retainEdge s.heap (.thunk t)
      obtain ⟨m, hrun, hsame⟩ := ih (s := s.on (·.retainThunk t)) fun t ht => by
        obtain ⟨x, hstate, huntied⟩ := hrest t ht
        exact ⟨x, (stateOf?_congr hshared t).trans hstate, huntied.congr hshared⟩
      have hrun' : slots.mapM copySlot { s with heap := s.heap.retainThunk t } = _ := hrun
      refine ⟨m, ?_, hsame.trans hshared⟩
      simp only [copySlot, ThunkId.forCopy, Run.bind_run,
        ThunkId.copyTarget?_pending hstate huntied, ThunkId.share, Run.change_run, Run.pure_run,
        hrun']
      rfl

theorem copy_shared (hmemo : c.memo = .empty)
    (hslots : ∀ t ∈ c.arguments, ∃ x, s.heap.stateOf? t = some (.pending x) ∧ s.heap.Untied x) :
    ∃ m, c.copy s = .ok c { s with heap := m } ∧ m.contents = s.heap.contents := by
  have hfilled : ∀ t, some t ∈ c.slots.toList →
      ∃ x, s.heap.stateOf? t = some (.pending x) ∧ s.heap.Untied x := fun t ht =>
    hslots t (by simpa [arguments] using ht)
  obtain ⟨m, hrun, hsame⟩ := copySlots_shared hfilled
  refine ⟨m.retainCombinator c.combinator, ?_, ?_⟩
  · obtain ⟨k, missing, slots, memo⟩ := c
    cases hmemo
    simp only [copy, Run.bind_run, hrun, Run.change_run, copyMemo, Run.pure_run,
      Array.toArray_toList]
  · exact (contents_retainEdge m (.combinator c.combinator)).trans hsame

end Closure

namespace Run

theorem applyArgument_shares (hvalid : s.heap.Valid (g.holding ::ₘ x.holding ::ₘ others))
    (hkind : s.heap.kindOf? g.target = some (.closure c)) (hmissing : 0 < c.missing)
    (hmemo : c.memo = .empty)
    (hslots : ∀ t ∈ c.arguments, ∃ x, s.heap.stateOf? t = some (.pending x) ∧ s.heap.Untied x)
    (hshared : s.heap.isStatic g = true ∨ g.holding ∈ s.heap.held + others) :
    ∃ b t m, applyArgument g x s = .ok (.plain b) { s with heap := m } ∧
      s.heap.Suspends c x b t m := by
  have hproper := hvalid.proper _ _ hkind
  have hsuspended : s.heap.Extends (suspended s x).heap := extends_newThunk _ _
  have hlive : ∀ t ∈ c.arguments, s.heap.IsLive (.thunk t) := fun t ht =>
    hvalid.counted.live_of_kind hkind (by simp [ObjectKind.holdings_closure, ht])
  have hplace : ¬ s.heap.InPlace g c := by
    intro hplace
    obtain hstatic | hheld := hshared
    · exact absurd (hplace.unique.recorded.1.symm.trans (Valid.recorded_of_isStatic hstatic))
        (by simp)
    · refine (hvalid.counted.not_held_of_unique hplace.unique).1 ?_
      simp only [Multiset.mem_add, Multiset.mem_cons] at hheld ⊢
      exact hheld.imp_right .inr
  -- no slot leads back in the heap with the new thunk either
  obtain ⟨m₁, hcopy, hsame⟩ := Closure.copy_shared (s := suspended s x) hmemo fun t ht => by
    obtain ⟨y, hstate, huntied⟩ := hslots t ht
    exact ⟨y, hsuspended.state t _ hstate, huntied⟩
  have hgives : Gives others ∅ (suspended s x)
      (g.untagged.holding ::ₘ {.strong (.thunk ⟨s.heap.thunks.next⟩)}) c.copy _ :=
    copy_frame hkind
  have hvalid₀ := suspended_valid hvalid
  rw [Multiset.cons_swap, ← Multiset.singleton_add _ others, ← Multiset.cons_add] at hvalid₀
  obtain ⟨fresh, s₁, hcopy', hmoves⟩ := hgives hvalid₀
  cases hcopy.symm.trans hcopy'
  have hvalid₁ := hmoves.valid _ hvalid₀
  rw [add_assoc, add_assoc, Multiset.singleton_add, Multiset.singleton_add] at hvalid₁
  have hext₁ : s.heap.Extends m₁ := IsGrowth.trans hsuspended (Closure.copy_extends hcopy)
  let t : ThunkId := ⟨s.heap.thunks.next⟩
  let m₂ : Heap := (m₁.newObject (.closure (c.fill t))).2
  have hext : s.heap.Extends m₂ := IsGrowth.trans hext₁ (extends_addObject _ _ _)
  have hvalid₂ : m₂.Valid (.strong (.object m₁.nextObject) ::ₘ g.untagged.holding ::ₘ others) := by
    refine Valid.newObject ?_ fun d hd => by cases hd; exact hproper.fill hmissing t
    rw [Closure.holdings_fill hproper hmissing]
    rwa [Multiset.add_cons, ← Multiset.cons_add] at hvalid₁
  have hreleased : (m₂.release g.untagged).contents = m₂.contents := by
    rw [Multiset.cons_swap] at hvalid₂
    refine contents_release hvalid₂.counted (hshared.imp (fun hstatic => ?_) fun hheld => ?_)
    · exact Valid.recorded_of_isStatic (h := g) (hext.static _ hstatic)
    · obtain hheld | hheld := Multiset.mem_add.mp hheld
      · obtain ⟨owner, howns⟩ := mem_held.mp hheld
        have hsame : m₂.holds owner = s.heap.holds owner :=
          hext.holds (isLive_of_holds howns)
        exact Multiset.mem_add.mpr (.inl (Multiset.mem_of_le (holds_le_held m₂ owner)
          (hsame.symm ▸ howns)))
      · exact Multiset.mem_add.mpr (.inr (Multiset.mem_cons_of_mem hheld))
  have hclosure : (suspended s x).heap.closure? g.untagged = some c :=
    closure?_of_kindOf? rfl hkind
  refine ⟨m₁.nextObject, t, m₂.release g.untagged, ?_, ?_⟩
  · rw [applyArgument_run, bindThunk_copy hclosure hproper hmissing
      (fun h => hplace ((inPlace_suspended hvalid hkind).mp h)) hcopy]
    rfl
  · refine ⟨fun halloc => ?_, fresh_suspended s, ?_, ?_, ?_⟩
    · exact (grows_newObject m₁ (.exception .blackHole)).fresh (hext₁.allocated _ halloc)
    · rw [kindOf?_congr hreleased]
      exact (kindOf?_newObject ..).trans (if_pos rfl)
    · rw [stateOf?_congr hreleased]
      exact (stateOf?_congr hsame t).trans (stateOf?_suspended s x)
    · exact (Preserves.of_extends hext).trans (.of_contents hreleased)

end Run

namespace Heap

namespace Spine

variable {head : Handle}

theorem congr (hspine : m.Spine head xs ns f) (hsame : ∀ n ∈ ns, m'.kindOf? n = m.kindOf? n) :
    m'.Spine head xs ns f := by
  induction hspine with
  | nil => exact .nil
  | snoc _ hkind ih =>
    refine .snoc (ih fun n hn => hsame n (by simp [hn])) ?_
    rw [hsame _ (by simp), hkind]

theorem live_argument (hspine : m.Spine head xs ns f) (hcounted : m.Counted own) :
    ∀ x ∈ xs, m.IsLive x.edge := by
  induction hspine with
  | nil => simp
  | @snoc _ _ _ n _ _ hkind ih =>
    refine List.forall_mem_append.mpr ⟨ih, List.forall_mem_singleton.mpr ?_⟩
    exact hcounted.live_of_kind hkind (by simp [Handle.holding])

end Spine

theorem Valid.isStatic_library (hvalid : m.Valid own) (p : Primitive) :
    m.isStatic (.plain ⟨p.place⟩) = true :=
  isStatic_iff.mpr (hvalid.library p)

namespace Applied

theorem congr (happlied : m.Applied p xs c)
    (hsame : ∀ t ∈ c.arguments, m'.stateOf? t = m.stateOf? t) : m'.Applied p xs c := by
  refine ⟨happlied.combinator, happlied.missing, happlied.memo, ?_, happlied.distinct⟩
  have hboth := (List.forall₂_and_left _ _).mpr ⟨fun t ht => ht, happlied.arguments.flip⟩
  exact (hboth.imp fun t x ⟨ht, hstate⟩ => (hsame t ht).trans hstate).flip

theorem slot (happlied : m.Applied p xs c) (ht : t ∈ c.arguments) :
    ∃ x ∈ xs, m.stateOf? t = some (.pending x) := by
  obtain ⟨i, hi, rfl⟩ := List.getElem_of_mem ht
  have hlength := happlied.arguments.length_eq
  exact ⟨xs[i], List.getElem_mem _,
    (List.forall₂_iff_get.mp happlied.arguments).2 i (hlength ▸ hi) hi⟩

theorem fill {b : ObjectId} (happlied : m.Applied p xs c) (hproper : c.Proper)
    (hmissing : 0 < c.missing) (hsuspends : m.Suspends c x b t m') :
    m'.Applied p (xs ++ [x]) (c.fill t) where
  combinator := happlied.combinator
  missing := by
    have := happlied.missing
    simp only [Closure.fill, List.length_append, List.length_singleton]
    omega
  memo := happlied.memo
  arguments := by
    rw [Closure.arguments_fill hproper hmissing]
    refine List.rel_append (happlied.arguments.imp fun y u hstate => ?_) (.cons hsuspends.thunk .nil)
    rwa [hsuspends.preserves.stateOf?_eq (isLive_of_stateOf? hstate).allocated
      (Set.notMem_empty _)]
  distinct := by
    rw [Closure.arguments_fill hproper hmissing]
    refine List.nodup_append.mpr ⟨happlied.distinct, List.nodup_singleton t, fun u hu v hv => ?_⟩
    rw [List.mem_singleton.mp hv]
    rintro rfl
    obtain ⟨y, -, hstate⟩ := happlied.slot hu
    exact hsuspends.freshThunk (isLive_of_stateOf? hstate).allocated

end Applied

end Heap

end GraphReduction
