import Mathlib
import GraphReduction.Proofs.Contexts.Begun
import GraphReduction.Proofs.Labels.Demand
import GraphReduction.Proofs.Supply.Deepens

/-! Calls. A primitive with all the arguments that it takes is run on them unevaluated, in a closure of
its own; up to then nothing has happened but that the nodes of the call before the last one keep
their results. -/
namespace GraphReduction

open Heap Run

variable {s s' : Machine} {m m' : Heap} {rest : Multiset Holding} {c : Closure}
  {f h head x r y : Handle} {t : ThunkId} {n o : ObjectId} {p : Primitive} {xs : List Handle}
  {ns : List ObjectId} {options : Options} {cell : Edge}

namespace Heap

/-- The handle `h` applies the primitive to all of its arguments over the nodes `ns`, none of which is
an argument itself. -/
structure Call (m : Heap) (p : Primitive) (xs : List Handle) (ns : List ObjectId) (h : Handle) :
    Prop where
  spine : m.Spine (.plain ⟨p.place⟩) xs ns h
  arity : xs.length = p.arity
  untied : ∀ x ∈ xs, m.Untied x
  outside : ∀ x ∈ xs, x.target ∉ ns

namespace Spine

theorem reaches_parts (hspine : m.Spine head xs ns f) :
    (∀ n ∈ ns, m.Reaches f (.object n)) ∧ ∀ x ∈ xs, m.Reaches f x.edge := by
  induction hspine with
  | nil => simp
  | @snoc _ _ f n x hf hkind ih =>
    have hpart : ∀ h : Handle, h.holding ∈ (ObjectKind.application (.pending f x)).holdings →
        m.Reaches (.plain n) h.edge := fun h hh =>
      Reaches.here.next (by simpa [Handle.edge, Handle.plain, holds_of_kindOf? hkind] using hh) rfl
    have hstep := hpart f (by simp)
    refine ⟨List.forall_mem_append.mpr ⟨fun n' hn' => hstep.trans (ih.1 n' hn'), ?_⟩,
      List.forall_mem_append.mpr ⟨fun y hy => hstep.trans (ih.2 y hy), ?_⟩⟩
    · exact List.forall_mem_singleton.mpr .here
    · exact List.forall_mem_singleton.mpr (hpart x (by simp))

theorem kindOf?_node (hspine : m.Spine head xs ns f) (hn : n ∈ ns) :
    ∃ f x, m.kindOf? n = some (.application (.pending f x)) := by
  induction hspine with
  | nil => simp at hn
  | snoc _ hkind ih =>
    obtain hn | hn := List.mem_append.mp hn
    · exact ih hn
    · exact ⟨_, _, List.mem_singleton.mp hn ▸ hkind⟩

theorem length_unique {xs' : List Handle} {ns' : List ObjectId} (hspine : m.Spine head xs ns f)
    (hspine' : m.Spine head xs' ns' f) (hhead : ∀ n ∈ ns, head ≠ .plain n)
    (hhead' : ∀ n ∈ ns', head ≠ .plain n) : ns.length = ns'.length := by
  induction hspine generalizing xs' ns' with
  | nil =>
    cases hspine' with
    | nil => rfl
    | snoc => exact absurd rfl (hhead' _ (by simp))
  | snoc _ hkind ih =>
    cases hspine' with
    | nil => exact absurd rfl (hhead _ (by simp))
    | snoc hf' hkind' =>
      cases hkind.symm.trans hkind'
      rw [List.length_append, List.length_append, ih hf'
        (fun n hn => hhead n (List.mem_append_left _ hn))
        fun n hn => hhead' n (List.mem_append_left _ hn)]

theorem upTo (hspine : m.Spine head xs ns f) (hn : n ∈ ns) :
    ∃ xs' ns', m.Spine head xs' ns' (.plain n) ∧ ns' ⊆ ns ∧ ns'.length ≤ ns.length := by
  induction hspine with
  | nil => simp at hn
  | @snoc xs ns f n' x hf hkind ih =>
    obtain hn | hn := List.mem_append.mp hn
    · obtain ⟨xs', ns', hspine', hsub, hlength⟩ := ih hn
      exact ⟨xs', ns', hspine', List.subset_append_of_subset_left _ hsub,
        by simpa using Nat.le_succ_of_le hlength⟩
    · rw [List.mem_singleton.mp hn]
      exact ⟨_, _, hf.snoc hkind, List.Subset.refl _, le_rfl⟩

theorem nodup (hspine : m.Spine head xs ns f) (hhead : ∀ n ∈ ns, head ≠ .plain n) : ns.Nodup := by
  induction hspine with
  | nil => exact List.nodup_nil
  | @snoc xs ns f n x hf hkind ih =>
    have hbefore := fun n hn => hhead n (List.mem_append_left _ hn)
    refine List.nodup_append.mpr ⟨ih hbefore, List.nodup_singleton n, fun n' hn' k hk => ?_⟩
    rw [List.mem_singleton.mp hk]
    rintro rfl
    -- it would be reached again after fewer steps
    obtain ⟨xs', ns', hspine', hsub, hlength⟩ := hf.upTo hn'
    have := (hf.snoc hkind).length_unique hspine' hhead fun n hn => hbefore n (hsub hn)
    rw [List.length_append, List.length_singleton] at this
    omega

theorem nodup_primitive (hspine : m.Spine (.plain ⟨p.place⟩) xs ns f) (hintact : m.Intact) :
    ns.Nodup := by
  refine hspine.nodup fun n hn heq => ?_
  obtain ⟨f, x, hkind⟩ := hspine.kindOf?_node hn
  cases heq
  cases (hintact.closure p).symm.trans hkind

end Spine

namespace Call

theorem unchanged (hcall : m.Call p xs ns h) (hsame : m.Unchanged m' h) : m'.Call p xs ns h := by
  obtain ⟨hnodes, hargs⟩ := hcall.spine.reaches_parts
  have hkind : ∀ o, m.Reaches h (.object o) → m'.kindOf? o = m.kindOf? o := hsame.object
  exact ⟨hcall.spine.congr fun n hn => hkind n (hnodes n hn), hcall.arity,
    fun x hx => (hcall.untied x hx).of_kind (hkind _ (hargs x hx)), hcall.outside⟩

theorem last (hcall : m.Call p xs (ns ++ [n]) h) :
    ∃ xs' x f, xs = xs' ++ [x] ∧ h = .plain n ∧ m.Spine (.plain ⟨p.place⟩) xs' ns f ∧
      m.kindOf? n = some (.application (.pending f x)) := by
  obtain ⟨hspine, -⟩ := hcall
  generalize hns : ns ++ [n] = ns' at hspine
  cases hspine with
  | nil => simp at hns
  | snoc hf hkind =>
    obtain ⟨rfl, rfl⟩ := List.append_singleton_inj.mp hns
    exact ⟨_, _, _, rfl, rfl, hf, hkind⟩

end Call

end Heap

namespace Evaluator

/-- In `s'` the closure `c` is in the new object `b`, the primitive with all its arguments, none of
them evaluated, and the computation of its result begins. Nothing else has happened since `s` but
that nodes of `ns` keep their results. -/
structure Entered (s : Machine) (rest : Multiset Holding) (p : Primitive) (xs : List Handle)
    (ns : List ObjectId) (b : ObjectId) (c : Closure) (s' : Machine) : Prop where
  upright : s'.heap.Upright (.strong (.object b) ::ₘ rest)
  kind : s'.heap.kindOf? b = some (.closure { c with memo := .running })
  applied : s'.heap.Applied p xs c
  fresh : ¬ s.heap.Allocated (.object b)
  slots : ∀ t ∈ c.arguments, ¬ s.heap.Allocated (.thunk t)
  preserves : Preserves {cell | ∃ n ∈ ns, cell = .object n} s.heap s'.heap

namespace Entered

variable {b : ObjectId}

theorem intact {xs' : List Handle} (hentered : Entered s rest p xs ns b c s')
    (hspine : s.heap.Spine head xs' ns f)
    (hintact : s.heap.Intact) : s'.heap.Intact := by
  refine hentered.preserves.intact hintact ?_
  rintro _ ⟨n, hn, rfl⟩
  obtain ⟨f, x, hkind⟩ := hspine.kindOf?_node hn
  exact not_mem_libraryCells hintact hkind (by simp)

theorem unchanged {own : Multiset Holding} (hentered : Entered s rest p xs ns b c s')
    (hcounted : s.heap.Counted own) (hlive : s.heap.IsLive y.edge)
    (hapart : ∀ n ∈ ns, ¬ s.heap.Reaches y (.object n)) : s.heap.Unchanged s'.heap y := by
  refine hentered.preserves.unchanged hcounted hlive ?_
  rintro _ ⟨n, hn, rfl⟩
  exact hapart n hn

theorem argument {i : Nat} (hentered : Entered s rest p xs ns b c s') (hi : xs[i]? = some y) :
    ∃ t ∈ c.arguments, c.argument? i = some t ∧ s'.heap.stateOf? t = some (.pending y) := by
  have hlength := hentered.applied.arguments.length_eq
  obtain ⟨hlt, rfl⟩ := List.getElem?_eq_some_iff.mp hi
  refine ⟨c.arguments[i], List.getElem_mem _, ?_, ?_⟩
  · rw [show c.argument? i = c.arguments[i]? from
      Closure.argument?_eq (hentered.upright.valid.proper _ _ hentered.kind) i,
      List.getElem?_eq_getElem]
  · exact (List.forall₂_iff_get.mp hentered.applied.arguments).2 i hlt (hlength ▸ hlt)

theorem argument_ne {i j : Nat} (hentered : Entered s rest p xs ns b c s') (hij : i ≠ j)
    (hi : c.argument? i = some t) : c.argument? j ≠ some t := by
  have hproper := hentered.upright.valid.proper _ _ hentered.kind
  have hsame : ∀ i, c.argument? i = c.arguments[i]? := Closure.argument?_eq hproper
  rw [hsame] at hi ⊢
  intro hj
  obtain ⟨hlt, hi⟩ := List.getElem?_eq_some_iff.mp hi
  obtain ⟨hlt', hj⟩ := List.getElem?_eq_some_iff.mp hj
  exact hij ((hentered.applied.distinct.getElem_inj_iff).mp (hi.trans hj.symm))

theorem held (hentered : Entered s rest p xs ns b c s') (hintact : s'.heap.Intact) :
    ∃ k, s'.heap.combinator? c.combinator = some k ∧ k.combinator.body = p.body := by
  rw [hentered.applied.combinator]
  exact Option.map_eq_some_iff.mp (hintact.body p)

end Entered

theorem call_enters (options : Options) (hcall : s.heap.Call p xs (ns ++ [n]) h)
    (hup : s.heap.Upright rest) (hintact : s.heap.Intact) :
    ∃ xs' f x b c s₁, h = .plain n ∧ s.heap.Spine (.plain ⟨p.place⟩) xs' ns f ∧
      s.heap.kindOf? n = some (.application (.pending f x)) ∧ n ∉ ns ∧ c.memo = .empty ∧
      Entered s (f.holding ::ₘ rest) p xs ns b c (s₁.on (·.setMemo b .running)) ∧
      ∀ depth, xs.length ≤ depth →
        application options (reduceUpTo options depth) f x (takeNode s f x) =
          releasing (.plain b) (result options (reduceUpTo options depth) (.plain b) c) s₁ := by
  obtain ⟨xs, x, f, rfl, rfl, hf, hkind⟩ := hcall.last
  have hn : n ∉ ns := by
    have hboth := hcall.spine.nodup_primitive hintact
    exact fun hin => (List.nodup_append.mp hboth).2.2 n hin n (by simp) rfl
  have htaken := contents_takeNode s f x
  have harity : xs.length + 1 = p.arity := by simpa using hcall.arity
  have hnodup := hf.nodup_primitive hintact
  have hup₀ := upright_takeNode hup hkind
  have hargs : ∀ y ∈ xs, s.heap.Untied y ∧ y.target ∉ ns := fun y hy =>
    ⟨hcall.untied y (by simp [hy]), fun hin => hcall.outside y (by simp [hy]) (by simp [hin])⟩
  obtain ⟨g, s', hrun, hbegun⟩ := begun options hf htaken hup₀ (by simp) hintact
    (by omega) hnodup hargs
  obtain ⟨b, t, m, c, hbind, -, hproper, hmissing, hsuspends, happlied, hup', hslots⟩ :=
    hbegun.binds (honest_argument hup hkind hrun) (by omega) fun y hy => by
      obtain ⟨huntied, hout⟩ := hargs y hy
      have hlive := (hf.congr fun _ _ => kindOf?_congr htaken _).live_argument
        hup₀.valid.counted y hy
      exact hbegun.untied hlive (huntied.congr htaken) hout
  have hsaturated : (c.fill t).missing = 0 := by
    have := happlied.missing
    rw [List.length_append, List.length_singleton] at this
    omega
  have hbefore : Preserves {cell | ∃ n ∈ ns, cell = .object n} s.heap m :=
    ((Preserves.of_contents htaken).trans hbegun.preserves).trans
      (hsuspends.preserves.mono (Set.empty_subset _))
  have hold : ∀ {cell}, s.heap.Allocated cell → s'.heap.Allocated cell := fun halloc =>
    hbegun.preserves.allocated _ ((allocated_congr htaken _).mpr halloc)
  have hfresh : ¬ s.heap.Allocated (.object b) := fun halloc => hsuspends.freshObject (hold halloc)
  refine ⟨xs, f, x, b, c.fill t, { s' with heap := m }, rfl, hf, hkind, hn, happlied.memo,
    ⟨?_, ?_, happlied.congr fun _ _ => rfl, hfresh,
      fun u hu halloc => hslots u hu ((allocated_congr htaken _).mpr halloc), ?_, ?_⟩,
    fun depth hdepth => ?_⟩
  · exact hup'.setMemo hsuspends.closure (by simp [happlied.memo, Memo.result?]) hsaturated (by simp)
  · rw [Machine.heap_on, kindOf?_setMemo, if_pos rfl, hsuspends.closure]
    rfl
  · exact fun cell halloc => (allocated_setMemo m b _ cell).mpr (hbefore.allocated cell halloc)
  · intro cell halloc hcell
    refine (AgreeOff.setMemo m b .running cell ?_).trans (hbefore.content cell halloc hcell)
    rintro rfl
    exact hfresh halloc
  · have hfull : (c.fill t).isSaturated = true := by simp [Closure.isSaturated, hsaturated]
    rw [List.length_append, List.length_singleton] at hdepth
    rw [application_bound (reduceUpTo_mono hrun hdepth) hbegun.tag hbind hsuspends.closure,
      if_pos hfull]

end Evaluator

end GraphReduction
