import Mathlib
import GraphReduction.Proofs.Contexts.Spine

/-! Primitives that miss an argument. Applying a primitive to one argument after the other evaluates
none of them: as long as one is missing, all that evaluation does to what was there is that the nodes
of the spine get their results. -/
namespace GraphReduction

open Heap Run

variable {s s' : Machine} {m : Heap} {rest : Multiset Holding} {c : Closure} {f g x r : Handle}
  {t : ThunkId} {o : ObjectId} {p : Primitive} {xs : List Handle} {ns : List ObjectId}
  {options : Options}

namespace Evaluator

/-- The machine in which a node has kept a result and given its parts back, and so has whoever took
the function from it. -/
def stored (s : Machine) (n : ObjectId) (f x r : Handle) : Machine :=
  s.on fun m => [f, x, f].foldl (·.release ·)
    ((m.retain r.asCached).setKind n (.application (.reduced r.asCached)))

theorem reduceUpTo_pending_ok {n : ObjectId} {depth : Nat}
    (hkind : s.heap.kindOf? n = some (.application (.pending f x)))
    (hrun : application options (reduceUpTo options depth) f x (takeNode s f x) = .ok r s')
    (hkind' : s'.heap.kindOf? n = some (.application (.pending f x))) :
    reduceUpTo options (depth + 1) (.plain n) s = .ok r.asCached (stored s' n f x r) := by
  have hlook : s'.heap.kind? (.plain n) = some (.application (.pending f x)) := hkind'
  rw [reduceUpTo, reduceOnce_pending hkind, releasing_run, Run.bind_run, hrun]
  dsimp only
  rw [store, Run.bind_run, inspect_run]
  dsimp only
  rw [hlook]
  rfl

theorem application_bound {reduce : Reducer} {b : ObjectId} (hreduce : reduce f s = .ok g s')
    (htag : g.tag ≠ .exception) (hbind : applyArgument g x s' = .ok (.plain b) { s' with heap := m })
    (hkind : m.kindOf? b = some (.closure c)) :
    application options reduce f x s =
      (if c.isSaturated then releasing (.plain b) (result options reduce (.plain b) c)
        else pure (.plain b) : Run Handle) { s' with heap := m } := by
  have hopen : g.isException = false := by simpa [Handle.isException] using htag
  have hclosure : m.closure? (.plain b) = some c := closure?_of_kindOf? rfl hkind
  rw [application_eq, Run.bind_run, releasingOnSignal_run, hreduce]
  dsimp only
  rw [applyReduced, if_neg (by simp [hopen]), Run.bind_run, tryApply, Run.tryCatch_run,
    Run.bind_run, hbind]
  dsimp only [Run.pure_run]
  rw [Run.bind_run, inspect_run]
  dsimp only
  rw [hclosure]

/-- A node gives its function back. Only the node before it and what that one kept can go, if
nobody else refers to them: the new closure owns whatever the one before it owns. -/
theorem secured_stored {b : ObjectId} (hf : m.isStatic f = true ∨
      m.kindOf? f.target = some (.application (.reduced g)))
    (hg : m.kindOf? g.target = some (.closure c)) (hproper : c.Proper) (hmissing : 0 < c.missing)
    (hb : m.kindOf? b = some (.closure (c.fill t))) (hbf : b ≠ f.target) (hbg : b ≠ g.target)
    (ht : m.stateOf? t = some (.pending x))
    (hcounted : m.Counted (↑([f, x, f].map Handle.holding) + .strong (.object b) ::ₘ rest)) :
    m.Secured (.strong (.object b) ::ₘ rest)
      {cell | (cell = f.edge → m.isStatic f = true) ∧ (cell = g.edge → m.isStatic g = true)} := by
  have hnone : ∀ h : Handle, m.isStatic h = true → m.recorded (.strong h.edge) = none :=
    fun h => Valid.recorded_of_isStatic
  have hnew : ∀ cell, m.Owns g.edge cell → m.Owns (.object b) cell := by
    intro cell howns
    rw [Owns, Handle.edge, holds_of_kindOf? hg] at howns
    rw [Owns, holds_of_kindOf? hb, Closure.holdings_fill hproper hmissing]
    exact Multiset.mem_cons_of_mem howns
  rintro cell ⟨hcellf, hcellg⟩ -
  obtain hunowned | hown | ⟨owner, howns⟩ := hcounted.owned cell
  · exact .inl hunowned
  · simp only [List.map_cons, List.map_nil, Multiset.mem_add, Multiset.mem_coe, List.mem_cons,
      List.not_mem_nil, or_false, Multiset.mem_cons] at hown
    obtain (heq | heq | heq) | hrest := hown
    · cases heq
      exact .inl (hnone f (hcellf rfl))
    · cases heq
      refine .inr (.inr ⟨.thunk t, by simp [Handle.edge], ?_⟩)
      simp [Owns, holds_of_stateOf? ht, Handle.holding]
    · cases heq
      exact .inl (hnone f (hcellf rfl))
    · exact .inr (.inl (Multiset.mem_cons.mpr hrest))
  · by_cases hownerg : owner = g.edge
    · refine .inr (.inr ⟨.object b, ⟨fun h => ?_, fun h => ?_⟩, hnew cell (hownerg ▸ howns)⟩)
      · exact absurd (Edge.object.inj h) hbf
      · exact absurd (Edge.object.inj h) hbg
    by_cases hownerf : owner = f.edge
    · obtain hstatic | hkind := hf
      · exact .inr (.inr ⟨owner, ⟨fun _ => hstatic, fun h => absurd h hownerg⟩, howns⟩)
      · subst hownerf
        obtain rfl : cell = g.edge := by
          simpa [Owns, Handle.edge, holds_of_kindOf? hkind, Handle.holding] using howns
        exact .inl (hnone g (hcellg rfl))
    · exact .inr (.inr ⟨owner, ⟨fun h => absurd h hownerf, fun h => absurd h hownerg⟩, howns⟩)

/-- What a node with the parts `f` and `x` leaves as it is when it keeps the new closure `b`, in which
the closure behind `g`, the result of `f`, is bound to `x`. -/
theorem stored_keeps {n b : ObjectId} (hnode : m.kindOf? n = some (.application (.pending f x)))
    (hf : m.isStatic f = true ∨
      n ≠ f.target ∧ m.kindOf? f.target = some (.application (.reduced g)))
    (hg : m.kindOf? g.target = some (.closure c)) (hmissing : 1 < c.missing)
    (hb : m.kindOf? b = some (.closure (c.fill t))) (ht : m.stateOf? t = some (.pending x))
    (hbf : b ≠ f.target) (hbg : b ≠ g.target)
    (hup : m.Upright (.strong (.object b) ::ₘ f.holding ::ₘ rest)) :
    let m' := (stored { s with heap := m } n f x (.plain b)).heap
    m'.Upright (.strong (.object b) ::ₘ rest) ∧
      m'.kindOf? n = some (.application (.reduced (Handle.plain b).asCached)) ∧
      (∀ cell, m'.Allocated cell ↔ m.Allocated cell) ∧
      ∀ cell, cell ≠ .object n → (cell = f.edge → m.isStatic f = true) →
        (cell = g.edge → m.isStatic g = true) → m'.content? cell = m.content? cell := by
  intro m'
  let r : Handle := (Handle.plain b).asCached
  let m₁ : Heap := (m.retain r).setKind n (.application (.reduced r))
  have hretained : (m.retain r).contents = m.contents := contents_retain m r
  have hwritten : AgreeOff {.object n} m m₁ :=
    (AgreeOff.of_contents hretained).trans (.setKind _ n _)
  have hkinds : ∀ {o : ObjectId} {kind}, m.kindOf? o = some kind →
      kind ≠ .application (.pending f x) → o ≠ n ∧ m₁.kindOf? o = some kind := by
    intro o kind hkind hne
    have ho : o ≠ n := by
      rintro rfl
      exact hne (Option.some.inj (hkind.symm.trans hnode))
    exact ⟨ho, (kindOf?_of_content? (hwritten (.object o) fun h => ho (Edge.object.inj h))).trans
      hkind⟩
  have hstatic : ∀ h, m₁.isStatic h = true ↔ m.isStatic h = true := fun h =>
    (isStatic_setKind _ n _ h).trans (isStatic_retainEdge m r.edge h)
  obtain ⟨hgn, hg₁⟩ := hkinds hg (by simp)
  have hnode₁ : m₁.kindOf? n = some (.application (.reduced r)) := by
    rw [Valid.kindOf?_setKind, if_pos rfl, kindOf?_congr hretained, hnode]
    rfl
  have hup₁ : m₁.Upright
      (f.holding ::ₘ x.holding ::ₘ .strong (.object b) ::ₘ f.holding ::ₘ rest) := by
    refine (hup.share (h := r) (hup.live (h := r) (Multiset.mem_cons_self ..))).reduce
      ((kindOf?_congr hretained n).trans hnode) ?_
    refine .of_kind ((kindOf?_congr hretained b).trans hb) ?_
    change 0 < c.missing - 1
    omega
  have hcounted : m₁.Counted (↑([f, x, f].map Handle.holding) + .strong (.object b) ::ₘ rest) := by
    convert hup₁.valid.counted using 1
    simp only [List.map_cons, List.map_nil, ← Multiset.cons_coe, Multiset.coe_nil,
      Multiset.cons_add, zero_add, Multiset.cons_swap f.holding (.strong (.object b))]
  have hkept : ∀ cell ∈ _, m'.content? cell = m₁.content? cell :=
    (secured_stored (hf.imp (hstatic f).mpr fun h => (hkinds h.2 (by simp)).2) hg₁
      (hup.valid.proper _ _ hg) (by omega) (hkinds hb (by simp)).2 hbf hbg
      ((stateOf?_of_content? (hwritten (.thunk t) (by simp))).trans ht) hcounted).releases hcounted
  refine ⟨?_, ?_, fun cell => ?_, fun cell hcell hcellf hcellg => ?_⟩
  · have hnext := hup₁.release.release
    rw [Multiset.cons_swap] at hnext
    exact hnext.release
  · refine (kindOf?_of_content? (hkept (.object n) ⟨fun h => ?_, fun h => ?_⟩)).trans hnode₁
    · exact (hstatic f).mpr (hf.resolve_right fun hne => hne.1 (Edge.object.inj h))
    · exact absurd (Edge.object.inj h).symm hgn
  · exact (allocated_releases m₁ [f, x, f] cell).trans
      ((allocated_setKind _ n _ cell).trans (allocated_congr hretained cell))
  · exact (hkept cell ⟨fun h => (hstatic f).mpr (hcellf h),
      fun h => (hstatic g).mpr (hcellg h)⟩).trans (hwritten cell hcell)

/-- From `s` to `s'` the handle `f`, a primitive with the arguments `xs` over the nodes `ns`, has been
reduced to the closure behind `g`, and nothing else has happened. -/
structure Begun (s : Machine) (rest : Multiset Holding) (p : Primitive) (xs : List Handle)
    (ns : List ObjectId) (f g : Handle) (s' : Machine) : Prop where
  upright : s'.heap.Upright (g.holding ::ₘ rest)
  tag : g.tag ≠ .exception
  trace : s'.trace = s.trace
  preserves : Preserves {cell | ∃ n ∈ ns, cell = .object n} s.heap s'.heap
  closure : ∃ c, s'.heap.kindOf? g.target = some (.closure c) ∧ s'.heap.Applied p xs c ∧
    ∀ t ∈ c.arguments, ¬ s.heap.Allocated (.thunk t)
  seen : f = .plain ⟨p.place⟩ ∧ g = .plain ⟨p.place⟩ ∨
    f.target ∈ ns ∧ s'.heap.kindOf? f.target = some (.application (.reduced g)) ∧
      ¬ s.heap.Allocated g.edge

theorem Begun.binds (hbegun : Begun s (x.holding ::ₘ f.holding ::ₘ rest) p xs ns f g s')
    (hx : s'.heap.Honest x) (hlength : xs.length < p.arity)
    (huntied : ∀ y ∈ xs, s'.heap.Untied y) :
    ∃ b t m c, applyArgument g x s' = .ok (.plain b) { s' with heap := m } ∧
      s'.heap.kindOf? g.target = some (.closure c) ∧ c.Proper ∧ 0 < c.missing ∧
      s'.heap.Suspends c x b t m ∧ m.Applied p (xs ++ [x]) (c.fill t) ∧
      m.Upright (.strong (.object b) ::ₘ f.holding ::ₘ rest) ∧
      ∀ u ∈ (c.fill t).arguments, ¬ s.heap.Allocated (.thunk u) := by
  have hup := hbegun.upright
  obtain ⟨c, hkind, happlied, hslots⟩ := hbegun.closure
  have hproper := hup.valid.proper _ _ hkind
  have hmissing : 0 < c.missing := by
    have := happlied.missing
    omega
  have hshared : s'.heap.isStatic g = true ∨
      g.holding ∈ s'.heap.held + (f.holding ::ₘ rest) := by
    obtain ⟨-, rfl⟩ | ⟨-, hnode, -⟩ := hbegun.seen
    · exact .inl (hup.valid.isStatic_library p)
    · refine .inr (Multiset.mem_add.mpr (.inl (Multiset.mem_of_le (holds_le_held _ f.edge) ?_)))
      simp [Handle.edge, holds_of_kindOf? hnode]
  obtain ⟨b, t, m, hrun, hsuspends⟩ := applyArgument_shares hup.valid hkind hmissing happlied.memo
    (fun t ht => by
      obtain ⟨y, hy, hstate⟩ := happlied.slot ht
      exact ⟨y, hstate, huntied y hy⟩) hshared
  refine ⟨b, t, m, c, hrun, hkind, hproper, hmissing, hsuspends,
    happlied.fill hproper hmissing hsuspends, ?_, fun u hu => ?_⟩
  · have hleaves := applyArgument_leaves hup hx
    rw [hrun] at hleaves
    exact Multiset.singleton_add (Handle.plain b).holding _ ▸ hleaves.2.1
  · rw [Closure.arguments_fill hproper hmissing, List.mem_append, List.mem_singleton] at hu
    obtain hu | rfl := hu
    · exact hslots u hu
    · exact fun hold => hsuspends.freshThunk (hbegun.preserves.allocated _ hold)

theorem Begun.step {n : ObjectId} (hkind : s.heap.kindOf? n = some (.application (.pending f x)))
    (hrun : reduceUpTo options (xs.length + 1) f (takeNode s f x) = .ok g s')
    (hbegun : Begun (takeNode s f x) (x.holding ::ₘ f.holding ::ₘ rest) p xs ns f g s')
    (hx : s'.heap.Honest x) (hlength : xs.length + 1 < p.arity) (hn : n ∉ ns)
    (huntied : ∀ y ∈ xs, s'.heap.Untied y) :
    ∃ g' s'', reduceUpTo options (xs.length + 1 + 1) (.plain n) s = .ok g' s'' ∧
      Begun s rest p (xs ++ [x]) (ns ++ [n]) (.plain n) g' s'' := by
  obtain ⟨b, t, m, c, hbind, hclosure, hproper, hmissing, hsuspends, happlied, hup', hslots⟩ :=
    hbegun.binds hx (by omega) huntied
  have hopen : 1 < c.missing := by
    have := happlied.missing
    rw [List.length_append, List.length_singleton] at this
    change c.missing - 1 + _ = _ at this
    omega
  have happlication : application options (reduceUpTo options (xs.length + 1)) f x
      (takeNode s f x) = .ok (.plain b) { s' with heap := m } := by
    have hunsaturated : (c.fill t).isSaturated = false := by
      have hne : c.missing - 1 ≠ 0 := by omega
      simpa [Closure.isSaturated, Closure.fill] using hne
    rw [application_bound hrun hbegun.tag hbind hsuspends.closure, hunsaturated]
    rfl
  have htaken : (takeNode s f x).heap.contents = s.heap.contents := by
    simp [takeNode]
  have hbefore : Preserves {cell | ∃ n ∈ ns, cell = .object n} s.heap m :=
    ((Preserves.of_contents htaken).trans hbegun.preserves).trans
      (hsuspends.preserves.mono (Set.empty_subset _))
  have hnode : m.kindOf? n = some (.application (.pending f x)) := by
    rw [hbefore.kindOf?_eq (isLive_of_kindOf? hkind).allocated, hkind]
    rintro ⟨n', hn', heq⟩
    exact hn (Edge.object.inj heq ▸ hn')
  have hsame : ∀ {o kind}, s'.heap.kindOf? o = some kind → m.kindOf? o = some kind :=
    fun hkind => (hsuspends.preserves.kindOf?_eq (isLive_of_kindOf? hkind).allocated
      (Set.notMem_empty _)).trans hkind
  have hf : m.isStatic f = true ∨
      f.target ∈ ns ∧ m.kindOf? f.target = some (.application (.reduced g)) := by
    obtain ⟨rfl, -⟩ | ⟨hin, hreduced, -⟩ := hbegun.seen
    · exact .inl (hup'.valid.isStatic_library p)
    · exact .inr ⟨hin, hsame hreduced⟩
  have hfresh : ∀ {h : Handle}, h.holding ∈ g.holding ::ₘ x.holding ::ₘ f.holding ::ₘ rest →
      b ≠ h.target := by
    rintro h hin rfl
    exact hsuspends.freshObject (hbegun.upright.live hin).allocated
  obtain ⟨hup₁, hreduced, halloc, hkept⟩ := stored_keeps (s := s') hnode
    (hf.imp_right fun h => ⟨fun heq => hn (heq ▸ h.1), h.2⟩) (hsame hclosure) hopen
    hsuspends.closure hsuspends.thunk (hfresh (by simp)) (hfresh (by simp)) hup'
  have hnew : ∀ {cell}, ¬ s'.heap.Allocated cell → ¬ s.heap.Allocated cell := fun hnot hold =>
    hnot (hbegun.preserves.allocated _ ((allocated_congr htaken _).mpr hold))
  refine ⟨_, _, reduceUpTo_pending_ok hkind happlication hnode, hup₁,
    by simp [Handle.asCached, Handle.plain], hbegun.trace,
    ⟨fun cell hold => (halloc cell).mpr (hbefore.allocated cell hold), fun cell hold hcell => ?_⟩,
    ⟨c.fill t, ?_, happlied.congr fun u _ => ?_, fun u hu hold => hslots u hu
      ((allocated_congr htaken _).mpr hold)⟩, .inr ⟨by simp [Handle.plain], hreduced,
      hnew hsuspends.freshObject⟩⟩
  · have hout : ∀ n' ∈ ns ++ [n], cell ≠ .object n' := fun n' hn' heq => hcell ⟨n', hn', heq⟩
    rw [hkept cell (hout n (by simp)), hbefore.content cell hold]
    · rintro ⟨n', hn', heq⟩
      exact hout n' (List.mem_append_left _ hn') heq
    · rintro rfl
      exact hf.resolve_right fun h => hout _ (List.mem_append_left _ h.1) rfl
    · rintro rfl
      obtain ⟨-, rfl⟩ | ⟨-, -, hfreshg⟩ := hbegun.seen
      · exact hup'.valid.isStatic_library p
      · exact absurd ((allocated_congr htaken _).mpr hold) hfreshg
  · refine (kindOf?_of_content? (hkept (.object b) ?_ ?_ ?_)).trans hsuspends.closure
    · rintro ⟨⟩
      cases hnode.symm.trans hsuspends.closure
    · exact fun h => absurd (Edge.object.inj h) (hfresh (by simp))
    · exact fun h => absurd (Edge.object.inj h) (hfresh (by simp))
  · refine stateOf?_of_content? (hkept (.thunk u) (by simp) ?_ ?_)
    all_goals simp [Handle.edge]

theorem upright_takeNode (hup : s.heap.Upright rest)
    (hkind : s.heap.kindOf? o = some (.application (.pending f x))) :
    (takeNode s f x).heap.Upright (x.holding ::ₘ f.holding ::ₘ rest) := by
  have hf := hup.share (h := f) (hup.live_of_kind hkind (by simp [Handle.holding]))
  exact hf.share (h := x) (hf.live_of_kind ((kindOf?_congr (contents_retain _ f) o).trans hkind)
    (by simp [Handle.holding]))

theorem honest_argument {depth : Nat} (hup : s.heap.Upright rest)
    (hkind : s.heap.kindOf? o = some (.application (.pending f x)))
    (hrun : reduceUpTo options depth f (takeNode s f x) = .ok g s') : s'.heap.Honest x := by
  have hup₀ := upright_takeNode hup hkind
  obtain ⟨hf, hx⟩ := hup₀.cells.object o _ ((kindOf?_congr (contents_takeNode s f x) o).trans hkind)
  have hleaves := reduceUpTo_finishes options depth hup₀ (by simp) hf
  rw [hrun] at hleaves
  exact (hleaves.1.lasts (Multiset.mem_cons_self _ _)).honest hx

theorem Begun.untied {y : Handle} (hbegun : Begun s rest p xs ns f g s')
    (hlive : s.heap.IsLive y.edge) (huntied : s.heap.Untied y) (hout : y.target ∉ ns) :
    s'.heap.Untied y := by
  refine huntied.of_kind (hbegun.preserves.kindOf?_eq hlive.allocated ?_)
  rintro ⟨n, hn, heq⟩
  exact hout (Edge.object.inj heq ▸ hn)

theorem begun (options : Options) (hspine : m.Spine (.plain ⟨p.place⟩) xs ns f)
    (hsame : s.heap.contents = m.contents) (hup : s.heap.Upright rest) (hheld : f.holding ∈ rest)
    (hintact : m.Intact) (hlength : xs.length < p.arity) (hnodup : ns.Nodup)
    (hargs : ∀ x ∈ xs, m.Untied x ∧ x.target ∉ ns) :
    ∃ g s', reduceUpTo options (xs.length + 1) f s = .ok g s' ∧ Begun s rest p xs ns f g s' := by
  generalize hhead : Handle.plain ⟨p.place⟩ = head at hspine
  -- On the spine, from the primitive outwards. Each node met is new to the ones below it and none
  -- of them is an argument, so writing their memos leaves the arguments as they were.
  induction hspine generalizing s rest with
  | nil =>
    subst hhead
    have hkind := (kindOf?_congr hsame _).trans (hintact.closure p)
    have hlive := hup.live hheld
    have hkept := (kindOf?_congr (contents_retain s.heap (.plain ⟨p.place⟩)) _).trans hkind
    refine ⟨.plain ⟨p.place⟩, s.on (·.retain (.plain ⟨p.place⟩)), ?_, hup.share hlive,
      by simp [Handle.plain], rfl, .of_contents (contents_retain _ _),
      ⟨_, hkept, ⟨rfl, rfl, rfl, ?_, ?_⟩, ?_⟩, .inl ⟨rfl, rfl⟩⟩
    · exact reduceUpTo_final hlive (.of_isResult (by simp [Handle.plain]) (.of_kind hkind p.arity_pos))
    · rw [Closure.arguments_bare]
      exact .nil
    all_goals simp [Closure.arguments_bare]
  | @snoc xs ns f n x hf hkind ih =>
    have htaken := (contents_takeNode s f x).trans hsame
    rw [List.length_append, List.length_singleton] at hlength ⊢
    obtain ⟨hnodup, -, hn⟩ := List.nodup_append.mp hnodup
    have hkind' := (kindOf?_congr hsame n).trans hkind
    have hup₀ := upright_takeNode hup hkind'
    have hleft : ∀ y ∈ xs ++ [x], m.Untied y ∧ y.target ∉ ns := fun y hy =>
      ⟨(hargs y hy).1, fun hin => (hargs y hy).2 (List.mem_append_left _ hin)⟩
    obtain ⟨g, s', hrun, hbegun⟩ := ih htaken hup₀ (by simp) (by omega) hnodup
      (fun y hy => hleft y (List.mem_append_left _ hy))
    refine hbegun.step hkind' hrun (honest_argument hup hkind' hrun) hlength
      (fun hin => hn n hin n (by simp) rfl) fun y hy => ?_
    obtain ⟨huntied, hout⟩ := hleft y (List.mem_append_left _ hy)
    have hlive := (hf.congr fun _ _ => kindOf?_congr htaken _).live_argument hup₀.valid.counted y hy
    exact hbegun.untied hlive (huntied.congr htaken) hout

end Evaluator

end GraphReduction
