import Mathlib
import GraphReduction.Proofs.Contexts.Call
import GraphReduction.Proofs.Contexts.Failure

/-! Errors get out of strict contexts. Where the handle that is demanded next comes to an error, the
node that demands it keeps an exception with the same error, and so does every node around it. -/
namespace GraphReduction.Evaluator

open Heap Run

variable {s s' : Machine} {m m' : Heap} {rest : Multiset Holding} {c : Closure}
  {f h x r y : Handle} {t : ThunkId} {n b : ObjectId} {p : Primitive} {xs : List Handle}
  {ns done : List ObjectId} {e : EvalError} {options : Options} {depth : Nat}

/-- Wherever all that it leads to is as it is here, the handle is reduced to an exception that carries
the error, and each of the nodes keeps one as well. -/
def Breaks (options : Options) (e : EvalError) (m : Heap) (h : Handle) (done : List ObjectId) :
    Prop :=
  ∀ ⦃s : Machine⦄ ⦃rest : Multiset Holding⦄, s.heap.Upright rest → h.holding ∈ rest →
    s.heap.Honest h → s.heap.Intact → m.Unchanged s.heap h →
      ∃ depth r s', reduceUpTo options depth h s = .ok r s' ∧ s'.heap.error? r = some e ∧
        ∀ n ∈ done, s'.heap.Memoizes e n

theorem Breaks.exception (herror : m.error? y = some e) : Breaks options e m y [] := by
  intro s rest hup hheld _ _ hsame
  have herror' : s.heap.error? y = some e := by
    have hlook : s.heap.kind? y = m.kind? y := hsame.object y.target .here
    rwa [Heap.error?, hlook]
  have hretained := contents_retain s.heap y
  refine ⟨1, y, s.on (·.retain y), reduceUpTo_exception (isException_of_error? herror), ?_, by simp⟩
  have hrests : s.heap.Rests (s.on (·.retain y)).heap := Keeps.retain _ y
  exact hrests.settles.error? herror' ((isLive_congr hretained _).mpr (hup.live hheld))

theorem content?_confined {cell : Edge} (hup : s.heap.Upright rest) (hheld : h.holding ∈ rest)
    (hhonest : s.heap.Honest h) (hintact : s.heap.Intact)
    (hrun : reduceUpTo options depth h s = .ok r s') (hlive : s.heap.IsLive cell)
    (hapart : ¬ s.heap.Reaches h cell) : s'.heap.content? cell = s.heap.content? cell := by
  have hconfined := reduceUpTo_confined options depth hup hheld hhonest hintact
  rw [hrun] at hconfined
  exact (hconfined.2 cell hlive.allocated).2 fun hreached => absurd hreached hapart

theorem application_upright (hup : s.heap.Upright rest)
    (hkind : s.heap.kindOf? n = some (.application (.pending f x)))
    (hrun : application options (reduceUpTo options depth) f x (takeNode s f x) = .ok r s') :
    s'.heap.Upright (r.holding ::ₘ f.holding ::ₘ rest) ∧ s'.heap.Final r := by
  have hup₀ := upright_takeNode hup hkind
  obtain ⟨hf, hx⟩ := hup₀.cells.object n _ ((kindOf?_congr (contents_takeNode s f x) n).trans hkind)
  have hleaves : Leaves (takeNode s f x).heap (f.holding ::ₘ rest) (fun r : Handle => {r.holding})
      (fun m r => m.Final r) (application options (reduceUpTo options depth) f x _) :=
    application_leaves (reduceUpTo_finishes options depth) hup₀ (Multiset.mem_cons_self _ _) hf hx
  rw [hrun] at hleaves
  exact hleaves.2

theorem node_keeps (hup : s.heap.Upright rest) (hheld : (Handle.plain n).holding ∈ rest)
    (hkind : s.heap.kindOf? n = some (.application (.pending f x)))
    (hrun : application options (reduceUpTo options depth) f x (takeNode s f x) = .ok r s')
    (herror : s'.heap.error? r = some e)
    (hkind' : s'.heap.kindOf? n = some (.application (.pending f x))) :
    ∃ s'', reduceUpTo options (depth + 1) (.plain n) s = .ok r s'' ∧
      s''.heap.error? r = some e ∧ s''.heap.Is (· = .application (.reduced r)) n ∧
      s''.heap.Counted (r.holding ::ₘ rest) ∧ s'.heap.Settles s''.heap ∧
      FadesOff {.object n} s'.heap s''.heap := by
  obtain ⟨hup₁, hfinal⟩ := application_upright hup hkind hrun
  have hcached : r.asCached = r := by
    have hexception := isException_of_error? herror
    simp only [Handle.isException, beq_iff_eq] at hexception
    simp [Handle.asCached, hexception]
  -- the node is written, and what it held is given back
  have hlive := hup₁.live (h := r) (by simp)
  have hretained := contents_retain s'.heap r
  have hkept := (kindOf?_congr hretained n).trans hkind'
  let m₁ : Heap := (s'.heap.retain r).setKind n (.application (.reduced r))
  have hshared : Spares Set.univ s'.heap (s'.heap.retain r) := .share _ r
  have hup₂ : m₁.Upright (f.holding ::ₘ x.holding ::ₘ r.holding ::ₘ f.holding ::ₘ rest) :=
    (hup₁.share hlive).reduce hkept ((hshared.lasts trivial).final hfinal)
  have hwritten : s'.heap.Settles m₁ := by
    refine (Keeps.retain _ r).trans (.setKind hkept ?_)
    rintro (⟨_, ⟨⟩⟩ | ⟨_, ⟨⟩⟩)
  have hnew : m₁.kindOf? n = some (.application (.reduced r)) := by
    rw [Valid.kindOf?_setKind, if_pos rfl, hkept]
    rfl
  have hend : (stored s' n f x r).heap = [f, x, f].foldl (·.release ·) m₁ := by
    rw [stored, hcached]
    rfl
  have hreleased : m₁.Settles (stored s' n f x r).heap := by
    rw [hend]
    exact ((Keeps.release _ f).trans (.release _ x)).trans (.release _ f)
  have hfades : FadesOff {.object n} m₁ (stored s' n f x r).heap := by
    rw [hend]
    exact ((FadesOff.release _ f).trans (.release _ x)).trans (.release _ f)
  have hrun' := reduceUpTo_pending_ok hkind hrun hkind'
  rw [hcached] at hrun'
  have hfinish := reduceUpTo_finishes options (depth + 1) hup hheld
    (.of_kind hkind (by rintro ⟨_, ⟨⟩⟩))
  rw [hrun'] at hfinish
  have hup₃ := hfinish.2.1
  have hsettles : s'.heap.Settles (stored s' n f x r).heap := hwritten.trans hreleased
  exact ⟨_, hrun', hsettles.error? herror (hup₃.live (by simp)),
    Keeps.is hreleased (.of_kind hnew rfl) (.inr ⟨r, rfl⟩), hup₃.valid.counted, hsettles,
    (FadesOff.of_contents hretained).trans
      ((FadesOff.setKind (Set.mem_singleton _)).trans hfades)⟩

theorem node_breaks (hup : s.heap.Upright rest) (hheld : (Handle.plain n).holding ∈ rest)
    (hkind : s.heap.kindOf? n = some (.application (.pending f x)))
    (hcarries : Carries m e
      (application options (reduceUpTo options depth) f x (takeNode s f x)))
    (hnode : m.kindOf? n = some (.application (.pending f x)))
    (hdone : ∀ k ∈ done, m.Memoizes e k) :
    ∃ r s', reduceUpTo options (depth + 1) (.plain n) s = .ok r s' ∧ s'.heap.error? r = some e ∧
      ∀ k ∈ done ++ [n], s'.heap.Memoizes e k := by
  obtain ⟨m₁, r, s₁, hbefore, herror, hafter, hrun⟩ := hcarries
  have hup₁ := (application_upright hup hkind hrun).1
  have hrests : m.Rests s₁.heap := hbefore.trans hafter
  obtain ⟨s₂, hrun', herror', hkeeps, hcounted, hsettles, -⟩ := node_keeps hup hheld hkind hrun
    (hafter.settles.error? herror (hup₁.live (by simp)))
    (hrests.kindOf?_eq hnode rfl (hup₁.live (h := .plain n) (by simp [hheld])))
  have hlast : m.Settles s₂.heap := hrests.settles.trans hsettles
  refine ⟨r, s₂, hrun', herror', List.forall_mem_append.mpr ⟨fun k hk => ?_, ?_⟩⟩
  · exact hlast.memoizes (hdone k hk) hcounted
  · exact List.forall_mem_singleton.mpr (hkeeps.imp fun kind hkind => ⟨r, hkind, herror'⟩)

theorem application_exception (hrun : reduceUpTo options depth f s = .ok r s')
    (hexception : r.isException = true) :
    application options (reduceUpTo options depth) f x s = .ok r (s'.on (·.release x)) := by
  rw [application_eq, bind_run, releasingOnSignal_run, hrun]
  dsimp only
  rw [applyReduced, if_pos hexception]
  rfl

theorem Breaks.function (h : Breaks options e m f done)
    (hkind : m.kindOf? n = some (.application (.pending f x)))
    (hapart : ¬ m.Reaches f (.object n)) : Breaks options e m (.plain n) (done ++ [n]) := by
  intro s rest hup hheld _ hintact hsame
  have hkind' : s.heap.kindOf? n = some (.application (.pending f x)) :=
    (hsame.object n .here).trans hkind
  have htaken := contents_takeNode s f x
  have hup₀ := upright_takeNode hup hkind'
  have hkind₀ := (kindOf?_congr htaken n).trans hkind'
  have hhonest := (hup₀.cells.object n _ hkind₀).1
  have hsame₀ : m.Unchanged (takeNode s f x).heap f := by
    refine (hsame.part (.next .here (r := f.holding) ?_ rfl)).trans (.of_contents htaken)
    simp [Handle.edge, Handle.plain, holds_of_kindOf? hkind]
  obtain ⟨depth, r, s₁, hrun, herror, hdone⟩ := h hup₀ (by simp) hhonest
    (hintact.of_contents htaken) hsame₀
  have hcarries : Carries s₁.heap e
      (application options (reduceUpTo options depth) f x (takeNode s f x)) :=
    ⟨s₁.heap, r, s₁.on (·.release x), .refl _, herror, .release _ x,
      application_exception hrun (isException_of_error? herror)⟩
  have hnode : s₁.heap.kindOf? n = some (.application (.pending f x)) :=
    (kindOf?_of_content? (content?_confined hup₀ (by simp) hhonest (hintact.of_contents htaken) hrun
      (isLive_of_kindOf? hkind₀) fun hreached => hapart (hsame₀.reaches hreached))).trans hkind₀
  obtain ⟨r', s', hend⟩ := node_breaks hup hheld hkind' hcarries hnode hdone
  exact ⟨depth + 1, r', s', hend⟩

/-! Demands for arguments -/

/-- A closure of the call of which `n` is the last node is about to ask for its argument `y`, which has
not been evaluated. What `y` leads to is as it is in `m`, and has nothing to do with the call. -/
structure Asks (m : Heap) (s : Machine) (rest : Multiset Holding) (c : Closure) (i : Nat) (y : Handle)
    (n : ObjectId) (a : Application) : Prop where
  upright : s.heap.Upright rest
  intact : s.heap.Intact
  slot : ∃ t, c.argument? i = some t ∧ s.heap.stateOf? t = some (.pending y) ∧
    ¬ s.heap.Reaches y (.thunk t)
  node : s.heap.kindOf? n = some (.application a)
  apart : ¬ s.heap.Reaches y (.object n)
  unchanged : m.Unchanged s.heap y

namespace Asks

variable {a : Application} {i : Nat} {name : String}

theorem demand {z : Machine} (hasks : Asks m s rest c i y n a) (hz : z.heap = s.heap.retain y) :
    z.heap.Upright (y.holding ::ₘ rest) ∧ z.heap.Honest y ∧ z.heap.Intact ∧
      z.heap.contents = s.heap.contents := by
  obtain ⟨t, ht, hslot, -⟩ := hasks.slot
  have hretained : z.heap.contents = s.heap.contents := hz ▸ contents_retain s.heap y
  have hup : z.heap.Upright (y.holding ::ₘ rest) := hz ▸ hasks.upright.share
    (hasks.upright.live_of_state hslot (by simp [Handle.holding]))
  exact ⟨hup, hup.cells.thunk t _ ((stateOf?_congr hretained t).trans hslot),
    hasks.intact.of_contents hretained, hretained⟩

theorem breaks {z : Machine} (hasks : Asks m s rest c i y n a) (hbreaks : Breaks options e m y done)
    (hz : z.heap = s.heap.retain y) :
    ∃ depth r s', (∀ more, depth ≤ more → reduceUpTo options more y z = .ok r s') ∧
      s'.heap.error? r = some e ∧ (∀ k ∈ done, s'.heap.Memoizes e k) ∧
      s'.heap.kindOf? n = some (.application a) ∧
      ∀ t, c.argument? i = some t → s'.heap.stateOf? t = some (.pending y) := by
  obtain ⟨t, ht, hslot, hhidden⟩ := hasks.slot
  obtain ⟨hup, hhonest, hintact, hretained⟩ := hasks.demand hz
  have hslot' := (stateOf?_congr hretained t).trans hslot
  have hsame : s.heap.Unchanged z.heap y := .of_contents hretained
  have hnode := (kindOf?_congr hretained n).trans hasks.node
  obtain ⟨depth, r, s', hrun, herror, hdone⟩ := hbreaks hup (by simp) hhonest hintact
    (hasks.unchanged.trans hsame)
  refine ⟨depth, r, s', fun more hmore => reduceUpTo_mono hrun hmore, herror, hdone, ?_,
    fun u hu => ?_⟩
  · exact (kindOf?_of_content? (content?_confined hup (by simp) hhonest hintact hrun
      (isLive_of_kindOf? hnode) fun h => hasks.apart (hsame.reaches h))).trans hnode
  · cases ht.symm.trans hu
    exact (stateOf?_of_content? (content?_confined hup (by simp) hhonest hintact hrun
      (isLive_of_stateOf? hslot') fun h => hhidden (hsame.reaches h))).trans hslot'

theorem force_raises (hasks : Asks m s rest c i y n a) (hbreaks : Breaks options e m y done) :
    ∃ depth m', (∀ more, depth ≤ more →
        Raises m' e ((⟨name, c⟩ : Args).force (reduceUpTo options more) i s)) ∧
      (∀ k ∈ done, m'.Memoizes e k) ∧ m'.kindOf? n = some (.application a) := by
  obtain ⟨t, ht, hslot, -⟩ := hasks.slot
  obtain ⟨depth, r, s', hrun, herror, hdone, hnode, hkept⟩ :=
    hasks.breaks (z := s.on (·.retain y)) hbreaks rfl
  refine ⟨depth, s'.heap, fun more hmore => ?_, hdone, hnode⟩
  refine Args.force_raises ht (ThunkId.force_carries hslot ?_ fun r' s'' hrun' => ?_)
    (reduceUpTo_finishes options more) hasks.upright
  · rw [hrun more hmore]
    exact .of_ok herror
  · cases (hrun more hmore).symm.trans hrun'
    exact hkept t ht

/-- While the first argument is evaluated and given back, nothing is touched but its thunk and what it
leads to; and handles that have not led to the rest do not get there. -/
theorem unbox_confined {α : Type} (options : Options) (depth : Nat) (name : String)
    (expected : TypeName) (take : Payload → Option α) (hfirst : Asks m s rest c 0 x n a)
    (ht : c.argument? 0 = some t) (hs : List Handle) :
    let s' := ended ((⟨name, c⟩ : Args).unbox (reduceUpTo options depth) 0 expected take s)
    s'.heap.Upright rest ∧ s'.heap.Intact ∧
      s'.heap.Guarded { cell ∈ s.heap.outOfReach (x :: hs) | cell ≠ .thunk t } ∧
      (∀ cell, s.heap.Allocated cell → s'.heap.Allocated cell) ∧
      ∀ cell, cell ∈ libraryCells ∨ cell ∈ s.heap.outOfReach (x :: hs) ∧ cell ≠ .thunk t →
        s'.heap.content? cell = s.heap.content? cell := by
  obtain ⟨_, ht', hslot, -⟩ := hfirst.slot
  cases ht.symm.trans ht'
  have hvalid : s.heap.Valid (0 + rest) := by
    rw [zero_add]
    exact hfirst.upright.valid
  have hforce : Does rest {.thunk t} s 0 ((⟨name, c⟩ : Args).force (reduceUpTo options depth) 0)
      (fun r => r.holding ::ₘ 0) 0 := by
    refine .step (Args.thunk_run ht) (fun _ => .refl ..) fun _ => ?_
    exact .bind (ThunkId.force_does (reduceUpTo_sound options depth) rfl
      (isLive_of_stateOf? hslot)) fun _ _ _ _ _ => intoResult_does
  have hmoves := Args.unbox_of_force hforce expected take hvalid
  have hleaves : Leaves s.heap rest (fun _ => 0) (fun _ _ => True)
      ((⟨name, c⟩ : Args).unbox (reduceUpTo options depth) 0 expected take s) :=
    Args.unbox_leaves (reduceUpTo_finishes options depth) hfirst.upright
  -- the thunk is lent, and what it holds is reached from the argument
  have hguarded : s.heap.Guarded { cell ∈ s.heap.outOfReach (x :: hs) | cell ≠ .thunk t } := by
    refine (hfirst.intact.guarded (x :: hs)).without fun r hr => ?_
    rw [holds_of_stateOf? hslot, ThunkState.holdings_pending, Multiset.mem_singleton] at hr
    rw [hr]
    exact (Holding.avoids_strong _).mpr fun hin => hin.2.2 x (by simp) .here
  have hcourse : ∀ {s' own'}, Moves {.thunk t} s 0 s' own' → s'.heap.Upright rest →
      Spares (objectsOf rest) s.heap s'.heap → s'.heap.Upright rest ∧ s'.heap.Intact ∧
        s'.heap.Guarded { cell ∈ s.heap.outOfReach (x :: hs) | cell ≠ .thunk t } ∧
        (∀ cell, s.heap.Allocated cell → s'.heap.Allocated cell) ∧
        ∀ cell, cell ∈ libraryCells ∨ cell ∈ s.heap.outOfReach (x :: hs) ∧ cell ≠ .thunk t →
          s'.heap.content? cell = s.heap.content? cell := by
    intro s' own' hmoves hup' hspares
    have hintact' := hfirst.intact.moves hmoves hvalid
    obtain ⟨hguarded', hkept, -⟩ := hmoves.confined rest hvalid hguarded (by simp) (by simp)
    refine ⟨hup', hintact', hguarded', hspares.allocated, fun cell hcell => ?_⟩
    refine hcell.elim (fun hlibrary => ?_) (hkept cell)
    exact hfirst.intact.content?_library hintact' hspares hlibrary
  cases hrun : (⟨name, c⟩ : Args).unbox (reduceUpTo options depth) 0 expected take s with
  | ok v s' =>
    rw [hrun] at hmoves hleaves
    have hup' : s'.heap.Upright rest := by simpa using hleaves.2.1
    exact hcourse hmoves hup' hleaves.1
  | error signal s' =>
    rw [hrun] at hmoves hleaves
    exact hcourse hmoves hleaves.2 hleaves.1

theorem reaches_after {α : Type} {expected : TypeName} {take : Payload → Option α} {v : α}
    {cell : Edge} (hfirst : Asks m s rest c 0 x n a) (ht : c.argument? 0 = some t)
    (hrun : (⟨name, c⟩ : Args).unbox (reduceUpTo options depth) 0 expected take s = .ok v s')
    (hreached : s'.heap.Reaches y cell) (halloc : s.heap.Allocated cell)
    (hlibrary : cell ∉ libraryCells) :
    s.heap.Reaches x cell ∨ s.heap.Reaches y cell ∨ cell = .thunk t := by
  have hconfined := hfirst.unbox_confined options depth name expected take ht [y]
  rw [hrun] at hconfined
  by_contra hout
  simp only [not_or] at hout
  refine hconfined.2.2.1.reaches (fun hin => hin.1.2.2 y (by simp) .here) hreached
    ⟨⟨halloc, hlibrary, ?_⟩, hout.2.2⟩
  simpa using ⟨hout.1, hout.2.1⟩

theorem next {α : Type} {expected : TypeName} {take : Payload → Option α} {v : α}
    (hfirst : Asks m s rest c 0 x n a) (hasks : Asks m s rest c i y n a)
    (hdistinct : ∀ t, c.argument? 0 = some t → c.argument? i ≠ some t)
    (hhidden : ∀ t, c.argument? i = some t → ¬ s.heap.Reaches x (.thunk t))
    (hrun : (⟨name, c⟩ : Args).unbox (reduceUpTo options depth) 0 expected take s = .ok v s') :
    Asks s'.heap s' rest c i y n a := by
  obtain ⟨t, ht, -⟩ := hfirst.slot
  obtain ⟨u, hu, hslot, hhidden'⟩ := hasks.slot
  have hconfined := hfirst.unbox_confined options depth name expected take ht []
  rw [hrun] at hconfined
  obtain ⟨hup', hintact', -, -, hkept⟩ := hconfined
  -- neither the node nor the other thunk is in the way of the first argument
  have hkept' : ∀ cell, s.heap.Allocated cell → cell ∉ libraryCells → ¬ s.heap.Reaches x cell →
      ¬ s.heap.Reaches y cell → cell ≠ .thunk t →
        s'.heap.content? cell = s.heap.content? cell ∧ ¬ s'.heap.Reaches y cell := by
    intro cell halloc hlibrary hx hy hne
    refine ⟨hkept cell (.inr ⟨⟨halloc, hlibrary, by simpa using hx⟩, hne⟩), fun hreached => ?_⟩
    obtain h | h | h := hfirst.reaches_after ht hrun hreached halloc hlibrary
    · exact hx h
    · exact hy h
    · exact hne h
  obtain ⟨hnode, hapart⟩ := hkept' (.object n) (isLive_of_kindOf? hasks.node).allocated
    (not_mem_libraryCells hasks.intact hasks.node (by simp)) hfirst.apart hasks.apart (by simp)
  obtain ⟨hthunk, hapart'⟩ := hkept' (.thunk u) (isLive_of_stateOf? hslot).allocated
    (thunk_not_mem_libraryCells u) (hhidden u hu) hhidden'
    fun heq => hdistinct t ht (Edge.thunk.inj heq ▸ hu)
  exact ⟨hup', hintact', ⟨u, hu, (stateOf?_of_content? hthunk).trans hslot, hapart'⟩,
    (kindOf?_of_content? hnode).trans hasks.node, hapart, .refl ..⟩

end Asks

/-! Calls -/

theorem call_breaks (hcall : s.heap.Call p xs (ns ++ [n]) h) (hup : s.heap.Upright rest)
    (hheld : h.holding ∈ rest) (hintact : s.heap.Intact)
    (hcompute : ∀ {xs' f a rest' b c s'}, s.heap.Spine (.plain ⟨p.place⟩) xs' ns f →
      s.heap.kindOf? n = some (.application a) → n ∉ ns → Entered s rest' p xs ns b c s' →
        ∃ depth m', (∀ more, depth ≤ more →
          Carries m' e (compute options (reduceUpTo options more) (.plain b) c s')) ∧
            (∀ k ∈ done, m'.Memoizes e k) ∧ m'.kindOf? n = some (.application a)) :
    ∃ depth r s', reduceUpTo options depth h s = .ok r s' ∧ s'.heap.error? r = some e ∧
      ∀ k ∈ done ++ [n], s'.heap.Memoizes e k := by
  obtain ⟨xs', f, x, b, c, s₁, rfl, hf, hkind, hn, hempty, hentered, henters⟩ :=
    call_enters options hcall hup hintact
  obtain ⟨depth, m', hcarries, hdone, hnode⟩ := hcompute hf hkind hn hentered
  let more : Nat := max xs.length depth
  refine ⟨more + 1, node_breaks hup hheld hkind (m := m') ?_ hnode hdone⟩
  rw [henters more (by omega)]
  exact (result_carries hempty (hcarries more (by omega))).releasing _

theorem Entered.asks {own : Multiset Holding} {i : Nat} {a : Application} {xs' : List Handle}
    (event : Event) (hentered : Entered s own p xs ns b c s') (hi : xs[i]? = some y)
    (hup : s.heap.Upright rest) (hintact : s.heap.Intact)
    (hcall : s.heap.Call p xs (ns ++ [n]) h) (hspine : s.heap.Spine (.plain ⟨p.place⟩) xs' ns f)
    (hkind : s.heap.kindOf? n = some (.application a)) (hn : n ∉ ns)
    (hsame : m.Unchanged s.heap y) (hapart : ∀ k ∈ ns ++ [n], ¬ m.Reaches y (.object k)) :
    Asks m (s'.push event) (.strong (.object b) ::ₘ own) c i y n a ∧
      ∀ t ∈ c.arguments, ¬ (s'.push event).heap.Reaches y (.thunk t) := by
  obtain ⟨t, ht, hargument, hslot⟩ := hentered.argument hi
  have hlive := hcall.spine.live_argument hup.valid.counted y (List.mem_of_getElem? hi)
  have hthere := hentered.unchanged hup.valid.counted hlive fun k hk h =>
    hapart k (by simp [hk]) (hsame.reaches h)
  have hhidden : ∀ t ∈ c.arguments, ¬ s'.heap.Reaches y (.thunk t) := fun t ht h =>
    hentered.slots t ht ((hthere.reaches h).allocated hup.valid.counted hlive)
  refine ⟨⟨hentered.upright, hentered.intact hspine hintact, ⟨t, hargument, hslot, hhidden t ht⟩,
    ?_, fun h => ?_, hsame.trans hthere⟩, hhidden⟩
  · refine (hentered.preserves.kindOf?_eq (isLive_of_kindOf? hkind).allocated ?_).trans hkind
    rintro ⟨k, hk, heq⟩
    exact hn (Edge.object.inj heq ▸ hk)
  · exact hapart n (by simp) (hsame.reaches (hthere.reaches h))

/-- A primitive asks for its first argument before all else, or returns it unevaluated. -/
theorem Breaks.argument (hbreaks : Breaks options e m y done)
    (hcall : m.Call p (y :: xs) (ns ++ [n]) h)
    (hapart : ∀ k ∈ ns ++ [n], ¬ m.Reaches y (.object k)) :
    Breaks options e m h (done ++ [n]) := by
  intro s rest hup hheld _ hintact hsame
  have hcall' := hcall.unchanged hsame
  have hsame' := hsame.part (hcall.spine.reaches_parts.2 y (by simp))
  refine call_breaks hcall' hup hheld hintact fun {xs' f a rest' b c s'} hspine hkind hn hentered => ?_
  obtain ⟨k, hk, hbody⟩ := hentered.held (hentered.intact hspine hintact)
  have ⟨hasks, _⟩ := hentered.asks (i := 0) (.began b) rfl hup hintact hcall' hspine hkind hn hsame'
    hapart
  by_cases hlazy : p.body = (.lazy 0 : Body Handle)
  · obtain ⟨depth, r, s₂, hrun, herror, hdone, hnode, -⟩ := hasks.breaks hbreaks
      (z := ((s'.push (.began b)).on (·.retain y)).push (.ended b)) rfl
    refine ⟨depth, s₂.heap, fun more hmore => ?_, hdone, hnode⟩
    have hinvoke : invoke options (reduceUpTo options more) b c s' = .ok y _ := invoke_ok hk
      (by
        obtain ⟨t, ht, hslot, -⟩ := hasks.slot
        rw [hbody, hlazy]
        exact Args.lazy_run _ ht hslot)
    refine compute_carries hinvoke ?_
    rw [hrun more hmore]
    exact .of_ok herror
  · obtain ⟨depth, m', hraises, hdone, hnode⟩ := hasks.force_raises hbreaks
    refine ⟨depth + 1, m', fun more hmore => ?_, hdone, hnode⟩
    obtain ⟨more, rfl⟩ : ∃ d, more = d + 1 := ⟨more - 1, by omega⟩
    refine compute_carries_raised (invoke_carries hk ?_)
    rw [hbody]
    exact Primitive.body_raises (hraises _ (by omega)) hlazy

/-- A body is about to ask for its first argument `x`, which has not been evaluated. What `x` and `y`
lead to is as it is in `m`, and has nothing to do with the thunk. -/
structure Demands (m : Heap) (x y : Handle) (s : Machine) (rest : Multiset Holding) (args : Args) :
    Prop where
  upright : s.heap.Upright rest
  intact : s.heap.Intact
  first : m.Unchanged s.heap x
  second : m.Unchanged s.heap y
  slot : ∃ t, args.closure.argument? 0 = some t ∧ s.heap.stateOf? t = some (.pending x) ∧
    ¬ s.heap.Reaches x (.thunk t) ∧ ¬ s.heap.Reaches y (.thunk t)

/-- When the first one is demanded as an argument it has a payload of the right kind, and in the heap
that is left then the second one breaks. -/
def BreaksAfter {α : Type} (options : Options) (e : EvalError) (expected : TypeName)
    (take : Payload → Option α) (chosen : α → Prop) (m : Heap) (x y : Handle)
    (done : List ObjectId) : Prop :=
  ∀ ⦃s : Machine⦄ ⦃rest : Multiset Holding⦄ ⦃args : Args⦄, Demands m x y s rest args →
    ∃ depth v s', args.unbox (reduceUpTo options depth) 0 expected take s = .ok v s' ∧ chosen v ∧
      Breaks options e s'.heap y done

namespace BreaksAfter

variable {α : Type} {expected : TypeName} {take : Payload → Option α} {chosen : α → Prop}
  {a : Application} {i : Nat}

theorem asks (name : String) (hafter : BreaksAfter options e expected take chosen m x y done)
    (hfirst : Asks m s rest c 0 x n a) (hasks : Asks m s rest c i y n a)
    (hdistinct : ∀ t, c.argument? 0 = some t → c.argument? i ≠ some t)
    (hx : ∀ t ∈ c.arguments, ¬ s.heap.Reaches x (.thunk t))
    (hy : ∀ t ∈ c.arguments, ¬ s.heap.Reaches y (.thunk t)) :
    ∃ depth v s', (∀ more, depth ≤ more →
        (⟨name, c⟩ : Args).unbox (reduceUpTo options more) 0 expected take s = .ok v s') ∧
      chosen v ∧ Breaks options e s'.heap y done ∧ Asks s'.heap s' rest c i y n a := by
  obtain ⟨t, ht, hslot, hhidden⟩ := hfirst.slot
  obtain ⟨depth, v, s', hrun, hchosen, hbreaks⟩ := @hafter s rest ⟨name, c⟩ ⟨hfirst.upright,
    hfirst.intact, hfirst.unchanged, hasks.unchanged, t, ht, hslot, hhidden,
    hy t (Closure.mem_arguments ht)⟩
  refine ⟨depth, v, s', fun more hmore => ?_, hchosen, hbreaks,
    hfirst.next hasks hdistinct (fun u hu => hx u (Closure.mem_arguments hu)) hrun⟩
  refine ((Args.unbox_follows (reduceUpTo_deepens options hmore) ..).eq_of_none ?_).trans hrun
  rintro ⟨s₁, hgives⟩
  cases hrun.symm.trans hgives

theorem operand (hafter : BreaksAfter options e .int Payload.int? (fun _ => True) m x y done)
    (hp : p.IsOperation) (hcall : m.Call p [x, y] (ns ++ [n]) h)
    (hapart : ∀ z ∈ [x, y], ∀ k ∈ ns ++ [n], ¬ m.Reaches z (.object k)) :
    Breaks options e m h (done ++ [n]) := by
  intro s rest hup hheld _ hintact hsame
  have hcall' := hcall.unchanged hsame
  have hparts := fun z hz => hsame.part (hcall.spine.reaches_parts.2 z hz)
  refine call_breaks hcall' hup hheld hintact fun {xs' f a rest' b c s'} hspine hkind hn hentered => ?_
  obtain ⟨k, hk, hbody⟩ := hentered.held (hentered.intact hspine hintact)
  obtain ⟨hfirst, hx⟩ := hentered.asks (i := 0) (.began b) rfl hup hintact hcall' hspine hkind hn
    (hparts x (by simp)) (hapart x (by simp))
  obtain ⟨hasks, hy⟩ := hentered.asks (i := 1) (.began b) rfl hup hintact hcall' hspine hkind hn
    (hparts y (by simp)) (hapart y (by simp))
  obtain ⟨depth, v, s₁, hrun, -, hbreaks, hasks'⟩ := hafter.asks k.combinator.name hfirst hasks
    (fun t ht => hentered.argument_ne (by decide) ht) hx hy
  obtain ⟨depth', m', hraises, hdone, hnode⟩ := hasks'.force_raises hbreaks
  refine ⟨max depth depth' + 1, m', fun more hmore => ?_, hdone, hnode⟩
  obtain ⟨more, rfl⟩ : ∃ d, more = d + 1 := ⟨more - 1, by omega⟩
  refine compute_carries_raised (invoke_carries hk ?_)
  rw [hbody]
  exact hp.raises (hrun _ (by omega)) (hraises _ (by omega))

theorem branch {v : Bool} {yes no : Handle}
    (hafter : BreaksAfter options e .bool Payload.bool? (· = v) m x (if v then yes else no) done)
    (hcall : m.Call .ifThenElse [x, yes, no] (ns ++ [n]) h)
    (hapart : ∀ z ∈ [x, if v then yes else no], ∀ k ∈ ns ++ [n], ¬ m.Reaches z (.object k)) :
    Breaks options e m h (done ++ [n]) := by
  intro s rest hup hheld _ hintact hsame
  have hcall' := hcall.unchanged hsame
  have hparts := fun z hz => hsame.part (hcall.spine.reaches_parts.2 z hz)
  have hselected : (if v then yes else no) ∈ [x, yes, no] := by cases v <;> simp
  have hplace : [x, yes, no][if v then 1 else 2]? = some (if v then yes else no) := by
    cases v <;> rfl
  refine call_breaks hcall' hup hheld hintact fun {xs' f a rest' b c s'} hspine hkind hn hentered => ?_
  obtain ⟨k, hk, hbody⟩ := hentered.held (hentered.intact hspine hintact)
  obtain ⟨hfirst, hx⟩ := hentered.asks (i := 0) (.began b) rfl hup hintact hcall' hspine hkind hn
    (hparts x (by simp)) (hapart x (by simp))
  obtain ⟨hasks, hy⟩ := hentered.asks (.began b) hplace hup hintact hcall' hspine hkind hn
    (hparts _ hselected) (hapart _ (by simp))
  obtain ⟨depth, w, s₁, hrun, rfl, hbreaks, hasks'⟩ := hafter.asks k.combinator.name hfirst hasks
    (fun t ht => hentered.argument_ne (by split <;> decide) ht) hx hy
  obtain ⟨t, ht, hslot, -⟩ := hasks'.slot
  obtain ⟨depth', r, s₂, hrun', herror, hdone, hnode, -⟩ := hasks'.breaks hbreaks
    (z := (s₁.on (·.retain (if w then yes else no))).push (.ended b)) rfl
  refine ⟨max depth depth', s₂.heap, fun more hmore => ?_, hdone, hnode⟩
  have hinvoke : invoke options (reduceUpTo options more) b c s' = .ok _ _ := invoke_ok hk (by
    rw [hbody]
    exact Primitive.ifThenElse_run (hrun more (by omega)) ht hslot)
  refine compute_carries hinvoke ?_
  rw [hrun' more (by omega)]
  exact .of_ok herror

end BreaksAfter

end GraphReduction.Evaluator
