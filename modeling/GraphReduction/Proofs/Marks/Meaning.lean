import Mathlib
import GraphReduction.Proofs.Marks.Marks

/-! What marks mean for what the cells keep. A meaning may depend on the marks of what a content
refers to, and on which thunks among that are back edges; then single steps on the heap keep every
cell to its mark as long as what is written fits. -/
namespace GraphReduction

open Heap

namespace Marks

variable {α β γ : Type}

/-- What it takes for a content to fit the mark of its cell. -/
structure Meaning (α β γ : Type) where
  reads : Marks α β γ → Heap → ObjectId → ObjectKind → α → Prop
  suspends : Marks α β γ → ThunkState → β → Prop
  codes : Marks α β γ → CombinatorId → Combinator → γ → Prop
  library : Primitive → α
  reads_of_agrees {M M' : Marks α β γ} {m m' : Heap} {o : ObjectId} {kind : ObjectKind} {a : α}
    (hagrees : M.Agrees M' kind.holdings)
    (hback : ∀ t p, .strong (.thunk t) ∈ kind.holdings → m'.stateOf? t = some (.recursive p) →
      m.stateOf? t = some (.recursive p)) (h : reads M m o kind a) : reads M' m' o kind a
  suspends_of_agrees {M M' : Marks α β γ} {state : ThunkState} {b : β}
    (hagrees : M.Agrees M' state.holdings) (h : suspends M state b) : suspends M' state b
  codes_of_agrees {M M' : Marks α β γ} {c : CombinatorId} {k : Combinator} {x : γ}
    (hagrees : M.Agrees M' k.holdings) (h : codes M c k x) : codes M' c k x

structure Fits (K : Meaning α β γ) (M : Marks α β γ) (m : Heap) : Prop where
  object : ∀ o kind, m.kindOf? o = some kind → K.reads M m o kind (M.object o)
  thunk : ∀ t state, m.stateOf? t = some state → K.suspends M state (M.thunk t)
  combinator : ∀ c k, m.combinatorOf? c = some k → K.codes M c k (M.code c)
  library : ∀ p : Primitive, M.object ⟨p.place⟩ = K.library p

structure Upholds (K : Meaning α β γ) (M : Marks α β γ) (m : Heap) (held : Multiset Holding) :
    Prop where
  valid : m.Valid held
  fits : M.Fits K m

variable {K : Meaning α β γ} {M M' : Marks α β γ} {m m' : Heap} {o : ObjectId} {h : Handle}
  {t : ThunkId} {c : Closure} {a : α} {b : β} {held : Multiset Holding} {kind : ObjectKind}
  {state : ThunkState}

namespace Fits

theorem evolve (h : M.Fits K m) (hagrees : M.Agrees M' m.held)
    (hobject : ∀ o kind, m'.kindOf? o = some kind →
      (m.kindOf? o = some kind ∧ M'.object o = M.object o) ∨ K.reads M' m' o kind (M'.object o))
    (hthunk : ∀ t state, m'.stateOf? t = some state →
      (m.stateOf? t = some state ∧ M'.thunk t = M.thunk t) ∨ K.suspends M' state (M'.thunk t))
    (hback : ∀ t p, .strong (.thunk t) ∈ m.held → m'.stateOf? t = some (.recursive p) →
      m.stateOf? t = some (.recursive p))
    (hcode : ∀ c k, m'.combinatorOf? c = some k →
      (m.combinatorOf? c = some k ∧ M'.code c = M.code c) ∨ K.codes M' c k (M'.code c))
    (hlibrary : ∀ p : Primitive, M'.object ⟨p.place⟩ = M.object ⟨p.place⟩) : M'.Fits K m' where
  object o kind hkind := by
    obtain ⟨hsame, hmark⟩ | hreads := hobject o kind hkind
    · have hsub := holdings_subset_held hsame
      rw [hmark]
      exact K.reads_of_agrees (hagrees.mono hsub) (fun t p ht => hback t p (hsub ht))
        (h.object o kind hsame)
    · exact hreads
  thunk t state hstate := by
    obtain ⟨hsame, hmark⟩ | hsuspends := hthunk t state hstate
    · rw [hmark]
      exact K.suspends_of_agrees (hagrees.mono (holdings_subset_held_state hsame))
        (h.thunk t state hsame)
    · exact hsuspends
  combinator c k hk := by
    obtain ⟨hsame, hmark⟩ | hcodes := hcode c k hk
    · rw [hmark]
      exact K.codes_of_agrees (hagrees.mono (holdings_subset_held_combinator hsame))
        (h.combinator c k hsame)
    · exact hcodes
  library p := (hlibrary p).trans (h.library p)

theorem change (h : M.Fits K m)
    (hobject : ∀ o kind, m'.kindOf? o = some kind →
      m.kindOf? o = some kind ∨ K.reads M m' o kind (M.object o))
    (hthunk : ∀ t state, m'.stateOf? t = some state →
      m.stateOf? t = some state ∨ K.suspends M state (M.thunk t))
    (hback : ∀ t p, m'.stateOf? t = some (.recursive p) → m.stateOf? t = some (.recursive p))
    (hcode : ∀ c k, m'.combinatorOf? c = some k → m.combinatorOf? c = some k) : M.Fits K m' :=
  h.evolve (.refl M _) (fun o kind hkind => (hobject o kind hkind).imp_left fun h => ⟨h, rfl⟩)
    (fun t state hstate => (hthunk t state hstate).imp_left fun h => ⟨h, rfl⟩)
    (fun t p _ => hback t p) (fun c k hk => .inl ⟨hcode c k hk, rfl⟩) fun _ => rfl

theorem within (h : M.Fits K m) (hwithin : m'.Within m) : M.Fits K m' :=
  h.change (fun o kind hkind => .inl (hwithin.kind o kind hkind))
    (fun t state hstate => .inl (hwithin.state t state hstate))
    (fun t _ hp => hwithin.state t _ hp) hwithin.combinator

theorem setKind (h : M.Fits K m) (hreads : K.reads M m o kind (M.object o)) :
    M.Fits K (m.setKind o kind) := by
  refine h.change (fun p kind' hkind => ?_) (fun t state hstate => .inl hstate)
    (fun t _ hp => hp) fun c k hk => hk
  rw [Valid.kindOf?_setKind] at hkind
  split at hkind
  · next heq =>
    subst heq
    obtain ⟨_, -, rfl⟩ := Option.map_eq_some_iff.1 hkind
    exact .inr (K.reads_of_agrees (m := m) (.refl M _) (fun _ _ _ hp => hp) hreads)
  · exact .inl hkind

end Fits

namespace Upholds

theorem live (hup : M.Upholds K m held) (hheld : h.holding ∈ held) : m.IsLive h.edge :=
  hup.valid.counted.live h.edge (Multiset.mem_add.2 (.inr hheld))

theorem kindOf?_of_held (hup : M.Upholds K m held) (hheld : h.holding ∈ held) :
    ∃ kind, m.kindOf? h.target = some kind ∧
      K.reads M m h.target kind (M.object h.target) := by
  obtain ⟨x, hx⟩ := Option.isSome_iff_exists.mp (hup.live hheld)
  have hkind : m.kindOf? h.target = some x.kind := by simp [kindOf?, hx]
  exact ⟨x.kind, hkind, hup.fits.object _ _ hkind⟩

theorem stateOf?_of_live (hup : M.Upholds K m held) (hlive : m.IsLive (.thunk t)) :
    ∃ state, m.stateOf? t = some state ∧ K.suspends M state (M.thunk t) := by
  obtain ⟨x, hx⟩ := Option.isSome_iff_exists.mp hlive
  have hstate : m.stateOf? t = some x.state := by simp [stateOf?, hx]
  exact ⟨x.state, hstate, hup.fits.thunk _ _ hstate⟩

theorem live_of_kind {cell : Edge} (hup : M.Upholds K m held) (hkind : m.kindOf? o = some kind)
    (hpart : .strong cell ∈ kind.holdings) : m.IsLive cell :=
  hup.valid.counted.live_of_kind hkind hpart

theorem live_of_state {cell : Edge} (hup : M.Upholds K m held)
    (hstate : m.stateOf? t = some state) (hpart : .strong cell ∈ state.holdings) : m.IsLive cell :=
  hup.valid.counted.live_of_state hstate hpart

theorem argument_live (hup : M.Upholds K m held) (hkind : m.kindOf? o = some (.closure c))
    (ht : t ∈ c.arguments) : m.IsLive (.thunk t) :=
  hup.live_of_kind hkind (by simp [ObjectKind.holdings_closure, ht])

theorem share (hup : M.Upholds K m held) (hlive : m.IsLive h.edge) :
    M.Upholds K (m.retain h) (h.holding ::ₘ held) :=
  ⟨hup.valid.retainEdge hlive, hup.fits.within (within_retainEdge m h.edge)⟩

theorem release (hup : M.Upholds K m (h.holding ::ₘ held)) : M.Upholds K (m.release h) held :=
  ⟨hup.valid.release, hup.fits.within (within_release m h)⟩

theorem releaseThunk (hup : M.Upholds K m (.strong (.thunk t) ::ₘ held)) :
    M.Upholds K (m.releaseThunk t) held :=
  ⟨Valid.releaseAll (by simpa [Loose.holding] using hup.valid),
    hup.fits.within (within_releaseThunk m t)⟩

theorem error (e : EvalError) (hup : M.Upholds K m held) : M.Upholds K m (.error e ::ₘ held) :=
  ⟨(Valid.error e).2 hup.valid, hup.fits⟩

theorem of_error {e : EvalError} (hup : M.Upholds K m (.error e ::ₘ held)) : M.Upholds K m held :=
  ⟨(Valid.error e).1 hup.valid, hup.fits⟩

theorem fits_addObject (hold : Hold) (hup : M.Upholds K m (kind.holdings + held))
    (hreads : K.reads M m m.nextObject kind a) :
    (M.withObject m.nextObject a).Fits K (m.addObject hold kind).2 := by
  have hagrees := agrees_withObject (M := M) hup.valid a
  refine hup.fits.evolve (hagrees.mono (Multiset.subset_of_le (Multiset.le_add_right ..)))
    (fun o kind' hkind => ?_) (fun t state hstate => .inl ⟨hstate, rfl⟩) (fun t p _ hp => hp)
    (fun c k hk => .inl ⟨hk, rfl⟩) fun p => withObject_of_ne (hup.valid.library_ne_nextObject p)
  simp only [kindOf?, object?_addObject] at hkind
  split at hkind
  · next heq =>
    cases hkind
    subst heq
    rw [withObject_self]
    exact .inr (K.reads_of_agrees (m := m) (hagrees.mono fun r hr =>
      Multiset.mem_add.2 (.inr (Multiset.mem_add.2 (.inl hr)))) (fun _ _ _ hp => hp) hreads)
  · next hne => exact .inl ⟨hkind, withObject_of_ne hne⟩

theorem newObject (hup : M.Upholds K m (kind.holdings + held))
    (hproper : ∀ c, kind = .closure c → c.Proper)
    (hreads : K.reads M m m.nextObject kind a) :
    (M.withObject m.nextObject a).Upholds K (m.newObject kind).2
      ((Handle.plain m.nextObject).holding ::ₘ held) :=
  ⟨hup.valid.newObject hproper, hup.fits_addObject (.shared 1 0) hreads⟩

theorem newStatic (hup : M.Upholds K m (kind.holdings + held))
    (hproper : ∀ c, kind = .closure c → c.Proper)
    (hreads : K.reads M m m.nextObject kind a) :
    (M.withObject m.nextObject a).Upholds K (m.newStatic kind).2
      ((Handle.plain m.nextObject).holding ::ₘ held) :=
  ⟨hup.valid.newStatic hproper, hup.fits_addObject .static hreads⟩

theorem newThunk (hup : M.Upholds K m (state.holdings + held))
    (hsuspends : K.suspends M state b) :
    (M.withThunk ⟨m.thunks.next⟩ b).Upholds K (m.newThunk state).2
      (.strong (.thunk ⟨m.thunks.next⟩) ::ₘ held) where
  valid := hup.valid.newThunk
  fits := by
    have hagrees := agrees_withThunk (M := M) hup.valid b
    refine hup.fits.evolve (hagrees.mono (Multiset.subset_of_le (Multiset.le_add_right ..)))
      (fun o kind' hkind => .inl ⟨hkind, rfl⟩) (fun u state' hstate => ?_) (fun u p hu hp => ?_)
      (fun c k hk => .inl ⟨hk, rfl⟩) fun p => rfl
    · rw [stateOf?_newThunk] at hstate
      split at hstate
      · next heq =>
        cases hstate
        subst heq
        rw [withThunk_self]
        exact .inr (K.suspends_of_agrees (hagrees.mono fun r hr =>
          Multiset.mem_add.2 (.inr (Multiset.mem_add.2 (.inl hr)))) hsuspends)
      · next hne => exact .inl ⟨hstate, withThunk_of_ne hne⟩
    · rwa [stateOf?_newThunk, if_neg (hup.valid.ne_nextThunk (Multiset.mem_add.2 (.inl hu)))] at hp

theorem newCombinator {k : Combinator} {x : γ} (hup : M.Upholds K m (k.holdings + held))
    (hcodes : K.codes M (m.newCombinator k).1 k x) :
    (M.withCode (m.newCombinator k).1 x).Upholds K (m.newCombinator k).2
      (.strong (.combinator (m.newCombinator k).1) ::ₘ held) where
  valid := hup.valid.newCombinator
  fits := by
    have hagrees := agrees_withCode (M := M) (grows_newCombinator m k).fresh hup.valid x
    refine hup.fits.evolve (hagrees.mono (Multiset.subset_of_le (Multiset.le_add_right ..)))
      (fun o kind hkind => .inl ⟨hkind, rfl⟩) (fun t state hstate => .inl ⟨hstate, rfl⟩)
      (fun t p _ hp => hp) (fun c k' hk' => ?_) fun p => rfl
    simp only [combinatorOf?, combinator?_newCombinator] at hk'
    split at hk'
    · next heq =>
      cases hk'
      subst heq
      have hmark : (M.withCode (m.newCombinator k).1 x).code ⟨m.combinators.next⟩ = x :=
        withCode_self
      rw [hmark]
      exact .inr (K.codes_of_agrees (hagrees.mono fun r hr =>
        Multiset.mem_add.2 (.inr (Multiset.mem_add.2 (.inl hr)))) hcodes)
    · next hne => exact .inl ⟨hk', withCode_of_ne hne⟩

theorem keep {r : Handle} (hup : M.Upholds K m (r.holding ::ₘ held))
    (hstate : m.stateOf? t = some (.pending h))
    (hsuspends : K.suspends M (.forced r) (M.thunk t)) :
    M.Upholds K (m.setThunkState t (.forced r)) (h.holding ::ₘ held) where
  valid := hup.valid.setThunkState hstate (by simp [Multiset.cons_swap])
  fits := by
    refine hup.fits.change (fun p kind hkind => .inl hkind) (fun u state hstate' => ?_)
      (fun u p hp => ?_) fun c k hk => hk
    · rw [stateOf?_setThunkState] at hstate'
      split at hstate'
      · next heq =>
        subst heq
        obtain ⟨_, -, rfl⟩ := Option.map_eq_some_iff.1 hstate'
        exact .inr hsuspends
      · exact .inl hstate'
    · rw [stateOf?_setThunkState] at hp
      split at hp
      · obtain ⟨_, -, heq⟩ := Option.map_eq_some_iff.1 hp
        cases heq
      · exact hp

theorem reduce {f x r : Handle} (hup : M.Upholds K m (r.holding ::ₘ held))
    (hkind : m.kindOf? o = some (.application (.pending f x)))
    (hreads : K.reads M m o (.application (.reduced r)) (M.object o)) :
    M.Upholds K (m.setKind o (.application (.reduced r))) (f.holding ::ₘ x.holding ::ₘ held) where
  valid := hup.valid.setKind hkind (by simp) (by
    simp only [ObjectKind.holdings_reduced, ObjectKind.holdings_pending, Multiset.insert_eq_cons,
      ← Multiset.singleton_add]
    abel)
  fits := hup.fits.setKind hreads

theorem tie {value : Handle} (hup : M.Upholds K m held)
    (hknot : m.kindOf? o = some (.application (.knot .unresolved))) (hlive : m.IsLive value.edge)
    (hstrong : K.reads M m o (.application (.knot (.strong value.untagged))) (M.object o))
    (hweak : K.reads M m o (.application (.knot (.weak value.target))) (M.object o)) :
    M.Upholds K (m.tie o value) held where
  valid := hup.valid.tie hknot hlive
  fits := by
    have hsame : (m.retainWeak value.target).contents = m.contents := contents_retainWeak m _
    unfold Heap.tie
    split
    · exact hup.fits.setKind hstrong
    · have hfits := hup.fits.within (.of_contents hsame)
      exact hfits.setKind (K.reads_of_agrees (.refl M _)
        (fun t p _ hp => (stateOf?_congr hsame t).symm.trans hp) hweak)

theorem setMemo {memo : Memo} {held' : Multiset Holding} (hup : M.Upholds K m held)
    (hkind : m.kindOf? o = some (.closure c))
    (hown : ↑(memo.result?.toList.map Handle.holding) + held' =
      ↑(c.memo.result?.toList.map Handle.holding) + held)
    (hreads : K.reads M m o (.closure { c with memo }) (M.object o)) :
    M.Upholds K (m.setMemo o memo) held' where
  valid := hup.valid.setMemo hkind hown
  fits := by
    obtain ⟨x, hx, hc⟩ := Option.map_eq_some_iff.1 hkind
    rw [setMemo_eq hx hc]
    exact hup.fits.setKind hreads

theorem fill (hup : M.Upholds K m (.strong (.object o) ::ₘ .strong (.thunk t) ::ₘ held))
    (hunique : m.IsUnique o) (hkind : m.kindOf? o = some (.closure c)) (hmissing : 0 < c.missing)
    (hreads : K.reads M m o (.closure (c.fill t)) a) :
    (M.withObject o a).Upholds K (m.setKind o (.closure (c.fill t)))
      (.strong (.object o) ::ₘ held) where
  valid := by
    have hproper := hup.valid.proper _ _ hkind
    refine hup.valid.setKind hkind (by rintro _ ⟨⟩; exact hproper.fill hmissing t) ?_
    rw [Closure.holdings_fill hproper hmissing]
    simp only [← Multiset.singleton_add]
    abel
  fits := by
    have hagrees := agrees_unique (M := M) hup.valid hunique a
    refine hup.fits.evolve (hagrees.mono (Multiset.subset_of_le (Multiset.le_add_right ..)))
      (fun p kind hkind' => ?_) (fun u state hstate => .inl ⟨hstate, rfl⟩) (fun _ _ _ hp => hp)
      (fun c k hk => .inl ⟨hk, rfl⟩) fun p => withObject_of_ne ?_
    · rw [Valid.kindOf?_setKind] at hkind'
      split at hkind'
      · next heq =>
        subst heq
        obtain ⟨_, -, rfl⟩ := Option.map_eq_some_iff.1 hkind'
        have hfilled := Closure.holdings_fill (hup.valid.proper _ _ hkind) hmissing t
        rw [withObject_self]
        refine .inr (K.reads_of_agrees (m := m) (hagrees.mono fun r hr => ?_)
          (fun _ _ _ hp => hp) hreads)
        rw [hfilled, Multiset.mem_cons] at hr
        obtain rfl | hr := hr
        · exact Multiset.mem_add.2 (.inr (Multiset.mem_cons_self ..))
        · exact Multiset.mem_add.2 (.inl (holdings_subset_held hkind hr))
      · next hother => exact .inl ⟨hkind', withObject_of_ne hother⟩
    · rintro rfl
      cases hunique.recorded.1.symm.trans (hup.valid.library p).2

theorem bindSelf (hup : M.Upholds K m ((ObjectKind.closure c).holdings + held))
    (hproper : c.Proper) (hmissing : 1 < c.missing)
    (hreads : K.reads (M.withKnot m a b) (m.bindSelf c) m.nextObject
      (.closure (c.fill ⟨m.thunks.next⟩)) a)
    (hsuspends : K.suspends (M.withKnot m a b) (.recursive m.nextObject) b) :
    (M.withKnot m a b).Upholds K (m.bindSelf c) (.strong (.object m.nextObject) ::ₘ held) where
  valid := hup.valid.bindSelf hproper hmissing
  fits := by
    have hagrees := agrees_withKnot (M := M) hup.valid a b
    refine hup.fits.evolve (hagrees.mono (Multiset.subset_of_le (Multiset.le_add_right ..)))
      (fun o kind hkind => ?_) (fun u state hstate => ?_) (fun u p hu hp => ?_)
      (fun c k hk => .inl ⟨hk, rfl⟩) fun p => withObject_of_ne (hup.valid.library_ne_nextObject p)
    · rw [kindOf?_bindSelf] at hkind
      split at hkind
      · next heq =>
        subst heq
        cases hkind
        rw [object_withKnot]
        exact .inr hreads
      · next hne => exact .inl ⟨hkind, withObject_of_ne hne⟩
    · rw [stateOf?_bindSelf] at hstate
      split at hstate
      · next heq =>
        subst heq
        cases hstate
        rw [thunk_withKnot]
        exact .inr hsuspends
      · next hne => exact .inl ⟨hstate, withThunk_of_ne hne⟩
    · rwa [stateOf?_bindSelf, if_neg (hup.valid.ne_nextThunk (Multiset.mem_add.2 (.inl hu)))] at hp

end Upholds

end Marks

end GraphReduction
