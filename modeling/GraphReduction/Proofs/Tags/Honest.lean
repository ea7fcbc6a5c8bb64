import Mathlib
import GraphReduction.Proofs.Runs.Append
import GraphReduction.Proofs.Trees.Reading

/-! Tags that tell the truth. A tagged handle is not looked through any more, so whatever is behind
it must be in normal form by then and stay so. What is kept as a result is in normal form too, and a
closure that still misses an argument has no result. Nothing but binding in place takes an object
out of its normal form, and that only happens to objects that nobody else refers to. -/
namespace GraphReduction

open Heap

namespace ObjectKind

/-- There is nothing to reduce, and it is no error. -/
def IsResult : ObjectKind → Prop
  | value _ => True
  | closure c => 0 < c.missing
  | application _ | exception _ => False

def IsException (kind : ObjectKind) : Prop := ∃ e, kind = exception e

/-- What may become of an object that is not bound any further: a result is written into an empty
memo, and a node gets another content. -/
def Becomes : ObjectKind → ObjectKind → Prop
  | closure c, kind => ∃ memo, kind = closure { c with memo } ∧ (c.memo ≠ .empty → memo = c.memo)
  | application _, kind => ∃ a, kind = application a
  | kind, kind' => kind' = kind

variable {kind kind' kind'' : ObjectKind}

theorem Becomes.refl (kind : ObjectKind) : kind.Becomes kind := by
  cases kind with
  | closure c => exact ⟨c.memo, rfl, fun _ => rfl⟩
  | application a => exact ⟨a, rfl⟩
  | value v => rfl
  | exception e => rfl

theorem Becomes.trans (h : kind.Becomes kind') (h' : kind'.Becomes kind'') :
    kind.Becomes kind'' := by
  cases kind with
  | closure c =>
    obtain ⟨memo, rfl, hmemo⟩ := h
    obtain ⟨memo', rfl, hmemo'⟩ := h'
    refine ⟨memo', rfl, fun hfull => ?_⟩
    have hsame := hmemo hfull
    rw [hmemo' (by rwa [hsame]), hsame]
  | application a =>
    obtain ⟨a', rfl⟩ := h
    exact h'
  | value v | exception e =>
    cases h
    exact h'

end ObjectKind

/-- What a handle with the tag can lead to. Errors are seen through their own tag alone. -/
def Tag.Suits : Tag → ObjectKind → Prop
  | plain, kind => ¬ kind.IsException
  | cached, kind => kind.IsResult
  | exception, kind => kind.IsException

namespace Tag

variable {kind kind' : ObjectKind}

theorem suits_plain_of_isResult (h : kind.IsResult) : plain.Suits kind := by
  rintro ⟨e, rfl⟩
  exact h

theorem suits_closure {tag : Tag} {c c' : Closure} (hsame : c'.missing = c.missing)
    (hsuits : tag.Suits (.closure c)) : tag.Suits (.closure c') := by
  cases tag with
  | plain => exact fun hexception => by obtain ⟨e, ⟨⟩⟩ := hexception
  | cached => exact (hsame.symm ▸ hsuits : 0 < c'.missing)
  | exception => obtain ⟨e, ⟨⟩⟩ := hsuits

theorem Suits.becomes {tag : Tag} (hsuits : tag.Suits kind) (h : kind.Becomes kind') :
    tag.Suits kind' := by
  cases kind with
  | closure c =>
    obtain ⟨memo, rfl, -⟩ := h
    exact suits_closure (c := c) rfl hsuits
  | application a =>
    obtain ⟨a', rfl⟩ := h
    cases tag with
    | plain => exact fun hexception => by obtain ⟨e, ⟨⟩⟩ := hexception
    | cached => exact hsuits
    | exception => obtain ⟨e, ⟨⟩⟩ := hsuits
  | value v | exception e =>
    cases h
    exact hsuits

end Tag

open ObjectKind Reading

namespace Heap

/-- The object has the property, or had it until it was gone. -/
def Is (m : Heap) (P : ObjectKind → Prop) (o : ObjectId) : Prop :=
  m.Allocated (.object o) ∧ ∀ kind, m.kindOf? o = some kind → P kind

def Honest (m : Heap) (h : Handle) : Prop := m.Is h.tag.Suits h.target

/-- The handle is a result, which can be kept as such. -/
def Final (m : Heap) (h : Handle) : Prop := m.Honest h.asCached

/-- The handles in an object tell the truth, and those in place of results are results. -/
def HonestKind (m : Heap) : ObjectKind → Prop
  | .value v => ∀ h ∈ v.payload.handles, m.Honest h
  | .closure c => (c.memo ≠ .empty → c.missing = 0) ∧ ∀ r, c.memo = .done r → m.Final r
  | .application (.pending f x) => m.Honest f ∧ m.Honest x
  | .application (.reduced r) | .application (.knot (.strong r)) => m.Final r
  | .application (.knot (.weak o)) => m.Is IsResult o
  | .application (.knot .unresolved) | .exception _ => True

def HonestState (m : Heap) : ThunkState → Prop
  | .pending h => m.Honest h
  | .forced r => m.Final r
  | .recursive o => m.Is IsResult o

structure HonestCells (m : Heap) : Prop where
  object : ∀ o kind, m.kindOf? o = some kind → m.HonestKind kind
  thunk : ∀ t state, m.stateOf? t = some state → m.HonestState state
  combinator : ∀ c k, m.combinatorOf? c = some k → ∀ h ∈ k.body.captures, m.Honest h
  library : ∀ p : Primitive, m.Honest (.plain ⟨p.place⟩)

structure Upright (m : Heap) (own : Multiset Holding) : Prop where
  valid : m.Valid own
  cells : m.HonestCells

/-- The object is as it was, but for results, or gone. -/
def StaysAt (m m' : Heap) (o : ObjectId) : Prop :=
  m.Allocated (.object o) → m'.Allocated (.object o) ∧
    ∀ kind', m'.kindOf? o = some kind' → ∃ kind, m.kindOf? o = some kind ∧ kind.Becomes kind'

/-- What tags say about the object stays true. -/
def Lasts (m m' : Heap) (o : ObjectId) : Prop := ∀ tag : Tag, m.Is tag.Suits o → m'.Is tag.Suits o

/-- Objects stay as they are, and combinators do. -/
structure Spares (fixed : Set ObjectId) (m m' : Heap) : Prop where
  object : ∀ o ∈ fixed, m.StaysAt m' o
  combinator : ∀ c k, m.Allocated (.combinator c) → m'.combinatorOf? c = some k →
    m.combinatorOf? c = some k
  allocated : ∀ cell, m.Allocated cell → m'.Allocated cell

variable {m m' m'' : Heap} {own held rest : Multiset Holding} {o : ObjectId} {h r : Handle}
  {fixed fixed' : Set ObjectId} {kind : ObjectKind}

/-! What stays -/

theorem becomes_of_node {a : Application} (hnode : m.kindOf? o = some (.application a))
    (b : Application) : ∀ old, m.kindOf? o = some old → old.Becomes (.application b) := by
  intro old hold
  cases hnode.symm.trans hold
  exact ⟨b, rfl⟩

theorem StaysAt.refl (m : Heap) (o : ObjectId) : m.StaysAt m o :=
  fun halloc => ⟨halloc, fun kind hkind => ⟨kind, hkind, .refl kind⟩⟩

theorem StaysAt.trans (h : m.StaysAt m' o) (h' : m'.StaysAt m'' o) : m.StaysAt m'' o := by
  intro halloc
  obtain ⟨halloc', hkinds⟩ := h halloc
  obtain ⟨halloc'', hkinds'⟩ := h' halloc'
  refine ⟨halloc'', fun kind'' hkind'' => ?_⟩
  obtain ⟨kind', hkind', hbecomes'⟩ := hkinds' kind'' hkind''
  obtain ⟨kind, hkind, hbecomes⟩ := hkinds kind' hkind'
  exact ⟨kind, hkind, hbecomes.trans hbecomes'⟩

theorem StaysAt.lasts (h : m.StaysAt m' o) : m.Lasts m' o := by
  intro tag his
  obtain ⟨halloc, hkinds⟩ := h his.1
  refine ⟨halloc, fun kind' hkind' => ?_⟩
  obtain ⟨kind, hkind, hbecomes⟩ := hkinds kind' hkind'
  exact (his.2 kind hkind).becomes hbecomes

theorem Is.imp {P Q : ObjectKind → Prop} (h : m.Is P o) (himp : ∀ kind, P kind → Q kind) :
    m.Is Q o :=
  ⟨h.1, fun kind hkind => himp kind (h.2 kind hkind)⟩

theorem Is.of_kind {P : ObjectKind → Prop} (hkind : m.kindOf? o = some kind) (hP : P kind) :
    m.Is P o :=
  ⟨(isLive_of_kindOf? hkind).allocated, fun kind' hkind' => by
    cases hkind.symm.trans hkind'
    exact hP⟩

theorem Lasts.honest (hlasts : m.Lasts m' h.target) (hhonest : m.Honest h) : m'.Honest h :=
  hlasts h.tag hhonest

theorem Lasts.final (hlasts : m.Lasts m' h.target) (hfinal : m.Final h) : m'.Final h := by
  rw [← Handle.target_asCached] at hlasts
  exact hlasts.honest hfinal

theorem Final.asCached (hfinal : m.Final h) : m.Final h.asCached := by
  have hsame : h.asCached.asCached = h.asCached := by
    obtain ⟨tag, o⟩ := h
    cases tag <;> rfl
  rwa [Final, hsame]

theorem Final.of_isResult (htag : h.tag ≠ .exception) (hresult : m.Is IsResult h.target) :
    m.Final h := by
  obtain ⟨tag, o⟩ := h
  cases tag with
  | plain | cached => exact hresult
  | exception => exact absurd rfl htag

theorem Final.plain (hresult : m.Is IsResult o) : m.Final (.plain o) := hresult

theorem Final.isResult (hfinal : m.Final h) (htag : h.tag ≠ .exception) :
    m.Is IsResult h.target := by
  obtain ⟨tag, o⟩ := h
  cases tag with
  | plain | cached => exact hfinal
  | exception => exact absurd rfl htag

theorem Final.honest (hfinal : m.Final h) : m.Honest h := by
  obtain ⟨tag, o⟩ := h
  cases tag with
  | plain => exact Is.imp (h := hfinal) fun _ => Tag.suits_plain_of_isResult
  | cached | exception => exact hfinal

namespace Spares

theorem refl (fixed : Set ObjectId) (m : Heap) : Spares fixed m m :=
  ⟨fun o _ => .refl m o, fun _ _ _ hk => hk, fun _ halloc => halloc⟩

theorem trans (h : Spares fixed m m') (h' : Spares fixed m' m'') : Spares fixed m m'' where
  object o ho := (h.object o ho).trans (h'.object o ho)
  combinator c k hc hk := h.combinator c k hc (h'.combinator c k (h.allocated _ hc) hk)
  allocated cell halloc := h'.allocated cell (h.allocated cell halloc)

theorem mono (h : Spares fixed m m') (hsub : fixed' ⊆ fixed) : Spares fixed' m m' :=
  ⟨fun o ho => h.object o (hsub ho), h.combinator, h.allocated⟩

theorem within (hwithin : m'.Within m) : Spares fixed m m' where
  object o _ halloc := ⟨(hwithin.allocated _).mpr halloc, fun kind hkind =>
    ⟨kind, hwithin.kind o kind hkind, .refl kind⟩⟩
  combinator c k _ hk := hwithin.combinator c k hk
  allocated _ halloc := (hwithin.allocated _).mpr halloc

theorem of_contents (hsame : m'.contents = m.contents) : Spares fixed m m' :=
  within (.of_contents hsame)

theorem share (m : Heap) (h : Handle) : Spares fixed m (m.retain h) :=
  of_contents (contents_retain m h)

theorem release (m : Heap) (h : Handle) : Spares fixed m (m.release h) :=
  within (within_release m h)

theorem addObject (m : Heap) (hold : Hold) (kind : ObjectKind) :
    Spares fixed m (m.addObject hold kind).2 := by
  have halloc : ∀ cell, m.Allocated cell → (m.addObject hold kind).2.Allocated cell :=
    fun cell halloc => (extends_addObject m hold kind).allocated cell halloc
  refine ⟨fun _ _ ho => ⟨halloc _ ho, fun kind' hkind => ?_⟩, fun _ _ _ hk => hk, halloc⟩
  have hold' := (extends_addObject m hold kind).kindOf?_eq ho
  exact ⟨kind', hold'.symm.trans hkind, .refl kind'⟩

theorem retainWeak (m : Heap) (p : ObjectId) : Spares fixed m (m.retainWeak p) :=
  of_contents (contents_retainWeak m p)

theorem newThunk (m : Heap) (state : ThunkState) : Spares fixed m (m.newThunk state).2 :=
  ⟨fun _ _ ho => ⟨((grows_newThunk m state).allocated _).mpr (.inr ho),
    fun kind hkind => ⟨kind, hkind, .refl kind⟩⟩, fun _ _ _ hk => hk,
    fun _ ho => ((grows_newThunk m state).allocated _).mpr (.inr ho)⟩

theorem bindSelf (m : Heap) (fresh : Closure) : Spares fixed m (m.bindSelf fresh) :=
  (newThunk m _).trans ((addObject _ _ _).trans (retainWeak _ _))

theorem newCombinator (m : Heap) (k : Combinator) : Spares fixed m (m.newCombinator k).2 where
  object _ _ ho := ⟨((grows_newCombinator m k).allocated _).mpr (.inr ho),
    fun kind hkind => ⟨kind, hkind, .refl kind⟩⟩
  combinator c k' hc hk' := by
    have hne : c.index ≠ m.combinators.next := Nat.ne_of_lt hc
    simpa [combinatorOf?, combinator?, Heap.newCombinator, hne] using hk'
  allocated _ ho := ((grows_newCombinator m k).allocated _).mpr (.inr ho)

theorem setThunkState (m : Heap) (t : ThunkId) (state : ThunkState) :
    Spares fixed m (m.setThunkState t state) where
  object _ _ ho := ⟨(allocated_setThunkState m t state _).mpr ho,
    fun kind hkind => ⟨kind, hkind, .refl kind⟩⟩
  combinator _ _ _ hk := hk
  allocated cell ho := (allocated_setThunkState m t state cell).mpr ho

theorem setKind (hbecomes : o ∈ fixed → ∀ old, m.kindOf? o = some old → old.Becomes kind) :
    Spares fixed m (m.setKind o kind) where
  object p hp halloc := by
    refine ⟨(allocated_setKind m o kind _).mpr halloc, fun kind' hkind' => ?_⟩
    rw [Valid.kindOf?_setKind] at hkind'
    split at hkind'
    · next heq =>
      subst heq
      obtain ⟨old, hold, rfl⟩ := Option.map_eq_some_iff.mp hkind'
      exact ⟨old, hold, hbecomes hp old hold⟩
    · exact ⟨kind', hkind', .refl kind'⟩
  combinator _ _ _ hk := hk
  allocated cell halloc := (allocated_setKind m o kind cell).mpr halloc

theorem around {c : Closure} (h : Spares fixed (m.setMemo o .running) m')
    (hkind : m.kindOf? o = some (.closure c)) (hmemo : c.memo = .empty) (memo : Memo) :
    Spares fixed m (m'.setMemo o memo) where
  object p hp halloc := by
    obtain ⟨halloc', hkinds⟩ := h.object p hp ((allocated_setMemo m o .running _).mpr halloc)
    refine ⟨(allocated_setMemo m' o memo _).mpr halloc', fun kind' hkind' => ?_⟩
    rw [kindOf?_setMemo] at hkind'
    split at hkind'
    · next heq =>
      subst heq
      obtain ⟨kind, hkind₁, rfl⟩ := Option.map_eq_some_iff.mp hkind'
      obtain ⟨old, hold, hbecomes⟩ := hkinds kind hkind₁
      rw [kindOf?_setMemo, if_pos rfl, hkind] at hold
      cases hold
      obtain ⟨memo', rfl, -⟩ := hbecomes
      exact ⟨_, hkind, memo, rfl, fun hfull => absurd hmemo hfull⟩
    · next hne =>
      obtain ⟨old, hold, hbecomes⟩ := hkinds kind' hkind'
      rw [kindOf?_setMemo, if_neg hne] at hold
      exact ⟨old, hold, hbecomes⟩
  combinator c k hc hk := h.combinator c k ((allocated_setMemo m o .running _).mpr hc) hk
  allocated cell halloc := (allocated_setMemo m' o memo cell).mpr
    (h.allocated cell ((allocated_setMemo m o .running cell).mpr halloc))

theorem closure {c : Closure} (h : Spares fixed m m') (ho : o ∈ fixed)
    (hkind : m.kindOf? o = some (.closure c)) (hlive : m'.IsLive (.object o)) :
    ∃ memo, m'.kindOf? o = some (.closure { c with memo }) ∧ (c.memo ≠ .empty → memo = c.memo) := by
  obtain ⟨x, hx⟩ := Option.isSome_iff_exists.mp hlive
  have hkind' : m'.kindOf? o = some x.kind := by simp [kindOf?, hx]
  obtain ⟨old, hold, hbecomes⟩ :=
    (h.object o ho (isLive_of_kindOf? hkind).allocated).2 _ hkind'
  cases hkind.symm.trans hold
  obtain ⟨memo, heq, hmemo⟩ := hbecomes
  exact ⟨memo, hkind'.trans (congrArg some heq), hmemo⟩

theorem lasts (h : Spares fixed m m') (ho : o ∈ fixed) : m.Lasts m' o := (h.object o ho).lasts

end Spares

/-! What cells hold tells the truth as long as it stays. -/

theorem HonestKind.mono (hhonest : m.HonestKind kind)
    (hlasts : ∀ o, .strong (.object o) ∈ kind.holdings ∨ .weak o ∈ kind.holdings →
      m.Lasts m' o) : m'.HonestKind kind := by
  rcases kind with v | c | (⟨f, x⟩ | r | (_ | o | r)) | e
  · intro h hh
    refine (hlasts h.target (.inl ?_)).honest (hhonest h hh)
    rw [ObjectKind.holdings_value, Multiset.mem_cons]
    exact .inr (List.mem_map_of_mem (f := Handle.holding) hh)
  · obtain ⟨hsaturated, hdone⟩ := hhonest
    refine ⟨hsaturated, fun r hr => (hlasts r.target (.inl ?_)).final (hdone r hr)⟩
    simp [ObjectKind.holdings_closure, hr, Memo.result?, Handle.holding, Handle.edge]
  · exact ⟨(hlasts f.target (.inl (by simp [Handle.holding, Handle.edge]))).honest hhonest.1,
      (hlasts x.target (.inl (by simp [Handle.holding, Handle.edge]))).honest hhonest.2⟩
  · exact (hlasts r.target (.inl (by simp [Handle.holding, Handle.edge]))).final hhonest
  · trivial
  · exact hlasts o (.inr (by simp)) .cached hhonest
  · exact (hlasts r.target (.inl (by simp [Handle.holding, Handle.edge]))).final hhonest
  · trivial

theorem HonestState.mono {state : ThunkState} (hhonest : m.HonestState state)
    (hlasts : ∀ o, .strong (.object o) ∈ state.holdings ∨ .weak o ∈ state.holdings →
      m.Lasts m' o) : m'.HonestState state := by
  cases state with
  | pending h =>
    exact (hlasts h.target (.inl (by simp [Handle.holding, Handle.edge]))).honest hhonest
  | forced r =>
    exact (hlasts r.target (.inl (by simp [Handle.holding, Handle.edge]))).final hhonest
  | recursive o => exact hlasts o (.inr (by simp)) .cached hhonest

theorem mem_holdings_of_captures {k : Combinator} (hh : h ∈ k.body.captures) :
    h.holding ∈ k.holdings := by
  rw [Combinator.holdings]
  exact Multiset.mem_coe.mpr (List.mem_append_left _ (List.mem_map_of_mem hh))

theorem HonestCells.step (hcells : m.HonestCells)
    (hlasts : ∀ o, .strong (.object o) ∈ m.held ∨ .weak o ∈ m.held → m.Lasts m' o)
    (hlibrary : ∀ p : Primitive, m.Lasts m' ⟨p.place⟩)
    (hobject : ∀ o kind, m'.kindOf? o = some kind →
      m.kindOf? o = some kind ∨ m'.HonestKind kind)
    (hthunk : ∀ t state, m'.stateOf? t = some state →
      m.stateOf? t = some state ∨ m'.HonestState state)
    (hcombinator : ∀ c k, m'.combinatorOf? c = some k →
      m.combinatorOf? c = some k ∨ ∀ h ∈ k.body.captures, m'.Honest h) : m'.HonestCells where
  object o kind hkind := by
    obtain hsame | hnew := hobject o kind hkind
    · exact (hcells.object o kind hsame).mono fun p hp => hlasts p
        (hp.imp (holdings_subset_held hsame ·) (holdings_subset_held hsame ·))
    · exact hnew
  thunk t state hstate := by
    obtain hsame | hnew := hthunk t state hstate
    · exact (hcells.thunk t state hsame).mono fun p hp => hlasts p
        (hp.imp (holdings_subset_held_state hsame ·) (holdings_subset_held_state hsame ·))
    · exact hnew
  combinator c k hk h hh := by
    obtain hsame | hnew := hcombinator c k hk
    · refine (hlasts h.target (.inl ?_)).honest (hcells.combinator c k hsame h hh)
      exact holdings_subset_held_combinator hsame (mem_holdings_of_captures hh)
    · exact hnew h hh
  library p := hlibrary p .plain (hcells.library p)

theorem HonestCells.evolve (hcells : m.HonestCells) (hspares : Spares Set.univ m m')
    (hobject : ∀ o kind, m'.kindOf? o = some kind →
      m.kindOf? o = some kind ∨ m'.HonestKind kind)
    (hthunk : ∀ t state, m'.stateOf? t = some state →
      m.stateOf? t = some state ∨ m'.HonestState state)
    (hcombinator : ∀ c k, m'.combinatorOf? c = some k →
      m.combinatorOf? c = some k ∨ ∀ h ∈ k.body.captures, m'.Honest h) : m'.HonestCells :=
  hcells.step (fun _ _ => hspares.lasts trivial) (fun _ => hspares.lasts trivial) hobject hthunk
    hcombinator

theorem HonestCells.within (hcells : m.HonestCells) (hwithin : m'.Within m) : m'.HonestCells :=
  hcells.evolve (.within hwithin) (fun o kind hkind => .inl (hwithin.kind o kind hkind))
    (fun t state hstate => .inl (hwithin.state t state hstate))
    fun c k hk => .inl (hwithin.combinator c k hk)

end Heap

end GraphReduction
