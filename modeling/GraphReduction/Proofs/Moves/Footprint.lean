import Mathlib
import GraphReduction.Proofs.Labels.Ends
import GraphReduction.Proofs.Moves.Machine

/-! The footprint of a computation. Cells that no cell outside refers to, over strong and weak
references, are out of reach of whoever holds references to other cells only: moves leave what is in
them as it is, and they stay out of reach. -/
namespace GraphReduction

def Holding.Avoids (P : Set Edge) (r : Holding) : Prop := ∀ cell, r.target? = some cell → cell ∉ P

namespace Holding

variable {P : Set Edge}

@[simp] theorem avoids_strong (cell : Edge) : (strong cell).Avoids P ↔ cell ∉ P := by
  simp [Avoids]

@[simp] theorem avoids_weak (o : ObjectId) : (weak o).Avoids P ↔ .object o ∉ P := by
  simp [Avoids]

@[simp] theorem avoids_error (e : EvalError) : (error e).Avoids P := by
  simp [Avoids]

end Holding

namespace Heap

/-- What is in a cell, without the counts. -/
inductive Content where
  | object (kind : ObjectKind)
  | thunk (state : ThunkState)
  | combinator (k : Combinator)

def content? (m : Heap) : Edge → Option Content
  | .object o => (m.kindOf? o).map .object
  | .thunk t => (m.stateOf? t).map .thunk
  | .combinator c => (m.combinatorOf? c).map .combinator

/-- The heaps differ in cells of `W` at most. -/
def AgreeOff (W : Set Edge) (m m' : Heap) : Prop := ∀ cell ∉ W, m'.content? cell = m.content? cell

/-- No cell outside `P` refers to a cell in it. Only places that have been given out are in `P`, and
the library is not. -/
structure Guarded (m : Heap) (P : Set Edge) : Prop where
  allocated : ∀ cell ∈ P, m.Allocated cell
  library : ∀ p : Primitive, .object ⟨p.place⟩ ∉ P
  closed : ∀ cell ∉ P, ∀ r ∈ m.holds cell, r.Avoids P

variable {m m' m'' : Heap} {P W : Set Edge} {o : ObjectId} {t : ThunkId} {cell : Edge}
  {own own' : Multiset Holding} {lent : Set Edge}

/-! What is in a cell -/

theorem content?_congr (hsame : m'.contents = m.contents) (cell : Edge) :
    m'.content? cell = m.content? cell := by
  cases cell with
  | object o => rw [content?, content?, kindOf?_congr hsame]
  | thunk t => rw [content?, content?, stateOf?_congr hsame]
  | combinator c => rw [content?, content?, combinatorOf?_congr hsame]

theorem isSome_content? (m : Heap) (cell : Edge) : (m.content? cell).isSome ↔ m.IsLive cell := by
  cases cell <;> simp [content?, IsLive, kindOf?, stateOf?, combinatorOf?]

theorem isLive_of_content? (hsame : m'.content? cell = m.content? cell) :
    m'.IsLive cell ↔ m.IsLive cell := by
  rw [← isSome_content?, ← isSome_content?, hsame]

theorem kindOf?_of_content? (hsame : m'.content? (.object o) = m.content? (.object o)) :
    m'.kindOf? o = m.kindOf? o :=
  Option.map_injective (fun _ _ h => by cases h; rfl) hsame

theorem stateOf?_of_content? (hsame : m'.content? (.thunk t) = m.content? (.thunk t)) :
    m'.stateOf? t = m.stateOf? t :=
  Option.map_injective (fun _ _ h => by cases h; rfl) hsame

theorem combinatorOf?_of_content? {c : CombinatorId}
    (hsame : m'.content? (.combinator c) = m.content? (.combinator c)) :
    m'.combinatorOf? c = m.combinatorOf? c :=
  Option.map_injective (fun _ _ h => by cases h; rfl) hsame

theorem holds_of_content? (hsame : m'.content? cell = m.content? cell) :
    m'.holds cell = m.holds cell := by
  cases cell with
  | object o =>
    have hkind := congrArg (fun k => k.elim 0 ObjectKind.holdings) (kindOf?_of_content? hsame)
    simpa [holds, kindOf?, Function.comp_def] using hkind
  | thunk t =>
    have hstate := congrArg (fun k => k.elim 0 ThunkState.holdings) (stateOf?_of_content? hsame)
    simpa [holds, stateOf?, Function.comp_def] using hstate
  | combinator c =>
    have hk := congrArg (fun k => k.elim 0 Combinator.holdings) (combinatorOf?_of_content? hsame)
    simpa [holds, combinatorOf?, Function.comp_def] using hk

theorem isLive_of_holds {r : Holding} (h : r ∈ m.holds cell) : m.IsLive cell := by
  by_contra hdead
  rcases cell with o | t | c <;> simp [IsLive] at hdead <;> simp [holds, hdead] at h

theorem strong_mem_holds_iff {next : Edge} :
    .strong next ∈ m.holds cell ↔ next ∈ m.edgesOf cell := by
  simp [holds_eq]

theorem weak_mem_holds_iff : .weak o ∈ m.holds cell ↔ m.weakTarget? cell = some o := by
  simp [holds_eq]

namespace AgreeOff

theorem of_contents (hsame : m'.contents = m.contents) : AgreeOff W m m' :=
  fun cell _ => content?_congr hsame cell

theorem trans (h : AgreeOff W m m') (h' : AgreeOff W m' m'') : AgreeOff W m m'' :=
  fun cell hcell => (h' cell hcell).trans (h cell hcell)

theorem removeEdge (m : Heap) (cell : Edge) : AgreeOff {cell} m (m.removeEdge cell) := by
  intro other hother
  rw [Set.mem_singleton_iff] at hother
  cases other with
  | object o =>
    rw [content?, Valid.kindOf?_removeEdge, if_neg (Ne.symm hother)]
    rfl
  | thunk t =>
    cases cell with
    | thunk u =>
      have hne : t ≠ u := fun heq => hother (heq ▸ rfl)
      simp [content?, stateOf?, Heap.removeEdge, hne]
    | object o | combinator c => rfl
  | combinator c =>
    cases cell with
    | combinator d =>
      have hne : c ≠ d := fun heq => hother (heq ▸ rfl)
      simp [content?, combinatorOf?, Heap.removeEdge, hne]
    | object o | thunk t => rfl

theorem addObject (m : Heap) (hold : Hold) (kind : ObjectKind) :
    AgreeOff {.object m.nextObject} m (m.addObject hold kind).2 := by
  intro cell hcell
  cases cell with
  | object o =>
    have hne : o ≠ m.nextObject := fun heq => hcell (heq ▸ rfl)
    rw [content?, kindOf?, object?_addObject, if_neg hne]
    rfl
  | thunk t | combinator c => rfl

theorem newThunk (m : Heap) (state : ThunkState) :
    AgreeOff {.thunk (m.newThunk state).1} m (m.newThunk state).2 := by
  intro cell hcell
  cases cell with
  | thunk t =>
    have hne : t ≠ ⟨m.thunks.next⟩ := fun heq => hcell (heq ▸ rfl)
    rw [content?, stateOf?_newThunk, if_neg hne]
    rfl
  | object o | combinator c => rfl

theorem setKind (m : Heap) (o : ObjectId) (kind : ObjectKind) :
    AgreeOff {.object o} m (m.setKind o kind) := by
  intro cell hcell
  cases cell with
  | object p =>
    have hne : p ≠ o := fun heq => hcell (heq ▸ rfl)
    rw [content?, Valid.kindOf?_setKind, if_neg hne]
    rfl
  | thunk t | combinator c => rfl

theorem setThunkState (m : Heap) (t : ThunkId) (state : ThunkState) :
    AgreeOff {.thunk t} m (m.setThunkState t state) := by
  intro cell hcell
  cases cell with
  | thunk u =>
    have hne : u ≠ t := fun heq => hcell (heq ▸ rfl)
    rw [content?, stateOf?_setThunkState, if_neg hne]
    rfl
  | object o | combinator c => rfl

theorem setMemo (m : Heap) (o : ObjectId) (memo : Memo) :
    AgreeOff {.object o} m (m.setMemo o memo) := by
  intro cell hcell
  cases cell with
  | object p =>
    have hne : p ≠ o := fun heq => hcell (heq ▸ rfl)
    rw [content?, kindOf?_setMemo, if_neg hne]
    rfl
  | thunk t | combinator c => rfl

end AgreeOff

/-- What was the last reference goes with its cell, and with nothing else. -/
theorem agreeOff_giveBack (m : Heap) (loose : Loose) :
    AgreeOff {loose.edge} m (m.giveBack loose).1 := by
  obtain ⟨-, heq⟩ | ⟨n, -, -, heq⟩ | ⟨n, -, -, hsame, -⟩ := m.giveBack_cases loose
  · rw [heq]
    exact .of_contents rfl
  · rw [heq]
    exact .of_contents (contents_loseEdge m _)
  · refine (AgreeOff.removeEdge m _).trans (.of_contents (hsame.contents.trans ?_))
    cases m.weakTarget? loose.edge <;> simp [Heap.releaseWeak?]

theorem agreeOff_tie (m : Heap) (knot : ObjectId) (value : Handle) :
    AgreeOff {.object knot} m (m.tie knot value) := by
  rw [tie]
  split
  · exact .setKind m knot _
  · exact (AgreeOff.of_contents (contents_retainWeak m _)).trans (.setKind _ knot _)

/-! What is out of reach -/

theorem Access.avoids {r : Holding} (hguarded : m.Guarded P) (hlent : ∀ cell ∈ lent, cell ∉ P)
    (hown : ∀ r ∈ own, r.Avoids P) (h : m.Access lent own r) : r.Avoids P := by
  induction h with
  | own hr => exact hown _ hr
  | lent hcell => exact (Holding.avoids_strong _).mpr (hlent _ hcell)
  | library p => exact (Holding.avoids_strong _).mpr (hguarded.library p)
  | inside _ hr _ ih => exact hguarded.closed _ ((Holding.avoids_strong _).mp ih) _ hr
  | @back f o c t _ hc ht hback ih =>
    have hthunk : .thunk t ∉ P := by
      refine (Holding.avoids_strong _).mp (hguarded.closed _ ((Holding.avoids_strong _).mp ih) _ ?_)
      simp [holds_of_kindOf? hc, ObjectKind.holdings_closure, ht]
    rw [backEdge?] at hback
    split at hback
    · next o' hstate =>
      obtain rfl := Option.some.inj (Option.ite_none_right_eq_some.mp hback).2
      exact hguarded.closed _ hthunk _ (by simp [holds_of_stateOf? hstate])
    · next h hstate =>
      have hobject : h.edge ∉ P := by
        refine (Holding.avoids_strong _).mp (hguarded.closed _ hthunk _ ?_)
        simp [holds_of_stateOf? hstate, Handle.holding]
      split at hback
      · next o' hknot =>
        cases hback
        refine hguarded.closed _ hobject _ ?_
        rw [Handle.edge, holds_of_kindOf? (kindOf?_of_application? hknot)]
        simp
      · cases hback
    · cases hback

namespace Guarded

/-- A change of cells outside `P`, after which they refer to nothing in it. -/
theorem step (h : m.Guarded P) (halloc : ∀ cell, m.Allocated cell → m'.Allocated cell)
    (hagree : AgreeOff W m m')
    (hnew : ∀ cell ∈ W, cell ∉ P → ∀ r ∈ m'.holds cell, r.Avoids P) : m'.Guarded P where
  allocated cell hcell := halloc cell (h.allocated cell hcell)
  library := h.library
  closed cell hcell r hr := by
    by_cases hin : cell ∈ W
    · exact hnew cell hin hcell r hr
    · exact h.closed cell hcell r (holds_of_content? (hagree cell hin) ▸ hr)

theorem of_contents (h : m.Guarded P) (hsame : m'.contents = m.contents) : m'.Guarded P :=
  h.step (fun cell => (allocated_congr hsame cell).mpr) (AgreeOff.of_contents (W := ∅) hsame)
    (fun _ hcell => hcell.elim)

theorem without (h : m.Guarded P) (hcell : ∀ r ∈ m.holds cell, r.Avoids P) :
    m.Guarded { other ∈ P | other ≠ cell } where
  allocated other hother := h.allocated other hother.1
  library p hin := h.library p hin.1
  closed other hother r hr next hnext hin := by
    by_cases hsame : other = cell
    · exact hcell r (hsame ▸ hr) next hnext hin.1
    · exact h.closed other (fun hin => hother ⟨hin, hsame⟩) r hr next hnext hin.1

theorem kind (h : m.Guarded P) (ho : .object o ∉ P) {kind : ObjectKind}
    (hkind : m.kindOf? o = some kind) : ∀ r ∈ kind.holdings, r.Avoids P :=
  fun r hr => h.closed _ ho r (holds_of_kindOf? hkind ▸ hr)

theorem state (h : m.Guarded P) (ht : .thunk t ∉ P) {state : ThunkState}
    (hstate : m.stateOf? t = some state) : ∀ r ∈ state.holdings, r.Avoids P :=
  fun r hr => h.closed _ ht r (holds_of_stateOf? hstate ▸ hr)

theorem setKind (h : m.Guarded P) {kind : ObjectKind} (hkind : ∀ r ∈ kind.holdings, r.Avoids P) :
    (m.setKind o kind).Guarded P := by
  refine h.step (fun cell => (allocated_setKind m o kind cell).mpr) (.setKind m o kind) ?_
  rintro _ rfl ho r hr
  cases hthere : m.kindOf? o with
  | none =>
    have hgone : ¬ m.IsLive (.object o) := by
      rw [← isSome_content?, content?, hthere]
      simp
    have hnone : (m.setKind o kind).holds (.object o) = 0 := by
      have hdead : m.object? o = none := by simpa [IsLive] using hgone
      simp [holds, hdead]
    simp [hnone] at hr
  | some old =>
    have hnew : (m.setKind o kind).kindOf? o = some kind := by
      rw [Valid.kindOf?_setKind, if_pos rfl, hthere, Option.map_some]
    rw [holds_of_kindOf? hnew] at hr
    exact hkind r hr

theorem setThunkState (h : m.Guarded P) {state : ThunkState}
    (hstate : ∀ r ∈ state.holdings, r.Avoids P) : (m.setThunkState t state).Guarded P := by
  refine h.step (fun cell => (allocated_setThunkState m t state cell).mpr)
    (.setThunkState m t state) ?_
  rintro _ rfl _ r hr
  cases hthere : m.stateOf? t with
  | none =>
    have hdead : m.thunk? t = none := by simpa [stateOf?] using hthere
    simp [holds, hdead] at hr
  | some old =>
    have hnew : (m.setThunkState t state).stateOf? t = some state := by
      rw [stateOf?_setThunkState, if_pos rfl, hthere, Option.map_some]
    rw [holds_of_stateOf? hnew] at hr
    exact hstate r hr

theorem setMemo (h : m.Guarded P) {c : Closure} {memo : Memo} (ho : .object o ∉ P)
    (hkind : m.kindOf? o = some (.closure c)) (hmemo : ∀ r, memo = .done r → r.holding.Avoids P) :
    (m.setMemo o memo).Guarded P := by
  obtain ⟨x, hx, hc⟩ := Option.map_eq_some_iff.mp hkind
  rw [setMemo_eq hx hc]
  refine h.setKind fun r hr => ?_
  rw [Valid.holdings_memo] at hr
  rcases Multiset.mem_add.mp hr with hresult | hclosure
  · obtain ⟨r', hr', rfl⟩ := List.mem_map.mp (Multiset.mem_coe.mp hresult)
    cases memo with
    | done g =>
      obtain rfl : r' = g := by simpa [Memo.result?] using hr'
      exact hmemo r' rfl
    | empty | running => simp [Memo.result?] at hr'
  · refine h.kind ho hkind r ?_
    have hsame := Valid.holdings_memo c c.memo
    rw [show (ObjectKind.closure { c with memo := c.memo }) = .closure c from rfl] at hsame
    rw [hsame]
    exact Multiset.mem_add.mpr (.inr hclosure)

theorem newObject (h : m.Guarded P) {kind : ObjectKind} (hkind : ∀ r ∈ kind.holdings, r.Avoids P) :
    (m.newObject kind).2.Guarded P := by
  refine h.step (fun cell => allocated_newObject kind) (.addObject m _ kind) ?_
  rintro _ rfl _ r hr
  have hmade : (m.newObject kind).2.kindOf? m.nextObject = some kind :=
    (kindOf?_newObject ..).trans (if_pos rfl)
  rw [holds_of_kindOf? hmade] at hr
  exact hkind r hr

theorem newThunk (h : m.Guarded P) {state : ThunkState}
    (hstate : ∀ r ∈ state.holdings, r.Avoids P) : (m.newThunk state).2.Guarded P := by
  refine h.step (fun cell hcell => ((grows_newThunk m state).allocated cell).mpr (.inr hcell))
    (.newThunk m state) ?_
  rintro _ rfl _ r hr
  have hmade : (m.newThunk state).2.stateOf? (m.newThunk state).1 = some state :=
    (stateOf?_newThunk m state _).trans (if_pos rfl)
  rw [holds_of_stateOf? hmade] at hr
  exact hstate r hr

theorem operands (h : m.Guarded P) {c : Closure} (ho : .object o ∉ P)
    (hkind : m.kindOf? o = some (.closure c)) : ∀ cell ∈ c.operands, cell ∉ P := by
  intro cell hcell
  refine (Holding.avoids_strong _).mp (h.kind ho hkind _ ?_)
  rw [ObjectKind.holdings_closure]
  obtain rfl | ⟨t, ht, rfl⟩ := hcell
  · exact Multiset.mem_cons_self _ _
  · exact Multiset.mem_cons_of_mem (by simp [ht])

theorem giveBack (h : m.Guarded P) {loose : Loose} (hloose : loose.edge ∉ P) :
    (m.giveBack loose).1.Guarded P ∧ ∀ more ∈ (m.giveBack loose).2, more.edge ∉ P := by
  refine ⟨h.step (fun cell => (allocated_giveBack m loose cell).mpr) (agreeOff_giveBack m loose) ?_,
    fun more hmore => ?_⟩
  · rintro _ rfl _ r hr
    obtain ⟨-, heq⟩ | ⟨n, -, -, heq⟩ | ⟨n, -, -, hsame, -⟩ := m.giveBack_cases loose
    · exact h.closed _ hloose r (by rwa [heq] at hr)
    · exact h.closed _ hloose r (by rwa [heq, holds_congr (contents_loseEdge m _)] at hr)
    · have hcontents : (m.giveBack loose).1.contents = (m.removeEdge loose.edge).contents := by
        rw [hsame.contents]
        cases m.weakTarget? loose.edge <;> simp [Heap.releaseWeak?]
      have hlive := (isLive_congr hcontents _).mp (isLive_of_holds hr)
      exact absurd rfl ((isLive_removeEdge m _ _).mp hlive).1
  · obtain ⟨-, heq⟩ | ⟨n, -, -, heq⟩ | ⟨n, -, -, -, hedges⟩ := m.giveBack_cases loose
    · simp [heq] at hmore
    · simp [heq] at hmore
    · have hmem : more.edge ∈ m.edgesOf loose.edge := hedges ▸ List.mem_map_of_mem hmore
      exact (Holding.avoids_strong _).mp (h.closed _ hloose _ (strong_mem_holds_iff.mpr hmem))

theorem releaseAll (h : m.Guarded P) {pending : List Loose}
    (hpending : ∀ loose ∈ pending, loose.edge ∉ P) :
    (m.releaseAll pending).Guarded P ∧
      ∀ cell ∈ P, (m.releaseAll pending).content? cell = m.content? cell := by
  have hend := releaseAll_invariant (P := fun m' pending =>
    (∀ loose ∈ pending, loose.edge ∉ P) ∧ m'.Guarded P ∧
      ∀ cell ∈ P, m'.content? cell = m.content? cell)
    (fun m' loose rest ⟨hpending, hguarded, hsame⟩ => ?_)
    (show _ ∧ _ ∧ ∀ cell ∈ P, m.content? cell = m.content? cell from
      ⟨hpending, h, fun _ _ => rfl⟩)
  · exact hend.2
  · have hloose := hpending loose List.mem_cons_self
    obtain ⟨hnext, hmore⟩ := hguarded.giveBack hloose
    refine ⟨fun more hin => ?_, hnext, fun cell hcell => ?_⟩
    · obtain hin | hin := List.mem_append.mp hin
      · exact hmore more (List.mem_reverse.mp hin)
      · exact hpending more (List.mem_cons_of_mem _ hin)
    · have hne : cell ∉ ({loose.edge} : Set Edge) := fun heq => hloose (heq ▸ hcell)
      exact (agreeOff_giveBack m' loose cell hne).trans (hsame cell hcell)

theorem releases (h : m.Guarded P) {gone : List Handle} (hgone : ∀ g ∈ gone, g.edge ∉ P) :
    (gone.foldl (·.release ·) m).Guarded P ∧
      ∀ cell ∈ P, (gone.foldl (·.release ·) m).content? cell = m.content? cell := by
  induction gone generalizing m with
  | nil => exact ⟨h, fun _ _ => rfl⟩
  | cons g gone ih =>
    have hpending : ∀ loose ∈ ([⟨g.edge, false⟩] : List Loose), loose.edge ∉ P := by
      simpa using hgone g List.mem_cons_self
    obtain ⟨hnext, hsame⟩ := h.releaseAll hpending
    obtain ⟨hend, hsame'⟩ := ih hnext fun g' hg' => hgone g' (List.mem_cons_of_mem _ hg')
    exact ⟨hend, fun cell hcell => (hsame' cell hcell).trans (hsame cell hcell)⟩

theorem tie (h : m.Guarded P) {knot : ObjectId} {value : Handle} (hvalue : value.edge ∉ P) :
    (m.tie knot value).Guarded P := by
  rw [Heap.tie]
  split
  · exact h.setKind (by simpa [Handle.holding, Handle.edge] using hvalue)
  · exact (h.of_contents (contents_retainWeak m _)).setKind
      (by simpa [Handle.edge] using hvalue)

theorem bindSelf (h : m.Guarded P) {fresh : Closure}
    (hfresh : ∀ r ∈ (ObjectKind.closure fresh).holdings, r.Avoids P) (hproper : fresh.Proper)
    (hmissing : 1 < fresh.missing) : (m.bindSelf fresh).Guarded P := by
  have hnext : ∀ {hnew : Edge}, ¬ m.Allocated hnew → hnew ∉ P := fun hnew hin =>
    hnew (h.allocated _ hin)
  have hself : .object m.nextObject ∉ P := hnext (grows_newObject m (.exception .blackHole)).fresh
  have hthunk : .thunk (m.newThunk (.recursive m.nextObject)).1 ∉ P :=
    hnext (grows_newThunk m (.recursive m.nextObject)).fresh
  refine Guarded.of_contents ?_ (contents_retainWeak _ _)
  refine Guarded.newObject (h.newThunk (by simpa using hself)) fun r hr => ?_
  rw [Closure.holdings_fill hproper (by omega), Multiset.mem_cons] at hr
  obtain rfl | hr := hr
  · exact (Holding.avoids_strong _).mpr hthunk
  · exact hfresh r hr

end Guarded

end Heap

namespace Moves

open Heap

variable {P lent : Set Edge} {s s' : Machine} {own own' : Multiset Holding}

/-- Who can only get hold of other cells leaves those in `P` as they are, and they stay out of the
reach of what is held in the end. -/
theorem confined (h : Moves lent s own s' own') (rest : Multiset Holding)
    (hvalid : s.heap.Valid (own + rest)) (hguarded : s.heap.Guarded P)
    (hlent : ∀ cell ∈ lent, cell ∉ P) (hown : ∀ r ∈ own, r.Avoids P) :
    s'.heap.Guarded P ∧ (∀ cell ∈ P, s'.heap.content? cell = s.heap.content? cell) ∧
      ∀ r ∈ own', r.Avoids P := by
  -- The cells of `P` are neither lent nor owned, so what is taken or given stays outside of them.
  induction h generalizing rest with
  | refl | drawn | noted => exact ⟨hguarded, fun _ _ => rfl, hown⟩
  | trans h _ ih ih' =>
    obtain ⟨hguarded₁, hsame, hown₁⟩ := ih rest hvalid hguarded hlent hown
    obtain ⟨hguarded₂, hsame', hown₂⟩ := ih' rest (h.valid rest hvalid) hguarded₁ hlent hown₁
    exact ⟨hguarded₂, fun cell hcell => (hsame' cell hcell).trans (hsame cell hcell), hown₂⟩
  | frame other _ ih =>
    rw [add_assoc] at hvalid
    obtain ⟨hguarded', hsame, hown'⟩ := ih _ hvalid hguarded
      (fun cell hcell => hcell.elim (hlent cell) fun hother =>
        (Holding.avoids_strong _).mp (hown _ (Multiset.mem_add.mpr (.inr hother))))
      fun r hr => hown r (Multiset.mem_add.mpr (.inl hr))
    refine ⟨hguarded', hsame, fun r hr => (Multiset.mem_add.mp hr).elim (hown' r) fun hr => ?_⟩
    exact hown r (Multiset.mem_add.mpr (.inr hr))
  | lend _ hmore ih =>
    refine ih rest hvalid hguarded (fun cell hcell => ?_) hown
    obtain hcell | ⟨-, haccess⟩ := hmore cell hcell
    · exact hlent cell hcell
    · exact (Holding.avoids_strong _).mp (haccess.avoids hguarded hlent hown)
  | raised e | copied e | dangled =>
    exact ⟨hguarded, fun _ _ => rfl, Multiset.forall_mem_cons.mpr ⟨by simp, hown⟩⟩
  | forgot e => exact ⟨hguarded, fun _ _ => rfl, (Multiset.forall_mem_cons.mp hown).2⟩
  | retain cell haccess =>
    exact ⟨hguarded.of_contents (contents_retainEdge _ _), fun cell _ =>
      content?_congr (contents_retainEdge _ _) cell,
      Multiset.forall_mem_cons.mpr ⟨haccess.avoids hguarded hlent hown, hown⟩⟩
  | retainWeak o haccess hkind =>
    have hk := (Holding.avoids_strong _).mp (haccess.avoids hguarded hlent hown)
    exact ⟨hguarded.of_contents (contents_retainWeak _ _), fun cell _ =>
      content?_congr (contents_retainWeak _ _) cell,
      Multiset.forall_mem_cons.mpr ⟨hguarded.kind hk hkind _ (by simp), hown⟩⟩
  | releaseWeak o =>
    exact ⟨hguarded.of_contents (contents_releaseWeak _ _), fun cell _ =>
      content?_congr (contents_releaseWeak _ _) cell,
      (Multiset.forall_mem_cons.mp hown).2⟩
  | upgrade o haccess =>
    refine ⟨hguarded.of_contents (contents_retainEdge _ _), fun cell _ =>
      content?_congr (contents_retainEdge _ _) cell,
      Multiset.forall_mem_cons.mpr ⟨?_, hown⟩⟩
    exact (Holding.avoids_strong _).mpr
      ((Holding.avoids_weak _).mp (haccess.avoids hguarded hlent hown))
  | dropped loose =>
    obtain ⟨hloose, hown⟩ := Multiset.forall_mem_cons.mp hown
    have hpending : ∀ released ∈ [loose], released.edge ∉ P := by
      simpa using (Holding.avoids_strong _).mp hloose
    obtain ⟨hguarded', hsame⟩ := hguarded.releaseAll hpending
    exact ⟨hguarded', hsame, hown⟩
  | @newObject lent s own kind _ =>
    have hnext : .object s.heap.nextObject ∉ P := fun hin =>
      (grows_newObject s.heap kind).fresh (hguarded.allocated _ hin)
    refine ⟨hguarded.newObject fun r hr => hown r (Multiset.mem_add.mpr (.inl hr)),
      fun cell hcell => AgreeOff.addObject _ _ _ cell fun heq => hnext (heq ▸ hcell),
      Multiset.forall_mem_cons.mpr ⟨by simpa using hnext, fun r hr => ?_⟩⟩
    exact hown r (Multiset.mem_add.mpr (.inr hr))
  | @newThunk lent s own state _ =>
    have hnext : .thunk (s.heap.newThunk state).1 ∉ P := fun hin =>
      (grows_newThunk s.heap state).fresh (hguarded.allocated _ hin)
    refine ⟨hguarded.newThunk fun r hr => hown r (Multiset.mem_add.mpr (.inl hr)),
      fun cell hcell => AgreeOff.newThunk _ _ cell fun heq => hnext (heq ▸ hcell),
      Multiset.forall_mem_cons.mpr ⟨by simpa using hnext, fun r hr => ?_⟩⟩
    exact hown r (Multiset.mem_add.mpr (.inr hr))
  | @fill lent s own o c t hkind _ hmissing _ =>
    obtain ⟨ht, hrest⟩ := Multiset.forall_mem_cons.mp hown
    have ho : .object o ∉ P := by simpa using (Multiset.forall_mem_cons.mp hrest).1
    refine ⟨hguarded.setKind fun r hr => ?_,
      fun cell hcell => AgreeOff.setKind _ _ _ cell fun heq => ho (heq ▸ hcell), hrest⟩
    rw [Closure.holdings_fill (hvalid.proper _ _ hkind) hmissing, Multiset.mem_cons] at hr
    obtain rfl | hr := hr
    · exact ht
    · exact hguarded.kind ho hkind r hr
  | @bindSelf lent s own fresh hproper hmissing =>
    have hnext : .object s.heap.nextObject ∉ P := fun hin =>
      (grows_newObject s.heap (.exception .blackHole)).fresh (hguarded.allocated _ hin)
    have hthunk : .thunk (s.heap.newThunk (.recursive s.heap.nextObject)).1 ∉ P := fun hin =>
      (grows_newThunk s.heap (.recursive s.heap.nextObject)).fresh (hguarded.allocated _ hin)
    refine ⟨hguarded.bindSelf (fun r hr => hown r (Multiset.mem_add.mpr (.inl hr))) hproper
      hmissing, fun cell hcell => ?_,
      Multiset.forall_mem_cons.mpr ⟨by simpa using hnext, fun r hr => ?_⟩⟩
    · rw [Machine.heap_on, Heap.bindSelf, content?_congr (contents_retainWeak _ _)]
      have hmade := AgreeOff.newThunk s.heap (.recursive s.heap.nextObject) cell
        fun heq => hthunk (heq ▸ hcell)
      exact (AgreeOff.addObject (s.heap.newThunk (.recursive s.heap.nextObject)).2 _ _ cell
        fun heq => hnext (heq ▸ hcell)).trans hmade
    · exact hown r (Multiset.mem_add.mpr (.inr hr))
  -- The memo steps write a cell that is lent, hence outside of `P`. What they compute meanwhile is
  -- lent that cell only through its parts, so the induction is over those as holdings of its own.
  | @memoNode s s₁ post o f x f' x' r hkind _ hkind' ih =>
    have ho := hlent _ rfl
    have hstart : ((s.heap.retainEdge f.edge).retainEdge x.edge).contents = s.heap.contents := by
      simp
    rw [zero_add] at hvalid
    obtain ⟨hguarded₁, hsame, hown₁⟩ := ih rest (hvalid.takeOperands hkind)
      (hguarded.of_contents hstart) (by simp) (hguarded.kind ho hkind)
    obtain ⟨hr, hpost⟩ := Multiset.forall_mem_cons.mp hown₁
    refine ⟨hguarded₁.setKind (by simpa using hr), fun cell hcell => ?_, ?_⟩
    · exact (AgreeOff.setKind _ _ _ cell fun heq => ho (heq ▸ hcell)).trans
        ((hsame cell hcell).trans (content?_congr hstart cell))
    · have hparts := hguarded₁.kind ho hkind'
      simp only [ObjectKind.holdings_pending, Multiset.insert_eq_cons, Multiset.forall_mem_cons,
        Multiset.mem_singleton, forall_eq] at hparts ⊢
      exact ⟨hparts.1, hparts.2, hpost⟩
  | @memoThunk s s₁ post t x x' r hstate _ _ hstate' ih =>
    have ht := hlent _ rfl
    rw [zero_add] at hvalid
    obtain ⟨hguarded₁, hsame, hown₁⟩ := ih rest (hvalid.takeSuspended hstate)
      (hguarded.of_contents (contents_retainEdge _ _)) (by simp)
      (by simpa using hguarded.state ht hstate)
    obtain ⟨hr, hpost⟩ := Multiset.forall_mem_cons.mp hown₁
    refine ⟨hguarded₁.setThunkState (by simpa using hr), fun cell hcell => ?_,
      Multiset.forall_mem_cons.mpr ⟨hguarded₁.state ht hstate' _ (by simp), hpost⟩⟩
    exact (AgreeOff.setThunkState _ _ _ cell fun heq => ht (heq ▸ hcell)).trans
      ((hsame cell hcell).trans (content?_congr (contents_retainEdge _ _) cell))
  | @memoClosure s s₁ post o c r hkind _ hmemo _ hkind' ih =>
    have ho := hlent _ rfl
    obtain ⟨hguarded₁, hsame, hown₁⟩ := ih rest (hvalid.startMemo hkind hmemo)
      (hguarded.setMemo ho hkind (by simp)) (hguarded.operands ho hkind) (by simp)
    obtain ⟨hr, hpost⟩ := Multiset.forall_mem_cons.mp hown₁
    have hoff : ∀ cell ∈ P, cell ∉ ({.object o} : Set Edge) :=
      fun cell hcell heq => ho (heq ▸ hcell)
    refine ⟨hguarded₁.setMemo ho hkind' (by rintro _ ⟨⟩; exact hr), fun cell hcell => ?_, hpost⟩
    exact (AgreeOff.setMemo _ _ _ cell (hoff cell hcell)).trans
      ((hsame cell hcell).trans (AgreeOff.setMemo _ _ _ cell (hoff cell hcell)))
  | @memoFailed s s₁ post o c hkind _ hmemo _ hkind' ih =>
    have ho := hlent _ rfl
    obtain ⟨hguarded₁, hsame, hown₁⟩ := ih rest (hvalid.startMemo hkind hmemo)
      (hguarded.setMemo ho hkind (by simp)) (hguarded.operands ho hkind) (by simp)
    have hoff : ∀ cell ∈ P, cell ∉ ({.object o} : Set Edge) :=
      fun cell hcell heq => ho (heq ▸ hcell)
    refine ⟨hguarded₁.setMemo ho hkind' (by simp), fun cell hcell => ?_, hown₁⟩
    exact (AgreeOff.setMemo _ _ _ cell (hoff cell hcell)).trans
      ((hsame cell hcell).trans (AgreeOff.setMemo _ _ _ cell (hoff cell hcell)))
  | @tied lent s own s₁ own₁ value gone h hknot hlive ih =>
    have hnext : .object s.heap.nextObject ∉ P := fun hin =>
      (grows_newObject s.heap (.exception .blackHole)).fresh (hguarded.allocated _ hin)
    have hmade : (s.on fun m => (m.newObject (.application (.knot .unresolved))).2).heap.Valid
        (.strong (.object s.heap.nextObject) ::ₘ own + rest) := by
      simpa using hvalid.newKnot
    obtain ⟨hguarded₁, hsame, hown₁⟩ := ih rest hmade (hguarded.newObject (by simp)) hlent
      (Multiset.forall_mem_cons.mpr ⟨by simpa using hnext, hown⟩)
    rw [Multiset.cons_add] at hown₁
    obtain ⟨hvalue, hparts⟩ := Multiset.forall_mem_cons.mp hown₁
    have hgone : ∀ g ∈ gone, g.edge ∉ P := fun g hg => (Holding.avoids_strong _).mp
      (hparts _ (Multiset.mem_add.mpr (.inl (Multiset.mem_coe.mpr (List.mem_map_of_mem hg)))))
    have htied : (s₁.heap.tie s.heap.nextObject value).Guarded P :=
      hguarded₁.tie ((Holding.avoids_strong _).mp hvalue)
    obtain ⟨hguarded₂, hsame'⟩ := htied.releases hgone
    have hoff : ∀ cell ∈ P, cell ∉ ({.object s.heap.nextObject} : Set Edge) :=
      fun cell hcell heq => hnext (heq ▸ hcell)
    refine ⟨hguarded₂, fun cell hcell => ?_, Multiset.forall_mem_cons.mpr ⟨hvalue, fun r hr =>
      hparts r (Multiset.mem_add.mpr (.inr hr))⟩⟩
    exact (hsame' cell hcell).trans ((agreeOff_tie _ _ _ cell (hoff cell hcell)).trans
      ((hsame cell hcell).trans (AgreeOff.addObject _ _ _ cell (hoff cell hcell))))

end Moves

end GraphReduction
