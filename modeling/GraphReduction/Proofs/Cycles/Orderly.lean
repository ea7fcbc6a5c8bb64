import Mathlib
import GraphReduction.Proofs.Contexts.Reach

/-! Heaps without cycles. A function that is tied to itself owns a slot that leads back to it weakly,
and no other cell has that slot. Where no data is tied, there are no other weak references, and no
cell owns itself. This is so in a heap of new cells that refer to earlier ones, and it stays so
when a cell gets a result that does not lead back to it. -/
namespace GraphReduction

open Heap Relation

namespace Heap

/-- A reference that leads onward: neither a weak one nor one to the slot of a function that is its
own argument. Errors are among `errors`. -/
def Onward (m : Heap) (errors : Set EvalError) : Holding → Prop
  | .strong (.thunk t) => ∀ o, m.stateOf? t ≠ some (.recursive o)
  | .strong _ => True
  | .weak _ => False
  | .error e => e ∈ errors

structure Orderly (m : Heap) (errors : Set EvalError) : Prop where
  acyclic : ∀ cell, ¬ TransGen m.Owns cell cell
  slot : ∀ t o cell, m.stateOf? t = some (.recursive o) → m.Owns cell (.thunk t) →
    cell = .object o ∧ ∃ c, m.kindOf? o = some (.closure c) ∧ 0 < c.missing
  knot : ∀ k o, m.kindOf? k ≠ some (.application (.knot (.weak o)))
  error : ∀ cell e, .error e ∈ m.holds cell → e ∈ errors

def Refers (m : Heap) (a b : Edge) : Prop := ∃ r ∈ m.holds a, r.target? = some b

/-- The cells that lead to this one. -/
def ancestors (m : Heap) (cell : Edge) : Set Edge := { a | ReflTransGen m.Refers a cell }

variable {m m' : Heap} {errors : Set EvalError} {own : Multiset Holding} {o : ObjectId}
  {t : ThunkId} {a b cell : Edge} {kind : ObjectKind} {r : Holding} {c : Closure}

/-! Paths -/

theorem acyclic_of_change {α : Type} {before after : α → α → Prop} {x : α}
    (hsame : ∀ a b, a ≠ x → after a b → before a b) (hacyclic : ∀ a, ¬ TransGen before a a)
    (hback : ∀ b, after x b → ¬ ReflTransGen before b x) (a : α) : ¬ TransGen after a a := by
  -- up to the first time that it comes to `x`, a path is an old one
  have hpath : ∀ {b}, ReflTransGen after b x → ReflTransGen before b x := by
    intro b hpath
    induction hpath using ReflTransGen.head_induction_on with
    | refl => exact .refl
    | @head b next hstep _ ih =>
      by_cases hx : b = x
      · exact hx ▸ .refl
      · exact .head (hsame b next hx hstep) ih
  have hthrough : ∀ {b}, TransGen after a b →
      TransGen before a b ∨ ReflTransGen after a x ∧ TransGen after x b := by
    intro b hpath
    induction hpath with
    | @single b hstep =>
      by_cases hx : a = x
      · exact .inr ⟨hx ▸ .refl, hx ▸ .single hstep⟩
      · exact .inl (.single (hsame a b hx hstep))
    | @tail b next hab hstep ih =>
      obtain hold | ⟨hto, hfrom⟩ := ih
      · by_cases hx : b = x
        · subst hx
          exact .inr ⟨hab.to_reflTransGen, .single hstep⟩
        · exact .inl (hold.tail (hsame b next hx hstep))
      · exact .inr ⟨hto, hfrom.tail hstep⟩
  intro hcycle
  obtain hold | ⟨hto, hfrom⟩ := hthrough hcycle
  · exact hacyclic a hold
  · obtain ⟨b, hstep, hrest⟩ := TransGen.head'_iff.mp (hfrom.trans_left hto)
    exact hback b hstep (hpath hrest)

theorem isLive_of_refers (h : m.Refers a b) : m.IsLive a := by
  obtain ⟨r, hr, -⟩ := h
  exact isLive_of_holds hr

theorem Within.owns (h : m'.Within m) (howns : m'.Owns a b) : m.Owns a b := by
  rwa [Owns, ← h.holds howns.isLive]

theorem owns_of_newBackEdge {p : ObjectId} (h : (m.newThunk (.recursive p)).2.Owns a b) :
    m.Owns a b := by
  rw [Owns, (grows_newThunk m (.recursive p)).holds] at h
  split at h
  · simp at h
  · exact h

theorem Guarded.not_owned {P : Set Edge} (hguarded : m.Guarded P) (ha : a ∉ P)
    (hpath : ReflTransGen m.Owns a b) : b ∉ P := by
  induction hpath with
  | refl => exact ha
  | tail _ hstep ih => exact (Holding.avoids_strong _).mp (hguarded.closed _ ih _ hstep)

theorem Intact.guarded_ancestors (hintact : m.Intact) (halloc : m.Allocated cell)
    (hother : cell ∉ libraryCells) : m.Guarded (m.ancestors cell) where
  allocated a ha := by
    obtain heq | ⟨_, hstep, -⟩ := ReflTransGen.cases_head ha
    · exact heq ▸ halloc
    · exact (isLive_of_refers hstep).allocated
  library p hin := by
    refine hother ?_
    have hclosed : ∀ {a}, ReflTransGen m.Refers (.object ⟨p.place⟩) a → a ∈ libraryCells := by
      intro a hpath
      induction hpath with
      | refl => exact ⟨p, .inl rfl⟩
      | tail _ hstep ih =>
        obtain ⟨r, hr, htarget⟩ := hstep
        obtain ⟨next, hnext, rfl⟩ := hintact.holds_library ih hr
        cases htarget
        exact hnext
    exact hclosed hin
  closed a ha r hr b hb hin := ha (.head ⟨r, hr, hb⟩ hin)

namespace Orderly

theorem inside (h : m.Orderly errors) (hr : r ∈ m.holds a) :
    m.Onward errors r ∨ ∃ t o, m.stateOf? t = some (.recursive o) ∧
      (a = .thunk t ∧ r = .weak o ∨ a = .object o ∧ r = .strong (.thunk t)) := by
  cases r with
  | error e => exact .inl (h.error a e hr)
  | weak o =>
    have hweak := weak_mem_holds_iff.mp hr
    cases a with
    | combinator c => cases hweak
    | object k =>
      obtain ⟨x, hx, hk⟩ := Option.bind_eq_some_iff.mp hweak
      obtain ⟨knot, hkind, hknot⟩ : ∃ knot, x.kind = .application (.knot knot) ∧
          knot.weakTarget? = some o := by
        rcases hxk : x.kind with v | c | (⟨f, y⟩ | y | knot) | e <;> rw [hxk] at hk <;>
          first
          | exact ⟨_, rfl, hk⟩
          | cases hk
      cases knot with
      | weak p =>
        cases hknot
        exact absurd (by rw [kindOf?, hx, Option.map_some, hkind]) (h.knot k o)
      | unresolved | strong v => cases hknot
    | thunk t =>
      obtain ⟨x, hx, ht⟩ := Option.bind_eq_some_iff.mp hweak
      refine .inr ⟨t, o, ?_, .inl ⟨rfl, rfl⟩⟩
      cases hstate : x.state with
      | «recursive» p =>
        rw [hstate] at ht
        cases ht
        rw [stateOf?, hx, Option.map_some, hstate]
      | pending y | forced y =>
        rw [hstate] at ht
        cases ht
  | strong cell =>
    cases cell with
    | object o | combinator c => exact .inl trivial
    | thunk t =>
      by_cases hback : ∃ o, m.stateOf? t = some (.recursive o)
      · obtain ⟨o, hstate⟩ := hback
        exact .inr ⟨t, o, hstate, .inr ⟨(h.slot t o a hstate hr).1, rfl⟩⟩
      · exact .inl fun o hstate => hback ⟨o, hstate⟩

/-- A weak reference leads back to the owner of the slot that it is in. So whatever can be reached
from a cell is owned by it, over any number of references. -/
theorem owned (h : m.Orderly errors) (hstart : m.Onward errors (.strong a))
    (hpath : ReflTransGen m.Refers a b) : ReflTransGen m.Owns a b := by
  induction hpath with
  | refl => exact .refl
  | @tail b next _ hstep ih =>
    obtain ⟨r, hr, htarget⟩ := hstep
    cases r with
    | error e => cases htarget
    | strong cell =>
      cases htarget
      exact ih.tail hr
    | weak o =>
      cases htarget
      obtain honward | ⟨t, o', hstate, ⟨rfl, heq⟩ | ⟨-, heq⟩⟩ := h.inside hr
      · exact honward.elim
      · cases heq
        obtain rfl | ⟨owner, hbefore, howns⟩ := ReflTransGen.cases_tail ih
        · exact absurd hstate (hstart o)
        · exact (h.slot t o owner hstate howns).1 ▸ hbefore
      · cases heq

end Orderly

/-! Steps -/

namespace Onward

theorem handle (m : Heap) (h : Handle) : m.Onward errors h.holding := trivial

theorem mono (h : m.Onward errors r)
    (hback : ∀ t o, m'.stateOf? t = some (.recursive o) → m.stateOf? t = some (.recursive o)) :
    m'.Onward errors r :=
  match r with
  | .strong (.object _) | .strong (.combinator _) => trivial
  | .strong (.thunk t) => fun o hstate => h o (hback t o hstate)
  | .weak _ => h.elim
  | .error _ => h

theorem of_contents (h : m.Onward errors r) (hsame : m'.contents = m.contents) :
    m'.Onward errors r :=
  h.mono fun t _ hstate => (stateOf?_congr hsame t).symm.trans hstate

theorem develops {change : ObjectKind → ObjectKind → Prop} (h : m.Onward errors r)
    (hdevelops : Develops change m m') (halloc : ∀ cell, r.target? = some cell → m.Allocated cell) :
    m'.Onward errors r := by
  match r with
  | .strong (.object o) | .strong (.combinator c) => exact trivial
  | .weak o => exact h.elim
  | .error e => exact h
  | .strong (.thunk t) =>
    intro o hstate'
    obtain ⟨state, hstate, hsteps⟩ := hdevelops.thunk t _ (halloc _ rfl) hstate'
    obtain rfl | ⟨_, _, hlast⟩ := ReflTransGen.cases_tail hsteps
    · exact h o hstate
    · cases hlast

theorem newThunk {state : ThunkState} (h : m.Onward errors r) (hstate : state.weakTarget? = none) :
    (m.newThunk state).2.Onward errors r := by
  refine h.mono fun t o hafter => ?_
  rw [stateOf?_newThunk] at hafter
  split at hafter
  · cases hafter
    cases hstate
  · exact hafter

theorem of_newThunk (m : Heap) {state : ThunkState} (hstate : state.weakTarget? = none) :
    (m.newThunk state).2.Onward errors (.strong (.thunk (m.newThunk state).1)) := by
  intro o hafter
  rw [stateOf?_newThunk, newThunk_fst, if_pos rfl] at hafter
  cases hafter
  cases hstate

theorem setThunkState (h : m.Onward errors r) (v : Handle) :
    (m.setThunkState t (.forced v)).Onward errors r := by
  refine h.mono fun u o hafter => ?_
  rw [stateOf?_setThunkState] at hafter
  split at hafter
  · obtain ⟨-, -, heq⟩ := Option.map_eq_some_iff.mp hafter
    cases heq
  · exact hafter

end Onward

namespace Orderly

theorem of_contents (h : m.Orderly errors) (hsame : m'.contents = m.contents) :
    m'.Orderly errors where
  acyclic := owns_congr hsame ▸ h.acyclic
  slot t o a hstate howns := by
    rw [stateOf?_congr hsame] at hstate
    rw [owns_congr hsame] at howns
    rw [kindOf?_congr hsame]
    exact h.slot t o a hstate howns
  knot k o := kindOf?_congr hsame k ▸ h.knot k o
  error a e he := h.error a e (holds_congr hsame a ▸ he)

theorem within (h : m.Orderly errors) (hwithin : m'.Within m) : m'.Orderly errors where
  acyclic a hcycle := h.acyclic a (TransGen.mono (fun _ _ => hwithin.owns) _ _ hcycle)
  slot t o a hstate howns := by
    obtain ⟨rfl, c, hkind, hmissing⟩ := h.slot t o a (hwithin.state _ _ hstate)
      (hwithin.owns howns)
    obtain ⟨kind, hkind'⟩ := exists_kindOf? howns.isLive
    cases hkind.symm.trans (hwithin.kind _ _ hkind')
    exact ⟨rfl, c, hkind', hmissing⟩
  knot k o hkind := h.knot k o (hwithin.kind _ _ hkind)
  error a e he := h.error a e (hwithin.holds (isLive_of_holds he) ▸ he)

theorem change (h : m.Orderly errors) (hagree : AgreeOff {cell} m m')
    (honward : ∀ r ∈ m'.holds cell, m.Onward errors r)
    (hback : ∀ b, m'.Owns cell b → ¬ ReflTransGen m.Owns b cell) : m'.Orderly errors := by
  have hholds : ∀ a, a ≠ cell → m'.holds a = m.holds a :=
    fun a ha => holds_of_content? (hagree a ha)
  have howns : ∀ a b, a ≠ cell → m'.Owns a b → m.Owns a b := fun a b ha hab => by
    rwa [Owns, hholds a ha] at hab
  have hstate : ∀ t o, m'.stateOf? t = some (.recursive o) → m.stateOf? t = some (.recursive o) := by
    intro t o hstate
    by_cases ht : .thunk t = cell
    · have hweak : Holding.weak o ∈ m'.holds cell := by
        rw [← ht, holds_of_stateOf? hstate]
        simp
      exact (honward _ hweak).elim
    · rwa [← stateOf?_of_content? (hagree _ ht)]
  constructor
  · exact acyclic_of_change howns h.acyclic hback
  · intro t o a ht hat
    by_cases ha : a = cell
    · subst ha
      exact absurd (hstate t o ht) (honward _ hat o)
    · obtain ⟨rfl, c, hkind, hmissing⟩ := h.slot t o a (hstate t o ht) (howns a _ ha hat)
      exact ⟨rfl, c, (kindOf?_of_content? (hagree _ ha)).trans hkind, hmissing⟩
  · intro k o hkind
    by_cases hk : .object k = cell
    · have hweak : Holding.weak o ∈ m'.holds cell := by
        rw [← hk, holds_of_kindOf? hkind]
        simp
      exact (honward _ hweak).elim
    · exact h.knot k o ((kindOf?_of_content? (hagree _ hk)).symm.trans hkind)
  · intro a e he
    by_cases ha : a = cell
    · subst ha
      exact honward _ he
    · exact h.error a e (hholds a ha ▸ he)

theorem grow {content : Multiset Holding} (h : m.Orderly errors) (hcounted : m.Counted (content + own))
    (hagree : AgreeOff {cell} m m') (hgrows : m.Grows m' cell content)
    (honward : ∀ r ∈ content, m.Onward errors r) : m'.Orderly errors := by
  have hholds : m'.holds cell = content := (hgrows.holds cell).trans (if_pos rfl)
  refine h.change hagree (hholds.symm ▸ honward) fun b hb hpath => hgrows.fresh ?_
  obtain rfl | ⟨owner, -, howns⟩ := ReflTransGen.cases_tail hpath
  · refine (hcounted.live _ (Multiset.mem_add.mpr (.inr (Multiset.mem_add.mpr (.inl ?_))))).allocated
    rwa [Owns, hholds] at hb
  · exact (hcounted.live_of_owns howns).allocated

theorem setKind (h : m.Orderly errors) (honward : ∀ r ∈ kind.holdings, m.Onward errors r)
    (hback : ∀ b, .strong b ∈ kind.holdings → ¬ ReflTransGen m.Owns b (.object o)) :
    (m.setKind o kind).Orderly errors := by
  have hholds : ∀ r ∈ (m.setKind o kind).holds (.object o), r ∈ kind.holdings := by
    intro r hr
    obtain ⟨kind', hkind'⟩ := exists_kindOf? (isLive_of_holds hr)
    rw [holds_of_kindOf? hkind'] at hr
    rw [Valid.kindOf?_setKind, if_pos rfl] at hkind'
    obtain ⟨-, -, rfl⟩ := Option.map_eq_some_iff.mp hkind'
    exact hr
  exact h.change (.setKind m o kind) (fun r hr => honward r (hholds r hr))
    fun b hb => hback b (hholds _ hb)

theorem setThunkState (h : m.Orderly errors) {v : Handle}
    (hback : ¬ ReflTransGen m.Owns v.edge (.thunk t)) :
    (m.setThunkState t (.forced v)).Orderly errors := by
  have hholds : ∀ r ∈ (m.setThunkState t (.forced v)).holds (.thunk t), r = v.holding := by
    intro r hr
    obtain ⟨state, hstate⟩ := exists_stateOf? (isLive_of_holds hr)
    rw [holds_of_stateOf? hstate] at hr
    rw [stateOf?_setThunkState, if_pos rfl] at hstate
    obtain ⟨-, -, rfl⟩ := Option.map_eq_some_iff.mp hstate
    simpa using hr
  refine h.change (.setThunkState m t _) (fun r hr => hholds r hr ▸ .handle m v) fun b hb => ?_
  cases hholds _ hb
  exact hback

theorem closure (h : m.Orderly errors) (hkind : m.kindOf? o = some (.closure c))
    (hslots : ∀ t ∈ c.arguments, ∀ p, m.stateOf? t ≠ some (.recursive p)) :
    ∀ r ∈ (ObjectKind.closure c).holdings, m.Onward errors r := by
  intro r hr
  have hr' : r ∈ m.holds (.object o) := holds_of_kindOf? hkind ▸ hr
  obtain honward | ⟨t, p, hstate, ⟨heq, -⟩ | ⟨-, rfl⟩⟩ := h.inside hr'
  · exact honward
  · cases heq
  · rw [ObjectKind.holdings_closure] at hr
    have ht : t ∈ c.arguments := by
      simpa [Handle.holding, Handle.edge] using hr
    exact absurd hstate (hslots t ht p)

theorem slots (h : m.Orderly errors) (hkind : m.kindOf? o = some (.closure c))
    (hmissing : c.missing = 0) : ∀ t ∈ c.arguments, ∀ p, m.stateOf? t ≠ some (.recursive p) := by
  intro t ht p hstate
  obtain ⟨heq, c', hkind', hopen⟩ := h.slot t p (.object o) hstate (by
    rw [Owns, holds_of_kindOf? hkind, ObjectKind.holdings_closure]
    simp [ht])
  cases heq
  cases hkind.symm.trans hkind'
  exact hopen.ne' hmissing

theorem fill (h : m.Orderly errors) (hkind : m.kindOf? o = some (.closure c)) (hproper : c.Proper)
    (hmissing : 0 < c.missing) (hback : m.hasRecursiveSlot c = false)
    (hfree : ∀ a, ¬ m.Owns a (.object o)) (ht : m.Onward errors (.strong (.thunk t))) :
    (m.setKind o (.closure (c.fill t))).Orderly errors := by
  have hslots : ∀ u ∈ c.arguments, ∀ p, m.stateOf? u ≠ some (.recursive p) := by
    intro u hu p hstate
    have hplain : m.isRecursive u = false :=
      eq_false_of_ne_true (List.any_eq_false.mp hback u hu)
    have hlook : (m.thunk? u).map Thunk.state = some (.recursive p) := hstate
    rw [isRecursive, hlook] at hplain
    cases hplain
  refine h.setKind (fun r hr => ?_) (fun b hb hpath => ?_)
  · rw [Closure.holdings_fill hproper hmissing, Multiset.mem_cons] at hr
    exact hr.elim (fun heq => heq ▸ ht) (h.closure hkind hslots r)
  · rw [Closure.holdings_fill hproper hmissing, Multiset.mem_cons] at hb
    obtain rfl | ⟨owner, -, hlast⟩ := ReflTransGen.cases_tail hpath
    · obtain heq | hb := hb
      · cases heq
      · exact hfree (.object o) (by rwa [Owns, holds_of_kindOf? hkind])
    · exact hfree owner hlast

theorem setMemo {memo : Memo} (h : m.Orderly errors) (hkind : m.kindOf? o = some (.closure c))
    (hmissing : c.missing = 0)
    (hback : ∀ v, memo = .done v → ¬ ReflTransGen m.Owns v.edge (.object o)) :
    (m.setMemo o memo).Orderly errors := by
  obtain ⟨x, hx, hc⟩ := Option.map_eq_some_iff.mp hkind
  have hparts : ∀ r ∈ (ObjectKind.closure { c with memo }).holdings,
      (∃ v, memo = .done v ∧ r = v.holding) ∨ r ∈ (ObjectKind.closure c).holdings := by
    intro r hr
    rw [Valid.holdings_memo] at hr
    obtain hresult | hr := Multiset.mem_add.mp hr
    · cases memo with
      | done v => exact .inl ⟨v, rfl, by simpa [Memo.result?] using hresult⟩
      | empty | running => simp [Memo.result?] at hresult
    · have hsame := Valid.holdings_memo c c.memo
      rw [show (ObjectKind.closure { c with memo := c.memo }) = .closure c from rfl] at hsame
      exact .inr (hsame ▸ Multiset.mem_add.mpr (.inr hr))
  rw [setMemo_eq hx hc]
  refine h.setKind (fun r hr => ?_) fun b hb hpath => ?_
  · obtain ⟨v, -, rfl⟩ | hr := hparts r hr
    · exact .handle m v
    · exact h.closure hkind (h.slots hkind hmissing) r hr
  · obtain ⟨v, hdone, heq⟩ | hold := hparts _ hb
    · cases heq
      exact hback v hdone hpath
    · refine h.acyclic (.object o) (.head' ?_ hpath)
      rwa [Owns, holds_of_kindOf? hkind]

theorem newBackEdge (h : m.Orderly errors) (hcounted : m.Counted own) (p : ObjectId) :
    (m.newThunk (.recursive p)).2.Orderly errors where
  acyclic a hcycle := h.acyclic a (TransGen.mono (fun _ _ => owns_of_newBackEdge) _ _ hcycle)
  slot t o a hstate hat := by
    have howns : m.Owns a (.thunk t) := owns_of_newBackEdge hat
    refine h.slot t o a ?_ howns
    rw [stateOf?_newThunk, if_neg] at hstate
    · exact hstate
    · rintro rfl
      exact (grows_newThunk m (.recursive p)).fresh (hcounted.live_of_owns howns).allocated
  knot := h.knot
  error a e he := by
    rw [(grows_newThunk m _).holds] at he
    split at he
    · simp at he
    · exact h.error a e he

theorem newFunction (h : m.Orderly errors) (hmissing : 0 < c.missing)
    (hstate : m.stateOf? t = some (.recursive m.nextObject))
    (hfree : ∀ a, ¬ m.Owns a (.object m.nextObject) ∧ ¬ m.Owns a (.thunk t))
    (hparts : ∀ r ∈ (ObjectKind.closure c).holdings, r = .strong (.thunk t) ∨
      m.Onward errors r ∧ r ≠ .strong (.object m.nextObject)) :
    (m.newObject (.closure c)).2.Orderly errors := by
  have hholds := (grows_newObject m (.closure c)).holds
  have hself : ∀ r ∈ (m.newObject (.closure c)).2.holds (.object m.nextObject), r = .strong (.thunk t) ∨
      m.Onward errors r ∧ r ≠ .strong (.object m.nextObject) := fun r hr =>
    hparts r (by rwa [hholds, if_pos rfl] at hr)
  have hother : ∀ a, a ≠ .object m.nextObject →
      (m.newObject (.closure c)).2.holds a = m.holds a := fun a ha => (hholds a).trans (if_neg ha)
  have howns : ∀ a b, a ≠ .object m.nextObject → (m.newObject (.closure c)).2.Owns a b → m.Owns a b :=
    fun a b ha hab => by rwa [Owns, hother a ha] at hab
  constructor
  · refine acyclic_of_change howns h.acyclic fun b hb hpath => ?_
    obtain rfl | ⟨owner, -, hlast⟩ := ReflTransGen.cases_tail hpath
    · obtain heq | ⟨-, hne⟩ := hself _ hb
      · cases heq
      · exact hne rfl
    · exact (hfree owner).1 hlast
  · intro t' o a hstate' hat
    by_cases ha : a = .object m.nextObject
    · subst ha
      obtain heq | ⟨honward, -⟩ := hself _ hat
      · cases heq
        cases hstate.symm.trans hstate'
        exact ⟨rfl, c, (kindOf?_newObject ..).trans (if_pos rfl), hmissing⟩
      · exact absurd hstate' (honward o)
    · obtain ⟨rfl, c', hkind, hopen⟩ := h.slot t' o a hstate' (howns a _ ha hat)
      have hne : o ≠ m.nextObject := fun heq => ha (heq ▸ rfl)
      exact ⟨rfl, c', (kindOf?_newObject ..).trans ((if_neg hne).trans hkind), hopen⟩
  · intro k o hkind
    rw [kindOf?_newObject] at hkind
    split at hkind
    · cases hkind
    · exact h.knot k o hkind
  · intro a e he
    by_cases ha : a = .object m.nextObject
    · subst ha
      obtain heq | ⟨honward, -⟩ := hself _ he
      · cases heq
      · exact honward
    · exact h.error a e (hother a ha ▸ he)

theorem bindSelf {fresh : Closure} (h : m.Orderly errors)
    (hcounted : m.Counted ((ObjectKind.closure fresh).holdings + own)) (hproper : fresh.Proper)
    (hmissing : 1 < fresh.missing)
    (honward : ∀ r ∈ (ObjectKind.closure fresh).holdings, m.Onward errors r) :
    (m.bindSelf fresh).Orderly errors := by
  have hthunk := grows_newThunk m (.recursive m.nextObject)
  have hnext := (grows_newObject m (.closure fresh)).fresh
  have hlive : ∀ b, .strong b ∈ (ObjectKind.closure fresh).holdings → m.Allocated b := fun b hb =>
    (hcounted.live _ (Multiset.mem_add.mpr (.inr (Multiset.mem_add.mpr (.inl hb))))).allocated
  refine .of_contents (.newFunction (t := (m.newThunk (.recursive m.nextObject)).1)
    (h.newBackEdge hcounted m.nextObject) (Nat.sub_pos_of_lt hmissing)
    ((stateOf?_newThunk ..).trans (if_pos rfl)) (fun a => ⟨fun hat => ?_, fun hat => ?_⟩)
    fun r hr => ?_) (contents_retainWeak _ _)
  · exact hnext (hcounted.live_of_owns (owns_of_newBackEdge hat)).allocated
  · exact hthunk.fresh (hcounted.live_of_owns (owns_of_newBackEdge hat)).allocated
  · rw [Closure.holdings_fill hproper (by omega), Multiset.mem_cons] at hr
    refine hr.imp_right fun hr => ⟨?_, ?_⟩
    · have hdevelops : Develops (fun _ _ => False) m (m.newThunk (.recursive m.nextObject)).2 :=
        .of_extends (extends_newThunk m _)
      refine (honward r hr).develops hdevelops fun cell htarget => ?_
      cases r with
      | strong b =>
        cases htarget
        exact hlive _ hr
      | weak o => exact (honward _ hr).elim
      | error e => cases htarget
    · rintro rfl
      exact hnext (hlive _ hr)

end Orderly

end Heap

end GraphReduction
