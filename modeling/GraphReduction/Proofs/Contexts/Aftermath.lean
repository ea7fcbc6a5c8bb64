import Mathlib
import GraphReduction.Proofs.Contexts.Reach

/-! What the end of a computation leaves alone. Giving a reference back takes no cell away that is
owned by one that stays, and what has been settled, a node that has its result or an error, is not
written to again. -/
namespace GraphReduction

open Heap

namespace ObjectKind

def IsSettled (kind : ObjectKind) : Prop :=
  kind.IsException ∨ ∃ r, kind = .application (.reduced r)

end ObjectKind

namespace Heap

/-- Whatever is there of `Q` is static, held outside, or owned by something in `Q`. -/
def Secured (m : Heap) (own : Multiset Holding) (Q : Set Edge) : Prop :=
  ∀ cell ∈ Q, m.IsLive cell →
    m.recorded (.strong cell) = none ∨ .strong cell ∈ own ∨ ∃ owner ∈ Q, m.Owns owner cell

/-- The objects of some kinds are as they were, or gone. -/
def Keeps (Q : ObjectKind → Prop) (m m' : Heap) : Prop :=
  ∀ o, m.Allocated (.object o) → m'.Allocated (.object o) ∧
    ∀ kind', m'.kindOf? o = some kind' → ∃ kind, m.kindOf? o = some kind ∧ (Q kind → kind' = kind)

/-- What was settled is as it was, or gone. -/
def Settles (m m' : Heap) : Prop := Keeps ObjectKind.IsSettled m m'

/-- Nothing but memos of closures has been written, and objects may be gone. -/
def Rests (m m' : Heap) : Prop := Keeps (fun kind => kind.closure? = none) m m'

/-- Cells that are not in `W` are as they were, or gone. -/
def FadesOff (W : Set Edge) (m m' : Heap) : Prop :=
  ∀ cell, m.Allocated cell → m'.Allocated cell ∧
    (cell ∉ W → m'.content? cell = m.content? cell ∨ ¬ m'.IsLive cell)

/-- The node keeps an exception with the error, or kept it until it was gone. -/
def Memoizes (m : Heap) (e : EvalError) (n : ObjectId) : Prop :=
  m.Is (fun kind => ∃ r, kind = .application (.reduced r) ∧ m.error? r = some e) n

variable {m m' m'' : Heap} {own : Multiset Holding} {Q : Set Edge} {o : ObjectId} {h r : Handle}
  {e : EvalError}

/-! Giving back -/

theorem Secured.of_content? (hsecured : m.Secured own Q)
    (hstatic : ∀ g, m'.isStatic g = true ↔ m.isStatic g = true)
    (hsame : ∀ cell ∈ Q, m'.content? cell = m.content? cell) : m'.Secured own Q := by
  intro cell hcell hlive'
  have hlive := (isLive_of_content? (hsame cell hcell)).mp hlive'
  obtain hnone | hheld | ⟨owner, howner, howns⟩ := hsecured cell hcell hlive
  · obtain ⟨o, rfl, ho⟩ := isStatic_of_recorded hlive hnone
    exact .inl (Valid.recorded_of_isStatic ((hstatic _).mpr ho))
  · exact .inr (.inl hheld)
  · refine .inr (.inr ⟨owner, howner, ?_⟩)
    rwa [Owns, holds_of_content? (hsame owner howner)]

theorem Secured.giveBack {loose : Loose} (hsecured : m.Secured own Q)
    (hcounted : m.Counted (loose.holding ::ₘ own)) {cell : Edge} (hcell : cell ∈ Q) :
    (m.giveBack loose).1.content? cell = m.content? cell := by
  obtain hsame | ⟨hfree, hlast, hsame⟩ := contents_giveBack hcounted
  · exact content?_congr hsame cell
  have hne : cell ∉ ({loose.edge} : Set Edge) := by
    rintro rfl
    obtain hnone | hheld | ⟨owner, -, howns⟩ := hsecured _ hcell (isLive_of_recorded hlast)
    · exact absurd (hlast.symm.trans hnone) (by simp)
    · exact hfree hheld
    · -- the owner and the reference at hand are two
      have hcount := hcounted.exact _ _ hlast
      have hheld : loose.holding ∈ m.held := Multiset.mem_of_le (holds_le_held m owner) howns
      have := Multiset.count_pos.mpr hheld
      rw [Multiset.count_add, Multiset.count_cons_self] at hcount
      omega
  exact (content?_congr hsame cell).trans (AgreeOff.removeEdge m _ cell hne)

theorem Secured.releaseAll {pending : List Loose} (hsecured : m.Secured own Q)
    (hcounted : m.Counted (↑(pending.map Loose.holding) + own)) :
    ∀ cell ∈ Q, (m.releaseAll pending).content? cell = m.content? cell := by
  have hend := releaseAll_invariant (P := fun m' pending =>
    m'.Counted (↑(pending.map Loose.holding) + own) ∧
      (∀ g, m'.isStatic g = true ↔ m.isStatic g = true) ∧
      ∀ cell ∈ Q, m'.content? cell = m.content? cell)
    (fun m' loose rest ⟨hcounted, hstatic, hsame⟩ => ?_)
    (show _ ∧ _ ∧ ∀ cell ∈ Q, m.content? cell = m.content? cell from
      ⟨hcounted, fun _ => Iff.rfl, fun _ _ => rfl⟩)
  · exact hend.2.2
  · simp only [List.map_cons, ← Multiset.cons_coe, Multiset.cons_add] at hcounted
    refine ⟨?_, fun g => (isStatic_giveBack _ _ g).trans (hstatic g), fun cell hcell => ?_⟩
    · have hnext := hcounted.giveBack
      rwa [List.map_append, List.map_reverse, ← Multiset.coe_add, Multiset.coe_reverse, add_assoc]
    · have hsecured' : m'.Secured (↑(rest.map Loose.holding) + own) Q := fun c hc hlive =>
        (hsecured.of_content? hstatic hsame c hc hlive).imp_right fun h =>
          h.imp_left fun h => Multiset.mem_add.mpr (.inr h)
      exact (hsecured'.giveBack hcounted hcell).trans (hsame cell hcell)

theorem Secured.releases {gone : List Handle} (hsecured : m.Secured own Q)
    (hcounted : m.Counted (↑(gone.map Handle.holding) + own)) :
    ∀ cell ∈ Q, (gone.foldl (·.release ·) m).content? cell = m.content? cell := by
  induction gone generalizing m with
  | nil => exact fun _ _ => rfl
  | cons g gone ih =>
    simp only [List.map_cons, ← Multiset.cons_coe, Multiset.cons_add] at hcounted
    have hsecured' : m.Secured (↑(gone.map Handle.holding) + own) Q := fun c hc hlive =>
      (hsecured c hc hlive).imp_right fun h => h.imp_left fun h => Multiset.mem_add.mpr (.inr h)
    have hsame : ∀ cell ∈ Q, (m.release g).content? cell = m.content? cell :=
      hsecured'.releaseAll (by simpa [Loose.holding, Handle.holding] using hcounted)
    have hnext : (m.release g).Counted (↑(gone.map Handle.holding) + own) :=
      Counted.releaseAll (by simpa [Loose.holding, Handle.holding] using hcounted)
    exact fun cell hcell => (ih (hsecured.of_content? (isStatic_releaseAll m _) hsame) hnext cell
      hcell).trans (hsame cell hcell)

/-- A reference that is not the only one can be given back without further effect. -/
theorem contents_release (hcounted : m.Counted (h.holding ::ₘ own))
    (hshared : m.recorded h.holding = none ∨ h.holding ∈ m.held + own) :
    (m.release h).contents = m.contents := by
  have hlast : ∀ n, m.recorded h.holding = some n → 1 < n := by
    intro n hn
    obtain hnone | hmem := hshared
    · exact absurd (hn.symm.trans hnone) (by simp)
    · have hcount := hcounted.exact _ _ hn
      have := Multiset.count_pos.mpr hmem
      rw [Multiset.add_cons, Multiset.count_cons_self] at hcount
      omega
  rw [release, releaseAll_cons]
  obtain ⟨-, heq⟩ | ⟨n, -, -, heq⟩ | ⟨n, hn, hone, -⟩ := m.giveBack_cases ⟨h.edge, false⟩
  · simp [heq]
  · simp [heq]
  · exact absurd (hlast n hn) (Nat.not_lt.mpr hone)

/-! What is kept -/

namespace Keeps

variable {kinds kinds' : ObjectKind → Prop}

theorem refl (m : Heap) : Keeps kinds m m :=
  fun _ halloc => ⟨halloc, fun kind hkind => ⟨kind, hkind, fun _ => rfl⟩⟩

theorem trans (h : Keeps kinds m m') (h' : Keeps kinds m' m'') : Keeps kinds m m'' := by
  intro o halloc
  obtain ⟨halloc', hkinds⟩ := h o halloc
  obtain ⟨halloc'', hkinds'⟩ := h' o halloc'
  refine ⟨halloc'', fun kind'' hkind'' => ?_⟩
  obtain ⟨kind', hkind', hsame'⟩ := hkinds' kind'' hkind''
  obtain ⟨kind, hkind, hsame⟩ := hkinds kind' hkind'
  refine ⟨kind, hkind, fun hin => ?_⟩
  obtain rfl := hsame hin
  exact hsame' hin

theorem mono (h : Keeps kinds m m') (hsub : ∀ kind, kinds' kind → kinds kind) :
    Keeps kinds' m m' := fun o halloc => by
  obtain ⟨halloc', hkinds⟩ := h o halloc
  refine ⟨halloc', fun kind' hkind' => ?_⟩
  obtain ⟨kind, hkind, hsame⟩ := hkinds kind' hkind'
  exact ⟨kind, hkind, fun hin => hsame (hsub kind hin)⟩

theorem within (hwithin : m'.Within m) : Keeps kinds m m' := fun o halloc =>
  ⟨(hwithin.allocated _).mpr halloc, fun kind hkind => ⟨kind, hwithin.kind o kind hkind,
    fun _ => rfl⟩⟩

theorem of_contents (hsame : m'.contents = m.contents) : Keeps kinds m m' :=
  within (.of_contents hsame)

theorem release (m : Heap) (h : Handle) : Keeps kinds m (m.release h) :=
  within (within_release m h)

theorem retain (m : Heap) (h : Handle) : Keeps kinds m (m.retain h) :=
  of_contents (contents_retain m h)

theorem newObject (m : Heap) (kind : ObjectKind) : Keeps kinds m (m.newObject kind).2 := by
  intro o halloc
  have hne : o ≠ m.nextObject := fun heq =>
    (grows_newObject m kind).fresh (heq ▸ halloc)
  refine ⟨allocated_newObject kind halloc, fun kind' hkind' => ⟨kind', ?_, fun _ => rfl⟩⟩
  rwa [kindOf?_newObject, if_neg hne] at hkind'

theorem setKind {old kind : ObjectKind} (hkind : m.kindOf? o = some old) (hopen : ¬ kinds old) :
    Keeps kinds m (m.setKind o kind) := by
  intro p halloc
  refine ⟨(allocated_setKind m o kind _).mpr halloc, fun kind' hkind' => ?_⟩
  rw [Valid.kindOf?_setKind] at hkind'
  split at hkind'
  · next heq =>
    subst heq
    exact ⟨old, hkind, fun hin => absurd hin hopen⟩
  · exact ⟨kind', hkind', fun _ => rfl⟩

theorem setThunkState (m : Heap) (t : ThunkId) (state : ThunkState) :
    Keeps kinds m (m.setThunkState t state) := fun _ halloc =>
  ⟨(allocated_setThunkState m t state _).mpr halloc, fun kind hkind => ⟨kind, hkind, fun _ => rfl⟩⟩

theorem setMemo (m : Heap) (o : ObjectId) (memo : Memo) (hopen : ∀ c, ¬ kinds (.closure c)) :
    Keeps kinds m (m.setMemo o memo) := by
  intro p halloc
  refine ⟨(allocated_setMemo m o memo _).mpr halloc, fun kind' hkind' => ?_⟩
  rw [kindOf?_setMemo] at hkind'
  split at hkind'
  · obtain ⟨kind, hkind, rfl⟩ := Option.map_eq_some_iff.mp hkind'
    refine ⟨kind, hkind, fun hin => ?_⟩
    cases kind with
    | closure c => exact absurd hin (hopen c)
    | value | application | exception => rfl
  · exact ⟨kind', hkind', fun _ => rfl⟩

theorem kindOf?_eq {kind : ObjectKind} (h : Keeps kinds m m') (hkind : m.kindOf? o = some kind)
    (hin : kinds kind) (hlive : m'.IsLive (.object o)) : m'.kindOf? o = some kind := by
  obtain ⟨kind', hkind'⟩ := exists_kindOf? hlive
  obtain ⟨old, hold, hsame⟩ := (h o (isLive_of_kindOf? hkind).allocated).2 kind' hkind'
  cases hkind.symm.trans hold
  rw [hkind', hsame hin]

theorem is {kind : ObjectKind} (h : Keeps kinds m m') (his : m.Is (· = kind) o)
    (hin : kinds kind) : m'.Is (· = kind) o := by
  obtain ⟨halloc', hkinds⟩ := h o his.1
  refine ⟨halloc', fun kind' hkind' => ?_⟩
  obtain ⟨old, hold, hsame⟩ := hkinds kind' hkind'
  obtain rfl := his.2 old hold
  exact hsame hin

end Keeps

theorem Rests.settles (h : m.Rests m') : m.Settles m' := by
  refine h.mono ?_
  rintro _ (⟨e, rfl⟩ | ⟨r, rfl⟩) <;> rfl

namespace FadesOff

variable {W : Set Edge}

theorem of_agreeOff (halloc : ∀ cell, m.Allocated cell → m'.Allocated cell)
    (hagree : ∀ cell ∉ W, m.Allocated cell → m'.content? cell = m.content? cell) :
    FadesOff W m m' :=
  fun cell hcell => ⟨halloc cell hcell, fun hout => .inl (hagree cell hout hcell)⟩

theorem trans (h : FadesOff W m m') (h' : FadesOff W m' m'') : FadesOff W m m'' := by
  intro cell halloc
  obtain ⟨halloc', hsame⟩ := h cell halloc
  obtain ⟨halloc'', hsame'⟩ := h' cell halloc'
  refine ⟨halloc'', fun hout => ?_⟩
  obtain hsame' | hgone' := hsame' hout
  · rw [hsame', isLive_of_content? hsame']
    exact hsame hout
  · exact .inr hgone'

theorem mono {W' : Set Edge} (h : FadesOff W m m') (hsub : ∀ cell ∈ W, m.Allocated cell → cell ∈ W') :
    FadesOff W' m m' := fun cell halloc =>
  ⟨(h cell halloc).1, fun hout => (h cell halloc).2 fun hin => hout (hsub cell hin halloc)⟩

theorem kindOf?_eq (h : FadesOff W m m') (halloc : m.Allocated (.object o)) (hout : .object o ∉ W)
    (hlive : m'.IsLive (.object o)) : m'.kindOf? o = m.kindOf? o :=
  kindOf?_of_content? (((h _ halloc).2 hout).resolve_right fun hgone => hgone hlive)

theorem within (hwithin : m'.Within m) : FadesOff W m m' := by
  refine fun cell halloc => ⟨(hwithin.allocated cell).mpr halloc, fun _ => ?_⟩
  by_cases hlive : m'.IsLive cell
  · refine .inl ?_
    cases cell with
    | object o =>
      obtain ⟨kind, hkind⟩ := exists_kindOf? hlive
      rw [content?, content?, hkind, hwithin.kind o kind hkind]
    | thunk t =>
      obtain ⟨x, hx⟩ := Option.isSome_iff_exists.mp hlive
      have hstate : m'.stateOf? t = some x.state := by simp [stateOf?, hx]
      rw [content?, content?, hstate, hwithin.state t _ hstate]
    | combinator c =>
      obtain ⟨k, hk⟩ := exists_combinatorOf? hlive
      rw [content?, content?, hk, hwithin.combinator c k hk]
  · exact .inr hlive

theorem of_contents (hsame : m'.contents = m.contents) : FadesOff W m m' :=
  within (.of_contents hsame)

theorem release (m : Heap) (h : Handle) : FadesOff W m (m.release h) :=
  within (within_release m h)

theorem setKind {kind : ObjectKind} (ho : .object o ∈ W) : FadesOff W m (m.setKind o kind) :=
  of_agreeOff (fun cell => (allocated_setKind m o kind cell).mpr) fun cell hout _ =>
    AgreeOff.setKind m o kind cell fun heq => hout (heq ▸ ho)

theorem setMemo {memo : Memo} (ho : .object o ∈ W) : FadesOff W m (m.setMemo o memo) :=
  of_agreeOff (fun cell => (allocated_setMemo m o memo cell).mpr) fun cell hout _ =>
    AgreeOff.setMemo m o memo cell fun heq => hout (heq ▸ ho)

instance : IsGrowth (FadesOff W) where
  refl m := of_contents rfl
  trans := trans
  retainEdge m cell := of_contents (contents_retainEdge m cell)
  retainWeak m o := of_contents (contents_retainWeak m o)
  addObject m hold kind _ := by
    refine of_agreeOff (extends_addObject m hold kind).allocated fun cell _ halloc =>
      AgreeOff.addObject m hold kind cell fun heq => ?_
    rw [Set.mem_singleton_iff.mp heq] at halloc
    exact (grows_newObject m kind).fresh halloc
  newThunk m state := by
    have hgrows := grows_newThunk m state
    refine of_agreeOff (fun cell halloc => (hgrows.allocated cell).mpr (.inr halloc))
      fun cell _ halloc => AgreeOff.newThunk m state cell fun heq => ?_
    rw [Set.mem_singleton_iff.mp heq] at halloc
    exact hgrows.fresh halloc

end FadesOff

namespace Settles

theorem error? (hsettles : m.Settles m') (herror : m.error? r = some e)
    (hlive : m'.IsLive r.edge) : m'.error? r = some e := by
  have htag : r.tag = .exception := by
    by_contra hne
    simp [Heap.error?, hne] at herror
  have hkind := hsettles.kindOf?_eq (kindOf?_of_error? herror) (.inl ⟨e, rfl⟩) hlive
  have hlook : m'.kind? r = some (.exception e) := hkind
  simp [Heap.error?, htag, hlook, ObjectKind.error?]

theorem memoizes {n : ObjectId} (hsettles : m.Settles m') (hmemoizes : m.Memoizes e n)
    (hcounted : m'.Counted own) : m'.Memoizes e n := by
  obtain ⟨halloc, hkinds⟩ := hsettles n hmemoizes.1
  refine ⟨halloc, fun kind' hkind' => ?_⟩
  obtain ⟨kind, hkind, hsame⟩ := hkinds kind' hkind'
  obtain ⟨r, rfl, herror⟩ := hmemoizes.2 kind hkind
  obtain rfl := hsame (.inr ⟨r, rfl⟩)
  exact ⟨r, rfl, hsettles.error? herror
    (hcounted.live_of_kind hkind' (by simp [Handle.holding]))⟩

end Settles

end Heap

end GraphReduction
