import Mathlib
import GraphReduction.Proofs.Labels.Ends
import GraphReduction.Proofs.Moves.Binding

/-! Marks on cells. A marking says something of every object, thunk and combinator, of those to come
as well, and what it says does not change with what the cell keeps. A computation marks what it
makes, and anew what nobody else refers to. -/
namespace GraphReduction

open Heap

def Heap.Running (m : Heap) (o : ObjectId) : Prop :=
  ∃ c, m.kindOf? o = some (.closure c) ∧ c.memo = .running

def Heap.Forward (m : Heap) (t : ThunkId) : Prop := ∀ p, m.stateOf? t ≠ some (.recursive p)

theorem Heap.not_running {m : Heap} {o : ObjectId} {c : Closure}
    (hkind : m.kindOf? o = some (.closure c)) (hmemo : c.memo ≠ .running) : ¬ m.Running o := by
  rintro ⟨e, he, hrunning⟩
  cases hkind.symm.trans he
  exact hmemo hrunning

theorem Heap.forward_of_isRecursive {m : Heap} {t : ThunkId} (h : m.isRecursive t = false) :
    m.Forward t := by
  intro p hp
  have hp' : (m.thunk? t).map Thunk.state = some (.recursive p) := hp
  simp [isRecursive, hp'] at h

theorem Heap.forward_newThunk {m : Heap} {state : ThunkState} (h : ∀ p, state ≠ .recursive p) :
    (m.newThunk state).2.Forward ⟨m.thunks.next⟩ := by
  intro p hp
  rw [stateOf?_newThunk, if_pos rfl] at hp
  exact h p (Option.some.inj hp)

theorem Closure.At.setMemo {m : Heap} {o p : ObjectId} {c d : Closure} {memo : Memo}
    (hkind : m.kindOf? o = some (.closure c)) (hempty : c.memo = .empty) (hat : d.At m p) :
    d.At (m.setMemo o memo) p := by
  obtain ⟨kept, hd, hfull⟩ := hat
  by_cases hp : p = o
  · subst hp
    cases hkind.symm.trans hd
    refine ⟨memo, by rw [kindOf?_setMemo, if_pos rfl, hkind]; rfl, fun hmemo => ?_⟩
    exact (hmemo ((hfull hmemo).symm.trans hempty)).elim
  · exact ⟨kept, by rw [kindOf?_setMemo, if_neg hp, hd], hfull⟩

structure Marks (α β γ : Type) where
  object : ObjectId → α
  thunk : ThunkId → β
  code : CombinatorId → γ

namespace Marks

variable {α β γ : Type} {M M' M'' : Marks α β γ} {m m' m'' : Heap} {o p : ObjectId} {h : Handle}
  {t u : ThunkId} {c : Closure} {a : α} {b : β} {held rest : Multiset Holding}

/-! Marking anew -/

def withObject (M : Marks α β γ) (o : ObjectId) (a : α) : Marks α β γ :=
  { M with object := Function.update M.object o a }

def withThunk (M : Marks α β γ) (t : ThunkId) (b : β) : Marks α β γ :=
  { M with thunk := Function.update M.thunk t b }

def withCode (M : Marks α β γ) (e : CombinatorId) (x : γ) : Marks α β γ :=
  { M with code := Function.update M.code e x }

/-- The next object, and the next thunk, which leads back to it. -/
def withKnot (M : Marks α β γ) (m : Heap) (a : α) (b : β) : Marks α β γ :=
  (M.withThunk ⟨m.thunks.next⟩ b).withObject m.nextObject a

@[simp] theorem withObject_self : (M.withObject o a).object o = a := Function.update_self ..

theorem withObject_of_ne (hne : p ≠ o) : (M.withObject o a).object p = M.object p :=
  Function.update_of_ne hne ..

@[simp] theorem withThunk_self : (M.withThunk t b).thunk t = b := Function.update_self ..

theorem withThunk_of_ne (hne : u ≠ t) : (M.withThunk t b).thunk u = M.thunk u :=
  Function.update_of_ne hne ..

@[simp] theorem withCode_self {e : CombinatorId} {x : γ} : (M.withCode e x).code e = x :=
  Function.update_self ..

theorem withCode_of_ne {e e' : CombinatorId} {x : γ} (hne : e' ≠ e) :
    (M.withCode e x).code e' = M.code e' :=
  Function.update_of_ne hne ..

@[simp] theorem object_withKnot : (M.withKnot m a b).object m.nextObject = a := withObject_self

@[simp] theorem thunk_withKnot : (M.withKnot m a b).thunk ⟨m.thunks.next⟩ = b := withThunk_self

/-- Marks that are the same for what the references lead to. -/
structure Agrees (M M' : Marks α β γ) (held : Multiset Holding) : Prop where
  object : ∀ o, .strong (.object o) ∈ held → M'.object o = M.object o
  weak : ∀ o, .weak o ∈ held → M'.object o = M.object o
  thunk : ∀ t, .strong (.thunk t) ∈ held → M'.thunk t = M.thunk t
  code : ∀ c, .strong (.combinator c) ∈ held → M'.code c = M.code c

namespace Agrees

theorem refl (M : Marks α β γ) (held : Multiset Holding) : M.Agrees M held :=
  ⟨fun _ _ => rfl, fun _ _ => rfl, fun _ _ => rfl, fun _ _ => rfl⟩

theorem mono {held' : Multiset Holding} (h : M.Agrees M' held) (hsub : held' ⊆ held) :
    M.Agrees M' held' :=
  ⟨fun o ho => h.object o (hsub ho), fun o ho => h.weak o (hsub ho),
    fun t ht => h.thunk t (hsub ht), fun c hc => h.code c (hsub hc)⟩

theorem handle (hagrees : M.Agrees M' held) (hheld : h.holding ∈ held) :
    M'.object h.target = M.object h.target :=
  hagrees.object h.target hheld

end Agrees

theorem agrees_withObject (hvalid : m.Valid held) (a : α) :
    M.Agrees (M.withObject m.nextObject a) (m.held + held) :=
  ⟨fun _ ho => withObject_of_ne (hvalid.ne_nextObject ho),
    fun _ ho => withObject_of_ne (hvalid.ne_nextObject_of_weak ho), fun _ _ => rfl, fun _ _ => rfl⟩

theorem agrees_withThunk (hvalid : m.Valid held) (b : β) :
    M.Agrees (M.withThunk ⟨m.thunks.next⟩ b) (m.held + held) :=
  ⟨fun _ _ => rfl, fun _ _ => rfl, fun _ ht => withThunk_of_ne (hvalid.ne_nextThunk ht),
    fun _ _ => rfl⟩

theorem agrees_withCode {e : CombinatorId} (hfresh : ¬ m.Allocated (.combinator e))
    (hvalid : m.Valid held) (x : γ) : M.Agrees (M.withCode e x) (m.held + held) :=
  ⟨fun _ _ => rfl, fun _ _ => rfl, fun _ _ => rfl, fun e' he' => withCode_of_ne (by
    rintro rfl
    exact hfresh (hvalid.counted.live _ he').allocated)⟩

theorem agrees_withKnot (hvalid : m.Valid held) (a : α) (b : β) :
    M.Agrees (M.withKnot m a b) (m.held + held) where
  object := (agrees_withObject hvalid a).object
  weak := (agrees_withObject hvalid a).weak
  thunk := (agrees_withThunk hvalid b).thunk
  code _ _ := rfl

/-- What refers to the only reference of an object keeps its mark, which is nothing. -/
theorem agrees_unique (hvalid : m.Valid (.strong (.object o) ::ₘ held)) (hunique : m.IsUnique o)
    (a : α) : M.Agrees (M.withObject o a) (m.held + held) := by
  obtain ⟨hstrong, hweak⟩ := hvalid.counted.not_held_of_unique hunique
  refine ⟨fun p hp => withObject_of_ne ?_, fun p hp => withObject_of_ne ?_, fun _ _ => rfl,
    fun _ _ => rfl⟩
  · rintro rfl
    exact hstrong hp
  · rintro rfl
    exact hweak hp

/-! What a computation changes -/

/-- What others hold keeps its mark, and its content if that is a closure, up to its result; what was
suspended keeps its mark and is no back edge if it was none; combinators stay what they are, and no
computation of a result has been left unfinished. -/
structure Advances (rest : Multiset Holding) (m : Heap) (M : Marks α β γ) (m' : Heap)
    (M' : Marks α β γ) : Prop where
  object : ∀ o, .strong (.object o) ∈ rest → M'.object o = M.object o
  thunk : ∀ t, m.Allocated (.thunk t) → M'.thunk t = M.thunk t
  code : M'.code = M.code
  running : ∀ o, m'.Running o → m.Running o ∧ M'.object o = M.object o
  kept : ∀ o (d : Closure), .strong (.object o) ∈ rest → d.At m o → d.At m' o
  back : ∀ t p, m.Allocated (.thunk t) → m'.stateOf? t = some (.recursive p) →
    m.stateOf? t = some (.recursive p)
  combinator : ∀ c k, m.Allocated (.combinator c) → m'.combinatorOf? c = some k →
    m.combinatorOf? c = some k
  allocated : ∀ cell, m.Allocated cell → m'.Allocated cell

namespace Advances

theorem trans (h : Advances rest m M m' M') (h' : Advances rest m' M' m'' M'') :
    Advances rest m M m'' M'' where
  object o ho := (h'.object o ho).trans (h.object o ho)
  thunk t ht := (h'.thunk t (h.allocated _ ht)).trans (h.thunk t ht)
  code := h'.code.trans h.code
  running o ho := by
    obtain ⟨hrunning', hsame'⟩ := h'.running o ho
    obtain ⟨hrunning, hsame⟩ := h.running o hrunning'
    exact ⟨hrunning, hsame'.trans hsame⟩
  kept o c ho hat := h'.kept o c ho (h.kept o c ho hat)
  back t p ht hp := h.back t p ht (h'.back t p (h.allocated _ ht) hp)
  combinator c k hc hk := h.combinator c k hc (h'.combinator c k (h.allocated _ hc) hk)
  allocated cell hcell := h'.allocated cell (h.allocated cell hcell)

theorem mono {rest' : Multiset Holding} (h : Advances rest m M m' M') (hsub : rest' ⊆ rest) :
    Advances rest' m M m' M' :=
  { h with
    object := fun o ho => h.object o (hsub ho)
    kept := fun o c ho => h.kept o c (hsub ho) }

theorem handle (hev : Advances rest m M m' M') (hheld : h.holding ∈ rest) :
    M'.object h.target = M.object h.target :=
  hev.object _ hheld

/-- A closure with a result, or one that is being computed, stays as it is. -/
theorem kindOf?_eq (hev : Advances rest m M m' M') (hheld : .strong (.object o) ∈ rest)
    (hkind : m.kindOf? o = some (.closure c)) (hmemo : c.memo ≠ .empty) :
    m'.kindOf? o = some (.closure c) := by
  obtain ⟨memo, hkind', hfull⟩ := hev.kept o c hheld (.of_kind hkind)
  rw [hkind', hfull hmemo]

theorem forward (hev : Advances rest m M m' M') (halloc : m.Allocated (.thunk t))
    (ht : m.Forward t) : m'.Forward t :=
  fun p hp => ht p (hev.back t p halloc hp)

theorem of_within (hwithin : m'.Within m)
    (hkept : ∀ o, .strong (.object o) ∈ rest → m'.kindOf? o = m.kindOf? o) :
    Advances rest m M m' M where
  object _ _ := rfl
  thunk _ _ := rfl
  code := rfl
  running o h := by
    obtain ⟨c, hkind, hmemo⟩ := h
    exact ⟨⟨c, hwithin.kind _ _ hkind, hmemo⟩, rfl⟩
  kept o c ho hat := by rwa [Closure.At, hkept o ho]
  back t p _ hp := hwithin.state t _ hp
  combinator c k _ hk := hwithin.combinator c k hk
  allocated cell h := (hwithin.allocated cell).2 h

theorem of_contents (hsame : m'.contents = m.contents) : Advances rest m M m' M :=
  .of_within (.of_contents hsame) fun o _ => kindOf?_congr hsame o

theorem refl (rest : Multiset Holding) (m : Heap) (M : Marks α β γ) : Advances rest m M m M :=
  .of_contents rfl

theorem share : Advances rest m M (m.retain h) M := .of_contents (contents_retain m h)

theorem release (hvalid : m.Valid (h.holding ::ₘ held)) (hsub : rest ⊆ held) :
    Advances rest m M (m.release h) M :=
  .of_within (within_release m h) fun _ ho => kindOf?_release hvalid (hsub ho)

theorem releaseThunk (hvalid : m.Valid (.strong (.thunk t) ::ₘ held)) (hsub : rest ⊆ held) :
    Advances rest m M (m.releaseThunk t) M :=
  .of_within (within_releaseThunk m t) fun _ ho =>
    kindOf?_releaseAll (by simpa [Loose.holding] using hvalid) (hsub ho)

theorem setKind {kind kind' : ObjectKind} (hkind : m.kindOf? o = some kind)
    (hplain : ∀ c, kind ≠ .closure c) (hplain' : ∀ c, kind' ≠ .closure c) :
    Advances rest m M (m.setKind o kind') M where
  object _ _ := rfl
  thunk _ _ := rfl
  code := rfl
  running p h := by
    obtain ⟨c, hclosure, hmemo⟩ := h
    rw [Valid.kindOf?_setKind] at hclosure
    split at hclosure
    · obtain ⟨_, -, heq⟩ := Option.map_eq_some_iff.1 hclosure
      exact (hplain' c heq).elim
    · exact ⟨⟨c, hclosure, hmemo⟩, rfl⟩
  kept p c _ hat := by
    have hne : p ≠ o := by
      rintro rfl
      obtain ⟨memo, hclosure, -⟩ := hat
      exact hplain _ (Option.some.inj (hkind.symm.trans hclosure))
    rwa [Closure.At, Valid.kindOf?_setKind, if_neg hne]
  back _ _ _ hp := hp
  combinator _ _ _ hk := hk
  allocated cell h := (allocated_setKind m o kind' cell).2 h

theorem tie (hknot : m.kindOf? o = some (.application (.knot .unresolved))) (value : Handle) :
    Advances rest m M (m.tie o value) M := by
  unfold Heap.tie
  split
  · exact .setKind hknot (by simp) (by simp)
  · have hweak : Advances rest m M (m.retainWeak value.target) M :=
      .of_contents (contents_retainWeak m _)
    exact hweak.trans (.setKind ((kindOf?_congr (contents_retainWeak m _) o).trans hknot) (by simp)
      (by simp))

theorem keep (t : ThunkId) (r : Handle) : Advances rest m M (m.setThunkState t (.forced r)) M where
  object _ _ := rfl
  thunk _ _ := rfl
  code := rfl
  running _ h := ⟨h, rfl⟩
  kept _ _ _ hat := hat
  back u p _ hp := by
    rw [stateOf?_setThunkState] at hp
    split at hp
    · obtain ⟨_, -, heq⟩ := Option.map_eq_some_iff.1 hp
      cases heq
    · exact hp
  combinator _ _ _ hk := hk
  allocated cell h := (allocated_setThunkState m t (.forced r) cell).2 h

theorem newObject (hvalid : m.Valid held) (hsub : rest ⊆ held) (kind : ObjectKind)
    (hidle : ∀ c, kind = .closure c → c.memo ≠ .running) (a : α) :
    Advances rest m M (m.newObject kind).2 (M.withObject m.nextObject a) where
  object o ho := withObject_of_ne (hvalid.ne_nextObject (Multiset.mem_add.2 (.inr (hsub ho))))
  thunk _ _ := rfl
  code := rfl
  running o h := by
    obtain ⟨c, hkind, hmemo⟩ := h
    rw [kindOf?_newObject] at hkind
    split at hkind
    · exact absurd hmemo (hidle c (Option.some.inj hkind))
    · next hne => exact ⟨⟨c, hkind, hmemo⟩, withObject_of_ne hne⟩
  kept o c ho hat := by
    have hne : o ≠ m.nextObject := hvalid.ne_nextObject (Multiset.mem_add.2 (.inr (hsub ho)))
    rwa [Closure.At, kindOf?_newObject, if_neg hne]
  back _ _ _ hp := hp
  combinator _ _ _ hk := hk
  allocated _ h := allocated_newObject kind h

theorem newThunk (state : ThunkState) (b : β) :
    Advances rest m M (m.newThunk state).2 (M.withThunk ⟨m.thunks.next⟩ b) where
  object _ _ := rfl
  thunk t ht := withThunk_of_ne (ne_nextThunk ht)
  code := rfl
  running _ h := ⟨h, rfl⟩
  kept _ _ _ hat := hat
  back t p ht hp := by rwa [stateOf?_newThunk, if_neg (ne_nextThunk ht)] at hp
  combinator _ _ _ hk := hk
  allocated _ h := ((grows_newThunk m state).allocated _).2 (.inr h)

theorem fill (hvalid : m.Valid (.strong (.object o) ::ₘ held)) (hsub : rest ⊆ held)
    (hunique : m.IsUnique o) (hmemo : c.memo = .empty) (a : α) :
    Advances rest m M (m.setKind o (.closure (c.fill t))) (M.withObject o a) := by
  have hne : ∀ p, .strong (.object p) ∈ rest → p ≠ o := by
    rintro p hp rfl
    exact (hvalid.counted.not_held_of_unique hunique).1 (Multiset.mem_add.2 (.inr (hsub hp)))
  refine ⟨fun p hp => withObject_of_ne (hne p hp), fun _ _ => rfl, rfl, fun p hp => ?_,
    fun p d hp hat => ?_, fun _ _ _ hp => hp, fun _ _ _ hk => hk,
    fun cell h => (allocated_setKind m o _ cell).2 h⟩
  · obtain ⟨d, hd, hrunning⟩ := hp
    rw [Valid.kindOf?_setKind] at hd
    split at hd
    · obtain ⟨_, -, heq⟩ := Option.map_eq_some_iff.1 hd
      cases heq
      cases hmemo.symm.trans hrunning
    · next hother => exact ⟨⟨d, hd, hrunning⟩, withObject_of_ne hother⟩
  · rwa [Closure.At, Valid.kindOf?_setKind, if_neg (hne p hp)]

theorem bindSelf (hvalid : m.Valid held) (hsub : rest ⊆ held) (hmemo : c.memo = .empty) (a : α)
    (b : β) : Advances rest m M (m.bindSelf c) (M.withKnot m a b) := by
  have hne : ∀ o, .strong (.object o) ∈ rest → o ≠ m.nextObject := fun o ho =>
    hvalid.ne_nextObject (Multiset.mem_add.2 (.inr (hsub ho)))
  refine ⟨fun o ho => withObject_of_ne (hne o ho), fun t ht => withThunk_of_ne (ne_nextThunk ht), rfl,
    fun o ho => ?_, fun o d ho hat => ?_, fun t p ht hp => ?_, fun _ _ _ hk => hk,
    fun cell h => allocated_bindSelf c h⟩
  · obtain ⟨d, hd, hrunning⟩ := ho
    rw [kindOf?_bindSelf] at hd
    split at hd
    · cases hd
      cases hmemo.symm.trans hrunning
    · next hother => exact ⟨⟨d, hd, hrunning⟩, withObject_of_ne hother⟩
  · rwa [Closure.At, kindOf?_bindSelf, if_neg (hne o ho)]
  · rwa [stateOf?_bindSelf, if_neg (ne_nextThunk ht)] at hp

/-- While the result of a closure is computed, its memo says so, and afterwards what came of it. -/
theorem around {memo : Memo} (hkind : m.kindOf? o = some (.closure c)) (hempty : c.memo = .empty)
    (hev : Advances rest (m.setMemo o .running) M m' M') (hmemo : memo ≠ .running) :
    Advances rest m M (m'.setMemo o memo) M' where
  object := hev.object
  thunk t ht := hev.thunk t ((allocated_setMemo ..).2 ht)
  code := hev.code
  running p hp := by
    obtain ⟨e, hclosure, hrunning⟩ := hp
    rw [kindOf?_setMemo] at hclosure
    split at hclosure
    · obtain ⟨kind, -, heq⟩ := Option.map_eq_some_iff.1 hclosure
      cases kind with
      | closure =>
        cases heq
        exact (hmemo hrunning).elim
      | value | application | exception => cases heq
    · next hne =>
      obtain ⟨⟨e', hclosure', hrunning'⟩, hsame⟩ := hev.running p ⟨e, hclosure, hrunning⟩
      rw [kindOf?_setMemo, if_neg hne] at hclosure'
      exact ⟨⟨e', hclosure', hrunning'⟩, hsame⟩
  kept p d hp hat := by
    obtain ⟨kept, hd, hfull⟩ := hev.kept p d hp (hat.setMemo hkind hempty)
    by_cases hsame : p = o
    · subst hsame
      obtain ⟨memo₀, hd₀, hfull₀⟩ := hat
      cases hkind.symm.trans hd₀
      refine ⟨memo, by rw [kindOf?_setMemo, if_pos rfl, hd]; rfl, fun hmemo => ?_⟩
      exact (hmemo ((hfull₀ hmemo).symm.trans hempty)).elim
    · exact ⟨kept, by rw [kindOf?_setMemo, if_neg hsame, hd], hfull⟩
  back t p ht hp := hev.back t p ((allocated_setMemo ..).2 ht) hp
  combinator e k he hk := hev.combinator e k ((allocated_setMemo ..).2 he) hk
  allocated cell hcell :=
    (allocated_setMemo ..).2 (hev.allocated cell ((allocated_setMemo ..).2 hcell))

end Advances

end Marks

end GraphReduction
