import Mathlib
import GraphReduction.Proofs.Moves.Access

/-! What a computation does, seen by who runs it. It moves the machine from one valid heap to the
next, turns what it holds into `post` of its result, and if it ends without one it is left with
`left` and with the error that it raised. `rest` is held by others in the meantime. -/
namespace GraphReduction

open Heap

def Signal.holdings : Signal → Multiset Holding
  | .raised e => {.error e}
  | _ => 0

def Does (rest : Multiset Holding) (lent : Set Edge) (s : Machine) (own : Multiset Holding)
    (act : Run α) (post : α → Multiset Holding) (left : Multiset Holding) : Prop :=
  s.heap.Valid (own + rest) →
    match act s with
    | .ok a s' => Moves lent s own s' (post a)
    | .error signal s' => Moves lent s own s' (signal.holdings + left)

/-- What a computation that always has a result does. -/
def Gives (rest : Multiset Holding) (lent : Set Edge) (s : Machine) (own : Multiset Holding)
    (act : Run α) (post : α → Multiset Holding) : Prop :=
  s.heap.Valid (own + rest) → ∃ a s', act s = .ok a s' ∧ Moves lent s own s' (post a)

/-- A reducer borrows a handle and comes back with a new one. -/
def Reducer.Sound (reduce : Reducer) : Prop :=
  ∀ rest lent s (h : Handle), h.holding ∈ rest → h.edge ∈ lent →
    Does rest lent s 0 (reduce h) (fun r => {r.holding}) 0

namespace Moves

variable {lent lent' : Set Edge} {s s' : Machine} {own own' : Multiset Holding}

theorem mono (h : Moves lent s own s' own') (hsub : lent ⊆ lent') : Moves lent' s own s' own' :=
  .lend h fun _ hcell => .inl (hsub hcell)

theorem conv (h : Moves lent s own s' own') {own₁ own₁' : Multiset Holding} (hown : own₁ = own)
    (hown' : own₁' = own') : Moves lent s own₁ s' own₁' := by
  rw [hown, hown']
  exact h

theorem release (s : Machine) (h : Handle) :
    Moves lent s (h.holding ::ₘ own) (s.on (·.release h)) own :=
  .dropped ⟨h.edge, false⟩

theorem releaseThunk (s : Machine) (t : ThunkId) :
    Moves lent s (.strong (.thunk t) ::ₘ own) (s.on (·.releaseThunk t)) own :=
  .dropped ⟨.thunk t, false⟩

theorem lending_holding (other : Set Edge) (h : Handle) :
    other ∪ lending {h.holding} = insert h.edge other := by
  ext cell
  simp only [lending, Handle.holding, Set.mem_union, Set.mem_ofPred_eq, Multiset.mem_singleton,
    Holding.strong.injEq, Set.mem_insert_iff]
  exact Or.comm

theorem around {h : Handle} (hmoves : Moves (insert h.edge lent) s own s' own') :
    Moves lent s (h.holding ::ₘ own) s' (h.holding ::ₘ own') := by
  rw [← lending_holding] at hmoves
  refine (Moves.frame {h.holding} hmoves).conv ?_ ?_
  · rw [add_comm, Multiset.singleton_add]
  · rw [add_comm, Multiset.singleton_add]

theorem share {h : Handle} (haccess : s.heap.Access lent own h.holding)
    (hlive : s.heap.IsLive h.edge) : Moves lent s own (s.on (·.retain h)) (h.holding ::ₘ own) :=
  .retain h.edge haccess hlive

end Moves

namespace Does

variable {α β : Type} {rest : Multiset Holding} {lent : Set Edge} {s s₁ : Machine}
  {own own₁ left mid : Multiset Holding} {act : Run α} {post : α → Multiset Holding}

theorem given (h : s.heap.Valid (own + rest) → Does rest lent s own act post left) :
    Does rest lent s own act post left :=
  fun hvalid => h hvalid hvalid

theorem of_ok {a : α} (hact : act s = .ok a s₁)
    (h : s.heap.Valid (own + rest) → Moves lent s own s₁ (post a)) :
    Does rest lent s own act post left := by
  intro hvalid
  rw [hact]
  exact h hvalid

theorem pure (a : α) (h : own = post a) : Does rest lent s own (Pure.pure a) post left :=
  of_ok rfl fun _ => h ▸ .refl ..

theorem of_error {signal : Signal} (hact : act s = .error signal s₁)
    (h : s.heap.Valid (own + rest) → Moves lent s own s₁ (signal.holdings + left)) :
    Does rest lent s own act post left := by
  intro hvalid
  rw [hact]
  exact h hvalid

theorem throw {signal : Signal} (h : own = signal.holdings + left) :
    Does rest lent s own (MonadExcept.throw signal : Run α) post left :=
  of_error rfl fun _ => h ▸ .refl ..

theorem raise {e : EvalError} (he : e ≠ .releasedSelfReference) (h : own = left) :
    Does rest lent s own (Run.raise e : Run α) post left :=
  of_error rfl fun _ => by
    subst h
    exact .raised e he

theorem bind {next : α → Run β} {post' : β → Multiset Holding}
    (h : Does rest lent s own act post left)
    (hnext : ∀ a s', act s = .ok a s' → Moves lent s own s' (post a) →
      s'.heap.Valid (post a + rest) → Does rest lent s' (post a) (next a) post' left) :
    Does rest lent s own (act >>= next) post' left := by
  intro hvalid
  have hmoves := h hvalid
  rw [Run.bind_run]
  cases hact : act s with
  | error signal s' => simpa [hact] using hmoves
  | ok a s' =>
    rw [hact] at hmoves
    have hvalid' := hmoves.valid rest hvalid
    have hlast := hnext a s' hact hmoves hvalid' hvalid'
    dsimp only
    cases hrun : next a s' with
    | ok b s'' =>
      rw [hrun] at hlast
      exact hmoves.trans hlast
    | error signal s'' =>
      rw [hrun] at hlast
      exact hmoves.trans hlast

theorem after (hmoves : Moves lent s own s own₁) (h : Does rest lent s own₁ act post left) :
    Does rest lent s own act post left := by
  intro hvalid
  have hrest := h (hmoves.valid rest hvalid)
  cases hact : act s with
  | ok a s' =>
    rw [hact] at hrest
    exact hmoves.trans hrest
  | error signal s' =>
    rw [hact] at hrest
    exact hmoves.trans hrest

theorem step {a : α} {next : α → Run β} {post' : β → Multiset Holding} (hact : act s = .ok a s₁)
    (h : s.heap.Valid (own + rest) → Moves lent s own s₁ own₁)
    (hnext : s₁.heap.Valid (own₁ + rest) → Does rest lent s₁ own₁ (next a) post' left) :
    Does rest lent s own (act >>= next) post' left :=
  bind (of_ok hact h : Does rest lent s own act (fun _ => own₁) left) fun b s' hact' _ hvalid => by
    rw [hact] at hact'
    cases hact'
    exact hnext hvalid

theorem inspect {f : Heap → α} {next : α → Run β} {post' : β → Multiset Holding}
    (h : Does rest lent s own (next (f s.heap)) post' left) :
    Does rest lent s own (Run.inspect f >>= next) post' left :=
  step rfl (fun _ => .refl ..) fun _ => h

theorem conv {own' left' : Multiset Holding} {post' : α → Multiset Holding}
    (h : Does rest lent s own' act post' left') (hown : own = own') (hpost : ∀ a, post a = post' a)
    (hleft : left = left') : Does rest lent s own act post left := by
  obtain rfl : post = post' := funext hpost
  rw [hown, hleft]
  exact h

theorem mono {lent' : Set Edge} (h : Does rest lent s own act post left) (hsub : lent ⊆ lent') :
    Does rest lent' s own act post left := by
  intro hvalid
  have hmoves := h hvalid
  cases hact : act s with
  | ok a s' =>
    rw [hact] at hmoves
    exact hmoves.mono hsub
  | error signal s' =>
    rw [hact] at hmoves
    exact hmoves.mono hsub

theorem frame (other : Multiset Holding)
    (h : Does (other + rest) (lent ∪ lending other) s own act post left) :
    Does rest lent s (own + other) act (fun a => post a + other) (left + other) := by
  intro hvalid
  rw [add_assoc] at hvalid
  have hmoves := h hvalid
  cases hact : act s with
  | ok a s' =>
    rw [hact] at hmoves
    exact .frame other hmoves
  | error signal s' =>
    rw [hact] at hmoves
    dsimp only
    rw [← add_assoc]
    exact .frame other hmoves

theorem tryCatch {handle : Signal → Run α} (h : Does rest lent s own act post mid)
    (hcatch : ∀ signal s', act s = .error signal s' →
      Moves lent s own s' (signal.holdings + mid) → s'.heap.Valid (signal.holdings + mid + rest) →
      Does rest lent s' (signal.holdings + mid) (handle signal) post left) :
    Does rest lent s own (MonadExcept.tryCatch act handle) post left := by
  intro hvalid
  have hmoves := h hvalid
  rw [Run.tryCatch_run]
  cases hact : act s with
  | ok a s' => simpa [hact] using hmoves
  | error signal s' =>
    rw [hact] at hmoves
    have hvalid' := hmoves.valid rest hvalid
    have hlast := hcatch signal s' hact hmoves hvalid' hvalid'
    dsimp only
    cases hrun : handle signal s' with
    | ok b s'' =>
      rw [hrun] at hlast
      exact hmoves.trans hlast
    | error signal s'' =>
      rw [hrun] at hlast
      exact hmoves.trans hlast

theorem releasing {h : Handle}
    (hact : Does (h.holding ::ₘ rest) (insert h.edge lent) s own act post left) :
    Does rest lent s (h.holding ::ₘ own) (Run.releasing h act) post left := by
  intro hvalid
  rw [Multiset.cons_add, ← Multiset.add_cons] at hvalid
  have hmoves := hact hvalid
  rw [Run.releasing_run]
  cases hrun : act s with
  | ok a s' =>
    rw [hrun] at hmoves
    exact hmoves.around.trans (.release s' h)
  | error signal s' =>
    rw [hrun] at hmoves
    exact hmoves.around.trans (.release s' h)

theorem releasingOnSignal {h : Handle}
    (hact : Does (h.holding ::ₘ rest) (insert h.edge lent) s own act post left) :
    Does rest lent s (h.holding ::ₘ own) (Run.releasingOnSignal h act)
      (fun a => h.holding ::ₘ post a) left := by
  intro hvalid
  rw [Multiset.cons_add, ← Multiset.add_cons] at hvalid
  have hmoves := hact hvalid
  rw [Run.releasingOnSignal_run]
  cases hrun : act s with
  | ok a s' =>
    rw [hrun] at hmoves
    exact hmoves.around
  | error signal s' =>
    rw [hrun] at hmoves
    exact hmoves.around.trans (.release s' h)

end Does

namespace Reducer.Sound

variable {reduce : Reducer} {rest own : Multiset Holding} {lent : Set Edge} {s : Machine} {h : Handle}

theorem beside (hsound : reduce.Sound) (hheld : h.holding ∈ own + rest)
    (hlent : h.edge ∈ lent ∪ lending own) :
    Does rest lent s own (reduce h) (fun r => r.holding ::ₘ own) own := by
  refine (Does.frame own (hsound _ _ s h hheld hlent)).conv ?_ (fun r => ?_) ?_
  · rw [zero_add]
  · rw [Multiset.singleton_add]
  · rw [zero_add]

theorem owned (hsound : reduce.Sound) (hmem : h.holding ∈ own) :
    Does rest lent s own (reduce h) (fun r => r.holding ::ₘ own) own :=
  hsound.beside (Multiset.mem_add.mpr (.inl hmem)) (.inr hmem)

theorem borrowed (hsound : reduce.Sound) (hheld : h.holding ∈ rest) (hlent : h.edge ∈ lent) :
    Does rest lent s own (reduce h) (fun r => r.holding ::ₘ own) own :=
  hsound.beside (Multiset.mem_add.mpr (.inr hheld)) (.inl hlent)

end Reducer.Sound

namespace Gives

variable {α β : Type} {rest : Multiset Holding} {lent : Set Edge} {s s₁ : Machine}
  {own own₁ left : Multiset Holding} {act : Run α} {post : α → Multiset Holding}

theorem does (h : Gives rest lent s own act post) : Does rest lent s own act post left := by
  intro hvalid
  obtain ⟨a, s', hact, hmoves⟩ := h hvalid
  rw [hact]
  exact hmoves

theorem given (h : s.heap.Valid (own + rest) → Gives rest lent s own act post) :
    Gives rest lent s own act post :=
  fun hvalid => h hvalid hvalid

theorem of_ok {a : α} (hact : act s = .ok a s₁)
    (h : s.heap.Valid (own + rest) → Moves lent s own s₁ (post a)) :
    Gives rest lent s own act post :=
  fun hvalid => ⟨a, s₁, hact, h hvalid⟩

theorem pure (a : α) (h : own = post a) : Gives rest lent s own (Pure.pure a) post :=
  of_ok rfl fun _ => h ▸ .refl ..

theorem bind {next : α → Run β} {post' : β → Multiset Holding}
    (h : Gives rest lent s own act post)
    (hnext : ∀ a s', act s = .ok a s' → Moves lent s own s' (post a) →
      s'.heap.Valid (post a + rest) → Gives rest lent s' (post a) (next a) post') :
    Gives rest lent s own (act >>= next) post' := by
  intro hvalid
  obtain ⟨a, s', hact, hmoves⟩ := h hvalid
  have hvalid' := hmoves.valid rest hvalid
  obtain ⟨b, s'', hrun, hlast⟩ := hnext a s' hact hmoves hvalid' hvalid'
  refine ⟨b, s'', ?_, hmoves.trans hlast⟩
  rw [Run.bind_run, hact]
  exact hrun

theorem step {a : α} {next : α → Run β} {post' : β → Multiset Holding} (hact : act s = .ok a s₁)
    (h : s.heap.Valid (own + rest) → Moves lent s own s₁ own₁)
    (hnext : s₁.heap.Valid (own₁ + rest) → Gives rest lent s₁ own₁ (next a) post') :
    Gives rest lent s own (act >>= next) post' :=
  bind (of_ok hact h : Gives rest lent s own act fun _ => own₁) fun b s' hact' _ hvalid => by
    rw [hact] at hact'
    cases hact'
    exact hnext hvalid

theorem inspect {f : Heap → α} {next : α → Run β} {post' : β → Multiset Holding}
    (h : Gives rest lent s own (next (f s.heap)) post') :
    Gives rest lent s own (Run.inspect f >>= next) post' :=
  step rfl (fun _ => .refl ..) fun _ => h

theorem conv {own' : Multiset Holding} {post' : α → Multiset Holding}
    (h : Gives rest lent s own' act post') (hown : own = own') (hpost : ∀ a, post a = post' a) :
    Gives rest lent s own act post := by
  obtain rfl : post = post' := funext hpost
  rwa [hown]

theorem after (hmoves : Moves lent s own s own₁) (h : Gives rest lent s own₁ act post) :
    Gives rest lent s own act post := by
  intro hvalid
  obtain ⟨a, s', hact, hrest⟩ := h (hmoves.valid rest hvalid)
  exact ⟨a, s', hact, hmoves.trans hrest⟩

theorem frame (other : Multiset Holding)
    (h : Gives (other + rest) (lent ∪ lending other) s own act post) :
    Gives rest lent s (own + other) act fun a => post a + other := by
  intro hvalid
  rw [add_assoc] at hvalid
  obtain ⟨a, s', hact, hmoves⟩ := h hvalid
  exact ⟨a, s', hact, .frame other hmoves⟩

theorem map {f : α → β} {post' : β → Multiset Holding} (h : Gives rest lent s own act post)
    (hpost : ∀ a, post a = post' (f a)) :
    Gives rest lent s own (do let a ← act; Pure.pure (f a)) post' :=
  bind h fun a _ _ _ _ => pure (f a) (hpost a)

end Gives

end GraphReduction
