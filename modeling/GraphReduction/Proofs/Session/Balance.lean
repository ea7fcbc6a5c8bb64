import Mathlib
import GraphReduction.Session.Basic
import GraphReduction.Proofs.Moves.Does

/-! Balanced computations: whatever way one ends, everything that is held is accounted for. The rules
are the same for a machine and for a session; a session holds what is in its registers besides. -/
namespace GraphReduction

open Heap

/-- A computation that holds `own` ends with `post` of its result, or with `left` if it has none.
`Good` says of a state that the counts are exact while so much is held. -/
def Balances {ε σ α : Type} (Good : Multiset Holding → σ → Prop) (s : σ) (own : Multiset Holding)
    (act : EStateM ε σ α) (post : α → Multiset Holding) (left : Multiset Holding) : Prop :=
  Good own s →
    match act s with
    | .ok a s' => Good (post a) s'
    | .error _ s' => Good left s'

/-- A machine with exact counts, where `rest` is held by others. -/
def Machine.Good (rest own : Multiset Holding) (s : Machine) : Prop := s.heap.Valid (own + rest)

namespace Balances

variable {ε σ α β : Type} {Good : Multiset Holding → σ → Prop} {s s₁ : σ}
  {own own₁ left mid : Multiset Holding} {act : EStateM ε σ α} {post : α → Multiset Holding}

theorem bind_run (act : EStateM ε σ α) (next : α → EStateM ε σ β) (s : σ) :
    (act >>= next) s =
      match act s with
      | .ok a s => next a s
      | .error e s => .error e s := by
  show EStateM.bind act next s = _
  delta EStateM.bind
  cases act s <;> rfl

theorem tryCatch_run (act : EStateM ε σ α) (handle : ε → EStateM ε σ α) (s : σ) :
    MonadExcept.tryCatch act handle s =
      match act s with
      | .ok a s => .ok a s
      | .error e s => handle e s := by
  show EStateM.tryCatch act handle s = _
  delta EStateM.tryCatch
  cases act s <;> rfl

theorem given (h : Good own s → Balances Good s own act post left) :
    Balances Good s own act post left :=
  fun hgood => h hgood hgood

theorem of_ok {a : α} (hact : act s = .ok a s₁) (h : Good own s → Good (post a) s₁) :
    Balances Good s own act post left := by
  intro hgood
  rw [hact]
  exact h hgood

theorem of_error {e : ε} (hact : act s = .error e s₁) (h : Good own s → Good left s₁) :
    Balances Good s own act post left := by
  intro hgood
  rw [hact]
  exact h hgood

theorem pure (a : α) (h : own = post a) :
    Balances Good s own (Pure.pure a : EStateM ε σ α) post left :=
  of_ok rfl fun hgood => h ▸ hgood

theorem throw {e : ε} (h : own = left) :
    Balances Good s own (MonadExcept.throw e : EStateM ε σ α) post left :=
  of_error rfl fun hgood => h ▸ hgood

theorem bind {next : α → EStateM ε σ β} {post' : β → Multiset Holding}
    (h : Balances Good s own act post left)
    (hnext : ∀ a s', act s = .ok a s' → Balances Good s' (post a) (next a) post' left) :
    Balances Good s own (act >>= next) post' left := by
  intro hgood
  have hfirst := h hgood
  rw [bind_run]
  cases hact : act s with
  | error e s' => simpa [hact] using hfirst
  | ok a s' =>
    rw [hact] at hfirst
    exact hnext a s' hact hfirst

theorem step {a : α} {next : α → EStateM ε σ β} {post' : β → Multiset Holding}
    (hact : act s = .ok a s₁) (h : Good own s → Good own₁ s₁)
    (hnext : Balances Good s₁ own₁ (next a) post' left) :
    Balances Good s own (act >>= next) post' left :=
  bind (of_ok hact h : Balances Good s own act (fun _ => own₁) left) fun b s' hact' => by
    rw [hact] at hact'
    cases hact'
    exact hnext

theorem tryCatch {handle : ε → EStateM ε σ α} (h : Balances Good s own act post mid)
    (hcatch : ∀ e s', act s = .error e s' → Balances Good s' mid (handle e) post left) :
    Balances Good s own (MonadExcept.tryCatch act handle) post left := by
  intro hgood
  have hfirst := h hgood
  rw [tryCatch_run]
  cases hact : act s with
  | ok a s' => simpa [hact] using hfirst
  | error e s' =>
    rw [hact] at hfirst
    exact hcatch e s' hact hfirst

theorem conv {own' left' : Multiset Holding} {post' : α → Multiset Holding}
    (h : Balances Good s own' act post' left') (hown : own = own') (hpost : ∀ a, post a = post' a)
    (hleft : left = left') : Balances Good s own act post left := by
  obtain rfl : post = post' := funext hpost
  rwa [hown, hleft]

end Balances

section Machine

variable {α : Type} {rest own left : Multiset Holding} {lent : Set Edge} {s : Machine}
  {act : Run α} {post : α → Multiset Holding}

theorem Does.balances (h : Does rest lent s own act post left) :
    Balances (Machine.Good rest) s own act post left := by
  intro hgood
  have hmoves := h hgood
  cases hact : act s with
  | ok a s' =>
    rw [hact] at hmoves
    exact hmoves.valid rest hgood
  | error signal s' =>
    rw [hact] at hmoves
    have hvalid := hmoves.valid rest hgood
    cases signal with
    | raised e =>
      rw [Signal.holdings, Multiset.singleton_add, Multiset.cons_add] at hvalid
      exact (Valid.error e).mp hvalid
    | panicked payload => simpa [Signal.holdings, Machine.Good] using hvalid
    | exhausted => simpa [Signal.holdings, Machine.Good] using hvalid

end Machine

end GraphReduction
