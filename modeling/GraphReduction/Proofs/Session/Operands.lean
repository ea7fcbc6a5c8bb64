import Mathlib
import GraphReduction.Proofs.Moves.Machine
import GraphReduction.Proofs.Session.Registers

/-! What a command does with its operands and with its result. An operand that it borrows is held by
a register, or by the command if it was told to move it out; a result ends in a register or is given
back. -/
namespace GraphReduction

open Heap

namespace Session

variable {s : Session} {own : Multiset Holding} {h : Handle}

/-- A handle is held by a register or by the command that is running. -/
def Holds (s : Session) (own : Multiset Holding) (h : Handle) : Prop := h.holding ∈ own + s.holdings

theorem Good.isLive (hgood : s.Good own) (hheld : s.Holds own h) : s.machine.heap.IsLive h.edge :=
  hgood.heap.counted.live _ (Multiset.mem_add.mpr (.inr hheld))

theorem Holds.of_lookup {name : String} (hlookup : s.handles.lookup name = some h) :
    s.Holds own h := by
  have hmem := RegisterFile.mem_holdings Handle.holding hlookup
  simp [Holds, holdings, hmem]

theorem Good.isLive_thunk {t : ThunkId} {name : String} (hgood : s.Good own)
    (hlookup : s.thunks.lookup name = some t) : s.machine.heap.IsLive (.thunk t) := by
  have hmem := RegisterFile.mem_holdings (fun t => Holding.strong (.thunk t)) hlookup
  exact hgood.heap.counted.live _ (by simp [holdings, hmem])

end Session

namespace Step

variable {α β : Type} {s : Session} {own left : Multiset Holding} {post : α → Multiset Holding}
  {x : Operand} {h : Handle}

/-- A step that comes back with a reference, beside what is held anyway. -/
def Yields (s : Session) (own : Multiset Holding) (act : Step Handle) : Prop :=
  Balances Session.Good s own act (fun h => {h.holding} + own) own

def Keeps (s : Session) (own : Multiset Holding) (act : Step α) : Prop :=
  Balances Session.Good s own act (fun _ => own) own

theorem require_keeps (a? : Option α) (failure : Failure) : Keeps s own (require a? failure) := by
  cases a? with
  | none => exact .throw rfl
  | some a => exact .pure a rfl

theorem share_balances (hlive : s.Good own → s.machine.heap.IsLive h.edge) :
    Balances Session.Good s own (share h) (fun r => {r.holding} + own) left := by
  refine .given fun hgood => run_does (Does.conv ?_ rfl (fun _ => Multiset.singleton_add _ _) rfl)
  exact (Run.share_gives (.lent (Set.mem_univ _)) (hlive hgood)).does

/-! Operands -/

theorem handleIn_run (x : Operand) (s : Session) :
    handleIn x s =
      match s.handles.lookup x.register with
      | some h => .ok h (if x.moved then { s with handles := s.handles.erase x.register } else s)
      | none => .error (.noRegister x.text) s := by
  have hget : (get : Step Session) s = .ok s s := rfl
  simp only [handleIn, Balances.bind_run, hget]
  cases s.handles.lookup x.register with
  | none => rfl
  | some h => cases x.moved <;> rfl

theorem handleIn_balances (x : Operand) :
    Balances Session.Good s own (handleIn x) (fun h => x.taken h + own) own := by
  intro hgood
  rw [handleIn_run]
  cases hlookup : s.handles.lookup x.register with
  | none => exact hgood
  | some h =>
    cases hmoved : x.moved with
    | false => simpa [Operand.taken, hmoved] using hgood
    | true => simpa [Operand.taken, hmoved] using hgood.eraseHandle hlookup

theorem handleIn_holds (own : Multiset Holding) {s' : Session} (hrun : handleIn x s = .ok h s') :
    s'.Holds (x.taken h + own) h := by
  rw [handleIn_run] at hrun
  cases hlookup : s.handles.lookup x.register with
  | none => simp [hlookup] at hrun
  | some g =>
    rw [hlookup] at hrun
    cases hrun
    cases hmoved : x.moved with
    | false => simpa [hmoved] using Session.Holds.of_lookup hlookup
    | true => simp [Session.Holds, Operand.taken, hmoved]

theorem taking_yields (x : Operand) : Yields s own (taking x) := by
  refine .bind (handleIn_balances x) fun h s' hrun => ?_
  have hheld := handleIn_holds own hrun
  cases hmoved : x.moved with
  | true => exact .pure h (by simp [Operand.taken, hmoved])
  | false =>
    simp only [Operand.taken, hmoved, Bool.false_eq_true, if_false, zero_add] at hheld ⊢
    exact share_balances fun hgood => hgood.isLive hheld

theorem giveBack_taken (x : Operand) (h : Handle) :
    GivesBack (if x.moved then release h else pure ()) (x.taken h) := by
  intro s own left
  cases hmoved : x.moved with
  | true => simpa [Operand.taken, hmoved] using release_givesBack h s own left
  | false => exact .pure () (by simp [Operand.taken, hmoved])

theorem borrowing_balances {act : Handle → Step α} {made : α → Multiset Holding}
    (hact : ∀ h s' own', own ≤ own' → s'.Holds own' h →
      Balances Session.Good s' own' (act h) (fun a => made a + own') own') :
    Balances Session.Good s own (borrowing x act) (fun a => made a + own) own := by
  refine .bind (handleIn_balances x) fun h s' hrun => ?_
  have hinner := hact h s' (x.taken h + own) (Multiset.le_add_left _ _) (handleIn_holds own hrun)
  cases hmoved : x.moved with
  | true =>
    simp only [Operand.taken, hmoved, if_true] at hinner ⊢
    refine cleaningUp_balances (release_givesBack h) (hinner.conv rfl (fun a => ?_) rfl)
    rw [add_left_comm]
  | false =>
    simpa [Operand.taken, hmoved] using hinner

theorem borrowing_yields {act : Handle → Step Handle}
    (hact : ∀ h s' own', s'.Holds own' h → Yields s' own' (act h)) :
    Yields s own (borrowing x act) :=
  borrowing_balances fun h s' own' _ hheld => hact h s' own' hheld

theorem borrowing_keeps {act : Handle → Step α}
    (hact : ∀ h s' own', own ≤ own' → s'.Holds own' h → Keeps s' own' (act h)) :
    Keeps s own (borrowing x act) := by
  have hborrow : Balances Session.Good s own (borrowing x act) (fun _ => 0 + own) own :=
    borrowing_balances fun h s' own' hle hheld =>
      (hact h s' own' hle hheld).conv rfl (fun _ => zero_add own') rfl
  exact hborrow.conv rfl (fun _ => (zero_add own).symm) rfl

theorem handleNamed_keeps (name : String) : Keeps s own (handleNamed name) :=
  get_bind (require_keeps _ _)

theorem handleNamed_run {s' : Session} {name : String} (hrun : handleNamed name s = .ok h s') :
    s' = s ∧ s.handles.lookup name = some h := by
  simp only [handleNamed, Balances.bind_run] at hrun
  change require (s.handles.lookup name) _ s = _ at hrun
  cases hlookup : s.handles.lookup name with
  | none =>
    rw [hlookup] at hrun
    cases hrun
  | some g =>
    rw [hlookup] at hrun
    cases hrun
    exact ⟨rfl, rfl⟩

theorem thunkIn_keeps (name : String) : Keeps s own (thunkIn name) :=
  get_bind (require_keeps _ _)

theorem thunkIn_run {s' : Session} {name : String} {t : ThunkId}
    (hrun : thunkIn name s = .ok t s') : s' = s ∧ s.thunks.lookup name = some t := by
  simp only [thunkIn, Balances.bind_run] at hrun
  change require (s.thunks.lookup name) _ s = _ at hrun
  cases hlookup : s.thunks.lookup name with
  | none =>
    rw [hlookup] at hrun
    cases hrun
  | some g =>
    rw [hlookup] at hrun
    cases hrun
    exact ⟨rfl, rfl⟩

theorem weakIn_keeps (name : String) : Keeps s own (weakIn name) :=
  get_bind (require_keeps _ _)

/-! Results -/

theorem releaseThunk_givesBack (t : ThunkId) :
    GivesBack (run (Run.change (·.releaseThunk t))) {.strong (.thunk t)} := by
  intro s own left
  exact run_does (.of_ok rfl fun _ =>
    (Moves.releaseThunk s.machine t).conv (Multiset.singleton_add _ _) rfl)

theorem releaseWeak_givesBack (o : ObjectId) :
    GivesBack (run (Run.change (·.releaseWeak o))) {.weak o} := by
  intro s own left
  exact run_does (.of_ok rfl fun _ =>
    (Moves.releaseWeak o).conv (Multiset.singleton_add _ _) rfl)

theorem GivesBack.keeps {cleanUp : Step Unit} {gone : Multiset Holding}
    (hclean : GivesBack cleanUp gone) :
    Balances Session.Good s (gone + own) cleanUp (fun _ => own) left :=
  hclean s own left

theorem keep_balances (into : OptionalPart String) (h : Handle) :
    Balances Session.Good s ({h.holding} + own) (keep into h) (fun _ => own) own := by
  refine .bind (onFailure_balances (release_givesBack h) (require_keeps into.read? .malformed))
    fun name? s₁ _ => ?_
  cases name? with
  | none => exact (release_givesBack h).keeps
  | some name =>
    have hset (hgood : s₁.Good ({h.holding} + own)) := (by simpa using hgood :
      s₁.Good (h.holding ::ₘ own)).setHandle name
    refine get_bind (modify_bind hset ?_)
    cases s₁.handles.lookup name with
    | none => exact .pure () (by simp)
    | some old => exact (release_givesBack old).keeps

theorem keepThunk_balances (into? : Option String) (t : ThunkId) :
    Balances Session.Good s ({.strong (.thunk t)} + own) (keepThunk into? t) (fun _ => own)
      own := by
  refine .bind (onFailure_balances (releaseThunk_givesBack t) (require_keeps into? .malformed))
    fun name s₁ _ => ?_
  have hset (hgood : s₁.Good ({.strong (.thunk t)} + own)) := (by simpa using hgood :
    s₁.Good (.strong (.thunk t) ::ₘ own)).setThunk name
  refine get_bind (modify_bind hset ?_)
  cases s₁.thunks.lookup name with
  | none => exact .pure () (by simp)
  | some old => exact (releaseThunk_givesBack old).keeps

theorem keepWeak_balances (into? : Option String) (o : ObjectId) :
    Balances Session.Good s ({.weak o} + own) (keepWeak into? o) (fun _ => own) own := by
  refine .bind (onFailure_balances (releaseWeak_givesBack o) (require_keeps into? .malformed))
    fun name s₁ _ => ?_
  have hset (hgood : s₁.Good ({.weak o} + own)) := (by simpa using hgood :
    s₁.Good (.weak o ::ₘ own)).setWeak name
  refine get_bind (modify_bind hset ?_)
  cases s₁.weaks.lookup name with
  | none => exact .pure () (by simp)
  | some old => exact (releaseWeak_givesBack old).keeps

end Step

end GraphReduction
