import Mathlib
import GraphReduction.Session.Run
import GraphReduction.Proofs.Session.Producers

/-! A command leaves a session as it found it: whether it answers or fails, everything that is held
is in a register again, and each reference is counted where it leads to. -/
namespace GraphReduction

open Heap

namespace Step

variable {s : Session} {own left : Multiset Holding} {h : Handle}

theorem showAndKeep_balances (into : OptionalPart String) (h : Handle) :
    Balances Session.Good s ({h.holding} + own) (showAndKeep into h) (fun _ => own) own :=
  .step rfl id (.bind (keep_balances into h) fun _ _ _ => .pure _ rfl)

theorem lookAt_keeps (r : RegisterUse) : Keeps s own (lookAt r) := by
  cases r with
  | handle x => exact borrowing_keeps fun h s' own' _ _ => .pure () rfl
  | plainHandle name => exact .bind (handleNamed_keeps name) fun _ _ _ => .pure _ rfl
  | thunk name => exact .bind (thunkIn_keeps name) fun _ _ _ => .pure _ rfl
  | weak name => exact .bind (weakIn_keeps name) fun _ _ _ => .pure _ rfl

theorem lookAtAll_keeps (registers : List RegisterUse) : Keeps s own (registers.forM lookAt) := by
  induction registers generalizing s with
  | nil => exact .pure () rfl
  | cons r registers ih => exact .bind (lookAt_keeps r) fun _ s₁ _ => ih

theorem newThunk_balances (kind : ThunkChoice) (hheld : s.Holds own h) :
    Balances Session.Good s own (newThunk kind h) (fun t => {.strong (.thunk t)} + own) own := by
  cases kind with
  | pending =>
    refine .bind (share_balances fun hgood => hgood.isLive hheld) fun h s₁ _ => ?_
    exact run_balances ((Run.newThunk_balances (.pending h)).conv (by simp) (fun _ => rfl) rfl)
  | forced =>
    refine .bind (share_balances fun hgood => hgood.isLive hheld) fun h s₁ _ => ?_
    exact run_balances ((Run.newThunk_balances (.forced h)).conv (by simp) (fun _ => rfl) rfl)
  | recursive =>
    refine .given fun hgood => inspect_bind ?_
    split
    · exact .throw rfl
    · refine run_balances (.bind (Run.retainWeak_balances (hgood.isLive hheld)) fun _ s₁ _ => ?_)
      exact (Run.newThunk_balances (.recursive h.target)).conv (by simp) (fun _ => rfl) rfl

theorem shareThunk_balances {t : ThunkId} (hlive : s.machine.heap.IsLive (.thunk t)) :
    Balances Session.Good s own (shareThunk t) (fun t => {.strong (.thunk t)} + own) own := by
  refine run_balances (.of_ok rfl fun hgood => ?_)
  rw [Machine.Good, Multiset.singleton_add, Multiset.cons_add]
  exact Valid.retainEdge hgood hlive

theorem thunkInfo_keeps (t : ThunkId) : Keeps s own (thunkInfo t) :=
  .of_ok rfl id

theorem releaseAll_givesBack {α : Type} {release : α → Step Unit} {hold : α → Holding}
    (hrelease : ∀ a, GivesBack (release a) {hold a}) (entries : List α) :
    GivesBack (entries.forM release) ↑(entries.map hold) := by
  intro s own left
  induction entries generalizing s with
  | nil => exact .pure () (by simp)
  | cons a entries ih =>
    refine .bind ((hrelease a s (↑(entries.map hold) + own) left).conv ?_ (fun _ => rfl) rfl)
      fun _ s₁ _ => ih s₁
    simp [← Multiset.cons_coe]

theorem clear_keeps : Keeps s own clear := by
  have hempty (hgood : s.Good own) : ({ s with handles := [], thunks := [] } : Session).Good
      (s.thunks.holdings (fun t => .strong (.thunk t)) +
        (s.handles.holdings Handle.holding + own)) := by
    refine ⟨?_, RegisterFile.orderly_nil, RegisterFile.orderly_nil, hgood.weaks⟩
    convert hgood.heap using 1
    simp only [Session.holdings, RegisterFile.holdings_nil]
    abel
  refine get_bind (.step rfl hempty ?_)
  refine .bind (releaseAll_givesBack (fun entry => releaseThunk_givesBack entry.2) s.thunks _ _ _)
    fun _ s₁ _ => ?_
  exact (releaseAll_givesBack (fun entry => release_givesBack entry.2) s.handles).keeps

theorem view_keeps (hheld : s.Holds own h) : Keeps s own (run (Run.view h)) :=
  (run_borrowed (Run.view_gives (Set.mem_univ _) hheld).does).conv rfl
    (fun _ => (zero_add own).symm) rfl

theorem typeOf_keeps (h : Handle) : Keeps s own (run (Run.typeOf h)) :=
  run_balances (.of_ok rfl id)

end Step

namespace Command

open Step

variable {s : Session} {own : Multiset Holding}

theorem run_keeps (c : Command) : Keeps s own c.run := by
  cases c with
  | produce p into =>
    exact .bind p.run_yields fun h s₁ _ =>
      .bind (showAndKeep_balances into h) fun _ _ _ => .pure _ rfl
  | bind f x into =>
    refine .bind (taking_yields f) fun f s₁ _ => ?_
    refine .bind (onFailure_balances (release_givesBack f) (taking_yields x)) fun x s₂ _ => ?_
    refine .bind (run_does (Run.applyArgument_does.conv ?_ (fun r => Multiset.singleton_add _ _) rfl))
      fun h s₃ _ => .bind (showAndKeep_balances into h) fun _ _ _ => .pure _ rfl
    simp
  | resolve v x =>
    refine .bind (taking_yields v) fun v s₁ _ => cleaningUp_balances (release_givesBack v) ?_
    refine borrowing_keeps fun h s' own' hle hheld => applicationOf_bind fun a ha => ?_
    refine .given fun hgood => .bind (run_balances (Run.resolve_balances h.target ?_)) fun _ s₂ _ =>
      .step rfl id (.pure _ rfl)
    exact hgood.isLive (Multiset.mem_add.mpr (.inl (Multiset.mem_of_le hle (by simp))))
  | options => exact get_bind (.pure _ rfl)
  | thunk kind x into? =>
    refine borrowing_keeps fun h s' own' _ hheld => .bind (newThunk_balances kind hheld)
      fun t s₁ _ => inspect_bind (.bind (keepThunk_balances into? t) fun _ _ _ => .pure _ rfl)
  | argumentThunk x i into? =>
    refine borrowing_keeps fun h s' own' _ hheld => argumentOf_bind fun t hlive =>
      .bind (shareThunk_balances hlive) fun t s₁ _ =>
        inspect_bind (.bind (keepThunk_balances into? t) fun _ _ _ => .pure _ rfl)
  | thunkInfo t => exact .bind (thunkIn_keeps t) fun i s₁ _ => thunkInfo_keeps i
  | sameThunk a b =>
    exact .bind (thunkIn_keeps a) fun i s₁ _ => .bind (thunkIn_keeps b) fun j s₂ _ => .pure _ rfl
  | dropThunk t =>
    refine .bind (thunkIn_keeps t) fun i s₁ hrun => ?_
    obtain ⟨rfl, hlookup⟩ := thunkIn_run hrun
    refine modify_bind (fun hgood => hgood.eraseThunk hlookup) ?_
    rw [← Multiset.singleton_add]
    exact (releaseThunk_givesBack i).bind fun _ => .pure _ rfl
  | view x =>
    exact borrowing_keeps fun h s' own' _ hheld => .bind (view_keeps hheld) fun _ _ _ => .pure _ rfl
  | refs x => exact borrowing_keeps fun h s' own' _ hheld => inspect_bind (.pure _ rfl)
  | same a b =>
    refine .bind (taking_yields a) fun h s₁ _ => cleaningUp_balances (release_givesBack h) ?_
    exact borrowing_keeps fun i s' own' _ _ => .pure _ rfl
  | weak x into? =>
    refine borrowing_keeps fun h s' own' _ hheld => inspect_bind ?_
    split
    · exact .pure _ rfl
    · refine .given fun hgood => .bind (run_balances
        (Run.retainWeak_balances (hgood.isLive hheld))) fun _ s₁ _ => ?_
      exact .bind (keepWeak_balances into? h.target) fun _ _ _ => .pure _ rfl
  | isAlive w => exact .bind (weakIn_keeps w) fun o s₁ _ => inspect_bind (.pure _ rfl)
  | typeOf x asEvalError =>
    refine borrowing_keeps fun h s' own' _ hheld => .bind (typeOf_keeps h) fun outcome s₁ _ => ?_
    cases outcome with
    | ok t => exact .pure _ rfl
    | error error => exact .throw rfl
  | drop name =>
    refine .bind (handleNamed_keeps name) fun h s₁ hrun => ?_
    obtain ⟨rfl, hlookup⟩ := handleNamed_run hrun
    refine modify_bind (fun hgood => hgood.eraseHandle hlookup) ?_
    rw [← Multiset.singleton_add]
    exact (release_givesBack h).bind fun _ => .pure _ rfl
  | clear => exact .bind clear_keeps fun _ _ _ => .pure _ rfl
  | drops => exact inspect_bind (.pure _ rfl)
  | malformed registers => exact .bind (lookAtAll_keeps registers) fun _ _ _ => .throw rfl

end Command

end GraphReduction
