import Mathlib
import GraphReduction.Machine.Thunk
import GraphReduction.Proofs.Moves.Does

/-! What the operations of the machine do: each is a course of moves, so each touches only what it
can get hold of. -/
namespace GraphReduction

open Heap

variable {α : Type} {rest : Multiset Holding} {lent : Set Edge} {s s₁ : Machine}
  {own own₁ : Multiset Holding}

def optional (h? : Option Handle) : Multiset Holding := ↑(h?.toList.map Handle.holding)

@[simp] theorem optional_none : optional none = 0 := rfl

@[simp] theorem optional_some (h : Handle) : optional (some h) = {h.holding} := rfl

namespace Run

theorem newException_gives {e : EvalError} (h : Moves lent s own₁ s (.error e ::ₘ own)) :
    Gives rest lent s own₁ (newException e) fun r => r.holding ::ₘ own := by
  refine .of_ok rfl fun _ => h.trans ?_
  exact (Moves.newObject (.exception e) ⟨by simp, by simp⟩).conv
    (by rw [ObjectKind.holdings_exception, Multiset.singleton_add]) rfl

theorem share_gives {h : Handle} (haccess : s.heap.Access lent own h.holding)
    (hlive : s.heap.IsLive h.edge) :
    Gives rest lent s own (share h) fun r => r.holding ::ₘ own :=
  .of_ok rfl fun _ => .share haccess hlive

theorem isAlive_iff {m : Heap} {o : ObjectId} : m.isAlive o = true ↔ m.IsLive (.object o) := Iff.rfl

theorem upgrade_gives {o : ObjectId} (h : s.heap.Access lent own (.weak o)) :
    Gives rest lent s own (upgrade o) fun r => r.holding ::ₘ own := by
  refine .inspect ?_
  cases halive : s.heap.isAlive o with
  | true => exact .of_ok rfl fun _ => .upgrade o h halive
  | false => exact newException_gives (.dangled o h (by simp [← isAlive_iff, halive]))

end Run

namespace Knot

variable {o : ObjectId} {k : Knot}

theorem value?_gives (hnode : s.heap.Access lent own (.strong (.object o)))
    (hkind : s.heap.kindOf? o = some (.application (.knot k))) :
    Gives rest lent s own k.value? fun h? => optional h? + own := by
  cases k with
  | unresolved => exact .pure none (by simp)
  | weak p =>
    refine .map (Run.upgrade_gives (hnode.of_kind hkind (by simp) (by simp))) fun r => ?_
    rw [optional_some, Multiset.singleton_add]
  | strong h =>
    intro hvalid
    have hlive : s.heap.IsLive h.edge := hvalid.counted.live_of_kind hkind (by simp [Handle.holding])
    refine Gives.map (Run.share_gives (hnode.of_kind hkind (by simp) (by simp)) hlive)
      (fun r => ?_) hvalid
    rw [optional_some, Multiset.singleton_add]

theorem reduced_gives (hnode : s.heap.Access lent own (.strong (.object o)))
    (hkind : s.heap.kindOf? o = some (.application (.knot k))) :
    Gives rest lent s own k.reduced fun r => r.holding ::ₘ own := by
  refine .bind (value?_gives hnode hkind) fun h? s' _ _ _ => ?_
  cases h? with
  | none =>
    rw [optional_none, zero_add]
    exact Run.newException_gives (.raised .blackHole (by simp [EvalError.releasedSelfReference]))
  | some h => exact .pure h.asCached (by simp)

end Knot

namespace Heap

variable {m : Heap} {h : Handle}

theorem kindOf?_of_application? {a : Application} (ha : m.application? h = some a) :
    m.kindOf? h.target = some (.application a) := by
  simp only [application?, plainKind?] at ha
  split at ha
  · obtain ⟨kind, hkind, ha⟩ := Option.bind_eq_some_iff.mp ha
    cases kind with
    | application b =>
      cases ha
      exact hkind
    | value v => cases ha
    | closure c => cases ha
    | exception e => cases ha
  · cases ha

theorem kindOf?_of_closure? {c : Closure} (hc : m.closure? h = some c) :
    m.kindOf? h.target = some (.closure c) := by
  simp only [closure?, plainKind?] at hc
  split at hc
  · obtain ⟨kind, hkind, hc⟩ := Option.bind_eq_some_iff.mp hc
    cases kind with
    | closure d =>
      cases hc
      exact hkind
    | value v => cases hc
    | application a => cases hc
    | exception e => cases hc
  · cases hc

theorem closure?_of_kindOf? {c : Closure} (htag : h.tag = .plain)
    (hkind : m.kindOf? h.target = some (.closure c)) : m.closure? h = some c := by
  have hkind' : m.kind? h = some (.closure c) := hkind
  simp [closure?, plainKind?, htag, hkind', ObjectKind.closure?]

theorem kindOf?_of_boxed? {v : Boxed} (hv : m.boxed? h = some v) :
    m.kindOf? h.target = some (.value v) := by
  simp only [boxed?, plainKind?] at hv
  split at hv
  · obtain ⟨kind, hkind, hv⟩ := Option.bind_eq_some_iff.mp hv
    cases kind with
    | value w =>
      cases hv
      exact hkind
    | closure c => cases hv
    | application a => cases hv
    | exception e => cases hv
  · cases hv

theorem kindOf?_of_error? {e : EvalError} (he : m.error? h = some e) :
    m.kindOf? h.target = some (.exception e) := by
  simp only [error?] at he
  split at he
  · obtain ⟨kind, hkind, he⟩ := Option.bind_eq_some_iff.mp he
    cases kind with
    | exception d =>
      cases he
      exact hkind
    | value v => cases he
    | closure c => cases he
    | application a => cases he
  · cases he

end Heap

namespace Run

variable {h : Handle} {left : Multiset Holding}

theorem badApply_ne (found : String) :
    EvalError.badApply found ≠ .releasedSelfReference := by
  simp [EvalError.releasedSelfReference]

theorem tooManyArguments_ne (name : String) :
    EvalError.tooManyArguments name ≠ .releasedSelfReference := by
  simp [EvalError.releasedSelfReference]

/-- A description that is not the text of a type starts with a letter of its own. -/
theorem badFix_ne {text : String} (h : text.toList.head? ≠ some 'r') :
    EvalError.badFix text ≠ .releasedSelfReference := by
  rintro heq
  cases heq
  exact h rfl

theorem describe_moves {o : ObjectId} {kind : ObjectKind}
    (haccess : s.heap.Access lent own (.strong (.object o))) (hkind : s.heap.kindOf? o = some kind) :
    Moves lent s own s (.error (.badFix (s.heap.describeKind kind)) ::ₘ own) := by
  cases kind with
  | value v => exact .copied _ (haccess.of_kind hkind (by simp [describeKind]) (by simp))
  | closure c => exact .raised _ (badFix_ne (by simp [describeKind]))
  | application a => exact .raised _ (badFix_ne (by simp [describeKind]))
  | exception e => exact .raised _ (badFix_ne (by simp [describeKind]))

theorem kindOf?_of_held {m : Heap} (hvalid : m.Valid (own + rest))
    (hheld : h.holding ∈ own + rest) : ∃ kind, m.kindOf? h.target = some kind := by
  have hlive := hvalid.counted.live h.edge (Multiset.mem_add.mpr (.inr hheld))
  obtain ⟨x, hx⟩ := Option.isSome_iff_exists.mp hlive
  exact ⟨x.kind, by simp [kindOf?, hx]⟩

theorem describeHandle_moves (haccess : s.heap.Access lent own h.holding)
    (hvalid : s.heap.Valid (own + rest)) (hheld : h.holding ∈ own + rest) :
    Moves lent s own s (.error (.badFix (s.heap.describe h)) ::ₘ own) := by
  obtain ⟨kind, hkind⟩ := kindOf?_of_held hvalid hheld
  have hkind' : s.heap.kind? h = some kind := hkind
  have hdescribe : s.heap.describe h = s.heap.describeKind kind := by simp [describe, hkind']
  rw [hdescribe]
  exact describe_moves haccess hkind

theorem intoResult_does :
    Does rest lent s (h.holding ::ₘ own) (intoResult h) (fun r => r.holding ::ₘ own) own := by
  refine .inspect ?_
  cases herror : s.heap.error? h with
  | none => exact .pure h.untagged rfl
  | some e =>
    have hown : s.heap.Access lent (h.holding ::ₘ own) h.holding := .own (Multiset.mem_cons_self _ _)
    have htoken : s.heap.Access lent (h.holding ::ₘ own) (.error e) :=
      hown.of_kind (kindOf?_of_error? herror) (by simp) (by simp)
    refine .step rfl (fun _ => (Moves.copied e htoken).trans
      ((Moves.release s h).conv (Multiset.cons_swap _ _ _) rfl)) fun _ => ?_
    exact .of_error rfl fun _ => .refl ..

end Run

namespace Moves

variable {own' : Multiset Holding}

theorem apart (h : Moves ∅ s own s₁ own') (other : Multiset Holding) :
    Moves lent s (own + other) s₁ (own' + other) :=
  .frame other (h.mono (Set.empty_subset _))

/-- A part of a closure that is lent can keep what was computed over it alone. -/
theorem under {cell : Edge} (h : Moves {cell} s 0 s₁ own') (hcell : cell ∈ lent)
    (other : Multiset Holding) : Moves lent s other s₁ (own' + other) := by
  have hframed : Moves lent s (0 + other) s₁ (own' + other) :=
    .frame other (h.mono (by simpa using .inl hcell))
  rwa [zero_add] at hframed

end Moves

namespace ThunkId

open Run

variable {t : ThunkId} {h r : Handle} {reduce : Reducer}

theorem state?_run (t : ThunkId) (s : Machine) : t.state? s = .ok (s.heap.stateOf? t) s := rfl

theorem peek_gives (hlent : .thunk t ∈ lent) (hlive : s.heap.IsLive (.thunk t)) :
    Gives rest lent s own t.peek fun r => r.holding ::ₘ own := by
  have haccess : s.heap.Access lent own (.strong (.thunk t)) := .lent hlent
  refine .step (state?_run t s) (fun _ => .refl ..) fun hvalid => ?_
  have hpart : ∀ state part, s.heap.stateOf? t = some state → .strong part ∈ state.holdings →
      s.heap.IsLive part := fun state part hstate hpart =>
    hvalid.counted.live_of_state hstate hpart
  obtain ⟨x, hx⟩ := Option.isSome_iff_exists.mp hlive
  have hstate : s.heap.stateOf? t = some x.state := by simp [stateOf?, hx]
  rw [hstate]
  cases hcontent : x.state with
  | pending p =>
    rw [hcontent] at hstate
    exact share_gives (haccess.of_state hstate (by simp)) (hpart _ _ hstate (by simp [Handle.holding]))
  | forced p =>
    rw [hcontent] at hstate
    exact share_gives (haccess.of_state hstate (by simp)) (hpart _ _ hstate (by simp [Handle.holding]))
  | recursive o =>
    rw [hcontent] at hstate
    exact upgrade_gives (haccess.of_state hstate (by simp))

theorem takeSuspended (hlent : .thunk t ∈ lent) (hstate : s.heap.stateOf? t = some (.pending h))
    (hvalid : s.heap.Valid (own + rest)) :
    Moves lent s own (s.on (·.retain h)) (h.holding ::ₘ own) :=
  .share (Access.of_state (.lent hlent) hstate (by simp))
    (hvalid.counted.live_of_state hstate (by simp [Handle.holding]))

/-- What was computed from the suspended handle alone is kept, or gives way to what was kept in the
meantime. -/
theorem keep_gives (hlent : .thunk t ∈ lent) (hstate : s.heap.stateOf? t = some (.pending h))
    (hknot : s.heap.isKnot h = false)
    (hinner : Moves ∅ (s.on (·.retain h)) {h.holding} s₁ {r.holding, h.holding})
    (hvalid : s.heap.Valid (own + rest)) :
    ∃ a s₂, t.keep r s₁ = .ok a s₂ ∧ Moves lent s own s₂ (a.holding ::ₘ h.holding ::ₘ own) := by
  have hwhole : Moves lent s own s₁ (r.holding ::ₘ h.holding ::ₘ own) := by
    refine (takeSuspended hlent hstate hvalid).trans ((hinner.apart own).conv ?_ ?_)
    · rw [Multiset.singleton_add]
    · simp
  have hvalid₁ := hwhole.valid rest hvalid
  rw [keep, Run.bind_run, state?_run]
  dsimp only
  rcases hstate₁ : s₁.heap.stateOf? t with _ | x | x | x
  · exact ⟨r, s₁, rfl, hwhole⟩
  · refine ⟨r, _, rfl, ?_⟩
    have hkept : Moves ∅ (s.on (·.retain h)) {h.holding} (s₁.on (·.retain r))
        (r.holding ::ₘ {r.holding, h.holding}) :=
      hinner.trans (.share (.own (by simp)) (hvalid₁.counted.live _ (by simp [Handle.holding])))
    have hmemo := (Moves.memoThunk hstate hknot hkept hstate₁).under hlent own
    refine hmemo.trans ((Moves.release _ x).conv ?_ rfl)
    simp
  · have hfirst : s₁.heap.Access lent (r.holding ::ₘ h.holding ::ₘ own) x.holding :=
      Access.of_state (.lent hlent) hstate₁ (by simp)
    have hlive : s₁.heap.IsLive x.edge :=
      hvalid₁.counted.live_of_state hstate₁ (by simp [Handle.holding])
    refine ⟨x, _, rfl, hwhole.trans ((Moves.share hfirst hlive).trans ?_)⟩
    exact (Moves.release _ r).conv (Multiset.cons_swap _ _ _) rfl
  · exact ⟨r, s₁, rfl, hwhole⟩

theorem force_does (hsound : reduce.Sound) (hlent : .thunk t ∈ lent)
    (hlive : s.heap.IsLive (.thunk t)) :
    Does rest lent s own (t.force reduce) (fun r => r.holding ::ₘ own) own := by
  have haccess : s.heap.Access lent own (.strong (.thunk t)) := .lent hlent
  refine .step (state?_run t s) (fun _ => .refl ..) fun hvalid => ?_
  obtain ⟨x, hx⟩ := Option.isSome_iff_exists.mp hlive
  have hstate : s.heap.stateOf? t = some x.state := by simp [stateOf?, hx]
  rw [hstate]
  cases hcontent : x.state with
  | forced p =>
    rw [hcontent] at hstate
    exact (share_gives (haccess.of_state hstate (by simp))
      (hvalid.counted.live_of_state hstate (by simp [Handle.holding]))).does
  | recursive o =>
    rw [hcontent] at hstate
    exact (upgrade_gives (haccess.of_state hstate (by simp))).does
  | pending h =>
    rw [hcontent] at hstate
    have hsame : (s.heap.retain h).isKnot h = s.heap.isKnot h :=
      isKnot_congr (contents_retainEdge s.heap h.edge) h
    have hbegin := takeSuspended hlent hstate hvalid
    cases hknot : s.heap.isKnot h with
    | true =>
      refine .step rfl (fun _ => hbegin) fun _ => ?_
      refine .releasing (.inspect (.bind (hsound.borrowed (Multiset.mem_cons_self _ _)
        (Set.mem_insert _ _)) fun r s₁ _ _ _ => ?_))
      dsimp only
      rw [hsame, hknot]
      exact .pure r rfl
    | false =>
      -- what the reducer does, it does with the suspended handle alone
      have hreduce : Does (own + rest) ∅ (s.on (·.retain h)) {h.holding} (reduce h)
        (fun r => {r.holding, h.holding}) {h.holding} := hsound.owned (Multiset.mem_singleton_self _)
      have hinner := hreduce (by simpa using hbegin.valid rest hvalid)
      cases hrun : reduce h { s with heap := s.heap.retain h } with
      | error signal s₁ =>
        rw [Machine.on, hrun] at hinner
        refine .of_error (?_ : _ = EStateM.Result.error signal (s₁.on (·.release h))) fun _ => ?_
        · simp only [Run.bind_run, share_run, releasing_run, inspect_run, hrun]
          rfl
        · refine (hbegin.trans ((hinner.apart own).conv ?_ rfl)).trans
            ((Moves.release s₁ h).conv ?_ rfl)
          · rw [Multiset.singleton_add]
          · rw [add_comm signal.holdings, add_assoc, Multiset.singleton_add]
      | ok r s₁ =>
        rw [Machine.on, hrun] at hinner
        obtain ⟨a, s₂, hkeep, hmoves⟩ := keep_gives hlent hstate hknot hinner hvalid
        refine .of_ok (?_ : _ = EStateM.Result.ok a (s₂.on (·.release h))) fun _ => ?_
        · simp only [Run.bind_run, share_run, releasing_run, inspect_run, hrun, hsame, hknot,
            hkeep, Bool.false_eq_true, if_false]
          rfl
        · exact hmoves.trans ((Moves.release s₂ h).conv (Multiset.cons_swap _ _ _) rfl)

end ThunkId

end GraphReduction
