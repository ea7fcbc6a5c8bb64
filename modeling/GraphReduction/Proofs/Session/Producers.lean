import Mathlib
import GraphReduction.Proofs.Session.Declare
import GraphReduction.Proofs.Session.Looking

/-! Commands that produce a handle come back with one reference more than before, or with none if
they fail, whatever they were told to move out. -/
namespace GraphReduction

open Heap

namespace Step

variable {α : Type} {s : Session} {own left : Multiset Holding} {post : α → Multiset Holding}
  {x : Operand} {h : Handle}

theorem run_yields {act : Run Handle}
    (hact : Does (own + s.holdings) Set.univ s.machine 0 act (fun r => r.holding ::ₘ 0) 0) :
    Yields s own (run act) :=
  run_borrowed hact

/-! Parts of what is at hand -/

theorem closureOf_bind {next : Closure → Step α}
    (hnext : ∀ c, s.machine.heap.closure? h = some c →
      Balances Session.Good s own (next c) post own) :
    Balances Session.Good s own (closureOf h >>= next) post own := by
  rw [closureOf, bind_assoc]
  exact inspect_bind (require_bind hnext)

theorem applicationOf_bind {next : Application → Step α}
    (hnext : ∀ a, s.machine.heap.application? h = some a →
      Balances Session.Good s own (next a) post own) :
    Balances Session.Good s own (applicationOf h >>= next) post own := by
  rw [applicationOf, bind_assoc]
  exact inspect_bind (require_bind hnext)

theorem argumentOf_bind {i : Nat} {next : ThunkId → Step α}
    (hnext : ∀ t, s.machine.heap.IsLive (.thunk t) →
      Balances Session.Good s own (next t) post own) :
    Balances Session.Good s own (argumentOf h i >>= next) post own := by
  rw [argumentOf, bind_assoc]
  refine .given fun hgood => closureOf_bind fun c hc => require_bind fun t ht => hnext t ?_
  have hslot := Closure.mem_arguments ht
  exact hgood.heap.counted.live_of_kind (kindOf?_of_closure? hc)
    (by simp [ObjectKind.holdings_closure, hslot])

theorem sharePart_yields {o : ObjectId} {kind : ObjectKind} {part : Handle}
    (hkind : s.machine.heap.kindOf? o = some kind) (hpart : part.holding ∈ kind.holdings) :
    Yields s own (share part) :=
  share_balances fun hgood => hgood.heap.counted.live_of_kind hkind hpart

theorem field_yields (h : Handle) (i : Nat) :
    Yields s own
      (do
        match ← run (Run.fieldOf? h i) with
        | some part => share part
        | none => throw .noField) := by
  refine .step rfl id ?_
  split
  · next part hpart =>
    split at hpart
    · cases hpart
    · obtain ⟨v, hv, hmem⟩ := Option.bind_eq_some_iff.mp hpart
      have hkind : s.machine.heap.kindOf? h.target = some (.value v) :=
        kindOf?_of_boxed? (h := h.untagged) hv
      refine sharePart_yields hkind ?_
      rw [ObjectKind.holdings_value]
      exact Multiset.mem_cons_of_mem (List.mem_map_of_mem (List.mem_of_getElem? hmem))
  · exact .throw rfl

theorem found_yields {act : Run (Option Handle)} {failure : Failure}
    (hact : Gives (own + s.holdings) Set.univ s.machine 0 act fun h? => optional h? + 0) :
    Yields s own (do require (← run act) failure) := by
  refine .bind (run_borrowed hact.does) fun h? s₁ _ => ?_
  cases h? with
  | none => exact .throw (by simp)
  | some r => exact .pure r (by simp)

/-! Nests -/

theorem nest_balances {f inner : Handle} (side? : Option NestSide) (count : Nat)
    (hheld : s.Holds own f) :
    Balances Session.Good s ({inner.holding} + own) (nest f side? count inner)
      (fun r => {r.holding} + own) own := by
  have hnone : Balances Session.Good s ({inner.holding} + own)
      (do
        release inner
        throw .malformed : Step Handle) (fun r => {r.holding} + own) own :=
    (release_givesBack inner).bind fun _ => .throw rfl
  cases count with
  | zero => exact .pure inner rfl
  | succ count =>
    cases side? with
    | none => exact hnone
    | some side =>
      exact (run_framed (nestLayers_does side (count + 1) hheld)).conv rfl (fun _ => rfl)
        (zero_add own).symm

/-! Writing -/

theorem writing_yields {v x : Operand} {act : Handle → Handle → Step Handle}
    (hact : ∀ v h s own, s.Holds own h → Balances Session.Good s ({v.holding} + own) (act v h)
      (fun r => {r.holding} + own) own) :
    Yields s own
      (do
        let v ← taking v
        let h ← onFailure (handleIn x) (release v)
        cleaningUp (act v h) (if x.moved then release h else pure ())) := by
  refine .bind (taking_yields v) fun v s₁ _ => ?_
  refine .bind (onFailure_balances (release_givesBack v) (handleIn_balances x))
    fun h s₂ hrun => cleaningUp_balances (giveBack_taken x h) ?_
  have hheld := handleIn_holds own (onFailure_ok hrun)
  refine (hact v h s₂ (x.taken h + own) hheld).conv ?_ (fun r => ?_) rfl
  · rw [add_left_comm]
  · rw [add_left_comm]

theorem closureOf_keeps (h : Handle) : Keeps s own (closureOf h) :=
  inspect_bind (require_keeps _ _)

theorem applicationOf_keeps (h : Handle) : Keeps s own (applicationOf h) :=
  inspect_bind (require_keeps _ _)

theorem closureOf_run {s' : Session} {c : Closure} (hrun : closureOf h s = .ok c s') :
    s' = s ∧ s.machine.heap.closure? h = some c := by
  have hinspect : closureOf h s = require (s.machine.heap.closure? h) .notClosure s := rfl
  rw [hinspect] at hrun
  cases hclosure : s.machine.heap.closure? h with
  | none =>
    rw [hclosure] at hrun
    cases hrun
  | some d =>
    rw [hclosure] at hrun
    cases hrun
    exact ⟨rfl, rfl⟩

theorem memoize_balances (v h : Handle) (hheld : s.Holds own h) :
    Balances Session.Good s ({v.holding} + own) (memoize v h) (fun r => {r.holding} + own) own := by
  refine .bind (onFailure_balances (release_givesBack v) (closureOf_keeps h)) fun c s₁ hrun => ?_
  obtain ⟨rfl, hclosure⟩ := closureOf_run (onFailure_ok hrun)
  have hkind := kindOf?_of_closure? hclosure
  have hset (hmemo : c.memo.result? = none) : Balances Session.Good s₁ ({v.holding} + own)
      (do
        let kept ← share v
        run (Run.change (·.setMemo h.target (.done kept)))
        pure v) (fun r => {r.holding} + own) own := by
    have hown : s₁.Holds ({v.holding} + own) v := by simp [Session.Holds]
    refine .bind (share_balances fun hgood => hgood.isLive hown) fun kept s₂ hshare => ?_
    cases hshare
    have hkept : (s₁.machine.heap.retain v).kindOf? h.target = _ :=
      (kindOf?_congr (contents_retainEdge s₁.machine.heap v.edge) h.target).trans hkind
    exact .bind (run_balances (Run.setMemo_balances hkept hmemo)) fun _ _ _ => .pure v rfl
  cases hmemo : c.memo with
  | empty => exact hset (by rw [hmemo]; rfl)
  | running => exact hset (by rw [hmemo]; rfl)
  | done kept =>
    refine .given fun hgood => .bind (release_givesBack v s₁ own own) fun _ s₂ hrelease => ?_
    cases hrelease
    have hvalid : s₁.machine.heap.Valid (v.holding ::ₘ (own + s₁.holdings)) := by
      simpa using hgood.heap
    refine sharePart_yields ((kindOf?_release hvalid hheld).trans hkind) ?_
    simp [ObjectKind.holdings_closure, hmemo, Memo.result?]

theorem invoke_yields {reduce : Reducer} (hsound : reduce.Sound) (hheld : s.Holds own h) :
    Yields s own (invoke reduce h) := by
  refine closureOf_bind fun c hc => .step rfl id (require_bind fun held hcombinator => ?_)
  have hserves : Serves (own + s.holdings) Set.univ s.machine.heap h.target c held.combinator.body :=
    ⟨hheld, .of_kind (kindOf?_of_closure? hc), Set.subset_univ _, held.combinator.body,
      Option.map_eq_some_iff.mpr ⟨held, hcombinator, rfl⟩, List.Subset.refl _, List.Subset.refl _⟩
  exact Step.run_yields (Body.run_does hsound held.combinator.body hserves)

end Step

namespace Producer

open Step

variable {s : Session} {own : Multiset Holding}

theorem run_yields (p : Producer) : Yields s own p.run := by
  cases p with
  | literal l =>
    cases l with
    | int n => exact Step.run_yields (Run.newInt_gives n).does
    | bool b => exact Step.run_yields (Run.newBool_gives b).does
    | str text => exact Step.run_yields (Run.newStr_gives text).does
  | primitive p => exact share_balances fun hgood => hgood.heap.library.live p
  | tracked counter =>
    exact run_balances (.bind (Run.mentionCounter_balances counter) fun _ _ _ =>
      (Run.newValue_balances .tracked (.tracked counter)).conv (by simp [Payload.handles])
        (fun _ => rfl) rfl)
  | pair a b =>
    refine .bind (taking_yields a) fun a s₁ _ => ?_
    refine .bind (onFailure_balances (release_givesBack a) (taking_yields b)) fun b s₂ _ => ?_
    refine run_balances ((Run.newValue_balances .pair (.pair a b)).conv ?_ (fun _ => rfl) rfl)
    simp [Payload.handles, ← Multiset.cons_coe]
  | box type payload? =>
    refine .bind (buildType_keeps type) fun type s₁ _ => require_bind fun l _ => ?_
    refine run_balances ((Run.newValue_balances type l.payload).conv ?_ (fun _ => rfl) rfl)
    cases l <;> simp [Literal.payload, Payload.handles]
  | declare d => exact declare_yields d
  | exception error => exact run_balances (Run.newException_balances error)
  | staticException error => exact run_balances (Run.newStaticException_balances error)
  | apply f x =>
    refine .bind (taking_yields f) fun f s₁ _ => ?_
    refine .bind (onFailure_balances (release_givesBack f) (taking_yields x)) fun x s₂ _ => ?_
    refine run_balances ((Run.newObject_balances (by simp)).conv ?_ (fun _ => rfl) rfl)
    simp
  | knot =>
    exact run_balances ((Run.newObject_balances (by simp)).conv (by simp) (fun _ => rfl) rfl)
  | nest f x count side? =>
    refine .bind (taking_yields f) fun f s₁ _ => cleaningUp_balances (release_givesBack f) ?_
    refine .bind (taking_yields x) fun x s₂ _ => ?_
    refine (nest_balances side? count (by simp [Session.Holds])).conv rfl (fun r => ?_) rfl
    rw [add_left_comm]
  | copy x => exact taking_yields x
  | untag x =>
    exact borrowing_yields fun h s' own' hheld => share_balances fun hgood => hgood.isLive hheld
  | clone x =>
    exact borrowing_yields fun h s' own' hheld =>
      Step.run_yields (Run.cloneObject_gives (Set.mem_univ _) hheld).does
  | intoResult x =>
    refine .bind (taking_yields x) fun h s₁ _ =>
      run_does (Run.intoResult_does.conv ?_ (fun r => ?_) rfl)
    · exact Multiset.singleton_add _ _
    · exact Multiset.singleton_add _ _
  | field x i => exact borrowing_yields fun h s' own' _ => field_yields h i
  | upgrade w =>
    refine .bind (weakIn_keeps w) fun o s₁ _ => inspect_bind ?_
    split
    · next halive => exact share_balances fun _ => halive
    · exact .throw rfl
  | bindSelf x =>
    exact borrowing_yields fun h s' own' hheld =>
      Step.run_yields (Run.bindSelf_does (Set.mem_univ _) hheld)
  | argument x i =>
    exact borrowing_yields fun h s' own' _ => argumentOf_bind fun t hlive =>
      Step.run_yields (ThunkId.peek_gives (Set.mem_univ _) hlive).does
  | memo x =>
    refine borrowing_yields fun h s' own' _ => closureOf_bind fun c hc => ?_
    cases hmemo : c.memo with
    | done kept =>
      refine sharePart_yields (kindOf?_of_closure? hc) ?_
      simp [ObjectKind.holdings_closure, hmemo, Memo.result?]
    | empty => exact .throw rfl
    | running => exact .throw rfl
  | memoize v x => exact writing_yields fun v h s own => memoize_balances v h
  | invoke reducer x =>
    exact borrowing_yields fun h s' own' hheld =>
      get_bind (invoke_yields (reducer.reducer_sound _) hheld)
  | store v x =>
    refine writing_yields fun v h s own _ => ?_
    exact .bind (onFailure_balances (release_givesBack v) (applicationOf_keeps h)) fun _ s₁ _ =>
      run_balances (Run.store_balances h.target v)
  | cached x =>
    exact borrowing_yields fun h s' own' _ => applicationOf_bind fun a ha =>
      found_yields (Application.cached?_gives (.lent (Set.mem_univ _)) (kindOf?_of_application? ha))
  | knotValue x =>
    exact borrowing_yields fun h s' own' _ => applicationOf_bind fun a ha =>
      found_yields
        (Application.knotValue?_gives (.lent (Set.mem_univ _)) (kindOf?_of_application? ha))
  | functionPart x =>
    refine borrowing_yields fun h s' own' _ => applicationOf_bind fun a ha => ?_
    cases a with
    | pending f x => exact sharePart_yields (kindOf?_of_application? ha) (by simp)
    | reduced r => exact .throw rfl
    | knot k => exact .throw rfl
  | argumentPart x =>
    refine borrowing_yields fun h s' own' _ => applicationOf_bind fun a ha => ?_
    cases a with
    | pending f x => exact sharePart_yields (kindOf?_of_application? ha) (by simp)
    | reduced r => exact .throw rfl
    | knot k => exact .throw rfl
  | eval x mode =>
    exact borrowing_yields fun h s' own' hheld => get_bind
      (Step.run_yields (mode.evaluate_sound _ _ _ _ h hheld (Set.mem_univ _)))
  | peek t =>
    refine .bind (thunkIn_keeps t) fun i s₁ hrun => .given fun hgood => ?_
    obtain ⟨rfl, hlookup⟩ := thunkIn_run hrun
    exact Step.run_yields (ThunkId.peek_gives (Set.mem_univ _) (hgood.isLive_thunk hlookup)).does
  | force t reducer =>
    refine .bind (thunkIn_keeps t) fun i s₁ hrun => .given fun hgood => get_bind ?_
    obtain ⟨rfl, hlookup⟩ := thunkIn_run hrun
    exact Step.run_yields (ThunkId.force_does (reducer.reducer_sound _) (Set.mem_univ _)
      (hgood.isLive_thunk hlookup))

end Producer

end GraphReduction
