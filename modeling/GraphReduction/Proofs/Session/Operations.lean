import Mathlib
import GraphReduction.Session.Look
import GraphReduction.Session.Produce
import GraphReduction.Proofs.Moves.Evaluator
import GraphReduction.Proofs.Session.Operands

/-! Operations that only a session starts. They write into cells that others may hold as well, or
bring about errors and contents that no body does, so they are not courses of moves; the counts are
exact after them all the same. -/
namespace GraphReduction

open Heap

variable {rest own own₁ left : Multiset Holding} {s : Machine}

namespace Run

/-! New cells -/

theorem newObject_balances {kind : ObjectKind} (hproper : ∀ c, kind = .closure c → c.Proper) :
    Balances (Machine.Good rest) s (kind.holdings + own) (newObject kind)
      (fun r => {r.holding} + own) left := by
  refine .of_ok rfl fun hgood => ?_
  rw [Machine.Good, add_assoc] at hgood
  rw [Machine.Good, Multiset.singleton_add, Multiset.cons_add]
  exact Valid.newObject hgood hproper

theorem newStatic_balances {kind : ObjectKind} (hproper : ∀ c, kind = .closure c → c.Proper) :
    Balances (Machine.Good rest) s (kind.holdings + own) (add (·.newStatic kind))
      (fun r => {r.holding} + own) left := by
  refine .of_ok rfl fun hgood => ?_
  rw [Machine.Good, add_assoc] at hgood
  rw [Machine.Good, Multiset.singleton_add, Multiset.cons_add]
  exact Valid.newStatic hgood hproper

theorem newThunk_balances (state : ThunkState) :
    Balances (Machine.Good rest) s (state.holdings + own) (newThunk state)
      (fun t => {.strong (.thunk t)} + own) left := by
  refine .of_ok rfl fun hgood => ?_
  rw [Machine.Good, add_assoc] at hgood
  rw [Machine.Good, Multiset.singleton_add, Multiset.cons_add]
  exact Valid.newThunk hgood

theorem errors_balances {α : Type} {act : Run α} {post : α → Multiset Holding}
    (errors : List EvalError)
    (h : Balances (Machine.Good rest) s (↑(errors.map Holding.error) + own) act post left) :
    Balances (Machine.Good rest) s own act post left := by
  intro hgood
  refine h ?_
  rw [Machine.Good, add_assoc]
  exact (Valid.errors errors).mpr hgood

theorem newValue_balances (type : Ty) (payload : Payload) :
    Balances (Machine.Good rest) s (↑(payload.handles.map Handle.holding) + own)
      (newValue type payload) (fun r => {r.holding} + own) left := by
  refine errors_balances [.badFix type.text]
    ((newObject_balances (by simp)).conv ?_ (fun _ => rfl) rfl)
  simp [← Multiset.singleton_add, add_assoc]

theorem newException_balances (e : EvalError) :
    Balances (Machine.Good rest) s own (newException e) (fun r => {r.holding} + own) left :=
  .bind (errors_balances [e] ((newObject_balances (by simp)).conv (by simp) (fun _ => rfl) rfl) :
      Balances _ _ own _ (fun r => {r.holding} + own) _)
    fun h _ _ => .pure { h with tag := .exception } (by rfl)

theorem newStaticException_balances (e : EvalError) :
    Balances (Machine.Good rest) s own (add (·.newStatic (.exception e)))
      (fun r => {r.holding} + own) left :=
  errors_balances [e] ((newStatic_balances (by simp)).conv (by simp) (fun _ => rfl) rfl)

theorem declare_balances (k : Combinator) (static : Bool)
    (hlive : ∀ h ∈ k.body.captures, s.heap.IsLive h.edge) :
    Balances (Machine.Good rest) s own
      (do
        k.body.captures.forM fun h => change (·.retain h)
        let c ← add (·.newCombinator k)
        let kind := .closure (.bare c k.arity)
        if static then add (·.newStatic kind) else newObject kind : Run Handle)
      (fun r => {r.holding} + own) left := by
  have hretain : Gives rest Set.univ s own (k.body.captures.forM fun h => change (·.retain h)) _ :=
    retainAll_gives k.body.captures fun h hh => ⟨.lent (Set.mem_univ _), hlive h hh⟩
  refine .bind hretain.does.balances fun _ s₁ _ => ?_
  have hcombinator (hgood : Machine.Good rest (↑(k.body.captures.map Handle.holding) + own) s₁) :
      Machine.Good rest ({.strong (.combinator (s₁.heap.newCombinator k).1)} + own)
        { s₁ with heap := (s₁.heap.newCombinator k).2 } := by
    rw [Machine.Good, Multiset.singleton_add, Multiset.cons_add]
    refine Valid.newCombinator ?_
    have hraises := (Valid.errors k.body.raises).mpr hgood
    convert hraises using 1
    simp only [Combinator.holdings, ← Multiset.coe_add]
    abel
  refine .step rfl hcombinator ?_
  have hkind : (ObjectKind.closure (.bare (s₁.heap.newCombinator k).1 k.arity)).holdings =
      {.strong (.combinator (s₁.heap.newCombinator k).1)} := by
    rw [ObjectKind.holdings_closure, Closure.arguments_bare]
    rfl
  have hproper : ∀ c, ObjectKind.closure (.bare (s₁.heap.newCombinator k).1 k.arity) = .closure c →
      c.Proper := by
    rintro _ ⟨⟩
    exact Closure.proper_bare _ _
  rw [← hkind]
  cases static with
  | true => exact newStatic_balances hproper
  | false => exact newObject_balances hproper

/-! Writing into cells -/

theorem share_balances {h : Handle} (hlive : s.heap.IsLive h.edge) :
    Balances (Machine.Good rest) s own (share h) (fun r => {r.holding} + own) left := by
  have hshare : Gives rest Set.univ s own (share h) _ := share_gives (.lent (Set.mem_univ _)) hlive
  exact hshare.does.balances.conv rfl (fun _ => Multiset.singleton_add _ _) rfl

theorem release_balances (h : Handle) :
    Balances (Machine.Good rest) s ({h.holding} + own) (release h) (fun _ => own) left := by
  refine .of_ok rfl fun hgood => ?_
  rw [Machine.Good, Multiset.singleton_add, Multiset.cons_add] at hgood
  exact Valid.release hgood

theorem kindOf?_of_node {m : Heap} {o : ObjectId} {a : Application}
    (h : (m.kind? (.plain o)).bind ObjectKind.application? = some a) :
    m.kindOf? o = some (.application a) := by
  refine kindOf?_of_application? (h := Handle.plain o) ?_
  simpa [application?, plainKind?, Handle.plain] using h

theorem store_balances (node : ObjectId) (result : Handle) :
    Balances (Machine.Good rest) s ({result.holding} + own) (store node result)
      (fun r => {r.holding} + own) left := by
  refine .given fun hgood => .step rfl id ?_
  cases hnode : (s.heap.kind? (.plain node)).bind ObjectKind.application? with
  | none => exact .pure result.asCached (by simp)
  | some a =>
    have hkind := kindOf?_of_node hnode
    have hresult : s.heap.IsLive result.asCached.edge := by
      simpa [Handle.edge] using hgood.counted.live result.edge (by simp [Handle.holding])
    cases a with
    | pending f x =>
      refine .bind (share_balances hresult) fun kept s₁ hshare => ?_
      cases hshare
      have hset (hgood : Machine.Good rest ({result.asCached.holding} + ({result.holding} + own))
          (s.on (·.retain result.asCached))) :
          Machine.Good rest ({f.holding} + ({x.holding} + ({result.holding} + own)))
            ((s.on (·.retain result.asCached)).on
              (·.setKind node (.application (.reduced result.asCached)))) := by
        have hkept : (s.heap.retain result.asCached).kindOf? node = _ :=
          (kindOf?_congr (contents_retainEdge s.heap result.asCached.edge) node).trans hkind
        refine Valid.setKind hgood hkept (by simp) ?_
        simp only [ObjectKind.holdings_reduced, ObjectKind.holdings_pending,
          Multiset.insert_eq_cons, ← Multiset.singleton_add]
        abel
      refine .step rfl hset (.bind (release_balances f) fun _ _ _ => ?_)
      exact .bind (release_balances x) fun _ _ _ => .pure result.asCached (by simp)
    | reduced first =>
      refine .bind (share_balances (hgood.counted.live_of_kind hkind (by simp [Handle.holding]))) fun r s₁ _ => ?_
      refine .bind ((release_balances result.asCached).conv ?_ (fun _ => rfl) rfl)
        fun _ _ _ => .pure r rfl
      rw [Handle.holding_asCached, add_left_comm]
    | knot k =>
      have hvalue : Gives rest Set.univ s ({result.holding} + own) k.reduced _ :=
        Knot.reduced_gives (.lent (Set.mem_univ (Edge.object node))) hkind
      refine .bind hvalue.does.balances fun r s₁ _ => ?_
      refine .bind ((release_balances result.asCached).conv ?_ (fun _ => rfl) rfl)
        fun _ _ _ => .pure r rfl
      rw [Handle.holding_asCached, ← Multiset.singleton_add, add_left_comm]

/-- A knot takes no reference to its value, unless the value cannot lead back to it. -/
theorem resolve_balances (node : ObjectId) {value : Handle} (hlive : s.heap.IsLive value.edge) :
    Balances (Machine.Good rest) s own (resolve node value) (fun _ => own) left := by
  refine .given fun hgood => .step rfl id ?_
  split
  · next hnode =>
    have hkind := kindOf?_of_node hnode
    refine .step rfl id ?_
    split
    · refine .bind (share_balances hlive) fun kept s₁ hshare => ?_
      cases hshare
      refine .step rfl id (.of_ok rfl fun hgood => ?_)
      have hkept : (s.heap.retain value).kindOf? node = _ :=
        (kindOf?_congr (contents_retainEdge s.heap value.edge) node).trans hkind
      exact Valid.setKind hgood hkept (by simp) (by simp)
    · have htie := hgood.tie hkind hlive
      split
      · next hstatic =>
        rw [Heap.tie, if_pos hstatic] at htie
        exact .step rfl id (.of_ok rfl fun _ => htie)
      · next hstatic =>
        rw [Heap.tie, if_neg hstatic] at htie
        exact .of_ok rfl fun _ => htie
  · exact .pure () rfl

theorem setMemo_balances {o : ObjectId} {c : Closure} {kept : Handle}
    (hkind : s.heap.kindOf? o = some (.closure c)) (hmemo : c.memo.result? = none) :
    Balances (Machine.Good rest) s ({kept.holding} + own) (change (·.setMemo o (.done kept)))
      (fun _ => own) left :=
  .of_ok rfl fun hgood => Valid.setMemo hgood hkind (by rw [hmemo]; simp [Memo.result?])

theorem mentionCounter_balances (counter : String) :
    Balances (Machine.Good rest) s own (change (·.mentionCounter counter)) (fun _ => own) left :=
  .of_ok rfl fun hgood => Valid.of_sameCells hgood ⟨rfl, rfl, rfl⟩

theorem retainWeak_balances {o : ObjectId} (hlive : s.heap.IsLive (.object o)) :
    Balances (Machine.Good rest) s own (change (·.retainWeak o)) (fun _ => {.weak o} + own)
      left := by
  refine .of_ok rfl fun hgood => ?_
  rw [Machine.Good, Multiset.singleton_add, Multiset.cons_add]
  exact Valid.retainWeak hgood hlive.allocated

end Run

namespace Step

/-! Nests -/

theorem nestLayer_does {f inner : Handle} (side : NestSide) (hlive : s.heap.IsLive f.edge) :
    Does rest Set.univ s (inner.holding ::ₘ own) (nestLayer f side inner)
      (fun r => r.holding ::ₘ own) own := by
  refine .bind (Run.share_gives (.lent (Set.mem_univ _)) hlive).does fun f s₁ _ _ _ => ?_
  cases side with
  | argument => exact (Run.newApplication_gives f inner).does
  | function =>
    exact (Run.newApplication_gives inner f).does.conv (Multiset.cons_swap _ _ _) (fun _ => rfl) rfl
  | bound => exact Run.applyArgument_does
  | paired =>
    exact (Run.newPair_gives inner f).does.conv (Multiset.cons_swap _ _ _) (fun _ => rfl) rfl

theorem nestLayers_does {f inner : Handle} (side : NestSide) (count : Nat)
    (hheld : f.holding ∈ rest) :
    Does rest Set.univ s (inner.holding ::ₘ own) (nestLayers f side count inner)
      (fun r => r.holding ::ₘ own) own := by
  induction count generalizing s inner with
  | zero => exact .pure inner rfl
  | succ count ih =>
    refine .given fun hvalid => .bind (nestLayer_does side ?_) fun r s₁ _ _ _ => ih
    exact hvalid.counted.live f.edge (by
      rw [← Handle.holding]
      exact Multiset.mem_add.mpr (.inr (Multiset.mem_add.mpr (.inr hheld))))

end Step

namespace Evaluator

theorem leaveAsIs_sound : Reducer.Sound leaveAsIs := fun _ _ _ h hheld hlent =>
  .given fun hvalid => (Run.share_gives (.lent hlent) (hvalid.counted.live h.edge (by
    rw [← Handle.holding]
    exact Multiset.mem_add.mpr (.inr (Multiset.mem_add.mpr (.inr hheld)))))).does

theorem evaluate_sound (options : Options) : Reducer.Sound (evaluate options) :=
  reduceUpTo_sound options unboundedDepth

end Evaluator

theorem ReducerChoice.reducer_sound (choice : ReducerChoice) (options : Options) :
    Reducer.Sound (choice.reducer options) := by
  cases choice with
  | leaveAsIs => exact Evaluator.leaveAsIs_sound
  | evaluator => exact Evaluator.evaluate_sound options

theorem EvalMode.evaluate_sound (mode : EvalMode) (options : Options) :
    Reducer.Sound (mode.evaluate options) := by
  have hresult (options : Options) : Reducer.Sound (Evaluator.evaluateToResult options) :=
    fun rest lent s h hheld hlent =>
      .bind (Evaluator.evaluate_sound options rest lent s h hheld hlent) fun _ _ _ _ _ =>
        Run.intoResult_does
  cases mode with
  | tagged catchPanics checkResults => exact Evaluator.evaluate_sound _
  | result catchPanics checkResults => exact hresult _
  | defaultTagged => exact Evaluator.evaluate_sound {}
  | defaultResult => exact hresult {}

end GraphReduction
