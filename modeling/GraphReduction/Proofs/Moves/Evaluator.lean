import Mathlib
import GraphReduction.Reduce.Evaluator
import GraphReduction.Proofs.Moves.Body

/-! What evaluation does. One layer of reduction is sound over a sound reducer, so every stack of
layers is. A result is kept by the cell whose operands it was computed from. What a layer does with
what its reducer returns is taken apart from the layer. -/
namespace GraphReduction.Evaluator

open Heap Run

variable {rest : Multiset Holding} {lent : Set Edge} {s s₁ : Machine} {own : Multiset Holding}
  {options : Options} {reduce : Reducer} {o : ObjectId} {c : Closure}

def accept (options : Options) (closure result : Handle) : Run Handle := do
  if options.checkResults && !result.isException then
    match ← check closure result with
    | .ok () => pure result
    | .error error =>
      release result
      newException error
  else
    pure result

theorem compute_eq (options : Options) (reduce : Reducer) (closure : Handle) (c : Closure) :
    compute options reduce closure c = (do
      let raw ← invoke options reduce closure.target c
      releasing raw do accept options closure (← reduce raw)) := rfl

def tryApply (function argument : Handle) : Run (Except EvalError Handle) :=
  tryCatch (return Except.ok (← applyArgument function argument)) fun
    | .raised error => pure (.error error)
    | signal => throw signal

def applyReduced (options : Options) (reduce : Reducer) (function argument : Handle) :
    Run Handle := do
  if function.isException then
    release argument
    pure function
  else
    match ← tryApply function argument with
    | .error error => newException error
    | .ok bound =>
      match ← inspect (·.closure? bound) with
      | some c =>
        if c.isSaturated then releasing bound (result options reduce bound c) else pure bound
      | none => pure bound

theorem application_eq (options : Options) (reduce : Reducer) (function argument : Handle) :
    application options reduce function argument = (do
      applyReduced options reduce (← releasingOnSignal argument (reduce function)) argument) := rfl

def outcome : Except EvalError Handle → Multiset Holding
  | .ok h => {h.holding}
  | .error e => {.error e}

theorem event_run (e : Event) (s : Machine) : event e s = .ok () (s.push e) := rfl

theorem noted_does {α : Type} {e : Event} {next : Unit → Run α} {post : α → Multiset Holding}
    (h : Does rest lent (s.push e) own (next ()) post own) :
    Does rest lent (s.push e) own (fun _ => (event e >>= next) s) post own := h

theorem caught_does {act : Run Handle}
    (hact : Does rest lent s own act (fun r => r.holding ::ₘ own) own) :
    Does rest lent s own
      (tryCatch (return Except.ok (← act)) fun
        | .raised error => pure (.error error)
        | .panicked payload =>
          if options.catchPanics then pure (.error (.foreign payload.message))
          else throw (.panicked payload)
        | .exhausted => throw .exhausted)
      (fun r => outcome r + own) own := by
  refine .tryCatch (.bind hact fun r _ _ _ _ => .pure (Except.ok r) ?_) fun signal _ _ _ _ => ?_
  · rw [outcome, Multiset.singleton_add]
  · cases signal with
    | raised e => exact .pure (Except.error e) rfl
    | exhausted => exact .throw rfl
    | panicked payload =>
      dsimp only
      split
      · refine .after (.raised (.foreign payload.message) (foreign_ne _))
          (.pure (Except.error (EvalError.foreign payload.message)) ?_)
        simp [Signal.holdings, outcome]
      · exact .throw rfl

theorem invoke_does (hsound : reduce.Sound) (hheld : .strong (.object o) ∈ rest)
    (hat : c.At s.heap o) (hoperands : c.operands ⊆ lent) :
    Does rest lent (s.push (.began o)) own (fun _ => invoke options reduce o c s)
      (fun r => r.holding ::ₘ own) own := by
  refine .given fun hvalid => ?_
  rw [invoke]
  refine noted_does (.inspect ?_)
  have hbody : ∃ held, s.heap.combinator? c.combinator = some held := by
    obtain ⟨memo, hkind, -⟩ := hat
    have hlive : s.heap.IsLive (.combinator c.combinator) :=
      hvalid.counted.live_of_kind hkind (by simp [ObjectKind.holdings_closure])
    exact Option.isSome_iff_exists.mp hlive
  obtain ⟨held, hcombinator⟩ := hbody
  rw [Machine.heap_push, hcombinator]
  have hserves : Serves rest lent (s.push (.began o)).heap o c held.combinator.body :=
    ⟨hheld, hat, hoperands, held.combinator.body, by simp [bodyOf?, hcombinator],
      List.Subset.refl _, List.Subset.refl _⟩
  refine .bind (caught_does (Body.run_does hsound _ hserves)) fun result s₁ _ _ _ => ?_
  refine .step (event_run _ s₁) (fun _ => .noted _ trivial) fun _ => ?_
  cases result with
  | ok h => exact .pure h (by rw [outcome, Multiset.singleton_add])
  | error e =>
    refine (newException_gives (.conv (.refl ..) rfl ?_)).does
    rw [outcome, Multiset.singleton_add]

theorem check_gives {closure result : Handle} :
    Gives rest lent s own (check closure result) fun _ => own :=
  .of_ok rfl fun _ => .drawn _

theorem check_error {closure result : Handle} {e : EvalError}
    (h : check closure result s = .ok (.error e) s₁) : e ≠ .releasedSelfReference := by
  simp only [check, checkResult] at h
  split at h
  · cases h
    exact ofUnify_ne _
  · cases h

theorem accept_does {closure result : Handle} :
    Does rest lent s (result.holding ::ₘ own) (accept options closure result)
      (fun r => r.holding ::ₘ own) own := by
  rw [accept]
  split
  · refine .bind check_gives.does fun verdict s₁ hcheck _ _ => ?_
    cases verdict with
    | ok _ => exact .pure result rfl
    | error e =>
      refine .step rfl (fun _ => .release s₁ result) fun _ => ?_
      exact (newException_gives (.raised e (check_error hcheck))).does
  · exact .pure result rfl

theorem compute_does {closure : Handle} (hsound : reduce.Sound) (hheld : closure.holding ∈ rest)
    (hat : c.At s.heap closure.target) (hoperands : c.operands ⊆ lent) :
    Does rest lent (s.push (.began closure.target)) own
      (fun _ => compute options reduce closure c s) (fun r => r.holding ::ₘ own) own := by
  rw [compute_eq]
  refine .bind (invoke_does hsound hheld hat hoperands) fun raw s₁ _ _ _ => .releasing ?_
  exact .bind (hsound.borrowed (Multiset.mem_cons_self _ _) (Set.mem_insert _ _))
    fun result s₂ _ _ _ => accept_does

/-- The result of a saturated closure is computed over what the closure passes to its body. -/
theorem result_does {h : Handle} (hsound : reduce.Sound) (hheld : h.holding ∈ rest)
    (hlent : h.edge ∈ lent) (hkind : s.heap.kindOf? h.target = some (.closure c))
    (hmissing : c.missing = 0) :
    Does rest lent s own (result options reduce h c) (fun r => r.holding ::ₘ own) own := by
  refine .given fun hvalid => ?_
  rw [result]
  rcases hmemo : c.memo with _ | _ | r
  · have hstart := hvalid.startMemo hkind hmemo
    have hrunning : (s.begin h.target).heap.kindOf? h.target =
        some (.closure { c with memo := .running }) := by
      rw [Machine.heap_begin, kindOf?_setMemo, if_pos rfl, hkind]
      rfl
    have hat : c.At (s.on (·.setMemo h.target .running)).heap h.target :=
      ⟨.running, hrunning, by simp [hmemo]⟩
    have hinner : Does (own + rest) c.operands (s.begin h.target) 0
        (fun _ => compute options reduce h c (s.on (·.setMemo h.target .running)))
        (fun r => {r.holding}) 0 :=
      compute_does hsound (Multiset.mem_add.mpr (.inr hheld)) hat le_rfl
    have hmoves := hinner (by simpa using hstart)
    have hrunning : ∀ {s₁ own₁}, Moves c.operands (s.begin h.target) 0 s₁ own₁ →
        s₁.heap.kindOf? h.target = some (.closure { c with memo := .running }) := by
      intro s₁ own₁ hcourse
      obtain ⟨kind, hkind₁, memo, rfl, hsame⟩ := hcourse.kind_kept (own + rest)
        (by simpa using hstart) (Multiset.mem_add.mpr (.inr hheld)) hrunning
      rw [hkind₁, hsame (by simp)]
    cases hrun : compute options reduce h c { s with heap := s.heap.setMemo h.target .running } with
    | error signal s₁ =>
      rw [Machine.on, hrun] at hmoves
      refine .of_error (?_ : _ = EStateM.Result.error signal (s₁.on (·.setMemo h.target .empty)))
        fun _ => ?_
      · simp only [Run.bind_run, change_run, tryCatch_run, hrun]
        rfl
      · exact ((Moves.memoFailed hkind hmissing hmemo hmoves (hrunning hmoves)).under hlent own).conv
          rfl (by rw [add_zero])
    | ok r s₁ =>
      rw [Machine.on, hrun] at hmoves
      have hlive : s₁.heap.IsLive r.edge :=
        (Moves.valid hmoves (own + rest) (by simpa using hstart)).counted.live _
          (by simp [Handle.holding])
      have hkept : Moves c.operands (s.begin h.target) 0 (s₁.on (·.retain r))
          (r.holding ::ₘ {r.holding}) := Moves.trans hmoves (.share (.own (by simp)) hlive)
      refine .of_ok (?_ : _ = EStateM.Result.ok r
        ((s₁.on (·.retain r)).on (·.setMemo h.target (.done r)))) fun _ => ?_
      · simp only [Run.bind_run, change_run, tryCatch_run, hrun, share_run]
        rfl
      · exact ((Moves.memoClosure hkind hmissing hmemo hkept (hrunning hkept)).under hlent own).conv
          rfl (by rw [Multiset.singleton_add])
  · exact .throw (by simp [Signal.holdings])
  · have hresult : r.holding ∈ (ObjectKind.closure c).holdings := by
      simp [ObjectKind.holdings_closure, hmemo, Memo.result?]
    exact (share_gives (Access.of_closure (.lent hlent) hkind hresult (.inr fun t ht => by cases ht))
      (hvalid.counted.live_of_kind hkind hresult)).does

theorem tryApply_does {function argument : Handle} :
    Does rest lent s (function.holding ::ₘ argument.holding ::ₘ own) (tryApply function argument)
      (fun r => outcome r + own) own := by
  refine .tryCatch (.bind applyArgument_does fun r _ _ _ _ => .pure (Except.ok r) ?_)
    fun signal _ _ _ _ => ?_
  · rw [outcome, Multiset.singleton_add]
  · cases signal with
    | raised e => exact .pure (Except.error e) rfl
    | panicked payload => exact .throw rfl
    | exhausted => exact .throw rfl

theorem applyReduced_does {function argument : Handle} (hsound : reduce.Sound) :
    Does rest lent s (function.holding ::ₘ argument.holding ::ₘ own)
      (applyReduced options reduce function argument) (fun r => r.holding ::ₘ own) own := by
  rw [applyReduced]
  split
  · rw [Multiset.cons_swap]
    exact .step rfl (fun _ => .release s argument) fun _ => .pure function rfl
  refine .bind tryApply_does fun bound s₁ _ _ _ => ?_
  cases bound with
  | error e =>
    refine (newException_gives (.conv (.refl ..) rfl ?_)).does
    rw [outcome, Multiset.singleton_add]
  | ok bound =>
    rw [outcome, Multiset.singleton_add]
    refine .inspect ?_
    cases hclosure : s₁.heap.closure? bound with
    | none => exact .pure bound rfl
    | some c =>
      dsimp only
      split
      · next hsaturated =>
        exact .releasing (result_does hsound (Multiset.mem_cons_self _ _) (Set.mem_insert _ _)
          (kindOf?_of_closure? hclosure) (by simpa [Closure.isSaturated] using hsaturated))
      · exact .pure bound rfl

theorem application_does {function argument : Handle} (hsound : reduce.Sound)
    (hheld : function.holding ∈ rest) (hlent : function.edge ∈ lent) :
    Does rest lent s (argument.holding ::ₘ own) (application options reduce function argument)
      (fun r => r.holding ::ₘ own) own := by
  rw [application_eq]
  refine .bind (.releasingOnSignal (hsound.borrowed (Multiset.mem_cons_of_mem hheld)
    (Set.mem_insert_of_mem _ hlent))) fun g s₁ _ _ _ => ?_
  rw [Multiset.cons_swap]
  exact applyReduced_does hsound

def takeNode (s : Machine) (f x : Handle) : Machine :=
  s.on fun m => (m.retainEdge f.edge).retainEdge x.edge

theorem contents_takeNode (s : Machine) (f x : Handle) :
    (takeNode s f x).heap.contents = s.heap.contents := by
  simp [takeNode]

theorem reduceOnce_of_kind {kind : ObjectKind} (hkind : s.heap.kindOf? o = some kind) :
    reduceOnce options reduce (.plain o) s =
      (match kind with
        | .application a => do
          match ← a.snapshot with
          | .reduced r => pure r
          | .pending f x => releasing f do store o (← application options reduce f x)
        | .closure c =>
          if c.isSaturated then result options reduce (.plain o) c else share (.plain o)
        | _ => share (.plain o) : Run Handle) s := by
  have hlook : s.heap.kind? (.plain o) = some kind := hkind
  rw [reduceOnce, if_pos (show (Handle.plain o).tag = .plain from rfl), Run.bind_run, inspect_run]
  dsimp only
  rw [hlook]
  cases kind <;> rfl

theorem reduceOnce_pending {f x : Handle}
    (hkind : s.heap.kindOf? o = some (.application (.pending f x))) :
    reduceOnce options reduce (.plain o) s =
      releasing f (application options reduce f x >>= store o) (takeNode s f x) := by
  rw [reduceOnce_of_kind hkind]
  rfl

theorem reduceOnce_saturated (hkind : s.heap.kindOf? o = some (.closure c))
    (hmissing : c.missing = 0) :
    reduceOnce options reduce (.plain o) s = result options reduce (.plain o) c s := by
  rw [reduceOnce_of_kind hkind]
  dsimp only
  rw [if_pos (by simpa [Closure.isSaturated] using hmissing)]

theorem takeNode_moves {h f x : Handle} (hlent : h.edge ∈ lent)
    (hkind : s.heap.kindOf? h.target = some (.application (.pending f x)))
    (hvalid : s.heap.Valid (own + rest)) :
    Moves lent s own (takeNode s f x) (f.holding ::ₘ x.holding ::ₘ own) := by
  have hpart : ∀ p : Handle, p.holding ∈ (ObjectKind.application (.pending f x)).holdings →
      s.heap.Access lent own p.holding ∧ s.heap.IsLive p.edge := fun p hp =>
    ⟨.of_kind (.lent hlent) hkind hp (by simp), hvalid.counted.live_of_kind hkind hp⟩
  obtain ⟨hf, hflive⟩ := hpart f (by simp)
  obtain ⟨hx, hxlive⟩ := hpart x (by simp)
  have hsame : (s.on (·.retain f)).heap.contents = s.heap.contents :=
    contents_retainEdge s.heap f.edge
  exact ((Moves.share hf hflive).trans (.share ((hx.congr hsame).cons _)
    ((isLive_congr hsame _).mpr hxlive))).conv rfl (Multiset.cons_swap _ _ _)

/-- What was computed from the parts of a node alone is kept in the node, or gives way to what was
kept there in the meantime. -/
theorem store_moves {h f x r : Handle} (hheld : h.holding ∈ rest) (hlent : h.edge ∈ lent)
    (hkind : s.heap.kindOf? h.target = some (.application (.pending f x)))
    (hvalid : s.heap.Valid (own + rest))
    (hinner : Moves ∅ (takeNode s f x) {f.holding, x.holding} s₁ {r.holding, f.holding}) :
    ∃ a s₂, store h.target r s₁ = .ok a s₂ ∧
      Moves lent s own s₂ (a.holding ::ₘ f.holding ::ₘ own) := by
  have hwhole : Moves lent s own s₁ (r.holding ::ₘ f.holding ::ₘ own) := by
    refine (takeNode_moves hlent hkind hvalid).trans ((hinner.apart own).conv ?_ ?_) <;> simp
  have hvalid₁ := hwhole.valid rest hvalid
  obtain ⟨kind, hkind₁, hkept⟩ := hwhole.kind_kept rest hvalid hheld hkind
  have hlook : s₁.heap.kind? (.plain h.target) = some kind := hkind₁
  rw [store, Run.bind_run, inspect_run]
  dsimp only
  rw [hlook]
  rcases hkept with rfl | ⟨first, rfl⟩
  · refine ⟨r.asCached, _, rfl, ?_⟩
    have hlive : s₁.heap.IsLive r.asCached.edge := by
      simpa [Handle.edge] using hvalid₁.counted.live r.edge (by simp [Handle.holding])
    have hcached : Moves ∅ (takeNode s f x) {f.holding, x.holding} (s₁.on (·.retain r.asCached))
        (r.asCached.holding ::ₘ {r.holding, f.holding}) :=
      hinner.trans (.share (.own (by simp)) hlive)
    have hpending : (s₁.on (·.retain r.asCached)).heap.kindOf? h.target = _ :=
      (kindOf?_congr (contents_retainEdge s₁.heap r.asCached.edge) _).trans hkind₁
    have hmemo := (Moves.memoNode hkind hcached hpending).under hlent own
    refine hmemo.trans (((Moves.release _ f).trans (Moves.release _ x)).conv ?_ rfl)
    simp
  · have hfirst : s₁.heap.Access lent (r.holding ::ₘ f.holding ::ₘ own) first.holding :=
      .of_kind (.lent hlent) hkind₁ (by simp) (by simp)
    have hlive : s₁.heap.IsLive first.edge :=
      hvalid₁.counted.live_of_kind hkind₁ (by simp [Handle.holding])
    refine ⟨first, _, rfl, hwhole.trans ((Moves.share hfirst hlive).trans ?_)⟩
    refine (Moves.release _ r.asCached).conv ?_ rfl
    rw [Handle.holding_asCached, Multiset.cons_swap]

theorem pending_does {h f x : Handle} (hsound : reduce.Sound) (hheld : h.holding ∈ rest)
    (hlent : h.edge ∈ lent)
    (hkind : s.heap.kindOf? h.target = some (.application (.pending f x))) :
    Does rest lent s own
      (do
        let function ← share f
        let argument ← share x
        releasing function do
          store h.target (← application options reduce function argument))
      (fun r => r.holding ::ₘ own) own := by
  refine .given fun hvalid => ?_
  have hbegin : Moves lent s own _ _ := takeNode_moves hlent hkind hvalid
  have hstart : (takeNode s f x).heap.Valid
      ({x.holding} + f.holding ::ₘ (own + rest)) := by
    convert hbegin.valid rest hvalid using 1
    simp
  -- the function is released at the end, so it is lent in the meantime
  have hinner : Does (f.holding ::ₘ (own + rest)) {f.edge} (takeNode s f x) {x.holding}
      (application options reduce f x) (fun r => {r.holding}) 0 :=
    application_does hsound (Multiset.mem_cons_self _ _) rfl
  have hcourse : ∀ {s₁ own₁}, Moves {f.edge} (takeNode s f x) {x.holding} s₁ own₁ →
      Moves ∅ (takeNode s f x) {f.holding, x.holding} s₁ (f.holding ::ₘ own₁) := by
    intro s₁ own₁ hmoves
    exact Moves.around (by rwa [insert_empty_eq])
  have hmoves := hinner hstart
  cases hrun : application options reduce f x (takeNode s f x) with
  | error signal s₁ =>
    rw [hrun] at hmoves
    refine .of_error (?_ : _ = EStateM.Result.error signal (s₁.on (·.release f))) fun _ => ?_
    · have hrun' : application options reduce f x
          { s with heap := (s.heap.retain f).retain x } = _ := hrun
      simp only [Run.bind_run, share_run, releasing_run, hrun']
      rfl
    · refine (hbegin.trans (((hcourse hmoves).apart own).conv ?_ rfl)).trans
        ((Moves.release s₁ f).conv ?_ rfl)
      · simp
      · simp
  | ok r s₁ =>
    rw [hrun] at hmoves
    obtain ⟨a, s₂, hstore, hlast⟩ := store_moves (r := r) hheld hlent hkind hvalid
      ((hcourse hmoves).conv rfl (Multiset.cons_swap _ _ _))
    refine .of_ok (?_ : _ = EStateM.Result.ok a (s₂.on (·.release f))) fun _ => ?_
    · have hrun' : application options reduce f x
          { s with heap := (s.heap.retain f).retain x } = _ := hrun
      simp only [Run.bind_run, share_run, releasing_run, hrun', hstore]
      rfl
    · exact hlast.trans ((Moves.release s₂ f).conv (Multiset.cons_swap _ _ _) rfl)

theorem reduceOnce_does {h : Handle} (hsound : reduce.Sound) (hheld : h.holding ∈ rest)
    (hlent : h.edge ∈ lent) :
    Does rest lent s own (reduceOnce options reduce h) (fun r => r.holding ::ₘ own) own := by
  refine .given fun hvalid => ?_
  obtain ⟨kind, hkind⟩ := kindOf?_of_held hvalid (Multiset.mem_add.mpr (.inr hheld))
  have hlook : s.heap.kind? h = some kind := hkind
  have hshare : Does rest lent s own (share h) (fun r => r.holding ::ₘ own) own :=
    (share_gives (.lent hlent) (isLive_of_kindOf? hkind)).does
  rw [reduceOnce]
  split
  · refine .inspect ?_
    rw [hlook]
    rcases kind with v | c | (⟨f, x⟩ | r | k) | e
    · exact hshare
    · dsimp only
      split
      · next hsaturated =>
        exact result_does hsound hheld hlent hkind (by simpa [Closure.isSaturated] using hsaturated)
      · exact hshare
    · exact pending_does hsound hheld hlent hkind
    · have hr : r.holding ∈ (ObjectKind.application (.reduced r)).holdings := by simp
      refine .step rfl (fun _ => .share (.of_kind (.lent hlent) hkind hr (by simp)) ?_)
        fun _ => .pure r rfl
      exact hvalid.counted.live_of_kind hkind hr
    · have hknot : Gives rest lent s own k.reduced fun r => r.holding ::ₘ own :=
        Knot.reduced_gives (.lent hlent) hkind
      obtain ⟨r, s₁, hrun, hmoves⟩ := hknot hvalid
      refine .step (?_ : _ = EStateM.Result.ok (Snapshot.reduced r) s₁) (fun _ => hmoves)
        fun _ => .pure r rfl
      rw [Application.snapshot, Run.bind_run, hrun]
      rfl
    · exact hshare
  · exact hshare

theorem reduceOnce_sound (hsound : reduce.Sound) :
    Reducer.Sound (reduceOnce options reduce) :=
  fun _ _ _ _ hheld hlent => reduceOnce_does hsound hheld hlent

theorem exists_unboundedDepth : ∃ depth, unboundedDepth = depth + 1 :=
  Nat.exists_eq_add_one.mpr (Nat.pow_pos (by decide))

theorem reduceUpTo_sound (options : Options) (depth : Nat) :
    Reducer.Sound (reduceUpTo options depth) := by
  induction depth with
  | zero => exact fun rest lent s h _ _ => .throw rfl
  | succ depth ih => exact reduceOnce_sound ih

end GraphReduction.Evaluator
