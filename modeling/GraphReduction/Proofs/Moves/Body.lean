import Mathlib
import GraphReduction.Reduce.Body
import GraphReduction.Proofs.Moves.Tie

/-! What a body does. It is lent the arguments and the combinator of its closure, and comes back
with one new reference, whatever forms it is made of. -/
namespace GraphReduction

open Heap Run

variable {α : Type} {rest : Multiset Holding} {lent : Set Edge} {s s₁ : Machine}
  {own own' left : Multiset Holding} {reduce : Reducer}

/-- The closure whose body, or a part of it, is run: somebody else holds the closure, and what it
passes to its body is lent. -/
structure Serves (rest : Multiset Holding) (lent : Set Edge) (m : Heap) (o : ObjectId) (c : Closure)
    (part : Body Handle) : Prop where
  held : .strong (.object o) ∈ rest
  there : c.At m o
  operands : c.operands ⊆ lent
  part : ∃ body, m.bodyOf? c.combinator = some body ∧ part.captures ⊆ body.captures ∧
    part.raises ⊆ body.raises

theorem Closure.mem_arguments {c : Closure} {i : Nat} {t : ThunkId} (h : c.argument? i = some t) :
    t ∈ c.arguments := by
  simp only [argument?] at h
  split at h
  · have hslot : c.slots[c.total - (i + 1)]? = some (some t) := by
      simpa [Option.join_eq_some_iff] using h
    have hmem := Array.mem_of_getElem? hslot
    simpa [arguments] using hmem
  · cases h

namespace Serves

variable {o : ObjectId} {c : Closure} {part : Body Handle}

theorem moves (h : Serves rest lent s.heap o c part) (hmoves : Moves lent s own s₁ own')
    (hvalid : s.heap.Valid (own + rest)) : Serves rest lent s₁.heap o c part where
  held := h.held
  there := h.there.moves hmoves hvalid h.held
  operands := h.operands
  part := by
    obtain ⟨body, hbody, hparts⟩ := h.part
    obtain ⟨memo, hkind, -⟩ := h.there.moves hmoves hvalid h.held
    have hlive : s₁.heap.IsLive (.combinator c.combinator) :=
      (hmoves.valid rest hvalid).counted.live_of_kind hkind (by simp [ObjectKind.holdings_closure])
    obtain ⟨x, hx⟩ := Option.isSome_iff_exists.mp hlive
    have hbody' : s₁.heap.bodyOf? c.combinator = some x.combinator.body := by simp [bodyOf?, hx]
    rw [hmoves.body_kept hbody'] at hbody
    cases hbody
    exact ⟨_, hbody', hparts⟩

theorem beside (h : Serves rest lent s.heap o c part) (k : Handle) :
    Serves (k.holding ::ₘ rest) (insert k.edge lent) s.heap o c part where
  held := Multiset.mem_cons_of_mem h.held
  there := h.there
  operands := fun _ hcell => .inr (h.operands hcell)
  part := h.part

theorem sub (h : Serves rest lent s.heap o c part) (part' : Body Handle)
    (hcaptures : part'.captures ⊆ part.captures) (hraises : part'.raises ⊆ part.raises) :
    Serves rest lent s.heap o c part' := by
  obtain ⟨body, hbody, hpart⟩ := h.part
  exact ⟨h.held, h.there, h.operands, body, hbody, List.Subset.trans hcaptures hpart.1,
    List.Subset.trans hraises hpart.2⟩

theorem thunk (h : Serves rest lent s.heap o c part) {t : ThunkId} (ht : t ∈ c.arguments)
    (hvalid : s.heap.Valid (own + rest)) : .thunk t ∈ lent ∧ s.heap.IsLive (.thunk t) := by
  obtain ⟨memo, hkind, -⟩ := h.there
  have hslot : t ∈ ({ c with memo } : Closure).arguments := ht
  exact ⟨h.operands (.inr ⟨t, ht, rfl⟩),
    hvalid.counted.live_of_kind hkind (by simp [ObjectKind.holdings_closure, hslot])⟩

theorem captured (h : Serves rest lent s.heap o c part) {k : Handle} (hk : k ∈ part.captures)
    (hvalid : s.heap.Valid (own + rest)) :
    s.heap.Access lent own k.holding ∧ s.heap.IsLive k.edge := by
  obtain ⟨body, hbody, hcaptures, -⟩ := h.part
  have hheld : k.holding ∈ s.heap.holds (.combinator c.combinator) := by
    rw [holds_combinator hbody]
    simp only [Multiset.mem_coe, List.mem_append]
    exact .inl (List.mem_map_of_mem (hcaptures hk))
  exact ⟨.of_combinator (.lent (h.operands (.inl rfl))) hheld, hvalid.counted.live_of_owns hheld⟩

theorem raised (h : Serves rest lent s.heap o c part) {e : EvalError} (he : e ∈ part.raises) :
    s.heap.Access lent own (.error e) := by
  obtain ⟨body, hbody, -, hraises⟩ := h.part
  refine .of_combinator (.lent (h.operands (.inl rfl))) ?_
  rw [holds_combinator hbody]
  simp only [Multiset.mem_coe, List.mem_append]
  exact .inr (List.mem_map_of_mem (hraises he))

end Serves

theorem foreign_ne (text : String) : EvalError.foreign text ≠ .releasedSelfReference := by
  simp [EvalError.releasedSelfReference]

theorem typeMismatch_ne (expected actual : String) :
    EvalError.typeMismatch expected actual ≠ .releasedSelfReference := by
  simp [EvalError.releasedSelfReference]

theorem ofUnify_ne (e : UnifyError) : EvalError.ofUnify e ≠ .releasedSelfReference := by
  cases e <;> simp [EvalError.ofUnify, EvalError.releasedSelfReference]

namespace Args

variable {o : ObjectId} {args : Args} {part : Body Handle} {i : Nat}

theorem thunk_does :
    Does rest lent s own (args.thunk i) (fun _ => own) own := by
  unfold thunk
  cases args.closure.argument? i with
  | none => exact .raise (foreign_ne _) rfl
  | some t => exact .pure t rfl

theorem thunk_ok {t : ThunkId} (h : args.thunk i s = .ok t s₁) :
    s₁ = s ∧ t ∈ args.closure.arguments := by
  rw [thunk] at h
  cases harg : args.closure.argument? i with
  | none =>
    rw [harg] at h
    cases h
  | some u =>
    rw [harg] at h
    cases h
    exact ⟨rfl, Closure.mem_arguments harg⟩

theorem force_does (hsound : reduce.Sound)
    (hserves : Serves rest lent s.heap o args.closure part) :
    Does rest lent s own (args.force reduce i) (fun r => r.holding ::ₘ own) own := by
  refine .bind thunk_does fun t s₁ hthunk _ hvalid => ?_
  obtain ⟨rfl, ht⟩ := thunk_ok hthunk
  obtain ⟨hlent, hlive⟩ := hserves.thunk ht hvalid
  exact .bind (ThunkId.force_does hsound hlent hlive) fun r s₂ _ _ _ => intoResult_does

theorem peek_does (hserves : Serves rest lent s.heap o args.closure part) :
    Does rest lent s own (do (← args.thunk i).peek) (fun r => r.holding ::ₘ own) own := by
  refine .bind thunk_does fun t s₁ hthunk _ hvalid => ?_
  obtain ⟨rfl, ht⟩ := thunk_ok hthunk
  obtain ⟨hlent, hlive⟩ := hserves.thunk ht hvalid
  exact (ThunkId.peek_gives hlent hlive).does

theorem unbox_of_force (hforce : Does rest lent s own (args.force reduce i)
      (fun r => r.holding ::ₘ own) own) (expected : TypeName) (take : Payload → Option α) :
    Does rest lent s own (args.unbox reduce i expected take) (fun _ => own) own := by
  refine .bind hforce fun h s₁ _ _ _ => .inspect ?_
  split
  · exact .step rfl (fun _ => .release s₁ h) fun _ => .pure _ rfl
  · refine .inspect (.step rfl (fun _ => .release s₁ h) fun _ => ?_)
    exact .raise (typeMismatch_ne _ _) rfl

theorem unbox_does (hsound : reduce.Sound)
    (hserves : Serves rest lent s.heap o args.closure part) (expected : TypeName)
    (take : Payload → Option α) :
    Does rest lent s own (args.unbox reduce i expected take) (fun _ => own) own :=
  unbox_of_force (force_does hsound hserves) expected take

theorem pair_does (hsound : reduce.Sound)
    (hserves : Serves rest lent s.heap o args.closure part) :
    Does rest lent s own (args.pair reduce i)
      (fun parts => parts.1.holding ::ₘ parts.2.holding ::ₘ own) own := by
  refine .bind (force_does hsound hserves) fun h s₁ _ _ hvalid => .inspect ?_
  split
  · next first second hpair =>
    obtain ⟨v, hv, hpayload⟩ := Option.map_eq_some_iff.mp hpair
    have hkind := kindOf?_of_boxed? hv
    have hpart : ∀ p : Handle, p ∈ [first, second] →
        s₁.heap.Access lent (h.holding ::ₘ own) p.holding ∧ s₁.heap.IsLive p.edge := by
      intro p hp
      have hmem : p.holding ∈ (ObjectKind.value v).holdings := by
        rw [ObjectKind.holdings_value, hpayload]
        exact Multiset.mem_cons_of_mem (List.mem_map_of_mem hp)
      refine ⟨Access.of_kind (.own (Multiset.mem_cons_self h.holding own)) hkind hmem (by simp), ?_⟩
      exact hvalid.counted.live_of_kind hkind hmem
    obtain ⟨hfirst, hlive⟩ := hpart first (by simp)
    obtain ⟨hsecond, hlive'⟩ := hpart second (by simp)
    have hsame : (s₁.on (·.retain first)).heap.contents = s₁.heap.contents :=
      contents_retainEdge s₁.heap first.edge
    refine .step rfl (fun _ => .share hfirst hlive) fun _ => ?_
    refine .step rfl (fun _ => .share ((hsecond.congr hsame).cons _)
      ((isLive_congr hsame _).mpr hlive')) fun _ => ?_
    refine .step rfl (fun _ => (Moves.release _ h).conv ?_ rfl) fun _ => .pure (first, second) rfl
    simp only [← Multiset.singleton_add]
    abel
  · refine .inspect (.step rfl (fun _ => .release s₁ h) fun _ => ?_)
    exact .raise (typeMismatch_ne _ _) rfl

end Args

/-! Boxes and types -/

namespace Run

theorem badFix_text_ne {type : Ty} (h : type.text ≠ "released self reference") :
    EvalError.badFix type.text ≠ .releasedSelfReference := by
  intro heq
  exact h (by simpa [EvalError.releasedSelfReference] using heq)

theorem newValue_gives {type : Ty} {payload : Payload}
    (htext : type.text ≠ "released self reference")
    (hown : own' = ↑(payload.handles.map Handle.holding) + own) :
    Gives rest lent s own' (newValue type payload) fun r => r.holding ::ₘ own := by
  subst hown
  refine .after (.raised _ (badFix_text_ne htext)) (.of_ok rfl fun _ => ?_)
  refine (Moves.newObject _ (makes_of_ne (by simp) (by simp))).conv ?_ rfl
  rw [ObjectKind.holdings_value, Multiset.cons_add]

theorem newInt_gives (n : Int64) : Gives rest lent s own (newInt n) fun r => r.holding ::ₘ own :=
  newValue_gives (by decide) (by simp [Payload.handles])

theorem newBool_gives (b : Bool) : Gives rest lent s own (newBool b) fun r => r.holding ::ₘ own :=
  newValue_gives (by decide) (by simp [Payload.handles])

theorem newStr_gives (text : String) :
    Gives rest lent s own (newStr text) fun r => r.holding ::ₘ own :=
  newValue_gives (by decide) (by simp [Payload.handles])

theorem newPair_gives (first second : Handle) :
    Gives rest lent s (first.holding ::ₘ second.holding ::ₘ own) (newPair first second)
      fun r => r.holding ::ₘ own :=
  newValue_gives (by decide) (by simp [Payload.handles, ← Multiset.cons_coe])

theorem newApplication_gives (function argument : Handle) :
    Gives rest lent s (function.holding ::ₘ argument.holding ::ₘ own)
      (newApplication function argument) fun r => r.holding ::ₘ own :=
  .of_ok rfl fun _ => (Moves.newObject _ (makes_of_ne (by simp) (by simp))).conv (by simp) rfl

theorem typeText_does {h : Handle} :
    Does rest lent s own (typeText h) (fun _ => own) own := by
  refine .bind (.of_ok rfl fun _ => .drawn _ : Does rest lent s own (typeOf h) (fun _ => own) own)
    fun outcome s₁ _ _ _ => ?_
  cases outcome with
  | ok t => exact .pure _ rfl
  | error e => exact .raise (ofUnify_ne e) rfl

theorem field_does {h : Handle} {i : Nat} (hlent : h.edge ∈ lent) :
    Does rest lent s own
      (do
        match ← fieldOf? h i with
        | some part => share part
        | none => raise (.foreign ("no field " ++ i.repr)) : Run Handle)
      (fun r => r.holding ::ₘ own) own := by
  refine .inspect (.given fun hvalid => ?_)
  split
  · next part hpart =>
    split at hpart
    · cases hpart
    · obtain ⟨v, hv, hmem⟩ := Option.bind_eq_some_iff.mp hpart
      have hkind : s.heap.kindOf? h.target = some (.value v) :=
        kindOf?_of_boxed? (h := h.untagged) hv
      have hholds : part.holding ∈ (ObjectKind.value v).holdings := by
        rw [ObjectKind.holdings_value]
        exact Multiset.mem_cons_of_mem (List.mem_map_of_mem (List.mem_of_getElem? hmem))
      exact (share_gives (.of_kind (.lent hlent) hkind hholds (by simp))
        (hvalid.counted.live_of_kind hkind hholds)).does
  · exact .raise (foreign_ne _) rfl

end Run

namespace Body

variable {o : ObjectId} {args : Args}

theorem both_does {first second : Run Handle} {next : Handle → Handle → Run Handle}
    (hfirst : Does rest lent s own first (fun r => r.holding ::ₘ own) own)
    (hsecond : ∀ (f : Handle) s₁, Moves lent s own s₁ (f.holding ::ₘ own) → s.heap.Valid (own + rest) →
      Does (f.holding ::ₘ rest) (insert f.edge lent) s₁ own second (fun r => r.holding ::ₘ own) own)
    (hnext : ∀ f x s₂, Does rest lent s₂ (f.holding ::ₘ x.holding ::ₘ own) (next f x)
      (fun r => r.holding ::ₘ own) own) :
    Does rest lent s own
      (do
        let f ← first
        let x ← releasingOnSignal f second
        next f x) (fun r => r.holding ::ₘ own) own := by
  refine .given fun hvalid => .bind hfirst fun f s₁ _ hmoves _ => ?_
  exact .bind (.releasingOnSignal (hsecond f s₁ hmoves hvalid)) fun x s₂ _ _ _ => hnext f x s₂

theorem over_does {first : Run Handle} {next : Handle → Run Handle}
    (hfirst : Does rest lent s own first (fun r => r.holding ::ₘ own) own)
    (hnext : ∀ h s₁, Does (h.holding ::ₘ rest) (insert h.edge lent) s₁ own (next h)
      (fun r => r.holding ::ₘ own) own) :
    Does rest lent s own
      (do
        let h ← first
        releasing h (next h)) (fun r => r.holding ::ₘ own) own :=
  .bind hfirst fun h s₁ _ _ _ => .releasing (hnext h s₁)

theorem run_does (hsound : reduce.Sound) (part : Body Handle)
    (hserves : Serves rest lent s.heap o args.closure part) :
    Does rest lent s own (part.run reduce args) (fun r => r.holding ::ₘ own) own := by
  -- On the part, for all that is owned and lent: a second part runs with what the first one gave
  -- kept beside its own holdings.
  induction part generalizing rest lent s own with
  | lazy i => exact Args.peek_does hserves
  | force i => exact Args.force_does hsound hserves
  | value type i =>
    cases type with
    | int =>
      exact .bind (Args.unbox_does hsound hserves .int Payload.int?)
        fun n _ _ _ _ => (newInt_gives n).does
    | bool =>
      exact .bind (Args.unbox_does hsound hserves .bool Payload.bool?)
        fun b _ _ _ _ => (newBool_gives b).does
    | str =>
      exact .bind (Args.unbox_does hsound hserves .str Payload.str?)
        fun text _ _ _ _ => (newStr_gives text).does
    | pair =>
      exact .bind (Args.pair_does hsound hserves)
        fun parts _ _ _ _ => (newPair_gives parts.1 parts.2).does
  | length => exact (newInt_gives _).does
  | isEmpty => exact (newBool_gives _).does
  | name => exact (newStr_gives _).does
  | int n => exact (newInt_gives n).does
  | bool b => exact (newBool_gives b).does
  | str text => exact (newStr_gives text).does
  | primitive p =>
    exact .given fun hvalid => (share_gives (.library p) (hvalid.library.live p)).does
  | captured k =>
    refine .given fun hvalid => ?_
    obtain ⟨haccess, hlive⟩ := hserves.captured (k := k) (by simp [captures]) hvalid
    exact (share_gives haccess hlive).does
  | apply f x ihf ihx =>
    have hf := hserves.sub f (by simp [captures]) (by simp [raises])
    have hx := hserves.sub x (by simp [captures]) (by simp [raises])
    exact both_does (ihf hf) (fun g _ hmoves hvalid => ihx ((hx.moves hmoves hvalid).beside g))
      fun g y _ => (newApplication_gives g y).does
  | bind f x ihf ihx =>
    have hf := hserves.sub f (by simp [captures]) (by simp [raises])
    have hx := hserves.sub x (by simp [captures]) (by simp [raises])
    exact both_does (ihf hf) (fun g _ hmoves hvalid => ihx ((hx.moves hmoves hvalid).beside g))
      fun _ _ _ => applyArgument_does
  | pair f x ihf ihx =>
    have hf := hserves.sub f (by simp [captures]) (by simp [raises])
    have hx := hserves.sub x (by simp [captures]) (by simp [raises])
    exact both_does (ihf hf) (fun g _ hmoves hvalid => ihx ((hx.moves hmoves hvalid).beside g))
      fun g y _ => (newPair_gives g y).does
  | field i e ih =>
    have he := hserves.sub e (by simp [captures]) (by simp [raises])
    exact over_does (ih he) fun h _ => field_does (Set.mem_insert _ _)
  | eval e ih =>
    have he := hserves.sub e (by simp [captures]) (by simp [raises])
    exact over_does (ih he) fun h _ => .bind (hsound.borrowed (Multiset.mem_cons_self _ _)
      (Set.mem_insert _ _)) fun r _ _ _ _ => intoResult_does
  | clone e ih =>
    have he := hserves.sub e (by simp [captures]) (by simp [raises])
    exact over_does (ih he) fun h _ =>
      (cloneObject_gives (Set.mem_insert _ _) (Multiset.mem_cons_self _ _)).does
  | bindSelf e ih =>
    have he := hserves.sub e (by simp [captures]) (by simp [raises])
    exact over_does (ih he) fun h _ =>
      bindSelf_does (Set.mem_insert _ _) (Multiset.mem_cons_self _ _)
  | typeOf e ih =>
    have he := hserves.sub e (by simp [captures]) (by simp [raises])
    exact over_does (ih he) fun h _ => .bind typeText_does fun text _ _ _ _ => (newStr_gives text).does
  | seq f x ihf ihx =>
    have hf := hserves.sub f (by simp [captures]) (by simp [raises])
    have hx := hserves.sub x (by simp [captures]) (by simp [raises])
    refine .given fun hvalid => .bind (ihf hf) fun h s₁ _ hmoves hvalid₁ => ?_
    refine .step rfl (fun _ => .release s₁ h) fun _ => ihx ?_
    exact hx.moves (hmoves.trans (.release s₁ h)) hvalid
  | recover f x ihf ihx =>
    have hf := hserves.sub f (by simp [captures]) (by simp [raises])
    have hx := hserves.sub x (by simp [captures]) (by simp [raises])
    refine .given fun hvalid => .tryCatch (ihf hf) fun signal s₁ _ hmoves hvalid₁ => ?_
    cases signal with
    | raised e =>
      have hforgot : Moves lent s₁ ({.error e} + own) s₁ own :=
        (Moves.forgot e).conv (Multiset.singleton_add _ _) rfl
      exact .after hforgot (ihx (hx.moves (hmoves.trans hforgot) hvalid))
    | panicked payload => exact .throw rfl
    | exhausted => exact .throw rfl
  | log text e ih =>
    have he := hserves.sub e (by simp [captures]) (by simp [raises])
    have hnoted : Moves lent s own (s.push (.note text)) own := .noted _ trivial
    exact .given fun hvalid => .step rfl (fun _ => hnoted) fun _ => ih (he.moves hnoted hvalid)
  | compare how i n yes no ihyes ihno =>
    have hyes := hserves.sub yes (by simp [captures]) (by simp [raises])
    have hno := hserves.sub no (by simp [captures]) (by simp [raises])
    refine .given fun hvalid => .bind (Args.unbox_does hsound hserves .int Payload.int?)
      fun a s₁ _ hmoves _ => ?_
    split
    · exact ihyes (hyes.moves hmoves hvalid)
    · exact ihno (hno.moves hmoves hvalid)
  | cond i yes no ihyes ihno =>
    have hyes := hserves.sub yes (by simp [captures]) (by simp [raises])
    have hno := hserves.sub no (by simp [captures]) (by simp [raises])
    refine .given fun hvalid => .bind (Args.unbox_does hsound hserves .bool Payload.bool?)
      fun a s₁ _ hmoves _ => ?_
    split
    · exact ihyes (hyes.moves hmoves hvalid)
    · exact ihno (hno.moves hmoves hvalid)
  | raise e =>
    exact .of_error rfl fun _ =>
      .copied e (hserves.raised (by simp [raises]))
  | panic payload => exact .throw (by simp [Signal.holdings])
  | arith op =>
    refine .given fun hvalid => .bind (Args.unbox_does hsound hserves .int Payload.int?)
      fun a s₁ _ hmoves _ => ?_
    refine .bind (Args.unbox_does hsound (hserves.moves hmoves hvalid) .int Payload.int?)
      fun b s₂ _ _ _ => ?_
    split
    · exact (newInt_gives _).does
    · exact .raise (foreign_ne _) rfl
  | test how =>
    refine .given fun hvalid => .bind (Args.unbox_does hsound hserves .int Payload.int?)
      fun a s₁ _ hmoves _ => ?_
    exact .bind (Args.unbox_does hsound (hserves.moves hmoves hvalid) .int Payload.int?)
      fun b s₂ _ _ _ => (newBool_gives _).does
  | fail i =>
    exact .bind (Args.unbox_does hsound hserves .str Payload.str?)
      fun text _ _ _ _ => .raise (foreign_ne _) rfl
  | tie => exact .bind (Args.force_does hsound hserves) fun h _ _ _ _ => tie_does hsound

end Body

end GraphReduction
