import Mathlib
import GraphReduction.Proofs.Tags.Binding

/-! Running a body leaves tags truthful, whatever the body does: each form turns handles whose tags
tell the truth into another one. The knot of a data fixpoint is pointed at a result, since the value
has been reduced by then. -/
namespace GraphReduction

open Heap ObjectKind Leaves

variable {rest rest' own : Multiset Holding} {s : Machine} {m m' : Heap} {o node : ObjectId}
  {h r function value : Handle} {w : ThunkId} {args : Args} {k : Combinator} {i : Nat}
  {reduce : Reducer}

/-- The closure at `o` is held while the body of its combinator `k` runs on its arguments. -/
structure Heap.Provides (m : Heap) (rest : Multiset Holding) (o : ObjectId) (args : Args)
    (k : Combinator) : Prop where
  held : .strong (.object o) ∈ rest
  closure : args.closure.At m o
  combinator : m.combinatorOf? args.closure.combinator = some k

namespace Heap.Provides

theorem mono (h : m.Provides rest o args k) (hsub : rest ⊆ rest') : m.Provides rest' o args k :=
  ⟨hsub h.held, h.closure, h.combinator⟩

theorem spares (h : m.Provides rest o args k) (hspares : Spares (objectsOf rest) m m')
    (hup' : m'.Upright rest') (hsub : rest ⊆ rest') : m'.Provides rest o args k := by
  have hlive : m'.IsLive (.object o) :=
    hup'.valid.counted.live _ (Multiset.mem_add.mpr (.inr (hsub h.held)))
  have hat := h.closure.spares hspares h.held hlive
  refine ⟨h.held, hat, ?_⟩
  obtain ⟨memo, hkind, -⟩ := hat
  have hthere : m'.IsLive (.combinator args.closure.combinator) :=
    hup'.live_of_kind hkind (by simp [ObjectKind.holdings_closure])
  obtain ⟨x, hx⟩ := Option.isSome_iff_exists.mp hthere
  have hfound : m'.combinatorOf? args.closure.combinator = some x.combinator := by
    simp [combinatorOf?, hx]
  have halloc : m.Allocated (.combinator args.closure.combinator) := by
    obtain ⟨y, hy, -⟩ := Option.map_eq_some_iff.mp h.combinator
    exact IsLive.allocated (Option.isSome_iff_exists.mpr ⟨y, hy⟩)
  rw [hfound, ← hspares.combinator _ _ halloc hfound, h.combinator]

theorem beside (h : m.Provides rest o args k) (hspares : Spares (objectsOf rest) m m')
    (hup' : m'.Upright (r.holding ::ₘ rest)) : m'.Provides (r.holding ::ₘ rest) o args k :=
  (h.spares hspares hup' (Multiset.subset_cons _ _)).mono (Multiset.subset_cons _ _)

theorem captured (h : m.Provides rest o args k) (hup : m.Upright rest)
    (hr : r ∈ k.body.captures) : m.IsLive r.edge ∧ m.Honest r :=
  ⟨hup.valid.counted.live _ (Multiset.mem_add.mpr (.inl
    (Heap.holdings_subset_held_combinator h.combinator (mem_holdings_of_captures hr)))),
    hup.cells.combinator _ _ h.combinator r hr⟩

end Heap.Provides

namespace Run

/-! What bodies make -/

theorem newValue_leaves {type : Ty} {payload : Payload}
    (hup : s.heap.Upright (↑(payload.handles.map Handle.holding) + rest))
    (hhonest : ∀ h ∈ payload.handles, s.heap.Honest h) :
    Leaves s.heap rest (fun r : Handle => {r.holding}) (fun m r => m.Honest r)
      (newValue type payload s) := by
  have hvalid : s.heap.Valid ((ObjectKind.value ⟨type, payload⟩).holdings + rest) := by
    rw [ObjectKind.holdings_value, Multiset.cons_add]
    exact (Valid.error _).mpr hup.valid
  refine (newObject_produces ⟨hvalid, hup.cells⟩ (by simp) hhonest).leaves.imp fun m r hmade => ?_
  rw [Honest, hmade.1]
  refine .of_kind hmade.2 ?_
  rintro ⟨e, ⟨⟩⟩

theorem newScalar_leaves {type : Ty} {payload : Payload} (hup : s.heap.Upright rest)
    (hplain : payload.handles = []) :
    Leaves s.heap rest (fun r : Handle => {r.holding}) (fun m r => m.Honest r)
      (newValue type payload s) :=
  newValue_leaves (by simpa [hplain] using hup) (by simp [hplain])

theorem newPair_leaves {a b : Handle} (hup : s.heap.Upright (a.holding ::ₘ b.holding ::ₘ rest))
    (ha : s.heap.Honest a) (hb : s.heap.Honest b) :
    Leaves s.heap rest (fun r : Handle => {r.holding}) (fun m r => m.Honest r) (newPair a b s) := by
  refine newValue_leaves (by simpa [Payload.handles, ← Multiset.cons_coe] using hup) fun h hh => ?_
  obtain rfl | rfl : h = a ∨ h = b := by simpa [Payload.handles] using hh
  · exact ha
  · exact hb

theorem newApplication_leaves {a b : Handle}
    (hup : s.heap.Upright (a.holding ::ₘ b.holding ::ₘ rest)) (ha : s.heap.Honest a)
    (hb : s.heap.Honest b) :
    Leaves s.heap rest (fun r : Handle => {r.holding}) (fun m r => m.Honest r)
      (newApplication a b s) := by
  have hup' : s.heap.Upright ((ObjectKind.application (.pending a b)).holdings + rest) := by
    simpa [Multiset.insert_eq_cons] using hup
  refine (newObject_produces hup' (by simp) ⟨ha, hb⟩).leaves.imp fun m r hmade => ?_
  rw [Honest, hmade.1]
  refine .of_kind hmade.2 ?_
  rintro ⟨e, ⟨⟩⟩

/-! Tying -/

theorem resolve_of_ne (hnode : s.heap.kindOf? node ≠ some (.application (.knot .unresolved))) :
    resolve node value s = .ok () s := by
  have hlook : s.heap.kind? (.plain node) = s.heap.kindOf? node := rfl
  rw [resolve, bind_run, inspect_run]
  dsimp only
  rw [hlook]
  cases hkind : s.heap.kindOf? node with
  | none => rfl
  | some kind =>
    rcases kind with v | c | (⟨f, x⟩ | r | (_ | p | r)) | e <;> first
      | rfl
      | exact absurd hkind hnode

theorem resolve_produces (hup : s.heap.Upright rest) (hlive : s.heap.IsLive value.edge)
    (hfinal : s.heap.Final value) (htag : value.tag = .plain) :
    Produces rest s (resolve node value) (fun _ => 0) fun m _ => ∀ p, s.heap.Lasts m p := by
  have hresult : s.heap.Is IsResult value.target := hfinal.isResult (by simp [htag])
  by_cases hknot : s.heap.kindOf? node = some (.application (.knot .unresolved))
  · have hspares : Spares Set.univ s.heap (s.heap.tie node value) := .tie hknot value
    refine ⟨(), s.on (·.tie node value), resolve_run hknot (by simp [Handle.isException, htag]),
      .tie hknot value, ?_, fun p => hspares.lasts trivial⟩
    rw [zero_add]
    exact hup.tie hknot hlive hresult
  · exact ⟨(), s, resolve_of_ne hknot, .refl .., by rwa [zero_add], fun _ _ his => his⟩

theorem tieValue_leaves {knot : Handle} (hreduce : reduce.Finishes)
    (hup : s.heap.Upright (function.holding ::ₘ knot.holding ::ₘ rest))
    (hknot : s.heap.Honest knot) :
    Leaves s.heap (knot.holding ::ₘ rest) (fun r : Handle => {r.holding}) (fun m r => m.Honest r)
      ((do
        let saturated ← applyArgument function (← share knot)
        releasing saturated do
          let value ← intoResult (← reduce saturated)
          resolve knot.target value
          pure value : Run Handle) s) := by
  have hshared := hup.share (h := knot) (hup.live (by simp))
  rw [Multiset.cons_swap] at hshared
  have hretain : Spares Set.univ s.heap (s.heap.retain knot) := .share _ knot
  refine .step (share_run knot s) (.share _ knot) (.bind (applyArgument_leaves hshared
    ((hretain.lasts trivial).honest hknot)) fun saturated s₁ _ hup₁ hbound => ?_)
  rw [Multiset.singleton_add] at hup₁
  refine .releasing (.bind (hreduce hup₁ (Multiset.mem_cons_self ..) hbound.honest)
    fun r s₂ _ hup₂ hfinal => ?_) persists_honest
  rw [Multiset.singleton_add] at hup₂
  refine .bind (intoResult_leaves hup₂ hfinal) fun value s₃ _ hup₃ hvalue => ?_
  obtain ⟨hfinal, htag⟩ := hvalue
  refine .bind (resolve_produces hup₃ (hup₃.live (by simp)) hfinal htag).beside.leaves
    fun _ s₄ _ hup₄ hlasts => .pure (by simpa using hup₄) ?_
  exact (hlasts _).honest hfinal.honest

theorem tieData_leaves (hreduce : reduce.Finishes)
    (hup : s.heap.Upright (function.holding ::ₘ rest)) :
    Leaves s.heap rest (fun r : Handle => {r.holding}) (fun m r => m.Honest r)
      ((do
        let knot ← newKnot
        let value ← releasing knot do
          let saturated ← applyArgument function (← share knot)
          releasing saturated do
            let value ← intoResult (← reduce saturated)
            resolve knot.target value
            pure value
        tied knot.target value
        pure value : Run Handle) s) := by
  have hup' : s.heap.Upright ((ObjectKind.application (.knot .unresolved)).holdings +
      (function.holding ::ₘ rest)) := by simpa using hup
  obtain ⟨knot, s₁, hrun, hspares, hup₁, htag, hkind⟩ := newObject_produces hup' (by simp) trivial
  have hknot : s₁.heap.Honest knot := by
    rw [Honest, htag]
    refine .of_kind hkind ?_
    rintro ⟨e, ⟨⟩⟩
  rw [Multiset.singleton_add, Multiset.cons_swap] at hup₁
  refine .step hrun (hspares.mono (objectsOf_subset (Multiset.subset_cons _ _))) ?_
  refine .bind (.releasing (tieValue_leaves hreduce hup₁ hknot) persists_honest)
    fun value s₂ _ hup₂ hhonest => ?_
  exact .step (z := s₂.push (.tied knot.target value s₂.heap)) rfl (.refl ..) (.pure hup₂ hhonest)

theorem tie_leaves (hreduce : reduce.Finishes)
    (hup : s.heap.Upright (function.holding ::ₘ rest)) :
    Leaves s.heap rest (fun r : Handle => {r.holding}) (fun m r => m.Honest r)
      (tie reduce function s) := by
  rw [tie]
  refine .inspect ?_
  rcases ((s.heap.closure? function).map Closure.missing).getD 0 with _ | _ | missing
  · exact .inspect (.step rfl (.release _ _) (.raise hup.release))
  · exact tieData_leaves hreduce hup
  · exact .releasing ((bindSelf_leaves hup (Multiset.mem_cons_self ..)).imp
      fun m r hbound => hbound.honest) persists_honest

end Run

/-! What bodies are given -/

namespace Args

theorem force_leaves (hreduce : reduce.Finishes) (hup : s.heap.Upright rest) :
    Leaves s.heap rest (fun r : Handle => {r.holding})
      (fun m r => m.Final r ∧ r.tag = .plain) (args.force reduce i s) := by
  rw [force, thunk]
  cases args.closure.argument? i with
  | none => exact .of_error (.refl ..) hup
  | some w =>
    refine .step rfl (.refl ..) (.bind (ThunkId.force_leaves hreduce hup)
      fun r s₁ _ hup₁ hfinal => ?_)
    rw [Multiset.singleton_add] at hup₁
    exact Run.intoResult_leaves hup₁ hfinal

theorem peek_leaves (hup : s.heap.Upright rest) :
    Leaves s.heap rest (fun r : Handle => {r.holding}) (fun m r => m.Honest r)
      ((do (← args.thunk i).peek : Run Handle) s) := by
  rw [thunk]
  cases args.closure.argument? i with
  | none => exact .of_error (.refl ..) hup
  | some w => exact .step rfl (.refl ..) (ThunkId.peek_leaves hup)

theorem refuse_leaves {α : Type} {post : α → Multiset Holding} {good : Heap → α → Prop}
    (expected : TypeName) (hup : s.heap.Upright (h.holding ::ₘ rest)) :
    Leaves s.heap rest post good
      ((do
        let actual ← Run.inspect (·.describe h)
        Run.release h
        Run.raise (.typeMismatch expected.text actual) : Run α) s) :=
  .inspect (.step rfl (.release _ h) (.raise hup.release))

theorem unbox_leaves {α : Type} {expected : TypeName} {take : Payload → Option α}
    (hreduce : reduce.Finishes) (hup : s.heap.Upright rest) :
    Leaves s.heap rest (fun _ => 0) (fun _ _ => True) (args.unbox reduce i expected take s) := by
  refine .bind (force_leaves hreduce hup) fun h s₁ _ hup₁ _ => ?_
  rw [Multiset.singleton_add] at hup₁
  refine .inspect ?_
  cases (s₁.heap.boxed? h).bind fun v => take v.payload with
  | none => exact refuse_leaves expected hup₁
  | some a =>
    exact .step rfl (.release _ h) (.pure (by rw [zero_add]; exact hup₁.release) trivial)

theorem pair_leaves (hreduce : reduce.Finishes) (hup : s.heap.Upright rest) :
    Leaves s.heap rest (fun r => {r.1.holding, r.2.holding})
      (fun m r => m.Honest r.1 ∧ m.Honest r.2) (args.pair reduce i s) := by
  refine .bind (force_leaves hreduce hup) fun h s₁ _ hup₁ _ => ?_
  rw [Multiset.singleton_add] at hup₁
  refine .inspect ?_
  cases hboxed : s₁.heap.boxed? h with
  | none => exact refuse_leaves .pair hup₁
  | some v =>
    obtain ⟨type, payload⟩ := v
    cases payload with
    | int | bool | str | tracked => exact refuse_leaves .pair hup₁
    | pair a b =>
      have hkind := kindOf?_of_boxed? hboxed
      have hpart : ∀ r ∈ [a, b], s₁.heap.IsLive r.edge := fun r hr => hup₁.live_of_kind hkind (by
        rw [ObjectKind.holdings_value, Multiset.mem_cons]
        exact .inr (List.mem_map_of_mem (f := Handle.holding) hr))
      have hhonest : ∀ r ∈ [a, b], s₁.heap.Honest r := hup₁.cells.object _ _ hkind
      have hb : (s₁.heap.retain a).IsLive b.edge :=
        (isLive_congr (contents_retain _ a) _).mpr (hpart b (by simp))
      have hshared := (hup₁.share (hpart a (by simp))).share hb
      have hheld : b.holding ::ₘ a.holding ::ₘ h.holding ::ₘ rest =
          h.holding ::ₘ ({a.holding, b.holding} + rest) := by
        simp only [Multiset.insert_eq_cons, ← Multiset.singleton_add]
        abel
      rw [hheld] at hshared
      have hspares : ∀ {fixed}, Spares fixed s₁.heap (((s₁.heap.retain a).retain b).release h) :=
        ((Spares.share _ a).trans (.share _ b)).trans (.release _ h)
      exact .of_ok (s := s₁.on fun m => ((m.retain a).retain b).release h) hspares
        hshared.release ⟨(hspares.lasts (Set.mem_univ _)).honest (hhonest a (by simp)),
          (hspares.lasts (Set.mem_univ _)).honest (hhonest b (by simp))⟩

end Args

namespace Body

theorem both_leaves {γ : Type} {next : Handle → Handle → Run γ} {post : γ → Multiset Holding}
    {good : Heap → γ → Prop} {first second : Run Handle}
    (hfirst : Leaves s.heap rest (fun r : Handle => {r.holding}) (fun m r => m.Honest r) (first s))
    (hsecond : ∀ (x : Handle) s', Spares (objectsOf rest) s.heap s'.heap →
      s'.heap.Upright (x.holding ::ₘ rest) →
      Leaves s'.heap (x.holding ::ₘ rest) (fun r : Handle => {r.holding})
        (fun m r => m.Honest r) (second s'))
    (hnext : ∀ (x y : Handle) s', s'.heap.Upright (x.holding ::ₘ y.holding ::ₘ rest) →
      s'.heap.Honest x → s'.heap.Honest y → Leaves s'.heap rest post good (next x y s')) :
    Leaves s.heap rest post good
      ((do
        let x ← first
        let y ← Run.releasingOnSignal x second
        next x y) s) := by
  refine .bind hfirst fun x s₁ hspares hup₁ hx => ?_
  rw [Multiset.singleton_add] at hup₁
  refine .bind (.releasingOnSignal (hsecond x s₁ hspares hup₁)) fun y s₂ _ hup₂ hy => ?_
  obtain ⟨hy, hstays⟩ := hy
  exact hnext x y s₂ (by simpa using hup₂) (hstays.lasts.honest hx) hy

theorem unboxed_leaves {α γ : Type} {expected : TypeName} {take : Payload → Option α}
    {next : α → Run γ} {post : γ → Multiset Holding} {good : Heap → γ → Prop}
    (hreduce : reduce.Finishes) (hup : s.heap.Upright rest)
    (hprovides : s.heap.Provides rest o args k)
    (hnext : ∀ a s', s'.heap.Upright rest → s'.heap.Provides rest o args k →
      Leaves s'.heap rest post good (next a s')) :
    Leaves s.heap rest post good ((args.unbox reduce i expected take >>= next) s) := by
  refine .bind (Args.unbox_leaves hreduce hup) fun a s₁ hspares hup₁ _ => ?_
  rw [zero_add] at hup₁
  exact hnext a s₁ hup₁ (hprovides.spares hspares hup₁ (Multiset.Subset.refl _))

theorem shareField_leaves (hup : s.heap.Upright rest) :
    Leaves s.heap rest (fun r : Handle => {r.holding}) (fun m r => m.Honest r)
      ((do
        match ← Run.fieldOf? h i with
        | some part => Run.share part
        | none => Run.raise (.foreign ("no field " ++ i.repr)) : Run Handle) s) := by
  refine .inspect ?_
  cases hfound : (if h.isException then none
      else (s.heap.boxed? h.untagged).bind fun v => v.payload.handles[i]?) with
  | none => exact .raise hup
  | some part =>
    have hsome : (s.heap.boxed? h.untagged).bind (fun v => v.payload.handles[i]?) = some part := by
      split at hfound
      · cases hfound
      · exact hfound
    obtain ⟨v, hboxed, hpart⟩ := Option.bind_eq_some_iff.mp hsome
    have hkind := kindOf?_of_boxed? hboxed
    have hmem := List.mem_of_getElem? hpart
    refine (Run.share_produces hup (hup.live_of_kind hkind ?_) persists_honest
      (hup.cells.object _ _ hkind part hmem)).leaves
    rw [ObjectKind.holdings_value, Multiset.mem_cons]
    exact .inr (List.mem_map_of_mem (f := Handle.holding) hmem)

theorem typeText_leaves (hup : s.heap.Upright rest) :
    Leaves s.heap rest (fun _ : String => 0) (fun _ _ => True) (Run.typeText h s) := by
  refine .bind (.of_ok (.refl ..) (by simpa using hup) trivial :
    Leaves s.heap rest (fun _ => 0) (fun _ _ => True) (Run.typeOf h s)) fun found s₁ _ hup₁ _ => ?_
  cases found with
  | ok t => exact .pure hup₁ trivial
  | error e => exact .raise (by simpa using hup₁)

theorem newText_leaves {act : Run String}
    (hact : Leaves s.heap rest (fun _ => 0) (fun _ _ => True) (act s)) :
    Leaves s.heap rest (fun r : Handle => {r.holding}) (fun m r => m.Honest r)
      ((do Run.newStr (← act) : Run Handle) s) :=
  .bind hact fun _ _ _ hup₁ _ => Run.newScalar_leaves (by simpa using hup₁) rfl

theorem run_leaves (hreduce : reduce.Finishes) (b : Body Handle) (hup : s.heap.Upright rest)
    (hprovides : s.heap.Provides rest o args k) (hcaptures : b.captures ⊆ k.body.captures) :
    Leaves s.heap rest (fun r : Handle => {r.holding}) (fun m r => m.Honest r)
      (b.run reduce args s) := by
  -- On the body. What earlier parts gave stays honest, as honesty persists while it is held.
  induction b generalizing s rest with
  | «lazy» i => exact Args.peek_leaves hup
  | force i => exact (Args.force_leaves hreduce hup).imp fun _ _ h => h.1.honest
  | value type i =>
    cases type with
    | int | bool | str =>
      exact unboxed_leaves hreduce hup hprovides fun _ _ hup₁ _ => Run.newScalar_leaves hup₁ rfl
    | pair =>
      refine .bind (Args.pair_leaves hreduce hup) fun r s₁ _ hup₁ hparts => ?_
      exact Run.newPair_leaves (by simpa using hup₁) hparts.1 hparts.2
  | length | isEmpty | name | int | bool | str => exact Run.newScalar_leaves hup rfl
  | primitive p =>
    exact (Run.share_produces (h := .plain ⟨p.place⟩) hup (hup.valid.library.live p)
      persists_honest (hup.cells.library p)).leaves
  | captured h =>
    obtain ⟨hlive, hhonest⟩ := hprovides.captured hup (hcaptures (List.mem_singleton_self h))
    exact (Run.share_produces hup hlive persists_honest hhonest).leaves
  | apply a b iha ihb =>
    obtain ⟨hca, hcb⟩ := List.append_subset.mp hcaptures
    exact both_leaves (iha hup hprovides hca) (fun x s' hspares hup' => ihb hup'
      (hprovides.beside hspares hup') hcb)
      fun x y s' hup' hx hy => Run.newApplication_leaves hup' hx hy
  | bind a b iha ihb =>
    obtain ⟨hca, hcb⟩ := List.append_subset.mp hcaptures
    exact both_leaves (iha hup hprovides hca) (fun x s' hspares hup' => ihb hup'
      (hprovides.beside hspares hup') hcb)
      fun x y s' hup' _ hy => (Run.applyArgument_leaves hup' hy).imp fun _ _ h => h.honest
  | pair a b iha ihb =>
    obtain ⟨hca, hcb⟩ := List.append_subset.mp hcaptures
    exact both_leaves (iha hup hprovides hca) (fun x s' hspares hup' => ihb hup'
      (hprovides.beside hspares hup') hcb)
      fun x y s' hup' hx hy => Run.newPair_leaves hup' hx hy
  | field i e ih =>
    refine .bind (ih hup hprovides hcaptures) fun h s₁ _ hup₁ _ => .releasing ?_ persists_honest
    rw [Multiset.singleton_add] at hup₁
    exact shareField_leaves hup₁
  | eval e ih =>
    refine .bind (ih hup hprovides hcaptures) fun h s₁ _ hup₁ hh => .releasing ?_ persists_honest
    rw [Multiset.singleton_add] at hup₁
    refine .bind (hreduce hup₁ (Multiset.mem_cons_self ..) hh) fun r s₂ _ hup₂ hfinal => ?_
    rw [Multiset.singleton_add] at hup₂
    exact (Run.intoResult_leaves hup₂ hfinal).imp fun _ _ h => h.1.honest
  | clone e ih =>
    refine .bind (ih hup hprovides hcaptures) fun h s₁ _ hup₁ hh => .releasing ?_ persists_honest
    rw [Multiset.singleton_add] at hup₁
    exact (Run.cloneObject_produces hup₁ (Multiset.mem_cons_self ..) hh).leaves
  | bindSelf e ih =>
    refine .bind (ih hup hprovides hcaptures) fun h s₁ _ hup₁ hh => .releasing ?_ persists_honest
    rw [Multiset.singleton_add] at hup₁
    exact (Run.bindSelf_leaves hup₁ (Multiset.mem_cons_self ..)).imp fun _ _ h => h.honest
  | typeOf e ih =>
    refine .bind (ih hup hprovides hcaptures) fun h s₁ _ hup₁ hh => .releasing ?_ persists_honest
    rw [Multiset.singleton_add] at hup₁
    exact newText_leaves (typeText_leaves hup₁)
  | seq a b iha ihb =>
    obtain ⟨hca, hcb⟩ := List.append_subset.mp hcaptures
    refine .bind (iha hup hprovides hca) fun h s₁ hspares hup₁ _ => ?_
    rw [Multiset.singleton_add] at hup₁
    have hrelease : ∀ {fixed}, Spares fixed s₁.heap (s₁.heap.release h) := .release _ h
    exact .step rfl hrelease (ihb hup₁.release (hprovides.spares (hspares.trans hrelease)
      hup₁.release (Multiset.Subset.refl _)) hcb)
  | recover a b iha ihb =>
    obtain ⟨hca, hcb⟩ := List.append_subset.mp hcaptures
    refine .tryCatch (iha hup hprovides hca) fun signal s' hspares hup' => ?_
    cases signal with
    | raised e => exact ihb hup' (hprovides.spares hspares hup' (Multiset.Subset.refl _)) hcb
    | panicked p | exhausted => exact .throw hup'
  | log text e ih =>
    exact .step (z := { s with trace := s.trace.push (.note text) }) rfl (.refl ..)
      (ih hup hprovides hcaptures)
  | compare how i n yes no ihyes ihno =>
    obtain ⟨hcy, hcn⟩ := List.append_subset.mp hcaptures
    refine unboxed_leaves hreduce hup hprovides fun a s' hup' hprovides' => ?_
    split
    · exact ihyes hup' hprovides' hcy
    · exact ihno hup' hprovides' hcn
  | cond i yes no ihyes ihno =>
    obtain ⟨hcy, hcn⟩ := List.append_subset.mp hcaptures
    refine unboxed_leaves hreduce hup hprovides fun a s' hup' hprovides' => ?_
    split
    · exact ihyes hup' hprovides' hcy
    · exact ihno hup' hprovides' hcn
  | raise e => exact .raise hup
  | panic p => exact .throw hup
  | arith op =>
    refine unboxed_leaves hreduce hup hprovides fun a s₁ hup₁ hprovides₁ => ?_
    refine unboxed_leaves hreduce hup₁ hprovides₁ fun b s₂ hup₂ _ => ?_
    cases op.result? a b with
    | some n => exact Run.newScalar_leaves hup₂ rfl
    | none => exact .raise hup₂
  | test how =>
    refine unboxed_leaves hreduce hup hprovides fun a s₁ hup₁ hprovides₁ => ?_
    exact unboxed_leaves hreduce hup₁ hprovides₁ fun b s₂ hup₂ _ => Run.newScalar_leaves hup₂ rfl
  | fail i => exact unboxed_leaves hreduce hup hprovides fun text s₁ hup₁ _ => .raise hup₁
  | tie =>
    refine .bind (Args.force_leaves hreduce hup) fun h s₁ _ hup₁ _ => ?_
    rw [Multiset.singleton_add] at hup₁
    exact Run.tie_leaves hreduce hup₁

end Body

end GraphReduction
