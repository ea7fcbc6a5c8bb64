import Mathlib
import GraphReduction.Proofs.Labels.Demand
import GraphReduction.Proofs.Marks.Results
import GraphReduction.Proofs.Moves.Tie
import GraphReduction.Proofs.Ranks.Binding

/-! Running the bodies of the primitives, which halts if evaluating what ranks below their closure
does. What a body demands are arguments of its closure, and whatever it returns ranks no higher than
they do. Only a fixpoint makes a closure, of its argument, and it has room for that. -/
namespace GraphReduction

open Heap Marks Ranks

variable {bad : Signal → Prop} {m m' : Heap} {R R' : Ranks} {rest held : Multiset Holding} {s : Machine}
  {o : ObjectId} {h : Handle} {t : ThunkId} {c : Closure} {p : Primitive} {d n k : Nat}
  {reduce : Reducer} {args : Args} {i : Nat}

/-- The handle leads to a closure that has all its arguments. -/
def Heap.LeadsToCall (m : Heap) (h : Handle) : Prop := ∃ c, m.closure? h = some c ∧ c.missing = 0

/-- A reducer that halts on what ranks below `d` while nothing of as low a rank is being computed.
The result ranks no higher, and lower if it is that of a closure with all its arguments. -/
def Reducer.HaltsBelow (d : Nat) (reduce : Reducer) : Prop :=
  ∀ {s : Machine} {R : Ranks} {rest : Multiset Holding} {h : Handle}, R.Upholds s.heap rest →
    h.holding ∈ rest → R.object h.target < d → R.Clear s.heap (R.object h.target) →
      Finishes meaning s.heap R rest (fun r : Handle => {r.holding})
        (fun _ R' r => R'.object r.target ≤ R.object h.target ∧
          (s.heap.LeadsToCall h → R'.object r.target < R.object h.target)) silent (reduce h s)

namespace Ranks

/-- The closure at `o` of rank `n + 1`, whose result is being computed, has all its arguments. -/
structure Supplies (R : Ranks) (m : Heap) (held : Multiset Holding) (o : ObjectId) (p : Primitive)
    (n : Nat) (args : Args) : Prop where
  held : .strong (.object o) ∈ held
  kind : m.kindOf? o = some (.closure { args.closure with memo := .running })
  arguments : ∀ t ∈ args.closure.arguments, ∃ k, R.thunk t = .upTo k ∧ p.needs k ≤ n + 1

namespace Supplies

theorem live (h : R.Supplies m held o p n args) (hup : R.Upholds m rest)
    (ht : t ∈ args.closure.arguments) : m.IsLive (.thunk t) :=
  hup.argument_live h.kind (by simpa [Closure.arguments] using ht)

theorem evolve (h : R.Supplies m held o p n args) (hup : R.Upholds m rest)
    (hev : Advances held m R m' R') : R'.Supplies m' held o p n args where
  held := h.held
  kind := hev.kindOf?_eq h.held h.kind (by simp)
  arguments t ht := by
    obtain ⟨k, hk, hle⟩ := h.arguments t ht
    exact ⟨k, (hev.thunk t (h.live hup ht).allocated).trans hk, hle⟩

theorem argument?_eq (h : R.Supplies m held o p n args) (hup : R.Upholds m rest) (i : Nat) :
    args.closure.argument? i = args.closure.arguments[i]? :=
  Closure.argument?_eq (hup.valid.proper _ _ h.kind) i

end Supplies

end Ranks

namespace ThunkId

theorem keep_delivers {value : Handle} (hup : R.Upholds s.heap (value.holding ::ₘ rest))
    (hlive : s.heap.IsLive (.thunk t)) (ht : R.thunk t = .upTo k)
    (hvalue : R.object value.target ≤ k) : Delivers bad s.heap R rest k (t.keep value s) := by
  obtain ⟨state, hstate, hsuspends⟩ := hup.stateOf?_of_live hlive
  rw [ht] at hsuspends
  cases hsuspends with
  | pending =>
    refine .imp (keep_pending hup hstate (by rw [ht]; exact .forced hvalue)) (fun _ R' r hr => ?_)
      fun _ h => h
    obtain ⟨rfl, rfl⟩ := hr
    exact hvalue
  | forced hrank =>
    refine .imp (keep_forced hup hstate) (fun _ R' r hr => ?_) fun _ h => h
    obtain ⟨rfl, rfl⟩ := hr
    exact hrank

theorem force_delivers (hreduce : reduce.HaltsBelow d) (hup : R.Upholds s.heap rest)
    (hsupplies : R.Supplies s.heap rest o p n args) (harg : t ∈ args.closure.arguments)
    (ht : R.thunk t = .upTo k) (hk : k < d) (hclear : R.Clear s.heap k) :
    Delivers bad s.heap R rest k (t.force reduce s) := by
  have hlive := hsupplies.live hup harg
  obtain ⟨state, hstate, hsuspends⟩ := hup.stateOf?_of_live hlive
  refine .step (state?_run t s) (.refl ..) ?_
  rw [ht] at hsuspends
  rw [hstate]
  cases hsuspends with
  | @forced r _ hrank =>
    exact Delivers.share hup (hup.live_of_state hstate (by simp [Handle.holding])) hrank
  | @pending h _ hrank =>
    have hup₁ := hup.share (h := h) (hup.live_of_state hstate (by simp [Handle.holding]))
    refine .step rfl .share (.releasing (.inspect ?_))
    refine .bind (.of_silent (hreduce (s := s.on (·.retain h)) hup₁ (Multiset.mem_cons_self ..)
      (hrank.trans_lt hk) (hclear.mono hrank).share)) fun value s₁ R₁ hev hup₂ hgood => ?_
    have hvalue := hgood.1
    rw [Multiset.singleton_add] at hup₂
    split
    · exact Delivers.of_ok (.refl ..) hup₂ (hvalue.trans hrank)
    · have hev₁ : Advances rest s.heap R s₁.heap R₁ :=
        .trans .share (hev.mono (Multiset.subset_cons _ _))
      exact keep_delivers hup₂ ((hsupplies.evolve hup hev₁).live hup₂ harg)
        ((hev₁.thunk t hlive.allocated).trans ht) (hvalue.trans hrank)

theorem peek_delivers (hup : R.Upholds s.heap rest) (hlive : s.heap.IsLive (.thunk t))
    (ht : R.thunk t = .upTo k) : Delivers bad s.heap R rest k (t.peek s) := by
  obtain ⟨state, hstate, hsuspends⟩ := hup.stateOf?_of_live hlive
  refine .step (state?_run t s) (.refl ..) ?_
  rw [ht] at hsuspends
  rw [hstate]
  cases hsuspends with
  | forced hrank | pending hrank =>
    exact Delivers.share hup (hup.live_of_state hstate (by simp [Handle.holding])) hrank

end ThunkId

namespace Run

theorem intoResult_finishes (hup : R.Upholds s.heap (h.holding ::ₘ rest)) :
    Finishes meaning s.heap R rest (fun r : Handle => {r.holding})
      (fun _ R' r => R'.object r.target = R.object h.target ∧ r.isException = false) raising
      (intoResult h s) := by
  refine .inspect ?_
  cases s.heap.error? h with
  | some e =>
    exact .of_error (s := s.on (·.release h)) ⟨e, rfl⟩
      (.release hup.valid (Multiset.Subset.refl _)) hup.release
  | none =>
    exact .of_ok (.refl ..) (by rwa [Handle.holding_untagged, Multiset.singleton_add]) ⟨rfl, rfl⟩

end Run

namespace Args

theorem thunk_finishes {α : Type} {post : α → Multiset Holding} {good : Heap → Ranks → α → Prop}
    {next : ThunkId → Run α} (hup : R.Upholds s.heap rest)
    (hsupplies : R.Supplies s.heap rest o p n args)
    (hnext : ∀ t ∈ args.closure.arguments, Finishes meaning s.heap R rest post good raising (next t s)) :
    Finishes meaning s.heap R rest post good raising ((args.thunk i >>= next) s) := by
  rw [Args.thunk, hsupplies.argument?_eq hup]
  cases hi : args.closure.arguments[i]? with
  | some t => exact .step rfl (.refl ..) (hnext t (List.mem_of_getElem? hi))
  | none => exact .of_error ⟨_, rfl⟩ (.refl ..) hup

theorem force_finishes (hreduce : reduce.HaltsBelow d) (hn : n < d) (hup : R.Upholds s.heap rest)
    (hsupplies : R.Supplies s.heap rest o p n args) (hclear : R.Clear s.heap n) :
    Finishes meaning s.heap R rest (fun r : Handle => {r.holding})
      (fun _ R' r => p.needs (R'.object r.target) ≤ n + 1) raising (args.force reduce i s) := by
  refine thunk_finishes hup hsupplies fun t harg => ?_
  obtain ⟨k, ht, hneeds⟩ := hsupplies.arguments t harg
  have hk : k ≤ n := Nat.le_of_lt_succ ((p.lt_needs k).trans_le hneeds)
  refine .bind (t.force_delivers hreduce hup hsupplies harg ht (by omega) (hclear.mono hk))
    fun h s₁ R₁ _ hup₁ hrank => ?_
  rw [Multiset.singleton_add] at hup₁
  exact .imp (Run.intoResult_finishes hup₁)
    (fun _ R' r ⟨hsame, _⟩ => (p.needs_mono (hsame.le.trans hrank)).trans hneeds) fun _ h => h

theorem unbox_finishes {α : Type} {expected : TypeName} {take : Payload → Option α}
    (hreduce : reduce.HaltsBelow d) (hn : n < d) (hup : R.Upholds s.heap rest)
    (hsupplies : R.Supplies s.heap rest o p n args) (hclear : R.Clear s.heap n) :
    Finishes meaning s.heap R rest (fun _ => 0) (fun _ _ _ => True) raising
      (args.unbox reduce i expected take s) := by
  refine .bind (force_finishes hreduce hn hup hsupplies hclear) fun h s₁ R₁ _ hup₁ _ => .inspect ?_
  rw [Multiset.singleton_add] at hup₁
  have hend : Advances rest s₁.heap R₁ (s₁.heap.release h) R₁ :=
    .release hup₁.valid (Multiset.Subset.refl _)
  cases (s₁.heap.boxed? h).bind fun v => take v.payload with
  | some a =>
    exact .of_ok (s := s₁.on (·.release h)) hend (by rw [zero_add]; exact hup₁.release) trivial
  | none => exact .inspect (.of_error (s := s₁.on (·.release h)) ⟨_, rfl⟩ hend hup₁.release)

end Args

namespace Run

variable {function knot : Handle}

/-- Only a self reference is pointed anywhere, here at a value of no higher rank. -/
theorem resolve_finishes {value : Handle} (hup : R.Upholds s.heap (value.holding ::ₘ rest))
    (hplain : value.isException = false) (hvalue : R.object value.target ≤ R.object o) :
    Finishes meaning s.heap R rest (fun _ => {value.holding}) (fun _ R' _ => R' = R)
      bad (resolve o value s) := by
  rw [← Multiset.singleton_add] at hup
  by_cases hknot : s.heap.kindOf? o = some (.application (.knot .unresolved))
  · rw [resolve_run hknot hplain]
    exact .of_ok (s := s.on (·.tie o value)) (.tie hknot value)
      (hup.tie hknot (hup.live (by simp)) (.strong hvalue) (.weak hvalue)) rfl
  · have hnone : (s.heap.kind? (.plain o)).bind ObjectKind.application? ≠
        some (.knot .unresolved) := by
      intro hfound
      obtain ⟨kind, hkind, happ⟩ := Option.bind_eq_some_iff.1 hfound
      cases kind with
      | application =>
        cases happ
        exact hknot hkind
      | value | closure | exception => cases happ
    refine .inspect ?_
    generalize (s.heap.kind? (.plain o)).bind ObjectKind.application? = found at hnone
    split
    · exact (hnone rfl).elim
    · exact .of_ok (.refl ..) hup rfl

theorem resolveValue_delivers {saturated : Handle} (hreduce : reduce.HaltsBelow d)
    (hup : R.Upholds s.heap (saturated.holding ::ₘ knot.holding ::ₘ rest))
    (hcall : s.heap.LeadsToCall saturated) (hrank : R.object saturated.target = k + 1)
    (hknot : R.object knot.target = k) (hd : k + 1 < d) (hclear : R.Clear s.heap (k + 1)) :
    Delivers raising s.heap R (knot.holding ::ₘ rest) k
      (releasing saturated (do
        let value ← intoResult (← reduce saturated)
        resolve knot.target value
        pure value) s) := by
  refine .releasing ?_
  refine .bind (.of_silent (hreduce hup (Multiset.mem_cons_self ..) (hrank ▸ hd) (hrank ▸ hclear)))
    fun r s₁ R₁ hev hup₁ ⟨_, hlow⟩ => ?_
  have hr : R₁.object r.target ≤ k := Nat.le_of_lt_succ ((hlow hcall).trans_eq hrank)
  rw [Multiset.singleton_add] at hup₁
  refine .bind (intoResult_finishes hup₁) fun value s₂ R₂ hev₂ hup₂ ⟨hsame, hplain⟩ => ?_
  have hvalue : R₂.object value.target ≤ k := hsame.le.trans hr
  have hknot₂ : R₂.object knot.target = k :=
    ((hev.trans hev₂).handle (Multiset.mem_cons_of_mem (Multiset.mem_cons_self ..))).trans hknot
  rw [Multiset.singleton_add] at hup₂
  refine .bind (resolve_finishes hup₂ hplain (hvalue.trans hknot₂.ge)) fun _ s₃ R₃ _ hup₃ hkept => ?_
  subst hkept
  exact .of_ok (.refl ..) hup₃ hvalue

theorem knotValue_delivers (hreduce : reduce.HaltsBelow d)
    (hup : R.Upholds s.heap (knot.holding ::ₘ function.holding ::ₘ rest))
    (hkind : s.heap.kindOf? function.target = some (.closure c))
    (hcloses : R.Closes function.target (R.object function.target) c p) (hone : c.missing = 1)
    (hknot : R.object knot.target = k) (hbound : p.bound (R.object function.target) k = k + 1)
    (hd : k + 1 < d) (hclear : R.Clear s.heap (k + 1)) :
    Delivers raising s.heap R rest k
      (releasing knot (do
        let saturated ← applyArgument function (← share knot)
        releasing saturated do
          let value ← intoResult (← reduce saturated)
          resolve knot.target value
          pure value) s) := by
  have hup₁ := hup.share (hup.live (Multiset.mem_cons_self ..))
  rw [Multiset.cons_swap knot.holding function.holding, Multiset.cons_swap] at hup₁
  have hkind₁ := (kindOf?_congr (contents_retain s.heap knot) function.target).trans hkind
  refine .releasing (.step (share_run knot s) .share ?_)
  refine .bind (applyArgument_oneMore hup₁ hkind₁ hcloses (by omega) hknot)
    fun saturated s₁ R₁ hev hup₂ ⟨hrank, c', hclosure, hlast⟩ => ?_
  rw [Multiset.singleton_add] at hup₂
  exact resolveValue_delivers hreduce hup₂ ⟨c', hclosure, by omega⟩ (hrank.trans hbound)
    ((hev.handle (Multiset.mem_cons_self ..)).trans hknot) hd
    (hclear.share.advances hev)

/-- The self reference ranks as the function, or as low as anything can if the function is a
fixpoint: that asks for its self reference at once, and is refused. -/
theorem tieData_delivers (hreduce : reduce.HaltsBelow d)
    (hup : R.Upholds s.heap (function.holding ::ₘ rest))
    (hkind : s.heap.kindOf? function.target = some (.closure c))
    (hcloses : R.Closes function.target (R.object function.target) c p) (hone : c.missing = 1)
    (hd : R.object function.target + 1 < d)
    (hclear : R.Clear s.heap (R.object function.target + 1)) :
    Delivers raising s.heap R rest (R.object function.target) ((do
      let knot ← newKnot
      let value ← releasing knot do
        let saturated ← applyArgument function (← share knot)
        releasing saturated do
          let value ← intoResult (← reduce saturated)
          resolve knot.target value
          pure value
      tied knot.target value
      pure value : Run Handle) s) := by
  let knotRank := p.knot (R.object function.target)
  have hle : knotRank ≤ R.object function.target := p.knot_le _
  have hheld : R.Upholds s.heap
      ((ObjectKind.application (.knot .unresolved)).holdings + (function.holding ::ₘ rest)) := by
    simpa using hup
  have hup₁ := hheld.newObject (a := knotRank) (by simp) .unresolved
  have hev : Advances rest s.heap R _ (R.withObject s.heap.nextObject knotRank) :=
    .newObject hheld.valid (fun r hr => by simp [hr]) (.application (.knot .unresolved)) (by simp) _
  have hne := ne_nextObject hkind
  have hkind₁ : (s.heap.newObject (.application (.knot .unresolved))).2.kindOf? function.target =
      some (.closure c) := by
    rw [kindOf?_newObject, if_neg hne, hkind]
  have hcloses₁ : Closes (R.withObject s.heap.nextObject knotRank) function.target
      ((R.withObject s.heap.nextObject knotRank).object function.target) c p := by
    rw [withObject_of_ne hne]
    exact hcloses.of_agrees ((agrees_withObject hup.valid _).mono fun r hr =>
      Multiset.mem_add.2 (.inl (holdings_subset_held hkind hr)))
  have hbound :
      p.bound ((R.withObject s.heap.nextObject knotRank).object function.target) knotRank =
        knotRank + 1 := by
    rw [withObject_of_ne hne]
    exact p.bound_knot _
  refine .step (z := s.on fun m => (m.newObject (.application (.knot .unresolved))).2) rfl hev
    ?_
  refine .bind (knotValue_delivers (s := s.on fun m =>
    (m.newObject (.application (.knot .unresolved))).2) hreduce hup₁ hkind₁ hcloses₁ hone
      withObject_self hbound (by omega) ((hclear.mono (by omega)).advances hev))
    fun value s₁ R₁ _ hup₂ hvalue => .of_ok (.refl ..) hup₂ (hvalue.trans hle)

theorem tie_delivers (hreduce : reduce.HaltsBelow d) (hn : n < d)
    (hup : R.Upholds s.heap (function.holding ::ₘ rest))
    (hfunction : Primitive.fix.needs (R.object function.target) ≤ n + 1)
    (hclear : R.Clear s.heap n) : Delivers raising s.heap R rest n (tie reduce function s) := by
  have hrefuse : Delivers raising s.heap R rest n ((do
      let found ← Run.inspect (·.describe function)
      release function
      raise (.badFix found) : Run Handle) s) :=
    .inspect (.of_error (s := s.on (·.release function)) ⟨_, rfl⟩
      (.release hup.valid (Multiset.Subset.refl _)) hup.release)
  refine .inspect ?_
  cases hclosure : s.heap.closure? function with
  | none => exact hrefuse
  | some c =>
    have hkind := kindOf?_of_closure? hclosure
    obtain ⟨p, hcloses⟩ := hup.exists_closes hkind
    have hroom : R.object function.target + 1 ≤ n := by
      rw [Primitive.needs_fix hcloses.pos] at hfunction
      omega
    simp only [Option.map_some, Option.getD_some]
    match hcount : c.missing with
    | 0 => exact hrefuse
    | 1 =>
      exact (tieData_delivers hreduce hup hkind hcloses hcount (by omega) (hclear.mono hroom)).mono
        (by omega)
    | m + 2 =>
      exact .releasing (Delivers.mono (bindSelf_delivers hup (Multiset.mem_cons_self ..) hclosure
        (by omega)) hroom)

end Run

namespace Body

theorem operands_return {next : Int64 → Int64 → Run Handle} (hreduce : reduce.HaltsBelow d)
    (hn : n < d) (hup : R.Upholds s.heap rest) (hsupplies : R.Supplies s.heap rest o p n args)
    (hclear : R.Clear s.heap n)
    (hnext : ∀ a b (s' : Machine) (R' : Ranks), R'.Upholds s'.heap rest →
      Delivers raising s'.heap R' rest n (next a b s')) :
    Delivers raising s.heap R rest n ((do
      let a ← args.int reduce 0
      let b ← args.int reduce 1
      next a b : Run Handle) s) := by
  refine .bind (Args.unbox_finishes hreduce hn hup hsupplies hclear)
    fun a s₁ R₁ hev hup₁ _ => ?_
  rw [zero_add] at hup₁
  refine .bind (Args.unbox_finishes hreduce hn hup₁ (hsupplies.evolve hup hev) (hclear.advances hev))
    fun b s₂ R₂ _ hup₂ _ => ?_
  rw [zero_add] at hup₂
  exact hnext a b s₂ R₂ hup₂

theorem arith_delivers (hreduce : reduce.HaltsBelow d) (hn : n < d) (hup : R.Upholds s.heap rest)
    (hsupplies : R.Supplies s.heap rest o p n args) (hclear : R.Clear s.heap n) (op : Arith) :
    Delivers raising s.heap R rest n ((Body.arith op).run reduce args s) := by
  refine operands_return hreduce hn hup hsupplies hclear fun a b s' R' hup' => ?_
  cases op.result? a b with
  | some k => exact Delivers.newValue hup' rfl
  | none => exact .of_error ⟨_, rfl⟩ (.refl ..) hup'

theorem test_delivers (hreduce : reduce.HaltsBelow d) (hn : n < d) (hup : R.Upholds s.heap rest)
    (hsupplies : R.Supplies s.heap rest o p n args) (hclear : R.Clear s.heap n)
    (how : Comparison) : Delivers raising s.heap R rest n ((Body.test how).run reduce args s) :=
  operands_return hreduce hn hup hsupplies hclear fun _ _ _ _ hup' => Delivers.newValue hup' rfl

theorem lazy_delivers (hup : R.Upholds s.heap rest) (hsupplies : R.Supplies s.heap rest o p n args)
    (i : Nat) : Delivers raising s.heap R rest n ((do (← args.thunk i).peek : Run Handle) s) :=
  Args.thunk_finishes hup hsupplies fun t harg => by
    obtain ⟨k, ht, hneeds⟩ := hsupplies.arguments t harg
    have hk : k ≤ n := Nat.le_of_lt_succ ((p.lt_needs k).trans_le hneeds)
    exact (t.peek_delivers hup (hsupplies.live hup harg) ht).mono hk

theorem run_delivers (hreduce : reduce.HaltsBelow d) (hn : n < d) (hup : R.Upholds s.heap rest)
    (hsupplies : R.Supplies s.heap rest o p n args) (hclear : R.Clear s.heap n) :
    Delivers raising s.heap R rest n (p.body.run reduce args s) := by
  cases p with
  | add | sub | mul => exact arith_delivers hreduce hn hup hsupplies hclear _
  | eq | lt => exact test_delivers hreduce hn hup hsupplies hclear _
  | identity | constant => exact lazy_delivers hup hsupplies 0
  | ifThenElse =>
    refine .bind (Args.unbox_finishes hreduce hn hup hsupplies hclear)
      fun b s₁ R₁ hev hup₁ _ => ?_
    rw [zero_add] at hup₁
    cases b with
    | true => exact lazy_delivers hup₁ (hsupplies.evolve hup hev) 1
    | false => exact lazy_delivers hup₁ (hsupplies.evolve hup hev) 2
  | fail =>
    refine .bind (Args.unbox_finishes hreduce hn hup hsupplies hclear)
      fun text s₁ R₁ _ hup₁ _ => .of_error ⟨_, rfl⟩ (.refl ..) ?_
    rwa [zero_add] at hup₁
  | fix =>
    refine .bind (Args.force_finishes hreduce hn hup hsupplies hclear)
      fun function s₁ R₁ hev hup₁ hneeds => ?_
    rw [Multiset.singleton_add] at hup₁
    exact Run.tie_delivers hreduce hn hup₁ hneeds (hclear.advances hev)

end Body

end GraphReduction
