import Mathlib
import GraphReduction.Proofs.Labels.Demand
import GraphReduction.Proofs.Marks.Results
import GraphReduction.Proofs.Trees.Binding

/-! Demands for arguments, read as trees. A thunk keeps what it was evaluated to, so that later
demands find it; a tree is evaluated anew each time, and comes to the same. -/
namespace GraphReduction

open Heap Marks Reading

variable {options : Options} {d : Nat} {m m' : Heap} {R R' : Reading}
  {rest held : Multiset Holding} {s : Machine} {o : ObjectId} {h : Handle} {t v : Tree}
  {w : ThunkId} {reduce : Reducer} {args : Args} {given : Tree.Given} {i : Nat}

/-- The self reference of a data fixpoint is somewhere in the heap. -/
def Heap.HoldsKnot (m : Heap) : Prop := ∃ o k, m.kindOf? o = some (.application (.knot k))

/-- A reducer that mirrors evaluation with so many layers, and that gives up while a data fixpoint is
being computed. -/
structure Reducer.IsMirror (options : Options) (d : Nat) (reduce : Reducer) : Prop where
  handle : ∀ {s : Machine} {R : Reading} {rest : Multiset Holding} {h : Handle} {t : Tree},
    R.Upholds options s.heap rest → h.holding ∈ rest → R.Stands options h t →
      Mirrors options d s.heap R rest (fun r : Handle => {r.holding}) (fun R' r v => R'.Shows r v)
        (fun n => Tree.reduceUpTo options n t) (reduce h s)
  knot : ∀ {s : Machine} (h : Handle), s.heap.HoldsKnot → ∃ s', reduce h s = .error .exhausted s'

theorem Marks.Upholds.isKnot_eq_false (hup : R.Upholds options m held) : m.isKnot h = false := by
  rw [Heap.isKnot]
  split
  · next k happ =>
    exact (Reads.not_knot (hup.fits.object _ _ (kindOf?_of_application? happ)) k rfl).elim
  · rfl

namespace Reading

/-- The closure at `o`, whose result is being computed, has all its arguments, and its body is given
these. -/
structure Supplies (R : Reading) (m : Heap) (held : Multiset Holding) (o : ObjectId) (args : Args)
    (given : Tree.Given) : Prop where
  held : .strong (.object o) ∈ held
  kind : m.kindOf? o = some (.closure { args.closure with memo := .running })
  missing : args.closure.missing = 0
  name : given.combinator = args.combinator
  trees : given.args = args.closure.arguments.map R.thunk

namespace Supplies

theorem live (h : R.Supplies m held o args given) (hup : R.Upholds options m rest)
    (hw : w ∈ args.closure.arguments) : m.IsLive (.thunk w) :=
  hup.argument_live h.kind (by simpa [Closure.arguments] using hw)

theorem forward (h : R.Supplies m held o args given) (hup : R.Upholds options m rest)
    (hw : w ∈ args.closure.arguments) : m.Forward w := by
  intro p hp
  obtain ⟨-, hmissing, -⟩ := (hup.closes h.kind).back w (by simpa [Closure.arguments] using hw) p hp
  have := h.missing
  simp only at hmissing
  omega

theorem evolve (h : R.Supplies m held o args given) (hup : R.Upholds options m rest)
    (hev : Advances held m R m' R') : R'.Supplies m' held o args given where
  held := h.held
  kind := hev.kindOf?_eq h.held h.kind (by simp)
  missing := h.missing
  name := h.name
  trees := by
    rw [h.trees]
    exact List.map_congr_left fun w hw => (hev.thunk w (h.live hup hw).allocated).symm

theorem argument?_eq (h : R.Supplies m held o args given) (hup : R.Upholds options m rest)
    (i : Nat) : args.closure.argument? i = args.closure.arguments[i]? :=
  Closure.argument?_eq (hup.valid.proper _ _ h.kind) i

theorem lazy_eq (h : R.Supplies m held o args given) (i : Nat) :
    given.lazy i = match args.closure.arguments[i]? with
      | some w => .ok (R.thunk w)
      | none => Tree.raise (.foreign ("argument " ++ i.repr ++ " of `" ++ args.combinator ++
          "` is not bound")) := by
  rw [Tree.Given.lazy, h.trees, List.getElem?_map, h.name]
  cases args.closure.arguments[i]? <;> rfl

end Supplies

end Reading

namespace ThunkId

theorem keep_mirrors {value : Handle} (hup : R.Upholds options s.heap (value.holding ::ₘ rest))
    (hlive : s.heap.IsLive (.thunk w)) (hforward : s.heap.Forward w) (hvalue : R.Shows value v)
    (hyields : (R.thunk w).Yields options v) :
    Mirrors options d s.heap R rest (fun r : Handle => {r.holding}) (fun R' r v => R'.Shows r v)
      (fun _ => .ok v) (w.keep value s) := by
  obtain ⟨state, hstate, hsuspends⟩ := hup.stateOf?_of_live hlive
  generalize htree : R.thunk w = t at hsuspends hyields
  cases hsuspends with
  | recursive => exact (hforward _ hstate).elim
  | pending _ =>
    refine Finishes.imp (keep_pending hup hstate (htree ▸ .forced hvalue hyields))
      (fun m' R' r ⟨hsame, hr⟩ => ?_) fun _ h => h
    subst hsame hr
    exact ⟨v, hvalue, .always _⟩
  | @forced first _ v' hresult hyields' =>
    obtain rfl := hyields.unique hyields'
    refine Finishes.imp (keep_forced hup hstate) (fun m' R' r ⟨hsame, hr⟩ => ?_) fun _ h => h
    subst hsame hr
    exact ⟨v, hresult, .always _⟩

theorem force_mirrors (hreduce : reduce.IsMirror options d)
    (hup : R.Upholds options s.heap rest) (hsupplies : R.Supplies s.heap rest o args given)
    (hw : w ∈ args.closure.arguments) :
    Mirrors options d s.heap R rest (fun r : Handle => {r.holding}) (fun R' r v => R'.Shows r v)
      (fun n => Tree.reduceUpTo options n (R.thunk w)) (w.force reduce s) := by
  obtain ⟨state, hstate, hsuspends⟩ := hup.stateOf?_of_live (hsupplies.live hup hw)
  refine .step (state?_run w s) (.refl ..) ?_
  generalize htree : R.thunk w = t at hsuspends
  rw [hstate]
  cases hsuspends with
  | recursive => exact (hsupplies.forward hup hw _ hstate).elim
  | @forced r _ v hresult hyields =>
    have hlive : s.heap.IsLive r.edge := hup.live_of_state hstate (by simp [Handle.holding])
    refine .of_ok (s := s.on (·.retain r)) .share ?_ hresult hyields
    rw [Multiset.singleton_add]
    exact hup.share hlive
  | @pending h _ hstands =>
    have hlive : s.heap.IsLive h.edge := hup.live_of_state hstate (by simp [Handle.holding])
    have hup₁ := hup.share hlive
    have hknot : (s.heap.retain h).isKnot h = false := hup₁.isKnot_eq_false
    refine .step rfl .share (.releasing (.inspect ?_))
    dsimp only
    simp only [hknot]
    refine .of_settles (fun n => bind_pure _) (.bind (g := fun v _ => .ok v)
      (hreduce.handle hup₁ (Multiset.mem_cons_self ..) hstands)
      fun value s₁ R₁ v hev hup₂ hvalue hlayers => ?_)
    have hsub : rest ⊆ h.holding ::ₘ rest := Multiset.subset_cons _ _
    have hsupplies₁ := hsupplies.evolve hup (Advances.share.trans (hev.mono hsub))
    rw [Multiset.singleton_add] at hup₂
    have hyields : (R₁.thunk w).Yields options v := by
      rw [hev.thunk w (hsupplies.live hup hw).allocated, htree]
      exact hlayers
    exact keep_mirrors hup₂ (hsupplies₁.live hup₂ hw) (hsupplies₁.forward hup₂ hw) hvalue hyields

theorem peek_mirrors (hup : R.Upholds options s.heap rest)
    (hsupplies : R.Supplies s.heap rest o args given) (hw : w ∈ args.closure.arguments) :
    Mirrors options d s.heap R rest (fun r : Handle => {r.holding})
      (fun R' r t => R'.Stands options r t) (fun _ => .ok (R.thunk w)) (w.peek s) := by
  obtain ⟨state, hstate, hsuspends⟩ := hup.stateOf?_of_live (hsupplies.live hup hw)
  refine .step (state?_run w s) (.refl ..) ?_
  have hshare : ∀ h : Handle, s.heap.IsLive h.edge → R.Upholds options (s.heap.retain h)
      ({h.holding} + rest) := fun h hlive => by
    rw [Multiset.singleton_add]
    exact hup.share hlive
  generalize htree : R.thunk w = t at hsuspends
  rw [hstate]
  cases hsuspends with
  | recursive => exact (hsupplies.forward hup hw _ hstate).elim
  | @forced r _ v hresult hyields =>
    exact .of_ok (s := s.on (·.retain r)) .share
      (hshare r (hup.live_of_state hstate (by simp [Handle.holding])))
      ⟨.inr (hresult.tree ▸ hyields), hresult.tree ▸ hresult.tagged⟩ (.always _)
  | @pending h _ hstands =>
    exact .of_ok (s := s.on (·.retain h)) .share
      (hshare h (hup.live_of_state hstate (by simp [Handle.holding]))) hstands (.always _)

end ThunkId

namespace Run

theorem intoResult_mirrors (hup : R.Upholds options s.heap (h.holding ::ₘ rest))
    (hshows : R.Shows h v) :
    Mirrors options d s.heap R rest (fun r : Handle => {r.holding})
      (fun R' r v => R'.Shows r v ∧ r.tag = .plain) (fun _ => Tree.intoResult v)
      (intoResult h s) := by
  obtain ⟨kind, hkind, hreads⟩ := hup.kindOf?_of_held (h := h) (Multiset.mem_cons_self ..)
  have hkind' : s.heap.kind? h = some kind := hkind
  refine .inspect ?_
  by_cases htag : h.tag = .exception
  · obtain ⟨e, rfl⟩ := hshows.tagged.exception.1 htag
    rw [hshows.tree] at hreads
    cases hreads with
    | closure hcloses => cases hcloses.code
    | failed =>
      simp only [Heap.error?, htag, if_true, hkind', Option.bind_some, ObjectKind.error?]
      exact .raised (s := s.on (·.release h)) (.release hup.valid (Multiset.Subset.refl _))
        hup.release (.always _)
  · have hsound : ∀ e, v ≠ .failed e := fun e heq =>
      htag (hshows.tagged.exception.2 ⟨e, heq⟩)
    have hresult : Tree.intoResult v = .ok v := by
      cases v with
      | failed e => exact (hsound e rfl).elim
      | value | pair | function | bound | tied | apply => rfl
    simp only [Heap.error?, htag, if_false, hresult]
    refine .of_ok (.refl ..) (by rwa [Handle.holding_untagged, Multiset.singleton_add])
      ⟨⟨hshows.tree, hshows.normal, ?_, .inl rfl⟩, rfl⟩ (.always _)
    simp [Handle.untagged, Tree.IsFailed, hsound]

end Run

namespace Args

/-- What is taken of an evaluated argument is in a value or in nothing. -/
structure Takes {α : Type} (take : Payload → Option α) : Prop where
  pair : ∀ h k, take (.pair h k) = none

theorem takes_int : Takes Payload.int? := ⟨fun _ _ => rfl⟩

theorem takes_bool : Takes Payload.bool? := ⟨fun _ _ => rfl⟩

theorem takes_str : Takes Payload.str? := ⟨fun _ _ => rfl⟩

theorem thunk_mirrors (hup : R.Upholds options s.heap rest)
    (hsupplies : R.Supplies s.heap rest o args given) {γ : Type} {next : ThunkId → Run γ}
    {post : γ → Multiset Holding} {δ : Type} {good : Reading → γ → δ → Prop}
    {g : Tree → Nat → Except Signal δ}
    (hnext : ∀ w ∈ args.closure.arguments,
      Mirrors options d s.heap R rest post good (g (R.thunk w)) (next w s)) :
    Mirrors options d s.heap R rest post good (fun n => given.lazy i >>= fun t => g t n)
      ((args.thunk i >>= next) s) := by
  rw [hsupplies.lazy_eq, Args.thunk, hsupplies.argument?_eq hup]
  cases hi : args.closure.arguments[i]? with
  | some w => exact .step rfl (.refl ..) (hnext w (List.mem_of_getElem? hi))
  | none => exact .raised (.refl ..) hup (.always _)

theorem force_mirrors (hreduce : reduce.IsMirror options d)
    (hup : R.Upholds options s.heap rest) (hsupplies : R.Supplies s.heap rest o args given) :
    Mirrors options d s.heap R rest (fun r : Handle => {r.holding})
      (fun R' r v => R'.Shows r v ∧ r.tag = .plain)
      (fun n => given.force (Tree.reduceUpTo options n) i) (args.force reduce i s) := by
  refine thunk_mirrors hup hsupplies
    (g := fun t n => do Tree.intoResult (← Tree.reduceUpTo options n t))
    fun w hw => .bind (g := fun v _ => Tree.intoResult v)
      (ThunkId.force_mirrors hreduce hup hsupplies hw) fun h s₁ R₁ v _ hup₁ hshows _ => ?_
  rw [Multiset.singleton_add] at hup₁
  exact Run.intoResult_mirrors hup₁ hshows

theorem reads_of_shows (hup : R.Upholds options m (h.holding ::ₘ rest)) (hshows : R.Shows h v)
    (htag : h.tag = .plain) :
    ∃ kind, m.kindOf? h.target = some kind ∧ m.boxed? h = kind.value? ∧
      R.Reads options m h.target kind v := by
  obtain ⟨kind, hkind, hreads⟩ := hup.kindOf?_of_held (h := h) (Multiset.mem_cons_self ..)
  exact ⟨kind, hkind, boxed?_of_kindOf? htag hkind, hshows.tree ▸ hreads⟩

theorem refuse_mirrors {γ δ : Type} {post : γ → Multiset Holding} {good : Reading → γ → δ → Prop}
    (expected : TypeName) (hup : R.Upholds options s.heap (h.holding ::ₘ rest))
    (hshows : R.Shows h v) :
    Mirrors options d s.heap R rest post good
      (fun _ => Tree.raise (.typeMismatch expected.text v.describe))
      ((do
        let actual ← Run.inspect (·.describe h)
        Run.release h
        Run.raise (.typeMismatch expected.text actual) : Run γ) s) := by
  refine .inspect (.step rfl (.release hup.valid (Multiset.Subset.refl _)) ?_)
  rw [hup.describe_eq (Multiset.mem_cons_self ..), hshows.tree]
  exact .raised (.refl ..) hup.release (.always _)

theorem unbox_mirrors {α : Type} {expected : TypeName} {take : Payload → Option α}
    (htakes : Takes take) (hreduce : reduce.IsMirror options d)
    (hup : R.Upholds options s.heap rest) (hsupplies : R.Supplies s.heap rest o args given) :
    Mirrors options d s.heap R rest (fun _ => 0) (fun _ a b => a = b)
      (fun n => do Tree.Given.take expected take (← given.force (Tree.reduceUpTo options n) i))
      (args.unbox reduce i expected take s) := by
  refine .bind (g := fun v _ => Tree.Given.take expected take v)
    (force_mirrors hreduce hup hsupplies) fun h s₁ R₁ v hev hup₁ ⟨hshows, htag⟩ _ => ?_
  rw [Multiset.singleton_add] at hup₁
  obtain ⟨kind, -, hboxed, hreads⟩ := reads_of_shows hup₁ hshows htag
  refine .inspect ?_
  rw [hboxed]
  cases hreads with
  | @value v _ =>
    cases htake : take v.payload with
    | some a =>
      simp only [ObjectKind.value?, Option.bind_some, Tree.Given.take, htake]
      exact .of_ok (s := s₁.on (·.release h)) (.release hup₁.valid (Multiset.Subset.refl _))
        (by rw [zero_add]; exact hup₁.release) rfl (.always _)
    | none =>
      simp only [ObjectKind.value?, Option.bind_some, Tree.Given.take, htake]
      exact refuse_mirrors expected hup₁ hshows
  | pair _ _ =>
    simp only [ObjectKind.value?, Option.bind_some, Tree.Given.take, htakes.pair]
    exact refuse_mirrors expected hup₁ hshows
  | pending | reduced | failed => exact refuse_mirrors expected hup₁ hshows
  | closure hcloses =>
    have hmiss : Tree.Given.take expected take v =
        Tree.raise (.typeMismatch expected.text v.describe) := by
      cases v with
      | value => cases hcloses.code
      | pair | failed | function | bound | tied | apply => rfl
    rw [hmiss]
    exact refuse_mirrors expected hup₁ hshows

theorem pair_mirrors (hreduce : reduce.IsMirror options d)
    (hup : R.Upholds options s.heap rest) (hsupplies : R.Supplies s.heap rest o args given) :
    Mirrors options d s.heap R rest (fun r => {r.1.holding, r.2.holding})
      (fun R' r (v : Tree) => ∃ a b, v = .pair a b ∧ R'.Stands options r.1 a ∧
        R'.Stands options r.2 b)
      (fun n => do Tree.Given.takePair (← given.force (Tree.reduceUpTo options n) i))
      (args.pair reduce i s) := by
  refine .bind (g := fun v _ => Tree.Given.takePair v)
    (force_mirrors hreduce hup hsupplies) fun h s₁ R₁ v hev hup₁ ⟨hshows, htag⟩ _ => ?_
  rw [Multiset.singleton_add] at hup₁
  obtain ⟨kind, hkind, hboxed, hreads⟩ := reads_of_shows hup₁ hshows htag
  refine .inspect ?_
  rw [hboxed]
  cases hreads with
  | @pair f k a b hfirst hsecond =>
    have hpart : ∀ r ∈ [f, k], s₁.heap.IsLive r.edge := by
      intro r hr
      refine hup₁.live_of_kind hkind ?_
      rw [ObjectKind.holdings_value, Multiset.mem_cons]
      exact .inr (List.mem_map_of_mem (f := Handle.holding) hr)
    have hshared := (hup₁.share (hpart f (by simp))).share (h := k)
      ((isLive_congr (contents_retain _ f) _).2 (hpart k (by simp)))
    have hheld : k.holding ::ₘ f.holding ::ₘ h.holding ::ₘ rest =
        h.holding ::ₘ ({f.holding, k.holding} + rest) := by
      simp only [Multiset.insert_eq_cons, ← Multiset.singleton_add]
      abel
    rw [hheld] at hshared
    refine .step rfl .share (.step rfl .share (.step rfl (.release hshared.valid ?_) ?_))
    · exact Multiset.subset_of_le (Multiset.le_add_left ..)
    · exact .of_ok (.refl ..) hshared.release ⟨a, b, rfl, hfirst, hsecond⟩ (.always _)
  | @value v hplain =>
    obtain ⟨type, payload⟩ := v
    cases payload with
    | pair f k => cases hplain
    | int | bool | str | tracked => exact refuse_mirrors .pair hup₁ hshows
  | pending | reduced | failed => exact refuse_mirrors .pair hup₁ hshows
  | closure hcloses =>
    have hmiss : Tree.Given.takePair v =
        Tree.raise (.typeMismatch TypeName.pair.text v.describe) := by
      cases v with
      | pair => cases hcloses.code
      | value | failed | function | bound | tied | apply => rfl
    rw [hmiss]
    exact refuse_mirrors .pair hup₁ hshows

end Args

end GraphReduction
