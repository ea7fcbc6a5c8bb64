import Mathlib
import GraphReduction.Proofs.Trees.Demand

/-! Running bodies, read as trees. A body that is stateless does to the handles that it is given
what it does to the trees that they stand for. Tying a function that misses one argument puts the
self reference of a data fixpoint into the heap, and nothing comes of that here. -/
namespace GraphReduction

open Heap Marks Reading

variable {options : Options} {d : Nat} {m m' : Heap} {R R' : Reading}
  {rest rest' held : Multiset Holding} {s : Machine} {o : ObjectId} {h r : Handle} {t u v : Tree}
  {w : ThunkId} {reduce : Reducer} {args : Args} {given : Tree.Given} {i : Nat}
  {f : Handle → Tree} {k : Combinator} {c : Closure}

theorem Body.map_inj {Capture Other : Type} {f g : Capture → Other} {b : Body Capture}
    (heq : b.map f = b.map g) : ∀ c ∈ b.captures, f c = g c := by
  induction b <;> simp_all [map, captures]
  all_goals
    rintro c (hc | hc)
    · simp_all
    · simp_all

namespace Reading

/-- What a form brings about. An exact one leads to what was made or evaluated. -/
structure Brings (options : Options) (b : Body Handle) (R : Reading) (r : Handle) (t : Tree) :
    Prop where
  stands : R.Stands options r t
  target : b.IsExact → R.object r.target = t

theorem Made.brings (h : R.Made r t) (b : Body Handle) : R.Brings options b r t :=
  ⟨⟨.inl h.tree, ⟨by simp [h.tag, h.tree, h.sound], .inl h.tag⟩⟩, fun _ => h.tree⟩

theorem Shows.brings (h : R.Shows r t) (b : Body Handle) : R.Brings options b r t :=
  ⟨⟨.inl h.tree, h.tree ▸ h.tagged⟩, fun _ => h.tree⟩

theorem Brings.same {b : Body Handle} (h : R.Brings options b r t)
    (hsame : R'.object r.target = R.object r.target) : R'.Brings options b r t :=
  ⟨⟨hsame ▸ h.stands.tree, hsame ▸ h.stands.tagged⟩, fun hexact => hsame ▸ h.target hexact⟩

/-- The body that runs is one of a combinator `k`, whose captures `f` reads. -/
structure Runs (R : Reading) (m : Heap) (held : Multiset Holding) (o : ObjectId) (args : Args)
    (given : Tree.Given) (f : Handle → Tree) (k : Combinator) : Prop
    extends R.Supplies m held o args given where
  combinator : m.combinatorOf? args.closure.combinator = some k
  body : (R.code args.closure.combinator).body = k.body.map f

namespace Runs

theorem mono {held' : Multiset Holding} (h : R.Runs m held o args given f k)
    (hsub : held ⊆ held') : R.Runs m held' o args given f k :=
  { h with held := hsub h.held }

theorem evolve (h : R.Runs m held o args given f k) (hup : R.Upholds options m rest)
    (hev : Advances held m R m' R') (hup' : R'.Upholds options m' rest') :
    R'.Runs m' held o args given f k where
  toSupplies := h.toSupplies.evolve hup hev
  combinator := by
    obtain ⟨k', hk', -⟩ := hup'.combinator (h.toSupplies.evolve hup hev).kind
    obtain ⟨k₀, hk₀, -⟩ := hup.combinator h.kind
    have hfound : m'.combinatorOf? args.closure.combinator = some k'.combinator := by
      simp [combinatorOf?, hk']
    have halloc : m.Allocated (.combinator args.closure.combinator) :=
      IsLive.allocated (Option.isSome_iff_exists.2 ⟨k₀, hk₀⟩)
    rw [hfound, ← hev.combinator _ _ halloc hfound, h.combinator]
  body := by rw [hev.code, h.body]

theorem captured (h : R.Runs m held o args given f k) (hup : R.Upholds options m rest)
    (hr : r ∈ k.body.captures) :
    m.IsLive r.edge ∧ R.object r.target = f r ∧ (R.object r.target).Tagged r.tag := by
  obtain ⟨hlive, hcodes⟩ : m.IsLive r.edge ∧
      R.Codes args.closure.combinator k (R.code args.closure.combinator) := by
    refine ⟨hup.valid.counted.live r.edge (Multiset.mem_add.2 (.inl ?_)),
      hup.fits.combinator _ _ h.combinator⟩
    refine holdings_subset_held_combinator h.combinator ?_
    exact List.mem_append_left _ (List.mem_map_of_mem (f := Handle.holding) hr)
  have hmap : k.body.map (fun h => R.object h.target) = k.body.map f := by
    rw [← h.body, hcodes.code]
  exact ⟨hlive, Body.map_inj hmap r hr, hcodes.tagged r hr⟩

theorem length_eq (h : R.Runs m held o args given f k) (hup : R.Upholds options m rest) :
    args.closure.bound = given.args.length := by
  have htotal := (hup.valid.proper _ _ h.kind).total_eq
  have hmissing := h.missing
  rw [h.trees, List.length_map, Closure.bound]
  simp only [Closure.total, Closure.arguments] at htotal ⊢
  omega

end Runs

end Reading

namespace Run

/-! New values -/

theorem newValue_mirrors {type : Ty} {payload : Payload} (hup : R.Upholds options s.heap rest)
    (hplain : payload.handles = []) :
    Mirrors options d s.heap R rest (fun r : Handle => {r.holding}) (fun R' r b => R'.Made r b)
      (fun _ => .ok (.value ⟨type, payload⟩)) (newValue type payload s) := by
  refine .newObject ⟨?_, hup.fits⟩ (by simp) (by simp) (.value hplain) (by simp [Tree.IsFailed])
  rw [ObjectKind.holdings_value, hplain, Multiset.cons_add]
  exact (Valid.error _).2 (by simpa using hup.valid)

theorem newPair_mirrors {a b : Handle} (hup : R.Upholds options s.heap (a.holding ::ₘ b.holding ::ₘ rest))
    (hfirst : R.Stands options a u) (hsecond : R.Stands options b v) :
    Mirrors options d s.heap R rest (fun r : Handle => {r.holding}) (fun R' r b => R'.Made r b)
      (fun _ => .ok (.pair u v)) (newPair a b s) := by
  refine .newObject ⟨?_, hup.fits⟩ (by simp) (by simp) (.pair hfirst hsecond)
    (by simp [Tree.IsFailed])
  rw [ObjectKind.holdings_value, Multiset.cons_add]
  exact (Valid.error _).2 (by simpa [Payload.handles, ← Multiset.cons_coe] using hup.valid)

theorem newApplication_mirrors {a b : Handle}
    (hup : R.Upholds options s.heap (a.holding ::ₘ b.holding ::ₘ rest))
    (hfunction : R.Stands options a u) (hargument : R.Stands options b v) :
    Mirrors options d s.heap R rest (fun r : Handle => {r.holding}) (fun R' r b => R'.Made r b)
      (fun _ => .ok (.apply u v)) (newApplication a b s) := by
  refine .newObject ⟨?_, hup.fits⟩ (by simp) (by simp) (.pending hfunction hargument)
    (by simp [Tree.IsFailed])
  simpa [Multiset.insert_eq_cons] using hup.valid

theorem share_mirrors {good : Reading → Handle → Tree → Prop} (hup : R.Upholds options s.heap rest)
    (hlive : s.heap.IsLive h.edge) (hgood : good R h t) :
    Mirrors options d s.heap R rest (fun r : Handle => {r.holding}) good (fun _ => .ok t)
      (share h s) :=
  .of_ok (s := s.on (·.retain h)) .share (by rw [Multiset.singleton_add]; exact hup.share hlive)
    hgood (.always _)

/-! Tying -/

theorem bindThunk_ok {function : Handle}
    (hvalid : s.heap.Valid (function.holding ::ₘ {.strong (.thunk w)} + rest))
    (hclosure : s.heap.closure? function.untagged = some c) (hopen : 0 < c.missing) :
    ∃ r s', bindThunk function w s = .ok r s' := by
  have hcopy : Gives rest ∅ s (function.holding ::ₘ {.strong (.thunk w)}) c.copy _ :=
    copy_frame (kindOf?_of_closure? (h := function.untagged) hclosure)
  obtain ⟨fresh, s₁, hrun, -⟩ := hcopy hvalid
  have hsaturated : ¬ c.isSaturated = true := by
    simp only [Closure.isSaturated, beq_iff_eq]
    omega
  simp only [bindThunk, Run.bind_run, inspect_run, hclosure]
  rw [if_neg hsaturated]
  simp only [Run.bind_run, inspect_run]
  split
  · exact ⟨_, _, rfl⟩
  · simp only [Run.bind_run, hrun]
    exact ⟨_, _, rfl⟩

theorem applyArgument_ok {function argument : Handle}
    (hvalid : s.heap.Valid (function.holding ::ₘ argument.holding ::ₘ rest))
    (hclosure : s.heap.closure? function.untagged = some c) (hopen : 0 < c.missing) :
    ∃ r s', applyArgument function argument s = .ok r s' := by
  rw [Multiset.cons_swap, ← Multiset.singleton_add, ← ThunkState.holdings_pending] at hvalid
  have hmade := hvalid.newThunk
  rw [Multiset.cons_swap, ← Multiset.singleton_add _ rest, ← Multiset.cons_add] at hmade
  exact bindThunk_ok (s := s.on fun m => (m.newThunk (.pending argument)).2) hmade hclosure hopen

theorem applyArgument_kept {function argument r : Handle} {s' : Machine} {knot : ObjectId}
    (hvalid : s.heap.Valid (function.holding ::ₘ argument.holding ::ₘ rest))
    (hrun : applyArgument function argument s = .ok r s') (hheld : .strong (.object knot) ∈ rest)
    (hknot : s.heap.kindOf? knot = some (.application (.knot .unresolved))) :
    s'.heap.HoldsKnot := by
  have hdoes : Does rest ∅ s (function.holding ::ₘ argument.holding ::ₘ 0) _ _ _ :=
    applyArgument_does
  have hmoves := hdoes (by simpa using hvalid)
  rw [hrun] at hmoves
  obtain ⟨kind, hkind, hkept⟩ := hmoves.kind_kept rest (by simpa using hvalid) hheld hknot
  cases hkept
  exact ⟨knot, _, hkind⟩

theorem bind_error {α γ : Type} (act : Run α) {next : α → Run γ} {signal : Signal} {s' : Machine}
    (hact : act s = .error signal s') : (act >>= next) s = .error signal s' := by
  rw [Run.bind_run, hact]

theorem releasing_error {α : Type} {act : Run α} {signal : Signal} {s' : Machine}
    (hact : act s = .error signal s') :
    releasing r act s = .error signal (s'.on (·.release r)) := by
  rw [releasing_run, hact]
  rfl

theorem reduceBound_exhausted {function knot : Handle} {γ : Type} (next : Handle → Handle → Run γ)
    (hreduce : reduce.IsMirror options d)
    (hvalid : s.heap.Valid (function.holding ::ₘ knot.holding ::ₘ rest))
    (hclosure : s.heap.closure? function.untagged = some c) (hopen : 0 < c.missing)
    (hheld : .strong (.object knot.target) ∈ rest)
    (hknot : s.heap.kindOf? knot.target = some (.application (.knot .unresolved))) :
    ∃ s', (do
      let saturated ← applyArgument function knot
      releasing saturated do
        let value ← reduce saturated
        next saturated value : Run γ) s = .error .exhausted s' := by
  obtain ⟨r, s₁, hrun⟩ := applyArgument_ok hvalid hclosure hopen
  obtain ⟨s₂, hreduced⟩ := hreduce.knot r (applyArgument_kept hvalid hrun hheld hknot)
  refine ⟨{ s₂ with heap := s₂.heap.release r }, ?_⟩
  simp only [Run.bind_run, hrun, releasing_run, hreduced]

theorem tie_exhausted {function : Handle} (hreduce : reduce.IsMirror options d)
    (hvalid : s.heap.Valid (function.holding ::ₘ rest))
    (hclosure : s.heap.closure? function = some c) (hone : c.missing = 1) :
    ∃ s', tie reduce function s = .error .exhausted s' := by
  have hkind := kindOf?_of_closure? hclosure
  have hmade := hvalid.newKnot
  have hshared := hmade.retainEdge
    (hmade.counted.live (.object s.heap.nextObject) (by simp))
  have hvalid₁ : ((s.heap.newObject (.application (.knot .unresolved))).2.retain
      (.plain s.heap.nextObject)).Valid (function.holding ::ₘ
        (Handle.plain s.heap.nextObject).holding ::ₘ .strong (.object s.heap.nextObject) ::ₘ rest) := by
    rw [Multiset.cons_swap, Multiset.cons_swap function.holding]
    exact hshared
  let s₁ : Machine := s.on fun m =>
    (m.newObject (.application (.knot .unresolved))).2.retain (.plain s.heap.nextObject)
  have hkinds : ∀ o, s₁.heap.kindOf? o =
      if o = s.heap.nextObject then some (.application (.knot .unresolved)) else s.heap.kindOf? o :=
    fun o => (kindOf?_congr (contents_retain _ _) o).trans (kindOf?_newObject ..)
  have hclosure₁ : s₁.heap.closure? function.untagged = some c :=
    closure?_of_kindOf? rfl ((hkinds _).trans ((if_neg (ne_nextObject hkind)).trans hkind))
  have hpending : s₁.heap.kindOf? (Handle.plain s.heap.nextObject).target =
      some (.application (.knot .unresolved)) := (hkinds _).trans (if_pos rfl)
  obtain ⟨s', hrun⟩ := reduceBound_exhausted
    (fun _ value => do
      let value ← intoResult value
      resolve s.heap.nextObject value
      pure value)
    hreduce hvalid₁ hclosure₁ (by omega) (Multiset.mem_cons_self ..) hpending
  refine ⟨s'.on (·.release (.plain s.heap.nextObject)), ?_⟩
  rw [tie, Run.bind_run, inspect_run, hclosure]
  simp only [Option.map_some, Option.getD_some, hone]
  exact bind_error (releasing _ _) (releasing_error hrun)

theorem missing_eq {function : Handle} (hup : R.Upholds options m (function.holding ::ₘ rest))
    (hshows : R.Shows function v) (htag : function.tag = .plain) :
    ((m.closure? function).map Closure.missing).getD 0 = v.missing := by
  obtain ⟨kind, hkind, hreads⟩ := hup.kindOf?_of_held (h := function) (Multiset.mem_cons_self ..)
  rw [hshows.tree] at hreads
  have hkind' : m.kind? function = some kind := hkind
  simp only [closure?, plainKind?, htag, if_true, hkind', Option.bind_some]
  cases hreads with
  | value | pair | pending | reduced | failed => rfl
  | closure hcloses =>
    simp only [ObjectKind.closure?, Option.map_some, Option.getD_some]
    exact hcloses.missing_eq.symm

theorem tie_mirrors {function : Handle} (hreduce : reduce.IsMirror options d)
    (hup : R.Upholds options s.heap (function.holding ::ₘ rest)) (hshows : R.Shows function v)
    (htag : function.tag = .plain) :
    Mirrors options d s.heap R rest (fun r : Handle => {r.holding}) (fun R' r b => R'.Made r b)
      (fun _ => Tree.tie v) (tie reduce function s) := by
  have hmissing := missing_eq hup hshows htag
  have hclosure : 0 < v.missing → ∃ c, s.heap.closure? function = some c ∧ c.missing = v.missing := by
    intro hopen
    cases hfound : s.heap.closure? function with
    | none =>
      rw [hfound] at hmissing
      simp only [Option.map_none, Option.getD_none] at hmissing
      omega
    | some c =>
      rw [hfound] at hmissing
      exact ⟨c, rfl, hmissing⟩
  rw [Tree.tie]
  match hcount : v.missing with
  | 0 =>
    refine .inspect ?_
    rw [hmissing, hcount]
    refine .inspect (.step rfl (.release hup.valid (Multiset.Subset.refl _)) ?_)
    rw [hup.describe_eq (Multiset.mem_cons_self ..), hshows.tree]
    exact .raised (.refl ..) hup.release (.always _)
  | 1 =>
    obtain ⟨c, hfound, hone⟩ := hclosure (by omega)
    obtain ⟨s', hrun⟩ := tie_exhausted hreduce hup.valid hfound (hone.trans hcount)
    rw [hrun]
    exact .exhausted fun n _ _ => rfl
  | n + 2 =>
    obtain ⟨c, hfound, hmany⟩ := hclosure (by omega)
    refine .inspect ?_
    rw [hmissing, hcount]
    have hself := bindSelf_mirrors (d := d) hup (Multiset.mem_cons_self ..) hfound (by omega)
    rw [hshows.tree] at hself
    exact .releasing hself

end Run

namespace Body

theorem both_mirrors {a b : Body Handle} {γ δ : Type} {next : Handle → Handle → Run γ}
    {post : γ → Multiset Holding} {good : Reading → γ → δ → Prop} {first : Run Handle}
    {firstLayers secondLayers : Nat → Except Signal Tree} {second : Run Handle}
    {g : Tree → Tree → Except Signal δ}
    (hfirst : Mirrors options d s.heap R rest (fun r : Handle => {r.holding})
      (fun R' r t => R'.Brings options a r t) firstLayers (first s))
    (hsecond : ∀ (x : Handle) s' (R' : Reading), Advances rest s.heap R s'.heap R' →
      R'.Upholds options s'.heap (x.holding ::ₘ rest) →
      Mirrors options d s'.heap R' (x.holding ::ₘ rest) (fun r : Handle => {r.holding})
        (fun R' r t => R'.Brings options b r t) secondLayers (second s'))
    (hnext : ∀ x y s' R' u v, R'.Upholds options s'.heap (x.holding ::ₘ y.holding ::ₘ rest) →
      R'.Brings options a x u → R'.Brings options b y v →
      Mirrors options d s'.heap R' rest post good (fun _ => g u v) (next x y s')) :
    Mirrors options d s.heap R rest post good
      (fun n => do
        let u ← firstLayers n
        let v ← secondLayers n
        g u v)
      ((do
        let x ← first
        let y ← Run.releasingOnSignal x second
        next x y) s) := by
  refine .bind (g := fun u n => do
    let v ← secondLayers n
    g u v) hfirst fun x s₁ R₁ u hev hup₁ hx _ => ?_
  rw [Multiset.singleton_add] at hup₁
  refine .bind (g := fun v _ => g u v) (.releasingOnSignal (hsecond x s₁ R₁ hev hup₁))
    fun y s₂ R₂ v _ hup₂ ⟨hy, hsame⟩ _ => ?_
  exact hnext x y s₂ R₂ u v (by simpa using hup₂) (hx.same hsame) hy

/-- A new reference to a part of a pair. -/
def shareField (h : Handle) (i : Nat) : Run Handle := do
  match ← Run.fieldOf? h i with
  | some part => Run.share part
  | none => Run.raise (.foreign ("no field " ++ i.repr))

theorem field_mirrors (hup : R.Upholds options s.heap (h.holding ::ₘ rest))
    (htree : R.object h.target = t) (htagged : t.Tagged h.tag) :
    Mirrors options d s.heap R rest (fun r : Handle => {r.holding})
      (fun R' r u => R'.Stands options r u) (fun _ => t.field i)
      (Run.releasing h (shareField h i) s) := by
  obtain ⟨kind, hkind, hreads⟩ := hup.kindOf?_of_held (h := h) (Multiset.mem_cons_self ..)
  rw [htree] at hreads
  have hboxed : s.heap.boxed? h.untagged = kind.value? := Args.boxed?_of_kindOf? rfl hkind
  have hnone : (if h.isException then none
      else (s.heap.boxed? h.untagged).bind fun v => v.payload.handles[i]?) = none →
      t.field i = Tree.raise (.foreign ("no field " ++ i.repr)) →
      Mirrors options d s.heap R (h.holding ::ₘ rest) (fun r : Handle => {r.holding})
        (fun R' r u => R'.Stands options r u) (fun _ => t.field i) (shareField h i s) := by
    intro hfound hfield
    refine .inspect ?_
    rw [hfound, hfield]
    exact .raised (.refl ..) hup (.always _)
  refine .releasing ?_
  cases hreads with
  | @pair a b u v hfirst hsecond =>
    have hsound : h.isException = false := by
      simp only [Handle.isException, beq_eq_false_iff_ne]
      exact fun htag => by simpa [Tree.IsFailed] using htagged.exception.1 htag
    have hpart : ∀ r ∈ [a, b], s.heap.IsLive r.edge := by
      intro r hr
      refine hup.live_of_kind hkind ?_
      rw [ObjectKind.holdings_value, Multiset.mem_cons]
      exact .inr (List.mem_map_of_mem (f := Handle.holding) hr)
    obtain _ | _ | i := i
    · refine .inspect ?_
      simp only [hsound, Bool.false_eq_true, if_false, hboxed]
      exact Run.share_mirrors hup (hpart a (by simp)) hfirst
    · refine .inspect ?_
      simp only [hsound, Bool.false_eq_true, if_false, hboxed]
      exact Run.share_mirrors hup (hpart b (by simp)) hsecond
    · exact hnone (by simp [hboxed, ObjectKind.value?, Payload.handles]) rfl
  | @value v hplain => exact hnone (by simp [hboxed, ObjectKind.value?, hplain]) rfl
  | pending | reduced | failed => exact hnone (by simp [hboxed, ObjectKind.value?]) rfl
  | closure hcloses =>
    refine hnone (by simp [hboxed, ObjectKind.value?]) ?_
    cases t with
    | pair => cases hcloses.code
    | value | failed | function | bound | tied | apply => rfl

theorem unboxed_mirrors {α γ δ : Type} {expected : TypeName} {take : Payload → Option α}
    {post : γ → Multiset Holding} {good : Reading → γ → δ → Prop} {next : α → Run γ}
    {g : α → Nat → Except Signal δ} (htakes : Args.Takes take)
    (hreduce : reduce.IsMirror options d) (hup : R.Upholds options s.heap rest)
    (hruns : R.Runs s.heap rest o args given f k)
    (hnext : ∀ a s' R', R'.Upholds options s'.heap rest → R'.Runs s'.heap rest o args given f k →
      Mirrors options d s'.heap R' rest post good (g a) (next a s')) :
    Mirrors options d s.heap R rest post good
      (fun n => (do Tree.Given.take expected take (← given.force (Tree.reduceUpTo options n) i)) >>=
        fun a => g a n)
      ((args.unbox reduce i expected take >>= next) s) := by
  refine .bind (g := g)
    (Args.unbox_mirrors htakes hreduce hup hruns.toSupplies) fun a s₁ R₁ b hev hup₁ heq _ => ?_
  subst heq
  rw [zero_add] at hup₁
  exact hnext a s₁ R₁ hup₁ (hruns.evolve hup hev hup₁)

theorem newValue_brings {type : Ty} {payload : Payload} (b : Body Handle)
    (hup : R.Upholds options s.heap rest) (hplain : payload.handles = []) :
    Mirrors options d s.heap R rest (fun r : Handle => {r.holding})
      (fun R' r t => R'.Brings options b r t) (fun _ => .ok (.value ⟨type, payload⟩))
      (Run.newValue type payload s) :=
  .imp (Run.newValue_mirrors hup hplain) fun _ _ _ h => h.brings b

/-- A stateless body does to handles what it does to the trees that they stand for. -/
theorem run_mirrors (hreduce : reduce.IsMirror options d) (b : Body Handle)
    (hstateless : b.IsStateless) (hup : R.Upholds options s.heap rest)
    (hruns : R.Runs s.heap rest o args given f k) (hcaptures : b.captures ⊆ k.body.captures) :
    Mirrors options d s.heap R rest (fun r : Handle => {r.holding})
      (fun R' r t => R'.Brings options b r t)
      (fun n => Tree.run (Tree.reduceUpTo options n) given (b.map f)) (b.run reduce args s) := by
  -- On the body, for every machine and reading: a part runs where the parts before it have left the
  -- heap, and the reading that they extended still upholds it.
  induction b generalizing s R rest with
  | «lazy» i =>
    refine .of_settles (fun _ => bind_pure _) (Args.thunk_mirrors hup hruns.toSupplies
      (g := fun t _ => .ok t) fun w hw => ?_)
    exact .imp (ThunkId.peek_mirrors hup hruns.toSupplies hw) fun _ _ _ h => ⟨h, False.elim⟩
  | force i =>
    exact .imp (Args.force_mirrors hreduce hup hruns.toSupplies) fun _ _ _ h => h.1.brings _
  | value type i =>
    cases type with
    | int =>
      exact unboxed_mirrors (g := fun n _ => .ok (Tree.value ⟨.int, .int n⟩)) Args.takes_int
        hreduce hup hruns fun n s' R' hup' _ => newValue_brings _ hup' rfl
    | bool =>
      exact unboxed_mirrors (g := fun b _ => .ok (Tree.value ⟨.bool, .bool b⟩)) Args.takes_bool
        hreduce hup hruns fun b s' R' hup' _ => newValue_brings _ hup' rfl
    | str =>
      exact unboxed_mirrors (g := fun x _ => .ok (Tree.value ⟨.str, .str x⟩)) Args.takes_str
        hreduce hup hruns fun x s' R' hup' _ => newValue_brings _ hup' rfl
    | pair =>
      refine .of_settles (fun _ => bind_pure _) (.bind (g := fun t _ => .ok t)
        (Args.pair_mirrors hreduce hup hruns.toSupplies) fun r s₁ R₁ t _ hup₁ hparts _ => ?_)
      obtain ⟨u, v, rfl, hu, hv⟩ := hparts
      exact .imp (Run.newPair_mirrors (by simpa using hup₁) hu hv) fun _ _ _ h => h.brings _
  | length =>
    have hlength := hruns.length_eq hup
    exact .of_settles (fun _ => by rw [map, Tree.run, ← hlength]) (newValue_brings _ hup rfl)
  | isEmpty =>
    have hlength := hruns.length_eq hup
    exact .of_settles (fun _ => by rw [map, Tree.run, ← hlength]) (newValue_brings _ hup rfl)
  | name => exact .of_settles (fun _ => by rw [map, Tree.run, hruns.name]) (newValue_brings _ hup rfl)
  | int | bool | str => exact newValue_brings _ hup rfl
  | primitive p =>
    have htree : R.object ⟨p.place⟩ = .function p.code := hup.fits.library p
    refine Run.share_mirrors hup (hup.valid.library.live p)
      ⟨⟨.inl htree, htree ▸ ⟨?_, .inl rfl⟩⟩, fun _ => htree⟩
    simp [Handle.plain, Tree.IsFailed]
  | captured h =>
    obtain ⟨hlive, htree, htagged⟩ := hruns.captured hup (hcaptures (List.mem_singleton_self h))
    exact Run.share_mirrors hup hlive ⟨⟨.inl htree, htagged⟩, fun _ => htree⟩
  | apply a b iha ihb =>
    obtain ⟨hca, hcb⟩ := List.append_subset.1 hcaptures
    refine both_mirrors (a := a) (b := b) (g := fun u v => .ok (Tree.apply u v))
      (iha hstateless.1 hup hruns hca) (fun x s' R' hev hup' => ?_)
      fun x y s' R' u v hup' hx hy => ?_
    · exact ihb hstateless.2 hup'
        ((hruns.evolve hup hev hup').mono (Multiset.subset_cons _ _)) hcb
    · exact .imp (Run.newApplication_mirrors hup' hx.stands hy.stands) fun _ _ _ h => h.brings _
  | bind a b iha ihb =>
    obtain ⟨hca, hcb⟩ := List.append_subset.1 hcaptures
    refine both_mirrors (a := a) (b := b) (g := fun u v => u.bindTo v)
      (iha hstateless.2.1 hup hruns hca) (fun x s' R' hev hup' => ?_)
      fun x y s' R' u v hup' hx hy => ?_
    · exact ihb hstateless.2.2 hup'
        ((hruns.evolve hup hev hup').mono (Multiset.subset_cons _ _)) hcb
    · have hbound := Run.applyArgument_mirrors (d := d) hup' hy.stands
      rw [hx.target hstateless.1] at hbound
      exact .imp hbound fun _ _ _ h => h.1.brings _
  | pair a b iha ihb =>
    obtain ⟨hca, hcb⟩ := List.append_subset.1 hcaptures
    refine both_mirrors (a := a) (b := b) (g := fun u v => .ok (Tree.pair u v))
      (iha hstateless.1 hup hruns hca) (fun x s' R' hev hup' => ?_)
      fun x y s' R' u v hup' hx hy => ?_
    · exact ihb hstateless.2 hup'
        ((hruns.evolve hup hev hup').mono (Multiset.subset_cons _ _)) hcb
    · exact .imp (Run.newPair_mirrors hup' hx.stands hy.stands) fun _ _ _ h => h.brings _
  | field i e ih =>
    refine .bind (g := fun t _ => t.field i) (ih hstateless.2 hup hruns hcaptures)
      fun h s₁ R₁ t _ hup₁ hbrings _ => ?_
    rw [Multiset.singleton_add] at hup₁
    have htree := hbrings.target hstateless.1
    exact .imp (field_mirrors hup₁ htree (htree ▸ hbrings.stands.tagged))
      fun _ _ _ h => ⟨h, False.elim⟩
  | eval e ih =>
    refine .bind (g := fun t n => do Tree.intoResult (← Tree.reduceUpTo options n t))
      (ih hstateless hup hruns hcaptures) fun h s₁ R₁ t _ hup₁ hbrings _ => ?_
    rw [Multiset.singleton_add] at hup₁
    refine .releasing (.bind (g := fun v _ => Tree.intoResult v)
      (hreduce.handle hup₁ (Multiset.mem_cons_self ..) hbrings.stands) fun r s₂ R₂ v _ hup₂ hshows _ => ?_)
    rw [Multiset.singleton_add] at hup₂
    exact .imp (Run.intoResult_mirrors hup₂ hshows) fun _ _ _ h => h.1.brings _
  | clone e | bindSelf e | typeOf e => exact hstateless.elim
  | seq a b iha ihb =>
    obtain ⟨hca, hcb⟩ := List.append_subset.1 hcaptures
    refine .bind (g := fun _ n => Tree.run (Tree.reduceUpTo options n) given (b.map f))
      (iha hstateless.1 hup hruns hca) fun h s₁ R₁ t hev hup₁ _ _ => ?_
    rw [Multiset.singleton_add] at hup₁
    have hrelease : Advances rest s₁.heap R₁ (s₁.heap.release h) R₁ :=
      .release hup₁.valid (Multiset.Subset.refl _)
    refine .step rfl hrelease (.imp (ihb hstateless.2 hup₁.release
      (hruns.evolve hup (hev.trans hrelease) hup₁.release) hcb) fun _ _ _ h => ⟨h.stands, h.target⟩)
  | recover a b iha ihb =>
    obtain ⟨hca, hcb⟩ := List.append_subset.1 hcaptures
    have hattempt : Mirrors options d s.heap R rest (fun r : Handle => {r.holding})
        (fun R' r t => R'.Brings options (a.recover b) r t)
        (fun n => Tree.run (Tree.reduceUpTo options n) given (a.map f)) (a.run reduce args s) :=
      .imp (iha hstateless.1 hup hruns hca) fun _ _ _ h =>
        ⟨h.stands, fun hexact => h.target hexact.1⟩
    rw [run]
    refine .of_settles (fun n => ?_) (hattempt.recover fun s' R' hev hup' =>
      .imp (ihb hstateless.2 hup' (hruns.evolve hup hev hup') hcb)
        fun _ _ _ h => ⟨h.stands, fun hexact => h.target hexact.2⟩)
    rw [map, Tree.run]
    rcases Tree.run (Tree.reduceUpTo options n) given (a.map f) with (_ | _ | _) | _ <;> rfl
  | log text e ih =>
    refine .step (z := { s with trace := s.trace.push (.note text) }) rfl (.refl ..) ?_
    exact .imp (ih hstateless hup hruns hcaptures) fun _ _ _ h => ⟨h.stands, h.target⟩
  | compare how i n yes no ihyes ihno =>
    obtain ⟨hcy, hcn⟩ := List.append_subset.1 hcaptures
    refine unboxed_mirrors (g := fun a m => if how.holds a n then
      Tree.run (Tree.reduceUpTo options m) given (yes.map f) else
      Tree.run (Tree.reduceUpTo options m) given (no.map f)) Args.takes_int hreduce hup hruns
      fun a s' R' hup' hruns' => ?_
    cases how.holds a n with
    | true =>
      exact .imp (ihyes hstateless.1 hup' hruns' hcy)
        fun _ _ _ h => ⟨h.stands, fun hexact => h.target hexact.1⟩
    | false =>
      exact .imp (ihno hstateless.2 hup' hruns' hcn)
        fun _ _ _ h => ⟨h.stands, fun hexact => h.target hexact.2⟩
  | cond i yes no ihyes ihno =>
    obtain ⟨hcy, hcn⟩ := List.append_subset.1 hcaptures
    refine unboxed_mirrors (g := fun a m => if a then
      Tree.run (Tree.reduceUpTo options m) given (yes.map f) else
      Tree.run (Tree.reduceUpTo options m) given (no.map f)) Args.takes_bool hreduce hup hruns
      fun a s' R' hup' hruns' => ?_
    cases a with
    | true =>
      exact .imp (ihyes hstateless.1 hup' hruns' hcy)
        fun _ _ _ h => ⟨h.stands, fun hexact => h.target hexact.1⟩
    | false =>
      exact .imp (ihno hstateless.2 hup' hruns' hcn)
        fun _ _ _ h => ⟨h.stands, fun hexact => h.target hexact.2⟩
  | raise e => exact .raised (.refl ..) hup (.always _)
  | panic p => exact .panicked (.refl ..) hup (.always _)
  | arith op =>
    refine unboxed_mirrors (g := fun a m => do
      let b ← given.int (Tree.reduceUpTo options m) 1
      Tree.arith op a b) Args.takes_int hreduce hup hruns fun a s₁ R₁ hup₁ hruns₁ => ?_
    refine unboxed_mirrors (g := fun b _ => Tree.arith op a b) Args.takes_int hreduce hup₁ hruns₁
      fun b s₂ R₂ hup₂ _ => ?_
    rw [Tree.arith]
    cases op.result? a b with
    | some n => exact newValue_brings _ hup₂ rfl
    | none => exact .raised (.refl ..) hup₂ (.always _)
  | test how =>
    refine unboxed_mirrors (g := fun a m => do
      let b ← given.int (Tree.reduceUpTo options m) 1
      .ok (Tree.value ⟨.bool, .bool (how.holds a b)⟩)) Args.takes_int hreduce hup hruns
      fun a s₁ R₁ hup₁ hruns₁ => ?_
    exact unboxed_mirrors (g := fun b _ => .ok (Tree.value ⟨.bool, .bool (how.holds a b)⟩))
      Args.takes_int hreduce hup₁ hruns₁ fun b s₂ R₂ hup₂ _ => newValue_brings _ hup₂ rfl
  | fail i =>
    exact unboxed_mirrors (g := fun text _ => Tree.raise (.foreign text)) Args.takes_str
      hreduce hup hruns fun text s₁ R₁ hup₁ _ => .raised (.refl ..) hup₁ (.always _)
  | tie =>
    refine .bind (g := fun v _ => Tree.tie v) (Args.force_mirrors hreduce hup hruns.toSupplies)
      fun h s₁ R₁ v _ hup₁ hshown _ => ?_
    obtain ⟨hshows, htag⟩ := hshown
    rw [Multiset.singleton_add] at hup₁
    exact .imp (Run.tie_mirrors hreduce hup₁ hshows htag) fun _ _ _ h => h.brings _

end Body

end GraphReduction
