import Mathlib
import GraphReduction.Proofs.Marks.Binding
import GraphReduction.Proofs.Trees.Mirrors

/-! Binding arguments, read as trees. Whether an argument is bound in place or in a copy, what comes
of it is the function with one more argument; and a copy whose next argument is the copy itself is
the function tied to itself. Back edges become strong references in a copy, so that a copy has none
until it is tied. -/
namespace GraphReduction

open Heap Marks Reading

variable {options : Options} {d : Nat} {m m' : Heap} {R R' : Reading}
  {rest held : Multiset Holding} {s : Machine} {o p : ObjectId} {h : Handle} {t x : Tree}
  {c : Closure} {w : ThunkId}

namespace Reading

/-! What is known of what is read -/

theorem Reads.not_knot {kind : ObjectKind} (h : R.Reads options m o kind t) (k : Knot) :
    kind ≠ .application (.knot k) := by
  rintro rfl
  cases h

theorem Closes.missing_eq (h : R.Closes options m o c t) : t.missing = c.missing := by
  have harity := h.arity
  rw [Tree.missing_of_code? h.code, h.args, List.length_map]
  omega

theorem Closes.isNormal (h : R.Closes options m o c t) (hmissing : 0 < c.missing) : t.IsNormal :=
  Tree.isNormal_function (by simp [h.code]) (h.missing_eq ▸ hmissing)

theorem Closes.not_isFailed (h : R.Closes options m o c t) : ¬ t.IsFailed := by
  rintro ⟨e, rfl⟩
  cases h.code

theorem Closes.memo_eq_empty (h : R.Closes options m o c t) (hmissing : 0 < c.missing) :
    c.memo = .empty := by
  by_contra hfull
  have := h.saturated hfull
  omega

theorem Closes.setMemo {memo : Memo} (h : R.Closes options m o c t) (hmissing : c.missing = 0)
    (hdone : ∀ r, memo = .done r → ∃ v, R.Shows r v ∧ t.Yields options v) :
    R.Closes options m o { c with memo } t :=
  ⟨h.code, h.args, h.arity, fun _ => hmissing, hdone, h.back⟩

theorem Closes.fill (h : R.Closes options m o c t) (hproper : c.Proper) (hmissing : 0 < c.missing)
    (hback : ∀ u ∈ c.arguments, m'.Forward u) (hw : m'.Forward w) :
    R.Closes options m' p (c.fill w) (.bound t (R.thunk w)) where
  code := h.code
  args := by
    rw [Closure.arguments_fill hproper hmissing, List.map_append, ← h.args]
    rfl
  arity := by
    have harity := h.arity
    rw [Closure.arguments_fill hproper hmissing, List.length_append, List.length_singleton]
    simp only [Closure.fill]
    omega
  saturated hfull := absurd (h.memo_eq_empty hmissing) hfull
  done r hr := by
    have hempty := h.memo_eq_empty hmissing
    cases hempty.symm.trans hr
  back u hu q hq := by
    rw [Closure.arguments_fill hproper hmissing, List.mem_append, List.mem_singleton] at hu
    obtain hu | rfl := hu
    · exact (hback u hu q hq).elim
    · exact (hw q hq).elim

theorem Closes.bindSelf (h : R.Closes options m m.nextObject c t) (hproper : c.Proper)
    (hmissing : 1 < c.missing) (hforward : ∀ u ∈ c.arguments, m.Forward u)
    (halloc : ∀ u ∈ c.arguments, m.Allocated (.thunk u)) :
    Closes options (R.withKnot m (.tied t) (.tied t)) (m.bindSelf c) m.nextObject
      (c.fill ⟨m.thunks.next⟩) (.tied t) := by
  have hopen : 0 < c.missing := by omega
  have hne : ∀ u ∈ c.arguments, u ≠ ⟨m.thunks.next⟩ := fun u hu => ne_nextThunk (halloc u hu)
  have harguments := Closure.arguments_fill hproper hopen ⟨m.thunks.next⟩
  refine ⟨h.code, ?_, ?_, fun hfull => (hfull (h.memo_eq_empty hopen)).elim, fun r hr => ?_,
    fun u hu p hp => ?_⟩
  · rw [harguments, List.map_append, Tree.args, h.args]
    refine congrArg₂ _ (List.map_congr_left fun u hu => (withThunk_of_ne (hne u hu)).symm) ?_
    simp
  · have harity := h.arity
    rw [harguments, List.length_append, List.length_singleton]
    change c.missing - 1 + (c.arguments.length + 1) = (R.code c.combinator).arity
    omega
  · have hempty := h.memo_eq_empty hopen
    cases hempty.symm.trans hr
  · rw [stateOf?_bindSelf] at hp
    rw [harguments, List.mem_append, List.mem_singleton] at hu
    obtain hu | rfl := hu
    · rw [if_neg (hne u hu)] at hp
      exact (hforward u hu p hp).elim
    · rw [if_pos rfl] at hp
      cases hp
      refine ⟨rfl, ?_, by simp⟩
      simp only [Closure.fill]
      omega

end Reading

namespace Marks.Upholds

theorem combinator (hup : R.Upholds options m held)
    (hkind : m.kindOf? o = some (.closure c)) :
    ∃ k, m.combinator? c.combinator = some k ∧
      R.Codes c.combinator k.combinator (R.code c.combinator) := by
  have hlive : m.IsLive (.combinator c.combinator) :=
    hup.live_of_kind hkind (by simp [ObjectKind.holdings_closure])
  obtain ⟨k, hk⟩ := Option.isSome_iff_exists.mp hlive
  exact ⟨k, hk, hup.fits.combinator _ _ (by simp [combinatorOf?, hk])⟩

theorem closes (hup : R.Upholds options m held) (hkind : m.kindOf? o = some (.closure c)) :
    R.Closes options m o c (R.object o) := by
  cases hup.fits.object o _ hkind with
  | closure h => exact h

theorem combinatorName_eq (hup : R.Upholds options m held)
    (hkind : m.kindOf? o = some (.closure c)) :
    m.combinatorName c.combinator = (R.code c.combinator).name := by
  obtain ⟨k, hk, hcodes⟩ := hup.combinator hkind
  simp [combinatorName, hk, hcodes.code]

theorem describe_eq (hup : R.Upholds options m held) (hheld : h.holding ∈ held) :
    m.describe h = (R.object h.target).describe := by
  obtain ⟨kind, hkind, hreads⟩ := hup.kindOf?_of_held hheld
  have hkind' : m.kind? h = some kind := hkind
  rw [Heap.describe, hkind', Option.map_some, Option.getD_some]
  generalize htree : R.object h.target = t at hreads
  cases hreads with
  | value | pair | pending | reduced | failed => rfl
  | closure hcloses =>
    rename_i c
    have htotal : c.total = (R.code c.combinator).arity := by
      rw [← hcloses.arity]
      exact (hup.valid.proper _ _ hkind).total_eq
    rw [Tree.describe_of_code? hcloses.code, hcloses.missing_eq, ← htotal, describeKind,
      hup.combinatorName_eq hkind]

end Marks.Upholds

namespace ThunkId

theorem copyTarget?_forward (hup : R.Upholds options s.heap held) (hw : s.heap.Forward w) :
    w.copyTarget? s = .ok none s := by
  simp only [copyTarget?, Run.bind_run, state?_run]
  cases hstate : s.heap.stateOf? w with
  | none => rfl
  | some state =>
    cases state with
    | forced r => rfl
    | recursive p => exact (hw p hstate).elim
    | pending h =>
      simp only [Run.bind_run, Run.inspect_run]
      cases happ : s.heap.application? h with
      | none => rfl
      | some a =>
        cases a with
        | pending f y => rfl
        | reduced r => rfl
        | knot k =>
          have hkind := kindOf?_of_application? happ
          exact (Reads.not_knot (hup.fits.object _ _ hkind) k rfl).elim

theorem copyTarget?_back (hstate : s.heap.stateOf? w = some (.recursive o))
    (hlive : s.heap.IsLive (.object o)) :
    w.copyTarget? s = .ok (some (.plain o)) (s.on (·.retain (.plain o))) := by
  have halive : s.heap.isAlive o = true := hlive
  simp only [copyTarget?, Run.bind_run, state?_run, hstate, Run.inspect_run, halive, if_true,
    Run.share_run, Run.pure_run]
  rfl

end ThunkId

namespace Reading

/-! Copies -/

/-- An argument of the closure at `o` that is read as `R₀` reads it. If it is a back edge, it leads to
the closure, which is a result. -/
structure Slot (R₀ : Reading) (o : ObjectId) (m : Heap) (R : Reading) (w : ThunkId) : Prop where
  thunk : R.thunk w = R₀.thunk w
  back : ∀ p, m.stateOf? w = some (.recursive p) → p = o ∧ R.Shows (.plain o) (R₀.thunk w)

/-- `u` is read as `R₀` reads `w`, and is no back edge. -/
structure Straight (R₀ : Reading) (m : Heap) (R : Reading) (w u : ThunkId) : Prop where
  thunk : R.thunk u = R₀.thunk w
  forward : m.Forward u

/-- A closure without back edges that is read as `t`. -/
structure Ready (options : Options) (t : Tree) (m : Heap) (R : Reading) (c : Closure) : Prop where
  closes : ∀ o, R.Closes options m o c t
  forward : ∀ u ∈ c.arguments, m.Forward u

theorem forCopy_straight {R₀ : Reading} (hup : R.Upholds options s.heap held)
    (ho : .strong (.object o) ∈ held) (hlive : s.heap.IsLive (.thunk w))
    (hslot : Slot R₀ o s.heap R w) :
    Finishes (meaning options) s.heap R held (fun u => {.strong (.thunk u)})
      (fun m' R' u => Straight R₀ m' R' w u) silent (w.forCopy s) := by
  by_cases hw : s.heap.Forward w
  · have hsame : (s.heap.retainThunk w).contents = s.heap.contents :=
      contents_retainEdge s.heap (.thunk w)
    refine .step (ThunkId.copyTarget?_forward hup hw) (.refl ..) ?_
    refine .of_ok (s := s.on (·.retainThunk w)) (.of_contents hsame) ?_ ⟨hslot.thunk, fun p hp => ?_⟩
    · rw [Multiset.singleton_add]
      exact ⟨hup.valid.retainEdge hlive, hup.fits.within (.of_contents hsame)⟩
    · exact hw p ((stateOf?_congr hsame w).symm.trans hp)
  · simp only [Heap.Forward, not_forall, not_not] at hw
    obtain ⟨p, hstate⟩ := hw
    obtain ⟨rfl, hshows⟩ := hslot.back p hstate
    have halive : s.heap.IsLive (.object p) := hup.live (h := .plain p) ho
    have hshared := hup.share (h := .plain p) halive
    rw [← Multiset.singleton_add, ← ThunkState.holdings_forced] at hshared
    refine .step (ThunkId.copyTarget?_back hstate halive) .share ?_
    refine .of_ok (s := (s.on (·.retain (.plain p))).on fun m => (m.newThunk (.forced (.plain p))).2)
      (.newThunk _ (R₀.thunk w)) ?_ ⟨withThunk_self, forward_newThunk (by simp)⟩
    rw [Multiset.singleton_add]
    exact hshared.newThunk (.forced hshows (.of_isNormal hshows.normal))

theorem copies (options : Options) (R₀ : Reading) (o : ObjectId) :
    Copies (meaning options) o (Slot R₀ o) (Straight R₀) where
  slot_advances hev ho halloc h := by
    refine ⟨(hev.thunk _ halloc).trans h.thunk, fun p hp => ?_⟩
    obtain ⟨hsame, hshows⟩ := h.back p (hev.back _ _ halloc hp)
    exact ⟨hsame, (hev.object o ho).trans hshows.tree, hshows.normal, hshows.tagged⟩
  copied_advances hev _ halloc h := ⟨(hev.thunk _ halloc).trans h.thunk, hev.forward halloc h.forward⟩
  forCopy := forCopy_straight

end Reading

namespace Marks.Upholds

theorem opens (hup : R.Upholds options s.heap held)
    (hkind : s.heap.kindOf? o = some (.closure c)) (hmissing : 0 < c.missing) :
    Opens (meaning options) (Ready options (R.object o)) s R o c := by
  have hcloses := hup.closes hkind
  have hmemo := hcloses.memo_eq_empty hmissing
  have hproper := hup.valid.proper _ _ hkind
  refine (copies options R o).opens hkind hmissing hmemo (fun w hw => ⟨rfl, fun p hp => ?_⟩)
    (fun hforward => ⟨fun p => ?_, hforward⟩) fun m' R' fresh hcode hcopy hempty hcopied => ?_
  · obtain ⟨hsame, -, htree⟩ := hcloses.back w hw p hp
    refine ⟨hsame, htree.symm, htree ▸ hcloses.isNormal hmissing, ?_, .inl rfl⟩
    rw [htree]
    simp [hcloses.not_isFailed, Handle.plain]
  · exact { hcloses with back := fun u hu q hq => (hforward u hu q hq).elim }
  · have hargs : c.arguments.map R.thunk = fresh.arguments.map R'.thunk := by
      rw [← List.forall₂_eq_eq_eq, List.forall₂_map_left_iff, List.forall₂_map_right_iff]
      exact hcopied.imp fun _ _ h => h.thunk.symm
    have hforward : ∀ u ∈ fresh.arguments, m'.Forward u := fun u hu => by
      obtain ⟨w, h⟩ := Closure.exists_copied hcopied hu
      exact h.forward
    refine ⟨fun p => ⟨?_, hargs ▸ hcloses.args, ?_, fun hfull => (hfull hempty).elim,
      fun r hr => (by cases hempty.symm.trans hr), fun u hu q hq => (hforward u hu q hq).elim⟩, hforward⟩
    · rw [hcode, hcopy.combinator]
      exact hcloses.code
    · rw [hcode, hcopy.combinator, hcopy.missing, ← hcopied.length_eq]
      exact hcloses.arity

end Marks.Upholds

namespace Run

variable {function argument : Handle}

theorem bindThunk_mirrors
    (hup : R.Upholds options s.heap (function.holding ::ₘ .strong (.thunk w) ::ₘ rest))
    (hw : s.heap.Forward w) :
    Mirrors options d s.heap R rest (fun r : Handle => {r.holding})
      (fun R' r b => R'.Made r b ∧ ¬ s.heap.Running r.target)
      (fun _ => (R.object function.target).bindTo (R.thunk w)) (bindThunk function w s) := by
  obtain ⟨kind, hkind, hreads⟩ := hup.kindOf?_of_held (h := function) (Multiset.mem_cons_self ..)
  cases hclosure : s.heap.closure? function.untagged with
  | none =>
    have hcode : (R.object function.target).code? = none := by
      generalize R.object function.target = t at hreads
      cases hreads with
      | value | pair | pending | reduced | failed => rfl
      | closure => cases hclosure.symm.trans (closure?_of_kindOf? rfl hkind)
    refine .inspect ?_
    rw [hclosure]
    refine .inspect ?_
    rw [Tree.bindTo, hcode, hup.describe_eq (h := function.untagged) (Multiset.mem_cons_self ..)]
    exact refuseBind_finishes (Settles.always _) hup
  | some c =>
    have hkind : s.heap.kindOf? function.target = some (.closure c) :=
      kindOf?_of_closure? (h := function.untagged) hclosure
    have hcloses := hup.closes hkind
    rw [Tree.bindTo, hcloses.code]
    dsimp only
    rw [hcloses.missing_eq]
    by_cases hsaturated : c.missing = 0
    · refine .inspect ?_
      rw [hclosure]
      dsimp only
      rw [if_pos hsaturated, if_pos (by simp [Closure.isSaturated, hsaturated])]
      refine .inspect ?_
      rw [hup.combinatorName_eq hkind]
      exact refuseBind_finishes (Settles.always _) hup
    · have hmissing : 0 < c.missing := Nat.pos_of_ne_zero hsaturated
      rw [if_neg hsaturated]
      refine Finishes.imp (bindThunk_finishes hup (hup.opens hkind hmissing) hw
        (a := .bound (R.object function.target) (R.thunk w))
        fun m' R' e p hready hproper hsame hthunk hforward => ?_) (fun m' R' r hbound => ?_)
        fun _ h => h
      · rw [← hthunk]
        exact .closure ((hready.closes p).fill hproper (hsame ▸ hmissing) hready.forward hforward)
      · exact ⟨_, ⟨⟨hbound.object, hbound.tag, by simp [Tree.IsFailed]⟩, hbound.idle⟩, .always _⟩

theorem applyArgument_mirrors
    (hup : R.Upholds options s.heap (function.holding ::ₘ argument.holding ::ₘ rest))
    (hargument : R.Stands options argument x) :
    Mirrors options d s.heap R rest (fun r : Handle => {r.holding})
      (fun R' r b => R'.Made r b ∧ ¬ s.heap.Running r.target)
      (fun _ => (R.object function.target).bindTo x) (applyArgument function argument s) := by
  rw [Multiset.cons_swap, ← Multiset.singleton_add, ← ThunkState.holdings_pending] at hup
  have hup₁ := hup.newThunk (.pending hargument)
  rw [Multiset.cons_swap] at hup₁
  have hbind := bindThunk_mirrors (s := s.on fun m => (m.newThunk (.pending argument)).2)
    (d := d) hup₁ (forward_newThunk (by simp))
  simp only [withThunk_self] at hbind
  exact .step rfl (.newThunk (.pending argument) x) hbind

theorem bindSelf_mirrors (hup : R.Upholds options s.heap rest) (hheld : h.holding ∈ rest)
    (hclosure : s.heap.closure? h = some c) (hmissing : 1 < c.missing) :
    Mirrors options d s.heap R rest (fun r : Handle => {r.holding}) (fun R' r b => R'.Made r b)
      (fun _ => .ok (.tied (R.object h.target))) (bindSelf h s) := by
  refine Finishes.imp (bindSelf_finishes (a := .tied (R.object h.target))
    (b := fun _ => .tied (R.object h.target)) hup hheld
    (hup.opens (kindOf?_of_closure? hclosure) (by omega)) hclosure hmissing
    (fun m' R' e hready hproper hsame halloc => ?_) fun _ _ => .recursive)
    (fun m' R' r ⟨hobject, htag⟩ => ?_) fun _ h => h
  · exact .closure ((hready.closes _).bindSelf hproper (hsame ▸ hmissing) hready.forward halloc)
  · exact ⟨_, ⟨hobject, htag, by simp [Tree.IsFailed]⟩, .always _⟩

end Run

end GraphReduction
