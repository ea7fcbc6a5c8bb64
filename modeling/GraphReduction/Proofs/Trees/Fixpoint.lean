import Mathlib
import GraphReduction.Proofs.Trees.Holder
import GraphReduction.Proofs.Trees.Unrolling

/-! To tie a function is to unroll it. A function that misses more than its next argument is tied to
itself by `fix`; the fixpoint can also be had by binding the function to its fixpoint, unevaluated.
Applied to the same arguments, both return, or neither does, and the results look the same. -/
namespace GraphReduction

open Heap Marks Reading

/-- What a result looks like. The parts of a pair are not looked at. -/
inductive Seen where
  | value (v : Boxed)
  | pair
  | function (combinator : CombinatorId) (bound : Nat)
  | failed (e : EvalError)
deriving DecidableEq

/-- Nodes that are not evaluated do not look like anything. -/
def Heap.seen? (m : Heap) (h : Handle) : Option Seen :=
  match m.kind? h with
  | some (.value ⟨_, .pair _ _⟩) => some .pair
  | some (.value v) => some (.value v)
  | some (.closure c) => some (.function c.combinator c.bound)
  | some (.exception e) => some (.failed e)
  | some (.application _) | none => none

/-- What the result of a tree looks like. -/
def Tree.seen? : Tree → Option Seen
  | value v => some (.value v)
  | pair _ _ => some .pair
  | failed e => some (.failed e)
  | t => t.code?.map fun c => .function c.place t.args.length

namespace Evaluator

/-- Evaluation returns, and the result looks like that. -/
def Returns (options : Options) (h : Handle) (s : Machine) (seen? : Option Seen) : Prop :=
  ∃ depth r s', reduceUpTo options depth h s = .ok r s' ∧ s'.heap.seen? r = seen?

end Evaluator

/-- It is enough to look at an evaluation that gives up when data is tied. -/
theorem Evaluator.returns_of_knotless {options : Options} (depth : Nat) {h : Handle} {s : Machine}
    {x : Seen}
    (hrun : (match reduceKnotless options depth h s with
      | .ok r s' => s'.heap.seen? r
      | .error .. => none) = some x) :
    TiesNoData options h s ∧ Returns options h s (some x) := by
  match hact : reduceKnotless options depth h s with
  | .ok r s' =>
    rw [hact] at hrun
    exact ⟨.of_ok hact, depth, r, s', (reduceKnotless_deepens options depth).ok hact, hrun⟩
  | .error _ _ =>
    rw [hact] at hrun
    cases hrun

namespace Run

def fixpoint (f : Handle) : Run Handle := do
  let fix ← share (.plain ⟨Primitive.fix.place⟩)
  newApplication fix (← share f)

def unrolled (f : Handle) : Run Handle := do
  let function ← share f
  newApplication function (← fixpoint f)

/-- An owned function, applied to one borrowed argument after the other. -/
def applyTo (args : List Handle) (f : Handle) : Run Handle :=
  args.foldlM (fun g x => do newApplication g (← share x)) f

end Run

variable {options : Options} {m : Heap} {R R' : Reading} {held : Multiset Holding}
  {s s' : Machine} {f h r : Handle} {t u v : Tree} {hs args : List Handle} {seen? : Option Seen}

namespace Tree

theorem seen?_of_code? {c : Code Tree} (h : t.code? = some c) :
    t.seen? = some (.function c.place t.args.length) := by
  cases t with
  | value | pair | failed | apply => cases h
  | function | bound | tied => simp [seen?, h]

theorem Matches.seen?_eq {f a b : Tree} (h : Matches f a b) : a.seen? = b.seen? := by
  have hhead := h.head
  obtain ⟨h, -⟩ := h
  cases hcode : a.code? with
  | some c =>
    rw [seen?_of_code? hcode, seen?_of_code? (hhead.1 ▸ hcode), hhead.2.length_eq]
  | none =>
    have hcode' : b.code? = none := hhead.1 ▸ hcode
    cases h with
    | value | failed | pair | apply => rfl
    | function c => cases hcode
    | bound | tied => simp only [seen?, hcode, hcode', Option.map_none]
    | fixpoint ha hb => cases ha <;> cases hb <;> simp only [seen?, hcode, hcode', Option.map_none]

/-- With enough layers, evaluation comes to something that looks like that. -/
def Returns (options : Options) (t : Tree) (seen? : Option Seen) : Prop :=
  ∃ v N, (∀ n ≥ N, reduceUpTo options n t = .ok v) ∧ v.seen? = seen?

theorem Alike.returns {f a b : Tree} (hcode : f.code?.isSome) (hmissing : 2 ≤ f.missing)
    (h : Alike f a b) (hreturns : a.Returns options seen?) : b.Returns options seen? := by
  obtain ⟨v, N, hlate, hseen⟩ := hreturns
  have hv : reduceUpTo options N a = .ok v := hlate N le_rfl
  obtain ⟨o, N', hsame, hlate'⟩ := reduceUpTo_answered hcode hmissing N a b h
    (by rw [hv]; exact fun heq => by cases heq)
  rw [hv] at hsame
  cases hsame with
  | ok hvw => exact ⟨_, N', hlate', hvw.matches.seen?_eq.symm.trans hseen⟩

end Tree

def Reading.applied (R : Reading) (t : Tree) (args : List Handle) : Tree :=
  args.foldl (fun t x => .apply t (R.object x.target)) t

theorem Marks.Upholds.seen?_eq (hup : R.Upholds options m held) (hheld : h.holding ∈ held)
    (hnormal : (R.object h.target).IsNormal) : m.seen? h = (R.object h.target).seen? := by
  obtain ⟨kind, hkind, hreads⟩ := hup.kindOf?_of_held hheld
  have hlook : m.kind? h = some kind := hkind
  rw [Heap.seen?, hlook]
  generalize htree : R.object h.target = t at hreads hnormal
  cases hreads with
  | @value v hplain =>
    obtain ⟨type, payload⟩ := v
    cases payload with
    | pair => cases hplain
    | int | bool | str | tracked => rfl
  | pair => rfl
  | failed => rfl
  | @closure c _ hcloses =>
    obtain ⟨k, -, hcodes⟩ := hup.combinator hkind
    have hbound : c.bound = t.args.length := by
      have htotal := (hup.valid.proper _ _ hkind).total_eq
      rw [hcloses.args, List.length_map, Closure.bound]
      omega
    rw [Tree.seen?_of_code? hcloses.code, hcodes.code, ← hbound]
  | pending | reduced => exact (hnormal.1 ⟨_, _, rfl⟩).elim

namespace Holder

variable {w : Holder}

theorem Read.returns_iff (hoptions : options.checkResults = false) (hread : Read options R w)
    (hheld : h ∈ w.held) (hties : Evaluator.TiesNoData options h w.machine) :
    Evaluator.Returns options h w.machine seen? ↔ (R.object h.target).Returns options seen? := by
  have hmirrors := fun d => (Evaluator.reduceKnotless_isMirror hoptions d).handle hread.upholds
    (holding_mem hheld) (hread.stands hheld)
  constructor
  · rintro ⟨depth, r, s', hrun, hseen⟩
    obtain ⟨depth', hknotless⟩ := hties _ _ _ hrun
    have hends := hmirrors depth'
    rw [hknotless] at hends
    obtain ⟨R', -, hup, v, hshows, N, -, hlate⟩ := hends
    refine ⟨v, N, hlate, ?_⟩
    rw [← hseen, hup.seen?_eq (Multiset.mem_add.2 (.inl (Multiset.mem_singleton_self _)))
      (hshows.tree ▸ hshows.normal), hshows.tree]
  · rintro ⟨v, N, hlate, hseen⟩
    have hends := hmirrors N
    match hrun : Evaluator.reduceKnotless options N h w.machine with
    | .ok r s' =>
      rw [hrun] at hends
      obtain ⟨R', -, hup, v', hshows, N', -, hlate'⟩ := hends
      cases (hlate (max N N') (le_max_left ..)).symm.trans (hlate' _ (le_max_right ..))
      refine ⟨N, r, s', (Evaluator.reduceKnotless_deepens options N).ok hrun, ?_⟩
      rw [hup.seen?_eq (Multiset.mem_add.2 (.inl (Multiset.mem_singleton_self _)))
        (hshows.tree ▸ hshows.normal), hshows.tree, hseen]
    | .error (.raised e) s' =>
      rw [hrun] at hends
      obtain ⟨⟨N', -, hlate'⟩, -⟩ := hends
      cases (hlate (max N N') (le_max_left ..)).symm.trans (hlate' _ (le_max_right ..))
    | .error (.panicked p) s' =>
      rw [hrun] at hends
      obtain ⟨⟨N', -, hlate'⟩, -⟩ := hends
      cases (hlate (max N N') (le_max_left ..)).symm.trans (hlate' _ (le_max_right ..))
    | .error .exhausted s' =>
      rw [hrun] at hends
      have hgiven := hends.1 N le_rfl fun o ho => (hread.idle o ho).elim
      cases (hlate N le_rfl).symm.trans hgiven

/-! Building the two terms -/

/-- The heap can be read when `r` is there as well, and `r` stands for `t`. -/
structure Built (options : Options) (R : Reading) (hs : List Handle) (r : Handle) (t : Tree)
    (s : Machine) (R' : Reading) : Prop where
  read : Read options R' ⟨s, r :: hs⟩
  kept : ∀ h ∈ hs, R'.object h.target = R.object h.target
  tree : R'.object r.target = t

theorem Built.then {g : Handle} {s₁ : Machine} {R₁ : Reading} (hargs : args ⊆ hs)
    (h : Built options R hs g t s₁ R₁)
    (h' : Built options R₁ hs r (R₁.applied (R₁.object g.target) args) s' R') :
    Built options R hs r (R.applied t args) s' R' where
  read := h'.read
  kept g' hg := (h'.kept g' hg).trans (h.kept g' hg)
  tree := by
    rw [h'.tree, h.tree]
    exact List.foldl_ext _ _ _ fun t x hx => by rw [h.kept x (hargs hx)]

theorem Read.newApplication {g x : Handle} (hread : Read options R ⟨s, g :: x :: hs⟩)
    (hrun : Run.newApplication g x s = .ok r s') : ∃ R',
      Built options R hs r (.apply (R.object g.target) (R.object x.target)) s' R' := by
  have hup₀ : R.Upholds options s.heap
      (g.holding ::ₘ x.holding ::ₘ (hs.map Handle.holding : Multiset Holding)) := hread.upholds
  have hmirrors := Run.newApplication_mirrors (d := 0) hup₀
    (hread.stands List.mem_cons_self) (hread.stands (List.mem_cons_of_mem _ List.mem_cons_self))
  rw [hrun] at hmirrors
  obtain ⟨R', hev, hup, t, hmade, N, -, hlate⟩ := hmirrors
  cases hlate N le_rfl
  exact ⟨R', hread.cons (List.subset_cons_of_subset _ (List.subset_cons_self ..)) hev hup
    ⟨by simp [hmade.tag, hmade.tree, hmade.sound], .inl hmade.tag⟩,
    fun h hh => hev.object h.target (holding_mem hh), hmade.tree⟩

theorem Read.share_mem {hs : List Handle} (hread : Read options R ⟨s, hs⟩) (hheld : h ∈ hs) :
    Read options R ⟨s.on (·.retain h), h :: hs⟩ :=
  hread.share (hread.upholds.live (holding_mem hheld)) (hread.tagged h hheld)

theorem Read.fixpoint (hread : Read options R ⟨s, hs⟩) (hf : f ∈ hs)
    (hrun : Run.fixpoint f s = .ok r s') : ∃ R',
      Built options R hs r (.apply (.function Primitive.fix.code) (R.object f.target)) s' R' := by
  have hplain : R.object ⟨Primitive.fix.place⟩ = .function Primitive.fix.code :=
    hread.upholds.fits.library .fix
  have hfix := hread.share (h := .plain ⟨Primitive.fix.place⟩)
    (hread.upholds.valid.library.live .fix)
    ⟨by simp [Handle.plain, hplain, Tree.IsFailed], .inl rfl⟩
  obtain ⟨R', hbuilt⟩ := ((hfix.share_mem (List.mem_cons_of_mem _ hf)).perm (.swap ..)).newApplication
    hrun
  exact ⟨R', hbuilt.read, hbuilt.kept, by rw [hbuilt.tree, Handle.plain, hplain]⟩

theorem Read.unrolled (hread : Read options R ⟨s, hs⟩) (hf : f ∈ hs)
    (hrun : Run.unrolled f s = .ok r s') : ∃ R',
      Built options R hs r (.apply (R.object f.target)
        (.apply (.function Primitive.fix.code) (R.object f.target))) s' R' := by
  have hsteps : Run.unrolled f s =
      (do Run.newApplication f (← Run.fixpoint f) : Run Handle) (s.on (·.retain f)) := rfl
  rw [hsteps, Run.bind_run] at hrun
  cases hfix : Run.fixpoint f (s.on (·.retain f)) with
  | error signal s₁ => cases hfix
  | ok x s₁ =>
    rw [hfix] at hrun
    obtain ⟨R₁, hbuilt⟩ := (hread.share_mem hf).fixpoint List.mem_cons_self hfix
    obtain ⟨R₂, hbuilt'⟩ := (hbuilt.read.perm (.swap ..)).newApplication hrun
    refine ⟨R₂, hbuilt'.read, fun h hh => ?_, ?_⟩
    · rw [hbuilt'.kept h hh, hbuilt.kept h (List.mem_cons_of_mem _ hh)]
    · rw [hbuilt'.tree, hbuilt.kept f List.mem_cons_self, hbuilt.tree]

theorem Read.applyTo {g : Handle} (hread : Read options R ⟨s, g :: hs⟩) (hargs : args ⊆ hs)
    (hrun : Run.applyTo args g s = .ok r s') :
    ∃ R', Built options R hs r (R.applied (R.object g.target) args) s' R' := by
  induction args generalizing g s R with
  | nil =>
    cases hrun
    exact ⟨R, hread, fun _ _ => rfl, rfl⟩
  | cons x args ih =>
    obtain ⟨hx, hargs⟩ := List.cons_subset.1 hargs
    rw [Run.applyTo, List.foldlM_cons, Run.bind_run] at hrun
    cases happly : (do Run.newApplication g (← Run.share x) : Run Handle) s with
    | error signal s₁ => cases happly
    | ok y s₁ =>
      rw [happly] at hrun
      obtain ⟨R₁, hbuilt⟩ :=
        ((hread.share_mem (List.mem_cons_of_mem _ hx)).perm (.swap ..)).newApplication happly
      obtain ⟨R₂, hbuilt'⟩ := ih hbuilt.read hargs hrun
      have hboth := hbuilt.then hargs hbuilt'
      exact ⟨R₂, hboth⟩

theorem Built.applied {make : Run Handle} (hargs : args ⊆ hs)
    (hmake : ∀ g s', make s = .ok g s' → ∃ R', Built options R hs g t s' R')
    (hrun : (do Run.applyTo args (← make) : Run Handle) s = .ok r s') :
    ∃ R', Built options R hs r (R.applied t args) s' R' := by
  rw [Run.bind_run] at hrun
  cases hfirst : make s with
  | error signal s₁ =>
    rw [hfirst] at hrun
    cases hrun
  | ok g s₁ =>
    rw [hfirst] at hrun
    obtain ⟨R₁, hbuilt⟩ := hmake g s₁ hfirst
    obtain ⟨R₂, hbuilt'⟩ := hbuilt.read.applyTo hargs hrun
    exact ⟨R₂, hbuilt.then hargs hbuilt'⟩

end Holder

theorem Tree.Alike.applied {f a b : Tree} (h : Alike f a b) (R : Reading) (args : List Handle) :
    Alike f (R.applied a args) (R.applied b args) := by
  induction args generalizing a b with
  | nil => exact h
  | cons x args ih => exact ih (.apply h (.refl f _))

/-- A function `f` that misses two arguments or more, in any heap of a holder. Whatever arguments
follow, the fixpoint of `f` and `f` applied to its fixpoint return together, with results that look
the same, as long as neither evaluation ties data. -/
theorem Holder.fixpoint_unrolls {w : Holder} {c : Closure} {left right : Handle} {sl sr : Machine}
    (hoptions : options.checkResults = false) (hreached : Reached options w) (hf : f ∈ w.held)
    (hargs : args ⊆ w.held) (hkind : w.heap.kind? f = some (.closure c)) (hmissing : 2 ≤ c.missing)
    (hleft : (do Run.applyTo args (← Run.fixpoint f) : Run Handle) w.machine = .ok left sl)
    (hright : (do Run.applyTo args (← Run.unrolled f) : Run Handle) w.machine = .ok right sr)
    (htiesLeft : Evaluator.TiesNoData options left sl)
    (htiesRight : Evaluator.TiesNoData options right sr) (seen? : Option Seen) :
    Evaluator.Returns options left sl seen? ↔ Evaluator.Returns options right sr seen? := by
  obtain ⟨R, hread⟩ := hreached.read hoptions
  have hcloses : R.Closes options w.heap f.target c (R.object f.target) := hread.upholds.closes hkind
  have hcode : (R.object f.target).code?.isSome := by simp [hcloses.code]
  have hopen : 2 ≤ (R.object f.target).missing := hcloses.missing_eq ▸ hmissing
  have hfixpoint : (R.object f.target).IsFixpoint
      (.apply (.function Primitive.fix.code) (R.object f.target)) := .applied
  have hunrolled : (R.object f.target).IsFixpoint
      (.apply (R.object f.target) (.apply (.function Primitive.fix.code) (R.object f.target))) :=
    .unrolled
  obtain ⟨Rl, hbuilt⟩ := Built.applied hargs (fun g s₁ => hread.fixpoint hf) hleft
  obtain ⟨Rr, hbuilt'⟩ := Built.applied hargs (fun g s₁ => hread.unrolled hf) hright
  rw [hbuilt.read.returns_iff hoptions List.mem_cons_self htiesLeft,
    hbuilt'.read.returns_iff hoptions List.mem_cons_self htiesRight, hbuilt.tree, hbuilt'.tree]
  exact ⟨((Tree.Alike.fixpoint hfixpoint hunrolled).applied R args).returns hcode hopen,
    ((Tree.Alike.fixpoint hunrolled hfixpoint).applied R args).returns hcode hopen⟩

/-- A function of itself and a number, which counts down to zero. -/
def countDown : Combinator :=
  ⟨"count_down", .arrowChain [.arrow .int .int, .int] .int, 2,
    .compare .less 1 1 (.int 0)
      (.apply (.lazy 0) (.apply (.apply (.primitive .sub) (.lazy 1)) (.int 1)))⟩

/-- The machine with that function in place ten and the number one after it. -/
def countDownMachine : Machine :=
  Machine.initial.on fun m =>
    (((m.newCombinator countDown).2.newObject (.closure (.bare ⟨10⟩ 2))).2.newObject
      (.value ⟨.int, .int 1⟩)).2

/-- The tied function counts one down to zero, and so does the unrolled one. -/
theorem Holder.fixpoint_unrolls_countDown :
    ∃ w right sr, Reached {} w ∧
      w.heap.kind? (.plain ⟨10⟩) = some (.closure (.bare ⟨10⟩ countDown.arity)) ∧
      w.heap.kind? (.plain ⟨11⟩) = some (.value ⟨.int, .int 1⟩) ∧
      (do Run.applyTo [.plain ⟨11⟩] (← Run.unrolled (.plain ⟨10⟩)) : Run Handle) w.machine =
        .ok right sr ∧
      Evaluator.Returns {} right sr (some (.value ⟨.int, .int 0⟩)) := by
  have hfunction := (Relation.ReflTransGen.refl (r := Step {}) (a := {})).tail
    (.declare (k := countDown) false rfl (by decide) (by simp [countDown, Body.captures]) rfl)
  have hreached : Reached {} ⟨countDownMachine, [.plain ⟨11⟩, .plain ⟨10⟩]⟩ :=
    hfunction.tail (.value (h := .plain ⟨11⟩) rfl rfl)
  obtain ⟨left, sl, hleft⟩ : ∃ left sl,
      (do Run.applyTo [.plain ⟨11⟩] (← Run.fixpoint (.plain ⟨10⟩)) : Run Handle) countDownMachine =
        .ok left sl := ⟨_, _, rfl⟩
  obtain ⟨right, sr, hright⟩ : ∃ right sr,
      (do Run.applyTo [.plain ⟨11⟩] (← Run.unrolled (.plain ⟨10⟩)) : Run Handle) countDownMachine =
        .ok right sr := ⟨_, _, rfl⟩
  obtain ⟨htiesLeft, hreturns⟩ :
      Evaluator.TiesNoData {} left sl ∧
        Evaluator.Returns {} left sl (some (.value ⟨.int, .int 0⟩)) :=
    Evaluator.returns_of_knotless 20 (by cases hleft; decide +kernel)
  obtain ⟨htiesRight, -⟩ :
      Evaluator.TiesNoData {} right sr ∧
        Evaluator.Returns {} right sr (some (.value ⟨.int, .int 0⟩)) :=
    Evaluator.returns_of_knotless 20 (by cases hright; decide +kernel)
  exact ⟨_, right, sr, hreached, rfl, rfl, hright,
    (fixpoint_unrolls (c := .bare ⟨10⟩ 2) rfl hreached (by simp) (by simp) rfl (by decide) hleft
      hright htiesLeft htiesRight _).1 hreturns⟩

end GraphReduction
