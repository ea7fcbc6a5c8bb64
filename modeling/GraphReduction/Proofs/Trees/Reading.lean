import Mathlib
import GraphReduction.Proofs.Marks.Meaning
import GraphReduction.Proofs.Trees.Tree

/-! Reading a heap as trees. A reading gives a tree to every place, once and for all: what is kept in
a cell later is what the tree comes to. A handle stands for a tree if its object is read as that tree
or as what the tree comes to. -/
namespace GraphReduction

open Marks

namespace Tree

/-- The tag that a reference to what the tree stands for can have: errors are seen through their own
tag, and what is not evaluated through none. -/
structure Tagged (t : Tree) (tag : Tag) : Prop where
  exception : tag = .exception ↔ t.IsFailed
  plain : tag = .plain ∨ t.IsNormal

end Tree

/-- Cells are marked with trees. -/
abbrev Reading := Marks Tree Tree (Code Tree)

namespace Reading

variable (options : Options) (R : Reading)

/-- The handle leads to the tree or to what it comes to. -/
structure Stands (h : Handle) (t : Tree) : Prop where
  tree : R.object h.target = t ∨ t.Yields options (R.object h.target)
  tagged : (R.object h.target).Tagged h.tag

structure Shows (h : Handle) (v : Tree) : Prop where
  tree : R.object h.target = v
  normal : v.IsNormal
  tagged : v.Tagged h.tag

/-- The handle leads to what was made for the tree. -/
structure Made (h : Handle) (t : Tree) : Prop where
  tree : R.object h.target = t
  tag : h.tag = .plain
  sound : ¬ t.IsFailed

/-- How a closure is read. The only back edges are those to the closure itself. -/
structure Closes (m : Heap) (o : ObjectId) (c : Closure) (t : Tree) : Prop where
  code : t.code? = some (R.code c.combinator)
  args : t.args = c.arguments.map R.thunk
  arity : c.missing + c.arguments.length = (R.code c.combinator).arity
  saturated : c.memo ≠ .empty → c.missing = 0
  done : ∀ r, c.memo = .done r → ∃ v, R.Shows r v ∧ t.Yields options v
  back : ∀ u ∈ c.arguments, ∀ p, m.stateOf? u = some (.recursive p) →
    p = o ∧ 0 < c.missing ∧ R.thunk u = t

inductive Reads (m : Heap) (o : ObjectId) : ObjectKind → Tree → Prop
  | value {v : Boxed} (hplain : v.payload.handles = []) : Reads m o (.value v) (.value v)
  | pair {h k : Handle} {a b : Tree} (hfirst : R.Stands options h a) (hsecond : R.Stands options k b) :
      Reads m o (.value ⟨.pair, .pair h k⟩) (.pair a b)
  | closure {c : Closure} {t : Tree} (h : R.Closes options m o c t) : Reads m o (.closure c) t
  | pending {f x : Handle} {a b : Tree} (hfunction : R.Stands options f a)
      (hargument : R.Stands options x b) : Reads m o (.application (.pending f x)) (.apply a b)
  | reduced {r : Handle} {a b v : Tree} (hresult : R.Shows r v)
      (hyields : (Tree.apply a b).Yields options v) :
      Reads m o (.application (.reduced r)) (.apply a b)
  | failed {e : EvalError} : Reads m o (.exception e) (.failed e)

inductive Suspends : ThunkState → Tree → Prop
  | pending {h : Handle} {t : Tree} (hstands : R.Stands options h t) : Suspends (.pending h) t
  | forced {r : Handle} {t v : Tree} (hresult : R.Shows r v) (hyields : t.Yields options v) :
      Suspends (.forced r) t
  | recursive {o : ObjectId} {t : Tree} : Suspends (.recursive o) t

structure Codes (c : CombinatorId) (k : Combinator) (code : Code Tree) : Prop where
  code : code = ⟨c, k.name, k.arity, k.body.map fun h => R.object h.target⟩
  stateless : k.body.IsStateless
  tagged : ∀ h ∈ k.body.captures, (R.object h.target).Tagged h.tag

variable {options R} {R' : Reading} {m m' : Heap} {o : ObjectId} {h : Handle} {t v : Tree}
  {held : Multiset Holding} {c : Closure}

theorem Stands.of_agrees (hstands : R.Stands options h t) (hagrees : R.Agrees R' held)
    (hheld : h.holding ∈ held) : R'.Stands options h t := by
  have hsame := hagrees.handle hheld
  exact ⟨hsame ▸ hstands.tree, hsame ▸ hstands.tagged⟩

theorem Shows.of_agrees (hshows : R.Shows h v) (hagrees : R.Agrees R' held)
    (hheld : h.holding ∈ held) : R'.Shows h v :=
  ⟨(hagrees.handle hheld).trans hshows.tree, hshows.normal, hshows.tagged⟩

theorem Closes.of_agrees (hcloses : R.Closes options m o c t)
    (hagrees : R.Agrees R' (ObjectKind.closure c).holdings)
    (hback : ∀ u ∈ c.arguments, ∀ p, m'.stateOf? u = some (.recursive p) →
      m.stateOf? u = some (.recursive p)) : R'.Closes options m' o c t := by
  have hcode : R'.code c.combinator = R.code c.combinator :=
    hagrees.code _ (by simp [ObjectKind.holdings_closure])
  have hthunk : ∀ u ∈ c.arguments, R'.thunk u = R.thunk u := fun u hu =>
    hagrees.thunk u (by simp [ObjectKind.holdings_closure, hu])
  refine ⟨hcode ▸ hcloses.code, ?_, hcode ▸ hcloses.arity, hcloses.saturated, fun r hr => ?_,
    fun u hu p hp => ?_⟩
  · rw [hcloses.args]
    exact List.map_congr_left fun u hu => (hthunk u hu).symm
  · obtain ⟨v, hv, hyields⟩ := hcloses.done r hr
    exact ⟨v, hv.of_agrees hagrees (by simp [ObjectKind.holdings_closure, hr, Memo.result?]), hyields⟩
  · obtain ⟨hsame, hmissing, htree⟩ := hcloses.back u hu p (hback u hu p hp)
    exact ⟨hsame, hmissing, (hthunk u hu).trans htree⟩

theorem Reads.of_agrees {kind : ObjectKind} (hreads : R.Reads options m o kind t)
    (hagrees : R.Agrees R' kind.holdings)
    (hback : ∀ u p, .strong (.thunk u) ∈ kind.holdings → m'.stateOf? u = some (.recursive p) →
      m.stateOf? u = some (.recursive p)) : R'.Reads options m' o kind t := by
  cases hreads with
  | value hplain => exact .value hplain
  | pair hfirst hsecond =>
    refine .pair (hfirst.of_agrees hagrees ?_) (hsecond.of_agrees hagrees ?_) <;>
      simp [Payload.handles]
  | closure hcloses =>
    refine .closure (hcloses.of_agrees hagrees fun u hu p hp => hback u p ?_ hp)
    simp [ObjectKind.holdings_closure, hu]
  | pending hfunction hargument =>
    exact .pending (hfunction.of_agrees hagrees (by simp)) (hargument.of_agrees hagrees (by simp))
  | reduced hresult hyields => exact .reduced (hresult.of_agrees hagrees (by simp)) hyields
  | failed => exact .failed

theorem Suspends.of_agrees {state : ThunkState} (hsuspends : R.Suspends options state t)
    (hagrees : R.Agrees R' state.holdings) : R'.Suspends options state t := by
  cases hsuspends with
  | pending hstands => exact .pending (hstands.of_agrees hagrees (by simp))
  | forced hresult hyields => exact .forced (hresult.of_agrees hagrees (by simp)) hyields
  | recursive => exact .recursive

theorem Codes.of_agrees {c : CombinatorId} {k : Combinator} {code : Code Tree}
    (hcodes : R.Codes c k code) (hagrees : R.Agrees R' k.holdings) : R'.Codes c k code := by
  have hsame : ∀ h ∈ k.body.captures, R'.object h.target = R.object h.target := fun h hh =>
    hagrees.object _ (by simp [Combinator.holdings, Handle.holding, Handle.edge]; exact ⟨h, hh, rfl⟩)
  refine ⟨?_, hcodes.stateless, fun h hh => hsame h hh ▸ hcodes.tagged h hh⟩
  rw [hcodes.code, Body.map_congr k.body fun h hh => (hsame h hh).symm]

/-- What it takes for a cell to be read right. -/
abbrev meaning (options : Options) : Meaning Tree Tree (Code Tree) where
  reads R m o kind t := Reads options R m o kind t
  suspends R state t := Suspends options R state t
  codes R c k code := Codes R c k code
  library p := .function p.code
  reads_of_agrees hagrees hback hreads := hreads.of_agrees hagrees hback
  suspends_of_agrees hagrees hsuspends := hsuspends.of_agrees hagrees
  codes_of_agrees hagrees hcodes := hcodes.of_agrees hagrees

abbrev Upholds (options : Options) (R : Reading) (m : Heap) (held : Multiset Holding) : Prop :=
  Marks.Upholds (meaning options) R m held

end Reading

end GraphReduction
