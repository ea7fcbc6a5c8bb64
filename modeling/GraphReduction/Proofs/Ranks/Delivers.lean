import Mathlib
import GraphReduction.Proofs.Marks.Finishes
import GraphReduction.Proofs.Ranks.Ranks

/-! Computations whose result is known to rank low enough. They raise errors only where they may; they
never panic, and they never go on for longer than they were given. -/
namespace GraphReduction

open Heap Marks

/-- Errors are the only signals. -/
def raising (signal : Signal) : Prop := ∃ e, signal = .raised e

namespace Ranks

/-- The result is a reference to what ranks no higher than `n`. -/
abbrev Delivers (bad : Signal → Prop) (m : Heap) (R : Ranks) (rest : Multiset Holding) (n : Nat) :
    EStateM.Result Signal Machine Handle → Prop :=
  Finishes meaning m R rest (fun r : Handle => {r.holding}) (fun _ R' r => R'.object r.target ≤ n) bad

namespace Delivers

variable {bad bad' : Signal → Prop} {m : Heap} {R R₁ : Ranks} {rest : Multiset Holding}
  {s : Machine} {n k : Nat} {o : ObjectId} {h : Handle}

theorem mono {result : EStateM.Result Signal Machine Handle} (h : Delivers bad m R rest n result)
    (hle : n ≤ k) : Delivers bad m R rest k result :=
  Finishes.imp h (fun _ _ _ hr => hr.trans hle) fun _ hbad => hbad

theorem of_ok {r : Handle} (hev : Advances rest m R s.heap R₁)
    (hup : R₁.Upholds s.heap (r.holding ::ₘ rest)) (hrank : R₁.object r.target ≤ n) :
    Delivers bad m R rest n (.ok r s) :=
  Finishes.of_ok hev (by rwa [Multiset.singleton_add]) hrank

theorem share (hup : R.Upholds s.heap rest) (hlive : s.heap.IsLive h.edge)
    (hrank : R.object h.target ≤ n) : Delivers bad s.heap R rest n (Run.share h s) :=
  of_ok (s := s.on (·.retain h)) .share (hup.share hlive) hrank

theorem newAtom {kind : ObjectKind} (hup : R.Upholds s.heap (kind.holdings + rest))
    (hplain : ∀ c, kind ≠ .closure c) (hbounds : R.Bounds s.heap.nextObject 0 kind) :
    Delivers bad s.heap R rest n (Run.newObject kind s) := by
  have hrank : (R.withObject s.heap.nextObject 0).object s.heap.nextObject ≤ n := by simp
  exact of_ok (s := s.on fun m => (m.newObject kind).2)
    (.newObject hup.valid (Multiset.subset_of_le (Multiset.le_add_left ..)) kind
      (fun c hc => (hplain c hc).elim) 0)
    (hup.newObject (fun c hc => (hplain c hc).elim) hbounds) hrank

theorem newValue {type : Ty} {payload : Payload} (hup : R.Upholds s.heap rest)
    (hplain : payload.handles = []) :
    Delivers bad s.heap R rest n (Run.newValue type payload s) := by
  refine newAtom ⟨?_, hup.fits⟩ (by simp) .value
  rw [ObjectKind.holdings_value, hplain, Multiset.cons_add]
  exact (Valid.error _).2 (by simpa using hup.valid)

theorem newException (e : EvalError) (hup : R.Upholds s.heap rest) :
    Delivers bad s.heap R rest n (Run.newException e s) := by
  refine Finishes.bind (newAtom (n := n) ?_ (by simp) .exception) fun r s₁ R₁ _ hup₁ hr => ?_
  · rw [ObjectKind.holdings_exception, Multiset.singleton_add]
    exact hup.error e
  · exact of_ok (.refl ..) (by rwa [Multiset.singleton_add] at hup₁) hr

theorem upgrade (hup : R.Upholds s.heap rest) (hrank : R.object o ≤ n) :
    Delivers bad s.heap R rest n (Run.upgrade o s) := by
  refine .inspect ?_
  cases halive : s.heap.isAlive o with
  | true => exact share (h := .plain o) hup halive hrank
  | false => exact newException _ hup

end Delivers

end Ranks

end GraphReduction
