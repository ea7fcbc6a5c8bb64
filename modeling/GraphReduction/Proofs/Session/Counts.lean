import Mathlib
import GraphReduction.Proofs.Labels.Initial
import GraphReduction.Proofs.Session.Commands

/-! The count of an object is the number of strong references to it, in every session. The references
are those in handle registers and those that cells own. -/
namespace GraphReduction

open Heap

/-! Among what cells hold, the strong references are their edges. -/

namespace Holding

theorem count_strong (edges : List Edge) (weak : List ObjectId) (errors : List EvalError)
    (cell : Edge) :
    (edges.map Holding.strong ++ weak.map Holding.weak ++ errors.map Holding.error).count
      (.strong cell) = edges.count cell := by
  have hweak : (weak.map Holding.weak).count (.strong cell) = 0 :=
    List.count_eq_zero.mpr (by simp)
  have herrors : (errors.map Holding.error).count (.strong cell) = 0 :=
    List.count_eq_zero.mpr (by simp)
  rw [List.count_append, List.count_append, hweak, herrors,
    List.count_map_of_injective edges Holding.strong fun _ _ => Holding.strong.inj, add_zero,
    add_zero]

end Holding

theorem Arena.count_held {α : Type} (a : Arena α) (f : α → Multiset Holding) (edges : α → List Edge)
    (cell : Edge) (hcount : ∀ x, (f x).count (.strong cell) = (edges x).count cell) :
    (a.held f).count (.strong cell) = (a.live.flatMap edges).count cell := by
  rw [Arena.held]
  induction a.live with
  | nil => simp
  | cons x xs ih => simp [hcount, ih]

theorem Heap.count_held (m : Heap) (cell : Edge) :
    m.held.count (.strong cell) = m.edges.count cell := by
  have hobjects := m.objects.count_held (·.kind.holdings) (·.kind.edges) cell fun x =>
    (Multiset.coe_count _ _).trans
      (Holding.count_strong x.kind.edges x.kind.weakTarget?.toList x.kind.errors cell)
  have hthunks := m.thunks.count_held (·.state.holdings) (·.state.edges) cell fun x => by
    simpa [ThunkState.holdings] using
      Holding.count_strong x.state.edges x.state.weakTarget?.toList [] cell
  have hcombinators := m.combinators.count_held (·.combinator.holdings) HeldCombinator.edges cell
    fun x => by
      simpa [Combinator.holdings, HeldCombinator.edges, Handle.map_holding] using
        Holding.count_strong (x.combinator.body.captures.map Handle.edge) []
          x.combinator.body.raises cell
  simp [Heap.held, Heap.edges, hobjects, hthunks, hcombinators, add_assoc]

namespace Session

variable {s : Session}

/-- The strong references to an object: the handles outside, and those that cells own. -/
def strongReferences (s : Session) (o : ObjectId) : Nat :=
  s.handles.countP (·.2.target == o) + s.machine.heap.edges.count (.object o)

theorem count_holdings (s : Session) (o : ObjectId) :
    s.holdings.count (.strong (.object o)) = s.handles.countP (·.2.target == o) := by
  have hhandles : (s.handles.holdings Handle.holding).count (.strong (.object o)) =
      s.handles.countP (·.2.target == o) := by
    rw [RegisterFile.holdings, Multiset.coe_count, List.count, List.countP_map]
    congr 1
    funext entry
    simp [Handle.holding, Handle.edge, Bool.beq_eq_decide_eq]
  have hthunks : (s.thunks.holdings fun t => .strong (.thunk t)).count (.strong (.object o)) = 0 :=
    Multiset.count_eq_zero.mpr (by simp [RegisterFile.holdings])
  have hweaks : (s.weaks.holdings .weak).count (.strong (.object o)) = 0 :=
    Multiset.count_eq_zero.mpr (by simp [RegisterFile.holdings])
  rw [holdings, Multiset.count_add, Multiset.count_add, hhandles, hthunks, hweaks,
    add_zero, add_zero]

theorem Good.refCount (hgood : s.Good 0) (o : ObjectId) :
    s.machine.heap.refCount (.plain o) =
      if s.machine.heap.isStatic (.plain o) then 0 else s.strongReferences o := by
  have hcount : (s.machine.heap.held + (0 + s.holdings)).count (.strong (.object o)) =
      s.strongReferences o := by
    rw [zero_add, Multiset.count_add, count_held, count_holdings, strongReferences, add_comm]
  rcases hx : s.machine.heap.object? o with _ | ⟨_ | ⟨strong, weak⟩, kind⟩
  · have hdead : .strong (.object o) ∉ s.machine.heap.held + (0 + s.holdings) := by
      intro hmem
      simpa [IsLive, hx] using hgood.heap.counted.live _ hmem
    rw [← hcount, Multiset.count_eq_zero.mpr hdead, ite_self]
    simp [Heap.refCount, Handle.plain, hx]
  · simp [Heap.refCount, Heap.isStatic, Handle.plain, hx, Object.refCount, Object.isStatic]
  · have hexact := hgood.heap.counted.exact (.strong (.object o)) strong
      (by simp [recorded, hx, Hold.strong?])
    rw [← hcount, hexact]
    simp [Heap.refCount, Heap.isStatic, Handle.plain, hx, Object.refCount, Object.isStatic]

theorem good_initial (options : Options) : ({ options } : Session).Good 0 where
  heap := Machine.valid_initial
  handles := RegisterFile.orderly_nil
  thunks := RegisterFile.orderly_nil
  weaks := RegisterFile.orderly_nil

theorem Good.step (hgood : s.Good 0) (c : Command) : (s.step c).2.2.Good 0 := by
  have hend := c.run_keeps hgood
  rw [Session.step]
  cases hrun : c.run s with
  | ok answer s' =>
    rw [hrun] at hend
    exact hend
  | error failure s' =>
    rw [hrun] at hend
    exact hend

theorem Good.runAll (hgood : s.Good 0) (cs : List Command) : (s.runAll cs).2.Good 0 :=
  List.foldlRecOn cs _
    (motive := fun reached : List (Except Failure Answer × List String) × Session => reached.2.Good 0)
    hgood fun _ hreached c _ => hreached.step c

/-- Reference counts are exact after any commands, failed ones included. A static object counts
nothing; of what is weak nothing is counted. -/
theorem refCount_exact (options : Options) (cs : List Command) (o : ObjectId) :
    let s := (runAll { options } cs).2
    s.machine.heap.refCount (.plain o) =
      if s.machine.heap.isStatic (.plain o) then 0 else s.strongReferences o :=
  ((good_initial options).runAll cs).refCount o

end Session

end GraphReduction
