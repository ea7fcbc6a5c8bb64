import Mathlib
import GraphReduction.Reconstruct
import GraphReduction.Proofs.Heap.Counted
import GraphReduction.Proofs.Types.Consistent

/-! What can be reached from a handle, and heaps that agree on all of it. Where nothing reached has
changed, everything that typing looks up is the same and is itself reached. -/
namespace GraphReduction

namespace Heap

/-- What can be reached from a handle, over strong and weak references. -/
inductive Reaches (m : Heap) (h : Handle) : Edge → Prop
  | here : Reaches m h h.edge
  | strong {cell next} (hcell : Reaches m h cell) (hnext : next ∈ m.edgesOf cell) : Reaches m h next
  | weak {cell o} (hcell : Reaches m h cell) (hweak : m.weakTarget? cell = some o) :
    Reaches m h (.object o)

/-- Nothing that can be reached from the handle has changed. How often a cell is referred to is no
part of it. -/
structure Unchanged (m m' : Heap) (h : Handle) : Prop where
  object : ∀ o, m.Reaches h (.object o) → m'.kind? (.plain o) = m.kind? (.plain o)
  thunk : ∀ t, m.Reaches h (.thunk t) →
    (m'.thunk? t).map Thunk.state = (m.thunk? t).map Thunk.state
  combinator : ∀ c, m.Reaches h (.combinator c) →
    (m'.combinator? c).map HeldCombinator.combinator =
      (m.combinator? c).map HeldCombinator.combinator

variable {m m' : Heap} {h : Handle} {o : ObjectId}

theorem Unchanged.refl (m : Heap) (h : Handle) : m.Unchanged m h :=
  ⟨fun _ _ => rfl, fun _ _ => rfl, fun _ _ => rfl⟩

def Inside (m : Heap) (h : Handle) (h? : Option Handle) : Prop :=
  ∀ x, h? = some x → m.Reaches h (.object x.target)

theorem Reaches.edge {kind : ObjectKind} (ho : m.Reaches h (.object o))
    (hkind : m.kind? (.plain o) = some kind) {next : Edge} (hnext : next ∈ kind.edges) :
    m.Reaches h next := by
  refine .strong ho ?_
  obtain ⟨x, hx, rfl⟩ := Option.map_eq_some_iff.1 hkind
  rw [edgesOf, show m.object? o = some x from hx]
  exact hnext

theorem Unchanged.isAlive (hsame : m.Unchanged m' h) (ho : m.Reaches h (.object o)) :
    m'.isAlive o = m.isAlive o := by
  have hkind := congrArg Option.isSome (hsame.object o ho)
  simpa [kind?, Heap.isAlive, Handle.plain] using hkind

theorem Unchanged.slot (hsame : m.Unchanged m' h) {t : ThunkId} (ht : m.Reaches h (.thunk t)) :
    m'.slotHandle? t = m.slotHandle? t ∧ m.Inside h (m.slotHandle? t) := by
  have hstate := hsame.thunk t ht
  cases hthunk : m.thunk? t with
  | none =>
    rw [hthunk] at hstate
    simp [slotHandle?, hstate, hthunk, Inside]
  | some x =>
    rw [hthunk] at hstate
    have hedges : ∀ next ∈ x.state.edges, m.Reaches h next := fun next hnext =>
      .strong ht (by simpa [edgesOf, hthunk] using hnext)
    have hweak : ∀ o, x.state.weakTarget? = some o → m.Reaches h (.object o) := fun o ho =>
      .weak ht (by simpa [weakTarget?, hthunk] using ho)
    simp only [slotHandle?, hstate, hthunk, Option.map_some]
    cases hx : x.state with
    | pending y | forced y =>
      refine ⟨rfl, fun z hz => ?_⟩
      obtain rfl : y = z := Option.some.inj hz
      exact hedges _ (by simp [hx, ThunkState.edges, Handle.edge])
    | recursive o =>
      have ho := hweak o (by simp [hx, ThunkState.weakTarget?])
      refine ⟨by simp only [hsame.isAlive ho], fun z hz => ?_⟩
      obtain rfl := Option.some.inj (Option.ite_none_right_eq_some.1 hz).2
      exact ho

theorem Unchanged.knot (hsame : m.Unchanged m' h) (ho : m.Reaches h (.object o)) {k : Knot}
    (hkind : m.kind? (.plain o) = some (.application (.knot k))) :
    m'.knotHandle? k = m.knotHandle? k ∧ m.Inside h (m.knotHandle? k) := by
  cases k with
  | unresolved => exact ⟨rfl, fun z hz => by cases hz⟩
  | strong y =>
    refine ⟨rfl, fun z hz => ?_⟩
    obtain rfl : y = z := Option.some.inj hz
    exact ho.edge hkind (by simp [ObjectKind.edges, Knot.edges, Handle.edge])
  | weak p =>
    have hp : m.Reaches h (.object p) := by
      refine .weak ho ?_
      obtain ⟨x, hx, hxkind⟩ := Option.map_eq_some_iff.1 hkind
      rw [weakTarget?, show m.object? o = some x from hx, Option.bind_some, hxkind]
      rfl
    refine ⟨by rw [knotHandle?, knotHandle?, hsame.isAlive hp], fun z hz => ?_⟩
    obtain rfl := Option.some.inj (Option.ite_none_right_eq_some.1 hz).2
    exact hp

theorem Unchanged.declared (hsame : m.Unchanged m' h) (ho : m.Reaches h (.object o)) {c : Closure}
    (hkind : m.kind? (.plain o) = some (.closure c)) : m'.declared c = m.declared c := by
  have hreached : m.Reaches h (.combinator c.combinator) :=
    ho.edge hkind (by simp [ObjectKind.edges])
  have hcombinator := congrArg (Option.map Combinator.type) (hsame.combinator _ hreached)
  simp only [Option.map_map] at hcombinator
  exact congrArg (Option.getD · Ty.int) hcombinator

theorem Reaches.argument (ho : m.Reaches h (.object o)) {c : Closure}
    (hkind : m.kind? (.plain o) = some (.closure c)) {t : ThunkId} (ht : t ∈ c.arguments) :
    m.Reaches h (.thunk t) :=
  ho.edge hkind (by simp [ObjectKind.edges, ht])

end Heap

end GraphReduction
