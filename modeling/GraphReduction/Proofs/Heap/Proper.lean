import Mathlib
import GraphReduction.Proofs.Heap.Holdings

/-! Closures whose slots are in order: empty ones in front, as many as arguments are missing, and
behind them the arguments with the last one first. Binding an argument keeps the order. -/
namespace GraphReduction.Closure

def Proper (c : Closure) : Prop :=
  c.slots.toList = List.replicate c.missing none ++ (c.arguments.map some).reverse

variable {c : Closure}

theorem Proper.total_eq (h : c.Proper) : c.total = c.missing + c.arguments.length := by
  have := congrArg List.length h
  simpa [total] using this

theorem proper_bare (k : CombinatorId) (arity : Nat) : (bare k arity).Proper := by
  simp [Proper, bare, arguments]

theorem arguments_bare (k : CombinatorId) (arity : Nat) : (bare k arity).arguments = [] := by
  simp [bare, arguments]

theorem Proper.arguments_eq_nil (h : c.Proper) (hbare : c.bound = 0) : c.arguments = [] := by
  have htotal := h.total_eq
  rw [bound] at hbare
  exact List.eq_nil_of_length_eq_zero (by omega)

theorem slots_fill (h : c.Proper) (hmissing : 0 < c.missing) (t : ThunkId) :
    (c.fill t).slots.toList =
      List.replicate (c.missing - 1) none ++ some t :: (c.arguments.map some).reverse := by
  obtain ⟨n, hn⟩ : ∃ n, c.missing = n + 1 := ⟨c.missing - 1, by omega⟩
  rw [fill, Array.toList_setIfInBounds, h, hn, Nat.add_sub_cancel, List.replicate_succ',
    List.append_assoc, List.set_append_right _ _ (by simp)]
  simp

theorem arguments_fill (h : c.Proper) (hmissing : 0 < c.missing) (t : ThunkId) :
    (c.fill t).arguments = c.arguments ++ [t] := by
  rw [arguments, slots_fill h hmissing]
  simp [List.filterMap_reverse]

theorem Proper.fill (h : c.Proper) (hmissing : 0 < c.missing) (t : ThunkId) :
    (c.fill t).Proper := by
  rw [Proper, slots_fill h hmissing, arguments_fill h hmissing]
  simp [Closure.fill]

theorem Proper.of_filled {c' : Closure} (h : c.Proper) (hmissing : c'.missing = c.missing)
    (hfilled : c'.slots.toList.map Option.isSome = c.slots.toList.map Option.isSome) :
    c'.Proper := by
  rw [h, List.map_append, List.map_replicate, Option.isSome_none, List.map_reverse, List.map_map,
    List.map_eq_append_iff] at hfilled
  obtain ⟨front, back, hslots, hfront, hback⟩ := hfilled
  obtain rfl : front = List.replicate c.missing none := by
    rw [List.eq_replicate_iff] at hfront ⊢
    simpa using hfront
  obtain ⟨bound, rfl⟩ : ∃ bound : List ThunkId, back = bound.map some := by
    have hsome : ∀ slot ∈ back, slot.isSome := by
      intro slot hslot
      have hmem : slot.isSome ∈ back.map Option.isSome := List.mem_map_of_mem hslot
      rw [hback, List.mem_reverse] at hmem
      obtain ⟨t, -, ht⟩ := List.mem_map.mp hmem
      rw [← ht]
      rfl
    clear hback hslots
    induction back with
    | nil => exact ⟨[], rfl⟩
    | cons slot back ih =>
      obtain ⟨bound, rfl⟩ := ih fun slot' hslot => hsome slot' (List.mem_cons_of_mem _ hslot)
      obtain ⟨t, rfl⟩ := Option.isSome_iff_exists.mp (hsome slot List.mem_cons_self)
      exact ⟨t :: bound, rfl⟩
  simp [Proper, arguments, hslots, hmissing, List.filterMap_reverse]

theorem holdings_fill (h : c.Proper) (hmissing : 0 < c.missing) (t : ThunkId) :
    (ObjectKind.closure (c.fill t)).holdings =
      .strong (.thunk t) ::ₘ (ObjectKind.closure c).holdings := by
  rw [ObjectKind.holdings_closure, ObjectKind.holdings_closure, arguments_fill h hmissing]
  simp only [Closure.fill, List.map_append, ← Multiset.coe_add, List.map_cons, List.map_nil,
    Multiset.coe_singleton]
  rw [Multiset.cons_swap]
  congr 1
  rw [add_right_comm, add_comm, Multiset.singleton_add]

end GraphReduction.Closure
