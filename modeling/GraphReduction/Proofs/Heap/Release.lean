import Mathlib
import GraphReduction.Proofs.Heap.Counted

/-! The release cascade keeps the counts exact: the references on its worklist are held by the
computation that releases. -/
namespace GraphReduction

/-- A reference that waits to be given back is still held. -/
def Loose.holding (l : Loose) : Holding := .strong l.edge

namespace Heap

variable {m : Heap} {own : Multiset Holding} {cell : Edge}

theorem holds_eq (m : Heap) (cell : Edge) :
    m.holds cell = ↑((m.edgesOf cell).map Holding.strong) +
      (↑((m.weakTarget? cell).toList.map Holding.weak) +
        ↑((m.errorsOf cell).map Holding.error)) := by
  cases cell with
  | object o => cases h : m.object? o <;> simp [holds, edgesOf, weakTarget?, errorsOf, h, ObjectKind.holdings]
  | thunk t => cases h : m.thunk? t <;> simp [holds, edgesOf, weakTarget?, errorsOf, h, ThunkState.holdings]
  | combinator c =>
    cases h : m.combinator? c <;>
      simp [holds, edgesOf, weakTarget?, errorsOf, h, Combinator.holdings, HeldCombinator.edges,
        Handle.map_holding]

namespace Counted

theorem loseEdge (h : m.Counted (.strong cell ::ₘ own))
    (hmore : ∀ n, m.recorded (.strong cell) = some n → 1 < n) :
    (m.loseEdge cell).Counted own where
  exact r n hr := by
    rw [recorded_loseEdge] at hr
    rw [held_congr (contents_loseEdge m cell)]
    split at hr
    · obtain ⟨k, hk, rfl⟩ := Option.map_eq_some_iff.mp hr
      have hcount := h.exact _ _ hk
      rw [Multiset.add_cons, Multiset.count_cons, if_pos ‹_›] at hcount
      omega
    · have hcount := h.exact _ _ hr
      rwa [Multiset.add_cons, Multiset.count_cons, if_neg ‹_›, add_zero] at hcount
  positive c n hr := by
    rw [recorded_loseEdge] at hr
    split at hr
    · next hsame =>
      obtain ⟨k, hk, rfl⟩ := Option.map_eq_some_iff.mp hr
      have := hmore k (hsame ▸ hk)
      omega
    · exact h.positive _ _ hr
  live c hc := by
    rw [isLive_congr (contents_loseEdge m cell)]
    rw [held_congr (contents_loseEdge m cell)] at hc
    exact h.live _ (by rw [Multiset.add_cons]; exact Multiset.mem_cons_of_mem hc)
  allocated o ho := by
    rw [allocated_congr (contents_loseEdge m cell)]
    rw [held_congr (contents_loseEdge m cell)] at ho
    exact h.allocated _ (by rw [Multiset.add_cons]; exact Multiset.mem_cons_of_mem ho)

theorem forget (h : m.Counted (.strong cell ::ₘ own)) (hnone : m.recorded (.strong cell) = none) :
    m.Counted own where
  exact r n hr := by
    have hcount := h.exact r n hr
    rwa [Multiset.add_cons, Multiset.count_cons_of_ne (by rintro rfl; simp_all)] at hcount
  positive := h.positive
  live c hc := h.live _ (by rw [Multiset.add_cons]; exact Multiset.mem_cons_of_mem hc)
  allocated o ho := h.allocated _ (by rw [Multiset.add_cons]; exact Multiset.mem_cons_of_mem ho)

theorem remember (h : m.Counted own) (hlive : m.IsLive cell)
    (hnone : m.recorded (.strong cell) = none) : m.Counted (.strong cell ::ₘ own) where
  exact r n hr := by
    rw [Multiset.add_cons, Multiset.count_cons_of_ne (by rintro rfl; simp_all)]
    exact h.exact r n hr
  positive := h.positive
  live c hc := by
    rw [Multiset.add_cons, Multiset.mem_cons] at hc
    rcases hc with hc | hc
    · cases hc
      exact hlive
    · exact h.live c hc
  allocated o ho := h.allocated o (by simpa using ho)

theorem releaseWeak? {o? : Option ObjectId}
    (h : m.Counted (↑(o?.toList.map Holding.weak) + own)) : (m.releaseWeak? o?).Counted own := by
  cases o? with
  | none => simpa [Heap.releaseWeak?] using h
  | some o => exact Counted.releaseWeak (by simpa using h)

theorem giveBack {loose : Loose} (h : m.Counted (loose.holding ::ₘ own)) :
    (m.giveBack loose).1.Counted (↑((m.giveBack loose).2.map Loose.holding) + own) := by
  obtain ⟨hnone, heq⟩ | ⟨n, hn, hmany, heq⟩ | ⟨n, hn, hlast, hsame, hedges⟩ :=
    m.giveBack_cases loose
  · rw [heq]
    simpa using h.forget hnone
  · rw [heq]
    simpa using h.loseEdge fun k hk => by simp_all
  · have hone : n = 1 := by
      have := h.positive _ _ hn
      omega
    subst hone
    have hremoved := h.removeEdge hn
    rw [holds_eq] at hremoved
    have hfreed : (m.giveBack loose).2.map (Loose.holding) =
        (m.edgesOf loose.edge).map Holding.strong := by
      simp [← hedges, Loose.holding, Function.comp_def]
    refine of_sameCells ?_ hsame
    rw [hfreed]
    apply releaseWeak?
    rw [← errors (m.errorsOf loose.edge)]
    convert hremoved using 1
    abel

end Counted

theorem releaseAll_invariant {P : Heap → List Loose → Prop}
    (hturn : ∀ m loose rest, P m (loose :: rest) →
      P (m.giveBack loose).1 ((m.giveBack loose).2.reverse ++ rest))
    {m : Heap} {pending : List Loose} (h : P m pending) : P (m.releaseAll pending) [] := by
  match pending with
  | [] => simpa using h
  | loose :: rest =>
    rw [releaseAll_cons]
    exact releaseAll_invariant hturn (hturn m loose rest h)
termination_by pending.length + m.bulk
decreasing_by
  have := bulk_giveBack m loose
  simp only [List.length_append, List.length_reverse, List.length_cons]
  omega

theorem Counted.releaseAll {pending : List Loose}
    (h : m.Counted (↑(pending.map Loose.holding) + own)) :
    (m.releaseAll pending).Counted own := by
  have hend := releaseAll_invariant
    (P := fun m pending => m.Counted (↑(pending.map Loose.holding) + own))
    (fun m loose rest h => ?_) h
  · simpa using hend
  · simp only [List.map_cons, ← Multiset.cons_coe, Multiset.cons_add] at h
    have hnext := h.giveBack
    rwa [List.map_append, List.map_reverse, ← Multiset.coe_add, Multiset.coe_reverse, add_assoc]

end Heap

end GraphReduction
