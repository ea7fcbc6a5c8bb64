import Mathlib
import GraphReduction.Proofs.Heap.Freed

/-! How often a destroyed payload is asked for its handles. A cascade that finds a boxed value in a
cell that it took out asks the payload and then drops the value, whose own destructor asks again. So
a payload is asked once only if something outside the heap dropped its last reference. -/
namespace GraphReduction

/-- How often a payload is asked that leaves the heap with this reference. -/
def Loose.asks (loose : Loose) : Nat := if loose.found then 2 else 1

namespace Heap

open Relation

/-- The object of a cell that is a boxed value. -/
def boxedAt? (m : Heap) : Edge → Option ObjectId
  | .object o => (m.object? o).bind fun x => x.kind.value?.map fun _ => o
  | _ => none

def boxedAmong (m : Heap) (cells : List Edge) (o : ObjectId) : Nat :=
  (cells.filterMap m.boxedAt?).count o

/-- Nothing but boxed values is there. -/
def IsBoxed (m : Heap) : Prop := ∀ cell, m.IsLive cell → (m.boxedAt? cell).isSome

variable {m m' : Heap} {own : Multiset Holding} {cell dropped : Edge} {loose : Loose}
  {gone : List Edge}

@[simp] theorem boxedAmong_nil (m : Heap) (o : ObjectId) : m.boxedAmong [] o = 0 := rfl

theorem boxedAmong_append (m : Heap) (cells more : List Edge) (o : ObjectId) :
    m.boxedAmong (cells ++ more) o = m.boxedAmong cells o + m.boxedAmong more o := by
  rw [boxedAmong, List.filterMap_append, List.count_append, boxedAmong, boxedAmong]

/-! One turn -/

theorem count_drained_noteDestroyed (m : Heap) (o : ObjectId) (found : Bool) (kind : ObjectKind)
    (other : ObjectId) : (m.noteDestroyed o found kind).drained.count other =
      m.drained.count other +
        Loose.asks ⟨.object o, found⟩ * (kind.value?.map fun _ => o).toList.count other := by
  rcases kind with ⟨ty, payload⟩ | c | a | e
  · have hasked : (m.noteDestroyed o found (.value ⟨ty, payload⟩)).drained =
        (if found then [o, o] else [o]) ++ m.drained := by
      cases payload <;> rfl
    rw [hasked, List.count_append, add_comm]
    cases found <;> by_cases hsame : o = other <;>
      simp [Loose.asks, ObjectKind.value?, hsame]
  all_goals simp [noteDestroyed, ObjectKind.value?]

@[simp] theorem drained_releaseWeak? (m : Heap) (o? : Option ObjectId) :
    (m.releaseWeak? o?).drained = m.drained := by
  cases o? <;> rfl

theorem count_drained_giveBack (m : Heap) (loose : Loose) (o : ObjectId) :
    (m.giveBack loose).1.drained.count o =
      m.drained.count o + loose.asks * m.boxedAmong (m.destroyedBy loose) o := by
  rw [destroyedBy_eq, boxedAmong]
  obtain ⟨o' | t | c, found⟩ := loose
  · rcases hx : m.object? o' with _ | ⟨_ | ⟨strong, weak⟩, kind⟩
    · simp [giveBack, recorded, hx]
    · simp [giveBack, recorded, hx, Hold.strong?]
    · by_cases hmany : 1 < strong
      · simp [giveBack, recorded, hx, Hold.strong?, hmany, lose]
      · simp only [giveBack, recorded, hx, Hold.strong?, hmany, if_false, Option.bind_some,
          drained_releaseWeak?, count_drained_noteDestroyed]
        cases hkind : kind.value? <;> simp [boxedAt?, hx, hkind, removeObject]
  · rcases hx : m.thunk? t with _ | ⟨owners, state⟩
    · simp [giveBack, recorded, hx]
    · by_cases hmany : 1 < owners
      · simp [giveBack, recorded, hx, hmany, loseThunk]
      · simp [giveBack, recorded, hx, hmany, List.filterMap_cons, boxedAt?, removeThunk]
  · rcases hx : m.combinator? c with _ | held
    · simp [giveBack, recorded, hx]
    · by_cases hmany : 1 < held.owners
      · simp [giveBack, recorded, hx, hmany, loseCombinator]
      · simp [giveBack, recorded, hx, hmany, List.filterMap_cons, boxedAt?, removeCombinator]

namespace Progress

variable {s s' : Cascade}

theorem boxedAt?_eq (h : m.Progress dropped own s) (hleft : cell ∉ s.gone) :
    s.heap.boxedAt? cell = m.boxedAt? cell := by
  rcases cell with o | t | c
  · have hkind := kind?_congr h.contents o
    rw [object?_without, if_neg hleft] at hkind
    have := congrArg (fun k => k.bind fun kind => kind.value?.map fun _ => o) hkind
    simpa [boxedAt?, Option.bind_map, Function.comp_def] using this
  all_goals rfl

theorem not_mem_gone (h : m.Progress dropped own s) (hcell : cell ∈ s.heap.destroyedBy loose) :
    cell ∉ s.gone := by
  obtain ⟨hnone, -⟩ | ⟨hone, hcounts, -⟩ := s.heap.destroyedBy_cases loose
  · simp [hnone] at hcell
  · obtain rfl : cell = loose.edge := by simpa [hone] using hcell
    obtain ⟨n, hn⟩ := Option.ne_none_iff_exists'.mp hcounts
    exact ((h.isLive_iff loose.edge).mp (isLive_of_recorded hn)).2

theorem drained_turn {heap : Heap} {rest : Multiset Loose} {gone : List Edge}
    (h : m.Progress dropped own ⟨heap, loose ::ₘ rest, gone⟩) (o : ObjectId) :
    (heap.giveBack loose).1.drained.count o =
      heap.drained.count o + loose.asks * m.boxedAmong (heap.destroyedBy loose) o := by
  have hsame : (heap.destroyedBy loose).filterMap heap.boxedAt? =
      (heap.destroyedBy loose).filterMap m.boxedAt? :=
    List.filterMap_congr fun cell hcell => h.boxedAt?_eq (h.not_mem_gone hcell)
  rw [count_drained_giveBack, boxedAmong, hsame, boxedAmong]

/-- A run asks every boxed value that it destroys between `least` and `most` times, if every
reference that it gives back does. -/
theorem drained_runs {least most : Nat} (h : m.Progress dropped own s)
    (hruns : ReflTransGen Cascade.Turn s s')
    (hasks : ∀ now, ReflTransGen Cascade.Turn s now →
      ∀ loose ∈ now.pending, least ≤ loose.asks ∧ loose.asks ≤ most) (o : ObjectId) :
    s.heap.drained.count o + least * m.boxedAmong s'.gone o ≤
        s'.heap.drained.count o + least * m.boxedAmong s.gone o ∧
      s'.heap.drained.count o + most * m.boxedAmong s.gone o ≤
        s.heap.drained.count o + most * m.boxedAmong s'.gone o := by
  induction hruns with
  | refl => exact ⟨le_rfl, le_rfl⟩
  | @tail now next hruns hturn ih =>
    have hnow := h.runs hruns
    have hbounds := hasks now hruns
    obtain ⟨heap, loose, rest, gone⟩ := hturn
    obtain ⟨hleast, hmost⟩ := hbounds loose (Multiset.mem_cons_self ..)
    have hdrained := hnow.drained_turn o
    have hleast := Nat.mul_le_mul_right (m.boxedAmong (heap.destroyedBy loose) o) hleast
    have hmost := Nat.mul_le_mul_right (m.boxedAmong (heap.destroyedBy loose) o) hmost
    simp only [boxedAmong_append, mul_add] at ih ⊢
    omega

end Progress

/-- In a heap of any kind the cascade asks every payload that it destroys, at most twice, and no
other one. -/
theorem release_asks {h : Handle} (hcounted : m.Counted (h.holding ::ₘ own))
    (hends : (Cascade.start m h).Ends m' gone) (o : ObjectId) :
    m.drained.count o + m.boxedAmong gone o ≤ m'.drained.count o ∧
      m'.drained.count o ≤ m.drained.count o + 2 * m.boxedAmong gone o := by
  have hasks : ∀ loose : Loose, 1 ≤ loose.asks ∧ loose.asks ≤ 2 := fun loose => by
    unfold Loose.asks
    split <;> omega
  simpa [Cascade.start] using
    (Progress.start hcounted).drained_runs hends (fun _ _ loose _ => hasks loose) o

/-! Heaps of boxed values -/

theorem IsBoxed.found (hboxed : m.IsBoxed) {s : Cascade} (h : m.Progress dropped own s) :
    ∀ next ∈ (s.heap.giveBack loose).2, next.found := by
  have hthere : ∀ cell, s.heap.IsLive cell → (s.heap.boxedAt? cell).isSome := fun cell hlive => by
    obtain ⟨hlive, hleft⟩ := (h.isLive_iff cell).mp hlive
    rw [h.boxedAt?_eq hleft]
    exact hboxed cell hlive
  obtain ⟨o | t | c, found⟩ := loose
  · rcases hx : s.heap.object? o with _ | ⟨_ | ⟨strong, weak⟩, kind⟩
    · simp [giveBack, hx]
    · simp [giveBack, hx]
    · have hkind := hthere (.object o) (by simp [IsLive, hx])
      cases kind with
      | value v =>
        by_cases hmany : 1 < strong <;>
          simp [giveBack, hx, hmany, ObjectKind.edges, loosened, Handle.edge]
      | _ => simp [boxedAt?, hx, ObjectKind.value?] at hkind
  · cases hx : s.heap.thunk? t with
    | none => simp [giveBack, hx]
    | some x => exact absurd (hthere (.thunk t) (by simp [IsLive, hx])) (by simp [boxedAt?])
  · cases hx : s.heap.combinator? c with
    | none => simp [giveBack, hx]
    | some x => exact absurd (hthere (.combinator c) (by simp [IsLive, hx])) (by simp [boxedAt?])

/-- After the first turn everything that is pending was found by the cascade. -/
theorem IsBoxed.found_runs (hboxed : m.IsBoxed) {s s' : Cascade} (h : m.Progress dropped own s)
    (hpending : ∀ loose ∈ s.pending, loose.found) (hruns : ReflTransGen Cascade.Turn s s') :
    ∀ loose ∈ s'.pending, loose.found := by
  induction hruns with
  | refl => exact hpending
  | tail hruns hturn ih =>
    have hnow := h.runs hruns
    obtain ⟨heap, loose, rest, gone⟩ := hturn
    intro next hnext
    obtain hnext | hnext := Multiset.mem_add.mp hnext
    · exact hboxed.found hnow next hnext
    · exact ih next (Multiset.mem_cons_of_mem hnext)

theorem exists_of_boxedAt? (hcell : (m.boxedAt? cell).isSome) :
    ∃ o, cell = .object o ∧ m.boxedAt? cell = some o := by
  rcases cell with o | t | c
  · obtain ⟨o', ho'⟩ := Option.isSome_iff_exists.mp hcell
    obtain ⟨x, hx, hvalue⟩ := Option.bind_eq_some_iff.mp ho'
    obtain ⟨v, -, rfl⟩ := Option.map_eq_some_iff.mp hvalue
    exact ⟨_, rfl, ho'⟩
  all_goals simp [boxedAt?] at hcell

theorem boxedAmong_of_nodup (hboxed : m.IsBoxed) (hlive : ∀ cell ∈ gone, m.IsLive cell)
    (honce : gone.Nodup) (o : ObjectId) :
    m.boxedAmong gone o = if .object o ∈ gone then 1 else 0 := by
  induction gone with
  | nil => rfl
  | cons cell gone ih =>
    obtain ⟨hnew, honce⟩ := List.nodup_cons.mp honce
    have ih := ih (fun c hc => hlive c (List.mem_cons_of_mem _ hc)) honce
    have hcell := hboxed cell (hlive cell List.mem_cons_self)
    obtain ⟨o', rfl, ho'⟩ := exists_of_boxedAt? hcell
    rw [← List.singleton_append, boxedAmong_append, ih, boxedAmong, List.filterMap_cons, ho']
    by_cases hsame : o' = o
    · subst hsame
      simp [hnew]
    · simp [hsame, Ne.symm hsame]

/-! The first turn -/

namespace Cascade

theorem Ends.tail {h : Handle} (hends : (start m h).Ends m' gone) :
    ReflTransGen Turn ⟨(m.giveBack ⟨h.edge, false⟩).1, ↑(m.giveBack ⟨h.edge, false⟩).2,
      m.destroyedBy ⟨h.edge, false⟩⟩ ⟨m', 0, gone⟩ := by
  obtain hnone | ⟨s, hturn, hruns⟩ := hends.cases_head
  · exact absurd (congrArg pending hnone) (Multiset.singleton_ne_zero _)
  generalize hstart : start m h = first at hturn
  obtain ⟨heap, loose, rest, before⟩ := hturn
  obtain ⟨rfl, hpending, rfl⟩ := Cascade.mk.inj hstart
  obtain ⟨rfl, rfl⟩ := (Multiset.singleton_eq_cons_iff _).mp hpending
  simpa using hruns

theorem eq_of_pending_eq_zero {s s' : Cascade} (hnone : s.pending = 0)
    (hruns : ReflTransGen Turn s s') : s' = s := by
  obtain rfl | ⟨next, hturn, -⟩ := hruns.cases_head
  · rfl
  · obtain ⟨heap, loose, rest, gone⟩ := hturn
    exact absurd hnone Multiset.cons_ne_zero

theorem gone_runs {s s' : Cascade} (hruns : ReflTransGen Turn s s') : s.gone <+: s'.gone := by
  induction hruns with
  | refl => exact List.prefix_refl _
  | tail _ hturn ih =>
    obtain ⟨heap, loose, rest, gone⟩ := hturn
    exact ih.trans (List.prefix_append _ _)

end Cascade

theorem giveBack_of_destroyedBy_eq_nil (hnone : m.destroyedBy loose = []) :
    (m.giveBack loose).2 = [] := by
  obtain ⟨-, heq⟩ | ⟨n, -, -, heq⟩ | ⟨n, hn, hlast, -⟩ := m.giveBack_cases loose
  · rw [heq]
  · rw [heq]
  · simp [destroyedBy_eq, hn, Nat.not_lt.mpr hlast] at hnone

/-- If the cell behind the dropped handle is destroyed at all, then by the first turn. -/
theorem mem_destroyedBy_start {h : Handle} (hends : (Cascade.start m h).Ends m' gone) :
    cell ∈ m.destroyedBy ⟨h.edge, false⟩ ↔ cell ∈ gone ∧ cell = h.edge := by
  obtain ⟨hnone, -⟩ | ⟨hone, -⟩ := m.destroyedBy_cases ⟨h.edge, false⟩
  · have hsame := Cascade.eq_of_pending_eq_zero
      (by simp [giveBack_of_destroyedBy_eq_nil hnone]) hends.tail
    obtain rfl : gone = [] := (congrArg Cascade.gone hsame).trans hnone
    simp [hnone]
  · have hbegins : m.destroyedBy ⟨h.edge, false⟩ <+: gone := Cascade.gone_runs hends.tail
    rw [hone] at hbegins ⊢
    refine ⟨fun hmem => ⟨hbegins.subset hmem, List.mem_singleton.mp hmem⟩, fun hmem => ?_⟩
    exact List.mem_singleton.mpr hmem.2

/-- Releasing a handle in a heap of boxed values, with any sharing and in any order of the pending
references. The payload that the handle led to is asked once, if it is destroyed; every other
destroyed payload was found by the cascade and is asked twice. -/
theorem release_asks_boxed {h : Handle} (hcounted : m.Counted (h.holding ::ₘ own))
    (hboxed : m.IsBoxed) (hends : (Cascade.start m h).Ends m' gone) (o : ObjectId) :
    m'.drained.count o = m.drained.count o +
      if .object o ∈ gone then if .object o = h.edge then 1 else 2 else 0 := by
  have hstart := Progress.start hcounted
  have hend := hstart.runs hends
  have hnext : m.Progress h.edge own ⟨(m.giveBack ⟨h.edge, false⟩).1,
      ↑(m.giveBack ⟨h.edge, false⟩).2, m.destroyedBy ⟨h.edge, false⟩⟩ := by
    simpa using hstart.turn (.giveBack m ⟨h.edge, false⟩ 0 [])
  have hasks : ∀ now, ReflTransGen Cascade.Turn _ now →
      ∀ loose ∈ now.pending, 2 ≤ loose.asks ∧ loose.asks ≤ 2 := fun now hnow loose hloose => by
    have hfound := hboxed.found_runs hnext (fun _ => hboxed.found hstart _) hnow loose hloose
    simp [Loose.asks, hfound]
  have hlive : ∀ cell ∈ gone, m.IsLive cell := fun cell hcell => by
    obtain ⟨n, hn⟩ := Option.ne_none_iff_exists'.mp (hend.counts cell hcell)
    exact isLive_of_recorded hn
  have hlive' : ∀ cell ∈ m.destroyedBy ⟨h.edge, false⟩, m.IsLive cell := fun cell hcell =>
    hlive cell ((mem_destroyedBy_start hends).mp hcell).1
  have hfirst : (m.giveBack ⟨h.edge, false⟩).1.drained.count o =
      m.drained.count o + 1 * m.boxedAmong (m.destroyedBy ⟨h.edge, false⟩) o :=
    count_drained_giveBack m ⟨h.edge, false⟩ o
  have hrest := hnext.drained_runs hends.tail hasks o
  have hroot : m.boxedAmong (m.destroyedBy ⟨h.edge, false⟩) o =
      if .object o ∈ gone ∧ .object o = h.edge then 1 else 0 := by
    simp only [boxedAmong_of_nodup hboxed hlive' hnext.once, mem_destroyedBy_start hends]
  have hall := boxedAmong_of_nodup hboxed hlive hend.once o
  rw [hroot] at hfirst
  simp only [hroot, hall] at hrest
  grind

def ownedPair : Heap where
  objects := ⟨#[some ⟨.shared 2 0, .value ⟨.tracked, .tracked "owned"⟩⟩,
    some ⟨.shared 1 0, .value ⟨.pair, .pair (.plain ⟨0⟩) (.plain ⟨0⟩)⟩⟩]⟩

example : (ownedPair.release (.plain ⟨1⟩)).drained.count ⟨1⟩ = 1 ∧
    (ownedPair.release (.plain ⟨1⟩)).drained.count ⟨0⟩ = 2 := by
  cbv

end Heap

end GraphReduction
