import Mathlib
import GraphReduction.Proofs.Heap.Steps

/-! The release cascade, turn by turn. A cascade may give its pending references back in any order.
Every turn keeps the counts exact and takes at most one cell out; what is left has the contents it
had. -/
namespace GraphReduction

open Relation

namespace ObjectKind

/-- The counter that a payload adds to when it is destroyed. -/
def tracked? : ObjectKind → Option String
  | value ⟨_, .tracked counter⟩ => some counter
  | _ => none

end ObjectKind

namespace Heap

instance (m : Heap) (cell : Edge) : Decidable (m.IsLive cell) :=
  match cell with
  | .object o => inferInstanceAs (Decidable ((m.object? o).isSome = true))
  | .thunk t => inferInstanceAs (Decidable ((m.thunk? t).isSome = true))
  | .combinator c => inferInstanceAs (Decidable ((m.combinator? c).isSome = true))

/-- How often a counter was added to. -/
def dropCount (m : Heap) (counter : String) : Nat := (m.drops.lookup counter).getD 0

def tracked? (m : Heap) : Edge → Option String
  | .object o => (m.object? o).bind (·.kind.tracked?)
  | _ => none

/-- The cell that leaves the heap with the reference that is given back. -/
def destroyedBy (m : Heap) (loose : Loose) : List Edge :=
  if m.IsLive loose.edge ∧ ¬ (m.giveBack loose).1.IsLive loose.edge then [loose.edge] else []

def without (m : Heap) (cells : List Edge) : Heap := cells.foldl removeEdge m

/-- A cascade under way, with the cells it has taken out, latest last. -/
structure Cascade where
  heap : Heap
  pending : Multiset Loose
  gone : List Edge

namespace Cascade

/-- Any pending reference can be the next one. -/
inductive Turn : Cascade → Cascade → Prop
  | giveBack (m : Heap) (loose : Loose) (rest : Multiset Loose) (gone : List Edge) :
    Turn ⟨m, loose ::ₘ rest, gone⟩
      ⟨(m.giveBack loose).1, ↑(m.giveBack loose).2 + rest, gone ++ m.destroyedBy loose⟩

/-- The cascade can end in heap `m'`, having destroyed `gone`. -/
def Ends (s : Cascade) (m' : Heap) (gone : List Edge) : Prop :=
  ReflTransGen Turn s ⟨m', 0, gone⟩

/-- The reference of a handle is dropped. -/
def start (m : Heap) (h : Handle) : Cascade := ⟨m, {⟨h.edge, false⟩}, []⟩

end Cascade

variable {m m' : Heap} {own : Multiset Holding} {cell : Edge} {loose : Loose}

/-! Heaps without some of their cells -/

@[simp] theorem without_nil (m : Heap) : m.without [] = m := rfl

theorem without_concat (m : Heap) (gone : List Edge) (cell : Edge) :
    m.without (gone ++ [cell]) = (m.without gone).removeEdge cell := by
  simp [without]

theorem object?_removeEdge (m : Heap) (cell : Edge) (o : ObjectId) :
    (m.removeEdge cell).object? o = if .object o = cell then none else m.object? o := by
  cases cell <;> simp [removeEdge]

theorem thunk?_removeEdge (m : Heap) (cell : Edge) (t : ThunkId) :
    (m.removeEdge cell).thunk? t = if .thunk t = cell then none else m.thunk? t := by
  cases cell <;> simp [removeEdge]

theorem combinator?_removeEdge (m : Heap) (cell : Edge) (c : CombinatorId) :
    (m.removeEdge cell).combinator? c = if .combinator c = cell then none else m.combinator? c := by
  cases cell <;> simp [removeEdge]

theorem object?_without (m : Heap) (gone : List Edge) (o : ObjectId) :
    (m.without gone).object? o = if .object o ∈ gone then none else m.object? o := by
  induction gone using List.reverseRecOn with
  | nil => simp
  | append_singleton gone cell ih =>
    rw [without_concat, object?_removeEdge, ih]
    by_cases hcell : Edge.object o = cell <;> simp [hcell]

theorem thunk?_without (m : Heap) (gone : List Edge) (t : ThunkId) :
    (m.without gone).thunk? t = if .thunk t ∈ gone then none else m.thunk? t := by
  induction gone using List.reverseRecOn with
  | nil => simp
  | append_singleton gone cell ih =>
    rw [without_concat, thunk?_removeEdge, ih]
    by_cases hcell : Edge.thunk t = cell <;> simp [hcell]

theorem combinator?_without (m : Heap) (gone : List Edge) (c : CombinatorId) :
    (m.without gone).combinator? c = if .combinator c ∈ gone then none else m.combinator? c := by
  induction gone using List.reverseRecOn with
  | nil => simp
  | append_singleton gone cell ih =>
    rw [without_concat, combinator?_removeEdge, ih]
    by_cases hcell : Edge.combinator c = cell <;> simp [hcell]

theorem isLive_without (m : Heap) (gone : List Edge) (cell : Edge) :
    (m.without gone).IsLive cell ↔ m.IsLive cell ∧ cell ∉ gone := by
  cases cell <;> simp only [IsLive, object?_without, thunk?_without, combinator?_without] <;>
    split <;> simp_all

theorem next_without (m : Heap) (gone : List Edge) :
    (m.without gone).objects.next = m.objects.next ∧
      (m.without gone).thunks.next = m.thunks.next ∧
      (m.without gone).combinators.next = m.combinators.next := by
  induction gone using List.reverseRecOn with
  | nil => simp
  | append_singleton gone cell ih =>
    rw [without_concat]
    cases cell <;> simpa [removeEdge, removeObject, removeThunk, removeCombinator] using ih

/-- The order in which cells are taken out does not matter. -/
theorem without_congr (m : Heap) {gone gone' : List Edge}
    (hgone : ∀ cell, cell ∈ gone ↔ cell ∈ gone') : (m.without gone).SameCells (m.without gone') := by
  obtain ⟨hobjects, hthunks, hcombinators⟩ := m.next_without gone
  obtain ⟨hobjects', hthunks', hcombinators'⟩ := m.next_without gone'
  constructor
  · refine Arena.ext_get? (hobjects.trans hobjects'.symm) fun i => ?_
    have h := m.object?_without gone ⟨i⟩
    simp only [hgone, ← object?_without] at h
    exact h
  · refine Arena.ext_get? (hthunks.trans hthunks'.symm) fun i => ?_
    have h := m.thunk?_without gone ⟨i⟩
    simp only [hgone, ← thunk?_without] at h
    exact h
  · refine Arena.ext_get? (hcombinators.trans hcombinators'.symm) fun i => ?_
    have h := m.combinator?_without gone ⟨i⟩
    simp only [hgone, ← combinator?_without] at h
    exact h

theorem holds_without (m : Heap) {gone : List Edge} (hleft : cell ∉ gone) :
    (m.without gone).holds cell = m.holds cell := by
  cases cell <;> simp [holds, object?_without, thunk?_without, combinator?_without, hleft]

theorem contents_removeEdge {m m' : Heap} (hsame : m'.contents = m.contents) (cell : Edge) :
    (m'.removeEdge cell).contents = (m.removeEdge cell).contents := by
  have hremove : ∀ (n : Heap) (cell : Edge), (n.removeEdge cell).contents =
      match cell with
      | .object o => { n.contents with objects := n.contents.objects.remove o.index }
      | .thunk t => { n.contents with thunks := n.contents.thunks.remove t.index }
      | .combinator c => { n.contents with combinators := n.contents.combinators.remove c.index } := by
    intro n cell
    cases cell <;>
      simp [removeEdge, removeObject, removeThunk, removeCombinator, contents, Arena.contents_remove]
  rw [hremove, hremove, hsame]

theorem held_without {gone : List Edge} (hlive : ∀ cell ∈ gone, m.IsLive cell)
    (honce : gone.Nodup) : m.held = (m.without gone).held + (gone.map m.holds).sum := by
  induction gone using List.reverseRecOn with
  | nil => simp
  | append_singleton gone cell ih =>
    obtain ⟨honce, -, hnew⟩ := List.nodup_append.mp honce
    have hcell : cell ∉ gone := fun hmem => hnew cell hmem cell (by simp) rfl
    have hthere : (m.without gone).IsLive cell :=
      (isLive_without m gone cell).mpr ⟨hlive cell (by simp), hcell⟩
    rw [ih (fun c hc => hlive c (List.mem_append_left _ hc)) honce, held_removeEdge hthere,
      without_concat, holds_without m hcell]
    simp only [List.map_append, List.sum_append, List.map_cons, List.map_nil, List.sum_cons,
      List.sum_nil]
    abel

/-! One turn -/

theorem destroyedBy_eq (m : Heap) (loose : Loose) : m.destroyedBy loose =
    match m.recorded (.strong loose.edge) with
    | some n => if 1 < n then [] else [loose.edge]
    | none => [] := by
  obtain ⟨hn, heq⟩ | ⟨n, hn, hmany, heq⟩ | ⟨n, hn, hlast, hsame, -⟩ := m.giveBack_cases loose
  · simp [destroyedBy, hn, heq]
  · simp [destroyedBy, hn, hmany, heq, isLive_congr (contents_loseEdge m loose.edge)]
  · have hgone : ¬ (m.giveBack loose).1.IsLive loose.edge := by
      rw [isLive_congr hsame.contents]
      cases m.weakTarget? loose.edge <;>
        simp [releaseWeak?, isLive_congr (contents_releaseWeak _ _), isLive_removeEdge]
    simp [destroyedBy, hn, Nat.not_lt.mpr hlast, hgone, isLive_of_recorded hn]

theorem destroyedBy_cases (m : Heap) (loose : Loose) :
    m.destroyedBy loose = [] ∧ (m.giveBack loose).1.contents = m.contents ∨
    m.destroyedBy loose = [loose.edge] ∧ m.recorded (.strong loose.edge) ≠ none ∧
      (m.giveBack loose).1.contents = (m.removeEdge loose.edge).contents := by
  obtain ⟨hn, heq⟩ | ⟨n, hn, hmany, heq⟩ | ⟨n, hn, hlast, hsame, -⟩ := m.giveBack_cases loose
  · exact .inl ⟨by simp [destroyedBy_eq, hn], by rw [heq]⟩
  · exact .inl ⟨by simp [destroyedBy_eq, hn, hmany], by rw [heq, contents_loseEdge]⟩
  · refine .inr ⟨by simp [destroyedBy_eq, hn, Nat.not_lt.mpr hlast], by simp [hn], ?_⟩
    rw [hsame.contents]
    cases m.weakTarget? loose.edge <;> simp [releaseWeak?]

theorem recorded_giveBack (hleft : cell ∉ m.destroyedBy loose) :
    (m.giveBack loose).1.recorded (.strong cell) = none ↔ m.recorded (.strong cell) = none := by
  obtain ⟨-, heq⟩ | ⟨n, -, -, heq⟩ | ⟨n, hn, hlast, hsame, -⟩ := m.giveBack_cases loose
  · rw [heq]
  · rw [heq, recorded_loseEdge]
    split <;> simp
  · have hne : loose.edge ≠ cell := by
      rintro rfl
      simp [destroyedBy_eq, hn, Nat.not_lt.mpr hlast] at hleft
    rw [hsame.recorded]
    cases m.weakTarget? loose.edge <;>
      simp [releaseWeak?, recorded_releaseWeak, recorded_removeEdge, hne.symm]

theorem dropCount_add (counter other : String) (more : Nat) (drops : List (String × Nat)) :
    ((addDrops counter more drops).lookup other).getD 0 =
      (drops.lookup other).getD 0 + if other = counter then more else 0 := by
  induction drops with
  | nil =>
    by_cases h : other = counter
    · simp [addDrops, h]
    · simp [addDrops, List.lookup, beq_eq_false_iff_ne.mpr h, h]
  | cons entry rest ih =>
    obtain ⟨name, count⟩ := entry
    by_cases hname : name = counter
    · subst hname
      by_cases h : other = name
      · simp [addDrops, h]
      · simp [addDrops, List.lookup_cons, beq_eq_false_iff_ne.mpr h, h]
    · by_cases h : other = name
      · subst h
        simp [addDrops, hname]
      · simpa [addDrops, hname, List.lookup_cons, beq_eq_false_iff_ne.mpr h] using ih

theorem dropCount_noteDestroyed (m : Heap) (o : ObjectId) (found : Bool) (kind : ObjectKind)
    (counter : String) : (m.noteDestroyed o found kind).dropCount counter =
      m.dropCount counter + if kind.tracked? = some counter then 1 else 0 := by
  rcases kind with ⟨ty, payload⟩ | c | a | e
  · cases payload <;> simp [noteDestroyed, dropCount, ObjectKind.tracked?, dropCount_add, eq_comm]
  all_goals simp [noteDestroyed, ObjectKind.tracked?]

@[simp] theorem dropCount_releaseWeak? (m : Heap) (o? : Option ObjectId) (counter : String) :
    (m.releaseWeak? o?).dropCount counter = m.dropCount counter := by
  cases o? <;> rfl

theorem dropCount_giveBack (m : Heap) (loose : Loose) (counter : String) :
    (m.giveBack loose).1.dropCount counter =
      m.dropCount counter + ((m.destroyedBy loose).filterMap m.tracked?).count counter := by
  rw [destroyedBy_eq]
  obtain ⟨o | t | c, found⟩ := loose
  · rcases hx : m.object? o with _ | ⟨_ | ⟨strong, weak⟩, kind⟩
    · simp [giveBack, recorded, hx]
    · simp [giveBack, recorded, hx, Hold.strong?]
    · by_cases hmany : 1 < strong
      · simp [giveBack, recorded, hx, Hold.strong?, hmany, lose, dropCount]
      · simp only [giveBack, recorded, hx, Hold.strong?, hmany, if_false, Option.bind_some,
          dropCount_releaseWeak?, dropCount_noteDestroyed]
        cases hkind : kind.tracked? with
        | none => simp [tracked?, hx, hkind, removeObject, dropCount]
        | some name =>
          simp [tracked?, hx, hkind, removeObject, dropCount, List.count_singleton]
  · rcases hx : m.thunk? t with _ | ⟨owners, state⟩
    · simp [giveBack, recorded, hx]
    · by_cases hmany : 1 < owners
      · simp [giveBack, recorded, hx, hmany, loseThunk, dropCount]
      · simp only [giveBack, recorded, hx, hmany, if_false, Option.map_some, dropCount_releaseWeak?]
        simp [List.filterMap_cons, tracked?, removeThunk, dropCount]
  · rcases hx : m.combinator? c with _ | held
    · simp [giveBack, recorded, hx]
    · by_cases hmany : 1 < held.owners
      · simp [giveBack, recorded, hx, hmany, loseCombinator, dropCount]
      · simp [giveBack, recorded, hx, hmany, List.filterMap_cons, tracked?, removeCombinator,
          dropCount]

/-! What every turn keeps -/

/-- A cascade that started with `dropped` pending in `m`, while `own` is held outside. -/
structure Progress (m : Heap) (dropped : Edge) (own : Multiset Holding) (s : Cascade) : Prop where
  counted : s.heap.Counted (s.pending.map Loose.holding + own)
  once : s.gone.Nodup
  counts : ∀ cell ∈ s.gone, m.recorded (.strong cell) ≠ none
  contents : s.heap.contents = (m.without s.gone).contents
  recorded : ∀ cell ∉ s.gone, s.heap.recorded (.strong cell) = none ↔ m.recorded (.strong cell) = none
  drops : ∀ counter,
    s.heap.dropCount counter = m.dropCount counter + (s.gone.filterMap m.tracked?).count counter

namespace Progress

variable {dropped : Edge} {s s' : Cascade}

theorem start {h : Handle} (hcounted : m.Counted (h.holding ::ₘ own)) :
    m.Progress h.edge own (.start m h) where
  counted := by simpa [Cascade.start, Loose.holding, Handle.holding] using hcounted
  once := .nil
  counts := by simp [Cascade.start]
  contents := rfl
  recorded _ _ := .rfl
  drops := by simp [Cascade.start]

theorem turn (h : m.Progress dropped own s) (hturn : Cascade.Turn s s') :
    m.Progress dropped own s' := by
  obtain ⟨now, loose, rest, gone⟩ := hturn
  obtain ⟨hcounted, honce, hcounts, hcontents, hrecorded, hdrops⟩ := h
  simp only [Multiset.map_cons, Multiset.cons_add] at *
  have hnext := hcounted.giveBack
  have hcell : ∀ cell ∈ now.destroyedBy loose,
      cell ∉ gone ∧ now.recorded (.strong cell) ≠ none := by
    intro cell hmem
    obtain ⟨hnone, -⟩ | ⟨hone, hrec, -⟩ := now.destroyedBy_cases loose
    · simp [hnone] at hmem
    · obtain rfl : cell = loose.edge := by simpa [hone] using hmem
      obtain ⟨n, hn⟩ := Option.ne_none_iff_exists'.mp hrec
      have hlive := isLive_of_recorded hn
      rw [isLive_congr hcontents, isLive_without] at hlive
      exact ⟨hlive.2, hrec⟩
  constructor
  · simpa [add_assoc] using hnext
  · refine List.nodup_append.mpr ⟨honce, ?_, fun a ha b hb => ?_⟩
    · obtain ⟨hnone, -⟩ | ⟨hone, -⟩ := now.destroyedBy_cases loose
      · simp [hnone]
      · simp [hone]
    · rintro rfl
      exact (hcell a hb).1 ha
  · intro cell hmem
    obtain hmem | hmem := List.mem_append.mp hmem
    · exact hcounts cell hmem
    · obtain ⟨hnew, hrec⟩ := hcell cell hmem
      exact fun hnone => hrec ((hrecorded cell hnew).mpr hnone)
  · obtain ⟨hnone, hsame⟩ | ⟨hone, -, hsame⟩ := now.destroyedBy_cases loose
    · simpa [hnone] using hsame.trans hcontents
    · rw [hone, without_concat]
      exact hsame.trans (contents_removeEdge hcontents loose.edge)
  · intro cell hleft
    obtain ⟨hold, hnew⟩ := not_or.mp (fun h => hleft (List.mem_append.mpr h))
    exact (recorded_giveBack hnew).trans (hrecorded cell hold)
  · intro counter
    have hsame : (now.destroyedBy loose).filterMap now.tracked? =
        (now.destroyedBy loose).filterMap m.tracked? := by
      refine List.filterMap_congr fun cell hmem => ?_
      rcases cell with o | t | c
      · have hkind := kind?_congr hcontents o
        rw [object?_without, if_neg (hcell _ hmem).1] at hkind
        have := congrArg (fun k => k.bind ObjectKind.tracked?) hkind
        simpa [tracked?, Option.bind_map, Function.comp_def] using this
      all_goals rfl
    rw [dropCount_giveBack, hsame, hdrops counter, List.filterMap_append, List.count_append,
      add_assoc]

theorem runs (h : m.Progress dropped own s) (hruns : ReflTransGen Cascade.Turn s s') :
    m.Progress dropped own s' := by
  induction hruns with
  | refl => exact h
  | tail _ hturn ih => exact ih.turn hturn

end Progress

end Heap

end GraphReduction
