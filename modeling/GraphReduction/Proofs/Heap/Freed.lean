import Mathlib
import GraphReduction.Proofs.Heap.Cascade

/-! What the release cascade frees. Exact counts decide which cells are left, and in an acyclic heap
these are the cells that something outside, or a static object, still owns through a path of strong
references. So the order in which pending references are given back does not matter. -/
namespace GraphReduction.Heap

open Relation

/-- The cell is owned, over any number of strong references, by something outside or by a static
object. -/
def Anchored (m : Heap) (own : Multiset Holding) (cell : Edge) : Prop :=
  ∃ root, (.strong root ∈ own ∨ m.IsLive root ∧ m.recorded (.strong root) = none) ∧
    ReflTransGen m.Owns root cell

/-- Dropping a reference to `dropped` while `own` is held outside takes `m` to `m'` and destroys the
cells `gone`. -/
structure Frees (m : Heap) (dropped : Edge) (own : Multiset Holding) (gone : List Edge)
    (m' : Heap) : Prop where
  /-- No cell is destroyed twice. -/
  once : gone.Nodup
  /-- What is destroyed are the cells that nothing outside and no static object owns any more. -/
  unanchored : ∀ cell, cell ∈ gone ↔ m.IsLive cell ∧ ¬ m.Anchored own cell
  objects : ∀ o, (m'.object? o).map Object.kind =
    if .object o ∈ gone then none else (m.object? o).map Object.kind
  thunks : ∀ t, (m'.thunk? t).map Thunk.state =
    if .thunk t ∈ gone then none else (m.thunk? t).map Thunk.state
  combinators : ∀ c, (m'.combinator? c).map HeldCombinator.combinator =
    if .combinator c ∈ gone then none else (m.combinator? c).map HeldCombinator.combinator
  /-- What is left is counted less by the references that were held on it by destroyed cells. -/
  counts : ∀ cell ∉ gone, ∀ n, m.recorded (.strong cell) = some n →
    ∃ left, m'.recorded (.strong cell) = some left ∧
      left + (gone.flatMap m.edgesOf).count cell + (if cell = dropped then 1 else 0) = n
  statics : ∀ cell ∉ gone, m.recorded (.strong cell) = none → m'.recorded (.strong cell) = none
  /-- Each destroyed payload that is tracked adds once to its counter. -/
  drops : ∀ counter,
    m'.dropCount counter = m.dropCount counter + (gone.filterMap m.tracked?).count counter

variable {m m' : Heap} {own : Multiset Holding} {cell : Edge}

/-! Where every cascade ends -/

theorem ends_releaseAll (m : Heap) (pending : List Loose) (gone : List Edge) :
    ∃ gone', Cascade.Ends ⟨m, pending, gone⟩ (m.releaseAll pending) gone' := by
  have hstart : ∃ gone', ReflTransGen Cascade.Turn ⟨m, pending, gone⟩ ⟨m, pending, gone'⟩ :=
    ⟨gone, .refl⟩
  refine releaseAll_invariant
    (P := fun now left => ∃ gone', ReflTransGen Cascade.Turn ⟨m, pending, gone⟩ ⟨now, left, gone'⟩)
    (fun now loose rest ⟨gone', hruns⟩ => ?_) hstart
  refine ⟨gone' ++ now.destroyedBy loose, hruns.tail ?_⟩
  rw [← Multiset.cons_coe, ← Multiset.coe_add, Multiset.coe_reverse]
  exact .giveBack now loose rest gone'

theorem ends_of_any (s : Cascade) : ∃ m' gone', s.Ends m' gone' := by
  obtain ⟨m, pending, gone⟩ := s
  obtain ⟨left, rfl⟩ := Quot.exists_rep pending
  exact ⟨_, ends_releaseAll m left gone⟩

theorem finite_allocated (m : Heap) : { cell | m.Allocated cell }.Finite := by
  refine (((Set.finite_lt_nat m.objects.next).image fun i => Edge.object ⟨i⟩).union
    (((Set.finite_lt_nat m.thunks.next).image fun i => Edge.thunk ⟨i⟩).union
      ((Set.finite_lt_nat m.combinators.next).image fun i => Edge.combinator ⟨i⟩))).subset ?_
  rintro (o | t | c) hcell
  · exact .inl ⟨o.index, hcell, rfl⟩
  · exact .inr (.inl ⟨t.index, hcell, rfl⟩)
  · exact .inr (.inr ⟨c.index, hcell, rfl⟩)

theorem owners_first {P : Edge → Prop} (hacyclic : ∀ cell, ¬ TransGen m.Owns cell cell)
    (hstep : ∀ cell, m.IsLive cell → (∀ owner, m.Owns owner cell → P owner) → P cell)
    (hlive : m.IsLive cell) : P cell := by
  have hfinite : Finite { cell // m.Allocated cell } := m.finite_allocated
  let above (a b : { cell // m.Allocated cell }) : Prop := TransGen m.Owns a.1 b.1
  have htrans : IsTrans _ above := ⟨fun _ _ _ => TransGen.trans⟩
  have hirrefl : Std.Irrefl above := ⟨fun a => hacyclic a.1⟩
  have hwf : WellFounded above := Finite.wellFounded_of_trans_of_irrefl above
  suffices h : ∀ a : { cell // m.Allocated cell }, m.IsLive a.1 → P a.1 from
    h ⟨cell, hlive.allocated⟩ hlive
  intro a
  induction a using hwf.induction with
  | _ a ih =>
    intro hlive
    refine hstep a.1 hlive fun owner howns => ?_
    exact ih ⟨owner, howns.isLive.allocated⟩ (.single howns) howns.isLive

theorem acyclic_of_height (height : Edge → Nat)
    (hless : ∀ owner cell, m.Owns owner cell → height cell < height owner) (cell : Edge) :
    ¬ TransGen m.Owns cell cell := by
  have hpath : ∀ {a b}, TransGen m.Owns a b → height b < height a := by
    intro a b hpath
    induction hpath with
    | single howns => exact hless _ _ howns
    | tail _ howns ih => exact (hless _ _ howns).trans ih
  exact fun hcycle => (hpath hcycle).false

theorem mem_held {r : Holding} : r ∈ m.held ↔ ∃ cell, r ∈ m.holds cell := by
  simp only [held, Multiset.mem_add, Arena.mem_held]
  constructor
  · rintro ((⟨i, x, hx, hr⟩ | ⟨i, x, hx, hr⟩) | ⟨i, x, hx, hr⟩)
    · exact ⟨.object ⟨i⟩, by simpa [holds, object?, hx] using hr⟩
    · exact ⟨.thunk ⟨i⟩, by simpa [holds, thunk?, hx] using hr⟩
    · exact ⟨.combinator ⟨i⟩, by simpa [holds, combinator?, hx] using hr⟩
  · rintro ⟨o | t | c, hr⟩
    · cases hx : m.object? o with
      | none => simp [holds, hx] at hr
      | some x => exact .inl (.inl ⟨o.index, x, hx, by simpa [holds, hx] using hr⟩)
    · cases hx : m.thunk? t with
      | none => simp [holds, hx] at hr
      | some x => exact .inl (.inr ⟨t.index, x, hx, by simpa [holds, hx] using hr⟩)
    · cases hx : m.combinator? c with
      | none => simp [holds, hx] at hr
      | some x => exact .inr ⟨c.index, x, hx, by simpa [holds, hx] using hr⟩

/-- With exact counts, whatever is there is static or owned by another cell or by something
outside. -/
theorem Counted.owned (h : m.Counted own) (cell : Edge) :
    m.recorded (.strong cell) = none ∨ .strong cell ∈ own ∨ ∃ owner, m.Owns owner cell := by
  cases hn : m.recorded (.strong cell) with
  | none => exact .inl rfl
  | some n =>
    have hcount := h.exact _ _ hn
    have hpos := h.positive _ _ hn
    have hmem : .strong cell ∈ m.held + own := Multiset.count_pos.mp (by omega)
    obtain hheld | hown := Multiset.mem_add.mp hmem
    · exact .inr (.inr (mem_held.mp hheld))
    · exact .inr (.inl hown)

theorem count_holds (m : Heap) (owner cell : Edge) :
    (m.holds owner).count (.strong cell) = (m.edgesOf owner).count cell := by
  have hinj : Function.Injective Holding.strong := fun _ _ h => by cases h; rfl
  have hweak : ∀ os : List ObjectId, (os.map Holding.weak).count (.strong cell) = 0 := by
    simp [List.count_eq_zero]
  have herror : ∀ es : List EvalError, (es.map Holding.error).count (.strong cell) = 0 := by
    simp [List.count_eq_zero]
  rw [holds_eq]
  simp [hweak, herror, List.count_map_of_injective _ _ hinj]

theorem count_sum_holds (m : Heap) (gone : List Edge) (cell : Edge) :
    ((gone.map m.holds).sum).count (.strong cell) = (gone.flatMap m.edgesOf).count cell := by
  induction gone with
  | nil => simp
  | cons owner gone ih => simp [ih, count_holds]

namespace Progress

variable {dropped : Edge} {gone : List Edge}

theorem isLive_iff {s : Cascade} (h : m.Progress dropped own s) (cell : Edge) :
    s.heap.IsLive cell ↔ m.IsLive cell ∧ cell ∉ s.gone := by
  rw [isLive_congr h.contents, isLive_without]

theorem recorded_of_gone {s : Cascade} (h : m.Progress dropped own s) (hgone : cell ∈ s.gone) :
    s.heap.recorded (.strong cell) = none := by
  by_contra hn
  obtain ⟨n, hn⟩ := Option.ne_none_iff_exists'.mp hn
  exact ((h.isLive_iff cell).mp (isLive_of_recorded hn)).2 hgone

theorem owns {s : Cascade} (h : m.Progress dropped own s) {owner : Edge}
    (howns : s.heap.Owns owner cell) : m.Owns owner cell := by
  rw [owns_congr h.contents] at howns
  by_cases hgone : owner ∈ s.gone
  · exact absurd howns.isLive (by simp [isLive_without, hgone])
  · rwa [Owns, holds_without m hgone] at howns

theorem isLive_of_anchored (h : m.Progress dropped own ⟨m', 0, gone⟩)
    (hanchored : m.Anchored own cell) : m'.IsLive cell := by
  have hcounted : m'.Counted own := by simpa using h.counted
  obtain ⟨root, hroot, hpath⟩ := hanchored
  induction hpath with
  | refl =>
    rcases hroot with hown | ⟨hlive, hstatic⟩
    · exact hcounted.live root (Multiset.mem_add.mpr (.inr hown))
    · exact (h.isLive_iff root).mpr ⟨hlive, fun hgone => h.counts root hgone hstatic⟩
  | @tail owner cell _ howns ih =>
    have hleft := ((h.isLive_iff owner).mp ih).2
    refine hcounted.live_of_owns (a := owner) ?_
    rwa [Owns, holds_congr h.contents, holds_without m hleft]

/-- In an acyclic heap only what is anchored is left at the end. -/
theorem anchored_of_isLive (h : m.Progress dropped own ⟨m', 0, gone⟩)
    (hacyclic : ∀ cell, ¬ TransGen m.Owns cell cell) (hlive : m'.IsLive cell) :
    m.Anchored own cell := by
  have hcounted : m'.Counted own := by simpa using h.counted
  have hacyclic' : ∀ cell, ¬ TransGen m'.Owns cell cell := fun cell hcycle =>
    hacyclic cell (TransGen.mono (fun _ _ => h.owns) _ _ hcycle)
  refine owners_first hacyclic' (fun cell hlive ih => ?_) hlive
  obtain ⟨hthere, hleft⟩ := (h.isLive_iff cell).mp hlive
  obtain hstatic | hown | ⟨owner, howns⟩ := hcounted.owned cell
  · exact ⟨cell, .inr ⟨hthere, (h.recorded cell hleft).mp hstatic⟩, .refl⟩
  · exact ⟨cell, .inl hown, .refl⟩
  · obtain ⟨root, hroot, hpath⟩ := ih owner howns
    exact ⟨root, hroot, hpath.tail (h.owns howns)⟩

theorem frees {h : Handle} (hcounted : m.Counted (h.holding ::ₘ own))
    (hacyclic : ∀ cell, ¬ TransGen m.Owns cell cell)
    (hend : m.Progress h.edge own ⟨m', 0, gone⟩) : m.Frees h.edge own gone m' where
  once := hend.once
  unanchored cell := by
    have hlive := hend.isLive_iff cell
    constructor
    · intro hgone
      obtain ⟨n, hn⟩ := Option.ne_none_iff_exists'.mp (hend.counts cell hgone)
      exact ⟨isLive_of_recorded hn,
        fun hanchored => (hlive.mp (hend.isLive_of_anchored hanchored)).2 hgone⟩
    · rintro ⟨hthere, hloose⟩
      by_contra hleft
      exact hloose (hend.anchored_of_isLive hacyclic (hlive.mpr ⟨hthere, hleft⟩))
  objects o := by
    rw [kind?_congr hend.contents, object?_without]
    split <;> rfl
  thunks t := by
    rw [state?_congr hend.contents, thunk?_without]
    split <;> rfl
  combinators c := by
    rw [combinator?_congr hend.contents, combinator?_without]
    split <;> rfl
  counts cell hleft n hn := by
    have hnow : m'.recorded (.strong cell) ≠ none := by
      rw [Ne, hend.recorded cell hleft, hn]
      simp
    obtain ⟨left, hrest⟩ := Option.ne_none_iff_exists'.mp hnow
    refine ⟨left, hrest, ?_⟩
    have hbefore := hcounted.exact _ _ hn
    have hafter := hend.counted.exact _ _ hrest
    have hthere : ∀ c ∈ gone, m.IsLive c := fun c hc => by
      obtain ⟨k, hk⟩ := Option.ne_none_iff_exists'.mp (hend.counts c hc)
      exact isLive_of_recorded hk
    rw [held_without hthere hend.once, ← held_congr hend.contents] at hbefore
    simp only [Multiset.count_add, Multiset.count_cons, count_sum_holds, Handle.holding,
      Holding.strong.injEq, Multiset.map_zero, zero_add] at hbefore hafter
    omega
  statics cell hleft hstatic := (hend.recorded cell hleft).mpr hstatic
  drops := hend.drops

end Progress

theorem recorded_weak_eq_none (m : Heap) (o : ObjectId) :
    m.recorded (.weak o) = none ↔ m.recorded (.strong (.object o)) = none := by
  rcases hx : m.object? o with _ | ⟨_ | ⟨strong, weak⟩, kind⟩ <;>
    simp [recorded, hx, Hold.strong?, Hold.weak?]

theorem Counted.recorded_eq (h : m.Counted own) (h' : m'.Counted own)
    (hsame : m'.contents = m.contents)
    (hstatic : ∀ cell, m'.recorded (.strong cell) = none ↔ m.recorded (.strong cell) = none)
    (r : Holding) : m'.recorded r = m.recorded r := by
  have hnone : m'.recorded r = none ↔ m.recorded r = none := by
    rcases r with cell | o | e
    · exact hstatic cell
    · rw [recorded_weak_eq_none, recorded_weak_eq_none, hstatic]
    · simp [recorded]
  cases hr : m.recorded r with
  | none => exact hnone.mpr hr
  | some n =>
    obtain ⟨k, hk⟩ := Option.ne_none_iff_exists'.mp (fun h => by simp [hnone.mp h] at hr)
    have hbefore := h.exact r n hr
    have hafter := h'.exact r k hk
    rw [held_congr hsame] at hafter
    rw [hk, ← hbefore, ← hafter]

theorem Counted.sameCells (h : m.Counted own) (h' : m'.Counted own)
    (hsame : m'.contents = m.contents)
    (hstatic : ∀ cell, m'.recorded (.strong cell) = none ↔ m.recorded (.strong cell) = none) :
    m'.SameCells m := by
  have hrecorded := h.recorded_eq h' hsame hstatic
  constructor
  · apply Arena.ext_get?
    · simpa [contents] using congrArg (fun c => c.objects.next) hsame
    · intro i
      have hkind := kind?_congr hsame ⟨i⟩
      have hstrong := hrecorded (.strong (.object ⟨i⟩))
      have hweak := hrecorded (.weak ⟨i⟩)
      change m'.object? ⟨i⟩ = m.object? ⟨i⟩
      rcases hx : m.object? ⟨i⟩ with _ | ⟨_ | ⟨strong, weak⟩, kind⟩ <;>
        rcases hx' : m'.object? ⟨i⟩ with _ | ⟨_ | ⟨strong', weak'⟩, kind'⟩ <;>
          simp_all [recorded, Hold.strong?, Hold.weak?]
  · apply Arena.ext_get?
    · simpa [contents] using congrArg (fun c => c.thunks.next) hsame
    · intro i
      have hstate := state?_congr hsame ⟨i⟩
      have howners := hrecorded (.strong (.thunk ⟨i⟩))
      change m'.thunk? ⟨i⟩ = m.thunk? ⟨i⟩
      rcases hx : m.thunk? ⟨i⟩ with _ | ⟨owners, state⟩ <;>
        rcases hx' : m'.thunk? ⟨i⟩ with _ | ⟨owners', state'⟩ <;> simp_all [recorded]
  · apply Arena.ext_get?
    · simpa [contents] using congrArg (fun c => c.combinators.next) hsame
    · intro i
      have hcombinator := combinator?_congr hsame ⟨i⟩
      have howners := hrecorded (.strong (.combinator ⟨i⟩))
      change m'.combinator? ⟨i⟩ = m.combinator? ⟨i⟩
      rcases hx : m.combinator? ⟨i⟩ with _ | ⟨owners, k⟩ <;>
        rcases hx' : m'.combinator? ⟨i⟩ with _ | ⟨owners', k'⟩ <;> simp_all [recorded]

/-- Cascades that destroy the same cells end alike, whatever came first. -/
theorem Progress.sameCells {dropped : Edge} {m'' : Heap} {gone gone' : List Edge}
    (h : m.Progress dropped own ⟨m', 0, gone⟩) (h' : m.Progress dropped own ⟨m'', 0, gone'⟩)
    (hgone : ∀ cell, cell ∈ gone ↔ cell ∈ gone') : m'.SameCells m'' := by
  have hcounted : m'.Counted own := by simpa using h.counted
  have hcounted' : m''.Counted own := by simpa using h'.counted
  have hcontents : m'.contents = m''.contents := by
    rw [h.contents, h'.contents, (m.without_congr hgone).contents]
  refine hcounted'.sameCells hcounted hcontents fun cell => ?_
  by_cases hmem : cell ∈ gone
  · simp [h.recorded_of_gone hmem, h'.recorded_of_gone ((hgone cell).mp hmem)]
  · exact (h.recorded cell hmem).trans (h'.recorded cell fun hmem' => hmem ((hgone cell).mpr hmem')).symm

/-- Dropping a handle in an acyclic heap. The cascade can give the pending references back in any
order and never gets stuck; every order frees the same cells and leaves the same heap. -/
theorem release_cascade {h : Handle} (hcounted : m.Counted (h.holding ::ₘ own))
    (hacyclic : ∀ cell, ¬ TransGen m.Owns cell cell) :
    (∃ gone, (Cascade.start m h).Ends (m.release h) gone) ∧
    (∀ s, ReflTransGen Cascade.Turn (.start m h) s → ∃ m' gone, s.Ends m' gone) ∧
    ∀ m' gone, (Cascade.start m h).Ends m' gone →
      m.Frees h.edge own gone m' ∧ m'.SameCells (m.release h) := by
  obtain ⟨gone₀, hrelease⟩ : ∃ gone, (Cascade.start m h).Ends (m.release h) gone :=
    ends_releaseAll m [⟨h.edge, false⟩] []
  have hprogress : ∀ {m' gone}, (Cascade.start m h).Ends m' gone →
      m.Progress h.edge own ⟨m', 0, gone⟩ := (Progress.start hcounted).runs
  refine ⟨⟨gone₀, hrelease⟩, fun s _ => ends_of_any s, fun m' gone hends => ?_⟩
  have hfrees := (hprogress hends).frees hcounted hacyclic
  have hfrees₀ := (hprogress hrelease).frees hcounted hacyclic
  exact ⟨hfrees, (hprogress hends).sameCells (hprogress hrelease) fun cell =>
    (hfrees.unanchored cell).trans (hfrees₀.unanchored cell).symm⟩

/-- Two saturated closures of one combinator that share their argument, and a pair that owns the
first closure twice: the argument is object 0, the body captures object 1. -/
def twoClosures : Heap where
  objects := ⟨#[some ⟨.shared 1 0, .value ⟨.int, .int 5⟩⟩,
    some ⟨.shared 2 0, .value ⟨.tracked, .tracked "captured"⟩⟩,
    some ⟨.shared 2 0, .closure ⟨⟨0⟩, 0, #[some ⟨0⟩], .empty⟩⟩,
    some ⟨.shared 1 0, .closure ⟨⟨0⟩, 0, #[some ⟨0⟩], .done (.plain ⟨1⟩)⟩⟩,
    some ⟨.shared 1 0, .value ⟨.pair, .pair (.plain ⟨2⟩) (.plain ⟨2⟩)⟩⟩]⟩
  thunks := ⟨#[some ⟨2, .forced (.plain ⟨0⟩)⟩]⟩
  combinators := ⟨#[some ⟨2, ⟨"f", .arrow .int .tracked, 1, .captured (.plain ⟨1⟩)⟩⟩]⟩

theorem counted_twoClosures :
    twoClosures.Counted ((Handle.plain ⟨4⟩).holding ::ₘ {(Handle.plain ⟨3⟩).holding}) := by
  constructor
  · rintro ((⟨_ | _ | _ | _ | _ | i⟩ | ⟨_ | i⟩ | ⟨_ | i⟩) | ⟨_ | _ | _ | _ | _ | i⟩ | e) n hn
    all_goals first
      | (cases hn; decide)
      | simp [twoClosures, recorded, object?, thunk?, combinator?, Arena.get?] at hn
  · rintro (⟨_ | _ | _ | _ | _ | i⟩ | ⟨_ | i⟩ | ⟨_ | i⟩) n hn
    all_goals first
      | (cases hn; decide)
      | simp [twoClosures, recorded, object?, thunk?, combinator?, Arena.get?] at hn
  · have hall : ∀ r ∈ twoClosures.held +
        ((Handle.plain ⟨4⟩).holding ::ₘ {(Handle.plain ⟨3⟩).holding}),
        ∀ cell ∈ r.target?, twoClosures.IsLive cell := by decide
    exact fun cell hcell => hall _ hcell cell rfl
  · have hall : ∀ r ∈ twoClosures.held +
        ((Handle.plain ⟨4⟩).holding ::ₘ {(Handle.plain ⟨3⟩).holding}),
        ∀ cell ∈ r.target?, twoClosures.IsLive cell := by decide
    exact fun o ho => (hall _ ho _ rfl).allocated

/-- How long a path from a cell of `twoClosures` can be. -/
def heightOfTwoClosures : Edge → Nat
  | .object ⟨4⟩ => 3
  | .object ⟨2⟩ | .object ⟨3⟩ => 2
  | .thunk _ | .combinator _ => 1
  | _ => 0

theorem acyclic_twoClosures : ∀ cell, ¬ TransGen twoClosures.Owns cell cell := by
  refine acyclic_of_height heightOfTwoClosures fun owner cell howns => ?_
  have hall : ∀ owner ∈ [Edge.object ⟨0⟩, .object ⟨1⟩, .object ⟨2⟩, .object ⟨3⟩, .object ⟨4⟩,
      .thunk ⟨0⟩, .combinator ⟨0⟩], ∀ r ∈ twoClosures.holds owner, ∀ cell ∈ r.target?,
      heightOfTwoClosures cell < heightOfTwoClosures owner := by decide
  refine hall owner ?_ _ howns cell rfl
  rcases owner with ⟨_ | _ | _ | _ | _ | i⟩ | ⟨_ | i⟩ | ⟨_ | i⟩
  all_goals first
    | decide
    | simp [twoClosures, Owns, holds, object?, thunk?, combinator?, Arena.get?] at howns

theorem release_cascade_twoClosures :
    ∃ gone, (Cascade.start twoClosures (.plain ⟨4⟩)).Ends (twoClosures.release (.plain ⟨4⟩)) gone ∧
      twoClosures.Frees (.object ⟨4⟩) {(Handle.plain ⟨3⟩).holding} gone
        (twoClosures.release (.plain ⟨4⟩)) := by
  obtain ⟨⟨gone, hends⟩, -, hevery⟩ :=
    release_cascade (h := .plain ⟨4⟩) counted_twoClosures acyclic_twoClosures
  exact ⟨gone, hends, (hevery _ _ hends).1⟩

end GraphReduction.Heap
