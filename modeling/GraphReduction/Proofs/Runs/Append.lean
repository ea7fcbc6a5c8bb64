import Mathlib
import GraphReduction.Proofs.Heap.Freed
import GraphReduction.Proofs.Labels.Initial
import GraphReduction.Proofs.Runs.Leads

/-! Binding an argument appends it, and nobody else can tell. The closure at hand is overwritten only
where no other reference of any kind leads to it; otherwise a copy gets the argument, and what led
back to the closure or to the value of a fixpoint is owned by the copy. -/
namespace GraphReduction

open Heap Run

/-- What a slot leads back to: a closure or the value of a fixpoint, or a value that is gone. -/
inductive BackTarget where
  | live (h : Handle)
  | released

namespace Heap

/-- Where a back edge leads. An edge back to a closure that is gone and a knot without a value lead
nowhere. -/
def backTarget? (m : Heap) (t : ThunkId) : Option BackTarget :=
  match m.stateOf? t with
  | some (.recursive o) => if m.isAlive o then some (.live (.plain o)) else none
  | some (.pending h) =>
    match m.application? h with
    | some (.knot (.weak o)) => some (if m.isAlive o then .live (.plain o) else .released)
    | some (.knot (.strong r)) => some (.live r)
    | _ => none
  | _ => none

/-- The thunk holds what `target` stands for, or the error for a value that is gone. -/
def HoldsTarget (m : Heap) (t : ThunkId) (target : BackTarget) : Prop :=
  match target with
  | .live h => m.stateOf? t = some (.forced h)
  | .released => ∃ o, m.stateOf? t = some (.forced ⟨.exception, o⟩) ∧
      m.kindOf? o = some (.exception .releasedSelfReference)

/-- The slot `t'` of a copy made of the slot `t`: the same thunk, or a new one that holds what the
back edge leads to. -/
inductive Copied (m m' : Heap) (t t' : ThunkId) : Prop
  | shared (hback : m.backTarget? t = none) (hsame : t' = t)
  | owning {target : BackTarget} (hback : m.backTarget? t = some target)
    (hnew : ¬ m.Allocated (.thunk t')) (hholds : m'.HoldsTarget t' target)

/-- The closure can be overwritten: it is shared and begun, the reference at hand is the only one of
any kind, and no slot is a back edge or the self reference of a fixpoint. -/
structure InPlace (m : Heap) (f : Handle) (c : Closure) : Prop where
  unique : m.IsUnique f.target
  begun : 0 < c.bound
  unfinished : c.bound < c.total
  forward : ∀ t ∈ c.arguments, m.isRecursive t = false

/-- What was there is as it was or gone, except for `changed`; and whatever the others hold, over any
number of references, and every static object is as it was. -/
structure Undisturbed (m m' : Heap) (others : Multiset Holding) (changed : Set ObjectId) : Prop where
  object : ∀ o kind, m.Allocated (.object o) → o ∉ changed → m'.kindOf? o = some kind →
    m.kindOf? o = some kind
  thunk : ∀ t state, m.Allocated (.thunk t) → m'.stateOf? t = some state →
    m.stateOf? t = some state
  anchoredObject : ∀ o, m.Anchored others (.object o) → m'.kindOf? o = m.kindOf? o
  anchoredThunk : ∀ t, m.Anchored others (.thunk t) → m'.stateOf? t = m.stateOf? t

/-- The closure behind `r` is the one behind `f` with `x` as one more argument, not evaluated. -/
structure Appended (m : Heap) (f x : Handle) (c : Closure) (others : Multiset Holding) (r : Handle)
    (m' : Heap) : Prop where
  tag : r.tag = .plain
  closure : ∃ c' earlier t, m'.kindOf? r.target = some (.closure c') ∧
    c'.combinator = c.combinator ∧ c'.total = c.total ∧ c'.missing + 1 = c.missing ∧
    c'.arguments = earlier ++ [t] ∧ List.Forall₂ (m.Copied m') c.arguments earlier ∧
    (m.InPlace f c → earlier = c.arguments) ∧
    ¬ m.Allocated (.thunk t) ∧ m'.stateOf? t = some (.pending x)
  same : r.target = f.target ↔ m.InPlace f c
  new : ¬ m.InPlace f c → ¬ m.Allocated r.edge ∧ m'.refCount r = 1
  others : m.Undisturbed m' (x.holding ::ₘ others) {o | m.InPlace f c ∧ o = f.target}

variable {m m' m₁ m₂ : Heap} {own own' others : Multiset Holding} {t t' : ThunkId} {o : ObjectId}

/-! Growing and shrinking -/

theorem holds_of_combinatorOf? {c : CombinatorId} {k : Combinator}
    (h : m.combinatorOf? c = some k) : m.holds (.combinator c) = k.holdings := by
  obtain ⟨x, hx, rfl⟩ := Option.map_eq_some_iff.mp h
  simp [holds, hx]

theorem exists_kindOf? (h : m.IsLive (.object o)) : ∃ kind, m.kindOf? o = some kind := by
  obtain ⟨x, hx⟩ := Option.isSome_iff_exists.mp h
  exact ⟨x.kind, by simp [kindOf?, hx]⟩

theorem exists_stateOf? (h : m.IsLive (.thunk t)) : ∃ state, m.stateOf? t = some state := by
  obtain ⟨x, hx⟩ := Option.isSome_iff_exists.mp h
  exact ⟨x.state, by simp [stateOf?, hx]⟩

theorem exists_combinatorOf? {c : CombinatorId} (h : m.IsLive (.combinator c)) :
    ∃ k, m.combinatorOf? c = some k := by
  obtain ⟨x, hx⟩ := Option.isSome_iff_exists.mp h
  exact ⟨x.combinator, by simp [combinatorOf?, hx]⟩

theorem isLive_of_stateOf? {state : ThunkState} (h : m.stateOf? t = some state) :
    m.IsLive (.thunk t) := by
  obtain ⟨x, hx, -⟩ := Option.map_eq_some_iff.mp h
  simp [IsLive, hx]

theorem isLive_of_combinatorOf? {c : CombinatorId} {k : Combinator}
    (h : m.combinatorOf? c = some k) : m.IsLive (.combinator c) := by
  obtain ⟨x, hx, -⟩ := Option.map_eq_some_iff.mp h
  simp [IsLive, hx]

theorem Within.holds (h : m'.Within m) {cell : Edge} (hlive : m'.IsLive cell) :
    m'.holds cell = m.holds cell := by
  cases cell with
  | object o =>
    obtain ⟨kind, hkind⟩ := exists_kindOf? hlive
    rw [holds_of_kindOf? hkind, holds_of_kindOf? (h.kind o kind hkind)]
  | thunk t =>
    obtain ⟨state, hstate⟩ := exists_stateOf? hlive
    rw [holds_of_stateOf? hstate, holds_of_stateOf? (h.state t state hstate)]
  | combinator c =>
    obtain ⟨k, hk⟩ := exists_combinatorOf? hlive
    rw [holds_of_combinatorOf? hk, holds_of_combinatorOf? (h.combinator c k hk)]

theorem Extends.holds (h : m.Extends m') {cell : Edge} (hlive : m.IsLive cell) :
    m'.holds cell = m.holds cell := by
  cases cell with
  | object o =>
    obtain ⟨kind, hkind⟩ := exists_kindOf? hlive
    rw [holds_of_kindOf? hkind, holds_of_kindOf? (h.kind o kind hkind)]
  | thunk t =>
    obtain ⟨state, hstate⟩ := exists_stateOf? hlive
    rw [holds_of_stateOf? hstate, holds_of_stateOf? (h.state t state hstate)]
  | combinator c =>
    obtain ⟨k, hk⟩ := exists_combinatorOf? hlive
    rw [holds_of_combinatorOf? hk, holds_of_combinatorOf? (h.combinator c k hk)]

theorem Extends.isLive (h : m.Extends m') {cell : Edge} (hlive : m.IsLive cell) :
    m'.IsLive cell := by
  cases cell with
  | object o =>
    obtain ⟨kind, hkind⟩ := exists_kindOf? hlive
    exact isLive_of_kindOf? (h.kind o kind hkind)
  | thunk t =>
    obtain ⟨state, hstate⟩ := exists_stateOf? hlive
    exact isLive_of_stateOf? (h.state t state hstate)
  | combinator c =>
    obtain ⟨k, hk⟩ := exists_combinatorOf? hlive
    exact isLive_of_combinatorOf? (h.combinator c k hk)

theorem Extends.kindOf?_eq (h : m.Extends m') (halloc : m.Allocated (.object o)) :
    m'.kindOf? o = m.kindOf? o := by
  cases hkind : m.kindOf? o with
  | some kind => exact h.kind o kind hkind
  | none =>
    by_contra hsome
    obtain ⟨kind', hkind'⟩ := Option.ne_none_iff_exists'.mp hsome
    obtain ⟨kind, hkind''⟩ := exists_kindOf? (h.live _ halloc (isLive_of_kindOf? hkind'))
    exact absurd (hkind''.symm.trans hkind) (by simp)

theorem Extends.stateOf?_eq (h : m.Extends m') (halloc : m.Allocated (.thunk t)) :
    m'.stateOf? t = m.stateOf? t := by
  cases hstate : m.stateOf? t with
  | some state => exact h.state t state hstate
  | none =>
    by_contra hsome
    obtain ⟨state', hstate'⟩ := Option.ne_none_iff_exists'.mp hsome
    obtain ⟨state, hstate''⟩ := exists_stateOf? (h.live _ halloc (isLive_of_stateOf? hstate'))
    exact absurd (hstate''.symm.trans hstate) (by simp)

theorem Extends.isAlive_eq (h : m.Extends m') (halloc : m.Allocated (.object o)) :
    m'.isAlive o = m.isAlive o :=
  Bool.eq_iff_iff.mpr ⟨h.live (.object o) halloc, fun hlive =>
    h.isLive (show m.IsLive (.object o) from hlive)⟩

theorem isStatic_of_recorded {cell : Edge} (hlive : m.IsLive cell)
    (hnone : m.recorded (.strong cell) = none) :
    ∃ o, cell = .object o ∧ m.isStatic (.plain o) = true := by
  cases cell with
  | object o => exact ⟨o, rfl, isStatic_iff.mpr ⟨hlive, hnone⟩⟩
  | thunk t =>
    obtain ⟨x, hx⟩ := Option.isSome_iff_exists.mp hlive
    simp [recorded, hx] at hnone
  | combinator c =>
    obtain ⟨x, hx⟩ := Option.isSome_iff_exists.mp hlive
    simp [recorded, hx] at hnone

/-- A heap that grows and then loses cells, but no static ones and none that `roots` refer to. -/
structure Sheds (m m' : Heap) (roots : Multiset Holding) : Prop where
  between : ∃ m₁, m.Extends m₁ ∧ m'.Within m₁ ∧ ∀ h, m₁.isStatic h = true → m'.isStatic h = true
  counted : ∃ own, m'.Counted own
  roots : ∀ root, .strong root ∈ roots → m'.IsLive root

theorem Sheds.isLive {roots : Multiset Holding} {cell : Edge} (h : m.Sheds m' roots)
    (hanchored : m.Anchored roots cell) : m'.IsLive cell := by
  obtain ⟨m₁, hext, hwithin, hstatic⟩ := h.between
  obtain ⟨own, hcounted⟩ := h.counted
  obtain ⟨root, hroot, hpath⟩ := hanchored
  induction hpath with
  | refl =>
    obtain hroot | ⟨hlive, hnone⟩ := hroot
    · exact h.roots root hroot
    · obtain ⟨o, rfl, ho⟩ := isStatic_of_recorded hlive hnone
      exact (isStatic_iff.mp (hstatic _ (hext.static _ ho))).1
  | @tail owner cell _ howns ih =>
    have hsame : m'.holds owner = m.holds owner :=
      (hwithin.holds ih).trans (hext.holds howns.isLive)
    exact hcounted.live_of_owns (a := owner) (by rwa [Owns, hsame])

theorem Anchored.isLive {roots : Multiset Holding} {cell : Edge} (h : m.Anchored roots cell)
    (hcounted : m.Counted own) (hroots : ∀ root, .strong root ∈ roots → m.IsLive root) :
    m.IsLive cell :=
  have hsheds : m.Sheds m roots :=
    ⟨⟨m, IsGrowth.refl m, .refl m, fun _ h => h⟩, ⟨own, hcounted⟩, hroots⟩
  hsheds.isLive h

theorem Sheds.undisturbed {roots : Multiset Holding} (h : m.Sheds m' roots)
    (hcounted : m.Counted own)
    (hroots : ∀ root, .strong root ∈ roots → m.IsLive root) (changed : Set ObjectId) :
    m.Undisturbed m' roots changed := by
  obtain ⟨m₁, hext, hwithin, -⟩ := h.between
  have hbefore : ∀ cell, m.Anchored roots cell → m.Allocated cell := fun cell hanchored =>
    (hanchored.isLive hcounted hroots).allocated
  refine ⟨fun o kind halloc _ hkind => ?_, fun t state halloc hstate => ?_, fun o hanchored => ?_,
    fun t hanchored => ?_⟩
  · exact (hext.kindOf?_eq halloc).symm.trans (hwithin.kind o kind hkind)
  · exact (hext.stateOf?_eq halloc).symm.trans (hwithin.state t state hstate)
  · obtain ⟨kind, hkind⟩ := exists_kindOf? (h.isLive hanchored)
    rw [hkind, ← hext.kindOf?_eq (hbefore _ hanchored), hwithin.kind o kind hkind]
  · obtain ⟨state, hstate⟩ := exists_stateOf? (h.isLive hanchored)
    rw [hstate, ← hext.stateOf?_eq (hbefore _ hanchored), hwithin.state t state hstate]

/-! Copies -/

theorem application?_eq {h : Handle} (hkind : m'.kindOf? h.target = m.kindOf? h.target) :
    m'.application? h = m.application? h := by
  have hkind' : m'.kind? h = m.kind? h := hkind
  rw [application?, application?, plainKind?, plainKind?, hkind']

theorem Extends.backTarget?_eq (hext : m.Extends m') (hcounted : m.Counted own)
    (ht : m.IsLive (.thunk t)) : m'.backTarget? t = m.backTarget? t := by
  obtain ⟨state, hstate⟩ := exists_stateOf? ht
  have halive : ∀ {cell o}, .weak o ∈ m.holds cell → m'.isAlive o = m.isAlive o :=
    fun hweak => hext.isAlive_eq (hcounted.allocated_of_weak hweak)
  rw [backTarget?, backTarget?, hext.state t state hstate, hstate]
  cases state with
  | forced r => rfl
  | recursive o =>
    have hweak : .weak o ∈ m.holds (.thunk t) := by simp [holds_of_stateOf? hstate]
    simp only [halive hweak]
  | pending h =>
    have hlive : m.IsLive h.edge := hcounted.live_of_state hstate (by simp [Handle.holding])
    simp only [application?_eq (hext.kindOf?_eq hlive.allocated)]
    cases happ : m.application? h with
    | none => rfl
    | some a =>
      obtain _ | _ | _ | o | _ := a
      case some.knot.weak =>
        have hweak : .weak o ∈ m.holds (.object h.target) := by
          simp [holds_of_kindOf? (kindOf?_of_application? happ)]
        simp only [halive hweak]
      all_goals rfl

theorem HoldsTarget.extends {target : BackTarget} (h : m.HoldsTarget t target)
    (hext : m.Extends m') : m'.HoldsTarget t target := by
  cases target with
  | live r => exact hext.state t _ h
  | released =>
    obtain ⟨o, hstate, hkind⟩ := h
    exact ⟨o, hext.state t _ hstate, hext.kind o _ hkind⟩

theorem HoldsTarget.within {target : BackTarget} (h : m.HoldsTarget t target)
    (hwithin : m'.Within m) (hcounted : m'.Counted own) (ht : m'.IsLive (.thunk t)) :
    m'.HoldsTarget t target := by
  obtain ⟨state, hstate⟩ := exists_stateOf? ht
  have hstate' := hwithin.state t state hstate
  cases target with
  | live r => exact hstate.trans (hstate'.symm.trans h)
  | released =>
    obtain ⟨o, ho, hkind⟩ := h
    obtain rfl : state = .forced ⟨.exception, o⟩ := Option.some.inj (hstate'.symm.trans ho)
    have hlive : m'.IsLive (.object o) :=
      hcounted.live_of_state hstate (by simp [Handle.holding, Handle.edge])
    obtain ⟨kind, hkind'⟩ := exists_kindOf? hlive
    exact ⟨o, hstate, hkind'.trans ((hwithin.kind o kind hkind').symm.trans hkind)⟩

theorem Copied.imp (h : m.Copied m₁ t t')
    (himp : ∀ target, m₁.HoldsTarget t' target → m'.HoldsTarget t' target) :
    m.Copied m' t t' := by
  cases h with
  | shared hback hsame => exact .shared hback hsame
  | owning hback hnew hholds => exact .owning hback hnew (himp _ hholds)

theorem Copied.of_extends (h : m₁.Copied m' t t') (hext : m.Extends m₁) (hcounted : m.Counted own)
    (ht : m.IsLive (.thunk t)) : m.Copied m' t t' := by
  have hback := hext.backTarget?_eq hcounted ht
  cases h with
  | shared hnone hsame => exact .shared (hback.symm.trans hnone) hsame
  | owning hsome hnew hholds =>
    exact .owning (hback.symm.trans hsome) (fun halloc => hnew (hext.allocated _ halloc)) hholds

end Heap

namespace ThunkId

variable {m : Heap} {s s' : Machine} {t t' : ThunkId} {own : Multiset Holding}

def Stands (m : Heap) (h : Handle) : BackTarget → Prop
  | .live r => h = r
  | .released => h.tag = .exception ∧
      m.kindOf? h.target = some (.exception .releasedSelfReference)

theorem copyTarget?_stands {h? : Option Handle} (h : t.copyTarget? s = .ok h? s') :
    h? = none ∧ s.heap.backTarget? t = none ∨
      ∃ r target, h? = some r ∧ s.heap.backTarget? t = some target ∧ Stands s'.heap r target := by
  simp only [copyTarget?, Run.bind_run, state?_run] at h
  rw [backTarget?]
  rcases hstate : s.heap.stateOf? t with _ | p | p | p
  all_goals simp only [hstate, Run.inspect_run, Run.bind_run, Run.pure_run] at h
  · cases h
    exact .inl ⟨rfl, rfl⟩
  · rcases hnode : s.heap.application? p with _ | ⟨f, x⟩ | r | k
    all_goals simp only [hnode, Application.knotValue?, Run.pure_run] at h
    · cases h
      exact .inl ⟨rfl, by simp [hnode]⟩
    · cases h
      exact .inl ⟨rfl, by simp [hnode]⟩
    · cases h
      exact .inl ⟨rfl, by simp [hnode]⟩
    · cases k with
      | unresolved =>
        cases h
        exact .inl ⟨rfl, by simp [hnode]⟩
      | weak o =>
        simp only [Knot.value?, upgrade, Run.bind_run, Run.inspect_run] at h
        cases halive : s.heap.isAlive o with
        | true =>
          simp only [halive, if_true, Run.share_run, Run.pure_run] at h
          cases h
          exact .inr ⟨_, .live (.plain o), rfl, by simp [hnode, halive], rfl⟩
        | false =>
          simp only [halive] at h
          cases h
          refine .inr ⟨_, .released, rfl, by simp [hnode, halive], rfl, ?_⟩
          exact (kindOf?_newObject s.heap _ _).trans (if_pos rfl)
      | strong r =>
        cases h
        exact .inr ⟨_, .live r, rfl, by simp [hnode], rfl⟩
  · cases h
    exact .inl ⟨rfl, rfl⟩
  · cases halive : s.heap.isAlive p with
    | true =>
      simp only [halive, if_true, Run.bind_run, Run.share_run, Run.pure_run] at h
      cases h
      exact .inr ⟨_, .live (.plain p), rfl, by simp [halive], rfl⟩
    | false =>
      simp only [halive] at h
      cases h
      exact .inl ⟨rfl, by simp [halive]⟩

theorem forCopy_copied (h : t.forCopy s = .ok t' s') : s.heap.Copied s'.heap t t' := by
  rw [forCopy, Run.bind_run] at h
  cases htarget : t.copyTarget? s with
  | error signal s₁ => simp [htarget] at h
  | ok h? s₁ =>
    have hext : s.heap.Extends s₁.heap := t.copyTarget?_along.of_ok htarget
    rw [htarget] at h
    obtain ⟨rfl, hback⟩ | ⟨r, target, rfl, hback, hstands⟩ := copyTarget?_stands htarget
    · cases h
      exact .shared hback rfl
    · cases h
      have hstate : (s₁.heap.newThunk (.forced r)).2.stateOf? (s₁.heap.newThunk (.forced r)).1 =
          some (.forced r) := (stateOf?_newThunk s₁.heap _ _).trans (if_pos rfl)
      refine .owning hback (fun halloc => ?_) ?_
      · exact (grows_newThunk s₁.heap (.forced r)).fresh (hext.allocated _ halloc)
      · cases target with
        | live g =>
          cases hstands
          exact hstate
        | released =>
          obtain ⟨tag, o⟩ := r
          obtain ⟨rfl, hkind⟩ := hstands
          exact ⟨o, hstate, hkind⟩

end ThunkId

namespace Closure

variable {m : Heap} {s s' : Machine} {own : Multiset Holding} {c fresh : Closure}

/-- Where copying makes a slot in a heap that has grown from `m`, the copy is one of the slot in
`m`. -/
theorem copySlots_copied {slots slots' : List (Option ThunkId)} (hcounted : m.Counted own)
    (hext : m.Extends s.heap) (hlive : ∀ t, some t ∈ slots → m.IsLive (.thunk t))
    (h : slots.mapM copySlot s = .ok slots' s') :
    List.Forall₂ (m.Copied s'.heap) (slots.filterMap id) (slots'.filterMap id) := by
  induction slots generalizing s slots' with
  | nil =>
    cases h
    exact .nil
  | cons slot slots ih =>
    rw [List.mapM_cons, Run.bind_run] at h
    cases hslot : copySlot slot s with
    | error signal s₁ => simp [hslot] at h
    | ok slot' s₁ =>
      rw [hslot] at h
      dsimp only at h
      rw [Run.bind_run] at h
      cases hslots : slots.mapM copySlot s₁ with
      | error signal s₂ => simp [hslots] at h
      | ok rest' s₂ =>
        have hext₁ : s.heap.Extends s₁.heap := (copySlot_along slot).of_ok hslot
        have hext₂ : s₁.heap.Extends s₂.heap := (Along.mapM copySlot_along slots).of_ok hslots
        rw [hslots] at h
        cases h
        have hrest := ih (IsGrowth.trans hext hext₁)
          (fun t ht => hlive t (List.mem_cons_of_mem _ ht)) hslots
        cases slot with
        | none =>
          cases hslot
          exact hrest
        | some t =>
          rw [copySlot, Run.bind_run] at hslot
          cases hcopy : t.forCopy s with
          | error signal s₃ => simp [hcopy] at hslot
          | ok t' s₃ =>
            rw [hcopy] at hslot
            cases hslot
            have hfirst := (ThunkId.forCopy_copied hcopy).of_extends hext hcounted
              (hlive t List.mem_cons_self)
            exact .cons (hfirst.imp fun _ hholds => hholds.extends hext₂) hrest

theorem copy_copied (hcounted : s.heap.Counted own)
    (hlive : ∀ t ∈ c.arguments, s.heap.IsLive (.thunk t)) (h : c.copy s = .ok fresh s') :
    List.Forall₂ (s.heap.Copied s'.heap) c.arguments fresh.arguments := by
  obtain ⟨slots, s₁, hslots, hext, -, -, hfresh⟩ := copy_slots h
  have hcopied := copySlots_copied hcounted (IsGrowth.refl s.heap)
    (fun t ht => hlive t (by simpa [arguments] using ht)) hslots
  rw [arguments, arguments, hfresh, List.filterMap_reverse, List.filterMap_reverse,
    List.forall₂_reverse_iff]
  exact hcopied.imp fun _ _ hslot => hslot.imp fun _ hholds => hholds.extends hext

end Closure

/-! Only the heap -/

namespace Run

/-- The computation evaluates nothing: whatever way it ends, only the heap is another one. -/
def Quiet {α : Type} (act : Run α) : Prop := ∀ s, ∃ m, ended (act s) = { s with heap := m }

namespace Quiet

variable {α β : Type} {act : Run α} {next : α → Run β}

theorem bind (h : act.Quiet) (hnext : ∀ a, (next a).Quiet) : (act >>= next).Quiet := by
  intro s
  obtain ⟨m, hm⟩ := h s
  rw [Run.bind_run]
  cases hact : act s with
  | error signal s₁ =>
    rw [hact] at hm
    exact ⟨m, hm⟩
  | ok a s₁ =>
    rw [hact] at hm
    obtain rfl : s₁ = { s with heap := m } := hm
    exact hnext a _

theorem pure (a : α) : (Pure.pure a : Run α).Quiet := fun s => ⟨s.heap, rfl⟩

theorem inspect (f : Heap → α) : (Run.inspect f).Quiet := fun s => ⟨s.heap, rfl⟩

theorem change (f : Heap → Heap) : (Run.change f).Quiet := fun s => ⟨f s.heap, rfl⟩

theorem add (f : Heap → α × Heap) : (Run.add f).Quiet := fun s => ⟨(f s.heap).2, rfl⟩

theorem share (h : Handle) : (Run.share h).Quiet := (change _).bind fun _ => pure h

theorem upgrade (o : ObjectId) : (Run.upgrade o).Quiet := by
  refine (inspect _).bind fun alive => ?_
  split
  · exact share _
  · exact (add _).bind fun _ => pure _

theorem mapM {f : α → Run β} (h : ∀ a, (f a).Quiet) : ∀ as : List α, (as.mapM f).Quiet
  | [] => pure []
  | a :: as => by
    rw [List.mapM_cons]
    exact (h a).bind fun _ => (mapM h as).bind fun _ => pure _

end Quiet

end Run

theorem Application.knotValue?_quiet (a : Application) : a.knotValue?.Quiet := by
  cases a with
  | pending | reduced => exact .pure none
  | knot k =>
    cases k with
    | unresolved => exact .pure none
    | weak o => exact (Quiet.upgrade o).bind fun _ => .pure _
    | strong r => exact (Quiet.share r).bind fun _ => .pure _

theorem ThunkId.forCopy_quiet (t : ThunkId) : t.forCopy.Quiet := by
  refine .bind ?_ fun target? => ?_
  · refine (Quiet.inspect _).bind fun state? => ?_
    split
    · refine (Quiet.inspect _).bind fun alive => ?_
      split
      · exact (Quiet.share _).bind fun _ => .pure _
      · exact .pure none
    · refine (Quiet.inspect _).bind fun a? => ?_
      split
      · exact Application.knotValue?_quiet _
      · exact .pure none
    · exact .pure none
  · split
    · exact .add _
    · exact (Quiet.change _).bind fun _ => .pure t

theorem Closure.copy_quiet (c : Closure) : c.copy.Quiet := by
  refine .bind (.mapM (fun slot => ?_) _) fun slots => (Quiet.change _).bind fun _ => .bind ?_
    fun memo => .pure _
  · cases slot with
    | some t => exact t.forCopy_quiet.bind fun _ => .pure _
    | none => exact .pure none
  · cases c.memo with
    | done h => exact (Quiet.share h).bind fun _ => .pure _
    | empty | running => exact .pure Memo.empty

namespace Heap

variable {m m' : Heap} {own others : Multiset Holding} {c : Closure} {f x : Handle}

theorem isStatic_releaseAll (m : Heap) (pending : List Loose) (h : Handle) :
    (m.releaseAll pending).isStatic h = true ↔ m.isStatic h = true :=
  releaseAll_invariant (P := fun m' _ => m'.isStatic h = true ↔ m.isStatic h = true)
    (fun _ _ _ hsame => (isStatic_giveBack _ _ h).trans hsame) Iff.rfl

theorem isRecursive_newThunk {t : ThunkId} (state : ThunkState) (hlive : m.IsLive (.thunk t)) :
    (m.newThunk state).2.isRecursive t = m.isRecursive t := by
  have hstate : (m.newThunk state).2.stateOf? t = m.stateOf? t :=
    (extends_newThunk m state).stateOf?_eq hlive.allocated
  have hstate' : ((m.newThunk state).2.thunk? t).map Thunk.state = (m.thunk? t).map Thunk.state :=
    hstate
  rw [isRecursive, isRecursive, hstate']
  rfl

theorem inPlace_iff (hproper : c.Proper) (hmissing : 0 < c.missing) :
    ((!(c.missing == c.total || m.hasRecursiveSlot c) &&
      ((m.object? f.target).map Object.isUnique).getD false) = true) ↔ m.InPlace f c := by
  have htotal := hproper.total_eq
  have hunique : ((m.object? f.target).map Object.isUnique).getD false = true ↔
      m.IsUnique f.target := by
    rw [IsUnique]
    rcases m.object? f.target with _ | ⟨_ | ⟨strong, weak⟩, kind⟩ <;> simp [Object.isUnique]
  have hslots : m.hasRecursiveSlot c = false ↔ ∀ t ∈ c.arguments, m.isRecursive t = false := by
    simp [hasRecursiveSlot]
  simp only [Bool.and_eq_true, Bool.not_eq_true', Bool.or_eq_false_iff, hunique, hslots,
    beq_eq_false_iff_ne]
  constructor
  · rintro ⟨⟨hne, hforward⟩, hunique⟩
    exact ⟨hunique, by rw [Closure.bound]; omega, by rw [Closure.bound]; omega, hforward⟩
  · rintro ⟨hunique, hbegun, hopen, hforward⟩
    rw [Closure.bound] at hbegun
    exact ⟨⟨by omega, hforward⟩, hunique⟩

theorem backTarget?_of_forward {t : ThunkId} (h : m.isRecursive t = false) :
    m.backTarget? t = none := by
  have hstate : m.stateOf? t = (m.thunk? t).map Thunk.state := rfl
  rw [isRecursive, ← hstate] at h
  rw [backTarget?]
  match hs : m.stateOf? t with
  | none | some (.forced r) => rfl
  | some (.recursive o) => simp [hs] at h
  | some (.pending p) =>
    rw [hs] at h
    simp only [isKnot] at h
    cases happ : m.application? p with
    | none => simp only [happ]
    | some a =>
      cases a with
      | pending | reduced => simp only [happ]
      | knot k => simp [happ] at h

end Heap

namespace Run

variable {s : Machine} {f x : Handle} {others : Multiset Holding} {c : Closure}

def suspended (s : Machine) (x : Handle) : Machine := s.on fun m => (m.newThunk (.pending x)).2

theorem suspended_valid (hvalid : s.heap.Valid (f.holding ::ₘ x.holding ::ₘ others)) :
    (suspended s x).heap.Valid (.strong (.thunk ⟨s.heap.thunks.next⟩) ::ₘ f.holding ::ₘ others) := by
  rw [Multiset.cons_swap, ← Multiset.singleton_add, ← ThunkState.holdings_pending] at hvalid
  exact hvalid.newThunk

theorem refused_undisturbed (hvalid : s.heap.Valid (f.holding ::ₘ x.holding ::ₘ others)) :
    s.heap.Undisturbed
      ((((suspended s x).heap.releaseThunk ⟨s.heap.thunks.next⟩).release f.untagged)) others ∅ := by
  have hsuspended := suspended_valid hvalid
  rw [Multiset.cons_swap] at hsuspended
  have hleft : ((suspended s x).heap.releaseThunk ⟨s.heap.thunks.next⟩).Valid
      (f.untagged.holding ::ₘ others) :=
    Valid.releaseAll (by simpa [Loose.holding] using hsuspended)
  have hend := hleft.release
  refine Sheds.undisturbed ⟨⟨(suspended s x).heap, extends_newThunk _ _,
    (within_release _ _).trans (within_releaseThunk _ _), fun h hstatic => ?_⟩,
    ⟨others, hend.counted⟩, fun root hroot => ?_⟩ hvalid.counted (fun root hroot => ?_) ∅
  · exact (isStatic_releaseAll _ _ h).mpr ((isStatic_releaseAll _ _ h).mpr hstatic)
  · exact hend.counted.live root (Multiset.mem_add.mpr (.inr hroot))
  · exact hvalid.counted.live root (by simp [hroot])

theorem applyArgument_run :
    applyArgument f x s = bindThunk f ⟨s.heap.thunks.next⟩ (suspended s x) := rfl

theorem applyArgument_badApply (hclosure : s.heap.closure? f.untagged = none) :
    applyArgument f x s = .error (.raised (.badApply (s.heap.describe f)))
      ((suspended s x).on fun m =>
        (m.releaseThunk ⟨s.heap.thunks.next⟩).release f.untagged) := by
  have hclosure' : (suspended s x).heap.closure? f.untagged = none := hclosure
  simp only [applyArgument_run, bindThunk, Run.bind_run, Run.inspect_run, hclosure']
  rfl

theorem applyArgument_saturated (hclosure : s.heap.closure? f.untagged = some c)
    (hmissing : c.missing = 0) :
    applyArgument f x s =
      .error (.raised (.tooManyArguments (s.heap.combinatorName c.combinator)))
        ((suspended s x).on fun m =>
          (m.releaseThunk ⟨s.heap.thunks.next⟩).release f.untagged) := by
  have hclosure' : (suspended s x).heap.closure? f.untagged = some c := hclosure
  have hsaturated : c.isSaturated = true := by simp [Closure.isSaturated, hmissing]
  simp only [applyArgument_run, bindThunk, Run.bind_run, Run.inspect_run, hclosure', hsaturated]
  rfl

theorem bindThunk_inPlace {t : ThunkId} (hclosure : s.heap.closure? f.untagged = some c)
    (hproper : c.Proper) (hmissing : 0 < c.missing) (hplace : s.heap.InPlace f c) :
    bindThunk f t s = .ok f.untagged (s.on (·.setKind f.target (.closure (c.fill t)))) := by
  have hsaturated : ¬ c.isSaturated = true := by
    simp only [Closure.isSaturated, beq_iff_eq]
    omega
  simp only [bindThunk, Run.bind_run, Run.inspect_run, hclosure]
  rw [if_neg hsaturated]
  simp only [Run.bind_run, Run.inspect_run, Handle.target_untagged]
  rw [if_pos ((inPlace_iff hproper hmissing).mpr hplace)]
  rfl

theorem bindThunk_copy {t : ThunkId} {fresh : Closure} {s₁ : Machine}
    (hclosure : s.heap.closure? f.untagged = some c) (hproper : c.Proper)
    (hmissing : 0 < c.missing) (hplace : ¬ s.heap.InPlace f c) (hcopy : c.copy s = .ok fresh s₁) :
    bindThunk f t s = .ok (.plain s₁.heap.nextObject)
      (s₁.on fun m => (m.newObject (.closure (fresh.fill t))).2.release f.untagged) := by
  have hsaturated : ¬ c.isSaturated = true := by
    simp only [Closure.isSaturated, beq_iff_eq]
    omega
  simp only [bindThunk, Run.bind_run, Run.inspect_run, hclosure]
  rw [if_neg hsaturated]
  simp only [Run.bind_run, Run.inspect_run, Handle.target_untagged]
  rw [if_neg fun h => hplace ((inPlace_iff hproper hmissing).mp h)]
  simp only [Run.bind_run, hcopy]
  rfl

theorem inPlace_suspended (hvalid : s.heap.Valid (f.holding ::ₘ x.holding ::ₘ others))
    (hkind : s.heap.kindOf? f.target = some (.closure c)) :
    (suspended s x).heap.InPlace f c ↔ s.heap.InPlace f c := by
  have hslots : ∀ t ∈ c.arguments,
      (suspended s x).heap.isRecursive t = s.heap.isRecursive t := fun t ht =>
    isRecursive_newThunk _
      (hvalid.counted.live_of_kind hkind (by simp [ObjectKind.holdings_closure, ht]))
  constructor
  · rintro ⟨hunique, hbegun, hopen, hforward⟩
    exact ⟨hunique, hbegun, hopen, fun t ht => (hslots t ht).symm.trans (hforward t ht)⟩
  · rintro ⟨hunique, hbegun, hopen, hforward⟩
    exact ⟨hunique, hbegun, hopen, fun t ht => (hslots t ht).trans (hforward t ht)⟩

theorem stateOf?_suspended (s : Machine) (x : Handle) :
    (suspended s x).heap.stateOf? ⟨s.heap.thunks.next⟩ = some (.pending x) :=
  (stateOf?_newThunk s.heap (.pending x) _).trans (if_pos rfl)

theorem fresh_suspended (s : Machine) : ¬ s.heap.Allocated (.thunk ⟨s.heap.thunks.next⟩) :=
  (grows_newThunk s.heap (.recursive ⟨0⟩)).fresh

theorem filled_appended (hvalid : s.heap.Valid (f.holding ::ₘ x.holding ::ₘ others))
    (hkind : s.heap.kindOf? f.target = some (.closure c)) (hmissing : 0 < c.missing)
    (hplace : s.heap.InPlace f c) :
    Appended s.heap f x c others f.untagged ((suspended s x).heap.setKind f.target
      (.closure (c.fill ⟨s.heap.thunks.next⟩))) := by
  have hproper := hvalid.proper _ _ hkind
  have hext : s.heap.Extends (suspended s x).heap := extends_newThunk _ _
  have hkinds : ∀ o, ((suspended s x).heap.setKind f.target
      (.closure (c.fill ⟨s.heap.thunks.next⟩))).kindOf? o =
        if o = f.target then some (.closure (c.fill ⟨s.heap.thunks.next⟩))
        else s.heap.kindOf? o := by
    intro o
    rw [Valid.kindOf?_setKind]
    split
    · next heq =>
      have hkind' : (suspended s x).heap.kindOf? o = some (.closure c) := heq ▸ hkind
      rw [hkind']
      rfl
    · rfl
  have hnot := hvalid.counted.not_held_of_unique hplace.unique
  -- whoever holds the closure would hold it through another reference
  have hother : ∀ o, s.heap.Anchored (x.holding ::ₘ others) (.object o) → o ≠ f.target := by
    rintro o ⟨root, hroot, hpath⟩ rfl
    rcases Relation.ReflTransGen.cases_tail hpath with heq | ⟨owner, -, howns⟩
    · subst heq
      obtain hroot | ⟨-, hnone⟩ := hroot
      · exact hnot.1 (Multiset.mem_add.mpr (.inr hroot))
      · exact absurd (hplace.unique.recorded.1.symm.trans hnone) (by simp)
    · exact hnot.1 (Multiset.mem_add.mpr (.inl (Multiset.mem_of_le (holds_le_held _ owner) howns)))
  refine
    { tag := rfl
      closure := ⟨c.fill ⟨s.heap.thunks.next⟩, c.arguments, ⟨s.heap.thunks.next⟩,
        (hkinds _).trans (if_pos rfl), rfl, by simp [Closure.total, Closure.fill], ?_,
        Closure.arguments_fill hproper hmissing _, ?_, fun _ => rfl, fresh_suspended s,
        stateOf?_suspended s x⟩
      same := ⟨fun _ => hplace, fun _ => rfl⟩
      new := fun h => absurd hplace h
      others := ⟨fun o kind _ hchanged hkind' => ?_, fun t state halloc hstate => ?_,
        fun o ho => ?_, fun t ht => ?_⟩ }
  · simp only [Closure.fill]
    omega
  · exact List.forall₂_same.mpr fun t ht =>
      .shared (backTarget?_of_forward (hplace.forward t ht)) rfl
  · rw [hkinds, if_neg fun heq => hchanged ⟨hplace, heq⟩] at hkind'
    exact hkind'
  · exact (hext.stateOf?_eq halloc).symm.trans hstate
  · rw [hkinds, if_neg (hother o ho)]
  · refine hext.stateOf?_eq (ht.isLive hvalid.counted fun root hroot => ?_).allocated
    exact hvalid.counted.live root (Multiset.mem_add.mpr (.inr (Multiset.mem_cons_of_mem hroot)))

theorem refCount_release {m : Heap} {r g : Handle}
    (hvalid : m.Valid (r.holding ::ₘ g.holding ::ₘ others)) (hrecorded : m.recorded r.holding = some 1) :
    (m.release g).refCount r = 1 := by
  have hend : (m.release g).Valid (r.holding ::ₘ others) := by
    rw [Multiset.cons_swap] at hvalid
    exact hvalid.release
  have hcount := hvalid.counted.exact _ _ hrecorded
  have hlive : (m.release g).IsLive r.edge :=
    hend.counted.live _ (by simp [Handle.holding])
  have hshared : ¬ (m.release g).isStatic r = true := fun hstatic => by
    have hbefore := (isStatic_releaseAll m _ r).mp hstatic
    exact absurd (hrecorded.symm.trans (Valid.recorded_of_isStatic hbefore)) (by simp)
  obtain ⟨n, hn⟩ := Option.ne_none_iff_exists'.mp fun hnone =>
    hshared (isStatic_iff.mpr ⟨hlive, hnone⟩)
  have hcount' := hend.counted.exact _ _ hn
  rw [Multiset.add_cons, Multiset.count_cons_self] at hcount hcount'
  -- no cell holds it before, so none of those that are left does
  have hnone : r.holding ∉ m.held + (g.holding ::ₘ others) := Multiset.count_eq_zero.mp (by omega)
  have hleft : r.holding ∉ (m.release g).held + others := by
    intro hmem
    obtain hheld | hother := Multiset.mem_add.mp hmem
    · obtain ⟨owner, howner⟩ := mem_held.mp hheld
      have howns : (m.release g).Owns owner r.edge := howner
      rw [(within_release m g).holds howns.isLive] at howner
      exact hnone (Multiset.mem_add.mpr (.inl (Multiset.mem_of_le (holds_le_held m owner) howner)))
    · exact hnone (Multiset.mem_add.mpr (.inr (Multiset.mem_cons_of_mem hother)))
  rw [Multiset.count_eq_zero.mpr hleft] at hcount'
  subst hcount'
  obtain ⟨y, hy, hstrong⟩ := Option.bind_eq_some_iff.mp hn
  rcases y with ⟨_ | ⟨strong, weak⟩, kind⟩
  · cases hstrong
  · cases hstrong
    simp [Heap.refCount, hy, Object.refCount]

theorem copied_appended (hvalid : s.heap.Valid (f.holding ::ₘ x.holding ::ₘ others))
    (hkind : s.heap.kindOf? f.target = some (.closure c)) (hmissing : 0 < c.missing)
    (hplace : ¬ s.heap.InPlace f c) {fresh : Closure} {s₁ : Machine}
    (hcopy : c.copy (suspended s x) = .ok fresh s₁)
    (hvalid₁ : s₁.heap.Valid ((ObjectKind.closure fresh).holdings +
      (.strong (.thunk ⟨s.heap.thunks.next⟩) ::ₘ f.holding ::ₘ others))) :
    Appended s.heap f x c others (.plain s₁.heap.nextObject)
      ((s₁.heap.newObject (.closure (fresh.fill ⟨s.heap.thunks.next⟩))).2.release f.untagged) := by
  let t : ThunkId := ⟨s.heap.thunks.next⟩
  let r : Handle := .plain s₁.heap.nextObject
  let m₂ : Heap := (s₁.heap.newObject (.closure (fresh.fill t))).2
  show Appended s.heap f x c others r (m₂.release f.untagged)
  obtain ⟨hsame, hfresh⟩ := Closure.copy_shape hcopy
  have hproper := hfresh (hvalid.proper _ _ hkind)
  have hcombinator := (Closure.copy_copyOf hcopy).combinator
  have htotal := (Closure.copy_copyOf hcopy).total
  have hsuspended : s.heap.Extends (suspended s x).heap := extends_newThunk _ _
  have hext₁ : s.heap.Extends s₁.heap := IsGrowth.trans hsuspended (Closure.copy_extends hcopy)
  have hext : s.heap.Extends m₂ := IsGrowth.trans hext₁ (extends_addObject _ _ _)
  have hwithin : (m₂.release f.untagged).Within m₂ := within_release _ _
  have hvalid₂ : m₂.Valid (r.holding ::ₘ f.untagged.holding ::ₘ others) := by
    refine Valid.newObject ?_ fun d hd => by cases hd; exact hproper.fill (hsame ▸ hmissing) t
    rw [Closure.holdings_fill hproper (hsame ▸ hmissing)]
    rwa [Multiset.add_cons, ← Multiset.cons_add] at hvalid₁
  have hend : (m₂.release f.untagged).Valid (r.holding ::ₘ others) := by
    rw [Multiset.cons_swap] at hvalid₂
    exact hvalid₂.release
  have hnew : m₂.kindOf? r.target = some (.closure (fresh.fill t)) :=
    (kindOf?_newObject ..).trans (if_pos rfl)
  have hresult : (m₂.release f.untagged).kindOf? r.target = some (.closure (fresh.fill t)) := by
    obtain ⟨kind, hkind'⟩ := exists_kindOf? (hend.counted.live (.object r.target)
      (by simp [Handle.holding, Handle.edge]))
    rw [hkind', ← hnew, hwithin.kind _ _ hkind']
  have harguments := Closure.arguments_fill hproper (hsame ▸ hmissing) t
  have hlive : ∀ u ∈ fresh.arguments ++ [t], (m₂.release f.untagged).IsLive (.thunk u) := fun u hu =>
    hend.counted.live_of_kind hresult (by simp [ObjectKind.holdings_closure, harguments ▸ hu])
  have hstate : (m₂.release f.untagged).stateOf? t = some (.pending x) := by
    obtain ⟨state, hstate⟩ := exists_stateOf? (hlive t (by simp))
    have hbefore : m₂.stateOf? t = some (.pending x) :=
      (IsGrowth.trans (Closure.copy_extends hcopy) (extends_addObject _ _ _) :
        (suspended s x).heap.Extends m₂).state t _ (stateOf?_suspended s x)
    rw [hstate, ← hbefore, hwithin.state t state hstate]
  have hslots : ∀ u ∈ c.arguments, s.heap.IsLive (.thunk u) := fun u hu =>
    hvalid.counted.live_of_kind hkind (by simp [ObjectKind.holdings_closure, hu])
  have hcopied := Closure.copy_copied (suspended_valid hvalid).counted
    (fun u hu => hsuspended.isLive (hslots u hu)) hcopy
  have hother : r.target ≠ f.target := fun heq => by
    have halloc := hext₁.allocated (.object f.target) (isLive_of_kindOf? hkind).allocated
    rw [← heq] at halloc
    exact (grows_newObject s₁.heap (.exception .blackHole)).fresh halloc
  refine
    { tag := rfl
      closure := ⟨fresh.fill t, fresh.arguments, t, hresult, hcombinator, ?_, ?_, harguments, ?_,
        fun h => absurd h hplace, fresh_suspended s, hstate⟩
      same := ⟨fun heq => absurd heq hother, fun h => absurd h hplace⟩
      new := fun _ => ⟨fun halloc => ?_, refCount_release hvalid₂ ?_⟩
      others := ?_ }
  · simpa [Closure.total, Closure.fill] using htotal
  · simp only [Closure.fill, hsame]
    omega
  · have hboth := (List.forall₂_and_left _ _).mpr ⟨hslots, hcopied⟩
    refine (List.forall₂_and_left _ _).mpr ⟨fun u hu => hu, hboth.flip⟩ |>.flip.imp ?_
    rintro u u' ⟨hu', hu, hslot⟩
    refine (hslot.of_extends hsuspended hvalid.counted hu).imp fun target hholds => ?_
    exact (hholds.extends (extends_addObject _ _ _)).within hwithin hend.counted
      (hlive u' (by simp [hu']))
  · exact (grows_newObject s₁.heap (.exception .blackHole)).fresh (hext₁.allocated _ halloc)
  · simp [m₂, r, Handle.holding, Handle.edge, Handle.plain, recorded, Hold.strong?]
  · refine Sheds.undisturbed ⟨⟨m₂, hext, hwithin, fun h hstatic =>
      (isStatic_releaseAll _ _ h).mpr hstatic⟩, ⟨_, hend.counted⟩, fun root hroot => ?_⟩
      hvalid.counted (fun root hroot => ?_) _
    · rcases Multiset.mem_cons.mp hroot with heq | hroot
      · cases heq
        exact hend.counted.live_of_state hstate (by simp [Handle.holding])
      · exact hend.counted.live root
          (Multiset.mem_add.mpr (.inr (Multiset.mem_cons_of_mem hroot)))
    · exact hvalid.counted.live root (Multiset.mem_add.mpr (.inr (Multiset.mem_cons_of_mem hroot)))

/-- Binding is a copy-on-write append. It evaluates nothing: only the heap changes. A refusal leaves
what is there to the other holders as it was. -/
theorem applyArgument_appends (hvalid : s.heap.Valid (f.holding ::ₘ x.holding ::ₘ others)) :
    (∀ c, s.heap.kindOf? f.target = some (.closure c) → 0 < c.missing →
      ∃ r m, applyArgument f x s = .ok r { s with heap := m } ∧
        s.heap.Appended f x c others r m) ∧
    (∀ c, s.heap.kindOf? f.target = some (.closure c) → c.missing = 0 →
      ∃ m, applyArgument f x s = .error
          (.raised (.tooManyArguments (s.heap.combinatorName c.combinator))) { s with heap := m } ∧
        s.heap.Undisturbed m others ∅) ∧
    ((∀ c, s.heap.kindOf? f.target ≠ some (.closure c)) →
      ∃ m, applyArgument f x s = .error (.raised (.badApply (s.heap.describe f)))
          { s with heap := m } ∧
        s.heap.Undisturbed m others ∅) := by
  refine ⟨fun c hkind hmissing => ?_, fun c hkind hmissing => ?_, fun hnone => ?_⟩
  · have hproper := hvalid.proper _ _ hkind
    have hclosure : (suspended s x).heap.closure? f.untagged = some c :=
      closure?_of_kindOf? rfl hkind
    by_cases hplace : s.heap.InPlace f c
    · refine ⟨f.untagged, _, ?_, filled_appended hvalid hkind hmissing hplace⟩
      rw [applyArgument_run, bindThunk_inPlace hclosure hproper hmissing
        ((inPlace_suspended hvalid hkind).mpr hplace)]
      rfl
    · have hgives : Gives others ∅ (suspended s x)
          (f.untagged.holding ::ₘ {.strong (.thunk ⟨s.heap.thunks.next⟩)}) c.copy _ :=
        copy_frame hkind
      have hsuspended := suspended_valid hvalid
      rw [Multiset.cons_swap, ← Multiset.singleton_add _ others, ← Multiset.cons_add]
        at hsuspended
      obtain ⟨fresh, s₁, hcopy, hmoves⟩ := hgives hsuspended
      have hvalid₁ := hmoves.valid _ hsuspended
      rw [add_assoc, add_assoc, Multiset.singleton_add, Multiset.singleton_add] at hvalid₁
      have hquiet := c.copy_quiet (suspended s x)
      rw [hcopy] at hquiet
      obtain ⟨m, hm⟩ := hquiet
      refine ⟨_, _, ?_, copied_appended hvalid hkind hmissing hplace hcopy hvalid₁⟩
      rw [applyArgument_run, bindThunk_copy hclosure hproper hmissing
        (fun h => hplace ((inPlace_suspended hvalid hkind).mp h)) hcopy]
      obtain rfl : s₁ = { suspended s x with heap := m } := hm
      rfl
  · exact ⟨_, applyArgument_saturated (closure?_of_kindOf? rfl hkind) hmissing,
      refused_undisturbed hvalid⟩
  · refine ⟨_, applyArgument_badApply ?_, refused_undisturbed hvalid⟩
    exact Option.eq_none_iff_forall_ne_some.mpr fun c hc =>
      hnone c (kindOf?_of_closure? (h := f.untagged) hc)

/-- A machine on which somebody refers to the constant function and to the identity. -/
def twoPrimitives : Machine :=
  Machine.initial.on fun m => (m.retainEdge (.object ⟨Primitive.identity.place⟩)).retainEdge
    (.object ⟨Primitive.constant.place⟩)

theorem valid_twoPrimitives : twoPrimitives.heap.Valid
    (Handle.holding (.plain ⟨Primitive.constant.place⟩) ::ₘ
      Handle.holding (.plain ⟨Primitive.identity.place⟩) ::ₘ 0) := by
  have hfirst := Machine.valid_initial.retainEdge (Machine.valid_initial.library.live .identity)
  exact hfirst.retainEdge (hfirst.library.live .constant)

/-- The constant function is static, so that it is copied for its first argument. -/
theorem applyArgument_appends_constant :
    ∃ r m, applyArgument (.plain ⟨Primitive.constant.place⟩) (.plain ⟨Primitive.identity.place⟩)
        twoPrimitives = .ok r { twoPrimitives with heap := m } ∧
      twoPrimitives.heap.Appended (.plain ⟨Primitive.constant.place⟩)
        (.plain ⟨Primitive.identity.place⟩) (.bare ⟨Primitive.constant.place⟩ 2) 0 r m :=
  (applyArgument_appends valid_twoPrimitives).1 _ (by
    refine (kindOf?_congr (contents_retainEdge _ _) _).trans
      ((kindOf?_congr (contents_retainEdge _ _) _).trans ?_)
    exact Machine.kindOf?_initial .constant) (by decide)

end Run

end GraphReduction
