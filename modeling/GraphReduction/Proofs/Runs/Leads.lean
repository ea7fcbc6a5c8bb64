import Mathlib
import GraphReduction.Proofs.Labels.Ends
import GraphReduction.Proofs.Session.Operations
import GraphReduction.Proofs.Supply.HandsOut

/-! Where computations lead. A relation between heaps that holds for each single change of a heap
holds from the start to the end of a run, whatever way the run ends, and of the supply of variables
a run only asks for some. Making a copy of a closure is the longest run after which everything is
there that was there. -/
namespace GraphReduction

open Heap Run

/-- A state with a heap in it, and with a supply of variables some of which have names. -/
class HasHeap (σ : Type) where
  heap : σ → Heap
  vars : σ → VarSupply
  named : σ → List VarId

instance : HasHeap Machine := ⟨Machine.heap, Machine.vars, fun _ => []⟩

instance : HasHeap Session :=
  ⟨fun s => s.machine.heap, fun s => s.machine.vars, fun s => s.varNames.map Prod.snd⟩

open HasHeap

/-- Variables that can be asked for again have been drawn. -/
structure HasDrawn {σ : Type} [HasHeap σ] (s : σ) : Prop where
  generics : ∀ v ∈ (vars s).generics.toList, (vars s).Issued v
  named : ∀ v ∈ named s, (vars s).Issued v

/-- Between two states variables have been asked for. -/
def Requests {σ : Type} [HasHeap σ] (s s' : σ) : Prop :=
  HasDrawn s → (vars s).Serves (vars s') ∧ HasDrawn s'

namespace Requests

variable {σ : Type} [HasHeap σ] {s s' s'' : σ}

theorem refl (s : σ) : Requests s s := fun hdrawn => ⟨Std.Refl.refl _, hdrawn⟩

theorem trans (h : Requests s s') (h' : Requests s' s'') : Requests s s'' := fun hdrawn =>
  have ⟨hserves, hdrawn'⟩ := h hdrawn
  have ⟨hserves', hdrawn''⟩ := h' hdrawn'
  ⟨IsTrans.trans _ _ _ hserves hserves', hdrawn''⟩

theorem of_serves (hserves : (vars s).Serves (vars s')) (hnamed : named s' = named s) :
    Requests s s' := by
  obtain ⟨ds, hds⟩ := hserves
  exact fun hdrawn => ⟨⟨ds, hds⟩, hds.issued hdrawn.generics,
    fun v hv => (hdrawn.named v (hnamed ▸ hv)).mono hds.next_le⟩

theorem of_vars {s s' : Machine} (hvars : s'.vars = s.vars) : Requests s s' :=
  of_serves (by rw [show vars s' = vars s from hvars]; exact Std.Refl.refl _) rfl

end Requests

/-- The state in which a computation ends, with or without a result. -/
def ended {ε σ α : Type} : EStateM.Result ε σ α → σ
  | .ok _ s => s
  | .error _ s => s

/-- From `s` the computation leads to a heap that `r` relates to that of `s`, and asks for variables
on the way. -/
def Leads {ε σ α : Type} [HasHeap σ] (r : Heap → Heap → Prop) (s : σ) (act : EStateM ε σ α) :
    Prop :=
  r (heap s) (heap (ended (act s))) ∧ Requests s (ended (act s))

/-- The computation leads so from any state. -/
def Along {ε σ α : Type} [HasHeap σ] (r : Heap → Heap → Prop) (act : EStateM ε σ α) : Prop :=
  ∀ s, Leads r s act

/-- What comes into being while something runs, apart from closures. The types of values have no
variables. -/
def ObjectKind.Plain : ObjectKind → Prop
  | .value v => ∃ name, v.type = .named name
  | .closure _ => False
  | .application _ | .exception _ => True

/-- Single changes after which everything is there that was there. -/
class Heap.IsGrowth (r : Heap → Heap → Prop) : Prop where
  refl (m : Heap) : r m m
  trans {m m' m'' : Heap} (h : r m m') (h' : r m' m'') : r m m''
  retainEdge (m : Heap) (cell : Edge) : r m (m.retainEdge cell)
  retainWeak (m : Heap) (o : ObjectId) : r m (m.retainWeak o)
  addObject (m : Heap) (hold : Hold) {kind : ObjectKind} (hkind : kind.Plain) :
    r m (m.addObject hold kind).2
  newThunk (m : Heap) (state : ThunkState) : r m (m.newThunk state).2

variable {r : Heap → Heap → Prop}

section

variable [IsGrowth r]

variable {ε σ α β : Type} [HasHeap σ] {s s' : σ} {act : EStateM ε σ α} {next : α → EStateM ε σ β}

theorem Leads.pure (a : α) : Leads r s (Pure.pure a : EStateM ε σ α) :=
  ⟨IsGrowth.refl _, .refl s⟩

theorem Leads.bind (h : Leads r s act)
    (hnext : ∀ a s', act s = .ok a s' → Leads r s' (next a)) : Leads r s (act >>= next) := by
  rw [Leads, Balances.bind_run]
  rw [Leads] at h
  cases hact : act s with
  | ok a s₁ =>
    rw [hact] at h
    have hrest := hnext a s₁ hact
    exact ⟨IsGrowth.trans h.1 hrest.1, h.2.trans hrest.2⟩
  | error e s₁ =>
    rw [hact] at h
    exact h

theorem Leads.throw (e : ε) : Leads r s (MonadExcept.throw e : EStateM ε σ α) :=
  ⟨IsGrowth.refl _, .refl s⟩

theorem Leads.tryCatch {handle : ε → EStateM ε σ α} (h : Leads r s act)
    (hhandle : ∀ e s', act s = .error e s' → Leads r s' (handle e)) :
    Leads r s (MonadExcept.tryCatch act handle) := by
  rw [Leads] at h ⊢
  rw [Balances.tryCatch_run]
  cases hact : act s with
  | ok a s₁ =>
    rw [hact] at h
    exact h
  | error e s₁ =>
    rw [hact] at h
    have hrest := hhandle e s₁ hact
    exact ⟨IsGrowth.trans h.1 hrest.1, h.2.trans hrest.2⟩

theorem Leads.after {act' : EStateM ε σ α} (hrun : act s = act' s')
    (hbefore : r (heap s) (heap s')) (hrequests : Requests s s') (h : Leads r s' act') :
    Leads r s act := by
  rw [Leads, hrun]
  exact ⟨IsGrowth.trans hbefore h.1, hrequests.trans h.2⟩

omit [IsGrowth r] in
theorem Leads.change {s : Machine} {f : Heap → Heap} (h : r s.heap (f s.heap)) :
    Leads r s (Run.change f) :=
  ⟨h, .of_vars rfl⟩

omit [IsGrowth r] in
theorem Leads.add {s : Machine} {f : Heap → α × Heap} (h : r s.heap (f s.heap).2) :
    Leads r s (Run.add f) :=
  ⟨h, .of_vars rfl⟩

omit [IsGrowth r] in
theorem Leads.inspect {s : Machine} {f : Heap → α} {next : α → Run β}
    (h : Leads r s (next (f s.heap))) : Leads r s (Run.inspect f >>= next) := h

omit [IsGrowth r] in
theorem Leads.ite {c : Prop} [Decidable c] {act' : EStateM ε σ α} (h : Leads r s act)
    (h' : Leads r s act') : Leads r s (if c then act else act') := by
  split
  · exact h
  · exact h'

namespace Along

theorem bind (h : Along r act) (hnext : ∀ a, Along r (next a)) : Along r (act >>= next) :=
  fun s => .bind (h s) fun a s' _ => hnext a s'

theorem tryCatch {handle : ε → EStateM ε σ α} (h : Along r act)
    (hhandle : ∀ e, Along r (handle e)) : Along r (MonadExcept.tryCatch act handle) :=
  fun s => .tryCatch (h s) fun e s' _ => hhandle e s'

theorem pure (a : α) : Along r (Pure.pure a : EStateM ε σ α) := fun _ => .pure a

theorem throw (e : ε) : Along r (MonadExcept.throw e : EStateM ε σ α) := fun _ => .throw e

omit [IsGrowth r] in
theorem ite {c : Prop} [Decidable c] {act' : EStateM ε σ α} (h : Along r act) (h' : Along r act') :
    Along r (if c then act else act') :=
  fun s => .ite (h s) (h' s)

omit [IsGrowth r] in
theorem of_ok {a : α} (h : Along r act) (hact : act s = .ok a s') : r (heap s) (heap s') := by
  have hend := (h s).1
  rwa [hact] at hend

theorem mapM {f : α → EStateM ε σ β} (h : ∀ a, Along r (f a)) (xs : List α) :
    Along r (xs.mapM f) := by
  induction xs with
  | nil => exact .pure []
  | cons x xs ih =>
    rw [List.mapM_cons]
    exact .bind (h x) fun _ => .bind ih fun _ => .pure _

theorem forM {f : α → EStateM ε σ PUnit} (h : ∀ a, Along r (f a)) (xs : List α) :
    Along r (xs.forM f) := by
  induction xs with
  | nil => exact .pure _
  | cons x xs ih => exact .bind (h x) fun _ => ih

variable {act : Run α}

theorem of_ok_trace {act : Run α} {a : Machine → α} {trace : Machine → Array Event}
    (h : ∀ s, act s = .ok (a s) { s with trace := trace s }) : Along r act := by
  intro s
  rw [Leads, h s]
  exact ⟨IsGrowth.refl _, .of_vars rfl⟩

theorem inspect (f : Heap → α) : Along r (Run.inspect f) := of_ok_trace fun _ => rfl

theorem event (e : Event) : Along r (Run.event e) := of_ok_trace fun _ => rfl

theorem note (text : String) : Along r (Run.note text) := of_ok_trace fun _ => rfl

theorem tied (knot : ObjectId) (value : Handle) : Along r (Run.tied knot value) :=
  of_ok_trace fun _ => rfl

omit [IsGrowth r] in
theorem change {f : Heap → Heap} (h : ∀ m, r m (f m)) : Along r (Run.change f) :=
  fun s => .change (h s.heap)

end Along

end

namespace Run

variable [IsGrowth r]

/-! References and new cells -/

theorem retain_along (h : Handle) : Along r (change (·.retain h)) :=
  .change fun m => IsGrowth.retainEdge m h.edge

theorem retainWeak_along (o : ObjectId) : Along r (change (·.retainWeak o)) :=
  .change fun m => IsGrowth.retainWeak m o

theorem share_along (h : Handle) : Along r (share h) := .bind (retain_along h) fun _ => .pure _

theorem newObject_along {kind : ObjectKind} (hkind : kind.Plain) : Along r (newObject kind) :=
  fun s => .add (IsGrowth.addObject s.heap _ hkind)

theorem newStatic_along {kind : ObjectKind} (hkind : kind.Plain) :
    Along r (add (·.newStatic kind)) :=
  fun s => .add (IsGrowth.addObject s.heap _ hkind)

theorem newThunk_along (state : ThunkState) : Along r (newThunk state) :=
  fun s => .add (IsGrowth.newThunk s.heap state)

theorem newValue_along (name : TypeName) (payload : Payload) :
    Along r (newValue (.named name) payload) :=
  newObject_along ⟨name, rfl⟩

theorem newApplication_along (function argument : Handle) :
    Along r (newApplication function argument) :=
  newObject_along trivial

theorem newException_along (e : EvalError) : Along r (newException e) :=
  .bind (newObject_along trivial) fun _ => .pure _

theorem upgrade_along (o : ObjectId) : Along r (upgrade o) :=
  .bind (.inspect _) fun _ => .ite (share_along _) (newException_along _)

end Run

section

variable [IsGrowth r]

/-! Nodes -/

theorem Knot.value?_along (k : Knot) : Along r k.value? := by
  cases k with
  | unresolved => exact .pure _
  | weak o => exact .bind (upgrade_along o) fun _ => .pure _
  | strong h => exact .bind (share_along h) fun _ => .pure _

theorem Knot.reduced_along (k : Knot) : Along r k.reduced :=
  .bind k.value?_along fun value? => by
    cases value? with
    | none => exact newException_along _
    | some h => exact .pure _

namespace Application

theorem snapshot_along (a : Application) : Along r a.snapshot := by
  cases a with
  | pending f x =>
    exact .bind (share_along f) fun _ => .bind (share_along x) fun _ => .pure _
  | reduced h => exact .bind (share_along h) fun _ => .pure _
  | knot k => exact .bind k.reduced_along fun _ => .pure _

theorem cached?_along (a : Application) : Along r a.cached? := by
  cases a with
  | pending f x => exact .pure _
  | reduced h => exact .bind (share_along h) fun _ => .pure _
  | knot k => exact .bind k.value?_along fun _ => .pure _

theorem knotValue?_along (a : Application) : Along r a.knotValue? := by
  cases a with
  | knot k => exact k.value?_along
  | pending f x => exact .pure _
  | reduced h => exact .pure _

theorem duplicate_along (a : Application) : Along r a.duplicate := by
  cases a with
  | pending f x =>
    exact .bind (share_along f) fun _ => .bind (share_along x) fun _ => .pure _
  | reduced h => exact .bind (share_along h) fun _ => .pure _
  | knot k =>
    cases k with
    | unresolved => exact .pure _
    | weak o => exact .bind (retainWeak_along o) fun _ => .pure _
    | strong h => exact .bind (share_along h) fun _ => .pure _

end Application

/-! Copies -/

namespace ThunkId

theorem share_along (t : ThunkId) : Along r t.share :=
  .bind (.change fun m => IsGrowth.retainEdge m (.thunk t)) fun _ => .pure _

theorem copyTarget?_along (t : ThunkId) : Along r t.copyTarget? :=
  .bind (.inspect _) fun state? => by
    match state? with
    | some (.recursive o) =>
      exact .bind (.inspect _) fun _ => .ite (.bind (Run.share_along _) fun _ => .pure _) (.pure _)
    | some (.pending h) =>
      refine .bind (.inspect _) fun a? => ?_
      cases a? with
      | some a => exact a.knotValue?_along
      | none => exact .pure _
    | some (.forced h) | none => exact .pure _

theorem forCopy_along (t : ThunkId) : Along r t.forCopy :=
  .bind t.copyTarget?_along fun target? => by
    cases target? with
    | some target => exact newThunk_along _
    | none => exact t.share_along

end ThunkId

namespace Closure

theorem copySlot_along (slot : Option ThunkId) : Along r (copySlot slot) := by
  cases slot with
  | none => exact .pure _
  | some t => exact .bind t.forCopy_along fun _ => .pure _

theorem copyMemo_along (memo : Memo) : Along r (copyMemo memo) := by
  cases memo with
  | done h => exact .bind (Run.share_along h) fun _ => .pure _
  | empty => exact .pure _
  | running => exact .pure _

theorem copy_along (c : Closure) : Along r c.copy :=
  .bind (.mapM copySlot_along _) fun _ =>
    .bind (.change fun m => IsGrowth.retainEdge m (.combinator c.combinator))
      fun _ => .bind (copyMemo_along _) fun _ => .pure _

end Closure

end

/-! What is there stays there -/

/-- Everything that is in the one heap is in the other, and the same. What was gone stays gone. -/
structure Heap.Extends (m m' : Heap) : Prop where
  kind : ∀ o kind, m.kindOf? o = some kind → m'.kindOf? o = some kind
  state : ∀ t state, m.stateOf? t = some state → m'.stateOf? t = some state
  combinator : ∀ c k, m.combinatorOf? c = some k → m'.combinatorOf? c = some k
  allocated : ∀ cell, m.Allocated cell → m'.Allocated cell
  live : ∀ cell, m.Allocated cell → m'.IsLive cell → m.IsLive cell
  static : ∀ h, m.isStatic h = true → m'.isStatic h = true

namespace Heap

theorem extends_of_contents {m m' : Heap} (hsame : m'.contents = m.contents)
    (hstatic : ∀ h, m.isStatic h = true → m'.isStatic h = true) : m.Extends m' where
  kind o _ hkind := (kindOf?_congr hsame o).trans hkind
  state t _ hstate := (stateOf?_congr hsame t).trans hstate
  combinator c _ hk := (combinatorOf?_congr hsame c).trans hk
  allocated cell := (allocated_congr hsame cell).mpr
  live cell _ := (isLive_congr hsame cell).mp
  static := hstatic

theorem extends_addObject (m : Heap) (hold : Hold) (kind : ObjectKind) :
    m.Extends (m.addObject hold kind).2 where
  kind o kind' hkind := by rwa [kindOf?, object?_addObject, if_neg (ne_nextObject hkind)]
  state _ _ h := h
  combinator _ _ h := h
  allocated cell h := by
    cases cell with
    | object o =>
      simp only [Allocated, addObject, Arena.next, Arena.add, Array.size_push] at h ⊢
      omega
    | thunk t => exact h
    | combinator c => exact h
  live cell halloc h := by
    cases cell with
    | object o =>
      have hne : o ≠ m.nextObject := fun heq => Nat.lt_irrefl _ (heq ▸ halloc)
      simpa [IsLive, hne] using h
    | thunk t => exact h
    | combinator c => exact h
  static h hstatic := by
    have hlive : m.IsLive (.object h.target) := (isStatic_iff.mp hstatic).1
    have hne : h.target ≠ m.nextObject := fun heq => Nat.lt_irrefl _ (heq ▸ hlive.allocated)
    simpa only [isStatic, object?_addObject, if_neg hne] using hstatic

theorem extends_newThunk (m : Heap) (state : ThunkState) : m.Extends (m.newThunk state).2 where
  kind _ _ h := h
  state t state' hstate := by
    have hne : t ≠ ⟨m.thunks.next⟩ := by
      rintro rfl
      obtain ⟨x, hx, -⟩ := Option.map_eq_some_iff.mp hstate
      exact (grows_newThunk m state).fresh (IsLive.allocated (by simp [IsLive, hx]))
    rwa [stateOf?_newThunk, if_neg hne]
  combinator _ _ h := h
  allocated cell h := ((grows_newThunk m state).allocated cell).mpr (.inr h)
  live cell halloc h := by
    obtain rfl | hlive := ((grows_newThunk m state).isLive cell).mp h
    · exact absurd halloc (grows_newThunk m state).fresh
    · exact hlive
  static _ h := h

instance : IsGrowth Extends where
  refl _ := extends_of_contents rfl fun _ h => h
  trans h h' :=
    { kind := fun o kind hkind => h'.kind o kind (h.kind o kind hkind)
      state := fun t state hstate => h'.state t state (h.state t state hstate)
      combinator := fun c k hk => h'.combinator c k (h.combinator c k hk)
      allocated := fun cell hcell => h'.allocated cell (h.allocated cell hcell)
      live := fun cell halloc hlive =>
        h.live cell halloc (h'.live cell (h.allocated cell halloc) hlive)
      static := fun g hg => h'.static g (h.static g hg) }
  retainEdge m cell :=
    extends_of_contents (contents_retainEdge m cell) fun h => (isStatic_retainEdge m cell h).mpr
  retainWeak m o :=
    extends_of_contents (contents_retainWeak m o) fun h => (isStatic_retainWeak m o h).mpr
  addObject m hold kind _ := extends_addObject m hold kind
  newThunk := extends_newThunk

end Heap

/-! What a copy is like -/

/-- A slot of a copy: the same thunk, or one that holds what a back edge leads to. -/
def Closure.SlotCopy (m : Heap) (slot' slot : Option ThunkId) : Prop :=
  slot' = slot ∨ ∃ t t' h, slot = some t ∧ slot' = some t' ∧ m.stateOf? t' = some (.forced h)

/-- A closure with the same combinator and, slot by slot, the same arguments. -/
structure Closure.CopyOf (m : Heap) (c' c : Closure) : Prop where
  combinator : c'.combinator = c.combinator
  missing : c'.missing = c.missing
  slots : List.Forall₂ (SlotCopy m) c'.slots.toList c.slots.toList

namespace Closure

variable {m m' : Heap} {c fresh : Closure} {s s' : Machine} {slot slot' : Option ThunkId}

theorem SlotCopy.isSome (h : SlotCopy m slot' slot) : slot'.isSome = slot.isSome := by
  obtain rfl | ⟨t, t', _, rfl, rfl, -⟩ := h
  · rfl
  · rfl

theorem SlotCopy.extends (h : SlotCopy m slot' slot) (hext : m.Extends m') :
    SlotCopy m' slot' slot := by
  obtain rfl | ⟨t, t', target, hslot, hslot', hstate⟩ := h
  · exact .inl rfl
  · exact .inr ⟨t, t', target, hslot, hslot', hext.state _ _ hstate⟩

theorem CopyOf.extends (h : fresh.CopyOf m c) (hext : m.Extends m') : fresh.CopyOf m' c :=
  ⟨h.combinator, h.missing, h.slots.imp fun _ _ hslot => hslot.extends hext⟩

theorem CopyOf.filled (h : fresh.CopyOf m c) :
    fresh.slots.toList.map Option.isSome = c.slots.toList.map Option.isSome := by
  rw [← List.forall₂_eq_eq_eq, List.forall₂_map_left_iff, List.forall₂_map_right_iff]
  exact h.slots.imp fun _ _ hslot => hslot.isSome

theorem CopyOf.proper (h : fresh.CopyOf m c) (hproper : c.Proper) : fresh.Proper :=
  hproper.of_filled h.missing h.filled

theorem CopyOf.total (h : fresh.CopyOf m c) : fresh.total = c.total := by
  simpa [Closure.total] using h.slots.length_eq

theorem copySlot_copy (h : copySlot slot s = .ok slot' s') : SlotCopy s'.heap slot' slot := by
  cases slot with
  | none =>
    cases h
    exact .inl rfl
  | some t =>
    simp only [copySlot, ThunkId.forCopy, Run.bind_run] at h
    cases htarget : t.copyTarget? s with
    | error signal s₁ => simp [htarget] at h
    | ok target? s₁ =>
      rw [htarget] at h
      cases target? with
      | none =>
        cases h
        exact .inl rfl
      | some target =>
        cases h
        refine .inr ⟨t, _, target, rfl, rfl, ?_⟩
        exact (stateOf?_newThunk s₁.heap (.forced target) _).trans (if_pos rfl)

theorem copySlots_copy {slots slots' : List (Option ThunkId)}
    (h : slots.mapM copySlot s = .ok slots' s') :
    List.Forall₂ (SlotCopy s'.heap) slots' slots := by
  induction slots generalizing s slots' with
  | nil =>
    cases h
    exact .nil
  | cons slot slots ih =>
    rw [List.mapM_cons, Run.bind_run] at h
    cases hslot : copySlot slot s with
    | error signal s₁ => simp [hslot] at h
    | ok slot' s₁ =>
      rw [hslot] at h
      dsimp only at h
      rw [Run.bind_run] at h
      cases hslots : slots.mapM copySlot s₁ with
      | error signal s₂ => simp [hslots] at h
      | ok rest' s₂ =>
        have hext : s₁.heap.Extends s₂.heap := (Along.mapM copySlot_along slots).of_ok hslots
        rw [hslots] at h
        cases h
        exact .cons ((copySlot_copy hslot).extends hext) (ih hslots)

theorem copy_extends (h : c.copy s = .ok fresh s') : s.heap.Extends s'.heap :=
  (c.copy_along (r := Extends)).of_ok h

theorem copy_slots (h : c.copy s = .ok fresh s') :
    ∃ slots s₁, c.slots.toList.mapM copySlot s = .ok slots s₁ ∧ s₁.heap.Extends s'.heap ∧
      fresh.combinator = c.combinator ∧ fresh.missing = c.missing ∧ fresh.slots = slots.toArray := by
  rw [copy, Run.bind_run] at h
  cases hslots : c.slots.toList.mapM copySlot s with
  | error signal s₁ => simp [hslots] at h
  | ok slots s₁ =>
    rw [hslots] at h
    dsimp only at h
    have hrest : Along Extends (do
        Run.change (·.retainCombinator c.combinator)
        let memo ← copyMemo c.memo
        pure { c with slots := slots.toArray, memo }) :=
      .bind (.change fun m => IsGrowth.retainEdge m (.combinator c.combinator))
        fun _ => .bind (copyMemo_along _) fun _ => .pure _
    have hext : s₁.heap.Extends s'.heap := hrest.of_ok h
    simp only [Run.bind_run, Run.change_run] at h
    split at h
    · cases h
      exact ⟨slots, s₁, rfl, hext, rfl, rfl, rfl⟩
    · cases h

theorem copy_copyOf (h : c.copy s = .ok fresh s') : fresh.CopyOf s'.heap c := by
  obtain ⟨slots, s₁, hslots, hext, hcombinator, hmissing, hfresh⟩ := copy_slots h
  refine ⟨hcombinator, hmissing, ?_⟩
  rw [hfresh]
  exact (copySlots_copy hslots).imp fun _ _ hslot => hslot.extends hext

end Closure

end GraphReduction
