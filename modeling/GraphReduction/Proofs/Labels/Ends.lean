import Mathlib
import GraphReduction.Proofs.Labels.Roles

/-! How computations end when roles are kept up. `Ends` says of the end of a computation that the
heap is valid and its cells play their roles, that roles have only come up for new cells, and what
is known of the result or of the error raised. A computation never panics and never gives up. There
is one rule for each way to put computations together and one for each single step on the heap. -/
namespace GraphReduction

open Heap

variable {X α β : Type} {L : Labelling X}

structure Labelling.Upholds (L : Labelling X) (m : Heap) (R : Roles X) (held : Multiset Holding) :
    Prop where
  valid : m.Valid held
  supports : L.Supports m R

def never (_ : EvalError) : Prop := False

/-- The end of a computation that started with the heap `m` and the roles `R`. The result holds
`post`, and others hold `rest`. -/
def Ends (L : Labelling X) (B : Set ObjectId) (m : Heap) (R : Roles X) (rest : Multiset Holding)
    (post : α → Multiset Holding) (good : Heap → Roles X → α → Prop) (bad : EvalError → Prop) :
    EStateM.Result Signal Machine α → Prop
  | .ok a s' => ∃ R', Evolves B m R s'.heap R' ∧ L.Upholds s'.heap R' (post a + rest) ∧
      good s'.heap R' a
  | .error (.raised e) s' => ∃ R', Evolves B m R s'.heap R' ∧ L.Upholds s'.heap R' rest ∧ bad e
  | .error _ _ => False

namespace Ends

variable {B : Set ObjectId} {m m₁ : Heap} {R R₁ : Roles X} {s s₁ : Machine}
  {rest rest₁ : Multiset Holding} {post : α → Multiset Holding} {post' : β → Multiset Holding}
  {good good₁ : Heap → Roles X → α → Prop} {good' : Heap → Roles X → β → Prop}
  {bad bad' : EvalError → Prop} {act : Run α} {next : α → Run β}

theorem of_ok {a : α} (hev : Evolves B m R s.heap R₁) (hup : L.Upholds s.heap R₁ (post a + rest))
    (hgood : good s.heap R₁ a) : Ends L B m R rest post good bad (.ok a s) :=
  ⟨R₁, hev, hup, hgood⟩

theorem raised {e : EvalError} (hev : Evolves B m R s.heap R₁) (hup : L.Upholds s.heap R₁ rest)
    (hbad : bad e) :
    Ends L B m R rest post good bad (.error (.raised e) s) :=
  ⟨R₁, hev, hup, hbad⟩

theorem after_new {B₁ B' : Set ObjectId} {result : EStateM.Result Signal Machine α}
    (hev : Evolves B₁ m R m₁ R₁) (hsub : B₁ ⊆ B)
    (hnew : ∀ o ∈ B', o ∉ B → ¬ m.Allocated (.object o))
    (h : Ends L B' m₁ R₁ rest post good bad result) : Ends L B m R rest post good bad result := by
  match result with
  | .ok a s' =>
    obtain ⟨R', hev', hrest⟩ := h
    exact ⟨R', hev.of_new hsub hnew hev', hrest⟩
  | .error (.raised e) s' =>
    obtain ⟨R', hev', hrest⟩ := h
    exact ⟨R', hev.of_new hsub hnew hev', hrest⟩

theorem after {result : EStateM.Result Signal Machine α} (hev : Evolves B m R m₁ R₁)
    (h : Ends L B m₁ R₁ rest post good bad result) : Ends L B m R rest post good bad result :=
  after_new hev subset_rfl (fun _ ho hnot => (hnot ho).elim) h

theorem imp {result : EStateM.Result Signal Machine α} (h : Ends L B m R rest post good bad result)
    (hgood : ∀ m' R' a, good m' R' a → good₁ m' R' a) (hbad : ∀ e, bad e → bad' e) :
    Ends L B m R rest post good₁ bad' result := by
  match result with
  | .ok a s' =>
    obtain ⟨R', hev, hup, h⟩ := h
    exact ⟨R', hev, hup, hgood _ _ _ h⟩
  | .error (.raised e) s' =>
    obtain ⟨R', hev, hup, h⟩ := h
    exact ⟨R', hev, hup, hbad e h⟩

theorem bind_new {B₁ : Set ObjectId} (h : Ends L B₁ m R rest post good bad (act s)) (hsub : B₁ ⊆ B)
    (hnext : ∀ a s' R', Evolves B₁ m R s'.heap R' → L.Upholds s'.heap R' (post a + rest) →
      good s'.heap R' a → ∃ B', (∀ o ∈ B', o ∉ B → ¬ m.Allocated (.object o)) ∧
        Ends L B' s'.heap R' rest post' good' bad (next a s')) :
    Ends L B m R rest post' good' bad ((act >>= next) s) := by
  rw [Run.bind_run]
  match hact : act s with
  | .ok a s' =>
    rw [hact] at h
    obtain ⟨R', hev, hup, h⟩ := h
    obtain ⟨B', hnew, hlast⟩ := hnext a s' R' hev hup h
    exact after_new hev hsub hnew hlast
  | .error (.raised e) s' =>
    rw [hact] at h
    obtain ⟨R', hev, hup, h⟩ := h
    exact ⟨R', hev.mono hsub, hup, h⟩
  | .error (.panicked p) s' =>
    rw [hact] at h
    exact h.elim
  | .error .exhausted s' =>
    rw [hact] at h
    exact h.elim

theorem bind (h : Ends L B m R rest post good bad (act s))
    (hnext : ∀ a s' R', Evolves B m R s'.heap R' → L.Upholds s'.heap R' (post a + rest) →
      good s'.heap R' a → Ends L B s'.heap R' rest post' good' bad (next a s')) :
    Ends L B m R rest post' good' bad ((act >>= next) s) :=
  bind_new h subset_rfl fun a s' R' hev hup hgood =>
    ⟨B, fun _ ho hnot => (hnot ho).elim, hnext a s' R' hev hup hgood⟩

theorem bind_sure (h : Ends L B m R rest₁ post good never (act s))
    (hnext : ∀ a s' R', Evolves B m R s'.heap R' → L.Upholds s'.heap R' (post a + rest₁) →
      good s'.heap R' a → Ends L B s'.heap R' rest post' good' bad (next a s')) :
    Ends L B m R rest post' good' bad ((act >>= next) s) := by
  rw [Run.bind_run]
  match hact : act s with
  | .ok a s' =>
    rw [hact] at h
    obtain ⟨R', hev, hup, h⟩ := h
    exact (hnext a s' R' hev hup h).after hev
  | .error (.raised e) s' =>
    rw [hact] at h
    obtain ⟨-, -, -, hnever⟩ := h
    exact hnever.elim
  | .error (.panicked p) s' =>
    rw [hact] at h
    exact h.elim
  | .error .exhausted s' =>
    rw [hact] at h
    exact h.elim

theorem step {a : α} (hact : act s = .ok a s₁) (hev : Evolves B m R s₁.heap R₁)
    (h : Ends L B s₁.heap R₁ rest post' good' bad (next a s₁)) :
    Ends L B m R rest post' good' bad ((act >>= next) s) := by
  rw [Run.bind_run, hact]
  exact h.after hev

theorem step_new {B₁ B' : Set ObjectId} {a : α} (hact : act s = .ok a s₁)
    (hev : Evolves B₁ m R s₁.heap R₁) (hsub : B₁ ⊆ B)
    (hnew : ∀ o ∈ B', o ∉ B → ¬ m.Allocated (.object o))
    (h : Ends L B' s₁.heap R₁ rest post' good' bad (next a s₁)) :
    Ends L B m R rest post' good' bad ((act >>= next) s) := by
  rw [Run.bind_run, hact]
  exact after_new hev hsub hnew h

theorem inspect {f : Heap → α}
    (h : Ends L B s.heap R rest post' good' bad (next (f s.heap) s)) :
    Ends L B s.heap R rest post' good' bad ((Run.inspect f >>= next) s) :=
  step rfl (.refl _ _) h

end Ends

/-! Single steps on the heap -/

namespace Roles

def withObject (R : Roles X) (o : ObjectId) (role : Role X) : Roles X :=
  { R with object := Function.update R.object o (some role) }

def withThunk (R : Roles X) (t : ThunkId) (h : Handle) : Roles X :=
  { R with thunk := Function.update R.thunk t (some h) }

variable {R : Roles X} {o p : ObjectId} {t u : ThunkId} {role : Role X} {h : Handle}

@[simp] theorem withObject_self : (R.withObject o role).object o = some role :=
  Function.update_self ..

theorem withObject_of_ne (hne : p ≠ o) : (R.withObject o role).object p = R.object p :=
  Function.update_of_ne hne ..

@[simp] theorem withThunk_self : (R.withThunk t h).thunk t = some h := Function.update_self ..

theorem withThunk_of_ne (hne : u ≠ t) : (R.withThunk t h).thunk u = R.thunk u :=
  Function.update_of_ne hne ..

end Roles

section Steps

variable {B : Set ObjectId} {m : Heap} {R : Roles X} {held own : Multiset Holding} {h : Handle}

theorem contents_retain (m : Heap) (h : Handle) : (m.retain h).contents = m.contents :=
  contents_retainEdge m h.edge

theorem Evolves.share : Evolves B m R (m.retain h) R := .of_within (within_retainEdge m h.edge)

theorem Evolves.release : Evolves B m R (m.release h) R := .of_within (within_release m h)

theorem Labelling.Upholds.share (hup : L.Upholds m R held) (hlive : m.IsLive h.edge) :
    L.Upholds (m.retain h) R (h.holding ::ₘ held) :=
  ⟨hup.valid.retainEdge hlive, hup.supports.within (within_retainEdge m h.edge)⟩

theorem Labelling.Upholds.release (hup : L.Upholds m R (h.holding ::ₘ held)) :
    L.Upholds (m.release h) R held :=
  ⟨hup.valid.release, hup.supports.within (within_release m h)⟩

theorem within_releaseThunk (m : Heap) (t : ThunkId) : (m.releaseThunk t).Within m :=
  within_releaseAll m _

theorem Labelling.Upholds.releaseThunk {t : ThunkId}
    (hup : L.Upholds m R (.strong (.thunk t) ::ₘ held)) : L.Upholds (m.releaseThunk t) R held :=
  ⟨Valid.releaseAll (by simpa [Loose.holding] using hup.valid),
    hup.supports.within (within_releaseThunk m t)⟩

theorem Labelling.Upholds.live (hup : L.Upholds m R held) (hheld : h.holding ∈ held) :
    m.IsLive h.edge :=
  hup.valid.counted.live h.edge (Multiset.mem_add.2 (.inr hheld))

theorem Labelling.Upholds.kindOf?_of_held (hup : L.Upholds m R held) (hheld : h.holding ∈ held) :
    ∃ kind, m.kindOf? h.target = some kind := by
  obtain ⟨x, hx⟩ := Option.isSome_iff_exists.mp (hup.live hheld)
  exact ⟨x.kind, by simp [kindOf?, hx]⟩

theorem Labelling.Supports.no_role_nextObject (h : L.Supports m R) :
    R.object m.nextObject = none := by
  cases hrole : R.object m.nextObject with
  | none => rfl
  | some role =>
    exact absurd (h.allocated _ role hrole) (grows_newObject m (.exception .blackHole)).fresh

theorem Labelling.Supports.no_role_nextThunk (h : L.Supports m R) :
    R.thunk ⟨m.thunks.next⟩ = none := by
  cases hrole : R.thunk ⟨m.thunks.next⟩ with
  | none => rfl
  | some p => exact absurd (h.allocatedThunk _ p hrole) (grows_newThunk m (.recursive ⟨0⟩)).fresh

theorem evolves_newObject (kind : ObjectKind) :
    Evolves B m R (m.newObject kind).2 R where
  object _ _ h := h
  thunk _ _ h := h
  noRole _ _ h := h
  noRoleThunk _ _ h := h
  kind o kind' halloc _ _ hkind := by
    have hne : o ≠ m.nextObject := fun heq => (grows_newObject m kind).fresh (heq ▸ halloc)
    rwa [kindOf?_newObject, if_neg hne] at hkind
  state t state _ _ h := h
  combinator c k h := h
  allocated cell h := ((grows_newObject m kind).allocated cell).2 (.inr h)

theorem evolves_newRole (hup : L.Supports m R) (kind : ObjectKind) (role : Role X) :
    Evolves B m R (m.newObject kind).2 (R.withObject m.nextObject role) where
  object o role' h := by
    have hne : o ≠ m.nextObject := fun heq => by rw [heq, hup.no_role_nextObject] at h; cases h
    exact (Roles.withObject_of_ne hne).trans h
  thunk _ _ h := h
  noRole o halloc h := by
    have hne : o ≠ m.nextObject := fun heq => (grows_newObject m kind).fresh (heq ▸ halloc)
    exact (Roles.withObject_of_ne hne).trans h
  noRoleThunk _ _ h := h
  kind := (evolves_newObject (R := R) kind).kind
  state t state _ _ h := h
  combinator c k h := h
  allocated := (evolves_newObject (B := ∅) (R := R) kind).allocated

theorem Heap.Ground.newObject {kind : ObjectKind} (h : m.Ground)
    (hground : ∀ v, kind = .value v → v.type.leaves = []) : (m.newObject kind).2.Ground := by
  intro o v hkind
  rw [kindOf?_newObject] at hkind
  split at hkind
  · exact hground v (Option.some.inj hkind)
  · exact h o v hkind

theorem Heap.Ground.setKind {kind : ObjectKind} {o : ObjectId} (h : m.Ground)
    (hground : ∀ v, kind = .value v → v.type.leaves = []) : (m.setKind o kind).Ground := by
  intro p v hkind
  rw [Valid.kindOf?_setKind] at hkind
  split at hkind
  · obtain ⟨_, -, heq⟩ := Option.map_eq_some_iff.1 hkind
    exact hground v heq
  · exact h p v hkind

theorem Labelling.Upholds.newObject {kind : ObjectKind} (hup : L.Upholds m R (kind.holdings + held))
    (hproper : ∀ c, kind = .closure c → c.Proper)
    (hground : ∀ v, kind = .value v → v.type.leaves = []) :
    L.Upholds (m.newObject kind).2 R ((Handle.plain m.nextObject).holding ::ₘ held) where
  valid := hup.valid.newObject hproper
  supports := by
    refine hup.supports.evolve (evolves_newObject (B := ∅) kind)
      (fun o role hrole => ⟨.inl hrole, fun kind' hkind => .inl ⟨hrole, ?_⟩⟩)
      (fun t p hp => ⟨.inl hp, fun state hstate => .inl ⟨hp, hstate⟩⟩)
      (hup.supports.ground.newObject hground)
    have hne : o ≠ m.nextObject := fun heq => by
      rw [heq, hup.supports.no_role_nextObject] at hrole
      cases hrole
    rwa [kindOf?_newObject, if_neg hne] at hkind

theorem Labelling.Upholds.newRole {kind : ObjectKind} (hup : L.Upholds m R (kind.holdings + held))
    (hproper : ∀ c, kind = .closure c → c.Proper)
    (hground : ∀ v, kind = .value v → v.type.leaves = []) {role : Role X}
    (hplays : role.Plays L m R kind) :
    L.Upholds (m.newObject kind).2 (R.withObject m.nextObject role)
      ((Handle.plain m.nextObject).holding ::ₘ held) where
  valid := hup.valid.newObject hproper
  supports := by
    have hev := evolves_newRole (B := ∅) hup.supports kind role
    refine hup.supports.evolve hev (fun o role' hrole => ?_)
      (fun t p hp => ⟨.inl hp, fun state hstate => .inl ⟨hp, hstate⟩⟩)
      (hup.supports.ground.newObject hground)
    by_cases ho : o = m.nextObject
    · subst ho
      obtain rfl : role = role' := by simpa using hrole
      have halloc := ((grows_newObject m kind).allocated _).2 (.inl rfl)
      refine ⟨.inr halloc, fun kind' hkind => .inr ?_⟩
      obtain rfl : kind = kind' := by simpa [kindOf?_newObject] using hkind
      exact hev.plays hplays
    · rw [Roles.withObject_of_ne ho] at hrole
      exact ⟨.inl hrole, fun kind' hkind => .inl ⟨hrole, by
        rwa [kindOf?_newObject, if_neg ho] at hkind⟩⟩

theorem evolves_newThunk (state : ThunkState) : Evolves B m R (m.newThunk state).2 R where
  object _ _ h := h
  thunk _ _ h := h
  noRole _ _ h := h
  noRoleThunk _ _ h := h
  kind o kind _ _ _ h := h
  state t state' halloc _ hstate := by
    have hne : t ≠ ⟨m.thunks.next⟩ := by
      rintro rfl
      exact (grows_newThunk m state).fresh halloc
    rwa [stateOf?_newThunk, if_neg hne] at hstate
  combinator c k h := h
  allocated cell h := ((grows_newThunk m state).allocated cell).2 (.inr h)

theorem Labelling.Upholds.newThunk {state : ThunkState}
    (hup : L.Upholds m R (state.holdings + held)) :
    L.Upholds (m.newThunk state).2 R (.strong (.thunk ⟨m.thunks.next⟩) ::ₘ held) where
  valid := hup.valid.newThunk
  supports := by
    refine hup.supports.evolve (evolves_newThunk (B := ∅) state)
      (fun o role hrole => ⟨.inl hrole, fun kind hkind => .inl ⟨hrole, hkind⟩⟩)
      (fun t p hp => ⟨.inl hp, fun state' hstate => .inl ⟨hp, ?_⟩⟩) hup.supports.ground
    have hne : t ≠ ⟨m.thunks.next⟩ := fun heq => by
      rw [heq, hup.supports.no_role_nextThunk] at hp
      cases hp
    rwa [stateOf?_newThunk, if_neg hne] at hstate

theorem evolves_suspend (hup : L.Supports m R) (p : Handle) :
    Evolves B m R (m.newThunk (.pending p)).2 (R.withThunk ⟨m.thunks.next⟩ p) where
  object _ _ h := h
  thunk t q h := by
    have hne : t ≠ ⟨m.thunks.next⟩ := fun heq => by rw [heq, hup.no_role_nextThunk] at h; cases h
    exact (Roles.withThunk_of_ne hne).trans h
  noRole _ _ h := h
  noRoleThunk t halloc h := by
    have hne : t ≠ ⟨m.thunks.next⟩ := by
      rintro rfl
      exact (grows_newThunk m (.pending p)).fresh halloc
    exact (Roles.withThunk_of_ne hne).trans h
  kind o kind _ _ _ h := h
  state := (evolves_newThunk (B := ∅) (R := R) (.pending p)).state
  combinator c k h := h
  allocated := (evolves_newThunk (B := ∅) (R := R) (.pending p)).allocated

theorem Labelling.Upholds.suspend {p : Handle} {role : Role X}
    (hrole : R.object p.target = some role) (hup : L.Upholds m R (p.holding ::ₘ held)) :
    L.Upholds (m.newThunk (.pending p)).2 (R.withThunk ⟨m.thunks.next⟩ p)
      (.strong (.thunk ⟨m.thunks.next⟩) ::ₘ held) where
  valid := Valid.newThunk (by
    rw [ThunkState.holdings_pending, Multiset.singleton_add]
    exact hup.valid)
  supports := by
    refine hup.supports.evolve (evolves_suspend (B := ∅) hup.supports p)
      (fun o role hrole => ⟨.inl hrole, fun kind hkind => .inl ⟨hrole, hkind⟩⟩)
      (fun t q hq => ?_) hup.supports.ground
    by_cases ht : t = ⟨m.thunks.next⟩
    · subst ht
      obtain rfl : p = q := by simpa using hq
      refine ⟨.inr ⟨((grows_newThunk m (.pending p)).allocated _).2 (.inl rfl), role, hrole⟩,
        fun state hstate => .inr (.inl ?_)⟩
      simpa [stateOf?_newThunk, eq_comm] using hstate
    · rw [Roles.withThunk_of_ne ht] at hq
      exact ⟨.inl hq, fun state hstate => .inl ⟨hq, by
        rwa [stateOf?_newThunk, if_neg ht] at hstate⟩⟩

theorem evolves_setKind {o : ObjectId} {role : Role X} (hrole : R.object o = some role)
    (kind : ObjectKind) : Evolves B m R (m.setKind o kind) R where
  object _ _ h := h
  thunk _ _ h := h
  noRole _ _ h := h
  noRoleThunk _ _ h := h
  kind p kind' _ hnone _ hkind := by
    have hne : p ≠ o := fun heq => by rw [heq, hrole] at hnone; cases hnone
    rwa [Valid.kindOf?_setKind, if_neg hne] at hkind
  state t state _ _ h := h
  combinator c k h := h
  allocated cell h := (allocated_setKind m o kind cell).2 h

theorem evolves_setThunkState {t : ThunkId} {p : Handle} (ht : R.thunk t = some p)
    (state : ThunkState) : Evolves B m R (m.setThunkState t state) R where
  object _ _ h := h
  thunk _ _ h := h
  noRole _ _ h := h
  noRoleThunk _ _ h := h
  kind p kind' _ _ _ hkind := hkind
  state u state' _ hnone hstate := by
    have hne : u ≠ t := fun heq => by rw [heq, ht] at hnone; cases hnone
    rwa [stateOf?_setThunkState, if_neg hne] at hstate
  combinator c k h := h
  allocated cell h := (allocated_setThunkState m t state cell).2 h

theorem Labelling.Supports.setKind (hup : L.Supports m R) {o : ObjectId} {role : Role X}
    (hrole : R.object o = some role) {kind : ObjectKind} (hplays : role.Plays L m R kind)
    (hground : ∀ v, kind = .value v → v.type.leaves = []) :
    L.Supports (m.setKind o kind) R := by
  have hev := evolves_setKind (B := ∅) (m := m) hrole kind
  refine hup.evolve hev (fun p role' hrole' => ⟨.inl hrole', fun kind' hkind => ?_⟩)
    (fun t p hp => ⟨.inl hp, fun state hstate => .inl ⟨hp, hstate⟩⟩) (hup.ground.setKind hground)
  rw [Valid.kindOf?_setKind] at hkind
  split at hkind
  · next heq =>
    subst heq
    obtain rfl : role = role' := by simpa [hrole] using hrole'
    obtain ⟨_, -, rfl⟩ := Option.map_eq_some_iff.1 hkind
    exact .inr (hev.plays hplays)
  · exact .inl ⟨hrole', hkind⟩

theorem Labelling.Supports.setThunkState (hup : L.Supports m R) {t : ThunkId} {p : Handle}
    (ht : R.thunk t = some p) {state : ThunkState} (hsuspends : R.Suspends L p state) :
    L.Supports (m.setThunkState t state) R := by
  refine hup.evolve (evolves_setThunkState (B := ∅) ht state)
    (fun o role hrole => ⟨.inl hrole, fun kind hkind => .inl ⟨hrole, hkind⟩⟩)
    (fun u q hq => ⟨.inl hq, fun state' hstate => ?_⟩) hup.ground
  rw [stateOf?_setThunkState] at hstate
  split at hstate
  · next heq =>
    subst heq
    obtain rfl : p = q := by simpa [ht] using hq
    obtain ⟨_, -, rfl⟩ := Option.map_eq_some_iff.1 hstate
    exact .inr hsuspends
  · exact .inl ⟨hq, hstate⟩

end Steps

namespace Ends

variable {B : Set ObjectId} {m : Heap} {R : Roles X} {s : Machine} {rest : Multiset Holding}
  {post : α → Multiset Holding} {good : Heap → Roles X → α → Prop} {bad : EvalError → Prop}
  {act : Run α}

theorem releasing {h : Handle} (hact : Ends L B m R (h.holding ::ₘ rest) post good bad (act s))
    (hgood : ∀ m' R' a, good m' R' a → good (m'.release h) R' a) :
    Ends L B m R rest post good bad (Run.releasing h act s) := by
  rw [Run.releasing_run]
  match hrun : act s with
  | .ok a s' =>
    rw [hrun] at hact
    obtain ⟨R', hev, hup, hknown⟩ := hact
    rw [Multiset.add_cons] at hup
    exact ⟨R', hev.trans .release, hup.release, hgood _ _ _ hknown⟩
  | .error (.raised e) s' =>
    rw [hrun] at hact
    obtain ⟨R', hev, hup, hknown⟩ := hact
    exact ⟨R', hev.trans .release, hup.release, hknown⟩
  | .error (.panicked p) s' =>
    rw [hrun] at hact
    exact hact.elim
  | .error .exhausted s' =>
    rw [hrun] at hact
    exact hact.elim

theorem newException {e : EvalError} (hup : L.Upholds s.heap R rest) :
    Ends L B s.heap R rest (fun r : Handle => {r.holding})
      (fun _ R' r => r.tag = .exception ∧ ∀ x n, L.error e x → R'.Result L r x n) bad
      (Run.newException e s) := by
  have hup' : L.Upholds s.heap R ((ObjectKind.exception e).holdings + rest) := by
    refine ⟨?_, hup.supports⟩
    rw [ObjectKind.holdings_exception, Multiset.singleton_add]
    exact (Valid.error e).2 hup.valid
  refine of_ok (evolves_newRole hup.supports (.exception e) (.failed e))
    (hup'.newRole (by simp) (by simp) (show (Role.failed e).Plays L s.heap R _ from rfl)) ?_
  exact ⟨rfl, fun x n hx => ⟨.failed e, Roles.withObject_self, hx, rfl, id⟩⟩

end Ends

end GraphReduction
