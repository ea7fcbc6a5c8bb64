import Mathlib
import GraphReduction.Proofs.Labels.Labelling
import GraphReduction.Proofs.Moves.Kept

/-! Roles of cells. A cell that takes part in an evaluation has a role for good, also when it is
gone, and what it holds at any time must play the role. The role of a node or a function has a rank
that bounds how deep evaluating it can go. A thunk remembers the handle that it was made from: what
is kept in it later has every label of that handle. Cells without a role are nobody's business, and
an evaluation leaves them alone. -/
namespace GraphReduction

namespace Heap

/-- The combinator, as long as it is there, is that of the primitive. -/
def Implements (m : Heap) (c : CombinatorId) (p : Primitive) : Prop :=
  ∀ k, m.combinatorOf? c = some k → k = p.declared

def Ground (m : Heap) : Prop := ∀ o v, m.kindOf? o = some (.value v) → v.type.leaves = []

/-- A heap in which cells have gone but none has changed. -/
structure Within (m' m : Heap) : Prop where
  kind : ∀ o kind, m'.kindOf? o = some kind → m.kindOf? o = some kind
  state : ∀ t state, m'.stateOf? t = some state → m.stateOf? t = some state
  combinator : ∀ c k, m'.combinatorOf? c = some k → m.combinatorOf? c = some k
  allocated : ∀ cell, m'.Allocated cell ↔ m.Allocated cell

theorem combinatorOf?_congr {m m' : Heap} (hsame : m'.contents = m.contents) (c : CombinatorId) :
    m'.combinatorOf? c = m.combinatorOf? c := combinator?_congr hsame c

theorem Within.refl (m : Heap) : m.Within m :=
  ⟨fun _ _ h => h, fun _ _ h => h, fun _ _ h => h, fun _ => Iff.rfl⟩

theorem Within.trans {m m' m'' : Heap} (h' : m''.Within m') (h : m'.Within m) : m''.Within m :=
  ⟨fun o k hk => h.kind o k (h'.kind o k hk), fun t st hst => h.state t st (h'.state t st hst),
    fun c k hk => h.combinator c k (h'.combinator c k hk),
    fun cell => (h'.allocated cell).trans (h.allocated cell)⟩

theorem Within.of_contents {m m' : Heap} (hsame : m'.contents = m.contents) : m'.Within m where
  kind o _ hk := kindOf?_congr hsame o ▸ hk
  state t _ hst := stateOf?_congr hsame t ▸ hst
  combinator c _ hk := combinatorOf?_congr hsame c ▸ hk
  allocated cell := allocated_congr hsame cell

theorem within_retainEdge (m : Heap) (cell : Edge) : (m.retainEdge cell).Within m :=
  .of_contents (contents_retainEdge m cell)

theorem within_giveBack (m : Heap) (loose : Loose) : (m.giveBack loose).1.Within m := by
  obtain ⟨-, heq⟩ | ⟨n, -, -, heq⟩ | ⟨n, hn, -, hsame, -⟩ := m.giveBack_cases loose
  · rw [heq]
    exact .refl m
  · rw [heq]
    exact .of_contents (contents_loseEdge m _)
  · have hweak : ((m.removeEdge loose.edge).releaseWeak? (m.weakTarget? loose.edge)).contents =
        (m.removeEdge loose.edge).contents := by
      cases m.weakTarget? loose.edge <;> simp [Heap.releaseWeak?]
    refine (Within.of_contents (hsame.contents.trans hweak)).trans ⟨?_, ?_, ?_, by simp⟩
    · intro o kind hk
      rw [Valid.kindOf?_removeEdge] at hk
      split at hk
      · cases hk
      · exact hk
    · intro t state hst
      cases hedge : loose.edge with
      | object o => simpa [hedge, Heap.removeEdge, stateOf?] using hst
      | combinator c => simpa [hedge, Heap.removeEdge, stateOf?] using hst
      | thunk u =>
        simp only [hedge, Heap.removeEdge, stateOf?, thunk?_removeThunk] at hst
        split at hst
        · cases hst
        · exact hst
    · intro c k hk
      cases hedge : loose.edge with
      | object o => simpa [hedge, Heap.removeEdge, combinatorOf?] using hk
      | thunk t => simpa [hedge, Heap.removeEdge, combinatorOf?] using hk
      | combinator d =>
        simp only [hedge, Heap.removeEdge, combinatorOf?, combinator?_removeCombinator] at hk
        split at hk
        · cases hk
        · exact hk

theorem within_releaseAll (m : Heap) (pending : List Loose) : (m.releaseAll pending).Within m :=
  releaseAll_invariant (P := fun m' _ => m'.Within m)
    (fun m' loose _ h => (within_giveBack m' loose).trans h) (.refl m)

theorem within_release (m : Heap) (h : Handle) : (m.release h).Within m := within_releaseAll m _

end Heap

/-- What an object does in an evaluation. -/
inductive Role (X : Type) where
  /-- The closure of a primitive without arguments, which stands for all its instances. -/
  | declaration (p : Primitive)
  | value (v : Boxed)
  | failed (e : EvalError)
  /-- A closure that misses arguments. -/
  | function (x : X) (rank : Nat)
  /-- An application. -/
  | node (x : X) (rank : Nat)

structure Roles (X : Type) where
  object : ObjectId → Option (Role X)
  /-- The handle that the thunk was made from. -/
  thunk : ThunkId → Option Handle

variable {X : Type} {L : Labelling X}

namespace Role

/-- Something with this role can have the label, and evaluating it takes no more than so many
layers. -/
def Means (L : Labelling X) : Role X → X → Nat → Prop
  | declaration p, x, _ => L.partialApp p [] x
  | value v, x, _ => L.value v x
  | failed e, x, _ => L.error e x
  | function y rank, x, n => y = x ∧ rank ≤ n
  | node y rank, x, n => y = x ∧ rank ≤ n

/-- Whether there is something left to evaluate. -/
def IsNode : Role X → Prop
  | node _ _ => True
  | _ => False

/-- Errors are seen through their tag and nodes through none. -/
def Tagged : Role X → Tag → Prop
  | failed _, tag => tag = .exception
  | node _ _, tag => tag = .plain
  | _, tag => tag ≠ .exception

theorem Means.mono {role : Role X} {x : X} {n n' : Nat} (h : role.Means L x n) (hn : n ≤ n') :
    role.Means L x n' := by
  cases role with
  | declaration p => exact h
  | value v => exact h
  | failed e => exact h
  | function y rank => exact ⟨h.1, h.2.trans hn⟩
  | node y rank => exact ⟨h.1, h.2.trans hn⟩

end Role

namespace Roles

def Stands (L : Labelling X) (R : Roles X) (h : Handle) (x : X) (n : Nat) : Prop :=
  ∃ role, R.object h.target = some role ∧ role.Means L x n ∧ role.Tagged h.tag

/-- And there is nothing left to evaluate. -/
def Result (L : Labelling X) (R : Roles X) (h : Handle) (x : X) (n : Nat) : Prop :=
  ∃ role, R.object h.target = some role ∧ role.Means L x n ∧ role.Tagged h.tag ∧ ¬ role.IsNode

/-- The thunk was made from something that can have the label, of a rank below `n`. -/
def Made (L : Labelling X) (R : Roles X) (n : Nat) (t : ThunkId) (x : X) : Prop :=
  ∃ h k, R.thunk t = some h ∧ R.Stands L h x k ∧ k < n

def Binds (L : Labelling X) (R : Roles X) (slots : List ThunkId) (args : List X) (n : Nat) : Prop :=
  List.Forall₂ (R.Made L n) slots args

variable {R R' : Roles X} {h : Handle} {x : X} {n n' : Nat}

theorem Result.stands (hresult : R.Result L h x n) : R.Stands L h x n := by
  obtain ⟨role, hrole, hmeans, htag, -⟩ := hresult
  exact ⟨role, hrole, hmeans, htag⟩

theorem Stands.mono (hhandle : R.Stands L h x n) (hn : n ≤ n') : R.Stands L h x n' := by
  obtain ⟨role, hrole, hmeans, htag⟩ := hhandle
  exact ⟨role, hrole, hmeans.mono hn, htag⟩

theorem Result.mono (hresult : R.Result L h x n) (hn : n ≤ n') : R.Result L h x n' := by
  obtain ⟨role, hrole, hmeans, htag, hdone⟩ := hresult
  exact ⟨role, hrole, hmeans.mono hn, htag, hdone⟩

theorem Binds.mono {slots : List ThunkId} {args : List X} (hbinds : R.Binds L slots args n)
    (hn : n ≤ n') : R.Binds L slots args n' :=
  hbinds.imp fun _ _ ⟨h, k, ht, hh, hk⟩ => ⟨h, k, ht, hh, hk.trans_le hn⟩

end Roles

def Role.Plays (L : Labelling X) (m : Heap) (R : Roles X) : Role X → ObjectKind → Prop
  | .declaration p, kind => ∃ c, kind = .closure (.bare c p.arity) ∧ m.Implements c p
  | .value v, kind => kind = .value v
  | .failed e, kind => kind = .exception e
  | .function x rank, kind => ∃ c p args, kind = .closure c ∧ c.memo = .empty ∧ 0 < c.missing ∧
      c.missing + args.length = p.arity ∧ 0 < args.length ∧ m.Implements c.combinator p ∧
      R.Binds L c.arguments args rank ∧ L.partialApp p args x
  | .node x rank, kind =>
    (∃ f a xf xa n, kind = .application (.pending f a) ∧ R.Stands L f xf n ∧ R.Stands L a xa n ∧
      n + 2 ≤ rank ∧ L.apply xf xa x) ∨
    ∃ r, kind = .application (.reduced r) ∧ R.Result L r x rank

def Roles.Suspends (L : Labelling X) (R : Roles X) (h : Handle) (state : ThunkState) : Prop :=
  state = .pending h ∨ ∃ r, state = .forced r ∧ ∀ x n, R.Stands L h x n → R.Result L r x n

namespace Labelling

structure Supports (L : Labelling X) (m : Heap) (R : Roles X) : Prop where
  allocated : ∀ o role, R.object o = some role → m.Allocated (.object o)
  allocatedThunk : ∀ t h, R.thunk t = some h → m.Allocated (.thunk t)
  suspended : ∀ t h, R.thunk t = some h → ∃ role, R.object h.target = some role
  object : ∀ o role kind, R.object o = some role → m.kindOf? o = some kind → role.Plays L m R kind
  thunk : ∀ t h state, R.thunk t = some h → m.stateOf? t = some state → R.Suspends L h state
  library : ∀ p : Primitive, R.object ⟨p.place⟩ = some (.declaration p)
  ground : m.Ground

end Labelling

/-- Roles only come up for new cells, and cells without a role keep what they hold, except the
objects in `B`. -/
structure Evolves (B : Set ObjectId) (m : Heap) (R : Roles X) (m' : Heap) (R' : Roles X) :
    Prop where
  object : ∀ o role, R.object o = some role → R'.object o = some role
  thunk : ∀ t h, R.thunk t = some h → R'.thunk t = some h
  noRole : ∀ o, m.Allocated (.object o) → R.object o = none → R'.object o = none
  noRoleThunk : ∀ t, m.Allocated (.thunk t) → R.thunk t = none → R'.thunk t = none
  kind : ∀ o kind, m.Allocated (.object o) → R.object o = none → o ∉ B →
    m'.kindOf? o = some kind → m.kindOf? o = some kind
  state : ∀ t state, m.Allocated (.thunk t) → R.thunk t = none → m'.stateOf? t = some state →
    m.stateOf? t = some state
  combinator : ∀ c k, m'.combinatorOf? c = some k → m.combinatorOf? c = some k
  allocated : ∀ cell, m.Allocated cell → m'.Allocated cell

namespace Evolves

variable {B : Set ObjectId} {m m' m'' : Heap} {R R' R'' : Roles X} {h : Handle} {x : X} {n : Nat}

theorem of_within (hwithin : m'.Within m) : Evolves B m R m' R where
  object _ _ h := h
  thunk _ _ h := h
  noRole _ _ h := h
  noRoleThunk _ _ h := h
  kind o kind _ _ _ h := hwithin.kind o kind h
  state t state _ _ h := hwithin.state t state h
  combinator c k h := hwithin.combinator c k h
  allocated cell h := (hwithin.allocated cell).2 h

theorem refl (m : Heap) (R : Roles X) : Evolves B m R m R := of_within (.refl m)

theorem trans (h : Evolves B m R m' R') (h' : Evolves B m' R' m'' R'') :
    Evolves B m R m'' R'' where
  object o role hrole := h'.object o role (h.object o role hrole)
  thunk t p hp := h'.thunk t p (h.thunk t p hp)
  noRole o halloc hnone := h'.noRole o (h.allocated _ halloc) (h.noRole o halloc hnone)
  noRoleThunk t halloc hnone :=
    h'.noRoleThunk t (h.allocated _ halloc) (h.noRoleThunk t halloc hnone)
  kind o kind halloc hnone hbut hkind := h.kind o kind halloc hnone hbut
    (h'.kind o kind (h.allocated _ halloc) (h.noRole o halloc hnone) hbut hkind)
  state t state halloc hnone hstate := h.state t state halloc hnone
    (h'.state t state (h.allocated _ halloc) (h.noRoleThunk t halloc hnone) hstate)
  combinator c k hk := h.combinator c k (h'.combinator c k hk)
  allocated cell hcell := h'.allocated cell (h.allocated cell hcell)

theorem mono {B' : Set ObjectId} (h : Evolves B m R m' R') (hsub : B ⊆ B') :
    Evolves B' m R m' R' :=
  { h with
    kind := fun o kind halloc hnone hbut => h.kind o kind halloc hnone fun ho => hbut (hsub ho) }

theorem of_new {B₁ B' : Set ObjectId} (h : Evolves B₁ m R m' R') (hsub : B₁ ⊆ B)
    (hnew : ∀ o ∈ B', o ∉ B → ¬ m.Allocated (.object o)) (h' : Evolves B' m' R' m'' R'') :
    Evolves B m R m'' R'' := by
  have hwhole := (h.mono Set.subset_union_left).trans (h'.mono (Set.subset_union_right (s := B₁)))
  refine { hwhole with kind := fun p kind halloc hnone hp => hwhole.kind p kind halloc hnone ?_ }
  rintro (hp₁ | hp')
  · exact hp (hsub hp₁)
  · exact hnew p hp' hp halloc

theorem stands (hev : Evolves B m R m' R') (hh : R.Stands L h x n) : R'.Stands L h x n := by
  obtain ⟨role, hrole, hrest⟩ := hh
  exact ⟨role, hev.object _ _ hrole, hrest⟩

theorem result (hev : Evolves B m R m' R') (hh : R.Result L h x n) : R'.Result L h x n := by
  obtain ⟨role, hrole, hrest⟩ := hh
  exact ⟨role, hev.object _ _ hrole, hrest⟩

theorem stands_iff (hev : Evolves B m R m' R') {role : Role X}
    (hrole : R.object h.target = some role) : R'.Stands L h x n ↔ R.Stands L h x n := by
  simp [Roles.Stands, hrole, hev.object _ _ hrole]

theorem binds (hev : Evolves B m R m' R') {slots : List ThunkId} {args : List X}
    (hbinds : R.Binds L slots args n) : R'.Binds L slots args n :=
  hbinds.imp fun _ _ ⟨h, k, ht, hh, hk⟩ => ⟨h, k, hev.thunk _ _ ht, hev.stands hh, hk⟩

theorem implements (hev : Evolves B m R m' R') {c : CombinatorId} {p : Primitive}
    (himpl : m.Implements c p) : m'.Implements c p := fun k hk => himpl k (hev.combinator c k hk)

theorem plays (hev : Evolves B m R m' R') {role : Role X} {kind : ObjectKind}
    (hplays : role.Plays L m R kind) : role.Plays L m' R' kind := by
  cases role with
  | declaration p =>
    obtain ⟨c, hkind, himpl⟩ := hplays
    exact ⟨c, hkind, hev.implements himpl⟩
  | value v => exact hplays
  | failed e => exact hplays
  | function x rank =>
    obtain ⟨c, p, args, hkind, hmemo, hmissing, htotal, hsome, himpl, hbinds, happ⟩ := hplays
    exact ⟨c, p, args, hkind, hmemo, hmissing, htotal, hsome, hev.implements himpl,
      hev.binds hbinds, happ⟩
  | node x rank =>
    obtain ⟨f, a, xf, xa, n, hkind, hf, ha, hn, happly⟩ | ⟨r, hkind, hr⟩ := hplays
    · exact .inl ⟨f, a, xf, xa, n, hkind, hev.stands hf, hev.stands ha, hn, happly⟩
    · exact .inr ⟨r, hkind, hev.result hr⟩

theorem suspends (hev : Evolves B m R m' R') {role : Role X} (hrole : R.object h.target = some role)
    {state : ThunkState} (hsuspends : R.Suspends L h state) : R'.Suspends L h state := by
  obtain hstate | ⟨r, hstate, hr⟩ := hsuspends
  · exact .inl hstate
  · exact .inr ⟨r, hstate, fun x n hh => hev.result (hr x n ((hev.stands_iff hrole).1 hh))⟩

end Evolves

namespace Labelling.Supports

variable {B : Set ObjectId} {m m' : Heap} {R R' : Roles X}

theorem evolve (h : L.Supports m R) (hev : Evolves B m R m' R')
    (hobject : ∀ o role, R'.object o = some role →
      (R.object o = some role ∨ m'.Allocated (.object o)) ∧ ∀ kind, m'.kindOf? o = some kind →
        (R.object o = some role ∧ m.kindOf? o = some kind) ∨ role.Plays L m' R' kind)
    (hthunk : ∀ t p, R'.thunk t = some p →
      (R.thunk t = some p ∨ m'.Allocated (.thunk t) ∧ ∃ role, R'.object p.target = some role) ∧
        ∀ state, m'.stateOf? t = some state →
          (R.thunk t = some p ∧ m.stateOf? t = some state) ∨ R'.Suspends L p state)
    (hground : m'.Ground) : L.Supports m' R' where
  allocated o role hrole := (hobject o role hrole).1.elim
    (fun hold => hev.allocated _ (h.allocated o role hold)) id
  allocatedThunk t p hp := (hthunk t p hp).1.elim
    (fun hold => hev.allocated _ (h.allocatedThunk t p hold)) And.left
  suspended t p hp := (hthunk t p hp).1.elim
    (fun hold => (h.suspended t p hold).imp fun _ hrole => hev.object _ _ hrole) And.right
  object o role kind hrole hkind := by
    obtain ⟨hold, hsame⟩ | hplays := (hobject o role hrole).2 kind hkind
    · exact hev.plays (h.object o role kind hold hsame)
    · exact hplays
  thunk t p state hp hstate := by
    obtain ⟨hold, hsame⟩ | hsuspends := (hthunk t p hp).2 state hstate
    · obtain ⟨role, hrole⟩ := h.suspended t p hold
      exact hev.suspends hrole (h.thunk t p state hold hsame)
    · exact hsuspends
  library p := hev.object _ _ (h.library p)
  ground := hground

theorem within (h : L.Supports m R) (hwithin : m'.Within m) : L.Supports m' R :=
  h.evolve (Evolves.of_within (B := ∅) hwithin)
    (fun o _ hrole => ⟨.inl hrole, fun kind hkind => .inl ⟨hrole, hwithin.kind o kind hkind⟩⟩)
    (fun t _ hp => ⟨.inl hp, fun state hstate => .inl ⟨hp, hwithin.state t state hstate⟩⟩)
    fun o v hkind => h.ground o v (hwithin.kind o _ hkind)

end Labelling.Supports

end GraphReduction
