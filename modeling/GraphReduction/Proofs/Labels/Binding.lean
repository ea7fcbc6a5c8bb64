import Mathlib
import GraphReduction.Machine.Closure
import GraphReduction.Proofs.Labels.Ends
import GraphReduction.Proofs.Moves.Binding

/-! Binding arguments when roles are kept up. A function that is seen from elsewhere is copied, so
what is made is new: a function of its own, or a closure with all its arguments, which has no role
and is only looked at by whoever asked for it. The self reference of a data fixpoint has no role
either, since nothing is known of it before the value is there. -/
namespace GraphReduction

open Heap

variable {X : Type} {L : Labelling X} {B : Set ObjectId} {m m' : Heap} {R R' : Roles X}
  {rest : Multiset Holding} {s : Machine}

namespace Roles

/-- The self reference of a data fixpoint whose value is not there. -/
structure Hole (L : Labelling X) (m : Heap) (R : Roles X) (h : Handle) (x : X) : Prop where
  tag : h.tag = .plain
  noRole : R.object h.target = none
  allocated : m.Allocated h.edge
  kind : ∀ kind, m.kindOf? h.target = some kind → kind = .application (.knot .unresolved)
  error : L.error .blackHole x

/-- What an evaluation can ask for. -/
def Demandable (L : Labelling X) (m : Heap) (R : Roles X) (h : Handle) (x : X) (n : Nat) : Prop :=
  R.Stands L h x n ∨ R.Hole L m h x

inductive Slot (L : Labelling X) (m : Heap) (R : Roles X) (n : Nat) (t : ThunkId) (x : X) :
    Prop where
  | made (hmade : R.Made L n t x)
  | knot {h : Handle} (hnone : R.thunk t = none) (halloc : m.Allocated (.thunk t))
      (hhole : R.Hole L m h x) (hstate : ∀ state, m.stateOf? t = some state → state = .pending h)

/-- A closure of a primitive that misses arguments. -/
structure Partial (L : Labelling X) (m : Heap) (R : Roles X) (c : Closure) (p : Primitive)
    (args : List X) (x : X) (n : Nat) : Prop where
  memo : c.memo = .empty
  missing : 0 < c.missing
  arity : c.missing + args.length = p.arity
  implements : m.Implements c.combinator p
  binds : R.Binds L c.arguments args n
  applied : L.partialApp p args x

/-- All arguments that were not made from anything have one label, since there is one self reference
at most. -/
def OneHole (L : Labelling X) (R : Roles X) (slots : List ThunkId) (args : List X) (n : Nat) :
    Prop :=
  ∃ y, List.Forall₂ (fun t x => R.Made L n t x ∨ x = y) slots args

/-- A closure of a primitive that has all its arguments and no role, and that nobody has asked for
its result. -/
structure Call (L : Labelling X) (m : Heap) (R : Roles X) (o : ObjectId) (c : Closure) (x : X)
    (n : Nat) : Prop where
  noRole : R.object o = none
  kind : m.kindOf? o = some (.closure c)
  memo : c.memo = .empty
  missing : c.missing = 0
  arguments : ∃ p args, m.Implements c.combinator p ∧ args.length = p.arity ∧
    List.Forall₂ (R.Slot L m n) c.arguments args ∧ L.partialApp p args x ∧
      R.OneHole L c.arguments args n

/-- What binding an argument makes of a function that misses so many: a function that waits for
more, or a closure that was not there before and has all its arguments. -/
inductive Bound (L : Labelling X) (missing : Nat) (m m' : Heap) (R : Roles X) (r : Handle) (x : X)
    (n : Nat) : Prop where
  | function {c : Closure} (hmore : 1 < missing) (hclosure : m'.closure? r = some c)
      (hopen : c.isSaturated = false) (hresult : R.Result L r x n)
  | call {c : Closure} (hlast : missing = 1) (hclosure : m'.closure? r = some c)
      (hnew : ¬ m.Allocated r.edge) (htag : r.tag = .plain) (hcall : R.Call L m' r.target c x n)

/-- What is behind a result, in weak-head normal form. -/
inductive Normal (L : Labelling X) (m : Heap) (R : Roles X) (h : Handle) (x : X) (n : Nat) :
    ObjectKind → Prop where
  | value {v : Boxed} (htag : h.tag ≠ .exception) (hx : L.value v x) : Normal L m R h x n (.value v)
  | failed {e : EvalError} (htag : h.tag = .exception) (hx : L.error e x) :
      Normal L m R h x n (.exception e)
  | function {c : Closure} {p : Primitive} {args : List X} (htag : h.tag ≠ .exception)
      (hpartial : R.Partial L m c p args x n) : Normal L m R h x n (.closure c)

theorem Partial.isSaturated_eq_false {c : Closure} {p : Primitive} {args : List X} {x : X} {n : Nat}
    (hpartial : R.Partial L m c p args x n) : c.isSaturated = false := by
  have := hpartial.missing
  simp only [Closure.isSaturated, beq_eq_false_iff_ne]
  omega

theorem Call.isSaturated_eq_true {o : ObjectId} {c : Closure} {x : X} {n : Nat}
    (hcall : R.Call L m o c x n) : c.isSaturated = true := by
  simp [Closure.isSaturated, hcall.missing]

theorem Hole.ne_of_closure {h : Handle} {x : X} {o : ObjectId} {c : Closure}
    (hhole : R.Hole L m h x) (hkind : m.kindOf? o = some (.closure c)) : h.target ≠ o := by
  rintro rfl
  cases hhole.kind _ hkind

theorem Demandable.stands {h : Handle} {x : X} {n : Nat} {role : Role X}
    (hdemand : R.Demandable L m h x n) (hrole : R.object h.target = some role) :
    R.Stands L h x n := by
  obtain hstands | hhole := hdemand
  · exact hstands
  · cases hhole.noRole.symm.trans hrole

theorem Partial.mono {c : Closure} {p : Primitive} {args : List X} {x : X} {n n' : Nat}
    (hpartial : R.Partial L m c p args x n) (hn : n ≤ n') : R.Partial L m c p args x n' :=
  { hpartial with binds := hpartial.binds.mono hn }

theorem Bound.earlier {missing : Nat} {m₀ : Heap} {r : Handle} {x : X} {n : Nat}
    (hbound : R.Bound L missing m m' r x n) (hsub : ∀ cell, m₀.Allocated cell → m.Allocated cell) :
    R.Bound L missing m₀ m' r x n := by
  cases hbound with
  | function hmore hclosure hopen hresult => exact .function hmore hclosure hopen hresult
  | call hlast hclosure hnew htag hcall =>
    exact .call hlast hclosure (fun h => hnew (hsub _ h)) htag hcall

end Roles

namespace Evolves

variable {h : Handle} {x : X} {n : Nat} {t : ThunkId}

theorem hole (hev : Evolves B m R m' R') (hhole : R.Hole L m h x) (hB : h.target ∉ B) :
    R'.Hole L m' h x where
  tag := hhole.tag
  noRole := hev.noRole _ hhole.allocated hhole.noRole
  allocated := hev.allocated _ hhole.allocated
  kind kind hkind := hhole.kind kind (hev.kind _ kind hhole.allocated hhole.noRole hB hkind)
  error := hhole.error

theorem made (hev : Evolves B m R m' R') (hmade : R.Made L n t x) : R'.Made L n t x := by
  obtain ⟨h, k, ht, hh, hk⟩ := hmade
  exact ⟨h, k, hev.thunk _ _ ht, hev.stands hh, hk⟩

theorem slot (hev : Evolves B m R m' R') (hB : ∀ h, R.Hole L m h x → h.target ∉ B)
    (hslot : R.Slot L m n t x) : R'.Slot L m' n t x := by
  cases hslot with
  | made hmade => exact .made (hev.made hmade)
  | knot hnone halloc hhole hstate =>
    exact .knot (hev.noRoleThunk _ halloc hnone) (hev.allocated _ halloc)
      (hev.hole hhole (hB _ hhole))
      fun state hst => hstate state (hev.state _ state halloc hnone hst)

theorem partially {c : Closure} {p : Primitive} {args : List X} (hev : Evolves B m R m' R')
    (hpartial : R.Partial L m c p args x n) : R'.Partial L m' c p args x n :=
  { hpartial with
    implements := hev.implements hpartial.implements
    binds := hev.binds hpartial.binds }

end Evolves

namespace Labelling.Supports

variable {h : Handle} {x : X} {n : Nat}

theorem normal (hup : L.Supports m R) (hresult : R.Result L h x n) {kind : ObjectKind}
    (hkind : m.kindOf? h.target = some kind) : R.Normal L m h x n kind := by
  obtain ⟨role, hrole, hmeans, htag, hdone⟩ := hresult
  have hplays := hup.object _ _ _ hrole hkind
  cases role with
  | declaration p =>
    obtain ⟨c, rfl, himpl⟩ := hplays
    have hpartial : R.Partial L m (.bare c p.arity) p [] x n :=
      ⟨rfl, p.arity_pos, rfl, himpl, by rw [Closure.arguments_bare]; exact .nil, hmeans⟩
    exact .function htag hpartial
  | value v =>
    cases hplays
    exact .value htag hmeans
  | failed e =>
    cases hplays
    exact .failed htag hmeans
  | function y rank =>
    obtain ⟨rfl, hrank⟩ := hmeans
    obtain ⟨c, p, args, rfl, hmemo, hmissing, harity, -, himpl, hbinds, happ⟩ := hplays
    exact .function htag ⟨hmemo, hmissing, harity, himpl, hbinds.mono hrank, happ⟩
  | node y rank => exact (hdone trivial).elim

theorem error (hup : L.Supports m R) (hresult : R.Result L h x n) {e : EvalError}
    (he : m.error? h = some e) : L.error e x := by
  rw [error?] at he
  split at he
  · next htag =>
    obtain ⟨kind, hkind, herror⟩ := Option.bind_eq_some_iff.1 he
    cases hup.normal hresult hkind with
    | value htag' | function htag' => exact absurd htag htag'
    | failed _ hx =>
      cases herror
      exact hx
  · cases he

theorem not_knot (hup : L.Supports m R) {o : ObjectId} {role : Role X}
    (hrole : R.object o = some role) (k : Knot) :
    m.kindOf? o ≠ some (.application (.knot k)) := by
  intro hkind
  have hplays := hup.object _ _ _ hrole hkind
  cases role <;> simp [Role.Plays] at hplays

theorem copyTarget?_none (hup : L.Supports s.heap R) {t : ThunkId} (ht : R.thunk t = some h) :
    t.copyTarget? s = .ok none s := by
  simp only [ThunkId.copyTarget?, Run.bind_run, ThunkId.state?_run]
  cases hstate : s.heap.stateOf? t with
  | none => rfl
  | some state =>
    obtain rfl | ⟨r, rfl, -⟩ := hup.thunk _ _ _ ht hstate
    · simp only [Run.bind_run, Run.inspect_run]
      cases happ : s.heap.application? h with
      | none => rfl
      | some a =>
        obtain ⟨role, hrole⟩ := hup.suspended _ _ ht
        cases a with
        | pending f y => rfl
        | reduced r => rfl
        | knot k => exact (hup.not_knot hrole k (kindOf?_of_application? happ)).elim
    · rfl

end Labelling.Supports

namespace Closure

theorem copySlots_run (hup : L.Supports s.heap R) (slots : List (Option ThunkId))
    (hslots : ∀ t, some t ∈ slots → ∃ h, R.thunk t = some h) :
    ∃ s', slots.mapM copySlot s = .ok slots s' ∧ s'.heap.contents = s.heap.contents := by
  induction slots generalizing s with
  | nil => exact ⟨s, rfl, rfl⟩
  | cons slot slots ih =>
    rw [List.mapM_cons]
    have hrest : ∀ t, some t ∈ slots → ∃ h, R.thunk t = some h :=
      fun t ht => hslots t (List.mem_cons_of_mem _ ht)
    cases slot with
    | none =>
      obtain ⟨s', hrun, hsame⟩ := ih hup hrest
      exact ⟨s', by simp only [Run.bind_run, copySlot, Run.pure_run, hrun], hsame⟩
    | some t =>
      obtain ⟨h, ht⟩ := hslots t List.mem_cons_self
      have hshared : (s.heap.retainThunk t).contents = s.heap.contents :=
        contents_retainEdge s.heap (.thunk t)
      obtain ⟨s', hrun, hsame⟩ := ih (s := { s with heap := s.heap.retainThunk t })
        (hup.within (.of_contents hshared)) hrest
      refine ⟨s', ?_, hsame.trans hshared⟩
      simp only [copySlot, ThunkId.forCopy, Run.bind_run, hup.copyTarget?_none ht, ThunkId.share,
        Run.change_run, Run.pure_run, hrun]

theorem copy_run (hup : L.Supports s.heap R) {c : Closure} (hmemo : c.memo = .empty)
    (hslots : ∀ t ∈ c.arguments, ∃ h, R.thunk t = some h) :
    ∃ s', c.copy s = .ok c s' ∧ s'.heap.contents = s.heap.contents := by
  obtain ⟨s', hrun, hsame⟩ := copySlots_run hup c.slots.toList fun t ht =>
    hslots t (by simpa [arguments] using ht)
  refine ⟨{ s' with heap := s'.heap.retainCombinator c.combinator }, ?_, ?_⟩
  · obtain ⟨k, missing, slots, memo⟩ := c
    cases hmemo
    simp only [copy, Run.bind_run, hrun, Run.change_run, copyMemo, Run.pure_run,
      Array.toArray_toList]
  · exact (contents_retainEdge s'.heap (.combinator c.combinator)).trans hsame

end Closure

namespace Run

variable {function : Handle} {t : ThunkId} {c : Closure} {p : Primitive} {args : List X} {f a x : X}
  {n : Nat} {bad : EvalError → Prop}

theorem bindThunk_run
    (hup : L.Upholds s.heap R (function.holding ::ₘ .strong (.thunk t) ::ₘ rest))
    (hshared : function.holding ∈ s.heap.held + rest)
    (hkind : s.heap.kindOf? function.target = some (.closure c))
    (hpartial : R.Partial L s.heap c p args f n) :
    ∃ s₁ : Machine, s₁.heap.contents = s.heap.contents ∧
      s₁.heap.Valid ((ObjectKind.closure (c.fill t)).holdings + (function.holding ::ₘ rest)) ∧
      bindThunk function t s = .ok (.plain s₁.heap.nextObject)
        { s₁ with
          heap := (s₁.heap.newObject (.closure (c.fill t))).2.release function.untagged } := by
  have hproper := hup.valid.proper _ _ hkind
  obtain ⟨s₁, hcopy, hsame⟩ := Closure.copy_run hup.supports hpartial.memo fun u hu => by
    obtain ⟨i, hi, rfl⟩ := List.getElem_of_mem hu
    obtain ⟨h, k, hmade, -⟩ := (List.forall₂_iff_get.mp hpartial.binds).2 i hi
      (hpartial.binds.length_eq ▸ hi)
    exact ⟨h, hmade⟩
  refine ⟨s₁, hsame, ?_, ?_⟩
  · have hvalid : s.heap.Valid (function.holding ::ₘ {.strong (.thunk t)} + rest) := by
      simpa using hup.valid
    have hgives : Gives rest ∅ s (function.holding ::ₘ {.strong (.thunk t)}) c.copy _ :=
      copy_frame hkind
    obtain ⟨c', s₂, hrun, hmoves⟩ := hgives hvalid
    cases hcopy.symm.trans hrun
    convert hmoves.valid rest hvalid using 1
    rw [Closure.holdings_fill hproper hpartial.missing]
    simp only [← Multiset.singleton_add]
    abel
  · have hclosure : s.heap.closure? function.untagged = some c := closure?_of_kindOf? rfl hkind
    have hopen : c.isSaturated = false := by
      have := hpartial.missing
      simp only [Closure.isSaturated, beq_eq_false_iff_ne]
      omega
    have hunique : ((s.heap.object? function.target).map Object.isUnique).getD false = false := by
      by_contra htrue
      refine (hup.valid.counted.not_held_of_unique
        (isUnique_of_object? (eq_true_of_ne_false htrue))).1 ?_
      simp only [Multiset.mem_add, Multiset.mem_cons] at hshared ⊢
      tauto
    simp only [bindThunk, Run.bind_run, inspect_run, hclosure, hopen, Handle.target_untagged,
      hunique, Bool.and_false, Bool.false_eq_true, if_false, hcopy, newObject, add_run,
      newObject_fst, release_run, pure_run]

theorem bindThunk_ends
    (hup : L.Upholds s.heap R (function.holding ::ₘ .strong (.thunk t) ::ₘ rest))
    (hshared : function.holding ∈ s.heap.held + rest)
    (hkind : s.heap.kindOf? function.target = some (.closure c))
    (hpartial : R.Partial L s.heap c p args f n) (hslot : R.Slot L s.heap n t a)
    (hmade : 1 < c.missing → R.Made L n t a) (hx : L.partialApp p (args ++ [a]) x) :
    Ends L ∅ s.heap R rest (fun r : Handle => {r.holding})
      (fun m R' r => R'.Bound L c.missing s.heap m r x n) bad (bindThunk function t s) := by
  have hproper := hup.valid.proper _ _ hkind
  obtain ⟨s₁, hsame, hvalid, hrun⟩ := bindThunk_run hup hshared hkind hpartial
  rw [hrun]
  have hbegin : Evolves ∅ s.heap R s₁.heap R := .of_within (.of_contents hsame)
  have hup₁ : L.Upholds s₁.heap R
      ((ObjectKind.closure (c.fill t)).holdings + (function.holding ::ₘ rest)) :=
    ⟨hvalid, hup.supports.within (.of_contents hsame)⟩
  have hfill : ∀ d, ObjectKind.closure (c.fill t) = .closure d → d.Proper := by
    rintro d ⟨⟩
    exact hproper.fill hpartial.missing t
  have hnew : ¬ s.heap.Allocated (.object s₁.heap.nextObject) := by
    rw [← allocated_congr hsame]
    exact (grows_newObject s₁.heap (.closure (c.fill t))).fresh
  have hafter : ∀ {R₁ : Roles X}, L.Upholds (s₁.heap.newObject (.closure (c.fill t))).2 R₁
      ((Handle.plain s₁.heap.nextObject).holding ::ₘ (function.holding ::ₘ rest)) →
      L.Upholds ((s₁.heap.newObject (.closure (c.fill t))).2.release function.untagged) R₁
        ({(Handle.plain s₁.heap.nextObject).holding} + rest) ∧
      ((s₁.heap.newObject (.closure (c.fill t))).2.release function.untagged).kindOf?
        s₁.heap.nextObject = some (.closure (c.fill t)) := by
    intro R₁ hmade
    rw [Multiset.cons_swap] at hmade
    refine ⟨?_, ?_⟩
    · rw [Multiset.singleton_add]
      exact Labelling.Upholds.release (h := function.untagged) hmade
    · have hheld : .strong (.object s₁.heap.nextObject) ∈
          (Handle.plain s₁.heap.nextObject).holding ::ₘ rest := Multiset.mem_cons_self _ _
      rw [kindOf?_release (h := function.untagged) hmade.valid hheld, kindOf?_newObject,
        if_pos rfl]
  by_cases hlast : c.missing = 1
  · have hev : Evolves ∅ s.heap R
        ((s₁.heap.newObject (.closure (c.fill t))).2.release function.untagged) R :=
      (hbegin.trans (evolves_newObject _)).trans .release
    obtain ⟨hup', hkind'⟩ := hafter (hup₁.newObject hfill (by simp))
    refine .of_ok hev hup' (.call hlast (closure?_of_kindOf? rfl hkind') hnew rfl ?_)
    refine ⟨hup₁.supports.no_role_nextObject, hkind', hpartial.memo, by simp [Closure.fill, hlast],
      p, args ++ [a], hev.implements hpartial.implements, ?_, ?_, hx, a, ?_⟩
    · have := hpartial.arity
      simp only [List.length_append, List.length_singleton]
      omega
    · rw [Closure.arguments_fill hproper hpartial.missing]
      refine List.rel_append (hpartial.binds.imp fun u y hu => .made (hev.made hu))
        (.cons (hev.slot (fun _ _ => Set.notMem_empty _) hslot) .nil)
    · rw [Closure.arguments_fill hproper hpartial.missing]
      exact List.rel_append (hpartial.binds.imp fun u y hu => .inl (hev.made hu))
        (.cons (.inr rfl) .nil)
  · have hmissing := hpartial.missing
    have hbinds : R.Binds L (c.fill t).arguments (args ++ [a]) n := by
      rw [Closure.arguments_fill hproper hpartial.missing]
      exact List.rel_append hpartial.binds (.cons (hmade (by omega)) .nil)
    have hplays : (Role.function x n).Plays L s₁.heap R (.closure (c.fill t)) := by
      refine ⟨c.fill t, p, args ++ [a], rfl, hpartial.memo, ?_, ?_, by simp,
        hbegin.implements hpartial.implements, hbinds, hx⟩
      · simp only [Closure.fill]
        omega
      · have := hpartial.arity
        simp only [Closure.fill, List.length_append, List.length_singleton]
        omega
    obtain ⟨hup', hkind'⟩ := hafter (hup₁.newRole hfill (by simp) hplays)
    refine .of_ok ((hbegin.trans (evolves_newRole hup₁.supports _ _)).trans .release) hup'
      (.function (by omega) (closure?_of_kindOf? rfl hkind') ?_ ?_)
    · simp only [Closure.isSaturated, Closure.fill, beq_eq_false_iff_ne]
      omega
    · exact ⟨.function x n, Roles.withObject_self, ⟨rfl, le_rfl⟩,
        by simp [Role.Tagged, Handle.plain], id⟩

theorem refuseApply_ends {v : Boxed} {post : Handle → Multiset Holding}
    {good : Heap → Roles X → Handle → Prop}
    (hup : L.Upholds s.heap R (function.holding ::ₘ .strong (.thunk t) ::ₘ rest))
    (hkind : s.heap.kindOf? function.target = some (.value v))
    (hbad : bad (.badApply v.type.text)) :
    Ends L ∅ s.heap R rest post good bad (bindThunk function t s) := by
  have hkind' : s.heap.kind? function.untagged = some (.value v) := hkind
  have hclosure : s.heap.closure? function.untagged = none := by
    rw [closure?, plainKind?, hkind']
    rfl
  have hrun : bindThunk function t s = .error (.raised (.badApply v.type.text))
      { s with heap := (s.heap.releaseThunk t).release function.untagged } := by
    simp [bindThunk, Run.bind_run, hclosure, describe, hkind', describeKind]
  rw [Multiset.cons_swap] at hup
  rw [hrun]
  exact .raised (.trans (.of_within (within_releaseThunk s.heap t)) .release)
    (Labelling.Upholds.release (h := function.untagged) hup.releaseThunk) hbad

theorem applyArgument_ends (hlawful : L.Lawful) {argument : Handle}
    (hup : L.Upholds s.heap R (function.holding ::ₘ argument.holding ::ₘ rest))
    (hshared : function.holding ∈ s.heap.held + rest) (hfunction : R.Result L function f n)
    (htag : function.tag ≠ .exception) (hargument : R.Stands L argument a n)
    (happly : L.apply f a x) :
    Ends L ∅ s.heap R rest (fun r : Handle => {r.holding})
      (fun m R' r => ∃ missing, R'.Bound L missing s.heap m r x (n + 1)) (fun e => L.error e x)
      (applyArgument function argument s) := by
  obtain ⟨role, hrole, -⟩ := id hargument
  have hev : Evolves ∅ s.heap R _ _ := evolves_suspend hup.supports argument
  rw [Multiset.cons_swap] at hup
  have hup₁ := hup.suspend hrole
  rw [Multiset.cons_swap] at hup₁
  refine .step rfl hev ?_
  obtain ⟨kind, hkind⟩ := hup₁.kindOf?_of_held (h := function) (by simp)
  have hshared₁ : function.holding ∈ (s.heap.newThunk (.pending argument)).2.held + rest := by
    rw [(grows_newThunk _ _).held]
    simp only [Multiset.mem_add] at hshared ⊢
    tauto
  cases hup₁.supports.normal (hev.result hfunction) hkind with
  | value _ hv => exact refuseApply_ends hup₁ hkind (hlawful.applyValue _ _ _ _ hv happly)
  | failed herror => exact (htag herror).elim
  | function _ hpartial =>
    have hmade : Roles.Made L _ (n + 1) ⟨s.heap.thunks.next⟩ a :=
      ⟨argument, n, Roles.withThunk_self, hev.stands hargument, n.lt_succ_self⟩
    refine Ends.imp (bindThunk_ends hup₁ hshared₁ hkind (hpartial.mono n.le_succ) (.made hmade)
      (fun _ => hmade) ?_) (fun m' R' r hbound => ⟨_, hbound.earlier hev.allocated⟩) fun e he => he
    have hmissing := hpartial.missing
    have harity := hpartial.arity
    exact hlawful.bind _ _ _ _ _ hpartial.applied (by omega) happly

theorem applyKnot_ends {knot : Handle}
    (hup : L.Upholds s.heap R (function.holding ::ₘ knot.holding ::ₘ rest))
    (hshared : function.holding ∈ s.heap.held + rest)
    (hkind : s.heap.kindOf? function.target = some (.closure c))
    (hpartial : R.Partial L s.heap c p args f n) (hlast : c.missing = 1)
    (hhole : R.Hole L s.heap knot a) (hx : L.partialApp p (args ++ [a]) x) :
    Ends L ∅ s.heap R rest (fun r : Handle => {r.holding})
      (fun m R' r => R'.Bound L c.missing s.heap m r x n) bad (applyArgument function knot s) := by
  have hev : Evolves ∅ s.heap R _ R := evolves_newThunk (.pending knot)
  rw [Multiset.cons_swap, ← Multiset.singleton_add, ← ThunkState.holdings_pending] at hup
  have hup₁ := hup.newThunk
  rw [Multiset.cons_swap] at hup₁
  refine .step rfl hev ?_
  have hshared₁ : function.holding ∈ (s.heap.newThunk (.pending knot)).2.held + rest := by
    rw [(grows_newThunk _ _).held]
    simp only [Multiset.mem_add] at hshared ⊢
    tauto
  have hslot : R.Slot L (s.heap.newThunk (.pending knot)).2 n ⟨s.heap.thunks.next⟩ a :=
    .knot hup.supports.no_role_nextThunk (((grows_newThunk s.heap _).allocated _).2 (.inl rfl))
      (hev.hole hhole (Set.notMem_empty _)) fun state hstate => by
        rw [stateOf?_newThunk, if_pos rfl] at hstate
        exact (Option.some.inj hstate).symm
  exact Ends.imp (bindThunk_ends hup₁ hshared₁ hkind (hev.partially hpartial) hslot (by omega) hx)
    (fun m' R' r hbound => hbound.earlier hev.allocated) fun e he => he

end Run

end GraphReduction
