import Mathlib
import GraphReduction.Proofs.Marks.Meaning

/-! Ranks that bound how deep an evaluation can go. A node ranks above its function and its argument
and a closure above its arguments, so what is left to evaluate ranks lower each time. The size of
the graph would not do, since fixpoints lead back and copies of them grow: a back edge counts for
nothing as long as the closure misses arguments, and in a copy, where it is an argument like any
other, the copy ranks above the closure that it was made of. -/
namespace GraphReduction

open Marks

namespace Primitive

/-- The rank that a closure of the primitive needs over an argument of rank `k`. A fixpoint binds
its argument once more while it is computed; where the argument has no rank it is no function, so
there is nothing to bind. -/
def needs : Primitive → Nat → Nat
  | fix, 0 => 1
  | fix, k + 1 => k + 3
  | _, k => k + 1

/-- The rank of what becomes of a closure of rank `n` with an argument of rank `k`. -/
def bound : Primitive → Nat → Nat → Nat
  | fix, _, k => fix.needs k
  | _, n, k => max n k + 1

theorem needs_of_ne {p : Primitive} (h : p ≠ fix) (k : Nat) : p.needs k = k + 1 := by
  cases p <;> first | rfl | exact (h rfl).elim

theorem bound_of_ne {p : Primitive} (h : p ≠ fix) (n k : Nat) : p.bound n k = max n k + 1 := by
  cases p <;> first | rfl | exact (h rfl).elim

theorem lt_needs (p : Primitive) (k : Nat) : k < p.needs k := by
  by_cases hfix : p = fix
  · subst hfix
    cases k <;> simp [needs]
  · simp [needs_of_ne hfix]

theorem needs_le (p : Primitive) (k : Nat) : p.needs k ≤ k + 2 := by
  by_cases hfix : p = fix
  · subst hfix
    cases k <;> simp [needs]
  · simp [needs_of_ne hfix]

theorem needs_mono (p : Primitive) {k l : Nat} (h : k ≤ l) : p.needs k ≤ p.needs l := by
  by_cases hfix : p = fix
  · subst hfix
    cases k with
    | zero => exact Nat.succ_le_of_lt ((Nat.zero_le l).trans_lt (lt_needs fix l))
    | succ k =>
      obtain ⟨l, rfl⟩ := Nat.exists_eq_succ_of_ne_zero (by omega : l ≠ 0)
      simp only [needs]
      omega
  · rw [needs_of_ne hfix, needs_of_ne hfix]
    omega

theorem needs_fix {k : Nat} (h : 0 < k) : fix.needs k = k + 2 := by
  obtain ⟨k, rfl⟩ := Nat.exists_eq_succ_of_ne_zero h.ne'
  rfl

theorem bound_le (p : Primitive) {n k l : Nat} (hn : n ≤ l) (hk : k ≤ l) : p.bound n k ≤ l + 2 := by
  by_cases hfix : p = fix
  · subst hfix
    exact (needs_le fix k).trans (by omega)
  · rw [bound_of_ne hfix]
    omega

/-- The rank of the self reference of a data fixpoint, for a function of rank `n`. -/
def knot (p : Primitive) (n : Nat) : Nat := if p = fix then 0 else n

theorem knot_le (p : Primitive) (n : Nat) : p.knot n ≤ n := by
  rw [knot]
  split <;> omega

/-- A function that gets its self reference ranks just above that. -/
theorem bound_knot (p : Primitive) (n : Nat) : p.bound n (p.knot n) = p.knot n + 1 := by
  by_cases hfix : p = fix
  · subst hfix
    rfl
  · rw [bound_of_ne hfix, knot, if_neg hfix, max_self]

theorem needs_le_bound (p : Primitive) (n k : Nat) : p.needs k ≤ p.bound n k := by
  by_cases hfix : p = fix
  · subst hfix
    exact Nat.le_refl _
  · rw [bound_of_ne hfix, needs_of_ne hfix]
    omega

end Primitive

/-- What is suspended in a thunk ranks no higher than this, or the thunk leads back to a closure. -/
inductive ThunkRank where
  | upTo (n : Nat)
  | backTo (o : ObjectId)

/-- Cells are marked with ranks, combinators with nothing. -/
abbrev Ranks := Marks Nat ThunkRank Unit

namespace Ranks

variable (R : Ranks)

/-- An argument of a closure at `o` of rank `n`. The only back edges are those to the closure itself,
and only while it misses arguments. -/
def Argument (p : Primitive) (o : ObjectId) (n missing : Nat) (t : ThunkId) : Prop :=
  match R.thunk t with
  | .upTo k => p.needs k ≤ n
  | .backTo q => q = o ∧ 0 < missing

/-- The closure at `o` is one of the primitive, and fits the rank `n`. -/
structure Closes (o : ObjectId) (n : Nat) (c : Closure) (p : Primitive) : Prop where
  combinator : c.combinator = ⟨p.place⟩
  arity : c.missing + c.arguments.length = p.arity
  pos : 0 < n
  unasked : 0 < c.missing → c.memo = .empty
  done : ∀ r, c.memo = .done r → R.object r.target < n
  arguments : ∀ t ∈ c.arguments, R.Argument p o n c.missing t

/-- The content of `o` fits the rank `n`. A knot has the rank of the value that it stands for. -/
inductive Bounds (o : ObjectId) (n : Nat) : ObjectKind → Prop
  | value {v : Boxed} : Bounds o n (.value v)
  | exception {e : EvalError} : Bounds o n (.exception e)
  | closure {c : Closure} {p : Primitive} (hcloses : R.Closes o n c p) : Bounds o n (.closure c)
  | pending {f x : Handle} (hfunction : R.object f.target + 2 ≤ n)
      (hargument : R.object x.target + 2 ≤ n) : Bounds o n (.application (.pending f x))
  | reduced {r : Handle} (hresult : R.object r.target ≤ n) :
      Bounds o n (.application (.reduced r))
  | unresolved : Bounds o n (.application (.knot .unresolved))
  | weak {q : ObjectId} (hvalue : R.object q ≤ n) : Bounds o n (.application (.knot (.weak q)))
  | strong {r : Handle} (hvalue : R.object r.target ≤ n) :
      Bounds o n (.application (.knot (.strong r)))

inductive Suspends : ThunkState → ThunkRank → Prop
  | pending {h : Handle} {n : Nat} (hrank : R.object h.target ≤ n) :
      Suspends (.pending h) (.upTo n)
  | forced {h : Handle} {n : Nat} (hrank : R.object h.target ≤ n) : Suspends (.forced h) (.upTo n)
  | recursive {o : ObjectId} : Suspends (.recursive o) (.backTo o)

variable {R} {R' : Ranks} {m m' : Heap} {o : ObjectId} {h : Handle} {t : ThunkId} {c : Closure}
  {p : Primitive} {n k : Nat} {held rest : Multiset Holding}

theorem Closes.of_agrees (hcloses : R.Closes o n c p)
    (hagrees : R.Agrees R' (ObjectKind.closure c).holdings) : R'.Closes o n c p :=
  { hcloses with
    done := fun r hr => by
      rw [hagrees.handle (by simp [ObjectKind.holdings_closure, hr, Memo.result?])]
      exact hcloses.done r hr
    arguments := fun t ht => by
      have hargument := hcloses.arguments t ht
      rwa [Argument, hagrees.thunk t (by simp [ObjectKind.holdings_closure, ht])] }

theorem Bounds.of_agrees {kind : ObjectKind} (hbounds : R.Bounds o n kind)
    (hagrees : R.Agrees R' kind.holdings) : R'.Bounds o n kind := by
  cases hbounds with
  | value => exact .value
  | exception => exact .exception
  | closure hcloses => exact .closure (hcloses.of_agrees hagrees)
  | pending hfunction hargument =>
    exact .pending (by rwa [hagrees.handle (by simp)]) (by rwa [hagrees.handle (by simp)])
  | reduced hresult => exact .reduced (by rwa [hagrees.handle (by simp)])
  | unresolved => exact .unresolved
  | weak hvalue => exact .weak (by rwa [hagrees.weak _ (by simp)])
  | strong hvalue => exact .strong (by rwa [hagrees.handle (by simp)])

theorem Suspends.of_agrees {state : ThunkState} {rank : ThunkRank}
    (hsuspends : R.Suspends state rank) (hagrees : R.Agrees R' state.holdings) :
    R'.Suspends state rank := by
  cases hsuspends with
  | pending hrank => exact .pending (by rwa [hagrees.handle (by simp)])
  | forced hrank => exact .forced (by rwa [hagrees.handle (by simp)])
  | recursive => exact .recursive

/-- Every cell is within its rank, and the primitives are what they were declared as. -/
abbrev meaning : Meaning Nat ThunkRank Unit where
  reads R _ o kind n := Bounds R o n kind
  suspends R state rank := Suspends R state rank
  codes _ c k _ := ∀ p : Primitive, c = ⟨p.place⟩ → k = p.declared
  library _ := 1
  reads_of_agrees hagrees _ hbounds := hbounds.of_agrees hagrees
  suspends_of_agrees hagrees hsuspends := hsuspends.of_agrees hagrees
  codes_of_agrees _ hcodes := hcodes

abbrev Upholds (R : Ranks) (m : Heap) (held : Multiset Holding) : Prop :=
  Marks.Upholds meaning R m held

/-- Whatever is being computed ranks above `n`. -/
def Clear (R : Ranks) (m : Heap) (n : Nat) : Prop := ∀ o, m.Running o → n < R.object o

theorem Clear.mono (h : R.Clear m n) (hk : k ≤ n) : R.Clear m k := fun o ho =>
  hk.trans_lt (h o ho)

theorem Clear.advances (h : R.Clear m n) (hev : Advances rest m R m' R') : R'.Clear m' n := by
  intro o ho
  obtain ⟨hrunning, hsame⟩ := hev.running o ho
  exact hsame ▸ h o hrunning

theorem Clear.share (hclear : R.Clear m n) : R.Clear (m.retain h) n :=
  have hev : Advances 0 m R (m.retain h) R := .share
  hclear.advances hev

theorem Closes.setMemo {memo : Memo} (h : R.Closes o n c p) (hmissing : c.missing = 0)
    (hdone : ∀ r, memo = .done r → R.object r.target < n) : R.Closes o n { c with memo } p :=
  { h with
    unasked := fun hopen => absurd hmissing hopen.ne'
    done := hdone }

end Ranks

namespace Marks.Upholds

variable {R : Ranks} {m : Heap} {o : ObjectId} {t : ThunkId} {c : Closure} {k : Nat}
  {held : Multiset Holding}

theorem exists_closes (hup : R.Upholds m held) (hkind : m.kindOf? o = some (.closure c)) :
    ∃ p, R.Closes o (R.object o) c p := by
  cases hup.fits.object o _ hkind with
  | closure hcloses => exact ⟨_, hcloses⟩

theorem ne_backTo (hup : R.Upholds m held) (hlive : m.IsLive (.thunk t)) (hforward : m.Forward t)
    (q : ObjectId) : R.thunk t ≠ .backTo q := by
  intro hrank
  obtain ⟨state, hstate, hsuspends⟩ := hup.stateOf?_of_live hlive
  rw [hrank] at hsuspends
  cases hsuspends
  exact hforward q hstate

theorem forward_of_upTo (hup : R.Upholds m held) (hrank : R.thunk t = .upTo k) : m.Forward t := by
  intro q hq
  have hsuspends : R.Suspends (.recursive q) (R.thunk t) := hup.fits.thunk t _ hq
  rw [hrank] at hsuspends
  cases hsuspends

end Marks.Upholds

end GraphReduction
