import Mathlib
import GraphReduction.Proofs.Marks.Binding
import GraphReduction.Proofs.Ranks.Delivers

/-! Binding arguments, and how what comes of it ranks. A closure that gets an argument ranks above
it and above what the closure was; nobody else can tell, even where it is bound in place. In a copy
a back edge becomes an argument that ranks as the closure that it leads to, which the copy ranks
above; and a copy that is its own next argument leads back to itself. -/
namespace GraphReduction

open Heap Marks Ranks

variable {bad : Signal → Prop} {m : Heap} {R : Ranks} {rest held : Multiset Holding} {s : Machine}
  {o : ObjectId} {h : Handle} {t : ThunkId} {c : Closure} {p : Primitive} {n k : Nat}

namespace Ranks

/-- What is suspended in the thunk ranks no higher than `n`, and the thunk is no back edge. -/
def UpTo (R : Ranks) (n : Nat) (t : ThunkId) : Prop := ∃ k, R.thunk t = .upTo k ∧ k ≤ n

/-- What a slot of the closure at `o` has in it ranks no higher than `n`, be it the closure. -/
def Slot (R : Ranks) (o : ObjectId) (n : Nat) (t : ThunkId) : Prop :=
  match R.thunk t with
  | .upTo k => k ≤ n
  | .backTo q => q = o ∧ R.object o ≤ n

/-- A closure to bind into: it has no arguments above `n`, and no back edges. -/
structure Ready (R : Ranks) (p : Primitive) (n : Nat) (c : Closure) : Prop where
  combinator : c.combinator = ⟨p.place⟩
  arity : c.missing + c.arguments.length = p.arity
  memo : c.memo = .empty
  arguments : ∀ t ∈ c.arguments, R.UpTo n t

/-- The result is a closure of rank `n` that misses one argument less. -/
def OneMore (c : Closure) (n : Nat) (m : Heap) (R : Ranks) (r : Handle) : Prop :=
  R.object r.target = n ∧ ∃ c', m.closure? r = some c' ∧ c'.missing + 1 = c.missing

theorem Argument.slot {i : Nat} (h : R.Argument p o (R.object o) i t) : R.Slot o (R.object o) t := by
  rw [Argument] at h
  rw [Slot]
  cases hrank : R.thunk t with
  | upTo k =>
    rw [hrank] at h
    exact (p.lt_needs k).le.trans h
  | backTo q =>
    rw [hrank] at h
    exact ⟨h.1, le_rfl⟩

/-- Whoever misses more than one argument is no fixpoint, nor is whoever has one and misses one. -/
theorem ne_fix (harity : n + k = p.arity) (htwo : 1 < n + k) : p ≠ .fix := by
  rintro rfl
  have hone : Primitive.fix.arity = 1 := rfl
  omega

theorem Ready.fill (hready : R.Ready p n c) (hproper : c.Proper) (hmissing : 0 < c.missing)
    (ht : R.thunk t = .upTo k) : R.Closes o (p.bound n k) (c.fill t) p where
  combinator := hready.combinator
  arity := by
    have harity := hready.arity
    rw [Closure.arguments_fill hproper hmissing, List.length_append, List.length_singleton]
    simp only [Closure.fill]
    omega
  pos := (Nat.zero_le k).trans_lt ((p.lt_needs k).trans_le (p.needs_le_bound n k))
  unasked _ := hready.memo
  done r hr := by cases hready.memo.symm.trans hr
  arguments u hu := by
    rw [Closure.arguments_fill hproper hmissing, List.mem_append, List.mem_singleton] at hu
    obtain hu | rfl := hu
    · obtain ⟨l, hl, hle⟩ := hready.arguments u hu
      -- with an argument already bound, two are needed
      have hfix : p ≠ .fix := by
        have hlength := List.length_pos_of_mem hu
        exact ne_fix hready.arity (by omega)
      simp only [Argument, hl, Primitive.needs_of_ne hfix, Primitive.bound_of_ne hfix]
      omega
    · simp only [Argument, ht]
      exact p.needs_le_bound n k

theorem Ready.bindSelf (hready : R.Ready p n c) (hproper : c.Proper) (hmissing : 1 < c.missing)
    (halloc : ∀ u ∈ c.arguments, m.Allocated (.thunk u)) :
    Closes (R.withKnot m (n + 1) (.backTo m.nextObject)) m.nextObject (n + 1)
      (c.fill ⟨m.thunks.next⟩) p where
  combinator := hready.combinator
  arity := by
    have harity := hready.arity
    rw [Closure.arguments_fill hproper (by omega), List.length_append, List.length_singleton]
    simp only [Closure.fill]
    omega
  pos := n.succ_pos
  unasked _ := hready.memo
  done r hr := by cases hready.memo.symm.trans hr
  arguments u hu := by
    rw [Closure.arguments_fill hproper (by omega), List.mem_append, List.mem_singleton] at hu
    obtain hu | rfl := hu
    · obtain ⟨k, hk, hle⟩ := hready.arguments u hu
      have hsame : (R.withKnot m (n + 1) (.backTo m.nextObject)).thunk u = .upTo k :=
        (withThunk_of_ne (ne_nextThunk (halloc u hu))).trans hk
      simp only [Argument, hsame, Primitive.needs_of_ne (ne_fix hready.arity (by omega))]
      omega
    · simp only [Argument, thunk_withKnot, Closure.fill, true_and]
      omega

/-! Copies -/

/-- What a slot is copied as: the value that it leads back to, or itself if it does not. -/
def CopiedAs (R : Ranks) (n : Nat) (t : ThunkId) : Option Handle → Prop
  | some h => R.object h.target ≤ n
  | none => R.UpTo n t

end Ranks

namespace ThunkId

theorem copyTarget?_finishes (hup : R.Upholds s.heap held) (ho : .strong (.object o) ∈ held)
    (hlive : s.heap.IsLive (.thunk t)) (hslot : R.Slot o n t) :
    Finishes meaning s.heap R held optional (fun _ R' => CopiedAs R' n t) bad (t.copyTarget? s) := by
  obtain ⟨state, hstate, hsuspends⟩ := hup.stateOf?_of_live hlive
  have hshared : ∀ k, R.thunk t = .upTo k → k ≤ n →
      Finishes meaning s.heap R held optional (fun _ R' => CopiedAs R' n t) bad
        ((pure none : Run (Option Handle)) s) := fun k hk hle =>
    .of_ok (.refl ..) (by simpa using hup) ⟨k, hk, hle⟩
  have hlooked : ∀ {act : Run Handle}, Delivers bad s.heap R held n (act s) →
      Finishes meaning s.heap R held optional (fun _ R' => CopiedAs R' n t) bad
        ((do return some (← act) : Run (Option Handle)) s) := fun hact =>
    .bind hact fun r s₁ R₁ _ hup₁ hr => .of_ok (.refl ..) hup₁ hr
  refine .step (state?_run t s) (.refl ..) ?_
  rw [Slot] at hslot
  generalize hrank : R.thunk t = rank at hsuspends hslot
  rw [hstate]
  cases hsuspends with
  | forced => exact hshared _ hrank hslot
  | @recursive q =>
    -- the copy refers to the closure that the thunk leads back to, not to itself
    obtain ⟨rfl, hle⟩ := hslot
    have halive : s.heap.IsLive (.object q) := hup.live (h := .plain q) ho
    have hfound : s.heap.isAlive q = true := halive
    refine .inspect ?_
    simp only [hfound, if_true]
    exact hlooked (.share hup halive hle)
  | @pending g n hn =>
    refine .inspect ?_
    cases happ : s.heap.application? g with
    | none => exact hshared _ hrank hslot
    | some a =>
      have hkind := kindOf?_of_application? happ
      cases a with
      | pending | reduced => exact hshared _ hrank hslot
      | knot knot =>
        cases hup.fits.object _ _ hkind with
        | unresolved => exact hshared _ hrank hslot
        | weak hvalue => exact hlooked (.upgrade hup ((hvalue.trans hn).trans hslot))
        | strong hvalue =>
          exact hlooked (.share hup (hup.live_of_kind hkind (by simp [Handle.holding]))
            ((hvalue.trans hn).trans hslot))

theorem forCopy_upTo (hup : R.Upholds s.heap held) (ho : .strong (.object o) ∈ held)
    (hlive : s.heap.IsLive (.thunk t)) (hslot : R.Slot o n t) :
    Finishes meaning s.heap R held (fun u => {.strong (.thunk u)}) (fun _ R' u => UpTo R' n u) silent
      (t.forCopy s) := by
  refine .bind (.growing (copyTarget?_finishes hup ho hlive hslot) t.copyTarget?_along)
    fun target? s₁ R₁ _ hup₁ ⟨hcopied, hext⟩ => ?_
  cases target? with
  | none =>
    rw [optional_none, zero_add] at hup₁
    refine .of_ok (s := s₁.on (·.retainThunk t)) (.of_contents (contents_retainEdge _ (.thunk t))) ?_
      hcopied
    rw [Multiset.singleton_add]
    exact ⟨hup₁.valid.retainEdge (hext.isLive hlive),
      hup₁.fits.within (within_retainEdge _ (.thunk t))⟩
  | some g =>
    rw [optional_some, ← ThunkState.holdings_forced] at hup₁
    refine .of_ok (s := s₁.on fun m => (m.newThunk (.forced g)).2) (.newThunk _ (.upTo n)) ?_
      ⟨n, withThunk_self, le_rfl⟩
    rw [Multiset.singleton_add]
    exact hup₁.newThunk (.forced hcopied)

end ThunkId

namespace Ranks

theorem copies (o : ObjectId) (n : Nat) :
    Copies meaning o (fun _ R t => Slot R o n t) fun _ R _ u => UpTo R n u where
  slot_advances hev ho halloc h := by
    rw [Slot, hev.thunk _ halloc, hev.object o ho]
    exact h
  copied_advances hev _ halloc h := by
    obtain ⟨k, hk, hle⟩ := h
    exact ⟨k, (hev.thunk _ halloc).trans hk, hle⟩
  forCopy := ThunkId.forCopy_upTo

/-- A copy of a closure that misses arguments has no back edges, and ranks none of its arguments
above the closure. -/
theorem Closes.opens (hcloses : R.Closes o (R.object o) c p) (hup : R.Upholds s.heap held)
    (hkind : s.heap.kindOf? o = some (.closure c)) (hmissing : 0 < c.missing) :
    Opens meaning (fun _ R' c => Ready R' p (R.object o) c) s R o c := by
  have hproper := hup.valid.proper _ _ hkind
  refine (copies o (R.object o)).opens hkind hmissing (hcloses.unasked hmissing)
    (fun t ht => (hcloses.arguments t ht).slot)
    (fun hforward => ⟨hcloses.combinator, hcloses.arity, hcloses.unasked hmissing, fun t ht => ?_⟩)
    fun m' R' fresh _ hcopy hempty hcopied => ⟨hcopy.combinator.trans hcloses.combinator, ?_, hempty,
      fun u hu => ?_⟩
  · have hslot := (hcloses.arguments t ht).slot
    rw [Slot] at hslot
    cases hrank : R.thunk t with
    | upTo k => exact ⟨k, hrank, by rwa [hrank] at hslot⟩
    | backTo q => exact (hup.ne_backTo (hup.argument_live hkind ht) (hforward t ht) q hrank).elim
  · rw [hcopy.missing, ← hcopied.length_eq]
    exact hcloses.arity
  · obtain ⟨-, hrank⟩ := Closure.exists_copied hcopied hu
    exact hrank

end Ranks

namespace Run

variable {function argument : Handle}

theorem bindThunk_oneMore
    (hup : R.Upholds s.heap (function.holding ::ₘ .strong (.thunk t) ::ₘ rest))
    (hkind : s.heap.kindOf? function.target = some (.closure c))
    (hcloses : R.Closes function.target (R.object function.target) c p) (hmissing : 0 < c.missing)
    (ht : R.thunk t = .upTo k) :
    Finishes meaning s.heap R rest (fun r : Handle => {r.holding})
      (OneMore c (p.bound (R.object function.target) k)) bad (bindThunk function t s) := by
  refine .imp (bindThunk_finishes hup (hcloses.opens hup hkind hmissing) (hup.forward_of_upTo ht)
    fun m' R' d q hready hproper hsame hthunk _ => ?_)
    (fun m' R' r hbound => ⟨hbound.object, hbound.closure⟩) fun _ h => h
  exact .closure (hready.fill hproper (hsame ▸ hmissing) (hthunk.trans ht))

theorem bindThunk_delivers
    (hup : R.Upholds s.heap (function.holding ::ₘ .strong (.thunk t) ::ₘ rest))
    (ht : R.thunk t = .upTo k) (hfunction : R.object function.target ≤ n) (hk : k ≤ n) :
    Delivers raising s.heap R rest (n + 2) (bindThunk function t s) := by
  cases hclosure : s.heap.closure? function.untagged with
  | none =>
    refine .inspect ?_
    rw [hclosure]
    exact .inspect (refuseBind_finishes ⟨_, rfl⟩ hup)
  | some c =>
    have hkind : s.heap.kindOf? function.target = some (.closure c) :=
      kindOf?_of_closure? (h := function.untagged) hclosure
    obtain ⟨p, hcloses⟩ := hup.exists_closes hkind
    by_cases hmissing : 0 < c.missing
    · exact .imp (bindThunk_oneMore hup hkind hcloses hmissing ht)
        (fun _ _ _ ⟨hrank, _⟩ => hrank.le.trans (p.bound_le hfunction hk)) fun _ h => h
    · refine .inspect ?_
      rw [hclosure]
      dsimp only
      rw [if_pos (by simp only [Closure.isSaturated, beq_iff_eq]; omega)]
      exact .inspect (refuseBind_finishes ⟨_, rfl⟩ hup)

theorem applyArgument_oneMore
    (hup : R.Upholds s.heap (function.holding ::ₘ argument.holding ::ₘ rest))
    (hkind : s.heap.kindOf? function.target = some (.closure c))
    (hcloses : R.Closes function.target (R.object function.target) c p) (hmissing : 0 < c.missing)
    (hargument : R.object argument.target = k) :
    Finishes meaning s.heap R rest (fun r : Handle => {r.holding})
      (OneMore c (p.bound (R.object function.target) k)) bad
      (applyArgument function argument s) := by
  rw [Multiset.cons_swap, ← Multiset.singleton_add, ← ThunkState.holdings_pending] at hup
  have hup₁ := hup.newThunk (.pending hargument.le)
  rw [Multiset.cons_swap] at hup₁
  have hsame : R.Agrees (R.withThunk ⟨s.heap.thunks.next⟩ (.upTo k))
      (ObjectKind.closure c).holdings :=
    (agrees_withThunk hup.valid _).mono fun r hr =>
      Multiset.mem_add.2 (.inl (holdings_subset_held hkind hr))
  exact .step rfl (.newThunk (.pending argument) (.upTo k))
    (bindThunk_oneMore (s := s.on fun m => (m.newThunk (.pending argument)).2) hup₁ hkind
      (hcloses.of_agrees hsame) hmissing withThunk_self)

/-- Whatever the function is, what comes of it ranks no higher than a node would. -/
theorem applyArgument_delivers
    (hup : R.Upholds s.heap (function.holding ::ₘ argument.holding ::ₘ rest))
    (hfunction : R.object function.target ≤ n) (hargument : R.object argument.target ≤ n) :
    Delivers raising s.heap R rest (n + 2) (applyArgument function argument s) := by
  rw [Multiset.cons_swap, ← Multiset.singleton_add, ← ThunkState.holdings_pending] at hup
  have hup₁ := hup.newThunk (.pending le_rfl)
  rw [Multiset.cons_swap] at hup₁
  exact .step rfl (.newThunk (.pending argument) (.upTo (R.object argument.target)))
    (bindThunk_delivers (s := s.on fun m => (m.newThunk (.pending argument)).2) hup₁ withThunk_self
      hfunction hargument)

theorem bindSelf_delivers (hup : R.Upholds s.heap rest) (hheld : h.holding ∈ rest)
    (hclosure : s.heap.closure? h = some c) (hmissing : 1 < c.missing) :
    Delivers bad s.heap R rest (R.object h.target + 1) (bindSelf h s) := by
  have hkind := kindOf?_of_closure? hclosure
  obtain ⟨p, hcloses⟩ := hup.exists_closes hkind
  refine .imp (bindSelf_finishes (a := R.object h.target + 1) (b := .backTo) hup hheld
    (hcloses.opens hup hkind (by omega)) hclosure hmissing
    (fun m' R' d hready hproper hsame halloc => ?_) fun _ _ => .recursive)
    (fun _ _ _ hr => hr.1.le) fun _ h => h
  exact .closure (hready.bindSelf hproper (hsame ▸ hmissing) halloc)

end Run

end GraphReduction
