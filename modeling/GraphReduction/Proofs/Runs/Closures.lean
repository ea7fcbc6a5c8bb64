import Mathlib
import GraphReduction.Proofs.Labels.Demand
import GraphReduction.Proofs.Runs.Commands
import GraphReduction.Proofs.Session.Counts

/-! The shape of closures. A closure has one slot for each argument that its combinator takes, and
the slots fill up from the last one to the first. Runs change closures step by step, and a step that
binds an argument always finds the slot for it there and empty. -/
namespace GraphReduction

open Heap

/-- The closure is there and gets `t` as its next argument. -/
structure Closure.Gets (c : Closure) (t : ThunkId) (c' : Closure) : Prop where
  missing : 0 < c.missing
  slot : c.slots[c.missing - 1]? = some none
  filled : c' = c.fill t
  arguments : c'.arguments = c.arguments ++ [t]

theorem Closure.Proper.gets {c : Closure} (h : c.Proper) (hmissing : 0 < c.missing) (t : ThunkId) :
    c.Gets t (c.fill t) where
  missing := hmissing
  slot := by
    rw [← Array.getElem?_toList, h, List.getElem?_append_left (by simpa using hmissing)]
    simp [hmissing]
  filled := rfl
  arguments := arguments_fill h hmissing t

namespace Heap

/-- What a single step may do to the closure at `o`, which is `c'` afterwards. -/
inductive Remade (m m' : Heap) (o : ObjectId) (c' : Closure) : Prop
  /-- It was there, and at most its result is another one. -/
  | kept {c : Closure} {memo : Memo} (hkind : m.kindOf? o = some (.closure c))
    (heq : c' = { c with memo })
  | filled {c : Closure} {t : ThunkId} (hkind : m.kindOf? o = some (.closure c))
    (hgets : c.Gets t c')
  | declared {k : Combinator} (hnew : ¬ m.Allocated (.object o))
    (hfirst : ¬ m.Allocated (.combinator c'.combinator))
    (hk : m'.combinatorOf? c'.combinator = some k) (harity : 0 < k.arity)
    (heq : c' = .bare c'.combinator k.arity)
  | copied {p : ObjectId} {c : Closure} (hnew : ¬ m.Allocated (.object o))
    (hkind : m.kindOf? p = some (.closure c)) (hcopy : c'.CopyOf m c)
  | copyFilled {p : ObjectId} {c fresh : Closure} {t : ThunkId} (hnew : ¬ m.Allocated (.object o))
    (hkind : m.kindOf? p = some (.closure c)) (hcopy : fresh.CopyOf m c) (hgets : fresh.Gets t c')

/-- A single step as far as closures and their combinators are concerned. -/
structure ClosureStep (m m' : Heap) : Prop where
  closure : ∀ o c', m'.kindOf? o = some (.closure c') → Remade m m' o c'
  combinator : ∀ c k, m.Allocated (.combinator c) → m'.combinatorOf? c = some k →
    m.combinatorOf? c = some k
  allocated : ∀ c, m.Allocated (.combinator c) → m'.Allocated (.combinator c)

/-- Steps one after the other. -/
abbrev ClosureSteps : Heap → Heap → Prop := Relation.ReflTransGen ClosureStep

/-- The slots of a closure are in order, and there are as many as its combinator takes arguments. -/
structure ShapedAt (m : Heap) (c : Closure) : Prop where
  proper : c.Proper
  total : 0 < c.total
  allocated : m.Allocated (.combinator c.combinator)
  arity : ∀ k, m.combinatorOf? c.combinator = some k → c.total = k.arity

def Shaped (m : Heap) : Prop := ∀ o c, m.kindOf? o = some (.closure c) → m.ShapedAt c

variable {m m' : Heap} {c c' fresh : Closure}

/-! A step keeps closures in shape. -/

theorem ShapedAt.of_alike (h : m.ShapedAt c) (hproper : c'.Proper) (htotal : c'.total = c.total)
    (hcombinator : c'.combinator = c.combinator) : m.ShapedAt c' where
  proper := hproper
  total := htotal ▸ h.total
  allocated := hcombinator ▸ h.allocated
  arity k hk := htotal.trans (h.arity k (hcombinator ▸ hk))

theorem ShapedAt.fill (h : m.ShapedAt c) {t : ThunkId} (hgets : c.Gets t c') : m.ShapedAt c' := by
  obtain rfl := hgets.filled
  exact h.of_alike (h.proper.fill hgets.missing t) (by simp [Closure.total, Closure.fill]) rfl

theorem ShapedAt.copy (h : m.ShapedAt c) {m₁ : Heap} (hcopy : fresh.CopyOf m₁ c) :
    m.ShapedAt fresh :=
  h.of_alike (hcopy.proper h.proper) hcopy.total hcopy.combinator

theorem ShapedAt.step (h : m.ShapedAt c) (hstep : m.ClosureStep m') : m'.ShapedAt c where
  proper := h.proper
  total := h.total
  allocated := hstep.allocated _ h.allocated
  arity k hk := h.arity k (hstep.combinator _ k h.allocated hk)

theorem ShapedAt.bare {k : Combinator} {id : CombinatorId} (hk : m.combinatorOf? id = some k)
    (harity : 0 < k.arity) : m.ShapedAt (.bare id k.arity) where
  proper := Closure.proper_bare id k.arity
  total := by simpa [Closure.total, Closure.bare] using harity
  allocated := by
    obtain ⟨held, hheld, -⟩ := Option.map_eq_some_iff.mp hk
    exact IsLive.allocated (by simp [IsLive, Closure.bare, hheld])
  arity k' hk' := by
    obtain rfl : k = k' := Option.some.inj (hk.symm.trans hk')
    simp [Closure.total, Closure.bare]

theorem Shaped.step (h : m.Shaped) (hstep : m.ClosureStep m') : m'.Shaped := by
  intro o c' hkind'
  cases hstep.closure o c' hkind' with
  | kept hkind heq =>
    have hat := (h o _ hkind).step hstep
    rw [heq]
    exact ⟨hat.proper, hat.total, hat.allocated, hat.arity⟩
  | filled hkind hgets => exact ((h o _ hkind).fill hgets).step hstep
  | declared hnew hfirst hk harity heq =>
    rw [heq]
    exact .bare hk harity
  | copied hnew hkind hcopy => exact ((h _ _ hkind).copy hcopy).step hstep
  | copyFilled hnew hkind hcopy hgets => exact (((h _ _ hkind).copy hcopy).fill hgets).step hstep

theorem Shaped.steps (h : m.Shaped) (hsteps : m.ClosureSteps m') : m'.Shaped := by
  induction hsteps with
  | refl => exact h
  | tail _ hstep ih => exact ih.step hstep

/-! Every single change of a heap is a step. -/

theorem ClosureStep.of_kept
    (hclosure : ∀ o c', m'.kindOf? o = some (.closure c') →
      ∃ c memo, m.kindOf? o = some (.closure c) ∧ c' = { c with memo })
    (hcombinator : ∀ c k, m'.combinatorOf? c = some k → m.combinatorOf? c = some k)
    (hallocated : ∀ c, m.Allocated (.combinator c) → m'.Allocated (.combinator c)) :
    m.ClosureStep m' where
  closure o c' hkind := by
    obtain ⟨c, memo, hkind, heq⟩ := hclosure o c' hkind
    exact .kept hkind heq
  combinator c k _ hk := hcombinator c k hk
  allocated := hallocated

theorem ClosureStep.within (h : m'.Within m) : m.ClosureStep m' :=
  .of_kept (fun o c' hkind => ⟨c', c'.memo, h.kind o _ hkind, rfl⟩) h.combinator
    fun _ halloc => (h.allocated _).mpr halloc

theorem ClosureStep.newThunk (m : Heap) (state : ThunkState) :
    m.ClosureStep (m.newThunk state).2 :=
  .of_kept (fun _ c' hkind => ⟨c', c'.memo, hkind, rfl⟩) (fun _ _ hk => hk) fun _ halloc => halloc

theorem ClosureStep.setThunkState (m : Heap) (t : ThunkId) (state : ThunkState) :
    m.ClosureStep (m.setThunkState t state) :=
  .of_kept (fun _ c' hkind => ⟨c', c'.memo, hkind, rfl⟩) (fun _ _ hk => hk) fun _ halloc => halloc

theorem ClosureStep.setMemo (m : Heap) (o : ObjectId) (memo : Memo) :
    m.ClosureStep (m.setMemo o memo) := by
  refine .of_kept (fun p c' hkind => ?_) (fun _ _ hk => hk) fun _ halloc => halloc
  rw [kindOf?_setMemo] at hkind
  split at hkind
  · obtain ⟨kind, hold, heq⟩ := Option.map_eq_some_iff.mp hkind
    cases kind with
    | closure c =>
      cases heq
      exact ⟨c, memo, hold, rfl⟩
    | value v => cases heq
    | application a => cases heq
    | exception e => cases heq
  · exact ⟨c', c'.memo, hkind, rfl⟩

theorem ClosureStep.setKind {o : ObjectId} {kind : ObjectKind}
    (hmade : ∀ c', kind = .closure c' → Remade m (m.setKind o kind) o c') :
    m.ClosureStep (m.setKind o kind) where
  closure p c' hkind := by
    rw [Valid.kindOf?_setKind] at hkind
    split at hkind
    · next heq =>
      subst heq
      obtain ⟨-, -, heq⟩ := Option.map_eq_some_iff.mp hkind
      exact hmade c' heq
    · exact .kept hkind rfl
  combinator _ _ _ hk := hk
  allocated _ halloc := halloc

theorem fresh_nextObject (m : Heap) : ¬ m.Allocated (.object m.nextObject) :=
  (grows_newObject m (.exception .blackHole)).fresh

theorem ClosureStep.addObject (hold : Hold) {kind : ObjectKind}
    (hmade : ∀ c', kind = .closure c' → Remade m (m.addObject hold kind).2 m.nextObject c') :
    m.ClosureStep (m.addObject hold kind).2 where
  closure o c' hkind := by
    rw [kindOf?, object?_addObject] at hkind
    split at hkind
    · next heq =>
      subst heq
      exact hmade c' (Option.some.inj hkind)
    · exact .kept hkind rfl
  combinator _ _ _ hk := hk
  allocated _ halloc := halloc

theorem ClosureStep.declare (m : Heap) (hold : Hold) {k : Combinator} (hk : 0 < k.arity) :
    m.ClosureStep ((m.newCombinator k).2.addObject hold
      (.closure (.bare (m.newCombinator k).1 k.arity))).2 where
  closure o c' hkind := by
    rw [kindOf?, object?_addObject] at hkind
    split at hkind
    · next heq =>
      subst heq
      cases hkind
      refine .declared (fresh_nextObject m) (grows_newCombinator m k).fresh ?_ hk rfl
      simp [combinatorOf?, Closure.bare, Heap.newCombinator, Heap.addObject, combinator?]
    · exact .kept hkind rfl
  combinator c k' halloc hk' := by
    have hne : c.index ≠ m.combinators.next := Nat.ne_of_lt halloc
    simpa [combinatorOf?, combinator?, Heap.newCombinator, Heap.addObject, hne] using hk'
  allocated c halloc := ((grows_newCombinator m k).allocated _).mpr (.inr halloc)

instance : IsHistory fun m m' => m.Shaped → m.ClosureSteps m' where
  refl _ _ := .refl
  trans h h' hshaped := (h hshaped).trans (h' (hshaped.steps (h hshaped)))
  retainEdge m cell _ := .single (.within (within_retainEdge m cell))
  retainWeak m o _ := .single (.within (.of_contents (contents_retainWeak m o)))
  addObject m hold _ hkind _ := .single (.addObject hold fun c' heq => by cases heq; cases hkind)
  newThunk m state _ := .single (.newThunk m state)
  within h _ := .single (.within h)
  keep _ h _ := .single (.setThunkState _ _ (.forced h))
  reduce _ _ _ := .single (.setKind (by simp))
  point _ _ _ := .single (.setKind (by simp))
  memoize _ _ h _ := .single (.setMemo _ _ (.done h))
  compute {m _ o _ _} _ _ _ h _ hshaped := by
    have hstart := ClosureStep.setMemo m o .running
    exact (Relation.ReflTransGen.single hstart).trans
      ((h (hshaped.step hstart)).tail (.setMemo _ _ _))
  declare m hold _ hk _ := .single (.declare m hold hk)
  fill hkind hmissing t hshaped := .single <| .setKind fun c' heq => by
    cases heq
    exact .filled hkind ((hshaped _ _ hkind).proper.gets hmissing t)
  clone _ _ := .single (.addObject (.shared 1 0) fun c' heq => by cases heq)
  box _ _ _ := .single (.addObject (.shared 1 0) fun c' heq => by cases heq)
  copy hkind hcopy _ := .single <| .addObject (.shared 1 0) fun c' heq => by
    cases heq
    exact .copied (fresh_nextObject _) hkind hcopy
  copyFilled hkind hcopy hmissing t hshaped := .single <| .addObject (.shared 1 0) fun c' heq => by
    cases heq
    have hproper := hcopy.proper (hshaped _ _ hkind).proper
    exact .copyFilled (fresh_nextObject _) hkind hcopy (hproper.gets (hcopy.missing ▸ hmissing) t)

end Heap

/-! What the shape says -/

namespace Closure

variable {c : Closure}

theorem Proper.missing_le (h : c.Proper) : c.missing ≤ c.total := by
  have := h.total_eq
  omega

theorem Proper.bound_eq (h : c.Proper) : c.bound = c.arguments.length := by
  have := h.total_eq
  rw [bound]
  omega

theorem Proper.slot_eq_none_iff (h : c.Proper) (i : Nat) :
    c.slots[i]? = some none ↔ i < c.missing := by
  rw [← Array.getElem?_toList, h, List.getElem?_append]
  split
  · next hmissing =>
    rw [List.length_replicate] at hmissing
    simp [hmissing]
  · next hmissing =>
    rw [List.length_replicate] at hmissing
    simp [hmissing, List.getElem?_eq_some_iff]

theorem Proper.slot_isSome_iff (h : c.Proper) (i : Nat) :
    c.slots[i]?.join.isSome ↔ c.missing ≤ i ∧ i < c.total := by
  have hempty := h.slot_eq_none_iff i
  by_cases hi : i < c.total
  · have hslot : c.slots[i]? = some c.slots[i] := Array.getElem?_eq_getElem hi
    rw [hslot, Option.some.injEq] at hempty
    rw [hslot, Option.join_some, ← Option.ne_none_iff_isSome, ne_eq, hempty]
    omega
  · have hslot : c.slots[i]? = none := Array.getElem?_eq_none (by rw [total] at hi; omega)
    simp [hslot, hi]

theorem Proper.argument?_isSome_iff (h : c.Proper) (i : Nat) :
    (c.argument? i).isSome ↔ i < c.bound := by
  rw [argument?_eq h, h.bound_eq]
  simp

theorem Proper.arguments_eq (h : c.Proper) :
    c.arguments.map some = (List.range c.bound).map c.argument? := by
  refine List.ext_getElem (by simp [h.bound_eq]) fun i hi _ => ?_
  have hbound : i < c.arguments.length := by simpa using hi
  simp [argument?_eq h, hbound]

end Closure

theorem Primitive.combinator_arity_pos (p : Primitive) (vars : VarSupply) :
    0 < (p.combinator vars).1.arity := by
  cases p <;> exact Nat.succ_pos _

theorem Machine.closureSteps_initial : Heap.ClosureSteps {} Machine.initial.heap := by
  refine List.foldlRecOn Primitive.all _
    (motive := fun s : Machine => Heap.ClosureSteps {} s.heap) .refl fun s hsteps p _ => ?_
  exact hsteps.tail (.declare s.heap .static (p.combinator_arity_pos s.vars))

theorem Heap.shaped_empty : Heap.Shaped {} := by rintro o c ⟨⟩

theorem Session.shaped (options : Options) (cs : List Command) :
    (runAll { options } cs).2.machine.heap.Shaped := by
  have hinitial := shaped_empty.steps Machine.closureSteps_initial
  exact hinitial.steps
    (runAll_along (r := fun m m' => m.Shaped → m.ClosureSteps m') { options } cs hinitial)

/-- After any commands every closure has exactly as many slots as its combinator takes arguments, at
least one; the empty slots are in front, one for each missing argument; and the arguments are those
in the other slots, counted from the last one. A further command goes by steps of the kinds above, so
each argument that it binds finds an empty slot and comes last among the arguments. -/
theorem Session.closures_shaped (options : Options) (cs : List Command) :
    let s := (runAll { options } cs).2
    let m := s.machine.heap
    (∀ o c, m.kindOf? o = some (.closure c) →
      (∃ k, m.combinatorOf? c.combinator = some k ∧ 1 ≤ k.arity ∧ c.slots.size = k.arity) ∧
      c.missing ≤ c.total ∧
      (∀ i, c.slots[i]? = some none ↔ i < c.missing) ∧
      (∀ i, c.slots[i]?.join.isSome ↔ c.missing ≤ i ∧ i < c.total) ∧
      (∀ i, (c.argument? i).isSome ↔ i < c.bound) ∧
      c.arguments.map some = (List.range c.bound).map c.argument?) ∧
    ∀ next, m.ClosureSteps (s.step next).2.2.machine.heap := by
  intro s m
  have hshaped : m.Shaped := Session.shaped options cs
  refine ⟨fun o c hkind => ?_, fun next =>
    step_along (r := fun m m' => m.Shaped → m.ClosureSteps m') s next hshaped⟩
  have hproper := (hshaped o c hkind).proper
  refine ⟨?_, hproper.missing_le, hproper.slot_eq_none_iff, hproper.slot_isSome_iff,
    hproper.argument?_isSome_iff, hproper.arguments_eq⟩
  -- a closure holds its combinator, so the combinator is there
  have hgood := (good_initial options).runAll cs
  have hlive : m.IsLive (.combinator c.combinator) :=
    hgood.heap.counted.live_of_kind hkind (by simp [ObjectKind.holdings_closure])
  obtain ⟨held, hlookup⟩ := Option.isSome_iff_exists.mp hlive
  have hk : m.combinatorOf? c.combinator = some held.combinator := by simp [combinatorOf?, hlookup]
  have harity := (hshaped o c hkind).arity _ hk
  exact ⟨held.combinator, hk, harity ▸ (hshaped o c hkind).total, harity⟩

end GraphReduction
