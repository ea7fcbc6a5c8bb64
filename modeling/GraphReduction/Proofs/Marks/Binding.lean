import Mathlib
import GraphReduction.Machine.Closure
import GraphReduction.Proofs.Marks.Finishes
import GraphReduction.Proofs.Runs.Append

/-! Binding arguments on a marked heap. An argument is bound in place or in a copy, and what comes of
it is marked alike, if as much is known of a copy as of a closure without back edges. What a copy is
like depends on the slots alone, one after the other. -/
namespace GraphReduction

open Heap Marks

variable {α β γ : Type} {K : Meaning α β γ} {M : Marks α β γ} {rest held : Multiset Holding}
  {s : Machine} {o : ObjectId} {h : Handle} {t : ThunkId} {c : Closure} {a : α} {bad : Signal → Prop}
  {slot : Heap → Marks α β γ → ThunkId → Prop}
  {copied : Heap → Marks α β γ → ThunkId → ThunkId → Prop}
  {ready : Heap → Marks α β γ → Closure → Prop}

namespace Marks

theorem Finishes.growing {δ : Type} {m : Heap} {post : δ → Multiset Holding}
    {good : Heap → Marks α β γ → δ → Prop} {act : Run δ}
    (h : Finishes K m M rest post good bad (act s)) (hgrows : Along Extends act) :
    Finishes K m M rest post (fun m' M' x => good m' M' x ∧ s.heap.Extends m') bad (act s) :=
  h.known fun _ _ hrun => hgrows.of_ok hrun

/-- What is known of the slots of the closure at `o`, and of a slot and the one that it is copied as.
It stays true while others hold the closure. -/
structure Copies (K : Meaning α β γ) (o : ObjectId) (slot : Heap → Marks α β γ → ThunkId → Prop)
    (copied : Heap → Marks α β γ → ThunkId → ThunkId → Prop) : Prop where
  slot_advances {m m' : Heap} {M M' : Marks α β γ} {held : Multiset Holding} {t : ThunkId}
    (hev : Advances held m M m' M') (ho : .strong (.object o) ∈ held)
    (halloc : m.Allocated (.thunk t)) (h : slot m M t) : slot m' M' t
  copied_advances {m m' : Heap} {M M' : Marks α β γ} {held : Multiset Holding} {t u : ThunkId}
    (hev : Advances held m M m' M') (ho : .strong (.object o) ∈ held)
    (halloc : m.Allocated (.thunk u)) (h : copied m M t u) : copied m' M' t u
  forCopy {s : Machine} {M : Marks α β γ} {held : Multiset Holding} {t : ThunkId}
    (hup : M.Upholds K s.heap held) (ho : .strong (.object o) ∈ held)
    (hlive : s.heap.IsLive (.thunk t)) (h : slot s.heap M t) :
    Finishes K s.heap M held (fun u => {.strong (.thunk u)}) (fun m' M' u => copied m' M' t u) silent
      (t.forCopy s)

/-- The closure `c` at `o` misses arguments. As much is known of it, if it has no back edges, as of
each copy. -/
structure Opens (K : Meaning α β γ) (ready : Heap → Marks α β γ → Closure → Prop) (s : Machine)
    (M : Marks α β γ) (o : ObjectId) (c : Closure) : Prop where
  kind : s.heap.kindOf? o = some (.closure c)
  missing : 0 < c.missing
  memo : c.memo = .empty
  here : (∀ u ∈ c.arguments, s.heap.Forward u) → ready s.heap M c
  copy {held : Multiset Holding} (hup : M.Upholds K s.heap held)
    (ho : .strong (.object o) ∈ held) :
    Finishes K s.heap M held (fun fresh => (ObjectKind.closure fresh).holdings)
      (fun m' M' fresh => fresh.CopyOf m' c ∧ fresh.memo = .empty ∧ ready m' M' fresh) silent
      (c.copy s)

/-- The result is a closure of its own, marked `a`, that misses one argument less than `c`. Nobody
computed its result when the heap was `m₀`. -/
structure Bound (m₀ : Heap) (c : Closure) (a : α) (m : Heap) (M : Marks α β γ) (r : Handle) :
    Prop where
  object : M.object r.target = a
  tag : r.tag = .plain
  closure : ∃ c', m.closure? r = some c' ∧ c'.missing + 1 = c.missing
  idle : ¬ m₀.Running r.target

end Marks

namespace Closure

theorem copySlot_finishes (hcopies : Copies K o slot copied) (hup : M.Upholds K s.heap held)
    (ho : .strong (.object o) ∈ held) {w : Option ThunkId}
    (hslot : ∀ t, w = some t → s.heap.IsLive (.thunk t) ∧ slot s.heap M t) :
    Finishes K s.heap M held (fun w' => slotHoldings [w'])
      (fun m' M' w' => Option.Rel (fun t u => m'.Allocated (.thunk u) ∧ copied m' M' t u) w w')
      silent (copySlot w s) := by
  cases w with
  | none => exact .of_ok (.refl ..) (by simpa [slotHoldings] using hup) .none
  | some t =>
    obtain ⟨hlive, hknown⟩ := hslot t rfl
    refine .bind (hcopies.forCopy hup ho hlive hknown) fun u s₁ M₁ _ hup₁ hu => ?_
    have hnew : s₁.heap.IsLive (.thunk u) := hup₁.valid.counted.live _ (by simp)
    exact .of_ok (.refl ..) (by simpa [slotHoldings] using hup₁) (.some ⟨hnew.allocated, hu⟩)

theorem copySlots_finishes (hcopies : Copies K o slot copied) (hup : M.Upholds K s.heap held)
    (ho : .strong (.object o) ∈ held) (slots : List (Option ThunkId))
    (hslots : ∀ t, some t ∈ slots → s.heap.IsLive (.thunk t) ∧ slot s.heap M t) :
    Finishes K s.heap M held slotHoldings
      (fun m' M' slots' => List.Forall₂
        (Option.Rel fun t u => m'.Allocated (.thunk u) ∧ copied m' M' t u) slots slots') silent
      (slots.mapM copySlot s) := by
  induction slots generalizing s M held with
  | nil => exact .of_ok (.refl ..) (by simpa [slotHoldings] using hup) .nil
  | cons w slots ih =>
    rw [List.mapM_cons]
    refine .bind (.growing (copySlot_finishes hcopies hup ho fun t ht =>
      hslots t (ht ▸ List.mem_cons_self)) (copySlot_along w)) fun w' s₁ M₁ hev hup₁ hgood => ?_
    obtain ⟨hfirst, hext⟩ := hgood
    have ho₁ : .strong (.object o) ∈ slotHoldings [w'] + held := Multiset.mem_add.2 (.inr ho)
    refine .bind (.keeping (ih hup₁ ho₁ fun t ht => ?_)) fun slots' s₂ M₂ hev₂ hup₂ hothers => ?_
    · obtain ⟨hlive, hknown⟩ := hslots t (List.mem_cons_of_mem _ ht)
      exact ⟨hext.isLive hlive, hcopies.slot_advances hev ho hlive.allocated hknown⟩
    · refine .of_ok (.refl ..) ?_ (.cons ?_ hothers)
      · rwa [slotHoldings_cons, add_comm (slotHoldings [w'])]
      · cases hfirst with
        | none => exact .none
        | some hu =>
          obtain ⟨halloc, hu⟩ := hu
          exact .some ⟨hev₂.allocated _ halloc, hcopies.copied_advances hev₂ ho halloc hu⟩

theorem arguments_copied {r : ThunkId → ThunkId → Prop} {fresh : Closure}
    (h : List.Forall₂ (Option.Rel r) c.slots.toList fresh.slots.toList) :
    List.Forall₂ r c.arguments fresh.arguments :=
  List.rel_filterMap (fun _ _ hslot => hslot) (List.forall₂_reverse_iff.2 h)

theorem exists_copied {r : ThunkId → ThunkId → Prop} {ts us : List ThunkId}
    (h : List.Forall₂ r ts us) {u : ThunkId} (hu : u ∈ us) : ∃ t, r t u := by
  induction h with
  | nil => cases hu
  | cons hfirst _ ih =>
    obtain rfl | hu := List.mem_cons.1 hu
    · exact ⟨_, hfirst⟩
    · exact ih hu

theorem copy_finishes (hcopies : Copies K o slot copied) (hup : M.Upholds K s.heap held)
    (ho : .strong (.object o) ∈ held) (hkind : s.heap.kindOf? o = some (.closure c))
    (hmemo : c.memo = .empty) (hslots : ∀ t ∈ c.arguments, slot s.heap M t) :
    Finishes K s.heap M held (fun fresh => (ObjectKind.closure fresh).holdings)
      (fun m' M' fresh => (fresh.memo = .empty ∧
        List.Forall₂ (copied m' M') c.arguments fresh.arguments) ∧ fresh.CopyOf m' c) silent
      (c.copy s) := by
  refine .known (.bind (.growing (copySlots_finishes hcopies hup ho c.slots.toList fun t ht => ?_)
    (.mapM copySlot_along _)) fun slots s₁ M₁ hev hup₁ hgood => ?_) fun _ _ => copy_copyOf
  · have hmem : t ∈ c.arguments := by simpa [arguments] using ht
    exact ⟨hup.argument_live hkind hmem, hslots t hmem⟩
  obtain ⟨hcopied, hext⟩ := hgood
  have hlive : s₁.heap.IsLive (.combinator c.combinator) :=
    hext.isLive (hup.live_of_kind hkind (by simp [ObjectKind.holdings_closure]))
  have hsame : (s₁.heap.retainCombinator c.combinator).contents = s₁.heap.contents :=
    contents_retainEdge s₁.heap (.combinator c.combinator)
  have hev₁ : Advances held s₁.heap M₁ (s₁.heap.retainCombinator c.combinator) M₁ :=
    .of_contents hsame
  refine .step rfl hev₁ ?_
  rw [hmemo]
  refine .step (x := Memo.empty) rfl (.refl ..) (.of_ok (.refl ..) ?_ ⟨rfl, ?_⟩)
  · have hvalid := hup₁.valid.retainEdge hlive
    have hholdings :
        (ObjectKind.closure { c with slots := slots.toArray, memo := .empty }).holdings + held =
          .strong (.combinator c.combinator) ::ₘ (slotHoldings slots + held) := by
      rw [ObjectKind.holdings_closure]
      simp [arguments, slotHoldings, Memo.result?, List.map_reverse, Multiset.coe_reverse,
        -Multiset.cons_coe]
    exact hholdings ▸ ⟨hvalid, hup₁.fits.within (.of_contents hsame)⟩
  · exact (arguments_copied hcopied).imp fun t u h =>
      hcopies.copied_advances hev₁ ho h.1 h.2

end Closure

namespace Marks

theorem Copies.opens (hcopies : Copies K o slot copied) (hkind : s.heap.kindOf? o = some (.closure c))
    (hmissing : 0 < c.missing) (hmemo : c.memo = .empty)
    (hslots : ∀ t ∈ c.arguments, slot s.heap M t)
    (hhere : (∀ u ∈ c.arguments, s.heap.Forward u) → ready s.heap M c)
    (hready : ∀ m' M' fresh, M'.code = M.code → fresh.CopyOf m' c → fresh.memo = .empty →
      List.Forall₂ (copied m' M') c.arguments fresh.arguments → ready m' M' fresh) :
    Opens K ready s M o c where
  kind := hkind
  missing := hmissing
  memo := hmemo
  here := hhere
  copy hup ho := by
    obtain ⟨fresh, s₁, M₁, hrun, hev, hup₁, ⟨hempty, hcopied⟩, hcopy⟩ :=
      (Closure.copy_finishes hcopies hup ho hkind hmemo hslots).result_of_silent
    rw [hrun]
    exact .of_ok hev hup₁ ⟨hcopy, hempty, hready _ _ _ hev.code hcopy hempty hcopied⟩

end Marks

namespace Run

variable {function : Handle} {b : ObjectId → β}

theorem refuseBind_finishes {post : Handle → Multiset Holding}
    {good : Heap → Marks α β γ → Handle → Prop} {e : EvalError} (hbad : bad (.raised e))
    (hup : M.Upholds K s.heap (function.holding ::ₘ .strong (.thunk t) ::ₘ rest)) :
    Finishes K s.heap M rest post good bad ((do
      change (·.releaseThunk t)
      release function.untagged
      raise e : Run Handle) s) := by
  rw [Multiset.cons_swap] at hup
  have hup₁ := hup.releaseThunk
  refine .step rfl (.releaseThunk hup.valid (Multiset.subset_cons _ _)) ?_
  refine .step rfl (.release (h := function.untagged) hup₁.valid (Multiset.Subset.refl _)) ?_
  exact .of_error hbad (.refl ..) (Upholds.release (h := function.untagged) hup₁)

theorem bindThunk_finishes
    (hup : M.Upholds K s.heap (function.holding ::ₘ .strong (.thunk t) ::ₘ rest))
    (hopens : Opens K ready s M function.target c) (hforward : s.heap.Forward t)
    (hfill : ∀ m' M' d p, ready m' M' d → d.Proper → d.missing = c.missing →
      M'.thunk t = M.thunk t → m'.Forward t →
      K.reads M' m' p (.closure (d.fill t)) a) :
    Finishes K s.heap M rest (fun r : Handle => {r.holding}) (Bound s.heap c a) bad
      (bindThunk function t s) := by
  have hkind := hopens.kind
  have hmissing := hopens.missing
  have hproper := hup.valid.proper _ _ hkind
  have hclosure : s.heap.closure? function.untagged = some c := closure?_of_kindOf? rfl hkind
  by_cases hplace : s.heap.InPlace function c
  · have hunique := hplace.unique
    have hready := hopens.here fun u hu => forward_of_isRecursive (hplace.forward u hu)
    have hfilled : (s.heap.setKind function.target (.closure (c.fill t))).closure?
        function.untagged = some (c.fill t) := by
      refine closure?_of_kindOf? rfl ?_
      rw [Handle.target_untagged, Valid.kindOf?_setKind, if_pos rfl, hkind]
      rfl
    rw [bindThunk_inPlace hclosure hproper hmissing hplace]
    refine .of_ok (s := s.on (·.setKind function.target (.closure (c.fill t))))
      (.fill hup.valid (Multiset.subset_cons _ _) hunique hopens.memo a)
      (hup.fill hunique hkind hmissing (hfill _ _ _ _ hready hproper rfl rfl hforward))
      ⟨withObject_self, rfl, ⟨c.fill t, hfilled, ?_⟩, not_running hkind (by simp [hopens.memo])⟩
    exact Nat.sub_add_cancel hmissing
  · obtain ⟨fresh, s₁, M₁, hrun, hev, hup₁, hcopy, hempty, hready⟩ :=
      (hopens.copy hup (Multiset.mem_cons_self ..)).result_of_silent
    have hlive : s.heap.IsLive (.thunk t) := hup.valid.counted.live _ (by simp)
    have hfresh := hcopy.proper hproper
    have hopen : 0 < fresh.missing := hcopy.missing ▸ hmissing
    have hheld : (ObjectKind.closure fresh).holdings +
        (function.holding ::ₘ .strong (.thunk t) ::ₘ rest) =
        (ObjectKind.closure (fresh.fill t)).holdings + (function.holding ::ₘ rest) := by
      rw [Closure.holdings_fill hfresh hopen]
      simp only [← Multiset.singleton_add]
      abel
    rw [hheld] at hup₁
    have hidle : ∀ d, ObjectKind.closure (fresh.fill t) = .closure d → d.memo ≠ .running := by
      rintro _ ⟨⟩
      simp [Closure.fill, hempty]
    have hmade := hup₁.newObject (by rintro _ ⟨⟩; exact hfresh.fill hopen t)
      (hfill _ _ _ _ hready hfresh hcopy.missing (hev.thunk t hlive.allocated)
        (hev.forward hlive.allocated hforward))
    rw [Multiset.cons_swap] at hmade
    have hmake : Advances rest s₁.heap M₁ _ _ := .newObject hup₁.valid
      (fun r hr => Multiset.mem_add.2 (.inr (Multiset.mem_cons_of_mem hr))) _ hidle a
    have hfilled : ((s₁.heap.newObject (.closure (fresh.fill t))).2.release
        function.untagged).closure? (.plain s₁.heap.nextObject) = some (fresh.fill t) := by
      refine closure?_of_kindOf? rfl ((kindOf?_release (h := function.untagged) hmade.valid
        (Multiset.mem_cons_self ..)).trans ?_)
      exact (kindOf?_newObject ..).trans (if_pos rfl)
    rw [bindThunk_copy hclosure hproper hmissing hplace hrun]
    refine .of_ok ((hev.mono fun r hr => by simp [hr]).trans (hmake.trans
        (.release (h := function.untagged) hmade.valid (Multiset.subset_cons _ _))))
      (Upholds.release (h := function.untagged) hmade)
      ⟨withObject_self, rfl, ⟨fresh.fill t, hfilled, ?_⟩, ?_⟩
    · rw [← hcopy.missing]
      exact Nat.sub_add_cancel hopen
    · rintro ⟨e, he, -⟩
      exact (grows_newObject s₁.heap (.closure (fresh.fill t))).fresh
        (hev.allocated _ (isLive_of_kindOf? he).allocated)

theorem bindSelf_finishes (hup : M.Upholds K s.heap rest) (hheld : h.holding ∈ rest)
    (hopens : Opens K ready s M h.target c) (hclosure : s.heap.closure? h = some c)
    (hmissing : 1 < c.missing)
    (hknot : ∀ m' M' d, ready m' M' d → d.Proper → d.missing = c.missing →
      (∀ u ∈ d.arguments, m'.Allocated (.thunk u)) →
      K.reads (M'.withKnot m' a (b m'.nextObject)) (m'.bindSelf d) m'.nextObject
        (.closure (d.fill ⟨m'.thunks.next⟩)) a)
    (hback : ∀ (M' : Marks α β γ) p, K.suspends M' (.recursive p) (b p)) :
    Finishes K s.heap M rest (fun r : Handle => {r.holding})
      (fun _ M' r => M'.object r.target = a ∧ r.tag = .plain) bad (bindSelf h s) := by
  obtain ⟨fresh, s₁, M₁, hrun, hev, hup₁, hcopy, hempty, hready⟩ :=
    (hopens.copy hup hheld).result_of_silent
  have hfresh := hcopy.proper (hup.valid.proper _ _ hopens.kind)
  have hopen : 1 < fresh.missing := hcopy.missing ▸ hmissing
  have halloc : ∀ u ∈ fresh.arguments, s₁.heap.Allocated (.thunk u) := fun u hu =>
    (hup₁.valid.counted.live (.thunk u) (by simp [ObjectKind.holdings_closure, hu])).allocated
  refine .inspect ?_
  simp only [hclosure]
  rw [if_neg (by omega)]
  refine .step hrun hev ?_
  exact .of_ok (s := s₁.on (·.bindSelf fresh))
    (.bindSelf hup₁.valid (Multiset.subset_of_le (Multiset.le_add_left ..)) hempty _ _)
    (hup₁.bindSelf hfresh hopen (hknot _ _ _ hready hfresh hcopy.missing halloc) (hback _ _))
    ⟨object_withKnot, rfl⟩

end Run

end GraphReduction
