import Mathlib
import GraphReduction.Proofs.Contexts.Spine

/-! Copies of objects. A copy is a new object with the content of the original, and all that was
there is as it was. What was there does not lead to the copy, so whatever is evaluated of it leaves
the copy alone; and a back edge of a fixpoint that leads somewhere is a reference like any other in
the copy. -/
namespace GraphReduction

open Heap Run

/-- From `m` to `m'` the object `o` has been made, with this content and one reference to it. -/
structure Heap.Made (m : Heap) (kind : ObjectKind) (o : ObjectId) (m' : Heap) : Prop where
  fresh : ¬ m.Allocated (.object o)
  kind : m'.kindOf? o = some kind
  count : m'.recorded (.strong (.object o)) = some 1
  others : m.Extends m'

/-- A result that is still being computed is not in the copy. -/
def Memo.CopyOf : Memo → Memo → Prop
  | memo', .running => memo' = .empty
  | memo', memo => memo' = memo

/-- What a slot has in a copy if it has held a back edge that leads somewhere. -/
def Closure.OwnsBack (m m' : Heap) (slot' slot : Option ThunkId) : Prop :=
  ∀ t o, slot = some t → m.backEdge? t = some o → m.IsLive (.object o) →
    ∃ t', slot' = some t' ∧ m'.stateOf? t' = some (.forced (.plain o))

/-- The same content, but for what is different in the slots and the result of a closure. The
original is in the heap `m`, and the copy in `m'`. -/
def ObjectKind.CopyOf (m m' : Heap) : ObjectKind → ObjectKind → Prop
  | .closure c', .closure c => c'.CopyOf m' c ∧ c'.memo.CopyOf c.memo ∧
    List.Forall₂ (Closure.OwnsBack m m') c'.slots.toList c.slots.toList
  | kind', kind => kind' = kind

variable {s s' : Machine} {m m' m'' m₁ : Heap} {own rest : Multiset Holding} {c fresh : Closure}
  {h : Handle} {o : ObjectId} {t : ThunkId} {kind : ObjectKind}

namespace Heap

theorem made_newObject (kind : ObjectKind) (hext : m.Extends m₁) :
    m.Made kind m₁.nextObject (m₁.newObject kind).2 where
  fresh halloc := (grows_newObject m₁ kind).fresh (hext.allocated _ halloc)
  kind := (kindOf?_newObject ..).trans (if_pos rfl)
  count := by simp [recorded, newObject, Hold.strong?]
  others := IsGrowth.trans hext (extends_addObject m₁ _ kind)

theorem Extends.application? {a : Application} (hext : m.Extends m')
    (hnode : m.application? h = some a) : m'.application? h = some a := by
  have hkind := kindOf?_of_application? hnode
  have hsame := (hext.kind _ _ hkind).trans hkind.symm
  simp only [kindOf?] at hsame
  rw [← hnode]
  simp [Heap.application?, plainKind?, kind?, hsame]

/-- Back edges that lead somewhere stay as they are where nothing is taken away. -/
theorem Extends.backEdge? (hext : m.Extends m') (hback : m.backEdge? t = some o)
    (hlive : m.IsLive (.object o)) : m'.backEdge? t = some o := by
  have halive : m'.isAlive o = true := hext.isLive hlive
  rw [Heap.backEdge?] at hback ⊢
  cases hstate : m.stateOf? t with
  | none => simp [hstate] at hback
  | some state =>
    rw [hext.state t state hstate]
    cases state with
    | forced r => simp [hstate] at hback
    | recursive p =>
      obtain rfl : p = o := by
        rw [hstate] at hback
        dsimp only at hback
        split at hback <;> cases hback
        rfl
      simp [halive]
    | pending x =>
      rw [hstate] at hback
      dsimp only at hback ⊢
      cases hnode : m.application? x with
      | none => simp [hnode] at hback
      | some a =>
        rw [hext.application? hnode]
        rwa [hnode] at hback

end Heap

theorem Application.duplicate_same {a a' : Application} (hrun : a.duplicate s = .ok a' s') :
    a' = a := by
  cases a with
  | pending f x =>
    cases hrun
    rfl
  | reduced r =>
    cases hrun
    rfl
  | knot k =>
    cases k <;> cases hrun <;> rfl

theorem Closure.copy_memo (hrun : c.copy s = .ok fresh s') : fresh.memo.CopyOf c.memo := by
  rw [copy, bind_run] at hrun
  cases hslots : c.slots.toList.mapM copySlot s with
  | error signal s₁ => simp [hslots] at hrun
  | ok slots s₁ =>
    rw [hslots] at hrun
    cases hmemo : c.memo <;> simp only [hmemo, bind_run, change_run, copyMemo, share_run, pure_run]
      at hrun <;> cases hrun <;> rfl

/-! Back edges -/

namespace ThunkId

theorem copyTarget?_of_backEdge (hback : s.heap.backEdge? t = some o)
    (hlive : s.heap.IsLive (.object o)) :
    t.copyTarget? s = .ok (some (.plain o)) (s.on (·.retain (.plain o))) := by
  have halive : s.heap.isAlive o = true := hlive
  rw [Heap.backEdge?] at hback
  cases hstate : s.heap.stateOf? t with
  | none => simp [hstate] at hback
  | some state =>
    cases state with
    | forced r => simp [hstate] at hback
    | recursive p =>
      obtain rfl : p = o := by
        rw [hstate] at hback
        dsimp only at hback
        split at hback <;> cases hback
        rfl
      simp only [copyTarget?, bind_run, state?_run, hstate, inspect_run, halive, if_true,
        Run.share_run, pure_run]
      rfl
    | pending x =>
      rw [hstate] at hback
      dsimp only at hback
      cases hnode : s.heap.application? x with
      | none => simp [hnode] at hback
      | some a =>
        rw [hnode] at hback
        cases a with
        | pending | reduced => cases hback
        | knot k =>
          cases k with
          | unresolved | strong => cases hback
          | weak p =>
            cases hback
            simp only [copyTarget?, bind_run, state?_run, hstate, inspect_run, hnode,
              Application.knotValue?, Knot.value?, upgrade, halive, if_true, Run.share_run, pure_run]
            rfl

end ThunkId

namespace Closure

theorem OwnsBack.extends {slot slot' : Option ThunkId} (howns : OwnsBack m₁ m' slot' slot)
    (hbefore : m.Extends m₁) (hafter : m'.Extends m'') : OwnsBack m m'' slot' slot := by
  intro t o hslot hback hlive
  obtain ⟨t', hslot', hstate⟩ := howns t o hslot (hbefore.backEdge? hback hlive)
    (hbefore.isLive hlive)
  exact ⟨t', hslot', hafter.state _ _ hstate⟩

theorem copySlot_owns {slot slot' : Option ThunkId} (hrun : copySlot slot s = .ok slot' s') :
    OwnsBack s.heap s'.heap slot' slot := by
  rintro t o rfl hback hlive
  simp only [copySlot, ThunkId.forCopy, bind_run, ThunkId.copyTarget?_of_backEdge hback hlive]
    at hrun
  cases hrun
  exact ⟨_, rfl, (stateOf?_newThunk ..).trans (if_pos rfl)⟩

theorem copySlots_own {slots slots' : List (Option ThunkId)}
    (hrun : slots.mapM copySlot s = .ok slots' s') :
    List.Forall₂ (OwnsBack s.heap s'.heap) slots' slots := by
  induction slots generalizing s slots' with
  | nil =>
    cases hrun
    exact .nil
  | cons slot slots ih =>
    rw [List.mapM_cons, bind_run] at hrun
    cases hslot : copySlot slot s with
    | error signal s₁ => simp [hslot] at hrun
    | ok slot' s₁ =>
      rw [hslot] at hrun
      dsimp only at hrun
      rw [bind_run] at hrun
      cases hslots : slots.mapM copySlot s₁ with
      | error signal s₂ => simp [hslots] at hrun
      | ok rest' s₂ =>
        have hfirst : s.heap.Extends s₁.heap := (copySlot_along slot).of_ok hslot
        have hothers : s₁.heap.Extends s₂.heap := (Along.mapM copySlot_along slots).of_ok hslots
        rw [hslots] at hrun
        cases hrun
        exact .cons ((copySlot_owns hslot).extends (IsGrowth.refl _) hothers)
          ((ih hslots).imp fun _ _ howns => howns.extends hfirst (IsGrowth.refl _))

theorem copy_owns (hrun : c.copy s = .ok fresh s') :
    List.Forall₂ (OwnsBack s.heap s'.heap) fresh.slots.toList c.slots.toList := by
  obtain ⟨slots, s₁, hslots, hext, -, -, hfresh⟩ := copy_slots hrun
  rw [hfresh]
  exact (copySlots_own hslots).imp fun _ _ howns => howns.extends (IsGrowth.refl _) hext

end Closure

theorem Run.cloneObject_copies (hvalid : s.heap.Valid rest) (hheld : h.holding ∈ rest)
    (hkind : s.heap.kindOf? h.target = some kind) :
    ∃ o kind' s', cloneObject h s = .ok ⟨h.tag, o⟩ s' ∧ s.heap.Made kind' o s'.heap ∧
      kind'.CopyOf s.heap s'.heap kind := by
  have hgives : Gives rest {h.edge} s 0 (cloneObject h) _ := cloneObject_gives rfl hheld
  obtain ⟨r, s', hrun, -⟩ := hgives (by rwa [zero_add])
  have hlook : s.heap.kind? h = some kind := hkind
  have hend := hrun
  rw [cloneObject, bind_run, inspect_run] at hend
  dsimp only at hend
  rw [hlook] at hend
  cases kind with
  | value v =>
    dsimp only at hend
    rw [bind_run] at hend
    cases hparts : (v.payload.handles.forM fun part => change (·.retain part)) s with
    | error signal s₁ => simp [hparts] at hend
    | ok _ s₁ =>
      rw [hparts] at hend
      cases hend
      have hext : s.heap.Extends s₁.heap := (Along.forM retain_along _).of_ok hparts
      exact ⟨_, _, _, hrun, made_newObject (.value v) hext, rfl⟩
  | closure c =>
    dsimp only at hend
    rw [bind_run] at hend
    cases hcopy : c.copy s with
    | error signal s₁ => simp [hcopy] at hend
    | ok fresh s₁ =>
      rw [hcopy] at hend
      cases hend
      have hext := Closure.copy_extends hcopy
      have hadd := extends_addObject s₁.heap (.shared 1 0) (.closure fresh)
      exact ⟨_, _, _, hrun, made_newObject (.closure fresh) hext,
        (Closure.copy_copyOf hcopy).extends hadd, Closure.copy_memo hcopy,
        (Closure.copy_owns hcopy).imp fun _ _ howns => howns.extends (IsGrowth.refl _) hadd⟩
  | application a =>
    dsimp only at hend
    rw [bind_run] at hend
    cases hdup : a.duplicate s with
    | error signal s₁ => simp [hdup] at hend
    | ok a' s₁ =>
      rw [hdup] at hend
      cases hend
      have hext : s.heap.Extends s₁.heap := (Application.duplicate_along a).of_ok hdup
      obtain rfl := Application.duplicate_same hdup
      exact ⟨_, _, _, hrun, made_newObject (.application a') hext, rfl⟩
  | exception e =>
    cases hend
    exact ⟨_, _, _, hrun, made_newObject (.exception e) (IsGrowth.refl s.heap), rfl⟩

/-- A copy and its original are not in each other's way: what is evaluated of the original leaves the
copy alone, and so it is the other way round unless the copy itself leads to the original. -/
theorem Evaluator.reduceUpTo_copy (options : Options) (depth : Nat) (hup : s.heap.Upright rest)
    (hheld : h.holding ∈ rest) (hhonest : s.heap.Honest h) (hintact : s.heap.Intact)
    (hkind : s.heap.kindOf? h.target = some kind) :
    ∃ o kind' s', cloneObject h s = .ok ⟨h.tag, o⟩ s' ∧ s.heap.Made kind' o s'.heap ∧
      kind'.CopyOf s.heap s'.heap kind ∧
      (ended (reduceUpTo options depth h s')).heap.kindOf? o = some kind' ∧
      (¬ s'.heap.Reaches ⟨h.tag, o⟩ h.edge →
        (ended (reduceUpTo options depth ⟨h.tag, o⟩ s')).heap.kindOf? h.target = some kind) := by
  obtain ⟨o, kind', s', hrun, hmade, hcopy⟩ := cloneObject_copies hup.valid hheld hkind
  obtain ⟨r, s₁, hsame, hspares, hup', hhonest'⟩ := cloneObject_produces hup hheld hhonest
  obtain ⟨rfl, rfl⟩ : r = ⟨h.tag, o⟩ ∧ s₁ = s' := by
    rw [hrun] at hsame
    cases hsame
    exact ⟨rfl, rfl⟩
  have hpreserves : Preserves ∅ s.heap s₁.heap := .of_extends hmade.others
  have hintact' : s₁.heap.Intact := hpreserves.intact hintact (by simp)
  have hlive : s.heap.IsLive h.edge := isLive_of_kindOf? hkind
  have hkind' : s₁.heap.kindOf? h.target = some kind := hmade.others.kind _ _ hkind
  refine ⟨o, kind', s₁, hrun, hmade, hcopy, ?_, fun hout => ?_⟩
  · have hlasts : s₁.heap.Honest h := (hspares.lasts (o := h.target) hheld).honest hhonest
    have hunchanged : s.heap.Unchanged s₁.heap h :=
      hpreserves.unchanged hup.valid.counted hlive (by simp)
    have hout : ¬ s₁.heap.Reaches h (.object o) := fun hreached =>
      hmade.fresh ((hunchanged.reaches hreached).allocated hup.valid.counted hlive)
    have hcell := (reduceUpTo_confined options depth hup' (Multiset.mem_add.mpr (.inr hheld)) hlasts
      hintact').2 (.object o) (isLive_of_kindOf? hmade.kind).allocated
    rw [kindOf?_of_content? (hcell.2 fun hreached => absurd hreached hout), hmade.kind]
  · have hcell := (reduceUpTo_confined options depth hup' (by simp) hhonest' hintact').2
      h.edge (isLive_of_kindOf? hkind').allocated
    rw [kindOf?_of_content? (hcell.2 fun hreached => absurd hreached hout), hkind']

end GraphReduction
