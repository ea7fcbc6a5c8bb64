import Mathlib
import GraphReduction.Proofs.Moves.Valid

/-! What moves leave alone. A closure that somebody else refers to keeps its arguments, and a
closure whose result is being computed stays so until the computation has ended. -/
namespace GraphReduction

namespace Heap

variable {m : Heap} {own : Multiset Holding} {o : ObjectId}

theorem Counted.one_lt_of_mem {cell : Edge} {n : Nat} (h : m.Counted (.strong cell ::ₘ own))
    (hheld : .strong cell ∈ own) (hn : m.recorded (.strong cell) = some n) : 1 < n := by
  have hcount := h.exact _ _ hn
  have := Multiset.count_pos.mpr hheld
  rw [Multiset.count_add, Multiset.count_cons_self] at hcount
  omega

theorem IsUnique.recorded (h : m.IsUnique o) :
    m.recorded (.strong (.object o)) = some 1 ∧ m.recorded (.weak o) = some 0 := by
  obtain ⟨x, hx, hhold⟩ := Option.map_eq_some_iff.mp h
  simp [Heap.recorded, hx, hhold, Hold.strong?, Hold.weak?]

theorem Counted.not_held_of_unique (h : m.Counted (.strong (.object o) ::ₘ own))
    (hunique : m.IsUnique o) :
    .strong (.object o) ∉ m.held + own ∧ .weak o ∉ m.held + own := by
  have hstrong := h.exact _ _ hunique.recorded.1
  have hweak := h.exact _ _ hunique.recorded.2
  rw [Multiset.add_cons, Multiset.count_cons_self] at hstrong
  rw [Multiset.add_cons, Multiset.count_cons_of_ne (by simp)] at hweak
  exact ⟨Multiset.count_eq_zero.mp (by omega), Multiset.count_eq_zero.mp hweak⟩

theorem contents_giveBack {loose : Loose} (h : m.Counted (loose.holding ::ₘ own)) :
    (m.giveBack loose).1.contents = m.contents ∨
      loose.holding ∉ own ∧ m.recorded loose.holding = some 1 ∧
        (m.giveBack loose).1.contents = (m.removeEdge loose.edge).contents := by
  obtain ⟨-, heq⟩ | ⟨n, -, -, heq⟩ | ⟨n, hn, hlast, hsame, -⟩ := m.giveBack_cases loose
  · exact .inl (by rw [heq])
  · exact .inl (by rw [heq]; exact contents_loseEdge m _)
  · refine .inr ⟨fun hmem => ?_, ?_, ?_⟩
    · have := h.one_lt_of_mem hmem hn
      omega
    · have := h.positive _ _ hn
      rw [Loose.holding, hn]
      congr 1
      omega
    · rw [hsame.contents]
      cases m.weakTarget? loose.edge <;> simp [Heap.releaseWeak?]

theorem kindOf?_giveBack {loose : Loose} (h : m.Counted (loose.holding ::ₘ own))
    (hheld : .strong (.object o) ∈ own) : (m.giveBack loose).1.kindOf? o = m.kindOf? o := by
  obtain hsame | ⟨hgone, -, hsame⟩ := contents_giveBack h
  · exact kindOf?_congr hsame o
  · rw [kindOf?_congr hsame, Valid.kindOf?_removeEdge, if_neg]
    intro heq
    exact hgone (by rwa [Loose.holding, heq])

theorem kindOf?_releaseAll {pending : List Loose}
    (h : m.Valid (↑(pending.map Loose.holding) + own)) (hheld : .strong (.object o) ∈ own) :
    (m.releaseAll pending).kindOf? o = m.kindOf? o := by
  have hend := releaseAll_invariant (P := fun m' pending =>
    m'.Valid (↑(pending.map Loose.holding) + own) ∧ m'.kindOf? o = m.kindOf? o)
    (fun m' loose rest h => ?_) ⟨h, rfl⟩
  · exact hend.2
  · obtain ⟨hvalid, hkind⟩ := h
    simp only [List.map_cons, ← Multiset.cons_coe, Multiset.cons_add] at hvalid
    refine ⟨?_, ?_⟩
    · have hnext := hvalid.giveBack
      rwa [List.map_append, List.map_reverse, ← Multiset.coe_add, Multiset.coe_reverse, add_assoc]
    · rw [kindOf?_giveBack hvalid.counted (Multiset.mem_add.mpr (.inr hheld)), hkind]

theorem kindOf?_release {h : Handle} (hvalid : m.Valid (h.holding ::ₘ own))
    (hheld : .strong (.object o) ∈ own) : (m.release h).kindOf? o = m.kindOf? o :=
  kindOf?_releaseAll (by simpa [Loose.holding, Handle.holding] using hvalid) hheld

theorem kindOf?_releases {gone : List Handle} (h : m.Valid (↑(gone.map Handle.holding) + own))
    (hheld : .strong (.object o) ∈ own) :
    (gone.foldl (·.release ·) m).kindOf? o = m.kindOf? o := by
  induction gone generalizing m with
  | nil => rfl
  | cons g gone ih =>
    simp only [List.map_cons, ← Multiset.cons_coe, Multiset.cons_add] at h
    rw [List.foldl_cons, ih h.release,
      kindOf?_release h (Multiset.mem_add.mpr (.inr hheld))]

theorem kindOf?_newObject (m : Heap) (kind : ObjectKind) (o : ObjectId) :
    (m.newObject kind).2.kindOf? o = if o = m.nextObject then some kind else m.kindOf? o := by
  simp only [kindOf?, object?_newObject]
  split <;> rfl

theorem ne_nextObject {kind : ObjectKind} (h : m.kindOf? o = some kind) : o ≠ m.nextObject := by
  rintro rfl
  exact (grows_newObject m kind).fresh (isLive_of_kindOf? h).allocated

theorem kindOf?_bindSelf (m : Heap) (fresh : Closure) (o : ObjectId) :
    (m.bindSelf fresh).kindOf? o =
      if o = m.nextObject then some (.closure (fresh.fill (m.newThunk (.recursive o)).1))
      else m.kindOf? o := by
  simp only [Heap.bindSelf, kindOf?_congr (contents_retainWeak _ _)]
  rw [kindOf?_newObject]
  rfl

theorem stateOf?_newThunk (m : Heap) (state : ThunkState) (t : ThunkId) :
    (m.newThunk state).2.stateOf? t = if t = ⟨m.thunks.next⟩ then some state else m.stateOf? t := by
  simp only [stateOf?, thunk?_newThunk]
  split <;> rfl

theorem stateOf?_setThunkState (m : Heap) (t u : ThunkId) (state : ThunkState) :
    (m.setThunkState t state).stateOf? u =
      if u = t then (m.stateOf? u).map fun _ => state else m.stateOf? u := by
  simp only [stateOf?, thunk?_setThunkState]
  split <;> simp [Function.comp_def]

theorem stateOf?_bindSelf (m : Heap) (fresh : Closure) (t : ThunkId) :
    (m.bindSelf fresh).stateOf? t =
      if t = ⟨m.thunks.next⟩ then some (.recursive m.nextObject) else m.stateOf? t := by
  simp only [Heap.bindSelf, stateOf?_congr (contents_retainWeak _ _)]
  exact stateOf?_newThunk m (.recursive m.nextObject) t

theorem kindOf?_setMemo (m : Heap) (o p : ObjectId) (memo : Memo) :
    (m.setMemo o memo).kindOf? p =
      if p = o then (m.kindOf? p).map fun
        | .closure c => .closure { c with memo }
        | kind => kind
      else m.kindOf? p := by
  simp only [kindOf?, setMemo, object?, Arena.get?_update, index_inj]
  split
  · cases m.objects.get? p.index with
    | none => rfl
    | some x => rcases x with ⟨hold, _ | c | _ | _⟩ <;> rfl
  · rfl

theorem kindOf?_tie {knot : ObjectId} (m : Heap) (value : Handle) (hne : o ≠ knot) :
    (m.tie knot value).kindOf? o = m.kindOf? o := by
  unfold tie
  split
  · rw [Valid.kindOf?_setKind, if_neg hne]
  · rw [Valid.kindOf?_setKind, if_neg hne, kindOf?_congr (contents_retainWeak _ _)]

/-! What is held is not new -/

theorem Valid.ne_nextObject (hvalid : m.Valid own) (hheld : .strong (.object o) ∈ m.held + own) :
    o ≠ m.nextObject := by
  rintro rfl
  exact (grows_newObject m (.exception .blackHole)).fresh (hvalid.counted.live _ hheld).allocated

theorem Valid.ne_nextObject_of_weak (hvalid : m.Valid own) (hheld : .weak o ∈ m.held + own) :
    o ≠ m.nextObject := by
  rintro rfl
  exact (grows_newObject m (.exception .blackHole)).fresh (hvalid.counted.allocated _ hheld)

theorem ne_nextThunk {t : ThunkId} (halloc : m.Allocated (.thunk t)) : t ≠ ⟨m.thunks.next⟩ := by
  rintro rfl
  exact (grows_newThunk m (.recursive ⟨0⟩)).fresh halloc

theorem Valid.ne_nextThunk {t : ThunkId} (hvalid : m.Valid own)
    (hheld : .strong (.thunk t) ∈ m.held + own) : t ≠ ⟨m.thunks.next⟩ :=
  Heap.ne_nextThunk (hvalid.counted.live _ hheld).allocated

theorem Valid.library_ne_nextObject (hvalid : m.Valid own) (p : Primitive) :
    (⟨p.place⟩ : ObjectId) ≠ m.nextObject := by
  intro heq
  refine (grows_newObject m (.exception .blackHole)).fresh ?_
  rw [← heq]
  exact (hvalid.library.live p).allocated

/-! Places given out stay so, and objects stay static or counted. -/

@[simp] theorem allocated_setKind (m : Heap) (o : ObjectId) (kind : ObjectKind) (cell : Edge) :
    (m.setKind o kind).Allocated cell ↔ m.Allocated cell := by
  cases cell <;> simp [Allocated, setKind]

@[simp] theorem allocated_setMemo (m : Heap) (o : ObjectId) (memo : Memo) (cell : Edge) :
    (m.setMemo o memo).Allocated cell ↔ m.Allocated cell := by
  cases cell <;> simp [Allocated, setMemo]

@[simp] theorem allocated_setThunkState (m : Heap) (t : ThunkId) (state : ThunkState)
    (cell : Edge) : (m.setThunkState t state).Allocated cell ↔ m.Allocated cell := by
  cases cell <;> simp [Allocated, setThunkState]

@[simp] theorem allocated_giveBack (m : Heap) (loose : Loose) (cell : Edge) :
    (m.giveBack loose).1.Allocated cell ↔ m.Allocated cell := by
  obtain ⟨-, heq⟩ | ⟨n, -, -, heq⟩ | ⟨n, -, -, hsame, -⟩ := m.giveBack_cases loose
  · rw [heq]
  · rw [heq, allocated_congr (contents_loseEdge m _)]
  · rw [allocated_congr hsame.contents]
    cases m.weakTarget? loose.edge with
    | none => exact allocated_removeEdge m _ _
    | some o =>
      rw [Heap.releaseWeak?, allocated_congr (contents_releaseWeak _ o)]
      exact allocated_removeEdge m _ _

@[simp] theorem allocated_releases (m : Heap) (gone : List Handle) (cell : Edge) :
    (gone.foldl (·.release ·) m).Allocated cell ↔ m.Allocated cell := by
  induction gone generalizing m with
  | nil => rfl
  | cons g gone ih =>
    rw [List.foldl_cons, ih]
    exact releaseAll_invariant (P := fun m' _ => m'.Allocated cell ↔ m.Allocated cell)
      (fun _ _ _ h => (allocated_giveBack _ _ _).trans h) Iff.rfl

@[simp] theorem allocated_tie (m : Heap) (knot : ObjectId) (value : Handle) (cell : Edge) :
    (m.tie knot value).Allocated cell ↔ m.Allocated cell := by
  unfold tie
  split
  · simp
  · rw [allocated_setKind, allocated_congr (contents_retainWeak _ _)]

theorem allocated_newObject {cell : Edge} (kind : ObjectKind) (h : m.Allocated cell) :
    (m.newObject kind).2.Allocated cell :=
  ((grows_newObject m kind).allocated cell).mpr (.inr h)

theorem allocated_bindSelf {cell : Edge} (fresh : Closure) (h : m.Allocated cell) :
    (m.bindSelf fresh).Allocated cell := by
  simp only [Heap.bindSelf]
  rw [allocated_congr (contents_retainWeak _ _)]
  exact allocated_newObject _
    (((grows_newThunk m (.recursive m.nextObject)).allocated cell).mpr (.inr h))

theorem isStatic_iff {h : Handle} :
    m.isStatic h = true ↔ m.IsLive h.edge ∧ m.recorded h.holding = none := by
  simp only [isStatic, Handle.holding, Handle.edge, IsLive, recorded]
  rcases m.object? h.target with _ | ⟨_ | _, _⟩ <;> simp [Object.isStatic, Hold.strong?]

theorem isStatic_congr {m' : Heap} (hsame : m'.contents = m.contents) {h : Handle}
    (hrecorded : m'.recorded h.holding = none ↔ m.recorded h.holding = none) :
    m'.isStatic h = true ↔ m.isStatic h = true := by
  rw [isStatic_iff, isStatic_iff, isLive_congr hsame, hrecorded]

theorem isStatic_retainEdge (m : Heap) (cell : Edge) (h : Handle) :
    (m.retainEdge cell).isStatic h = true ↔ m.isStatic h = true :=
  isStatic_congr (contents_retainEdge m cell) (by rw [recorded_retainEdge]; split <;> simp)

theorem isStatic_retainWeak (m : Heap) (o : ObjectId) (h : Handle) :
    (m.retainWeak o).isStatic h = true ↔ m.isStatic h = true :=
  isStatic_congr (contents_retainWeak m o) (by rw [recorded_retainWeak]; split <;> simp)

theorem isStatic_releaseWeak (m : Heap) (o : ObjectId) (h : Handle) :
    (m.releaseWeak o).isStatic h = true ↔ m.isStatic h = true :=
  isStatic_congr (contents_releaseWeak m o) (by rw [recorded_releaseWeak]; split <;> simp)

theorem isStatic_giveBack (m : Heap) (loose : Loose) (h : Handle) :
    (m.giveBack loose).1.isStatic h = true ↔ m.isStatic h = true := by
  obtain ⟨-, heq⟩ | ⟨n, -, -, heq⟩ | ⟨n, hn, -, hsame, -⟩ := m.giveBack_cases loose
  · rw [heq]
  · rw [heq]
    exact isStatic_congr (contents_loseEdge m _) (by rw [recorded_loseEdge]; split <;> simp)
  · have hremoved : (m.removeEdge loose.edge).isStatic h = true ↔ m.isStatic h = true := by
      rw [isStatic_iff, isStatic_iff, isLive_removeEdge, recorded_removeEdge]
      by_cases hsame : loose.edge = h.edge
      · rw [hsame] at hn
        simp [hsame, Handle.holding, hn]
      · simp [Handle.holding, Ne.symm hsame]
    rw [← hremoved, isStatic_congr hsame.contents (by rw [hsame.recorded])]
    cases m.weakTarget? loose.edge with
    | none => rfl
    | some o => exact isStatic_releaseWeak _ o h

theorem isStatic_setKind (m : Heap) (o : ObjectId) (kind : ObjectKind) (h : Handle) :
    (m.setKind o kind).isStatic h = true ↔ m.isStatic h = true := by
  simp only [isStatic, object?_setKind]
  split
  · rw [Option.map_map]
    rfl
  · rfl

end Heap

namespace Moves

open Heap

variable {lent : Set Edge} {s s' : Machine} {own own' : Multiset Holding}

/-- What may become of an object that somebody refers to: results are written into empty memos, and
nothing else changes. -/
def Kept : ObjectKind → ObjectKind → Prop
  | .closure c, kind => ∃ memo, kind = .closure { c with memo } ∧ (c.memo ≠ .empty → memo = c.memo)
  | .application (.pending f x), kind =>
    kind = .application (.pending f x) ∨ ∃ r, kind = .application (.reduced r)
  | kind, kind' => kind' = kind

theorem Kept.refl (kind : ObjectKind) : Kept kind kind := by
  rcases kind with v | c | (⟨f, x⟩ | r | k) | e
  · rfl
  · exact ⟨c.memo, rfl, fun _ => rfl⟩
  · exact .inl rfl
  · rfl
  · rfl
  · rfl

theorem Kept.trans {kind kind' kind'' : ObjectKind} (h : Kept kind kind') (h' : Kept kind' kind'') :
    Kept kind kind'' := by
  rcases kind with v | c | (⟨f, x⟩ | r | k) | e
  · cases h
    exact h'
  · obtain ⟨memo, rfl, hmemo⟩ := h
    obtain ⟨memo', rfl, hmemo'⟩ := h'
    refine ⟨memo', rfl, fun hfull => ?_⟩
    have hsame := hmemo hfull
    rw [hmemo' (by rwa [hsame]), hsame]
  · rcases h with rfl | ⟨r, rfl⟩
    · exact h'
    · cases h'
      exact .inr ⟨r, rfl⟩
  · cases h
    exact h'
  · cases h
    exact h'
  · cases h
    exact h'

theorem Kept.of_eq {m : Heap} {o : ObjectId} {kind : ObjectKind} (h : m.kindOf? o = some kind) :
    ∃ kind', m.kindOf? o = some kind' ∧ Kept kind kind' :=
  ⟨kind, h, .refl kind⟩

theorem kind_kept (h : Moves lent s own s' own') (rest : Multiset Holding)
    (hvalid : s.heap.Valid (own + rest)) {o : ObjectId} {kind : ObjectKind}
    (hheld : .strong (.object o) ∈ rest) (hkind : s.heap.kindOf? o = some kind) :
    ∃ kind', s'.heap.kindOf? o = some kind' ∧ Kept kind kind' := by
  induction h generalizing rest kind with
  | refl => exact Kept.of_eq hkind
  | trans h _ ih ih' =>
    obtain ⟨kind₁, hkind₁, hkept⟩ := ih rest hvalid hheld hkind
    obtain ⟨kind₂, hkind₂, hkept'⟩ := ih' rest (h.valid rest hvalid) hheld hkind₁
    exact ⟨kind₂, hkind₂, hkept.trans hkept'⟩
  | frame other _ ih =>
    rw [add_assoc] at hvalid
    exact ih _ hvalid (Multiset.mem_add.mpr (.inr hheld)) hkind
  | lend _ _ ih => exact ih rest hvalid hheld hkind
  | drawn | noted | raised | copied | forgot | dangled => exact Kept.of_eq hkind
  | retain cell | upgrade o =>
    exact Kept.of_eq (by rw [Machine.heap_on, kindOf?_congr (contents_retainEdge _ _), hkind])
  | retainWeak o =>
    exact Kept.of_eq (by rw [Machine.heap_on, kindOf?_congr (contents_retainWeak _ _), hkind])
  | releaseWeak o =>
    exact Kept.of_eq (by rw [Machine.heap_on, kindOf?_congr (contents_releaseWeak _ _), hkind])
  | @dropped lent s own loose =>
    have hpending : s.heap.Valid (↑([loose].map Loose.holding) + (own + rest)) := by
      simpa using hvalid
    exact Kept.of_eq ((kindOf?_releaseAll hpending (Multiset.mem_add.mpr (.inr hheld))).trans hkind)
  | newObject made =>
    refine Kept.of_eq ?_
    rw [Machine.heap_on, kindOf?_newObject, if_neg (ne_nextObject hkind), hkind]
  | newThunk state => exact Kept.of_eq hkind
  -- `fill` writes a unique object, which the holder in `rest` shows `o` not to be.
  | @fill lent s own p d t hkind' hunique =>
    have hne : o ≠ p := by
      rintro rfl
      rw [Multiset.cons_swap, Multiset.cons_add] at hvalid
      have hnot := (hvalid.counted.not_held_of_unique hunique).1
      simp only [Multiset.mem_add] at hnot
      tauto
    exact Kept.of_eq (by rw [Machine.heap_on, Valid.kindOf?_setKind, if_neg hne, hkind])
  | bindSelf fresh =>
    refine Kept.of_eq ?_
    rw [Machine.heap_on, kindOf?_bindSelf, if_neg (ne_nextObject hkind), hkind]
  | @memoNode s s₁ post p f x f' x' r hnode _ hnode' ih =>
    rw [zero_add] at hvalid
    obtain ⟨kind₁, hkind₁, hkept⟩ := ih rest (hvalid.takeOperands hnode) hheld
      (by rwa [Machine.heap_on, kindOf?_congr (contents_retainEdge _ _),
        kindOf?_congr (contents_retainEdge _ _)])
    rw [Machine.heap_on, Valid.kindOf?_setKind]
    split
    · next hsame =>
      subst hsame
      rw [hnode] at hkind
      cases hkind
      exact ⟨.application (.reduced r), by rw [hkind₁]; rfl, .inr ⟨r, rfl⟩⟩
    · exact ⟨kind₁, hkind₁, hkept⟩
  | @memoThunk s s₁ post t x x' r hstate _ _ hstate' ih =>
    rw [zero_add] at hvalid
    exact ih rest (hvalid.takeSuspended hstate) hheld
      (by rwa [Machine.heap_on, kindOf?_congr (contents_retainEdge _ _)])
  | @memoClosure s s₁ post p d r hclosure hmissing hmemo _ hclosure' ih =>
    by_cases hsame : o = p
    · subst hsame
      rw [hclosure] at hkind
      cases hkind
      refine ⟨.closure { d with memo := .done r }, ?_, .done r, rfl, fun hfull => absurd hmemo hfull⟩
      rw [Machine.heap_on, kindOf?_setMemo, if_pos rfl, hclosure']
      rfl
    · obtain ⟨kind₁, hkind₁, hkept⟩ := ih rest (hvalid.startMemo hclosure hmemo) hheld
        (by rwa [Machine.heap_begin, kindOf?_setMemo, if_neg hsame])
      exact ⟨kind₁, by rw [Machine.heap_on, kindOf?_setMemo, if_neg hsame, hkind₁], hkept⟩
  | @memoFailed s s₁ post p d hclosure hmissing hmemo _ hclosure' ih =>
    by_cases hsame : o = p
    · subst hsame
      rw [hclosure] at hkind
      cases hkind
      refine ⟨.closure { d with memo := .empty }, ?_, .empty, rfl, fun hfull => absurd hmemo hfull⟩
      rw [Machine.heap_on, kindOf?_setMemo, if_pos rfl, hclosure']
      rfl
    · obtain ⟨kind₁, hkind₁, hkept⟩ := ih rest (hvalid.startMemo hclosure hmemo) hheld
        (by rwa [Machine.heap_begin, kindOf?_setMemo, if_neg hsame])
      exact ⟨kind₁, by rw [Machine.heap_on, kindOf?_setMemo, if_neg hsame, hkind₁], hkept⟩
  | @tied lent s own s₁ own₁ value gone h hknot hlive ih =>
    have hmade : (s.on fun m => (m.newObject (.application (.knot .unresolved))).2).heap.Valid
        (.strong (.object s.heap.nextObject) ::ₘ own + rest) := by
      simpa using hvalid.newKnot
    obtain ⟨kind₁, hkind₁, hkept⟩ := ih rest hmade hheld
      (by rwa [Machine.heap_on, kindOf?_newObject, if_neg (ne_nextObject hkind)])
    refine ⟨kind₁, ?_, hkept⟩
    rw [Machine.heap_push, Machine.heap_on,
      kindOf?_releases ((h.valid rest hmade).endTie hknot hlive)
        (Multiset.mem_add.mpr (.inr hheld)),
      kindOf?_tie _ _ (ne_nextObject hkind), hkind₁]

theorem bodyOf?_giveBack {m : Heap} {loose : Loose} {c : CombinatorId} {body : Body Handle}
    (h : (m.giveBack loose).1.bodyOf? c = some body) : m.bodyOf? c = some body := by
  obtain ⟨-, heq⟩ | ⟨n, -, -, heq⟩ | ⟨n, -, -, hsame, -⟩ := m.giveBack_cases loose
  · rwa [heq] at h
  · rwa [heq, bodyOf?_congr (contents_loseEdge m _)] at h
  · have hcontents : (m.giveBack loose).1.contents = (m.removeEdge loose.edge).contents := by
      rw [hsame.contents]
      cases m.weakTarget? loose.edge <;> simp [Heap.releaseWeak?]
    rw [bodyOf?_congr hcontents, Valid.bodyOf?_removeEdge] at h
    split at h
    · cases h
    · exact h

theorem bodyOf?_releaseAll {m : Heap} {pending : List Loose} {c : CombinatorId} {body : Body Handle}
    (h : (m.releaseAll pending).bodyOf? c = some body) : m.bodyOf? c = some body :=
  releaseAll_invariant (P := fun m' _ => m'.bodyOf? c = some body → m.bodyOf? c = some body)
    (fun _ _ _ hold hnew => hold (bodyOf?_giveBack hnew)) id h

theorem bodyOf?_releases {m : Heap} {gone : List Handle} {c : CombinatorId} {body : Body Handle}
    (h : (gone.foldl (·.release ·) m).bodyOf? c = some body) : m.bodyOf? c = some body := by
  induction gone generalizing m with
  | nil => exact h
  | cons g gone ih =>
    exact bodyOf?_releaseAll (ih h)

theorem body_kept (h : Moves lent s own s' own') {c : CombinatorId} {body : Body Handle}
    (hbody : s'.heap.bodyOf? c = some body) : s.heap.bodyOf? c = some body := by
  induction h with
  | refl => exact hbody
  | trans _ _ ih ih' => exact ih (ih' hbody)
  | frame _ _ ih | lend _ _ ih => exact ih hbody
  | drawn | noted | raised | copied | forgot | dangled | newObject | newThunk | fill | bindSelf =>
    exact hbody
  | retain | upgrade => rwa [Machine.heap_on, bodyOf?_congr (contents_retainEdge _ _)] at hbody
  | retainWeak => rwa [Machine.heap_on, bodyOf?_congr (contents_retainWeak _ _)] at hbody
  | releaseWeak => rwa [Machine.heap_on, bodyOf?_congr (contents_releaseWeak _ _)] at hbody
  | dropped loose => exact bodyOf?_releaseAll hbody
  | memoNode _ _ _ ih =>
    have h := ih hbody
    rwa [Machine.heap_on, bodyOf?_congr (contents_retainEdge _ _),
      bodyOf?_congr (contents_retainEdge _ _)] at h
  | memoThunk _ _ _ _ ih =>
    have h := ih hbody
    rwa [Machine.heap_on, bodyOf?_congr (contents_retainEdge _ _)] at h
  | memoClosure _ _ _ _ _ ih | memoFailed _ _ _ _ _ ih => exact ih hbody
  | @tied _ s _ s₁ _ value gone _ _ _ ih =>
    have htied : (s₁.heap.tie s.heap.nextObject value).bodyOf? c = s₁.heap.bodyOf? c := by
      unfold Heap.tie
      split <;> rfl
    exact ih (htied ▸ bodyOf?_releases hbody)

end Moves

end GraphReduction
