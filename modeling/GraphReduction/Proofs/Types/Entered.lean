import Mathlib
import GraphReduction.Proofs.Heap.Cascade
import GraphReduction.Proofs.Types.Principal
import GraphReduction.Proofs.Types.Tour

/-! Every tour comes to its end. The walk knows only objects that are there, none of them twice, and
it goes on only from an object that it did not know before, so there are always fewer objects left
than layers. What it enters are the objects that the type depends on. -/
namespace GraphReduction

open Heap Walk

namespace Walk

variable {m : Heap} {w w' : Walk} {o : ObjectId}

/-- What the walk knows is there, and nothing is known twice. -/
structure Fitting (m : Heap) (w : Walk) : Prop where
  nodup : (w.seen.map Prod.fst).Nodup
  alive : ∀ o, w.Knows o → (m.kind? (.plain o)).isSome

theorem Fitting.length_le (h : w.Fitting m) : w.seen.length ≤ m.objects.next :=
  length_seen_le h.nodup h.alive

theorem Fitting.meet (h : w.Fitting m) {kind : ObjectKind} (hkind : m.kindOf? o = some kind)
    (hnew : ¬ w.Knows o) : (w.meet o).Fitting m where
  nodup := List.nodup_cons.2 ⟨fun ho => hnew (knows_iff.2 ho), h.nodup⟩
  alive o' ho' := by
    rcases knows_meet.1 ho' with rfl | ho'
    · exact Option.isSome_iff_exists.2 ⟨kind, hkind⟩
    · exact h.alive o' ho'

theorem Enters.fitting {roots : List (Option Handle)} {entered : List ObjectId}
    (henters : Enters m roots w entered w') (h : w.Fitting m) : w'.Fitting m where
  nodup := by
    rw [henters.seen]
    refine List.nodup_append.2 ⟨List.nodup_reverse.2 henters.nodup, h.nodup, ?_⟩
    rintro o ho _ ho' rfl
    exact henters.new o (List.mem_reverse.1 ho) (Walk.knows_iff.2 ho')
  alive o ho := by
    rcases henters.knows_iff.1 ho with ho | ho
    · obtain ⟨root, -, hvisible⟩ := henters.reached o ho
      exact Option.isSome_iff_exists.2 hvisible.kind
    · exact h.alive o ho

theorem Fitting.congr (h : w.Fitting m) (hsame : w'.seen = w.seen) : w'.Fitting m := by
  refine ⟨hsame ▸ h.nodup, fun o ho => h.alive o ?_⟩
  rwa [knows_iff, hsame, ← knows_iff] at ho

end Walk

namespace Heap

variable {m : Heap} {depth : Nat}

theorem visit_standsFor {h : Handle} {p : Option Handle} (hstands : h.StandsFor p) (depth : Nat)
    (w : Walk) : m.visit depth (some h) w = m.visit depth p w := by
  cases depth with
  | zero => rfl
  | succ depth =>
    cases p with
    | none =>
      have hexception : h.isException = true := hstands
      simp only [visit, hexception, if_true]
    | some h' =>
      obtain ⟨htarget, hexception⟩ := hstands
      simp only [visit, htarget, hexception, kind?]

/-- The function goes on a tour while fewer objects are left than `depth`. -/
def Tours (m : Heap) (depth : Nat) (visit : Option Handle → Walk → Ty × Walk) : Prop :=
  ∀ (h : Handle) (p : Option Handle) (s : Machine) (w : Walk), h.StandsFor p → s.heap.Whole →
    (Task.handle h).Ready m s → w.Fitting m → m.objects.next < depth + w.seen.length →
      ∃ entered s', Tour (.handle h) s w (visit p w).1 entered s' (visit p w).2

variable {visit : Option Handle → Walk → Ty × Walk} {s : Machine} {w : Walk}

theorem Tours.reduced (hvisit : Tours m depth visit) (hwhole : s.heap.Whole) {a : Application}
    (hready : (Task.content (.application a)).Ready m s) (hreduced : ∀ f x, a ≠ .pending f x)
    (hw : w.Fitting m) (hdepth : m.objects.next < depth + w.seen.length) {p : Option Handle}
    (hpart : m.parts (.application a) = [p]) :
    ∃ entered s', Tour (.content (.application a)) s w (visit p w).1 entered s' (visit p w).2 := by
  obtain ⟨hlooks, o, hkind⟩ := hready
  obtain ⟨r, m₁, p', hrun, htakes, hpart', hstands⟩ :=
    Run.snapshot_reduced_run hwhole ((hlooks.kind o).trans hkind) hreduced
  rw [hlooks.parts, hpart] at hpart'
  obtain rfl : p = p' := by simpa using hpart'
  obtain ⟨entered, s', htour⟩ := hvisit r p _ w hstands htakes.whole
    (Task.ready_of_takes hlooks htakes) hw hdepth
  exact ⟨entered, _, .reduced hrun htour⟩

theorem Tours.pending (hvisit : Tours m depth visit) (hwhole : s.heap.Whole) {f x : Handle}
    (hready : (Task.content (.application (.pending f x))).Ready m s) (hw : w.Fitting m)
    (hdepth : m.objects.next < depth + w.seen.length) :
    ∃ entered s', Tour (.content (.application (.pending f x))) s w
      ((visit (some x) (visit (some f) w).2).2.application (visit (some f) w).1
        (visit (some x) (visit (some f) w).2).1).1 entered s'
      ((visit (some x) (visit (some f) w).2).2.application (visit (some f) w).1
        (visit (some x) (visit (some f) w).2).1).2 := by
  obtain ⟨hlooks, o, hkind⟩ := hready
  obtain ⟨m₁, hrun, hwhole₁, hlooks₁, hf, hx, -⟩ :=
    Run.snapshot_pending_run hwhole ((hlooks.kind o).trans hkind)
  have hready₁ : (Task.handle f).Ready m { s with heap := m₁ } :=
    .inr ⟨hlooks₁.trans hlooks, (hlooks.isLive _).1 hf⟩
  obtain ⟨entered, s₂, hfunction⟩ := hvisit f (some f) _ w ⟨rfl, rfl⟩ hwhole₁ hready₁ hw hdepth
  have haccount := hfunction.account hwhole₁ hready₁
  have hlength := congrArg List.length haccount.walk.seen
  rw [List.length_map, List.length_append, List.length_map] at hlength
  obtain ⟨entered', s₃, hargument⟩ := hvisit x (some x) s₂ _ ⟨rfl, rfl⟩
    (hwhole₁.restores haccount.heap)
    (.inr ⟨haccount.heap.looksLike.trans (hlooks₁.trans hlooks), (hlooks.isLive _).1 hx⟩)
    (haccount.walk.fitting hw) (by omega)
  exact ⟨_, _, .pending hrun hfunction hargument⟩

theorem Tours.arguments (hvisit : Tours m depth visit) (hwhole : s.heap.Whole)
    (slots : List ThunkId) (start : Ty × Walk) (hready : (Task.arguments start.1 slots).Ready m s)
    (hw : start.2.Fitting m) (hdepth : m.objects.next < depth + start.2.seen.length) :
    ∃ entered s', Tour (.arguments start.1 slots) s start.2
      (slots.foldl (fun (t, w) slot =>
        let (argument, w) := visit (m.slotHandle? slot) w
        w.application t argument) start).1 entered s'
      (slots.foldl (fun (t, w) slot =>
        let (argument, w) := visit (m.slotHandle? slot) w
        w.application t argument) start).2 := by
  induction slots generalizing start s with
  | nil => exact ⟨[], s, .last⟩
  | cons slot slots ih =>
    obtain ⟨hlooks, hlive⟩ := hready
    obtain ⟨x, m₁, hrun, htakes, hstands⟩ :=
      Run.peek_run hwhole ((hlooks.isLive _).2 (hlive slot List.mem_cons_self))
    rw [hlooks.slotHandle?] at hstands
    have hready₁ := Task.ready_of_takes hlooks htakes
    obtain ⟨entered, s₂, hargument⟩ :=
      hvisit x _ _ start.2 hstands htakes.whole hready₁ hw hdepth
    have haccount := hargument.account htakes.whole hready₁
    have hback : (s₂.on (·.release x)).heap.Restores s.heap := htakes.back _ haccount.heap
    have hlength := congrArg List.length haccount.walk.seen
    rw [List.length_map, List.length_append, List.length_map] at hlength
    obtain ⟨entered', s', hrest⟩ := ih (hwhole.restores hback)
      ((visit (m.slotHandle? slot) start.2).2.application start.1
        (visit (m.slotHandle? slot) start.2).1)
      ⟨hback.looksLike.trans hlooks, fun t ht => hlive t (List.mem_cons_of_mem _ ht)⟩
      ((haccount.walk.fitting hw).congr rfl) (by rw [seen_application]; omega)
    exact ⟨_, _, .argument hrun hargument hrest⟩

theorem Tours.closure (hvisit : Tours m depth visit) (hwhole : s.heap.Whole) {c : Closure}
    (hready : (Task.content (.closure c)).Ready m s) (hw : w.Fitting m)
    (hdepth : m.objects.next < depth + w.seen.length) :
    ∃ entered s', Tour (.content (.closure c)) s w (Heap.visit.visitClosure m visit c w).1 entered s'
      (Heap.visit.visitClosure m visit c w).2 := by
  have hdeclared : s.heap.declared c = m.declared c := by rw [declared, hready.1.declared, declared]
  obtain ⟨entered, s', htour⟩ := hvisit.arguments hwhole c.arguments
    (((m.declared c).instantiate w.vars).1,
      { w with vars := ((m.declared c).instantiate w.vars).2 })
    (hready.arguments _ hwhole) (hw.congr rfl) hdepth
  exact ⟨entered, s', .closure (by rw [hdeclared]; exact htour)⟩

theorem exists_tour_enter {h : Handle} (hplain : h.isException = false)
    (hnew : w.seen.lookup h.target = none) (hready : (Task.handle h).Ready m s) (hw : w.Fitting m)
    {kind : ObjectKind} (hkind : m.kind? h = some kind)
    (hbound : ∀ c, kind = .closure c → c.bound ≠ 0) (parts : Walk → Ty × Walk)
    (hparts : (Task.content kind).Ready m s → (w.meet h.target).Fitting m →
      ∃ entered s', Tour (.content kind) s (w.meet h.target) (parts (w.meet h.target)).1 entered s'
        (parts (w.meet h.target)).2) :
    ∃ entered s', Tour (.handle h) s w (Heap.visit.enter h.target parts w).1 entered s'
      (Heap.visit.enter h.target parts w).2 := by
  have hkind' : s.heap.kind? h = some kind := ((hready.of_plain hplain).1.kind? h).trans hkind
  have hunknown : ¬ w.Knows h.target := by
    rw [← lookup_isSome_iff, hnew]
    exact Bool.false_ne_true
  obtain ⟨entered, s', htour⟩ := hparts (hready.content hplain hkind').1 (hw.meet hkind hunknown)
  exact ⟨h.target :: entered, s', .enter hplain hnew hkind' hbound htour⟩

theorem tours_visit (m : Heap) (depth : Nat) : Tours m depth (m.visit depth) := by
  -- On the layers. Each object entered takes one and is met once, so they outlast the places.
  induction depth with
  | zero =>
    intro h p s w _ _ _ hw hdepth
    have := hw.length_le
    omega
  | succ depth ih =>
    intro h p s w hstands hwhole hready hw hdepth
    rw [← visit_standsFor hstands]
    by_cases hexception : h.isException = true
    · simp only [visit, hexception, if_true]
      exact ⟨[], s, .exception hexception⟩
    have hplain : h.isException = false := by simpa using hexception
    obtain ⟨hlooks, hlive⟩ := hready.of_plain hplain
    have hroom : ∀ o, m.objects.next < depth + (w.meet o).seen.length := fun o => by
      rw [Walk.meet, List.length_cons]
      omega
    rw [visit, if_neg hexception]
    split
    · next v hv => exact ⟨[], s, .known hplain hv⟩
    · next c hnew hkind =>
      split
      · next hbare =>
        have hkind' : s.heap.kind? h = some (.closure c) := (hlooks.kind? h).trans hkind
        have hproper := hwhole.proper _ _ hkind'
        have hdeclared : s.heap.declared c = m.declared c := by
          rw [declared, hlooks.declared, declared]
        rw [visitClosure_bare hproper hbare, ← hdeclared]
        refine ⟨[], s, .declaration hplain hnew hkind' hbare (.closure ?_)⟩
        rw [hproper.arguments_eq_nil hbare]
        exact .last
      · next hbound =>
        exact exists_tour_enter hplain hnew hready hw hkind (by rintro _ ⟨⟩; exact hbound) _
          fun hready hmeet => ih.closure hwhole hready hmeet (hroom _)
    · next v hnew hkind =>
      exact exists_tour_enter hplain hnew hready hw hkind (by simp) (fun w => (v.type, w))
        fun _ _ => ⟨[], s, .value⟩
    · next e hnew hkind =>
      exact exists_tour_enter hplain hnew hready hw hkind (by simp) _ fun _ _ => ⟨[], s, .raised⟩
    · next result hnew hkind =>
      exact exists_tour_enter hplain hnew hready hw hkind (by simp) _ fun hready hmeet =>
        ih.reduced hwhole hready (by simp) hmeet (hroom _) rfl
    · next k hnew hkind =>
      exact exists_tour_enter hplain hnew hready hw hkind (by simp) _ fun hready hmeet =>
        ih.reduced hwhole hready (by simp) hmeet (hroom _) rfl
    · next f x hnew hkind =>
      exact exists_tour_enter hplain hnew hready hw hkind (by simp)
        (fun w => (m.visit depth (some x) (m.visit depth (some f) w).2).2.application
          (m.visit depth (some f) w).1 (m.visit depth (some x) (m.visit depth (some f) w).2).1)
        fun hready hmeet => ih.pending hwhole hready hmeet (hroom _)
    · next hnew hkind =>
      have : (m.object? h.target).isSome := hlive
      simp_all [Heap.kind?]

def isPending (m : Heap) (o : ObjectId) : Bool :=
  match m.kindOf? o with
  | some (.application (.pending _ _)) => true
  | _ => false

/-- How many arguments are bound in an object, if it is a closure. -/
def boundOf (m : Heap) (o : ObjectId) : Nat :=
  match m.kindOf? o with
  | some (.closure c) => c.bound
  | _ => 0

theorem equationsAt_eq (hwhole : m.Whole) (o : ObjectId) :
    m.equationsAt o = 1 + (if m.isPending o then 1 else 0) + m.boundOf o := by
  unfold equationsAt isPending boundOf
  cases hkind : m.kindOf? o with
  | none => rfl
  | some kind =>
    cases kind with
    | closure c =>
      have htotal := (hwhole.proper o c hkind).total_eq
      simp only [Option.elim_some, ObjectKind.equations, Closure.bound, htotal]
      simp
    | application a => cases a <;> rfl
    | value v => rfl
    | exception e => rfl

theorem sum_equationsAt (hwhole : m.Whole) (entered : List ObjectId) :
    (entered.map m.equationsAt).sum =
      entered.length + entered.countP m.isPending + (entered.map m.boundOf).sum := by
  induction entered with
  | nil => rfl
  | cons o entered ih =>
    rw [List.map_cons, List.sum_cons, ih, equationsAt_eq hwhole, List.countP_cons, List.map_cons,
      List.sum_cons, List.length_cons]
    omega

theorem mem_entered_iff {h? : Option Handle} {vars : VarSupply} {entered : List ObjectId} {w : Walk}
    (henters : Enters m [h?] { vars } entered w) (o : ObjectId) :
    o ∈ entered ↔ m.Visible h? o := by
  have hknown : ∀ o, w.Knows o → o ∈ entered := fun o ho =>
    (henters.knows_iff.1 ho).resolve_right (by simp [Knows])
  constructor
  · intro ho
    obtain ⟨root, hroot, hvisible⟩ := henters.reached o ho
    exact List.mem_singleton.1 hroot ▸ hvisible
  · intro hvisible
    induction hvisible with
    | here hat => exact hknown _ (henters.covers _ (List.mem_singleton_self _) _ hat)
    | part _ hkind hpart hat ih => exact hknown _ (henters.closed _ ih _ hkind _ hpart _ hat)

/-- Finding a type comes to its end on every heap whose counts are exact, as they are in every heap
that a session reaches, whether the heap is cyclic or not. There is exactly one tour from the
handle, whatever depth is allowed it is the walk, and its equations are the ones solved. It enters
each of the objects that the type depends on once and nothing else, evaluates nothing, and gives back
what it took, so that every cell is left with its content and its counts. For each object entered
there is an equation, and one more for each application that is not reduced and for each argument of
a closure. -/
theorem typeOf_tour {s : Machine} {held : Multiset Holding} {h : Handle}
    (hcounted : s.heap.Counted held)
    (hproper : ∀ o c, s.heap.kindOf? o = some (.closure c) → c.Proper)
    (hlive : s.heap.IsLive h.edge) :
    ∃ t entered s' w, Tour (.handle h) s { vars := s.vars } t entered s' w ∧
      (∀ t₁ entered₁ s₁ w₁, Tour (.handle h) s { vars := s.vars } t₁ entered₁ s₁ w₁ →
        t₁ = t ∧ entered₁ = entered ∧ s₁ = s' ∧ w₁ = w) ∧
      (∀ depth, s.heap.visitDepth ≤ depth →
        s.heap.visit depth (some h) { vars := s.vars } = (t, w)) ∧
      s.heap.typeOf h s.vars =
        (match w.constraints.solve with
        | .error error => (.error error, w.vars)
        | .ok σ => (.ok ((σ.apply t).generalize w.vars).1, ((σ.apply t).generalize w.vars).2)) ∧
      entered.Nodup ∧ (∀ o, o ∈ entered ↔ s.heap.Visible (some h) o) ∧
      s'.heap.Restores s.heap ∧ s'.vars = s.vars ∧ s'.trace = s.trace ∧
      w.constraints.equations.size =
        entered.length + entered.countP s.heap.isPending + (entered.map s.heap.boundOf).sum := by
  have hwhole := hcounted.whole hproper
  have hready : (Task.handle h).Ready s.heap s := .inr ⟨.refl _, hlive⟩
  have htours : ∀ depth, s.heap.visitDepth ≤ depth → ∃ entered s',
      Tour (.handle h) s { vars := s.vars } (s.heap.visit depth (some h) { vars := s.vars }).1
        entered s' (s.heap.visit depth (some h) { vars := s.vars }).2 := fun depth hdepth =>
    tours_visit s.heap depth h (some h) s _ ⟨rfl, rfl⟩ hwhole hready
      ⟨List.nodup_nil, by simp [Knows]⟩ (by simp [visitDepth] at hdepth ⊢; omega)
  obtain ⟨entered, s', htour⟩ := htours _ (Nat.le_refl _)
  have haccount := htour.account hwhole hready
  refine ⟨_, entered, s', _, htour, fun _ _ _ _ => htour.unique, fun depth hdepth => ?_, ?_,
    haccount.walk.nodup, mem_entered_iff haccount.walk, haccount.heap, haccount.vars,
    haccount.trace, ?_⟩
  · obtain ⟨_, _, htour'⟩ := htours depth hdepth
    obtain ⟨ht, -, -, hw⟩ := htour.unique htour'
    exact Prod.ext ht hw
  · rfl
  · rw [← sum_equationsAt hwhole]
    simpa [equationCount, Task.equations] using haccount.equations

theorem counted_tiedChain :
    tiedChain.Counted {.strong (.object ⟨0⟩), .strong (.object ⟨2⟩)} := by
  constructor
  · rintro ((⟨_ | _ | _ | i⟩ | ⟨_ | i⟩ | ⟨_ | _ | i⟩) | ⟨_ | _ | _ | i⟩ | e) n hn
    all_goals first
      | (cases hn; decide)
      | simp [tiedChain, recorded, object?, thunk?, combinator?, Arena.get?, Hold.strong?, Hold.weak?]
          at hn
  · rintro (⟨_ | _ | _ | i⟩ | ⟨_ | i⟩ | ⟨_ | _ | i⟩) n hn
    all_goals first
      | (cases hn; decide)
      | simp [tiedChain, recorded, object?, thunk?, combinator?, Arena.get?, Hold.strong?] at hn
  · have hall : ∀ r ∈ tiedChain.held + {.strong (.object ⟨0⟩), .strong (.object ⟨2⟩)},
        ∀ cell ∈ r.target?, tiedChain.IsLive cell := by decide
    exact fun cell hcell => hall _ hcell cell rfl
  · have hall : ∀ r ∈ tiedChain.held + {.strong (.object ⟨0⟩), .strong (.object ⟨2⟩)},
        ∀ cell ∈ r.target?, tiedChain.IsLive cell := by decide
    exact fun o ho => (hall _ ho _ rfl).allocated

/-- The back edge is followed once. Two objects are entered, the application and the closure that it
is applied to, with one equation each, one for applying and one for the argument that is bound. -/
theorem typeOf_tour_tiedChain :
    ∃ t entered s' w,
      Tour (.handle (.plain ⟨2⟩)) ⟨tiedChain, { next := 4 }, #[]⟩ { vars := { next := 4 } } t entered
        s' w ∧
      s'.heap.Restores tiedChain ∧ entered.Nodup ∧ w.constraints.equations.size = 4 := by
  obtain ⟨t, entered, s', w, htour, -, hvisit, -, hnodup, -, hheap, -⟩ :=
    @typeOf_tour ⟨tiedChain, { next := 4 }, #[]⟩ _ (.plain ⟨2⟩) counted_tiedChain
      (typable_tiedChain {}).proper (by decide)
  have hsize : (tiedChain.visit tiedChain.visitDepth (some (.plain ⟨2⟩))
      { vars := { next := 4 } }).2.constraints.equations.size = 4 := by cbv
  rw [hvisit _ (Nat.le_refl _)] at hsize
  exact ⟨t, entered, s', w, htour, hheap, hnodup, hsize⟩

end Heap

end GraphReduction
