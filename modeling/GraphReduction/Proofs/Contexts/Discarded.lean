import Mathlib
import GraphReduction.Proofs.Contexts.Propagation
import GraphReduction.Proofs.Runs.Results

/-! Arguments that are not asked for. A primitive touches what it asks for and what it returns: the
argument that a constant function throws away is left alone with all that it leads to, and so is the
branch that a condition does not select. -/
namespace GraphReduction

open Heap Run

variable {α β : Type} {s s' : Machine} {m : Heap} {rest : Multiset Holding} {W W' : Set Edge}
  {c : Closure} {f h x r y : Handle} {t : ThunkId} {n : ObjectId} {p : Primitive} {xs : List Handle}
  {ns : List ObjectId} {options : Options} {depth : Nat} {reduce : Reducer}

theorem Run.releasing_fades {act : Run α} (hact : Leads (FadesOff W) s act) (x : Handle) :
    Leads (FadesOff W) s (Run.releasing x act) := by
  obtain ⟨hheap, hrequests⟩ := hact
  rw [Leads, releasing_run]
  cases hrun : act s <;> rw [hrun] at hheap hrequests <;>
    exact ⟨hheap.trans (.release _ x), hrequests.trans (.of_vars rfl)⟩

theorem Run.release_fades (x : Handle) : Leads (FadesOff W) s (release x) :=
  .change (.release s.heap x)

theorem Run.store_fades (hn : .object n ∈ W) : Leads (FadesOff W) s (store n r) := by
  rw [store]
  refine .inspect ?_
  cases (s.heap.kind? (.plain n)).bind ObjectKind.application? with
  | none => exact .pure _
  | some a =>
    cases a with
    | pending f x =>
      have hset : ∀ (a' : Application) (z : Machine),
          Leads (FadesOff W) z (change (·.setKind n (.application a'))) := fun _ _ => .change (.setKind hn)
      refine .bind (share_along _ s) fun _ s₁ _ => .bind (hset _ s₁) fun _ s₂ _ => ?_
      exact .bind (release_fades f) fun _ s₃ _ => .bind (release_fades x) fun _ s₄ _ => .pure _
    | reduced first =>
      exact .bind (share_along first s) fun _ s₁ _ => .bind (release_fades _) fun _ s₂ _ => .pure _
    | knot k =>
      exact .bind (k.reduced_along s) fun _ s₁ _ => .bind (release_fades _) fun _ s₂ _ => .pure _

namespace Evaluator

theorem requests_reduceUpTo (options : Options) (depth : Nat) (h : Handle) (s : Machine) :
    Requests s (ended (reduceUpTo options depth h s)) :=
  (reduceUpTo_along (r := Develops ObjectKind.Changes) options depth h s).2

theorem accept_fades : Leads (FadesOff W) s (accept options h r) := by
  have hcheck : Leads (FadesOff W) s (check h r) := check_along h r s
  refine .ite (.bind hcheck fun outcome s₁ _ => ?_) (.pure _)
  cases outcome with
  | ok _ => exact .pure _
  | error e => exact .bind (release_fades r) fun _ s₂ _ => newException_along e s₂

theorem invoke_fades {k : HeldCombinator} (hk : s.heap.combinator? c.combinator = some k)
    (hbody : Leads (FadesOff W) (s.push (.began n))
      (k.combinator.body.run reduce ⟨k.combinator.name, c⟩)) :
    Leads (FadesOff W) s (invoke options reduce n c) := by
  refine .bind (Along.event _ s) fun _ s₁ hs₁ => .inspect ?_
  cases hs₁
  rw [show (Machine.heap _).combinator? c.combinator = some k from hk]
  refine .bind (.tryCatch (.bind hbody fun _ _ _ => .pure _) fun signal s₂ _ => ?_)
    fun outcome s₃ _ => .bind (Along.event _ s₃) fun _ s₄ _ => ?_
  · cases signal with
    | raised e => exact .pure _
    | panicked payload => exact .ite (.pure _) (.throw _)
    | exhausted => exact .throw _
  · cases outcome with
    | ok r => exact .pure _
    | error e => exact newException_along e s₄

theorem invoke_result {k : HeldCombinator} (hk : s.heap.combinator? c.combinator = some k)
    (hrun : invoke options reduce n c s = .ok r s') :
    (∃ s₁, k.combinator.body.run reduce ⟨k.combinator.name, c⟩ (s.push (.began n)) = .ok r s₁ ∧
      s' = s₁.push (.ended n)) ∨ r.isException = true := by
  cases hbody : k.combinator.body.run reduce ⟨k.combinator.name, c⟩ (s.push (.began n)) with
  | ok raw s₁ =>
    rw [invoke_ok hk hbody] at hrun
    cases hrun
    exact .inl ⟨s₁, rfl, rfl⟩
  | error signal s₁ =>
    refine .inr ?_
    simp only [invoke, bind_run, event_run, inspect_run, Machine.heap_push, hk, tryCatch_run,
      hbody] at hrun
    cases signal with
    | raised e =>
      cases hrun
      rfl
    | panicked payload =>
      dsimp only at hrun
      by_cases hcatch : options.catchPanics = true
      · rw [if_pos hcatch] at hrun
        cases hrun
        rfl
      · rw [if_neg hcatch] at hrun
        cases hrun
    | exhausted => cases hrun

theorem compute_fades {k : HeldCombinator} (hk : s.heap.combinator? c.combinator = some k)
    (hbody : Leads (FadesOff W) (s.push (.began n))
      (k.combinator.body.run (reduceUpTo options depth) ⟨k.combinator.name, c⟩))
    (hraw : ∀ raw s', k.combinator.body.run (reduceUpTo options depth) ⟨k.combinator.name, c⟩
      (s.push (.began n)) = .ok raw s' →
        Leads (FadesOff W) (s'.push (.ended n)) (reduceUpTo options depth raw)) :
    Leads (FadesOff W) s (compute options (reduceUpTo options depth) (.plain n) c) := by
  rw [compute_eq]
  refine .bind (invoke_fades hk hbody) fun raw s₁ hrun => ?_
  refine releasing_fades (.bind ?_ fun _ _ _ => accept_fades) raw
  obtain ⟨s', hran, rfl⟩ | hexception := invoke_result hk hrun
  · exact hraw raw s' hran
  · cases depth with
    | zero => exact .throw _
    | succ depth =>
      exact .after (reduceUpTo_exception hexception) (IsGrowth.refl _) (.refl _) (share_along raw s₁)

theorem result_fades (hmemo : c.memo = .empty) (hh : .object h.target ∈ W)
    (hcompute : Leads (FadesOff W) (s.on (·.setMemo h.target .running))
      (compute options reduce h c)) : Leads (FadesOff W) s (result options reduce h c) := by
  have hset : ∀ (memo : Memo) (z : Machine),
      Leads (FadesOff W) z (change (·.setMemo h.target memo)) := fun _ _ => .change (.setMemo hh)
  rw [result, hmemo]
  refine .bind (hset _ s) fun _ s₁ hs₁ => ?_
  cases hs₁
  refine .bind (.tryCatch hcompute fun signal s₂ _ => ?_) fun value s₃ _ => ?_
  · exact .bind (hset _ s₂) fun _ _ _ => .throw _
  · exact .bind (share_along value s₃) fun _ s₄ _ => .bind (hset _ s₄) fun _ _ _ => .pure _

theorem node_fades (hkind : s.heap.kindOf? n = some (.application (.pending f x)))
    (hn : .object n ∈ W) (happlication : Leads (FadesOff W) (takeNode s f x)
      (application options (reduceUpTo options depth) f x)) :
    Leads (FadesOff W) s (reduceUpTo options (depth + 1) (.plain n)) := by
  refine .after (reduceOnce_pending hkind) (FadesOff.of_contents (contents_takeNode s f x))
    (.of_vars rfl) ?_
  exact releasing_fades (.bind happlication fun _ _ _ => store_fades hn) f

theorem call_fades (hcall : s.heap.Call p xs (ns ++ [n]) h) (hup : s.heap.Upright rest)
    (hintact : s.heap.Intact) (hdepth : xs.length ≤ depth) :
    ∃ xs' f a own b c s', s.heap.Spine (.plain ⟨p.place⟩) xs' ns f ∧
      s.heap.kindOf? n = some (.application a) ∧ n ∉ ns ∧ Entered s own p xs ns b c s' ∧
      ∀ W, (∀ k ∈ ns ++ [n], .object k ∈ W) →
        Leads (FadesOff (W ∪ { cell | ¬ s.heap.Allocated cell })) s'
          (compute options (reduceUpTo options depth) (.plain b) c) →
        Leads (FadesOff W) s (reduceUpTo options (depth + 1) h) := by
  obtain ⟨xs', f, x, b, c, s₁, rfl, hf, hkind, hn, hempty, hentered, henters⟩ :=
    call_enters options hcall hup hintact
  refine ⟨xs', f, _, _, b, c, _, hf, hkind, hn, hentered, fun W hnodes hcompute => ?_⟩
  have hb : .object b ∈ W ∪ { cell | ¬ s.heap.Allocated cell } := .inr hentered.fresh
  have hbefore : FadesOff (W ∪ { cell | ¬ s.heap.Allocated cell }) (takeNode s f x).heap s₁.heap := by
    refine (FadesOff.of_contents (contents_takeNode s f x).symm).trans (.of_agreeOff ?_ ?_)
    · exact fun cell halloc => (allocated_setMemo s₁.heap b .running cell).mp
        (hentered.preserves.allocated cell halloc)
    · intro cell hout halloc
      refine (AgreeOff.setMemo s₁.heap b .running cell ?_).symm.trans
        (hentered.preserves.content cell halloc ?_)
      · rintro rfl
        exact hout hb
      · rintro ⟨k, hk, rfl⟩
        exact hout (.inl (hnodes k (List.mem_append_left _ hk)))
  have hresult : Leads (FadesOff (W ∪ { cell | ¬ s.heap.Allocated cell })) s₁
      (result options (reduceUpTo options depth) (.plain b) c) :=
    result_fades hempty hb hcompute
  have happlication : Leads (FadesOff (W ∪ { cell | ¬ s.heap.Allocated cell })) (takeNode s f x)
      (application options (reduceUpTo options depth) f x) :=
    ⟨(congrArg (fun end' => FadesOff _ _ (ended end').heap) (henters depth hdepth)).mpr
      (hbefore.trans (releasing_fades hresult (.plain b)).1),
      (application_along (r := Develops ObjectKind.Changes) (reduceUpTo_along options depth) f x _).2⟩
  have hwhole : Leads (FadesOff (W ∪ { cell | ¬ s.heap.Allocated cell })) s
      (reduceUpTo options (depth + 1) (.plain n)) :=
    node_fades hkind (.inl (hnodes n (by simp))) happlication
  exact ⟨FadesOff.mono hwhole.1 fun cell hcell halloc => hcell.resolve_right fun hnew => hnew halloc,
    hwhole.2⟩

namespace Asks

variable {a : Application} {i : Nat}

theorem reduce_fades {z : Machine} (hasks : Asks m s rest c i y n a)
    (hz : z.heap = s.heap.retain y)
    (hW : ∀ cell, s.heap.Reaches y cell → cell ∉ libraryCells → cell ∈ W) :
    Leads (FadesOff W) z (reduceUpTo options depth y) := by
  obtain ⟨hup, hhonest, hintact, hretained⟩ := hasks.demand hz
  obtain ⟨-, hconfined⟩ :=
    reduceUpTo_confined options depth hup (Multiset.mem_cons_self ..) hhonest hintact
  refine ⟨FadesOff.of_agreeOff (fun cell halloc => (hconfined cell halloc).1)
    fun cell hout halloc => (hconfined cell halloc).2 fun hreached => ?_,
    requests_reduceUpTo options depth y z⟩
  by_contra hlibrary
  have hsame : s.heap.Unchanged z.heap y := .of_contents hretained
  exact hout (hW cell (hsame.reaches hreached) hlibrary)

theorem unbox_fades {α : Type} (name : String) (expected : TypeName) (take : Payload → Option α)
    (hfirst : Asks m s rest c 0 x n a) (hslot : ∀ t, c.argument? 0 = some t → .thunk t ∈ W)
    (hW : ∀ cell, s.heap.Reaches x cell → cell ∈ W) :
    Leads (FadesOff W) s ((⟨name, c⟩ : Args).unbox (reduceUpTo options depth) 0 expected take) := by
  obtain ⟨t, ht, -⟩ := hfirst.slot
  obtain ⟨-, -, -, halloc, hkept⟩ := hfirst.unbox_confined options depth name expected take ht []
  refine ⟨FadesOff.of_agreeOff halloc fun cell hout halloc => hkept cell ?_,
    (Args.unbox_along (r := Develops ObjectKind.Changes) (reduceUpTo_along options depth) _ _ _ _ s).2⟩
  by_cases hlibrary : cell ∈ libraryCells
  · exact .inl hlibrary
  · refine .inr ⟨⟨halloc, hlibrary, ?_⟩, ?_⟩
    · simpa using fun hreached => hout (hW cell hreached)
    · rintro rfl
      exact hout (hslot t ht)

end Asks

theorem lazy_fades (hlazy : p.body = (.lazy 0 : Body Handle))
    (hcall : s.heap.Call p (x :: xs) (ns ++ [n]) h) (hup : s.heap.Upright rest)
    (hintact : s.heap.Intact) (hapart : ∀ k ∈ ns ++ [n], ¬ s.heap.Reaches x (.object k))
    (hdepth : p.arity ≤ depth) :
    Leads (FadesOff { cell | s.heap.Reaches x cell ∨ ∃ k ∈ ns ++ [n], cell = .object k }) s
      (reduceUpTo options (depth + 1) h) := by
  obtain ⟨xs', f, a, own, b, c, s', hspine, hkind, hn, hentered, hfinish⟩ :=
    call_fades hcall hup hintact (hcall.arity.trans_le hdepth)
  refine hfinish _ (fun k hk => .inr ⟨k, hk, rfl⟩) ?_
  obtain ⟨k, hk, hbody⟩ := hentered.held (hentered.intact hspine hintact)
  obtain ⟨hasks, -⟩ := hentered.asks (i := 0) (.began b) rfl hup hintact hcall hspine hkind hn
    (.refl ..) hapart
  obtain ⟨t, ht, hslot, -⟩ := hasks.slot
  have hrun : k.combinator.body.run (reduceUpTo options depth) ⟨k.combinator.name, c⟩
      (s'.push (.began b)) = .ok x ((s'.push (.began b)).on (·.retain x)) := by
    rw [hbody, hlazy]
    exact Args.lazy_run _ ht hslot
  refine compute_fades hk ?_ fun raw s₁ hran => ?_
  · exact .after hrun (IsGrowth.retainEdge _ x.edge) (.of_vars rfl) (.pure x)
  · cases hrun.symm.trans hran
    exact hasks.reduce_fades rfl fun cell hreached _ =>
      .inl (.inl (hasks.unchanged.reaches hreached))

/-- A conditional touches what the condition leads to, the nodes, and what one of the branches leads
to: the one that is selected where the condition is asked for, if it has a value there. -/
theorem conditional_fades {yes no : Handle}
    (hcall : s.heap.Call .ifThenElse [x, yes, no] (ns ++ [n]) h) (hup : s.heap.Upright rest)
    (hintact : s.heap.Intact)
    (hapart : ∀ z ∈ [x, yes, no], ∀ k ∈ ns ++ [n], ¬ s.heap.Reaches z (.object k))
    (hdepth : Primitive.ifThenElse.arity ≤ depth) :
    ∃ z own args, Demands s.heap x x z own args ∧
      Leads (FadesOff { cell | s.heap.Reaches x cell ∨ (∃ k ∈ ns ++ [n], cell = .object k) ∨
          ∃ v z', args.bool (reduceUpTo options depth) 0 z = .ok v z' ∧
            s.heap.Reaches (if v then yes else no) cell }) s
        (reduceUpTo options (depth + 1) h) := by
  obtain ⟨xs', f, a, own, b, c, s', hspine, hkind, hn, hentered, hfinish⟩ :=
    call_fades hcall hup hintact (hcall.arity.trans_le hdepth)
  obtain ⟨k, hk, hbody⟩ := hentered.held (hentered.intact hspine hintact)
  obtain ⟨hfirst, hx⟩ := hentered.asks (i := 0) (.began b) rfl hup hintact hcall hspine hkind hn
    (.refl ..) (hapart x (by simp))
  obtain ⟨t, ht, hslot, hhidden⟩ := hfirst.slot
  have hfresh : ∀ u, c.argument? 0 = some u → ¬ s.heap.Allocated (.thunk u) := fun u hu =>
    hentered.slots u (Closure.mem_arguments hu)
  let args : Args := ⟨k.combinator.name, c⟩
  let W : Set Edge := { cell | s.heap.Reaches x cell ∨ (∃ k ∈ ns ++ [n], cell = .object k) ∨
    ∃ v z', args.bool (reduceUpTo options depth) 0 (s'.push (.began b)) = .ok v z' ∧
      s.heap.Reaches (if v then yes else no) cell }
  refine ⟨s'.push (.began b), _, args, ⟨hfirst.upright, hfirst.intact, hfirst.unchanged,
    hfirst.unchanged, t, ht, hslot, hhidden, hhidden⟩,
    hfinish W (fun k hk => .inr (.inl ⟨k, hk, rfl⟩)) ?_⟩
  have hcondition : Leads (FadesOff (W ∪ { cell | ¬ s.heap.Allocated cell })) (s'.push (.began b))
      (args.bool (reduceUpTo options depth) 0) :=
    hfirst.unbox_fades k.combinator.name .bool Payload.bool? (fun u hu => .inr (hfresh u hu))
      fun cell hreached => .inl (.inl (hfirst.unchanged.reaches hreached))
  cases hbool : args.bool (reduceUpTo options depth) 0 (s'.push (.began b)) with
  | error signal s₁ =>
    -- nothing is returned, and nothing else is evaluated
    refine compute_fades hk ?_ fun raw s₂ hran => ?_
    · rw [hbody, Primitive.body, Body.run]
      refine .bind hcondition fun v s₂ hv => ?_
      cases hbool.symm.trans hv
    · rw [hbody, Primitive.body, Body.run, bind_run, hbool] at hran
      cases hran
  | ok v s₁ =>
    obtain ⟨y, hchosen⟩ : ∃ y, (if v then yes else no) = y := ⟨_, rfl⟩
    have hplace : [x, yes, no][if v then 1 else 2]? = some y := by
      rw [← hchosen]
      cases v <;> rfl
    obtain ⟨hasks, -⟩ := hentered.asks (.began b) hplace hup hintact hcall hspine hkind hn
      (.refl ..) (hapart y (List.mem_of_getElem? hplace))
    have hnext := hfirst.next hasks
      (fun u hu => hentered.argument_ne (by split <;> decide) hu)
      (fun u hu => hx u (Closure.mem_arguments hu)) hbool
    obtain ⟨u, hu, hslot', -⟩ := hnext.slot
    have hrun : k.combinator.body.run (reduceUpTo options depth) args (s'.push (.began b)) =
        .ok y (s₁.on (·.retain y)) := by
      rw [hbody]
      exact Primitive.ifThenElse_run hbool hu hslot'
    obtain ⟨hfades, hrequests⟩ := hcondition
    rw [hbool] at hfades hrequests
    refine compute_fades hk ?_ fun raw s₂ hran => ?_
    · exact .after hrun (IsGrowth.trans hfades (IsGrowth.retainEdge s₁.heap y.edge))
        (hrequests.trans (.of_vars rfl)) (.pure y)
    · cases hrun.symm.trans hran
      refine hnext.reduce_fades rfl fun cell hreached hlibrary => ?_
      by_cases hold : s.heap.Allocated cell
      · refine .inl ?_
        obtain h | h | rfl := hfirst.reaches_after ht hbool hreached
          (hentered.preserves.allocated cell hold) hlibrary
        · exact .inl (hfirst.unchanged.reaches h)
        · exact .inr (.inr ⟨v, s₁, hbool, hchosen ▸ hasks.unchanged.reaches h⟩)
        · exact absurd hold (hfresh t ht)
      · exact .inr hold

end Evaluator

end GraphReduction
