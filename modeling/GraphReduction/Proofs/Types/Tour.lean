import Mathlib
import GraphReduction.Proofs.Types.Temporary
import GraphReduction.Proofs.Types.Visit

/-! The walk over a heap as it goes from reference to reference. What is in a slot or in a node is
looked at through a reference of its own, which is given back before the walk goes on. There is no
bound on a tour: it has come to its end when there is nothing left to look at. A tour is determined
by where it starts, it leaves every cell as it found it, and it enters no object twice. -/
namespace GraphReduction

open Heap Walk

/-- What a walk is at: a handle, the content of an object, or the arguments that a function of some
type is applied to. -/
inductive Task where
  | handle (h : Handle)
  | content (kind : ObjectKind)
  | arguments (function : Ty) (slots : List ThunkId)

/-- A tour from a machine and a walk so far finds a type, enters objects in some order, and ends in
another machine and another walk. -/
inductive Tour : Task → Machine → Walk → Ty → List ObjectId → Machine → Walk → Prop where
  | exception {h : Handle} {s : Machine} {w : Walk} (hexception : h.isException = true) :
    Tour (.handle h) s w w.fresh.1 [] s w.fresh.2
  | known {h : Handle} {s : Machine} {w : Walk} {v : VarId} (hplain : h.isException = false)
    (hseen : w.seen.lookup h.target = some v) : Tour (.handle h) s w (.var v) [] s w
  /-- A declaration without arguments is looked at at every use. -/
  | declaration {h : Handle} {s s' : Machine} {w w' : Walk} {c : Closure} {t : Ty}
    {entered : List ObjectId} (hplain : h.isException = false)
    (hnew : w.seen.lookup h.target = none) (hkind : s.heap.kind? h = some (.closure c))
    (hbare : c.bound = 0) (hcontent : Tour (.content (.closure c)) s w t entered s' w') :
    Tour (.handle h) s w t entered s' w'
  | enter {h : Handle} {s s' : Machine} {w w' : Walk} {kind : ObjectKind} {t : Ty}
    {entered : List ObjectId} (hplain : h.isException = false)
    (hnew : w.seen.lookup h.target = none) (hkind : s.heap.kind? h = some kind)
    (hbound : ∀ c, kind = .closure c → c.bound ≠ 0)
    (hcontent : Tour (.content kind) s (w.meet h.target) t entered s' w') :
    Tour (.handle h) s w (.var w.vars.fresh.1) (h.target :: entered) s'
      (w'.push (.var w.vars.fresh.1) t)
  | value {v : Boxed} {s : Machine} {w : Walk} : Tour (.content (.value v)) s w v.type [] s w
  | raised {e : EvalError} {s : Machine} {w : Walk} :
    Tour (.content (.exception e)) s w w.fresh.1 [] s w.fresh.2
  | reduced {a : Application} {r : Handle} {s s₁ s₂ : Machine} {w w' : Walk} {t : Ty}
    {entered : List ObjectId} (hsnapshot : a.snapshot s = .ok (.reduced r) s₁)
    (hresult : Tour (.handle r) s₁ w t entered s₂ w') :
    Tour (.content (.application a)) s w t entered (s₂.on (·.release r)) w'
  | pending {a : Application} {f x : Handle} {s s₁ s₂ s₃ : Machine} {w w₁ w₂ : Walk} {tf tx : Ty}
    {entered entered' : List ObjectId} (hsnapshot : a.snapshot s = .ok (.pending f x) s₁)
    (hfunction : Tour (.handle f) s₁ w tf entered s₂ w₁)
    (hargument : Tour (.handle x) s₂ w₁ tx entered' s₃ w₂) :
    Tour (.content (.application a)) s w (w₂.application tf tx).1 (entered ++ entered')
      ((s₃.on (·.release x)).on (·.release f)) (w₂.application tf tx).2
  | closure {c : Closure} {s s' : Machine} {w w' : Walk} {t : Ty} {entered : List ObjectId}
    (harguments : Tour (.arguments ((s.heap.declared c).instantiate w.vars).1 c.arguments) s
      { w with vars := ((s.heap.declared c).instantiate w.vars).2 } t entered s' w') :
    Tour (.content (.closure c)) s w t entered s' w'
  | last {function : Ty} {s : Machine} {w : Walk} :
    Tour (.arguments function []) s w function [] s w
  | argument {function tx t : Ty} {slot : ThunkId} {slots : List ThunkId} {x : Handle}
    {s s₁ s₂ s' : Machine} {w w₁ w' : Walk} {entered entered' : List ObjectId}
    (hpeek : slot.peek s = .ok x s₁) (hargument : Tour (.handle x) s₁ w tx entered s₂ w₁)
    (hrest : Tour (.arguments (w₁.application function tx).1 slots) (s₂.on (·.release x))
      (w₁.application function tx).2 t entered' s' w') :
    Tour (.arguments function (slot :: slots)) s w t (entered ++ entered') s' w'

namespace Tour

variable {task : Task} {s s' s'' : Machine} {w w' w'' : Walk} {t t' : Ty}
  {entered entered' : List ObjectId}

theorem unique (h : Tour task s w t entered s' w') (h' : Tour task s w t' entered' s'' w'') :
    t' = t ∧ entered' = entered ∧ s'' = s' ∧ w'' = w' := by
  induction h generalizing t' entered' s'' w'' with
  | exception hexception => cases h' <;> simp_all
  | known hplain hseen => cases h' <;> simp_all
  | declaration hplain hnew hkind hbare _ ih =>
    cases h' with
    | exception hexception => simp_all
    | known _ hseen => simp_all
    | declaration _ _ hkind' _ hcontent =>
      obtain rfl := ObjectKind.closure.inj (Option.some.inj (hkind.symm.trans hkind'))
      exact ih hcontent
    | enter _ _ hkind' hbound =>
      exact absurd hbare (hbound _ (Option.some.inj (hkind'.symm.trans hkind)))
  | enter hplain hnew hkind hbound _ ih =>
    cases h' with
    | exception hexception => simp_all
    | known _ hseen => simp_all
    | declaration _ _ hkind' hbare _ =>
      exact absurd hbare (hbound _ (Option.some.inj (hkind.symm.trans hkind')))
    | enter _ _ hkind' _ hcontent =>
      obtain rfl := Option.some.inj (hkind.symm.trans hkind')
      obtain ⟨rfl, rfl, rfl, rfl⟩ := ih hcontent
      exact ⟨rfl, rfl, rfl, rfl⟩
  | value => cases h'; exact ⟨rfl, rfl, rfl, rfl⟩
  | raised => cases h'; exact ⟨rfl, rfl, rfl, rfl⟩
  | reduced hsnapshot _ ih =>
    cases h' with
    | reduced hsnapshot' hresult =>
      cases hsnapshot.symm.trans hsnapshot'
      obtain ⟨rfl, rfl, rfl, rfl⟩ := ih hresult
      exact ⟨rfl, rfl, rfl, rfl⟩
    | pending hsnapshot' => cases hsnapshot.symm.trans hsnapshot'
  | pending hsnapshot _ _ ihf ihx =>
    cases h' with
    | reduced hsnapshot' => cases hsnapshot.symm.trans hsnapshot'
    | pending hsnapshot' hfunction hargument =>
      cases hsnapshot.symm.trans hsnapshot'
      obtain ⟨rfl, rfl, rfl, rfl⟩ := ihf hfunction
      obtain ⟨rfl, rfl, rfl, rfl⟩ := ihx hargument
      exact ⟨rfl, rfl, rfl, rfl⟩
  | closure _ ih => cases h' with | closure harguments => exact ih harguments
  | last => cases h'; exact ⟨rfl, rfl, rfl, rfl⟩
  | argument hpeek _ _ ihx ihrest =>
    cases h' with
    | argument hpeek' hargument hrest =>
      cases hpeek.symm.trans hpeek'
      obtain ⟨rfl, rfl, rfl, rfl⟩ := ihx hargument
      obtain ⟨rfl, rfl, rfl, rfl⟩ := ihrest hrest
      exact ⟨rfl, rfl, rfl, rfl⟩

end Tour

namespace Heap

variable {m m' : Heap}

theorem LooksLike.slotHandle? (hlooks : m'.LooksLike m) (t : ThunkId) :
    m'.slotHandle? t = m.slotHandle? t := by
  simp only [Heap.slotHandle?, hlooks.thunk?, hlooks.isAlive]

theorem LooksLike.parts (hlooks : m'.LooksLike m) (kind : ObjectKind) :
    m'.parts kind = m.parts kind := by
  have hknot : ∀ k, m'.knotHandle? k = m.knotHandle? k := fun k => by
    cases k <;> simp only [Heap.knotHandle?, hlooks.isAlive]
  have hslots : m'.slotHandle? = m.slotHandle? := funext hlooks.slotHandle?
  unfold Heap.parts
  split <;> simp only [hknot, hslots]

theorem occurrence_standsFor {h : Handle} {p : Option Handle} (hstands : h.StandsFor p) :
    m.occurrence (some h) = m.occurrence p := by
  cases p with
  | none => exact occurrence_of_exception hstands
  | some h' =>
    obtain ⟨htarget, hexception⟩ := hstands
    simp only [occurrence, hexception, kind?, htarget]

theorem Visible.congr {p p' : Option Handle} (hsame : m.occurrence p = m.occurrence p')
    {o : ObjectId} (h : m.Visible p o) : m.Visible p' o := by
  induction h with
  | here hat => exact .here (hsame ▸ hat)
  | part _ hkind hpart hat ih => exact .part ih hkind hpart hat

theorem target_of_occurrence {h : Handle} {o : ObjectId} (hat : m.occurrence (some h) = .object o) :
    h.isException = false ∧ o = h.target ∧ ∃ kind, m.kindOf? o = some kind ∧
      ∀ c, kind = .closure c → c.bound ≠ 0 := by
  simp only [occurrence] at hat
  split at hat
  · cases hat
  next hplain =>
  split at hat
  · cases hat
  · next c hkind =>
    split at hat
    · cases hat
    · next hbound =>
      cases hat
      exact ⟨by simpa using hplain, rfl, _, hkind, by rintro _ ⟨⟩; exact hbound⟩
  · next kind hclosure hkind =>
    cases hat
    exact ⟨by simpa using hplain, rfl, kind, hkind, fun c hc => absurd hc (hclosure c)⟩

theorem Visible.occurrence {p : Option Handle} {o : ObjectId} (h : m.Visible p o) :
    ∃ p', m.occurrence p' = .object o := by
  cases h with
  | here hat => exact ⟨p, hat⟩
  | part _ _ _ hat => exact ⟨_, hat⟩

theorem Visible.kind {p : Option Handle} {o : ObjectId} (h : m.Visible p o) :
    ∃ kind, m.kindOf? o = some kind := by
  obtain ⟨p', hat⟩ := h.occurrence
  cases p' with
  | none => cases hat
  | some h' =>
    obtain ⟨-, -, kind, hkind, -⟩ := target_of_occurrence hat
    exact ⟨kind, hkind⟩

end Heap

namespace ObjectKind

/-- The equations of the content itself: one for each application in it. -/
def equations : ObjectKind → Nat
  | application (.pending _ _) => 1
  | closure c => c.arguments.length
  | _ => 0

end ObjectKind

namespace Task

def roots (m : Heap) : Task → List (Option Handle)
  | handle h => [some h]
  | content kind => m.parts kind
  | arguments _ slots => slots.map m.slotHandle?

def equations : Task → Nat
  | handle _ => 0
  | content kind => kind.equations
  | arguments _ slots => slots.length

/-- The task is about the cells of `m`, which are still what they are there. An exception may be
newer than that. -/
def Ready (m : Heap) (s : Machine) : Task → Prop
  | handle h => h.isException = true ∨ s.heap.LooksLike m ∧ m.IsLive h.edge
  | content kind => s.heap.LooksLike m ∧ ∃ o, m.kindOf? o = some kind
  | arguments _ slots => s.heap.LooksLike m ∧ ∀ t ∈ slots, m.IsLive (.thunk t)

end Task

/-- The equations that an object brings: that its variable stands for what it holds, and one for each
application in it. -/
def Heap.equationsAt (m : Heap) (o : ObjectId) : Nat := 1 + (m.kindOf? o).elim 0 ObjectKind.equations

namespace Walk

variable {m : Heap} {roots roots' : List (Option Handle)} {w w' w'' : Walk}
  {entered entered' : List ObjectId} {o : ObjectId}

theorem knows_iff : w.Knows o ↔ o ∈ w.seen.map Prod.fst := by
  simp [Knows]

def equationCount (w : Walk) : Nat := w.constraints.equations.size

@[simp] theorem equationCount_push (w : Walk) (expected actual : Ty) :
    (w.push expected actual).equationCount = w.equationCount + 1 := by
  simp [equationCount, push]

@[simp] theorem equationCount_application (w : Walk) (function argument : Ty) :
    (w.application function argument).2.equationCount = w.equationCount + 1 := by
  simp [application, fresh, equationCount, push]

@[simp] theorem seen_application (w : Walk) (function argument : Ty) :
    (w.application function argument).2.seen = w.seen := rfl

/-- From `w` to `w'` the objects `entered` were entered, in this order. Each of them is new and
depended on by one of the roots, and afterwards everything is known that they or the roots depend on
directly. -/
structure Enters (m : Heap) (roots : List (Option Handle)) (w : Walk) (entered : List ObjectId)
    (w' : Walk) : Prop where
  seen : w'.seen.map Prod.fst = entered.reverse ++ w.seen.map Prod.fst
  new : ∀ o ∈ entered, ¬ w.Knows o
  nodup : entered.Nodup
  covers : ∀ root ∈ roots, w'.Covers m root
  closed : ∀ o ∈ entered, ∀ kind, m.kindOf? o = some kind → ∀ part ∈ m.parts kind, w'.Covers m part
  reached : ∀ o ∈ entered, ∃ root ∈ roots, m.Visible root o

namespace Enters

theorem knows_iff (h : Enters m roots w entered w') : w'.Knows o ↔ o ∈ entered ∨ w.Knows o := by
  rw [Walk.knows_iff, h.seen, List.mem_append, List.mem_reverse, ← Walk.knows_iff]

theorem covers_mono (h : Enters m roots w entered w') {root : Option Handle}
    (hcovers : w.Covers m root) : w'.Covers m root :=
  fun o ho => h.knows_iff.2 (.inr (hcovers o ho))

theorem none (hseen : w'.seen = w.seen) (hcovers : ∀ root ∈ roots, w'.Covers m root) :
    Enters m roots w [] w' :=
  ⟨by simp [hseen], by simp, by simp, hcovers, by simp, by simp⟩

theorem congr {w₁ w₁' : Walk} (h : Enters m roots w entered w') (hfirst : w₁.seen = w.seen)
    (hlast : w₁'.seen = w'.seen) : Enters m roots w₁ entered w₁' where
  seen := by rw [hfirst, hlast, h.seen]
  new o ho := by rw [Walk.knows_iff, hfirst, ← Walk.knows_iff]; exact h.new o ho
  nodup := h.nodup
  covers root hroot o ho := by
    rw [Walk.knows_iff, hlast, ← Walk.knows_iff]
    exact h.covers root hroot o ho
  closed o ho kind hkind part hpart o' ho' := by
    rw [Walk.knows_iff, hlast, ← Walk.knows_iff]
    exact h.closed o ho kind hkind part hpart o' ho'
  reached := h.reached

theorem append (h : Enters m roots w entered w') (h' : Enters m roots' w' entered' w'') :
    Enters m (roots ++ roots') w (entered ++ entered') w'' where
  seen := by rw [h'.seen, h.seen]; simp
  new o ho := by
    rcases List.mem_append.1 ho with ho | ho
    · exact h.new o ho
    · exact fun hknown => h'.new o ho (h.knows_iff.2 (.inr hknown))
  nodup := List.nodup_append.2 ⟨h.nodup, h'.nodup, fun o ho o' ho' heq =>
    h'.new o' ho' (h.knows_iff.2 (.inl (heq ▸ ho)))⟩
  covers root hroot := by
    rcases List.mem_append.1 hroot with hroot | hroot
    · exact h'.covers_mono (h.covers root hroot)
    · exact h'.covers root hroot
  closed o ho kind hkind part hpart := by
    rcases List.mem_append.1 ho with ho | ho
    · exact h'.covers_mono (h.closed o ho kind hkind part hpart)
    · exact h'.closed o ho kind hkind part hpart
  reached o ho := by
    rcases List.mem_append.1 ho with ho | ho
    · exact (h.reached o ho).imp fun root hroot => ⟨List.mem_append_left _ hroot.1, hroot.2⟩
    · exact (h'.reached o ho).imp fun root hroot => ⟨List.mem_append_right _ hroot.1, hroot.2⟩

theorem enter {h : Handle} {kind : ObjectKind} (hat : m.occurrence (some h) = .object o)
    (hkind : m.kindOf? o = some kind) (hnew : ¬ w.Knows o)
    (hparts : Enters m (m.parts kind) (w.meet o) entered w') :
    Enters m [some h] w (o :: entered) w' where
  seen := by rw [hparts.seen]; simp [Walk.meet]
  new o' ho' := by
    rcases List.mem_cons.1 ho' with rfl | ho'
    · exact hnew
    · exact fun hknown => hparts.new o' ho' (knows_meet.2 (.inr hknown))
  nodup := List.nodup_cons.2 ⟨fun ho => hparts.new o ho (knows_meet.2 (.inl rfl)), hparts.nodup⟩
  covers root hroot o' ho' := by
    obtain rfl := List.mem_singleton.1 hroot
    obtain rfl : o = o' := Occurrence.object.inj (hat.symm.trans ho')
    exact hparts.knows_iff.2 (.inr (knows_meet.2 (.inl rfl)))
  closed o' ho' kind' hkind' part hpart := by
    rcases List.mem_cons.1 ho' with rfl | ho'
    · obtain rfl : kind = kind' := Option.some.inj (hkind.symm.trans hkind')
      exact hparts.covers part hpart
    · exact hparts.closed o' ho' kind' hkind' part hpart
  reached o' ho' := by
    refine ⟨some h, List.mem_singleton_self _, ?_⟩
    rcases List.mem_cons.1 ho' with rfl | ho'
    · exact .here hat
    · obtain ⟨part, hpart, hvisible⟩ := hparts.reached o' ho'
      exact Visible.trans (.here hat) hkind hpart hvisible

theorem of_occurrence {p p' : Option Handle} (h : Enters m [p] w entered w')
    (hsame : m.occurrence p = m.occurrence p') : Enters m [p'] w entered w' where
  seen := h.seen
  new := h.new
  nodup := h.nodup
  covers root hroot o ho := by
    obtain rfl := List.mem_singleton.1 hroot
    exact h.covers p (List.mem_singleton_self p) o (hsame ▸ ho)
  closed := h.closed
  reached o ho := by
    obtain ⟨root, hroot, hvisible⟩ := h.reached o ho
    obtain rfl := List.mem_singleton.1 hroot
    exact ⟨p', List.mem_singleton_self p', hvisible.congr hsame⟩

end Enters

end Walk

namespace Task

variable {m : Heap} {s s₁ : Machine} {h : Handle}

theorem Ready.of_plain (hready : (Task.handle h).Ready m s) (hplain : h.isException = false) :
    s.heap.LooksLike m ∧ m.IsLive h.edge :=
  hready.resolve_left (by simp [hplain])

theorem ready_of_takes {m₁ : Heap} (hlooks : s.heap.LooksLike m) (htakes : s.heap.Takes h m₁) :
    (Task.handle h).Ready m { s with heap := m₁ } :=
  htakes.sight.imp_right fun hsight => ⟨hsight.1.trans hlooks, (hlooks.isLive _).1 hsight.2⟩

theorem Ready.content {kind : ObjectKind} (hready : (Task.handle h).Ready m s)
    (hplain : h.isException = false) (hkind : s.heap.kind? h = some kind) :
    (Task.content kind).Ready m s ∧ m.kindOf? h.target = some kind := by
  obtain ⟨hlooks, -⟩ := hready.of_plain hplain
  have hkind : m.kindOf? h.target = some kind := hlooks.kind h.target ▸ hkind
  exact ⟨⟨hlooks, h.target, hkind⟩, hkind⟩

theorem Ready.arguments {c : Closure} (function : Ty) (hready : (Task.content (.closure c)).Ready m s)
    (hwhole : s.heap.Whole) : (Task.arguments function c.arguments).Ready m s := by
  obtain ⟨hlooks, o, hkind⟩ := hready
  refine ⟨hlooks, fun t ht => (hlooks.isLive _).1 ?_⟩
  refine hwhole.object o (.closure c) (by rw [hlooks.kind, hkind]) (.thunk t) ?_
  simp [ObjectKind.edges, ht]

end Task

namespace Tour

variable {m : Heap} {task : Task} {s s' : Machine} {w w' : Walk} {t : Ty} {entered : List ObjectId}

/-- What can be said of a tour over the cells of `m`. -/
structure Account (m : Heap) (task : Task) (s : Machine) (w : Walk) (entered : List ObjectId)
    (s' : Machine) (w' : Walk) : Prop where
  heap : s'.heap.Restores s.heap
  vars : s'.vars = s.vars
  trace : s'.trace = s.trace
  walk : Enters m (task.roots m) w entered w'
  equations : w'.equationCount =
    w.equationCount + task.equations + (entered.map m.equationsAt).sum

theorem account (h : Tour task s w t entered s' w') (hwhole : s.heap.Whole)
    (hready : task.Ready m s) : Account m task s w entered s' w' := by
  -- On the tour. It changes no content, so the parts it meets are those that the objects had in the
  -- heap it started from.
  induction h with
  | @exception h s w hexception =>
    refine ⟨.refl _, rfl, rfl, .none rfl ?_, rfl⟩
    simpa [Task.roots] using Walk.covers_of_ne_object (by simp [occurrence_of_exception hexception])
  | @known h s w v hplain hseen =>
    refine ⟨.refl _, rfl, rfl, .none rfl ?_, by simp [Task.equations]⟩
    simp only [Task.roots, List.mem_singleton, forall_eq]
    intro o ho
    obtain ⟨-, rfl, -⟩ := target_of_occurrence ho
    exact ⟨v, mem_of_lookup hseen⟩
  | @declaration h s s' w w' c t entered hplain hnew hkind hbare _ ih =>
    obtain ⟨hready', hkind'⟩ := hready.content hplain hkind
    have hnone : c.arguments = [] := (hwhole.proper _ _ hkind).arguments_eq_nil hbare
    have hat : m.occurrence (some h) = .declaration (m.declared c) :=
      occurrence_of_bare hplain hkind' hbare
    obtain ⟨hheap, hvars, htrace, hwalk, hequations⟩ := ih hwhole hready'
    refine ⟨hheap, hvars, htrace, { hwalk with covers := ?_, reached := fun o ho => ?_ }, ?_⟩
    · simpa [Task.roots] using Walk.covers_of_ne_object (by simp [hat])
    · obtain ⟨root, hroot, -⟩ := hwalk.reached o ho
      simp [Task.roots, Heap.parts, hnone] at hroot
    · simpa [Task.equations, ObjectKind.equations, hnone] using hequations
  | @enter h s s' w w' kind t entered hplain hnew hkind hbound _ ih =>
    obtain ⟨hready', hkind'⟩ := hready.content hplain hkind
    have hunknown : ¬ w.Knows h.target := by
      rw [← lookup_isSome_iff, hnew]
      exact Bool.false_ne_true
    obtain ⟨hheap, hvars, htrace, hwalk, hequations⟩ := ih hwhole hready'
    refine ⟨hheap, hvars, htrace, ?_, ?_⟩
    · exact (hwalk.enter (occurrence_of_kind hplain hkind' hbound) hkind' hunknown).congr rfl rfl
    · have hsame : (w.meet h.target).equationCount = w.equationCount := rfl
      rw [equationCount_push, hequations, hsame, List.map_cons, List.sum_cons, equationsAt, hkind']
      simp only [Task.equations, Option.elim_some]
      omega
  | value => exact ⟨.refl _, rfl, rfl, .none rfl (by simp [Task.roots, Heap.parts]), rfl⟩
  | raised => exact ⟨.refl _, rfl, rfl, .none rfl (by simp [Task.roots, Heap.parts]), rfl⟩
  | @reduced a r s s₁ s₂ w w' t entered hsnapshot _ ih =>
    obtain ⟨hlooks, o, hkind⟩ := hready
    have hkind' : s.heap.kindOf? o = some (.application a) := (hlooks.kind o).trans hkind
    by_cases hpending : ∃ f x, a = .pending f x
    · obtain ⟨f, x, rfl⟩ := hpending
      obtain ⟨_, hrun, -⟩ := Run.snapshot_pending_run hwhole hkind'
      cases hsnapshot.symm.trans hrun
    obtain ⟨r', m₁, p, hrun, htakes, hpart, hstands⟩ := Run.snapshot_reduced_run hwhole hkind'
      fun f x ha => hpending ⟨f, x, ha⟩
    cases hsnapshot.symm.trans hrun
    rw [hlooks.parts] at hpart
    obtain ⟨hheap, hvars, htrace, hwalk, hequations⟩ := ih htakes.whole
      (Task.ready_of_takes hlooks htakes)
    refine ⟨htakes.back _ hheap, hvars, htrace, ?_, ?_⟩
    · rw [Task.roots, hpart]
      exact hwalk.of_occurrence (occurrence_standsFor hstands)
    · have hown : (Task.content (.application a)).equations = 0 := by
        cases a with
        | pending f x => exact absurd ⟨f, x, rfl⟩ hpending
        | reduced | knot => rfl
      rw [hequations, hown]
      rfl
  | @pending a f x s s₁ s₂ s₃ w w₁ w₂ tf tx entered entered' hsnapshot _ _ ihf ihx =>
    obtain ⟨hlooks, o, hkind⟩ := hready
    have hkind' : s.heap.kindOf? o = some (.application a) := (hlooks.kind o).trans hkind
    by_cases hpending : ∃ f x, a = .pending f x
    · obtain ⟨f', x', rfl⟩ := hpending
      obtain ⟨m₁, hrun, hwhole₁, hlooks₁, hf, hx, hback⟩ := Run.snapshot_pending_run hwhole hkind'
      cases hsnapshot.symm.trans hrun
      have hfunction := ihf hwhole₁ (.inr ⟨hlooks₁.trans hlooks, (hlooks.isLive _).1 hf⟩)
      have hlooks₂ : s₂.heap.LooksLike m := hfunction.heap.looksLike.trans (hlooks₁.trans hlooks)
      have hargument := ihx (hwhole₁.restores hfunction.heap) (.inr ⟨hlooks₂, (hlooks.isLive _).1 hx⟩)
      refine ⟨hback _ (hargument.heap.trans hfunction.heap), hargument.vars.trans hfunction.vars,
        hargument.trace.trans hfunction.trace, ?_, ?_⟩
      · exact (hfunction.walk.append hargument.walk).congr rfl rfl
      · rw [equationCount_application, hargument.equations, hfunction.equations]
        simp only [Task.equations, ObjectKind.equations, List.map_append, List.sum_append]
        omega
    · obtain ⟨_, _, _, hrun, -⟩ := Run.snapshot_reduced_run hwhole hkind'
        fun f x ha => hpending ⟨f, x, ha⟩
      cases hsnapshot.symm.trans hrun
  | @closure c s s' w w' t entered _ ih =>
    obtain ⟨hheap, hvars, htrace, hwalk, hequations⟩ := ih hwhole (hready.arguments _ hwhole)
    exact ⟨hheap, hvars, htrace, hwalk.congr rfl rfl, hequations⟩
  | last => exact ⟨.refl _, rfl, rfl, .none rfl (by simp [Task.roots]), rfl⟩
  | @argument function tx t slot slots x s s₁ s₂ s' w w₁ w' entered entered' hpeek _ _ ihx ihrest =>
    obtain ⟨hlooks, hlive⟩ := hready
    have hslot : s.heap.IsLive (.thunk slot) := (hlooks.isLive _).2 (hlive slot List.mem_cons_self)
    obtain ⟨x', m₁, hrun, htakes, hstands⟩ := Run.peek_run hwhole hslot
    cases hpeek.symm.trans hrun
    rw [hlooks.slotHandle?] at hstands
    have hargument := ihx htakes.whole (Task.ready_of_takes hlooks htakes)
    have hback : (s₂.on (·.release x)).heap.Restores s.heap := htakes.back _ hargument.heap
    have hrest := ihrest (hwhole.restores hback)
      ⟨hback.looksLike.trans hlooks, fun t ht => hlive t (List.mem_cons_of_mem _ ht)⟩
    refine ⟨hrest.heap.trans hback, hrest.vars.trans hargument.vars,
      hrest.trace.trans hargument.trace, ?_, ?_⟩
    · have hfirst := hargument.walk.of_occurrence (occurrence_standsFor hstands)
      exact hfirst.append (hrest.walk.congr rfl rfl)
    · rw [hrest.equations, equationCount_application, hargument.equations]
      simp only [Task.equations, List.length_cons, List.map_append, List.sum_append]
      omega

end Tour

end GraphReduction
