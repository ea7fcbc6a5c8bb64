import Mathlib
import GraphReduction.Proofs.Runs.Append

/-! How what is there develops. Objects are written to in few ways, and suspended arguments are
evaluated; a later heap has of each cell what has become of it by such steps, if the cell is still
there. Which steps an object can take is left open here. -/
namespace GraphReduction

open Heap Relation

inductive ThunkState.Advances : ThunkState → ThunkState → Prop
  | forced (x r : Handle) : Advances (.pending x) (.forced r)

/-- What is there of the cells that were there before has its content, or what that has become by
steps that `change` allows. -/
structure Heap.Develops (change : ObjectKind → ObjectKind → Prop) (m m' : Heap) : Prop where
  allocated : ∀ cell, m.Allocated cell → m'.Allocated cell
  object : ∀ o kind', m.Allocated (.object o) → m'.kindOf? o = some kind' →
    ∃ kind, m.kindOf? o = some kind ∧ ReflTransGen change kind kind'
  thunk : ∀ t state', m.Allocated (.thunk t) → m'.stateOf? t = some state' →
    ∃ state, m.stateOf? t = some state ∧ ReflTransGen ThunkState.Advances state state'

variable {change : ObjectKind → ObjectKind → Prop} {m m' m'' : Heap} {o : ObjectId} {t : ThunkId}
  {c : Closure} {kind kind' : ObjectKind} {state state' : ThunkState}

theorem ThunkState.Advances.eq_of_forced {r : Handle}
    (h : ReflTransGen Advances (.forced r) state') : state' = .forced r :=
  (reflTransGen_iff_eq fun _ hnext => by cases hnext).mp h

namespace Heap.Develops

theorem within (hwithin : m'.Within m) : Develops change m m' where
  allocated cell := (hwithin.allocated cell).mpr
  object o kind' _ hkind := ⟨kind', hwithin.kind o kind' hkind, .refl⟩
  thunk t state' _ hstate := ⟨state', hwithin.state t state' hstate, .refl⟩

theorem of_contents (hsame : m'.contents = m.contents) : Develops change m m' :=
  within (.of_contents hsame)

theorem trans (h : Develops change m m') (h' : Develops change m' m'') :
    Develops change m m'' where
  allocated cell halloc := h'.allocated cell (h.allocated cell halloc)
  object o kind'' halloc hkind := by
    obtain ⟨kind', hkind', hsteps'⟩ := h'.object o kind'' (h.allocated _ halloc) hkind
    obtain ⟨kind, hkind, hsteps⟩ := h.object o kind' halloc hkind'
    exact ⟨kind, hkind, hsteps.trans hsteps'⟩
  thunk t state'' halloc hstate := by
    obtain ⟨state', hstate', hsteps'⟩ := h'.thunk t state'' (h.allocated _ halloc) hstate
    obtain ⟨state, hstate, hsteps⟩ := h.thunk t state' halloc hstate'
    exact ⟨state, hstate, hsteps.trans hsteps'⟩

theorem of_extends (h : m.Extends m') : Develops change m m' where
  allocated := h.allocated
  object _ kind' halloc hkind := ⟨kind', (h.kindOf?_eq halloc).symm.trans hkind, .refl⟩
  thunk _ state' halloc hstate := ⟨state', (h.stateOf?_eq halloc).symm.trans hstate, .refl⟩

theorem setKind (hkind : m.kindOf? o = some kind) (hstep : change kind kind') :
    Develops change m (m.setKind o kind') where
  allocated cell := (allocated_setKind m o kind' cell).mpr
  object p kind'' _ hkind'' := by
    rw [Valid.kindOf?_setKind] at hkind''
    split at hkind''
    · next heq =>
      subst heq
      obtain ⟨-, -, rfl⟩ := Option.map_eq_some_iff.mp hkind''
      exact ⟨kind, hkind, .single hstep⟩
    · exact ⟨kind'', hkind'', .refl⟩
  thunk u state' _ hstate := ⟨state', hstate, .refl⟩

theorem setThunkState {x r : Handle} (hstate : m.stateOf? t = some (.pending x)) :
    Develops change m (m.setThunkState t (.forced r)) where
  allocated cell := (allocated_setThunkState m t _ cell).mpr
  object o kind' _ hkind := ⟨kind', hkind, .refl⟩
  thunk u state' _ hstate' := by
    rw [stateOf?_setThunkState] at hstate'
    split at hstate'
    · next heq =>
      subst heq
      obtain ⟨-, -, rfl⟩ := Option.map_eq_some_iff.mp hstate'
      exact ⟨_, hstate, .single (.forced x r)⟩
    · exact ⟨state', hstate', .refl⟩

theorem releases (m : Heap) (gone : List Handle) :
    Develops change m (gone.foldl (·.release ·) m) := by
  induction gone generalizing m with
  | nil => exact .of_contents rfl
  | cons h gone ih => exact (within (within_release m h)).trans (ih _)

theorem bindSelf (m : Heap) (fresh : Closure) : Develops change m (m.bindSelf fresh) :=
  .trans (.of_extends (extends_newThunk m (.recursive m.nextObject)))
    (.trans (.of_extends (extends_addObject _ _ _)) (.of_contents (contents_retainWeak _ _)))

/-- While a result is computed, the closure says so. In the end it says something else, which has
to be a step from where it was before. -/
theorem bracket {memo : Memo} (hkind : m.kindOf? o = some (.closure c))
    (h : Develops change (m.setMemo o .running) m')
    (hrunning : ∀ kind', ReflTransGen change (.closure { c with memo := .running }) kind' →
      ∃ memo', kind' = .closure { c with memo := memo' })
    (hend : ReflTransGen change (.closure c) (.closure { c with memo })) :
    Develops change m (m'.setMemo o memo) where
  allocated cell halloc := (allocated_setMemo m' o memo cell).mpr
    (h.allocated cell ((allocated_setMemo m o .running cell).mpr halloc))
  object p kind' halloc hkind' := by
    have halloc' := (allocated_setMemo m o .running (.object p)).mpr halloc
    rw [kindOf?_setMemo] at hkind'
    split at hkind'
    · next heq =>
      subst heq
      obtain ⟨between, hbetween, heq⟩ := Option.map_eq_some_iff.mp hkind'
      obtain ⟨start, hstart, hsteps⟩ := h.object p between halloc' hbetween
      rw [kindOf?_setMemo, if_pos rfl, hkind] at hstart
      obtain ⟨memo', rfl⟩ := hrunning between (by rwa [← Option.some.inj hstart] at hsteps)
      exact ⟨_, hkind, heq ▸ hend⟩
    · next hne =>
      obtain ⟨kind, hkind, hsteps⟩ := h.object p kind' halloc' hkind'
      rw [kindOf?_setMemo, if_neg hne] at hkind
      exact ⟨kind, hkind, hsteps⟩
  thunk t state' halloc hstate :=
    h.thunk t state' ((allocated_setMemo m o .running _).mpr halloc) hstate

theorem tie {value : Handle} {knot : ObjectId} (hknot : ¬ m.Allocated (.object knot))
    (h : Develops change m m') : Develops change m (m'.tie knot value) where
  allocated cell halloc := (allocated_tie m' knot value cell).mpr (h.allocated cell halloc)
  object o kind' halloc hkind := by
    have hne : o ≠ knot := by
      rintro rfl
      exact hknot halloc
    rw [kindOf?_tie m' value hne] at hkind
    exact h.object o kind' halloc hkind
  thunk t state' halloc hstate := by
    refine h.thunk t state' halloc ?_
    rw [Heap.tie] at hstate
    split at hstate
    · exact hstate
    · exact (stateOf?_congr (contents_retainWeak m' value.target) t).symm.trans hstate

theorem of_kind (h : Develops change m m') (hkind : m.kindOf? o = some kind)
    (hkind' : m'.kindOf? o = some kind') : ReflTransGen change kind kind' := by
  obtain ⟨_, hbefore, hsteps⟩ := h.object o kind' (isLive_of_kindOf? hkind).allocated hkind'
  cases hkind.symm.trans hbefore
  exact hsteps

theorem of_state (h : Develops change m m') (hstate : m.stateOf? t = some state)
    (hstate' : m'.stateOf? t = some state') : ReflTransGen ThunkState.Advances state state' := by
  obtain ⟨_, hbefore, hsteps⟩ := h.thunk t state' (isLive_of_stateOf? hstate).allocated hstate'
  cases hstate.symm.trans hbefore
  exact hsteps

theorem isLive (h : Develops change m m') (halloc : m.Allocated (.object o))
    (hlive : m'.IsLive (.object o)) : m.IsLive (.object o) := by
  obtain ⟨kind', hkind'⟩ := exists_kindOf? hlive
  obtain ⟨kind, hkind, -⟩ := h.object o kind' halloc hkind'
  exact isLive_of_kindOf? hkind

end Heap.Develops

end GraphReduction
