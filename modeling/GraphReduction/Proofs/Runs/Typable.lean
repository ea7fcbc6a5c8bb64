import Mathlib
import GraphReduction.Proofs.Runs.Closures
import GraphReduction.Proofs.Supply.Distinct
import GraphReduction.Proofs.Types.Principal

/-! Sessions keep heaps typable. No change of a heap makes up a tag: a value that comes into being
while something runs has a type without variables, a copy has the type that is copied, and a type
that is written down is made of variables that the session has drawn for it. So after any commands
the tags are built from variables that have been drawn, and the closures are in order. -/
namespace GraphReduction

open Heap Relation

namespace Heap

variable {m m' m'' : Heap} {o : ObjectId} {t : Ty}

/-- The type of a value that is there. -/
def Tagged (m : Heap) (t : Ty) : Prop := ∃ o v, m.kindOf? o = some (.value v) ∧ v.type = t

def KeepsTags (m m' : Heap) : Prop := ∀ t, m'.Tagged t → m.Tagged t ∨ ∃ name, t = .named name

namespace KeepsTags

theorem trans (h : KeepsTags m m') (h' : KeepsTags m' m'') : KeepsTags m m'' := fun t ht =>
  (h' t ht).elim (h t) .inr

theorem of_values (h : ∀ o v, m'.kindOf? o = some (.value v) → m.kindOf? o = some (.value v)) :
    KeepsTags m m' := fun _ ⟨o, v, hkind, ht⟩ => .inl ⟨o, v, h o v hkind, ht⟩

theorem of_contents (hsame : m'.contents = m.contents) : KeepsTags m m' :=
  of_values fun o _ hkind => (kindOf?_congr hsame o).symm.trans hkind

theorem setMemo (m : Heap) (o : ObjectId) (memo : Memo) : KeepsTags m (m.setMemo o memo) := by
  refine of_values fun p v hkind => ?_
  rw [kindOf?_setMemo] at hkind
  split at hkind
  · obtain ⟨kind, hkind, hv⟩ := Option.map_eq_some_iff.mp hkind
    cases kind with
    | value w => exact hkind.trans (congrArg some hv)
    | closure c | application a | exception e => cases hv
  · exact hkind

theorem setKind (m : Heap) (o : ObjectId) {kind : ObjectKind} (hkind : ∀ v, kind ≠ .value v) :
    KeepsTags m (m.setKind o kind) := by
  refine of_values fun p v hv => ?_
  rw [Valid.kindOf?_setKind] at hv
  split at hv
  · obtain ⟨-, -, hv⟩ := Option.map_eq_some_iff.mp hv
    exact absurd hv (hkind v)
  · exact hv

theorem addObject (m : Heap) (hold : Hold) {kind : ObjectKind}
    (hkind : ∀ v, kind = .value v → m.Tagged v.type ∨ ∃ name, v.type = .named name) :
    KeepsTags m (m.addObject hold kind).2 := by
  rintro _ ⟨o, v, hv, rfl⟩
  rw [kindOf?, object?_addObject] at hv
  split at hv
  · exact hkind v (Option.some.inj hv)
  · exact .inl ⟨o, v, hv, rfl⟩

/-- Whatever runs, no tag is made up. -/
instance : IsCourse KeepsTags where
  refl _ := .of_contents rfl
  trans := .trans
  retainEdge m cell := .of_contents (contents_retainEdge m cell)
  retainWeak m o := .of_contents (contents_retainWeak m o)
  addObject m hold _ hkind := .addObject m hold fun v heq => by
    subst heq
    exact .inr hkind
  newThunk m state := .of_values fun _ _ hkind => hkind
  within h := .of_values fun o _ => h.kind o _
  keep _ _ := .of_values fun _ _ hkind => hkind
  reduce _ _ := .setKind _ _ (by simp)
  point _ _ := .setKind _ _ (by simp)
  memoize _ _ h := .setMemo _ _ (.done h)
  compute _ _ _ h _ := (setMemo _ _ .running).trans (h.trans (.setMemo _ _ _))
  declare m hold _ _ :=
    (of_values fun _ _ hkind => hkind : KeepsTags m (m.newCombinator _).2).trans
      (.addObject _ hold (by simp))
  fill _ _ _ := .setKind _ _ (by simp)
  clone {m o v} hkind := .addObject m (.shared 1 0) fun w heq => by
    cases heq
    exact .inl ⟨o, v, hkind, rfl⟩
  copy _ _ := .addObject _ (.shared 1 0) (by simp)
  copyFilled _ _ _ _ := .addObject _ (.shared 1 0) (by simp)

end KeepsTags

end Heap

/-- The variables in tags, and those that can be asked for again, have been drawn, one after the
other since the start. -/
structure Session.Issued (s : Session) : Prop where
  served : VarSupply.Serves {} s.machine.vars
  drawn : HasDrawn s
  tags : ∀ t, s.machine.heap.Tagged t → t.Issued s.machine.vars

namespace Session.Issued

variable {α β : Type} {s : Session} {act : Step α} {next : α → Step β}

theorem of_leads (hs : s.Issued) (h : Leads KeepsTags s act) : (ended (act s)).Issued := by
  obtain ⟨htags, hrequests⟩ := h
  obtain ⟨⟨ds, hds⟩, hdrawn⟩ := hrequests hs.drawn
  refine ⟨IsTrans.trans _ _ _ hs.served ⟨ds, hds⟩, hdrawn, fun t ht => ?_⟩
  obtain hold | ⟨name, rfl⟩ := htags t ht
  · exact (hs.tags t hold).mono hds.next_le
  · simp [Ty.Issued, Ty.leaves]

theorem bind (hact : (ended (act s)).Issued)
    (hnext : ∀ a s', act s = .ok a s' → s'.Issued → (ended (next a s')).Issued) :
    (ended ((act >>= next) s)).Issued := by
  rw [Balances.bind_run]
  cases hrun : act s with
  | ok a s' =>
    rw [hrun] at hact
    exact hnext a s' hrun hact
  | error failure s' =>
    rw [hrun] at hact
    exact hact

theorem box (hs : s.Issued) {t : Ty} (ht : t.Issued s.machine.vars) (payload : Payload) :
    (ended (Step.run (Run.newValue t payload) s)).Issued := by
  refine ⟨hs.served, ⟨hs.drawn.generics, hs.drawn.named⟩, ?_⟩
  rintro _ ⟨o, v, hv, rfl⟩
  have hkind : (s.machine.heap.newObject (.value ⟨t, payload⟩)).2.kindOf? o = some (.value v) := hv
  rw [kindOf?, newObject, object?_addObject] at hkind
  split at hkind
  · cases hkind
    exact ht
  · exact hs.tags _ ⟨o, v, hkind, rfl⟩

theorem producer (hs : s.Issued) (p : Producer) : (ended (p.run s)).Issued := by
  by_cases hp : ∀ type payload?, p ≠ .box type payload?
  · exact hs.of_leads (p.run_along_of_ne hp s)
  · push Not at hp
    obtain ⟨type, payload?, rfl⟩ := hp
    refine bind (hs.of_leads (Step.buildType_along type s)) fun t s₁ hbuild hs₁ => ?_
    have ht := (Step.buildType_drawn type s).2.2 hs.drawn t s₁ hbuild
    refine bind (hs₁.of_leads (Step.require_along _ _ s₁)) fun l s₂ hrequire hs₂ => ?_
    cases payload? with
    | none => cases hrequire
    | some l =>
      cases hrequire
      exact hs₁.box ht l.payload

theorem step (hs : s.Issued) (c : Command) : (s.step c).2.2.Issued := by
  rw [step_state]
  by_cases hc : ∀ p into, c ≠ .produce p into
  · exact hs.of_leads (c.run_along_of_ne hc s)
  · push Not at hc
    obtain ⟨p, into, rfl⟩ := hc
    exact bind (hs.producer p) fun h s₁ _ hs₁ => hs₁.of_leads
      ((Along.bind (Step.showAndKeep_along into h) fun _ => .pure _ : Along KeepsTags _) s₁)

theorem runAll (hs : s.Issued) (cs : List Command) : (s.runAll cs).2.Issued :=
  List.foldlRecOn cs _
    (motive := fun reached : List (Except Failure Answer × List String) × Session =>
      reached.2.Issued)
    hs fun _ hreached c _ => hreached.step c

end Session.Issued

/-! At the start there are the primitives, and no values. -/

theorem Primitive.serves_type (p : Primitive) (vars : VarSupply) : vars.Serves (p.type vars).2 := by
  cases p with
  | add | sub | mul | eq | lt => exact Std.Refl.refl _
  | ifThenElse | identity | fail | fix => exact ⟨_, .fresh .nil⟩
  | constant => exact ⟨_, .fresh (.fresh .nil)⟩

theorem Machine.serves_initial : VarSupply.Serves {} Machine.initial.vars :=
  List.foldlRecOn Primitive.all _ (motive := fun s : Machine => VarSupply.Serves {} s.vars)
    (Std.Refl.refl _) fun s hserves p _ => IsTrans.trans _ _ _ hserves (p.serves_type s.vars)

theorem Machine.keepsTags_initial : KeepsTags {} Machine.initial.heap :=
  List.foldlRecOn Primitive.all _ (motive := fun s : Machine => KeepsTags {} s.heap)
    (IsGrowth.refl _) fun s htags p _ =>
      htags.trans (IsCourse.declare s.heap .static (p.combinator_arity_pos s.vars))

namespace Session

theorem issued_initial (options : Options) : Issued { options } where
  served := Machine.serves_initial
  drawn := by
    obtain ⟨ds, hds⟩ := Machine.serves_initial
    exact ⟨hds.issued (by simp), by simp [HasHeap.named]⟩
  tags t ht := by
    obtain ⟨o, v, ⟨⟩, -⟩ | ⟨name, rfl⟩ := Machine.keepsTags_initial t ht
    simp [Ty.Issued, Ty.leaves]

/-- Whatever commands have been given, the heap is typable. -/
theorem typable (options : Options) (cs : List Command) :
    (runAll { options } cs).2.machine.heap.Typable (runAll { options } cs).2.machine.vars where
  proper o c hkind := (shaped options cs o c hkind).proper
  tags o v hkind := ((issued_initial options).runAll cs).tags v.type ⟨o, v, hkind, rfl⟩

/-- As long as identities have lasted, the generic variables are different ones. -/
theorem orderly (options : Options) (cs : List Command)
    (hfits : (runAll { options } cs).2.machine.vars.next ≤ VarSupply.capacity) :
    (runAll { options } cs).2.machine.vars.Orderly := by
  obtain ⟨ds, hds⟩ := ((issued_initial options).runAll cs).served
  exact (hds.accounts (VarSupply.orderly_of_next _) hfits).orderly

end Session

end GraphReduction
