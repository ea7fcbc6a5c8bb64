import Mathlib
import GraphReduction.Proofs.Supply.Heedless

/-! One computation that follows another. A computation only takes variables from the supply. It
follows another one if it ends as that one, perhaps on another supply, unless the other one gives
up. Where one reducer follows another, so do the bodies of the primitives over them. -/
namespace GraphReduction

open Run

namespace Run

variable {α β : Type}

/-- The supply that is left in the end. -/
def left : EStateM.Result Signal Machine α → VarSupply
  | .ok _ s => s.vars
  | .error _ s => s.vars

def GivesUp (result : EStateM.Result Signal Machine α) : Prop :=
  ∃ s, result = .error .exhausted s

/-- In what a run may differ from another one: in nothing, or in its supply of variables, as long as
it does not give up either. -/
inductive Leeway where
  | none
  | supply

namespace Leeway

def Admits : Leeway → VarSupply → VarSupply → Prop
  | none, vars, vars' => vars' = vars
  | supply, _, _ => True

def Fits : Leeway → EStateM.Result Signal Machine α → Prop
  | none, _ => True
  | supply, result => ¬ GivesUp result

theorem Fits.earlier {leeway : Leeway} {result : EStateM.Result Signal Machine β}
    {first : EStateM.Result Signal Machine α} (h : leeway.Fits result)
    (hfirst : GivesUp first → GivesUp result) : leeway.Fits first := by
  cases leeway with
  | none => trivial
  | supply => exact fun hgives => h (hfirst hgives)

end Leeway

/-- From the machine `s`, `act'` ends as `act` does up to the leeway, unless `act` gives up. -/
structure Follows (leeway : Leeway) (s : Machine) (act act' : Run α) : Prop where
  same : ∀ vars, leeway.Admits s.vars vars → ¬ GivesUp (act s) →
    leeway.Fits (act' (s.supplied vars)) → ∃ vars', leeway.Admits (left (act s)) vars' ∧
      act' (s.supplied vars) = supplied vars' (act s)

variable {act act' : Run α} {next next' : α → Run β} {leeway : Leeway} {s : Machine}

theorem left_supplied (vars : VarSupply) (result : EStateM.Result Signal Machine α) :
    left (supplied vars result) = vars := by
  cases result <;> rfl

theorem Heedless.left_eq (h : Heedless act) (s : Machine) : left (act s) = s.vars := by
  have hsame : act s = supplied s.vars (act s) := h s s.vars
  rw [hsame, left_supplied]

theorem Heedless.follows (h : Heedless act) : Follows leeway s act act :=
  ⟨fun vars hadmits _ _ => ⟨vars, (h.left_eq s).symm ▸ hadmits, h s vars⟩⟩

theorem givesUp_bind (h : GivesUp (act s)) : GivesUp ((act >>= next) s) := by
  obtain ⟨s', hact⟩ := h
  rw [bind_run, hact]
  exact ⟨s', rfl⟩

theorem givesUp_tryCatch {handle : Signal → Run α} (h : GivesUp (act s))
    (hthrough : ∀ s', GivesUp (handle .exhausted s')) : GivesUp (tryCatch act handle s) := by
  obtain ⟨s', hact⟩ := h
  rw [tryCatch_run, hact]
  exact hthrough s'

namespace Follows

theorem refl (act : Run α) (s : Machine) : Follows .none s act act := by
  refine ⟨?_⟩
  rintro vars rfl _ _
  refine ⟨left (act s), rfl, ?_⟩
  show act s = _
  cases act s <;> rfl

theorem of_givesUp (hgives : GivesUp (act s)) : Follows leeway s act act' :=
  ⟨fun _ _ hgoes _ => absurd hgives hgoes⟩

theorem bind_of (h : Follows leeway s act act')
    (hnext : ∀ a s', act s = .ok a s' → Follows leeway s' (next a) (next' a)) :
    Follows leeway s (act >>= next) (act' >>= next') := by
  refine ⟨fun vars hadmits hgoes hfits => ?_⟩
  obtain ⟨vars', hadmits', heq⟩ := h.same vars hadmits (fun hgives => hgoes (givesUp_bind hgives))
    (hfits.earlier givesUp_bind)
  rw [bind_run] at hgoes hfits ⊢
  rw [bind_run]
  rw [heq] at hfits ⊢
  cases hact : act s with
  | ok a s' =>
    rw [hact] at hadmits' hfits hgoes
    exact (hnext a s' hact).same vars' hadmits' hgoes hfits
  | error signal s' =>
    rw [hact] at hadmits'
    exact ⟨vars', hadmits', rfl⟩

theorem bind (h : Follows leeway s act act')
    (hnext : ∀ a s', Follows leeway s' (next a) (next' a)) :
    Follows leeway s (act >>= next) (act' >>= next') :=
  h.bind_of fun a s' _ => hnext a s'

theorem after {start : Run α} (hstart : Heedless start)
    (hnext : ∀ a s', start s = .ok a s' → Follows leeway s' (next a) (next' a)) :
    Follows leeway s (start >>= next) (start >>= next') :=
  hstart.follows.bind_of hnext

theorem step {start : Run α} {a : α} {s₁ : Machine} (hstart : Heedless start)
    (hrun : start s = .ok a s₁) (hnext : Follows leeway s₁ (next a) (next' a)) :
    Follows leeway s (start >>= next) (start >>= next') := by
  refine .after hstart fun a' s' hrun' => ?_
  cases hrun.symm.trans hrun'
  exact hnext

theorem inspect {f : Heap → α} (hnext : Follows leeway s (next (f s.heap)) (next' (f s.heap))) :
    Follows leeway s (Run.inspect f >>= next) (Run.inspect f >>= next') :=
  .step (.inspect f) rfl hnext

theorem tryCatch {handle handle' : Signal → Run α} (h : Follows leeway s act act')
    (hthrough : ∀ s', GivesUp (handle .exhausted s'))
    (hthrough' : ∀ s', GivesUp (handle' .exhausted s'))
    (hcatch : ∀ signal s', Follows leeway s' (handle signal) (handle' signal)) :
    Follows leeway s (MonadExcept.tryCatch act handle) (MonadExcept.tryCatch act' handle') := by
  refine ⟨fun vars hadmits hgoes hfits => ?_⟩
  obtain ⟨vars', hadmits', heq⟩ := h.same vars hadmits
    (fun hgives => hgoes (givesUp_tryCatch hgives hthrough))
    (hfits.earlier fun hgives => givesUp_tryCatch hgives hthrough')
  rw [tryCatch_run] at hgoes hfits ⊢
  rw [tryCatch_run]
  rw [heq] at hfits ⊢
  cases hact : act s with
  | ok a s' =>
    rw [hact] at hadmits'
    exact ⟨vars', hadmits', rfl⟩
  | error signal s' =>
    rw [hact] at hadmits' hfits hgoes
    exact (hcatch signal s').same vars' hadmits' hgoes hfits

theorem ite {c : Prop} [Decidable c] {other other' : Run α} (h : c → Follows leeway s act act')
    (hother : ¬ c → Follows leeway s other other') :
    Follows leeway s (if c then act else other) (if c then act' else other') := by
  by_cases hc : c
  · simpa only [if_pos hc] using h hc
  · simpa only [if_neg hc] using hother hc

theorem releasingOnSignal {h : Handle} (hact : Follows leeway s act act') :
    Follows leeway s (Run.releasingOnSignal h act) (Run.releasingOnSignal h act') :=
  hact.tryCatch (fun _ => ⟨_, rfl⟩) (fun _ => ⟨_, rfl⟩) fun _ _ =>
    (Heedless.bind (release_heedless h) fun _ => .throw _).follows

theorem releasing {h : Handle} (hact : Follows leeway s act act') :
    Follows leeway s (Run.releasing h act) (Run.releasing h act') :=
  .bind hact.releasingOnSignal fun _ _ =>
    (Heedless.bind (release_heedless h) fun _ => .pure _).follows

theorem of_run {guide : Run α} (h : Follows leeway s act act') (hrun : guide s = act s) :
    Follows leeway s guide act' := by
  refine ⟨fun vars hadmits hgoes hfits => ?_⟩
  rw [hrun] at hgoes ⊢
  exact h.same vars hadmits hgoes hfits

theorem eq_of_none (h : Follows .none s act act') (hgoes : ¬ GivesUp (act s)) : act' s = act s := by
  obtain ⟨vars, hadmits, heq⟩ := h.same s.vars rfl hgoes trivial
  have hvars : vars = left (act s) := hadmits
  have hact : act' s = supplied vars (act s) := heq
  rw [hact, hvars]
  cases act s <;> rfl

/-- Two computations that follow a third one that does not give up, one of them without leeway. -/
theorem compare {guide : Run α} (h : Follows .none s guide act) (h' : Follows leeway s guide act')
    (hgoes : ¬ GivesUp (guide s)) : Follows leeway s act act' :=
  h'.of_run (h.eq_of_none hgoes)

end Follows

end Run

section Bodies

variable {leeway : Leeway} {s : Machine} {reduce reduce' : Reducer} {α : Type}

theorem ThunkId.force_follows (hreduce : ∀ h s, Follows leeway s (reduce h) (reduce' h))
    (t : ThunkId) : Follows leeway s (t.force reduce) (t.force reduce') := by
  refine .bind t.state?_heedless.follows fun state? _ => ?_
  match state? with
  | some (.forced h) => exact (share_heedless h).follows
  | some (.recursive o) => exact (upgrade_heedless o).follows
  | some (.pending h) =>
    refine .bind (share_heedless h).follows fun _ _ => .releasing ?_
    exact .bind (Heedless.inspect _).follows fun _ _ => .bind (hreduce _ _) fun value _ =>
      (Heedless.ite (.pure _) (t.keep_heedless value)).follows
  | none => exact (newException_heedless _).follows

namespace Args

theorem thunk_heedless (args : Args) (i : Nat) : Heedless (args.thunk i) := by
  rw [thunk]
  cases args.closure.argument? i with
  | some t => exact .pure t
  | none => exact .raise _

theorem force_follows (hreduce : ∀ h s, Follows leeway s (reduce h) (reduce' h)) (args : Args)
    (i : Nat) : Follows leeway s (args.force reduce i) (args.force reduce' i) :=
  .bind (args.thunk_heedless i).follows fun t _ =>
    .bind (t.force_follows hreduce) fun h _ => (intoResult_heedless h).follows

theorem unbox_follows (hreduce : ∀ h s, Follows leeway s (reduce h) (reduce' h)) (args : Args)
    (i : Nat) (expected : TypeName) (take : Payload → Option α) :
    Follows leeway s (args.unbox reduce i expected take) (args.unbox reduce' i expected take) := by
  refine .bind (args.force_follows hreduce i) fun h _ => Heedless.follows ?_
  refine .bind (.inspect _) fun v? => ?_
  match v?.bind fun v => take v.payload with
  | some a => exact .bind (release_heedless h) fun _ => .pure a
  | none => exact .bind (.inspect _) fun _ => .bind (release_heedless h) fun _ => .raise _

end Args

theorem Run.tie_follows (hreduce : ∀ h s, Follows leeway s (reduce h) (reduce' h))
    (function : Handle) : Follows leeway s (tie reduce function) (tie reduce' function) := by
  refine .bind (Heedless.inspect _).follows fun c? _ => ?_
  match (c?.map Closure.missing).getD 0 with
  | 0 =>
    refine Heedless.follows (.bind (.inspect _) fun _ => ?_)
    exact .bind (release_heedless function) fun _ => .raise _
  | 1 =>
    refine .bind (newObject_heedless _).follows fun knot _ => ?_
    refine .bind (.releasing ?_) fun value _ => ?_
    · refine .bind (share_heedless knot).follows fun _ _ => ?_
      refine .bind (applyArgument_heedless _ _).follows fun saturated _ => .releasing ?_
      refine .bind (hreduce saturated _) fun _ _ => ?_
      refine Heedless.follows (.bind (intoResult_heedless _) fun value => ?_)
      exact .bind (resolve_heedless _ value) fun _ => .pure value
    · exact (Heedless.bind (.tied _ value) fun _ => .pure value).follows
  | n + 2 =>
    exact .releasing (bindSelf_heedless function).follows

end Bodies

end GraphReduction
