import Mathlib
import GraphReduction.Proofs.Session.Operations

/-! Declarations. The handles that a declaration names stay in their registers, so they are there
when the combinator takes its references to them. -/
namespace GraphReduction

open Heap

namespace Body

variable {α β : Type}

theorem captures_resolve? {find? : α → Option β} {found : List β}
    (hfind : ∀ a b, find? a = some b → b ∈ found) {body : Body α} {resolved : Body β}
    (h : body.resolve? find? = some resolved) : resolved.captures ⊆ found := by
  induction body generalizing resolved with
  | captured a =>
    obtain ⟨b, hb, rfl⟩ := Option.map_eq_some_iff.mp h
    simpa [captures] using hfind a b hb
  | apply a b iha ihb | bind a b iha ihb | pair a b iha ihb | seq a b iha ihb | recover a b iha ihb
  | compare _ _ _ a b iha ihb | cond _ a b iha ihb =>
    simp only [resolve?, Option.pure_def, Option.bind_eq_bind, Option.bind_eq_some_iff,
      Option.some.injEq] at h
    obtain ⟨a', ha, b', hb, rfl⟩ := h
    exact List.append_subset.mpr ⟨iha ha, ihb hb⟩
  | field _ e ih | eval e ih | clone e ih | bindSelf e ih | typeOf e ih | log _ e ih =>
    simp only [resolve?, Option.pure_def, Option.bind_eq_bind, Option.bind_eq_some_iff,
      Option.some.injEq] at h
    obtain ⟨e', he, rfl⟩ := h
    have hsub := ih he
    exact hsub
  | _ =>
    cases h
    exact List.nil_subset _

end Body

theorem Combinator.body_of_declare {name : String} {type : Ty} {arity? : Option Nat}
    {body : Body Handle} {k : Combinator} (h : declare name type arity? body = .ok k) :
    k.body = body := by
  simp only [declare] at h
  split at h
  · cases h
  · split at h
    · cases h
    · cases h
      rfl

namespace Step

variable {s s' : Session} {own : Multiset Holding}

theorem buildType_run (e : TyExpr) (s : Session) :
    ∃ vars varNames, match buildType e s with
      | .ok _ s' | .error _ s' => s' = { s with machine := { s.machine with vars }, varNames } := by
  rcases hbuild : e.build.run.run { supply := { vars := s.machine.vars }, varNames := s.varNames }
    with ⟨outcome, scope⟩
  refine ⟨scope.supply.vars, scope.varNames, ?_⟩
  have hget : (get : Step Session) s = .ok s s := rfl
  simp only [buildType, Balances.bind_run, hget, hbuild]
  rcases outcome with (_ | _ | _) | n <;> rfl

theorem buildType_keeps (e : TyExpr) : Keeps s own (buildType e) := by
  intro hgood
  obtain ⟨vars, varNames, hrun⟩ := buildType_run e s
  cases hbuild : buildType e s with
  | ok t s' =>
    rw [hbuild] at hrun
    rw [hrun]
    exact ⟨hgood.heap, hgood.handles, hgood.thunks, hgood.weaks⟩
  | error failure s' =>
    rw [hbuild] at hrun
    rw [hrun]
    exact ⟨hgood.heap, hgood.handles, hgood.thunks, hgood.weaks⟩

theorem renamed_keeps {α : Type} {act : Step α} {handle : Failure → Step α}
    (hhandle : ∀ failure, ∃ other, handle failure = throw other) (hact : Keeps s own act) :
    Keeps s own (tryCatch act handle) := by
  refine .tryCatch hact fun failure s' _ => ?_
  obtain ⟨other, hother⟩ := hhandle failure
  rw [hother]
  exact .throw rfl

theorem renamed_ok {α : Type} {act : Step α} {handle : Failure → Step α} {a : α}
    (hhandle : ∀ failure, ∃ other, handle failure = throw other)
    (hrun : tryCatch act handle s = .ok a s') : act s = .ok a s' := by
  rw [Balances.tryCatch_run] at hrun
  cases hact : act s with
  | ok b s₁ => rwa [hact] at hrun
  | error failure s₁ =>
    obtain ⟨other, hother⟩ := hhandle failure
    rw [hact] at hrun
    dsimp only at hrun
    rw [hother] at hrun
    cases hrun

theorem captured_run (own : Multiset Holding) {names : List String} {captured : List Handle}
    {s' : Session} (hrun : names.mapM handleNamed s = .ok captured s') :
    s' = s ∧ ∀ h ∈ captured, s.Holds own h := by
  induction names generalizing captured with
  | nil =>
    cases hrun
    exact ⟨rfl, by simp⟩
  | cons name names ih =>
    rw [List.mapM_cons, Balances.bind_run] at hrun
    cases hname : handleNamed name s with
    | error failure s₁ => simp [hname] at hrun
    | ok h s₁ =>
      obtain ⟨rfl, hlookup⟩ := handleNamed_run hname
      rw [hname] at hrun
      dsimp only at hrun
      rw [Balances.bind_run] at hrun
      cases hrest : names.mapM handleNamed s₁ with
      | error failure s₂ => simp [hrest] at hrun
      | ok rest s₂ =>
        rw [hrest] at hrun
        cases hrun
        obtain ⟨rfl, hheld⟩ := ih hrest
        refine ⟨rfl, fun g hg => ?_⟩
        rcases List.mem_cons.mp hg with rfl | hg
        · exact Session.Holds.of_lookup hlookup
        · exact hheld g hg

theorem captured_keeps (names : List String) : Keeps s own (names.mapM handleNamed) := by
  induction names generalizing s with
  | nil => exact .pure [] rfl
  | cons name names ih =>
    rw [List.mapM_cons]
    exact .bind (handleNamed_keeps name) fun h s₁ _ => .bind ih fun rest s₂ _ => .pure _ rfl

theorem declare_yields (d : Declaration) : Yields s own (declare d) := by
  refine .bind (captured_keeps d.captured) fun captured s₁ hcaptured => ?_
  obtain ⟨rfl, hheld⟩ := captured_run own hcaptured
  refine require_bind fun written _ => require_bind fun body hbody => require_bind fun name _ => ?_
  refine .bind (renamed_keeps (fun failure => ?_) (buildType_keeps d.type)) fun type s₂ htype => ?_
  · cases failure <;> exact ⟨_, rfl⟩
  refine require_bind fun arity? _ => require_bind fun static? _ => ?_
  cases hdeclare : Combinator.declare name type arity? (.log name body) with
  | error error => exact .throw rfl
  | ok k =>
    refine .given fun hgood => run_balances (Run.declare_balances k (static?.getD false) ?_)
    intro h hh
    have hcapture : h ∈ captured := by
      refine Body.captures_resolve? (fun _ _ => List.mem_of_getElem?) hbody ?_
      rwa [Combinator.body_of_declare hdeclare] at hh
    -- the registers are what they were when the captures were looked up
    obtain ⟨vars, varNames, hsame⟩ := buildType_run d.type s₁
    rw [renamed_ok (fun failure => by cases failure <;> exact ⟨_, rfl⟩) htype] at hsame
    refine hgood.isLive ?_
    have hholds := hheld h hcapture
    rw [hsame]
    exact hholds

end Step

end GraphReduction
