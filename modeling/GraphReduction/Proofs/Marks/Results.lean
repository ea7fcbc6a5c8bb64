import Mathlib
import GraphReduction.Proofs.Marks.Finishes
import GraphReduction.Proofs.Moves.Evaluator

/-! Keeping results on a marked heap. Thunks, nodes and memos keep a result where it fits their mark,
and the marks stay as they are. Whoever comes second takes what was kept. -/
namespace GraphReduction

open Heap Marks

variable {α β γ : Type} {K : Meaning α β γ} {M : Marks α β γ} {m : Heap} {rest : Multiset Holding}
  {s : Machine} {o : ObjectId} {h : Handle} {t : ThunkId} {c : Closure} {bad bad' : Signal → Prop}

theorem Marks.Upholds.of_outcome {e : EvalError}
    (hup : M.Upholds K m (Evaluator.outcome (.error e) + rest)) : M.Upholds K m rest :=
  Upholds.of_error (by simpa [Evaluator.outcome] using hup)

namespace ThunkId

variable {value : Handle}

theorem keep_pending (hup : M.Upholds K s.heap (value.holding ::ₘ rest))
    (hstate : s.heap.stateOf? t = some (.pending h))
    (hsuspends : K.suspends M (.forced value) (M.thunk t)) :
    Finishes K s.heap M rest (fun r : Handle => {r.holding}) (fun _ M' r => M' = M ∧ r = value) bad
      (t.keep value s) := by
  have hshared := hup.share (h := value) (hup.live (Multiset.mem_cons_self ..))
  have hstate' : (s.heap.retain value).stateOf? t = some (.pending h) :=
    (stateOf?_congr (contents_retain _ _) t).trans hstate
  have hkept := hshared.keep hstate' hsuspends
  refine .step (state?_run t s) (.refl ..) ?_
  rw [hstate]
  refine .step (Run.share_run value s) .share (.step rfl (.keep t value) (.step rfl
    (.release hkept.valid (Multiset.subset_cons _ _)) ?_))
  exact .of_ok (.refl ..) hkept.release ⟨rfl, rfl⟩

theorem keep_forced {first : Handle} (hup : M.Upholds K s.heap (value.holding ::ₘ rest))
    (hstate : s.heap.stateOf? t = some (.forced first)) :
    Finishes K s.heap M rest (fun r : Handle => {r.holding}) (fun _ M' r => M' = M ∧ r = first) bad
      (t.keep value s) := by
  have hshared := hup.share (h := first) (hup.live_of_state hstate (by simp [Handle.holding]))
  rw [Multiset.cons_swap] at hshared
  refine .step (state?_run t s) (.refl ..) ?_
  rw [hstate]
  refine .step (Run.share_run first s) .share (.step rfl
    (.release hshared.valid (Multiset.subset_cons _ _)) ?_)
  exact .of_ok (.refl ..) hshared.release ⟨rfl, rfl⟩

end ThunkId

namespace Run

variable {r : Handle}

theorem store_pending {f x : Handle} (hup : M.Upholds K s.heap (r.holding ::ₘ rest))
    (hkind : s.heap.kindOf? o = some (.application (.pending f x)))
    (hreads : K.reads M s.heap o (.application (.reduced r.asCached)) (M.object o)) :
    Finishes K s.heap M rest (fun r : Handle => {r.holding}) (fun _ M' r' => M' = M ∧ r' = r.asCached)
      bad (store o r s) := by
  have hsame : (s.heap.retain r.asCached).contents = s.heap.contents := contents_retain ..
  have hlook : s.heap.kind? (.plain o) = some (.application (.pending f x)) := hkind
  have hkind' := (kindOf?_congr hsame o).trans hkind
  rw [← Handle.holding_asCached] at hup
  have hstored := (hup.share (hup.live (Multiset.mem_cons_self ..))).reduce hkind'
    (K.reads_of_agrees (.refl M _) (fun t p _ hp => (stateOf?_congr hsame t).symm.trans hp) hreads)
  refine .inspect ?_
  rw [hlook]
  refine .step (share_run _ s) .share (.step rfl (.setKind hkind' (by simp) (by simp)) (.step rfl
    (.release hstored.valid fun p hp => by simp [hp]) (.step rfl
      (.release hstored.release.valid (Multiset.subset_cons _ _)) ?_)))
  exact .of_ok (.refl ..) hstored.release.release ⟨rfl, rfl⟩

theorem store_reduced {first : Handle} (hup : M.Upholds K s.heap (r.holding ::ₘ rest))
    (hkind : s.heap.kindOf? o = some (.application (.reduced first))) :
    Finishes K s.heap M rest (fun r : Handle => {r.holding}) (fun _ M' r' => M' = M ∧ r' = first) bad
      (store o r s) := by
  have hlook : s.heap.kind? (.plain o) = some (.application (.reduced first)) := hkind
  have hshared := hup.share (h := first) (hup.live_of_kind hkind (by simp [Handle.holding]))
  rw [Multiset.cons_swap, ← Handle.holding_asCached] at hshared
  refine .inspect ?_
  rw [hlook]
  refine .step (share_run first s) .share (.step rfl
    (.release hshared.valid (Multiset.subset_cons _ _)) ?_)
  exact .of_ok (.refl ..) hshared.release ⟨rfl, rfl⟩

end Run

namespace Evaluator

open Run

theorem memoized_finishes {good : Marks α β γ → Handle → Prop} {act : Run Handle}
    (hheld : h.holding ∈ rest) (hkind : s.heap.kindOf? h.target = some (.closure c))
    (hempty : c.memo = .empty)
    (hdone : ∀ m' M' r, good M' r → M'.object h.target = M.object h.target →
      K.reads M' m' h.target (.closure { c with memo := .running }) (M'.object h.target) →
        K.reads M' m' h.target (.closure { c with memo := .done r }) (M'.object h.target))
    (hforget : ∀ m' M', K.reads M' m' h.target (.closure { c with memo := .running })
      (M'.object h.target) → K.reads M' m' h.target (.closure c) (M'.object h.target))
    (hact : Finishes K (s.heap.setMemo h.target .running) M rest (fun r : Handle => {r.holding})
      (fun _ => good) bad (act (s.on (·.setMemo h.target .running))))
    (hbad : ∀ signal, bad signal → bad' signal) :
    Finishes K s.heap M rest (fun r : Handle => {r.holding}) (fun _ => good) bad'
      ((do
        change (·.setMemo h.target .running)
        let value ← tryCatch act fun signal => do
          change (·.setMemo h.target .empty)
          throw signal
        let kept ← share value
        change (·.setMemo h.target (.done kept))
        pure value : Run Handle) s) := by
  have hrunning : (s.heap.setMemo h.target .running).kindOf? h.target =
      some (.closure { c with memo := .running }) := by
    rw [kindOf?_setMemo, if_pos rfl, hkind]
    rfl
  -- while it runs, nobody else writes the memo
  have hafter : ∀ {m' : Heap} {M' : Marks α β γ},
      Advances rest (s.heap.setMemo h.target .running) M m' M' →
        m'.kindOf? h.target = some (.closure { c with memo := .running }) := fun hev =>
    hev.kindOf?_eq hheld hrunning (by simp)
  rw [Run.bind_run, change_run]
  dsimp only
  rw [Run.bind_run, tryCatch_run, show { s with heap := s.heap.setMemo h.target .running } =
    s.on (·.setMemo h.target .running) from rfl]
  cases hrun : act (s.on (·.setMemo h.target .running)) with
  | ok value s' =>
    rw [hrun] at hact
    obtain ⟨M', hev, hup, hgood⟩ := hact
    rw [Multiset.singleton_add] at hup
    have hsame : (s'.heap.retain value).contents = s'.heap.contents := contents_retain ..
    have hshared := hup.share (h := value) (hup.live (Multiset.mem_cons_self ..))
    have hkind' := (kindOf?_congr hsame h.target).trans (hafter hev)
    have hkept : M'.Upholds K ((s'.heap.retain value).setMemo h.target (.done value))
        (value.holding ::ₘ rest) :=
      hshared.setMemo hkind' (by simp [Memo.result?])
        (hdone _ _ _ hgood (hev.handle hheld) (hshared.fits.object _ _ hkind'))
    exact .of_ok (s := s'.on fun m => (m.retain value).setMemo h.target (.done value))
      ((hev.trans .share).around hkind hempty (by simp)) hkept hgood
  | error signal s' =>
    rw [hrun] at hact
    refine ⟨hbad signal hact.1, fun hends => ?_⟩
    obtain ⟨M', hev, hup⟩ := hact.2 hends
    have hforgotten := hforget _ _ (hup.fits.object _ _ (hafter hev))
    rw [show c = { c with memo := .empty } by rw [← hempty]] at hforgotten
    exact ⟨M', hev.around hkind hempty (by simp),
      hup.setMemo (hafter hev) (by simp [Memo.result?]) hforgotten⟩

end Evaluator

end GraphReduction
