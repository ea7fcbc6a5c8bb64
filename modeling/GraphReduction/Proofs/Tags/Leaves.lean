import Mathlib
import GraphReduction.Proofs.Tags.Upright

/-! Computations that leave tags truthful. Whatever way such a computation ends, the heap is in
order and what others refer to is as it was but for results; what it returns is as good as it is
said to be. There is one rule for each way to put computations together. -/
namespace GraphReduction

open Heap ObjectKind

variable {α β : Type} {m m₁ : Heap} {rest : Multiset Holding}

def objectsOf (rest : Multiset Holding) : Set ObjectId := { o | .strong (.object o) ∈ rest }

theorem objectsOf_subset {rest' : Multiset Holding} (hsub : rest ⊆ rest') :
    objectsOf rest ⊆ objectsOf rest' :=
  fun _ ho => hsub ho

/-- The end of a computation that started with the heap `m`. The result holds `post`, and others
hold `rest`. -/
def Leaves (m : Heap) (rest : Multiset Holding) (post : α → Multiset Holding)
    (good : Heap → α → Prop) : EStateM.Result Signal Machine α → Prop
  | .ok a s => Spares (objectsOf rest) m s.heap ∧ s.heap.Upright (post a + rest) ∧ good s.heap a
  | .error _ s => Spares (objectsOf rest) m s.heap ∧ s.heap.Upright rest

/-- What is true of a result as long as what tags say is. -/
def Persists (good : Heap → α → Prop) : Prop :=
  ∀ m m' a, (∀ o, m.Lasts m' o) → good m a → good m' a

theorem persists_honest : Persists fun (m : Heap) (h : Handle) => m.Honest h :=
  fun _ _ _ hlasts hhonest => (hlasts _).honest hhonest

theorem persists_final : Persists fun (m : Heap) (h : Handle) => m.Final h :=
  fun _ _ _ hlasts hfinal => (hlasts _).final hfinal

namespace Leaves

variable {s z : Machine} {post : α → Multiset Holding} {post' : β → Multiset Holding}
  {good good₁ : Heap → α → Prop} {good' : Heap → β → Prop} {act : Run α} {next : α → Run β}

theorem of_ok {a : α} (hspares : Spares (objectsOf rest) m s.heap)
    (hup : s.heap.Upright (post a + rest)) (hgood : good s.heap a) :
    Leaves m rest post good (.ok a s) :=
  ⟨hspares, hup, hgood⟩

theorem of_error {signal : Signal} (hspares : Spares (objectsOf rest) m s.heap)
    (hup : s.heap.Upright rest) : Leaves m rest post good (.error signal s) :=
  ⟨hspares, hup⟩

theorem pure {a : α} (hup : s.heap.Upright (post a + rest)) (hgood : good s.heap a) :
    Leaves s.heap rest post good ((Pure.pure a : Run α) s) :=
  ⟨.refl .., hup, hgood⟩

theorem throw {signal : Signal} (hup : s.heap.Upright rest) :
    Leaves s.heap rest post good ((MonadExcept.throw signal : Run α) s) :=
  ⟨.refl .., hup⟩

theorem raise {e : EvalError} (hup : s.heap.Upright rest) :
    Leaves s.heap rest post good ((Run.raise e : Run α) s) :=
  ⟨.refl .., hup⟩

theorem imp {result : EStateM.Result Signal Machine α} (h : Leaves m rest post good result)
    (hgood : ∀ m' a, good m' a → good₁ m' a) : Leaves m rest post good₁ result := by
  cases result with
  | ok a s => exact ⟨h.1, h.2.1, hgood _ _ h.2.2⟩
  | error signal s => exact h

theorem after {result : EStateM.Result Signal Machine α} (hspares : Spares (objectsOf rest) m m₁)
    (h : Leaves m₁ rest post good result) : Leaves m rest post good result := by
  cases result with
  | ok a s => exact ⟨hspares.trans h.1, h.2⟩
  | error signal s => exact ⟨hspares.trans h.1, h.2⟩

theorem bind (h : Leaves m rest post good (act s))
    (hnext : ∀ a s', Spares (objectsOf rest) m s'.heap → s'.heap.Upright (post a + rest) →
      good s'.heap a → Leaves s'.heap rest post' good' (next a s')) :
    Leaves m rest post' good' ((act >>= next) s) := by
  rw [Run.bind_run]
  cases hact : act s with
  | ok a s' =>
    rw [hact] at h
    exact (hnext a s' h.1 h.2.1 h.2.2).after h.1
  | error signal s' =>
    rw [hact] at h
    exact h

theorem step {a : α} (hact : act s = .ok a z) (hspares : Spares (objectsOf rest) m z.heap)
    (h : Leaves z.heap rest post' good' (next a z)) :
    Leaves m rest post' good' ((act >>= next) s) := by
  rw [Run.bind_run, hact]
  exact h.after hspares

theorem inspect {f : Heap → α} (h : Leaves s.heap rest post' good' (next (f s.heap) s)) :
    Leaves s.heap rest post' good' ((Run.inspect f >>= next) s) :=
  step rfl (.refl ..) h

theorem releasing {h : Handle} (hact : Leaves m (h.holding ::ₘ rest) post good (act s))
    (hpersists : Persists good) : Leaves m rest post good (Run.releasing h act s) := by
  have hsub : objectsOf rest ⊆ objectsOf (h.holding ::ₘ rest) :=
    objectsOf_subset (Multiset.subset_cons _ _)
  rw [Run.releasing_run]
  cases hrun : act s with
  | ok a s' =>
    rw [hrun] at hact
    obtain ⟨hspares, hup, ha⟩ := hact
    rw [Multiset.add_cons] at hup
    have hrelease : Spares Set.univ s'.heap (s'.heap.release h) := .release s'.heap h
    exact ⟨(hspares.mono hsub).trans (.release s'.heap h), hup.release,
      hpersists _ _ a (fun _ => hrelease.lasts trivial) ha⟩
  | error signal s' =>
    rw [hrun] at hact
    exact ⟨(hact.1.mono hsub).trans (.release s'.heap h), hact.2.release⟩

theorem releasingOnSignal {h : Handle} (hact : Leaves m (h.holding ::ₘ rest) post good (act s)) :
    Leaves m rest (fun a => h.holding ::ₘ post a)
      (fun m' a => good m' a ∧ m.StaysAt m' h.target) (Run.releasingOnSignal h act s) := by
  have hsub : objectsOf rest ⊆ objectsOf (h.holding ::ₘ rest) :=
    objectsOf_subset (Multiset.subset_cons _ _)
  rw [Run.releasingOnSignal_run]
  cases hrun : act s with
  | ok a s' =>
    rw [hrun] at hact
    obtain ⟨hspares, hup, ha⟩ := hact
    refine ⟨hspares.mono hsub, ?_, ha, hspares.object _ (Multiset.mem_cons_self _ _)⟩
    rwa [Multiset.cons_add, ← Multiset.add_cons]
  | error signal s' =>
    rw [hrun] at hact
    exact ⟨(hact.1.mono hsub).trans (.release s'.heap h), hact.2.release⟩

theorem tryCatch {handle : Signal → Run α} (hact : Leaves m rest post good (act s))
    (hhandle : ∀ signal s', Spares (objectsOf rest) m s'.heap → s'.heap.Upright rest →
      Leaves s'.heap rest post good (handle signal s')) :
    Leaves m rest post good (MonadExcept.tryCatch act handle s) := by
  rw [Run.tryCatch_run]
  cases hrun : act s with
  | ok a s' =>
    rw [hrun] at hact
    exact hact
  | error signal s' =>
    rw [hrun] at hact
    exact (hhandle signal s' hact.1 hact.2).after hact.1

end Leaves

/-- The computation has a result whatever happens, so that nothing has to be given back. -/
def Produces (rest : Multiset Holding) (s : Machine) (act : Run α) (post : α → Multiset Holding)
    (good : Heap → α → Prop) : Prop :=
  ∃ a s', act s = .ok a s' ∧ Spares (objectsOf rest) s.heap s'.heap ∧
    s'.heap.Upright (post a + rest) ∧ good s'.heap a

namespace Produces

variable {s : Machine} {act : Run α} {next : α → Run β} {post : α → Multiset Holding}
  {post' : β → Multiset Holding} {good : Heap → α → Prop} {good' : Heap → β → Prop}

theorem leaves (h : Produces rest s act post good) : Leaves s.heap rest post good (act s) := by
  obtain ⟨a, s', hrun, hspares, hup, hgood⟩ := h
  rw [hrun]
  exact .of_ok hspares hup hgood

theorem pure {a : α} (hup : s.heap.Upright (post a + rest)) (hgood : good s.heap a) :
    Produces rest s (Pure.pure a) post good :=
  ⟨a, s, rfl, .refl .., hup, hgood⟩

theorem bind (h : Produces rest s act post good)
    (hnext : ∀ a s', Spares (objectsOf rest) s.heap s'.heap → s'.heap.Upright (post a + rest) →
      good s'.heap a → Produces rest s' (next a) post' good') :
    Produces rest s (act >>= next) post' good' := by
  obtain ⟨a, s', hrun, hspares, hup, hgood⟩ := h
  obtain ⟨b, s'', hrun', hspares', hlast⟩ := hnext a s' hspares hup hgood
  exact ⟨b, s'', by rw [Run.bind_run, hrun]; exact hrun', hspares.trans hspares', hlast⟩

theorem step {a : α} {z : Machine} (hact : act s = .ok a z)
    (hspares : Spares (objectsOf rest) s.heap z.heap)
    (h : Produces rest z (next a) post' good') : Produces rest s (act >>= next) post' good' := by
  obtain ⟨b, s'', hrun', hspares', hlast⟩ := h
  exact ⟨b, s'', by rw [Run.bind_run, hact]; exact hrun', hspares.trans hspares', hlast⟩

theorem inspect {f : Heap → α} {next : α → Run β}
    (h : Produces rest s (next (f s.heap)) post' good') :
    Produces rest s (Run.inspect f >>= next) post' good' :=
  step rfl (.refl ..) h

theorem beside {own : Multiset Holding} (h : Produces (own + rest) s act post good) :
    Produces rest s act (fun a => own + post a) good := by
  obtain ⟨a, s', hrun, hspares, hup, hgood⟩ := h
  refine ⟨a, s', hrun, hspares.mono (objectsOf_subset ?_), ?_, hgood⟩
  · exact Multiset.subset_of_le (Multiset.le_add_left ..)
  · rwa [add_left_comm, ← add_assoc] at hup

end Produces

end GraphReduction
