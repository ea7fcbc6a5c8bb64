import Mathlib
import GraphReduction.Proofs.Marks.Meaning

/-! How computations finish on a marked heap. `Finishes` says that a computation has a result of
which something is known, or ends with one of certain signals, and that what it leaves fits its
marks. There is one rule for each way to put computations together. -/
namespace GraphReduction

namespace Marks

variable {α β γ δ ε : Type}

/-- The end of a computation that started with the heap `m`, marked `M`. The result holds `post`, and
others hold `rest`. A computation that gives up may leave anything. -/
def Finishes (K : Meaning α β γ) (m : Heap) (M : Marks α β γ) (rest : Multiset Holding)
    (post : δ → Multiset Holding) (good : Heap → Marks α β γ → δ → Prop) (bad : Signal → Prop) :
    EStateM.Result Signal Machine δ → Prop
  | .ok x s => ∃ M', Advances rest m M s.heap M' ∧ M'.Upholds K s.heap (post x + rest) ∧
      good s.heap M' x
  | .error signal s => bad signal ∧
      (signal ≠ .exhausted → ∃ M', Advances rest m M s.heap M' ∧ M'.Upholds K s.heap rest)

def silent (_ : Signal) : Prop := False

namespace Finishes

variable {K : Meaning α β γ} {m m₁ : Heap} {M M₁ : Marks α β γ} {rest : Multiset Holding}
  {s z : Machine} {h : Handle} {post : δ → Multiset Holding} {post' : ε → Multiset Holding}
  {good good₁ : Heap → Marks α β γ → δ → Prop} {good' : Heap → Marks α β γ → ε → Prop}
  {bad bad' : Signal → Prop} {act : Run δ} {next : δ → Run ε}
  {result : EStateM.Result Signal Machine δ}

theorem of_ok {x : δ} (hev : Advances rest m M s.heap M₁) (hup : M₁.Upholds K s.heap (post x + rest))
    (hgood : good s.heap M₁ x) : Finishes K m M rest post good bad (.ok x s) :=
  ⟨M₁, hev, hup, hgood⟩

theorem of_error {signal : Signal} (hbad : bad signal) (hev : Advances rest m M s.heap M₁)
    (hup : M₁.Upholds K s.heap rest) : Finishes K m M rest post good bad (.error signal s) :=
  ⟨hbad, fun _ => ⟨M₁, hev, hup⟩⟩

theorem imp (h : Finishes K m M rest post good bad result)
    (hgood : ∀ m' M' x, good m' M' x → good₁ m' M' x) (hbad : ∀ signal, bad signal → bad' signal) :
    Finishes K m M rest post good₁ bad' result := by
  match result with
  | .ok x s =>
    obtain ⟨M', hev, hup, hgiven⟩ := h
    exact ⟨M', hev, hup, hgood _ _ _ hgiven⟩
  | .error signal s => exact ⟨hbad _ h.1, h.2⟩

theorem of_silent (h : Finishes K m M rest post good silent result) :
    Finishes K m M rest post good bad result :=
  h.imp (fun _ _ _ hgood => hgood) fun _ => False.elim

theorem result_of_silent (h : Finishes K m M rest post good silent result) :
    ∃ x s M', result = .ok x s ∧ Advances rest m M s.heap M' ∧
      M'.Upholds K s.heap (post x + rest) ∧ good s.heap M' x := by
  match result with
  | .ok x s =>
    obtain ⟨M', hlast⟩ := h
    exact ⟨x, s, M', rfl, hlast⟩
  | .error signal s => exact h.1.elim

theorem known {E : Heap → δ → Prop} (h : Finishes K m M rest post good bad (act s))
    (hknown : ∀ x s', act s = .ok x s' → E s'.heap x) :
    Finishes K m M rest post (fun m' M' x => good m' M' x ∧ E m' x) bad (act s) := by
  match hrun : act s with
  | .ok x s' =>
    rw [hrun] at h
    obtain ⟨M', hev, hup, hgood⟩ := h
    exact ⟨M', hev, hup, hgood, hknown x s' hrun⟩
  | .error signal s' =>
    rw [hrun] at h
    exact h

theorem keeping {own : Multiset Holding}
    (h : Finishes K m M (own + rest) post good silent result) :
    Finishes K m M rest (fun x => post x + own) good bad result := by
  obtain ⟨x, s, M', rfl, hev, hup, hgood⟩ := h.result_of_silent
  refine of_ok (hev.mono (Multiset.subset_of_le (Multiset.le_add_left ..))) ?_ hgood
  rwa [add_assoc]

theorem after (hev : Advances rest m M m₁ M₁) (h : Finishes K m₁ M₁ rest post good bad result) :
    Finishes K m M rest post good bad result := by
  match result with
  | .ok x s =>
    obtain ⟨M', hev', hlast⟩ := h
    exact ⟨M', hev.trans hev', hlast⟩
  | .error signal s =>
    refine ⟨h.1, fun hends => ?_⟩
    obtain ⟨M', hev', hlast⟩ := h.2 hends
    exact ⟨M', hev.trans hev', hlast⟩

theorem bind (h : Finishes K m M rest post good bad (act s))
    (hnext : ∀ x s' M', Advances rest m M s'.heap M' → M'.Upholds K s'.heap (post x + rest) →
      good s'.heap M' x → Finishes K s'.heap M' rest post' good' bad (next x s')) :
    Finishes K m M rest post' good' bad ((act >>= next) s) := by
  rw [Run.bind_run]
  match hrun : act s with
  | .ok x s' =>
    rw [hrun] at h
    obtain ⟨M', hev, hup, hgood⟩ := h
    exact (hnext x s' M' hev hup hgood).after hev
  | .error signal s' =>
    rw [hrun] at h
    exact h

theorem step {x : δ} (hact : act s = .ok x z) (hev : Advances rest m M z.heap M₁)
    (h : Finishes K z.heap M₁ rest post' good' bad (next x z)) :
    Finishes K m M rest post' good' bad ((act >>= next) s) := by
  rw [Run.bind_run, hact]
  exact h.after hev

theorem inspect {f : Heap → δ} (h : Finishes K s.heap M rest post' good' bad (next (f s.heap) s)) :
    Finishes K s.heap M rest post' good' bad ((Run.inspect f >>= next) s) :=
  step rfl (.refl ..) h

theorem released {signal : Signal}
    (hact : Finishes K m M (h.holding ::ₘ rest) post good bad (.error signal s)) :
    Finishes K m M rest post' good' bad (.error signal (s.on (·.release h))) := by
  refine ⟨hact.1, fun hends => ?_⟩
  obtain ⟨M', hev, hup⟩ := hact.2 hends
  exact ⟨M', (hev.mono (Multiset.subset_cons _ _)).trans
    (.release hup.valid (Multiset.Subset.refl _)), hup.release⟩

theorem releasing {good : Marks α β γ → δ → Prop}
    (hact : Finishes K m M (h.holding ::ₘ rest) post (fun _ => good) bad (act s)) :
    Finishes K m M rest post (fun _ => good) bad (Run.releasing h act s) := by
  have hsub : rest ⊆ h.holding ::ₘ rest := Multiset.subset_cons _ _
  rw [Run.releasing_run]
  match hrun : act s with
  | .ok x s' =>
    rw [hrun] at hact
    obtain ⟨M', hev, hup, hgood⟩ := hact
    rw [Multiset.add_cons] at hup
    exact of_ok (s := s'.on (·.release h)) ((hev.mono hsub).trans (.release hup.valid
      (Multiset.subset_of_le (Multiset.le_add_left ..)))) hup.release hgood
  | .error signal s' =>
    rw [hrun] at hact
    exact hact.released

theorem releasingOnSignal (hact : Finishes K m M (h.holding ::ₘ rest) post good bad (act s)) :
    Finishes K m M rest (fun x => h.holding ::ₘ post x)
      (fun m' M' x => good m' M' x ∧ M'.object h.target = M.object h.target) bad
      (Run.releasingOnSignal h act s) := by
  have hsub : rest ⊆ h.holding ::ₘ rest := Multiset.subset_cons _ _
  rw [Run.releasingOnSignal_run]
  match hrun : act s with
  | .ok x s' =>
    rw [hrun] at hact
    obtain ⟨M', hev, hup, hgood⟩ := hact
    refine of_ok (hev.mono hsub) ?_ ⟨hgood, hev.handle (Multiset.mem_cons_self ..)⟩
    rw [Multiset.cons_add, ← Multiset.add_cons]
    exact hup
  | .error signal s' =>
    rw [hrun] at hact
    exact hact.released

end Finishes

end Marks

end GraphReduction
