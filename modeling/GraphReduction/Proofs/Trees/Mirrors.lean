import Mathlib
import GraphReduction.Proofs.Marks.Finishes
import GraphReduction.Proofs.Trees.Reading

/-! Computations on a heap that mirror evaluations of trees. A computation with a result or an error
has the one that the tree comes to when it is given enough layers; a computation that gives up was
given too few layers for the tree, or would have waited for a result that is being computed. There
is one rule for each way to put computations together. -/
namespace GraphReduction

open Marks Reading

variable {α β γ δ : Type} {options : Options} {d : Nat} {m m' m₁ : Heap} {R R' R₁ : Reading}
  {rest : Multiset Holding}

/-- As far as so many layers go, nothing comes of what is being computed. -/
def Reading.Waits (options : Options) (m : Heap) (R : Reading) (n : Nat) : Prop :=
  ∀ o, m.Running o → ∀ k ≤ n, Tree.reduceUpTo options k (R.object o) = .error .exhausted

theorem Reading.Waits.advances {n : Nat} (h : Waits options m R n)
    (hev : Advances rest m R m' R') : Waits options m' R' n := by
  intro o ho k hk
  obtain ⟨hrunning, hsame⟩ := hev.running o ho
  rw [hsame]
  exact h o hrunning k hk

/-- The signal with which an evaluation ends as well, as far as `d` layers go. -/
def Foretold (options : Options) (d : Nat) (m : Heap) (R : Reading)
    (layers : Nat → Except Signal β) : Signal → Prop
  | .exhausted => ∀ n ≤ d, Waits options m R n → layers n = .error .exhausted
  | signal => Settles layers (.error signal)

/-- The end of a computation that started with the heap `m`, which `R` read, and the evaluation that
it mirrors. The result holds `post`, and others hold `rest`. -/
def Mirrors (options : Options) (d : Nat) (m : Heap) (R : Reading) (rest : Multiset Holding)
    (post : α → Multiset Holding) (good : Reading → α → β → Prop)
    (layers : Nat → Except Signal β) : EStateM.Result Signal Machine α → Prop :=
  Finishes (meaning options) m R rest post
    (fun _ R' a => ∃ b, good R' a b ∧ Settles layers (.ok b)) (Foretold options d m R layers)

namespace Foretold

variable {layers : Nat → Except Signal β} {signal : Signal}

theorem after (hev : Advances rest m R m₁ R₁) (h : Foretold options d m₁ R₁ layers signal) :
    Foretold options d m R layers signal := by
  match signal with
  | .raised e => exact h
  | .panicked p => exact h
  | .exhausted => exact fun n hn hwaits => h n hn (hwaits.advances hev)

theorem bind {g : β → Nat → Except Signal δ} (h : Foretold options d m R layers signal) :
    Foretold options d m R (fun n => layers n >>= fun b => g b n) signal := by
  match signal with
  | .raised e => exact Settles.bind_error h
  | .panicked p => exact Settles.bind_error h
  | .exhausted =>
    intro n hn hwaits
    dsimp only
    rw [h n hn hwaits]
    rfl

end Foretold

namespace Mirrors

variable {s z : Machine} {post : α → Multiset Holding} {post' : γ → Multiset Holding}
  {good good₁ : Reading → α → β → Prop} {good' : Reading → γ → δ → Prop}
  {layers : Nat → Except Signal β} {layers' : Nat → Except Signal δ}
  {act : Run α} {next : α → Run γ}

theorem of_ok {a : α} {b : β} (hev : Advances rest m R s.heap R₁)
    (hup : R₁.Upholds options s.heap (post a + rest)) (hgood : good R₁ a b)
    (hlayers : Settles layers (.ok b)) :
    Mirrors options d m R rest post good layers (.ok a s) :=
  Finishes.of_ok hev hup ⟨b, hgood, hlayers⟩

theorem raised {e : EvalError} (hev : Advances rest m R s.heap R₁)
    (hup : R₁.Upholds options s.heap rest) (hlayers : Settles layers (.error (.raised e))) :
    Mirrors options d m R rest post good layers (.error (.raised e) s) :=
  Finishes.of_error hlayers hev hup

theorem panicked {p : PanicPayload} (hev : Advances rest m R s.heap R₁)
    (hup : R₁.Upholds options s.heap rest) (hlayers : Settles layers (.error (.panicked p))) :
    Mirrors options d m R rest post good layers (.error (.panicked p) s) :=
  Finishes.of_error hlayers hev hup

theorem exhausted (h : ∀ n ≤ d, Waits options m R n → layers n = .error .exhausted) :
    Mirrors options d m R rest post good layers (.error .exhausted s) :=
  ⟨h, fun hends => (hends rfl).elim⟩

theorem imp {result : EStateM.Result Signal Machine α}
    (h : Mirrors options d m R rest post good layers result)
    (hgood : ∀ R' a b, good R' a b → good₁ R' a b) :
    Mirrors options d m R rest post good₁ layers result :=
  Finishes.imp h (fun _ _ _ ⟨b, hgiven, hlayers⟩ => ⟨b, hgood _ _ _ hgiven, hlayers⟩) fun _ h => h

theorem after {result : EStateM.Result Signal Machine α} (hev : Advances rest m R m₁ R₁)
    (h : Mirrors options d m₁ R₁ rest post good layers result) :
    Mirrors options d m R rest post good layers result :=
  Finishes.imp (Finishes.after hev h) (fun _ _ _ h => h) fun _ hsignal => hsignal.after hev

/-- Once it is known what the tree has come to, what follows mirrors what is made of that. -/
theorem settled {result : EStateM.Result Signal Machine γ} {o : Except Signal β}
    {f : Except Signal β → Nat → Except Signal δ} (hlayers : Settles layers o)
    (hgiven : ∀ n, f (.error .exhausted) n = .error .exhausted)
    (h : Mirrors options d m R rest post' good' (f o) result) :
    Mirrors options d m R rest post' good' (fun n => f (layers n) n) result := by
  refine Finishes.imp h (fun _ _ _ ⟨b, hgood, hlast⟩ => ⟨b, hgood, hlayers.after hgiven hlast⟩)
    fun signal hsignal => ?_
  match signal with
  | .raised e => exact hlayers.after hgiven hsignal
  | .panicked p => exact hlayers.after hgiven hsignal
  | .exhausted =>
    intro n hn hwaits
    dsimp only
    obtain hnone | hvalue := hlayers.eq_or n
    · rw [hnone, hgiven]
    · rw [hvalue]
      exact hsignal n hn hwaits

theorem givenUp {f : Except Signal β → Nat → Except Signal δ}
    (h : Mirrors options d m R rest post good layers (.error .exhausted s))
    (hgiven : ∀ n, f (.error .exhausted) n = .error .exhausted) :
    Mirrors options d m R rest post' good' (fun n => f (layers n) n) (.error .exhausted s) := by
  refine .exhausted fun n hn hwaits => ?_
  rw [h.1 n hn hwaits, hgiven]

theorem bind {g : β → Nat → Except Signal δ}
    (h : Mirrors options d m R rest post good layers (act s))
    (hnext : ∀ a s' (R' : Reading) b, Advances rest m R s'.heap R' →
      R'.Upholds options s'.heap (post a + rest) → good R' a b → Settles layers (.ok b) →
      Mirrors options d s'.heap R' rest post' good' (g b) (next a s')) :
    Mirrors options d m R rest post' good' (fun n => layers n >>= fun b => g b n)
      ((act >>= next) s) := by
  refine Finishes.bind (Finishes.imp h (fun _ _ _ h => h) fun _ hsignal => hsignal.bind)
    fun a s' R' hev hup ⟨b, hgood, hlayers⟩ => ?_
  have hlast := settled (f := fun o n => o >>= fun b => g b n) hlayers (fun _ => rfl)
    (hnext a s' R' b hev hup hgood hlayers)
  exact Finishes.imp hlast (fun _ _ _ h => h) fun _ hsignal => hsignal.after hev

theorem step {a : α} (hact : act s = .ok a z) (hev : Advances rest m R z.heap R₁)
    (h : Mirrors options d z.heap R₁ rest post' good' layers' (next a z)) :
    Mirrors options d m R rest post' good' layers' ((act >>= next) s) := by
  rw [Run.bind_run, hact]
  exact h.after hev

theorem inspect {f : Heap → α}
    (h : Mirrors options d s.heap R rest post' good' layers' (next (f s.heap) s)) :
    Mirrors options d s.heap R rest post' good' layers' ((Run.inspect f >>= next) s) :=
  step rfl (.refl ..) h

theorem releasing {h : Handle}
    (hact : Mirrors options d m R (h.holding ::ₘ rest) post good layers (act s)) :
    Mirrors options d m R rest post good layers (Run.releasing h act s) :=
  Finishes.releasing hact

theorem releasingOnSignal {h : Handle}
    (hact : Mirrors options d m R (h.holding ::ₘ rest) post good layers (act s)) :
    Mirrors options d m R rest (fun a => h.holding ::ₘ post a)
      (fun R' a b => good R' a b ∧ R'.object h.target = R.object h.target) layers
      (Run.releasingOnSignal h act s) :=
  Finishes.imp (Finishes.releasingOnSignal hact)
    (fun _ _ _ ⟨⟨b, hgood, hlayers⟩, hsame⟩ => ⟨b, ⟨hgood, hsame⟩, hlayers⟩) fun _ h => h

theorem of_settles {layers₁ : Nat → Except Signal β} {result : EStateM.Result Signal Machine α}
    (hsame : ∀ n, layers n = layers₁ n)
    (h : Mirrors options d m R rest post good layers result) :
    Mirrors options d m R rest post good layers₁ result := by
  obtain rfl : layers = layers₁ := funext hsame
  exact h

theorem recover {other : Run α} {g : Nat → Except Signal β}
    (h : Mirrors options d m R rest post good layers (act s))
    (hother : ∀ s' (R' : Reading), Advances rest m R s'.heap R' → R'.Upholds options s'.heap rest →
      Mirrors options d s'.heap R' rest post good g (other s')) :
    Mirrors options d m R rest post good
      (fun n => match layers n with
        | .error (.raised _) => g n
        | outcome => outcome)
      (tryCatch act (fun
        | .raised _ => other
        | signal => throw signal) s) := by
  let f : Except Signal β → Nat → Except Signal β := fun o n => match o with
    | .error (.raised _) => g n
    | outcome => outcome
  have hgiven : ∀ n, f (.error .exhausted) n = .error .exhausted := fun _ => rfl
  rw [Run.tryCatch_run]
  match hact : act s with
  | .ok a s' =>
    rw [hact] at h
    obtain ⟨R', hev, hup, b, hgood, hlayers⟩ := h
    exact settled (f := f) hlayers hgiven (.of_ok hev hup hgood (.always _))
  | .error (.panicked p) s' =>
    rw [hact] at h
    obtain ⟨hlayers, hends⟩ := h
    obtain ⟨R', hev, hup⟩ := hends nofun
    exact settled (f := f) hlayers hgiven (.panicked hev hup (.always _))
  | .error .exhausted s' =>
    rw [hact] at h
    exact givenUp (f := f) h hgiven
  | .error (.raised e) s' =>
    rw [hact] at h
    obtain ⟨hlayers, hends⟩ := h
    obtain ⟨R', hev, hup⟩ := hends nofun
    exact settled (f := f) hlayers hgiven ((hother s' R' hev hup).after hev)

theorem newObject {kind : ObjectKind} {t : Tree}
    (hup : R.Upholds options s.heap (kind.holdings + rest))
    (hproper : ∀ c, kind = .closure c → c.Proper)
    (hidle : ∀ c, kind = .closure c → c.memo ≠ .running)
    (hreads : R.Reads options s.heap s.heap.nextObject kind t) (hsound : ¬ t.IsFailed) :
    Mirrors options d s.heap R rest (fun r : Handle => {r.holding})
      (fun R' r b => R'.Made r b) (fun _ => .ok t) (Run.newObject kind s) :=
  of_ok (s := s.on fun m => (m.newObject kind).2)
    (.newObject hup.valid (Multiset.subset_of_le (Multiset.le_add_left ..)) kind hidle t)
    (hup.newObject hproper hreads) ⟨withObject_self, rfl, hsound⟩ (.always _)

theorem newException (e : EvalError) (hup : R.Upholds options s.heap rest) :
    Mirrors options d s.heap R rest (fun r : Handle => {r.holding})
      (fun R' r b => R'.Shows r b) (fun _ => .ok (.failed e)) (Run.newException e s) := by
  have hup' : R.Upholds options s.heap ((ObjectKind.exception e).holdings + rest) := by
    rw [ObjectKind.holdings_exception, Multiset.singleton_add]
    exact hup.error e
  refine of_ok (s := s.on fun m => (m.newObject (.exception e)).2)
    (.newObject hup'.valid (Multiset.subset_of_le (Multiset.le_add_left ..)) _ (by simp) (.failed e))
    (hup'.newObject (by simp) .failed) ?_ (.always _)
  exact ⟨withObject_self, Tree.isNormal_failed e, by simp [Tree.IsFailed],
    .inr (Tree.isNormal_failed e)⟩

end Mirrors

end GraphReduction
