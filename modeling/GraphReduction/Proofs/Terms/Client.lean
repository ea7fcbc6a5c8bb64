import Mathlib
import GraphReduction.Session.Produce
import GraphReduction.Proofs.Labels.Initial
import GraphReduction.Proofs.Labels.Reduction

/-! Terms and their clients. A term is the tree that a graph of applications unfolds into. A client
makes literals, takes primitives and applies one term to another, has terms evaluated, and takes and
gives back references meanwhile; it remembers which term each handle stands for. Since one reference
can be taken after the other, terms share parts as they like. -/
namespace GraphReduction

open Heap

inductive Term where
  | literal (l : Literal)
  | primitive (p : Primitive)
  | apply (function argument : Term)
deriving DecidableEq

def Term.height : Term → Nat
  | literal _ | primitive _ => 0
  | apply f x => max f.height x.height + 1

def Term.twice (p : Primitive) (t : Term) : Term := apply (apply (primitive p) t) t

def Term.subterms : Term → List Term
  | apply f x => apply f x :: (f.subterms ++ x.subterms)
  | t => [t]

theorem Term.mem_subterms_self (t : Term) : t ∈ t.subterms := by
  cases t <;> exact .head _

theorem Term.subterms_subset {t u : Term} (h : u ∈ t.subterms) : u.subterms ⊆ t.subterms := by
  induction t with
  | literal l => cases List.mem_singleton.1 h; exact List.Subset.refl _
  | primitive p => cases List.mem_singleton.1 h; exact List.Subset.refl _
  | apply f x ihf ihx =>
    rw [subterms, List.mem_cons, List.mem_append] at h
    obtain rfl | hf | hx := h
    · exact List.Subset.refl _
    · exact fun v hv => List.mem_cons_of_mem _ (List.mem_append_left _ (ihf hf hv))
    · exact fun v hv => List.mem_cons_of_mem _ (List.mem_append_right _ (ihx hx hv))

/-- What the bodies of its primitives can raise while a term is evaluated, with arguments of the
right types: a definition in terms of itself, an overflow, and a text that is given to `fail`. -/
inductive Term.Raises (t : Term) : EvalError → Prop
  | blackHole (hfix : primitive .fix ∈ t.subterms) : Raises t .blackHole
  | overflow {p op n k} (hp : primitive p ∈ t.subterms)
      (hop : p.body = (.arith op : Body Handle)) (hout : op.result? n k = none) : Raises t (op.overflow n k)
  | fail {text} (hfail : primitive .fail ∈ t.subterms)
      (htext : literal (.str text) ∈ t.subterms) : Raises t (.foreign text)

namespace Literal

def type : Literal → Ty
  | int _ => .int
  | bool _ => .bool
  | str _ => .str

def boxed (l : Literal) : Boxed := ⟨l.type, l.payload⟩

@[simp] theorem boxed_type (l : Literal) : l.boxed.type = l.type := rfl

@[simp] theorem boxed_payload (l : Literal) : l.boxed.payload = l.payload := rfl

theorem box_run (l : Literal) (s : Machine) :
    l.box s = .ok (.plain s.heap.nextObject) (s.on fun m => (m.newObject (.value l.boxed)).2) := by
  cases l <;> rfl

theorem leaves_type (l : Literal) : l.type.leaves = [] := by
  cases l <;> rfl

theorem upholds_held {X : Type} {L : Labelling X} {m : Heap} {R : Roles X} {held : Multiset Holding}
    (hup : L.Upholds m R held) (l : Literal) :
    L.Upholds m R ((ObjectKind.value l.boxed).holdings + held) := by
  refine ⟨?_, hup.supports⟩
  have hplain : l.payload.handles = [] := by cases l <;> rfl
  rw [ObjectKind.holdings_value, boxed_payload, hplain]
  simpa using (Valid.error _).2 hup.valid

end Literal

/-- A machine, the handles that are held, and the terms that handles stand for. -/
structure Client where
  machine : Machine := .initial
  held : List Handle := []
  terms : List (Handle × Term) := []

namespace Client

def heap (c : Client) : Heap := c.machine.heap

def holdings (c : Client) : Multiset Holding := c.held.map Handle.holding

/-- Terms are made out of the usable primitives, and references to what is there come and go. -/
inductive Makes (usable : Primitive → Prop) : Client → Client → Prop
  | literal {s s' held terms h} (l : Literal) (hrun : l.box s = .ok h s') :
      Makes usable ⟨s, held, terms⟩ ⟨s', h :: held, (h, .literal l) :: terms⟩
  | primitive {s s' held terms h} (p : Primitive) (husable : usable p)
      (hrun : Run.share (.plain ⟨p.place⟩) s = .ok h s') :
      Makes usable ⟨s, held, terms⟩ ⟨s', h :: held, (h, .primitive p) :: terms⟩
  | apply {s s' held terms f x h tf tx} (hf : (f, tf) ∈ terms) (hx : (x, tx) ∈ terms)
      (hrun : Run.newApplication f x s = .ok h s') :
      Makes usable ⟨s, f :: x :: held, terms⟩ ⟨s', h :: held, (h, .apply tf tx) :: terms⟩
  | share {s s' held terms h h'} (hlive : s.heap.IsLive h.edge) (hrun : Run.share h s = .ok h' s') :
      Makes usable ⟨s, held, terms⟩ ⟨s', h' :: held, terms⟩
  | release {s s' held terms h} (hrun : Run.release h s = .ok () s') :
      Makes usable ⟨s, h :: held, terms⟩ ⟨s', held, terms⟩
  | reorder {s held held' terms} (hperm : held.Perm held') :
      Makes usable ⟨s, held, terms⟩ ⟨s, held', terms⟩

/-- A term is evaluated with enough layers for its height, and results are not checked. -/
inductive Evaluates (among : Set (Handle × Term)) : Client → Client → Prop
  | evaluate {s s' held terms h t r options depth} (hterm : (h, t) ∈ terms)
      (hamong : (h, t) ∈ among) (hheld : h ∈ held) (hoptions : options.checkResults = false)
      (hdepth : 2 * t.height < depth)
      (hrun : Evaluator.reduceUpTo options depth h s = .ok r s') :
      Evaluates among ⟨s, held, terms⟩ ⟨s', r :: held, (r, t) :: terms⟩

/-- What a client comes to that makes terms and evaluates some. -/
def Reaches (usable : Primitive → Prop) (among : Set (Handle × Term)) : Client → Client → Prop :=
  Relation.ReflTransGen fun c c' => Makes usable c c' ∨ Evaluates among c c'

variable {X : Type} {L : Labelling X} {R : Roles X} {usable : Primitive → Prop}
  {among : Set (Handle × Term)} {c c' c'' : Client}

theorem Reaches.makes (h : Reaches usable among c c') (hmakes : Makes usable c' c'') :
    Reaches usable among c c'' :=
  h.tail (.inl hmakes)

theorem holding_mem {h : Handle} (hheld : h ∈ c.held) : h.holding ∈ c.holdings :=
  Multiset.mem_coe.2 (List.mem_map_of_mem hheld)

theorem Makes.evolves (h : Makes usable c c') (R : Roles X) : Evolves ∅ c.heap R c'.heap R := by
  cases h with
  | literal l hrun =>
    rw [l.box_run] at hrun
    cases hrun
    exact evolves_newObject _
  | primitive p husable hrun =>
    cases hrun
    exact .share
  | apply hf hx hrun =>
    cases hrun
    exact evolves_newObject _
  | share hlive hrun =>
    cases hrun
    exact .share
  | release hrun =>
    cases hrun
    exact .release
  | reorder hperm => exact .refl _ _

theorem Makes.upholds (h : Makes usable c c') (hup : L.Upholds c.heap R c.holdings) :
    L.Upholds c'.heap R c'.holdings := by
  cases h with
  | literal l hrun =>
    rw [l.box_run] at hrun
    cases hrun
    exact (l.upholds_held hup).newObject (by simp) (by simp [l.leaves_type])
  | primitive p husable hrun =>
    cases hrun
    exact hup.share (hup.valid.library.live p)
  | @apply s _ held _ f x _ _ _ hf hx hrun =>
    cases hrun
    have hup' : L.Upholds s.heap R ((ObjectKind.application (.pending f x)).holdings +
        ↑(held.map Handle.holding)) := hup
    exact hup'.newObject (by simp) (by simp)
  | share hlive hrun =>
    cases hrun
    exact hup.share hlive
  | release hrun =>
    cases hrun
    exact hup.release
  | @reorder s held held' _ hperm =>
    have hsame : (held'.map Handle.holding : Multiset Holding) = held.map Handle.holding :=
      Multiset.coe_eq_coe.2 (hperm.map Handle.holding).symm
    have hup' : L.Upholds s.heap R ↑(held'.map Handle.holding) := hsame ▸ hup
    exact hup'

theorem Makes.kindOf?_eq (h : Makes usable c c') {o : ObjectId} {kind : ObjectKind}
    (halloc : c.heap.Allocated (.object o)) (hkind : c'.heap.kindOf? o = some kind) :
    c.heap.kindOf? o = some kind :=
  (h.evolves (⟨fun _ => none, fun _ => none⟩ : Roles Unit)).kind o kind halloc rfl
    (Set.notMem_empty o) hkind

theorem evaluates (hlawful : L.Lawful) (hup : L.Upholds c.heap R c.holdings) {h : Handle} {x : X}
    {n depth : Nat} (hheld : h ∈ c.held) (hstands : R.Stands L h x n) {options : Options}
    (hoptions : options.checkResults = false) (hdepth : n < depth) :
    ∃ r s' R', Evaluator.reduceUpTo options depth h c.machine = .ok r s' ∧
      Evolves ∅ c.heap R s'.heap R' ∧ L.Upholds s'.heap R' (r.holding ::ₘ c.holdings) ∧
      ∀ y k, R.Stands L h y k → R'.Result L r y k := by
  have hends := (Evaluator.reduceUpTo_reduces hlawful hoptions depth).handle hup
    (holding_mem hheld) (.inl hstands) hdepth
  match hrun : Evaluator.reduceUpTo options depth h c.machine with
  | .ok r s' =>
    rw [hrun] at hends
    obtain ⟨R', hev, hup', hresult, -⟩ := hends
    exact ⟨r, s', R', rfl, hev, by simpa using hup', fun y k hy => hresult y k (.inl hy)⟩
  | .error (.raised e) s' =>
    rw [hrun] at hends
    obtain ⟨-, -, -, hnever⟩ := hends
    exact hnever.elim
  | .error (.panicked p) s' =>
    rw [hrun] at hends
    exact hends.elim
  | .error .exhausted s' =>
    rw [hrun] at hends
    exact hends.elim

theorem Reaches.upholds (hlawful : L.Lawful) (hup : L.Upholds c.heap R c.holdings)
    (hstands : ∀ x ∈ among, ∃ y, R.Stands L x.1 y (2 * x.2.height))
    (hreaches : Reaches usable among c c') :
    ∃ R', Evolves ∅ c.heap R c'.heap R' ∧ L.Upholds c'.heap R' c'.holdings := by
  induction hreaches with
  | refl => exact ⟨R, .refl _ _, hup⟩
  | tail _ hstep ih =>
    obtain ⟨R₁, hev, hup₁⟩ := ih
    obtain hmakes | hevaluates := hstep
    · exact ⟨R₁, hev.trans (hmakes.evolves R₁), hmakes.upholds hup₁⟩
    · cases hevaluates with
      | @evaluate s _ held terms h t r options depth hterm hamong hheld hoptions hdepth hrun =>
        obtain ⟨y, hy⟩ := hstands _ hamong
        obtain ⟨r', s', R', hrun', hev', hup', -⟩ :=
          evaluates hlawful hup₁ hheld (hev.stands hy) hoptions hdepth
        cases hrun.symm.trans hrun'
        exact ⟨R', hev.trans hev', hup'⟩

end Client

end GraphReduction
