import Mathlib
import GraphReduction.Proofs.Ranks.Reduction
import GraphReduction.Proofs.Supply.Deepens
import GraphReduction.Proofs.Terms.Client
import GraphReduction.Proofs.Trees.Holder

/-! Evaluating terms terminates, whatever they are made of: no type is asked for, and fixpoints are
primitives like the others. A node ranks above what it applies and what it applies that to, and
layers for the rank of a term are enough for it. -/
namespace GraphReduction

open Heap Marks Ranks

variable {R : Ranks} {n : Nat} {h : Handle} {t : Term}

namespace Term

/-- An application binds one argument and may tie it. -/
def rank : Term → Nat
  | literal _ => 0
  | primitive _ => 1
  | apply f x => max f.rank x.rank + 2

theorem rank_le (t : Term) : t.rank ≤ 2 * t.height + 1 := by
  induction t with
  | literal | primitive => simp [rank, height]
  | apply f x ihf ihx =>
    simp only [rank, height]
    omega

end Term

/-- A machine, and the handles that are held with the terms that they stand for. -/
structure Keeper where
  machine : Machine := .initial
  held : List (Handle × Term) := []

namespace Keeper

def holdings (held : List (Handle × Term)) : Multiset Holding := held.map fun x => x.1.holding

/-- Literals and primitives are applied to each other, a term that is held is taken once more or
given back, and now and then one is evaluated. -/
inductive Step : Keeper → Keeper → Prop
  | literal {s s' held h} (l : Literal) (hrun : l.box s = .ok h s') :
      Step ⟨s, held⟩ ⟨s', (h, .literal l) :: held⟩
  | primitive {s s' held h} (p : Primitive) (hrun : Run.share (.plain ⟨p.place⟩) s = .ok h s') :
      Step ⟨s, held⟩ ⟨s', (h, .primitive p) :: held⟩
  | apply {s s' held f x h tf tx} (hrun : Run.newApplication f x s = .ok h s') :
      Step ⟨s, (f, tf) :: (x, tx) :: held⟩ ⟨s', (h, .apply tf tx) :: held⟩
  | share {s s' held h h' t} (hheld : (h, t) ∈ held) (hrun : Run.share h s = .ok h' s') :
      Step ⟨s, held⟩ ⟨s', (h', t) :: held⟩
  | release {s s' held h t} (hrun : Run.release h s = .ok () s') :
      Step ⟨s, (h, t) :: held⟩ ⟨s', held⟩
  | reorder {s held held'} (hperm : held.Perm held') : Step ⟨s, held⟩ ⟨s, held'⟩
  | evaluate {s s' held h t r options depth} (hheld : (h, t) ∈ held)
      (hrun : Evaluator.reduceUpTo options depth h s = .ok r s') :
      Step ⟨s, held⟩ ⟨s', (r, t) :: held⟩

/-- What comes of a machine before anything has happened. -/
def Reached : Keeper → Prop := Relation.ReflTransGen Step {}

/-- What is held ranks as its term at most, and no result is being computed. -/
structure Ranked (k : Keeper) (R : Ranks) : Prop where
  upholds : R.Upholds k.machine.heap (holdings k.held)
  idle : ∀ o, ¬ k.machine.heap.Running o
  low : ∀ h t, (h, t) ∈ k.held → R.object h.target ≤ t.rank

variable {k k' : Keeper} {s s' : Machine} {held : List (Handle × Term)}

theorem holding_mem (hheld : (h, t) ∈ held) : h.holding ∈ holdings held :=
  Multiset.mem_coe.2 (List.mem_map_of_mem (f := fun x : Handle × Term => x.1.holding) hheld)

theorem newApplication_delivers {rest : Multiset Holding} {f x : Handle}
    (hup : R.Upholds s.heap (f.holding ::ₘ x.holding ::ₘ rest)) (hf : R.object f.target ≤ n)
    (hx : R.object x.target ≤ n) :
    Delivers silent s.heap R rest (n + 2) (Run.newApplication f x s) := by
  have hparts : R.Upholds s.heap ((ObjectKind.application (.pending f x)).holdings + rest) := by
    simpa [Multiset.insert_eq_cons] using hup
  exact Delivers.of_ok (s := s.on fun m => (m.newObject (.application (.pending f x))).2)
    (.newObject hparts.valid (Multiset.subset_of_le (Multiset.le_add_left ..)) _ (by simp) (n + 2))
    (hparts.newObject (by simp) (.pending (by omega) (by omega))) withObject_self.le

theorem Ranked.reduceUpTo_delivers (hranked : k.Ranked R) (hheld : (h, t) ∈ k.held)
    (options : Options) {depth : Nat} (hdepth : R.object h.target < depth) :
    Delivers silent k.machine.heap R (holdings k.held) (R.object h.target)
      (Evaluator.reduceUpTo options depth h k.machine) :=
  .imp (Evaluator.reduceUpTo_halts options depth hranked.upholds (holding_mem hheld) hdepth
    fun o ho => (hranked.idle o ho).elim) (fun _ _ _ hr => hr.1) fun _ h => h

theorem ranked_cons {act : Run Handle} (hidle : ∀ o, ¬ s.heap.Running o)
    (hlow : ∀ h t, (h, t) ∈ held → R.object h.target ≤ t.rank)
    (hreturns : Delivers silent s.heap R (holdings held) n (act s)) (hrun : act s = .ok h s')
    (hn : n ≤ t.rank) : ∃ R', Ranked ⟨s', (h, t) :: held⟩ R' := by
  rw [hrun] at hreturns
  obtain ⟨R', hev, hup, hrank⟩ := hreturns
  refine ⟨R', by simpa [holdings] using hup, fun o ho => hidle o (hev.running o ho).1,
    fun g u hg => ?_⟩
  obtain heq | hg := List.mem_cons.1 hg
  · cases heq
    exact hrank.trans hn
  · exact (hev.handle (holding_mem hg)).le.trans (hlow g u hg)

theorem Ranked.step (hranked : k.Ranked R) (hstep : Step k k') : ∃ R', k'.Ranked R' := by
  have hup := hranked.upholds
  have hlow := hranked.low
  cases hstep with
  | literal l hrun =>
    refine ranked_cons hranked.idle hlow (n := 0) ?_ hrun le_rfl
    cases l <;> exact Delivers.newValue hup rfl
  | primitive p hrun =>
    exact ranked_cons hranked.idle hlow (Delivers.share (h := .plain ⟨p.place⟩) hup
      (hup.valid.library.live p) (hup.fits.library p).le) hrun le_rfl
  | @apply s _ held f x _ tf tx hrun =>
    have hparts : R.Upholds s.heap (f.holding ::ₘ x.holding ::ₘ holdings held) := by
      simpa [holdings] using hup
    exact ranked_cons hranked.idle (fun g u hg => hlow g u (.tail _ (.tail _ hg)))
      (newApplication_delivers (n := max tf.rank tx.rank) hparts
        ((hlow f tf (.head _)).trans (le_max_left ..))
        ((hlow x tx (.tail _ (.head _))).trans (le_max_right ..))) hrun le_rfl
  | share hheld hrun =>
    exact ranked_cons hranked.idle hlow (Delivers.share hup (hup.live (holding_mem hheld)) (hlow _ _ hheld))
      hrun le_rfl
  | @release s _ held g _ hrun =>
    cases hrun
    have hheld : R.Upholds s.heap (g.holding ::ₘ holdings held) := by simpa [holdings] using hup
    have hev : Advances (holdings held) s.heap R (s.heap.release g) R :=
      .release hheld.valid (Multiset.Subset.refl _)
    exact ⟨R, hheld.release, fun o ho => hranked.idle o (hev.running o ho).1,
      fun g u hg => hlow g u (.tail _ hg)⟩
  | @reorder s held held' hperm =>
    have hsame : holdings held' = holdings held :=
      Multiset.coe_eq_coe.2 (hperm.map fun x : Handle × Term => x.1.holding).symm
    exact ⟨R, hsame ▸ hup, hranked.idle, fun g u hg => hlow g u (hperm.mem_iff.2 hg)⟩
  | @evaluate s s' held g u r options depth hheld hrun =>
    -- with as many layers as are enough, the end would have been the same
    have hdeep := Evaluator.reduceUpTo_mono hrun (le_max_left depth (R.object g.target + 1))
    exact ranked_cons hranked.idle hlow (hranked.reduceUpTo_delivers hheld options
      (Nat.lt_of_succ_le (le_max_right ..))) hdeep (hlow _ _ hheld)

/-- The primitives, none of which refers to anything. -/
def libraryRanks : Ranks where
  object _ := 1
  thunk _ := .upTo 0
  code _ := ()

theorem ranked_initial : Ranked {} libraryRanks where
  upholds :=
    { valid := Machine.valid_initial
      fits :=
        { object := fun o kind hkind => by
            obtain ⟨x, hx, -⟩ := Option.map_eq_some_iff.1 hkind
            obtain ⟨p, hp⟩ := Reading.exists_place_of_initial rfl hx
            obtain rfl : o = ⟨p.place⟩ := congrArg ObjectId.mk hp.symm
            obtain rfl := Option.some.inj ((Machine.kindOf?_initial p).symm.trans hkind)
            have hnone := Closure.arguments_bare ⟨p.place⟩ p.arity
            refine .closure (p := p) ⟨rfl, ?_, Nat.one_pos, fun _ => rfl, by rintro r ⟨⟩, ?_⟩
            · rw [hnone]
              rfl
            · simp [hnone]
          thunk := fun t state hstate => by cases hstate
          combinator := fun c k hk p hp => by
            subst hp
            exact Option.some.inj (hk.symm.trans (Machine.combinatorOf?_initial p))
          library := fun _ => rfl } }
  idle := Reading.not_running_initial
  low _ _ hheld := by cases hheld

theorem Reached.ranked (hreached : Reached k) : ∃ R, k.Ranked R := by
  induction hreached with
  | refl => exact ⟨_, ranked_initial⟩
  | tail _ hstep ih =>
    obtain ⟨R, hranked⟩ := ih
    exact hranked.step hstep

/-- Evaluation of a term has an end and a result, however the term is made of literals, primitives
and fixpoints, whatever it shares with other terms, and whatever has been evaluated before. With
more layers than are enough the end is the same. -/
theorem evaluation_terminates (hreached : Reached k) (hheld : (h, t) ∈ k.held)
    (options : Options) :
    ∃ r s', (∀ depth, 2 * t.height + 1 < depth →
        Evaluator.reduceUpTo options depth h k.machine = .ok r s') ∧
      (2 * t.height + 1 < Evaluator.unboundedDepth →
        Evaluator.evaluate options h k.machine = .ok r s') := by
  obtain ⟨R, hranked⟩ := hreached.ranked
  have hrank : R.object h.target ≤ 2 * t.height + 1 := (hranked.low h t hheld).trans t.rank_le
  have hends := hranked.reduceUpTo_delivers hheld options (Nat.lt_succ_of_le hrank)
  obtain ⟨r, s', -, hrun, -⟩ := hends.result_of_silent
  have hmore : ∀ depth, 2 * t.height + 1 < depth →
      Evaluator.reduceUpTo options depth h k.machine = .ok r s' := fun depth hdepth =>
    Evaluator.reduceUpTo_mono hrun hdepth
  exact ⟨r, s', hmore, hmore _⟩

/-- The fixpoint is tied to itself. -/
theorem evaluation_terminates_fixFix :
    ∃ k root, Reached k ∧
      (root, .apply (.primitive .fix) (.primitive .fix)) ∈ k.held ∧
      ∃ r s', Evaluator.evaluate {} root k.machine = .ok r s' := by
  have hnothing : Reached {} := .refl
  have hfix := hnothing.tail (.primitive .fix rfl)
  have hshared := hfix.tail (.share (.head _) rfl)
  have hfixpoint := hshared.tail (.apply rfl)
  obtain ⟨r, s', -, heval⟩ := evaluation_terminates hfixpoint (.head _) {}
  exact ⟨_, _, hfixpoint, .head _, r, s', heval (by decide)⟩

end Keeper

end GraphReduction
