import Mathlib
import GraphReduction.Proofs.Trees.Tree

/-! Unrolling a tied function. The function that was tied to itself, the function that is bound to
the suspended fixpoint, and the two applications that these are the results of can stand for each
other everywhere in a tree: evaluation does the same with all of them. -/
namespace GraphReduction.Tree

/-- The ways in which the fixpoint of `f` can be written. -/
inductive IsFixpoint (f : Tree) : Tree → Prop
  | tied : IsFixpoint f (tied f)
  | bound : IsFixpoint f (bound f (apply (function Primitive.fix.code) f))
  | applied : IsFixpoint f (apply (function Primitive.fix.code) f)
  | unrolled : IsFixpoint f (apply f (apply (function Primitive.fix.code) f))

/-- Equal up to the ways in which the fixpoint of `f` is written. What arguments are bound to is
evaluated already on both sides or on none. -/
inductive Alike (f : Tree) : Tree → Tree → Prop
  | fixpoint {a b : Tree} (ha : IsFixpoint f a) (hb : IsFixpoint f b) : Alike f a b
  | value (v : Boxed) : Alike f (value v) (value v)
  | failed (e : EvalError) : Alike f (failed e) (failed e)
  | function (c : Code Tree) : Alike f (function c) (function c)
  | pair {a b c d : Tree} (h : Alike f a c) (h' : Alike f b d) : Alike f (pair a b) (pair c d)
  | bound {g g' x x' : Tree} (hkind : g.IsApply ↔ g'.IsApply) (hg : Alike f g g')
      (hx : Alike f x x') : Alike f (bound g x) (bound g' x')
  | tied {g g' : Tree} (hkind : g.IsApply ↔ g'.IsApply) (hg : Alike f g g') :
      Alike f (tied g) (tied g')
  | apply {g g' x x' : Tree} (hg : Alike f g g') (hx : Alike f x x') :
      Alike f (apply g x) (apply g' x')

variable {f a b t t' x y : Tree}

theorem Alike.refl (f : Tree) : ∀ t, Alike f t t
  | .value v => .value v
  | .failed e => .failed e
  | .function c => .function c
  | .pair a b => .pair (refl f a) (refl f b)
  | .bound g x => .bound Iff.rfl (refl f g) (refl f x)
  | .tied g => .tied Iff.rfl (refl f g)
  | .apply g x => .apply (refl f g) (refl f x)

theorem Alike.refl_list (f : Tree) (ts : List Tree) : List.Forall₂ (Alike f) ts ts :=
  List.forall₂_same.2 fun t _ => .refl f t

/-- Alike and evaluated to the same extent. -/
structure Matches (f a b : Tree) : Prop where
  alike : Alike f a b
  kind : a.IsApply ↔ b.IsApply

theorem Matches.refl (f t : Tree) : Matches f t t := ⟨.refl f t, Iff.rfl⟩

theorem Matches.head (h : Matches f a b) :
    a.code? = b.code? ∧ List.Forall₂ (Alike f) a.args b.args := by
  obtain ⟨h, hkind⟩ := h
  induction h with
  | fixpoint ha hb =>
    have hlast : ∀ x y, Alike f x y → List.Forall₂ (Alike f) (f.args ++ [x]) (f.args ++ [y]) :=
      fun x y hxy => List.rel_append (Alike.refl_list f f.args) (.cons hxy .nil)
    cases ha with
    | tied =>
      cases hb with
      | tied => exact ⟨rfl, hlast _ _ (.fixpoint .tied .tied)⟩
      | bound => exact ⟨rfl, hlast _ _ (.fixpoint .tied .applied)⟩
      | applied | unrolled => simp [IsApply] at hkind
    | bound =>
      cases hb with
      | tied => exact ⟨rfl, hlast _ _ (.fixpoint .applied .tied)⟩
      | bound => exact ⟨rfl, hlast _ _ (.fixpoint .applied .applied)⟩
      | applied | unrolled => simp [IsApply] at hkind
    | applied | unrolled =>
      cases hb with
      | tied | bound => simp [IsApply] at hkind
      | applied | unrolled => exact ⟨rfl, .nil⟩
  | value v => exact ⟨rfl, .nil⟩
  | failed e => exact ⟨rfl, .nil⟩
  | function c => exact ⟨rfl, .nil⟩
  | pair h h' => exact ⟨rfl, .nil⟩
  | apply hg hx => exact ⟨rfl, .nil⟩
  | bound hsame hg hx ihg =>
    obtain ⟨hcode, hargs⟩ := ihg hsame
    exact ⟨hcode, List.rel_append hargs (.cons hx .nil)⟩
  | tied hsame hg ihg =>
    obtain ⟨hcode, hargs⟩ := ihg hsame
    exact ⟨hcode, List.rel_append hargs (.cons (.tied hsame hg) .nil)⟩

theorem Matches.missing_eq (h : Matches f a b) : a.missing = b.missing := by
  rw [missing, missing, h.head.1, h.head.2.length_eq]

theorem Matches.describe_eq (h : Matches f a b) : a.describe = b.describe := by
  have hhead := h.head.1
  have hmissing := h.missing_eq
  obtain ⟨h, hkind⟩ := h
  cases h with
  | fixpoint ha hb =>
    cases ha <;> cases hb <;> simp [IsApply] at hkind <;> simp_all [describe]
  | value v => rfl
  | failed e => rfl
  | function c => rfl
  | pair h h' => rfl
  | apply hg hx => rfl
  | bound hsame hg hx => simp_all [describe]
  | tied hsame hg => simp_all [describe]

/-! Simulation -/

variable {α β γ δ : Type} {P : α → β → Prop} {Q : γ → δ → Prop}

/-- The same end, up to how results correspond. -/
inductive SameEnd (P : α → β → Prop) : Except Signal α → Except Signal β → Prop
  | ok {a : α} {b : β} (h : P a b) : SameEnd P (.ok a) (.ok b)
  | error (signal : Signal) : SameEnd P (.error signal) (.error signal)

/-- Whatever is not given up is answered in the same way, from some number of layers on. -/
def Answered (P : α → β → Prop) (first : Except Signal α) (second : Nat → Except Signal β) : Prop :=
  first ≠ .error .exhausted → ∃ o N, SameEnd P first o ∧ ∀ n ≥ N, second n = o

namespace Answered

variable {first : Except Signal α} {second : Nat → Except Signal β}

theorem always {o : Except Signal β} (h : SameEnd P first o) : Answered P first fun _ => o :=
  fun _ => ⟨o, 0, h, fun _ _ => rfl⟩

theorem ok {a : α} {b : β} (h : P a b) : Answered P (.ok a) fun _ => .ok b := always (.ok h)

theorem error (signal : Signal) : Answered P (.error signal) fun _ => .error signal :=
  always (.error signal)

theorem imp {P' : α → β → Prop} (h : Answered P first second) (himp : ∀ a b, P a b → P' a b) :
    Answered P' first second := by
  intro hends
  obtain ⟨o, N, hsame, hlate⟩ := h hends
  refine ⟨o, N, ?_, hlate⟩
  cases hsame with
  | ok hab => exact .ok (himp _ _ hab)
  | error signal => exact .error signal

theorem after {f : Except Signal α → Except Signal γ} {g : Except Signal β → Nat → Except Signal δ}
    (h : Answered P first second) (hgiven : f (.error .exhausted) = .error .exhausted)
    (hnext : ∀ a b, SameEnd P a b → Answered Q (f a) (g b)) :
    Answered Q (f first) fun n => g (second n) n := by
  intro hends
  obtain ⟨o, N, hsame, hlate⟩ := h fun heq => hends (by rw [heq, hgiven])
  obtain ⟨o', N', hsame', hlate'⟩ := hnext first o hsame hends
  refine ⟨o', max N N', hsame', fun n hn => ?_⟩
  dsimp only
  rw [hlate n (le_of_max_le_left hn)]
  exact hlate' n (le_of_max_le_right hn)

theorem bind {next : α → Except Signal γ} {next' : β → Nat → Except Signal δ}
    (h : Answered P first second) (hnext : ∀ a b, P a b → Answered Q (next a) (next' b)) :
    Answered Q (first >>= next) fun n => second n >>= fun b => next' b n := by
  refine h.after (f := (· >>= next)) (g := fun o n => o >>= fun b => next' b n) rfl
    fun a b hsame => ?_
  cases hsame with
  | ok hab => exact hnext _ _ hab
  | error signal => exact .error signal

end Answered

structure Evaluated (f a b : Tree) : Prop where
  alike : Alike f a b
  left : ¬ a.IsApply
  right : ¬ b.IsApply

theorem Evaluated.matches (h : Evaluated f a b) : Matches f a b :=
  ⟨h.alike, iff_of_false h.left h.right⟩

/-- A reducer is answered by reduction with enough layers. -/
def Reducer.Answered (f : Tree) (reduce : Reducer) (layers : Nat → Reducer) : Prop :=
  ∀ a b, Alike f a b → Tree.Answered (Evaluated f) (reduce a) fun n => layers n b

theorem SameEnd.intoResult (h : Evaluated f a b) :
    SameEnd (Evaluated f) (intoResult a) (intoResult b) := by
  obtain ⟨h, ha, hb⟩ := id h
  cases h with
  | failed e => exact .error _
  | fixpoint hl hr => 
    cases hl <;> cases hr <;> first | exact .ok ‹_› 
  | value v | function c | pair h h' | apply hg hx | bound hsame hg hx | tied hsame hg =>
    exact .ok ‹_›

theorem bindTo_sameEnd (h : Matches f a b) (hx : Alike f x y) :
    SameEnd (Evaluated f) (a.bindTo x) (b.bindTo y) := by
  rw [bindTo, bindTo, h.head.1, h.missing_eq, h.describe_eq]
  cases b.code? with
  | none => exact .error _
  | some c =>
    dsimp only
    split
    · exact .error _
    · exact .ok ⟨.bound h.kind h.alike hx, by simp [IsApply], by simp [IsApply]⟩

theorem tie_sameEnd (h : Evaluated f a b) : SameEnd (Evaluated f) a.tie b.tie := by
  rw [tie, tie, h.matches.missing_eq, h.matches.describe_eq]
  split
  · exact .error _
  · exact .error _
  · exact .ok ⟨.tied h.matches.kind h.alike, by simp [IsApply], by simp [IsApply]⟩

theorem field_sameEnd (h : Matches f a b) (i : Nat) :
    SameEnd (Alike f) (a.field i) (b.field i) := by
  obtain ⟨h, hkind⟩ := h
  cases h with
  | pair h h' =>
    rcases i with _ | _ | i
    · exact .ok h
    · exact .ok h'
    · exact .error _
  | fixpoint hl hr => cases hl <;> cases hr <;> exact .error _
  | value v | failed e | function c | apply hg hx | bound hsame hg hx | tied hsame hg =>
    exact .error _

namespace Given

variable {α : Type} {reduce : Reducer} {layers : Nat → Reducer} {given given' : Given}

/-- The same name, and arguments that are alike. -/
structure Alike (f : Tree) (given given' : Given) : Prop where
  combinator : given.combinator = given'.combinator
  args : List.Forall₂ (Tree.Alike f) given.args given'.args

theorem lazy_sameEnd (h : Alike f given given') (i : Nat) :
    SameEnd (Tree.Alike f) (given.lazy i) (given'.lazy i) := by
  rw [lazy, lazy, h.combinator]
  by_cases hi : i < given.args.length
  · have hi' : i < given'.args.length := h.args.length_eq ▸ hi
    rw [List.getElem?_eq_getElem hi, List.getElem?_eq_getElem hi']
    exact .ok ((List.forall₂_iff_get.1 h.args).2 i hi hi')
  · rw [List.getElem?_eq_none (by omega),
      List.getElem?_eq_none (by rw [← h.args.length_eq]; omega)]
    exact .error _

theorem force_answered (hreduce : reduce.Answered f layers) (h : Alike f given given') (i : Nat) :
    Tree.Answered (Evaluated f) (given.force reduce i) fun n => given'.force (layers n) i :=
  .bind (.always (lazy_sameEnd h i)) fun a b hab =>
    .bind (hreduce a b hab) fun _ _ hvw => .always (.intoResult hvw)

theorem take_sameEnd (expected : TypeName) (take? : Payload → Option α) (h : Evaluated f a b) :
    SameEnd Eq (take expected take? a) (take expected take? b) := by
  have hdescribe := h.matches.describe_eq
  obtain ⟨h, ha, hb⟩ := h
  cases h with
  | value v =>
    rw [take]
    cases take? v.payload with
    | none => exact .error _
    | some a => exact .ok rfl
  | fixpoint hl hr =>
    cases hl <;> cases hr <;> simp only [take, hdescribe] <;> exact .error _
  | failed e | function c | pair h h' | apply hg hx | bound hsame hg hx | tied hsame hg =>
    simp only [take, hdescribe]
    exact .error _

theorem takePair_sameEnd (h : Evaluated f a b) :
    SameEnd (Evaluated f) (takePair a) (takePair b) := by
  have hdescribe := h.matches.describe_eq
  obtain ⟨h, ha, hb⟩ := id h
  cases h with
  | pair h h' => exact .ok ‹_›
  | fixpoint hl hr =>
    cases hl <;> cases hr <;> simp only [takePair, hdescribe] <;> exact .error _
  | value v | failed e | function c | apply hg hx | bound hsame hg hx | tied hsame hg =>
    simp only [takePair, hdescribe]
    exact .error _

end Given

/-- What the results of a body have in common: a result that is exact is evaluated on both sides or
on none. -/
structure Returned (f : Tree) (exact : Prop) (a b : Tree) : Prop where
  alike : Alike f a b
  kind : exact → (a.IsApply ↔ b.IsApply)

theorem Returned.matches {exact : Prop} (h : Returned f exact a b) (hexact : exact) :
    Matches f a b :=
  ⟨h.alike, h.kind hexact⟩

theorem Evaluated.returned (h : Evaluated f a b) (exact : Prop) : Returned f exact a b :=
  ⟨h.alike, fun _ => h.matches.kind⟩

theorem Returned.refl (f t : Tree) (exact : Prop) : Returned f exact t t :=
  ⟨.refl f t, fun _ => Iff.rfl⟩

section Run

variable {reduce : Reducer} {layers : Nat → Reducer} {given given' : Given}

theorem run_answered (hreduce : reduce.Answered f layers) (hgiven : Given.Alike f given given')
    (body : Body Tree) (hbody : body.IsStateless) :
    Answered (Returned f body.IsExact) (run reduce given body)
      fun n => run (layers n) given' body := by
  have hforce := Given.force_answered hreduce hgiven
  have hint : ∀ i, Answered Eq (given.int reduce i) fun n => given'.int (layers n) i :=
    fun i => (hforce i).bind fun _ _ h => .always (Given.take_sameEnd _ _ h)
  have hbool : ∀ i, Answered Eq (given.bool reduce i) fun n => given'.bool (layers n) i :=
    fun i => (hforce i).bind fun _ _ h => .always (Given.take_sameEnd _ _ h)
  have hstr : ∀ i, Answered Eq (given.str reduce i) fun n => given'.str (layers n) i :=
    fun i => (hforce i).bind fun _ _ h => .always (Given.take_sameEnd _ _ h)
  have hsame : ∀ t, SameEnd (Returned f True) (.ok t) (.ok t) := fun t => .ok (.refl f t _)
  induction body with
  | lazy i => exact (Answered.always (Given.lazy_sameEnd hgiven i)).imp fun a b h => ⟨h, False.elim⟩
  | force i => exact (hforce i).imp fun a b h => h.returned _
  | value type i =>
    cases type with
    | int => exact (hint i).bind fun n _ h => h ▸ .always (hsame _)
    | bool => exact (hbool i).bind fun n _ h => h ▸ .always (hsame _)
    | str => exact (hstr i).bind fun n _ h => h ▸ .always (hsame _)
    | pair =>
      exact ((hforce i).bind fun _ _ h => .always (Given.takePair_sameEnd h)).imp
        fun a b h => h.returned _
  | length => simpa only [run, hgiven.args.length_eq] using .always (hsame _)
  | isEmpty => simpa only [run, hgiven.args.length_eq] using .always (hsame _)
  | name => simpa only [run, hgiven.combinator] using .always (hsame _)
  | int | bool | str | primitive | captured => exact .always (hsame _)
  | apply g x ihg ihx =>
    refine (ihg hbody.1).bind fun a a' ha => (ihx hbody.2).bind fun b b' hb => .ok ?_
    exact ⟨.apply ha.alike hb.alike, fun _ => by simp [IsApply]⟩
  | bind g x ihg ihx =>
    refine (ihg hbody.2.1).bind fun a a' ha => (ihx hbody.2.2).bind fun b b' hb => ?_
    exact (Answered.always (bindTo_sameEnd (ha.matches hbody.1) hb.alike)).imp
      fun _ _ h => h.returned _
  | pair g x ihg ihx =>
    refine (ihg hbody.1).bind fun a a' ha => (ihx hbody.2).bind fun b b' hb => .ok ?_
    exact ⟨.pair ha.alike hb.alike, fun _ => by simp [IsApply]⟩
  | field i e ih =>
    refine (ih hbody.2).bind fun a a' ha => ?_
    exact (Answered.always (field_sameEnd (ha.matches hbody.1) i)).imp fun _ _ h => ⟨h, False.elim⟩
  | eval e ih =>
    refine (ih hbody).bind fun a a' ha => (hreduce a a' ha.alike).bind fun v w h => ?_
    exact (Answered.always (.intoResult h)).imp fun _ _ h => h.returned _
  | seq g x ihg ihx => exact (ihg hbody.1).bind fun a a' _ => ihx hbody.2
  | recover g x ihg ihx =>
    refine (ihg hbody.1).after (f := fun o => recovered o (run reduce given x))
      (g := fun o n => recovered o (run (layers n) given' x)) rfl fun o o' hsame => ?_
    cases hsame with
    | ok h => exact .ok ⟨h.alike, fun hexact => h.kind hexact.1⟩
    | error signal =>
      cases signal with
      | raised e => exact (ihx hbody.2).imp fun a b h => ⟨h.alike, fun hexact => h.kind hexact.2⟩
      | panicked p => exact .error _
      | exhausted => exact .error _
  | log note e ih => exact ih hbody
  | compare how i n yes no ihyes ihno =>
    refine (hint i).bind fun k _ heq => heq ▸ ?_
    split
    · exact (ihyes hbody.1).imp fun a b h => ⟨h.alike, fun hexact => h.kind hexact.1⟩
    · exact (ihno hbody.2).imp fun a b h => ⟨h.alike, fun hexact => h.kind hexact.2⟩
  | cond i yes no ihyes ihno =>
    refine (hbool i).bind fun k _ heq => heq ▸ ?_
    split
    · exact (ihyes hbody.1).imp fun a b h => ⟨h.alike, fun hexact => h.kind hexact.1⟩
    · exact (ihno hbody.2).imp fun a b h => ⟨h.alike, fun hexact => h.kind hexact.2⟩
  | raise e => exact .error _
  | panic p => exact .error _
  | arith op =>
    refine (hint 0).bind fun a _ heq => heq ▸ (hint 1).bind fun b _ heq => heq ▸ ?_
    rw [arith]
    cases op.result? a b with
    | some n => exact .always (hsame _)
    | none => exact .error _
  | test how =>
    exact (hint 0).bind fun a _ heq => heq ▸ (hint 1).bind fun b _ heq => heq ▸ .always (hsame _)
  | fail i => exact (hstr i).bind fun s _ heq => heq ▸ .error _
  | tie =>
    exact (hforce 0).bind fun v w h => (Answered.always (tie_sameEnd h)).imp
      fun _ _ h => h.returned _
  | clone | bindSelf | typeOf => exact hbody.elim

end Run

section Reduction

variable {options : Options} {reduce : Reducer} {layers : Nat → Reducer}

theorem refused_sameEnd {P : Tree → Tree → Prop} (hfailed : ∀ e, P (failed e) (failed e))
    {o o' : Except Signal Tree} (h : SameEnd P o o') : SameEnd P (refused o) (refused o') := by
  cases h with
  | ok h => exact .ok h
  | error signal =>
    cases signal with
    | raised e => exact .ok (hfailed e)
    | panicked p => exact .error _
    | exhausted => exact .error _

theorem caught_sameEnd {P : Tree → Tree → Prop} (hfailed : ∀ e, P (failed e) (failed e))
    {o o' : Except Signal Tree} (h : SameEnd P o o') :
    SameEnd P (caught options o) (caught options o') := by
  cases h with
  | ok h => exact .ok h
  | error signal =>
    cases signal with
    | raised e => exact .ok (hfailed e)
    | panicked p =>
      simp only [caught]
      split
      · exact .ok (hfailed _)
      · exact .error _
    | exhausted => exact .error _

theorem result_answered (hreduce : reduce.Answered f layers) (h : Matches f a b)
    (hcode : a.code?.isSome) :
    Answered (Evaluated f) (result options reduce a) fun n => result options (layers n) b := by
  obtain ⟨c, hc⟩ := Option.isSome_iff_exists.1 hcode
  have hc' : b.code? = some c := h.head.1 ▸ hc
  simp only [result, hc, hc']
  split
  · next hbody =>
    have hgiven : Given.Alike f ⟨c.name, a.args⟩ ⟨c.name, b.args⟩ := ⟨rfl, h.head.2⟩
    refine Answered.bind (P := Returned f c.body.IsExact) ?_ fun v w hvw => hreduce v w hvw.alike
    exact (run_answered hreduce hgiven c.body hbody).after (f := caught options)
      (g := fun o _ => caught options o) rfl fun o o' hsame =>
        .always (caught_sameEnd (fun e => .refl f (failed e) _) hsame)
  · exact .error _

theorem saturate_answered (hreduce : reduce.Answered f layers) (h : Matches f a b)
    (hleft : ¬ a.IsApply) :
    Answered (Evaluated f) (saturate options reduce a) fun n => saturate options (layers n) b := by
  simp only [saturate, ← h.head.1, ← h.missing_eq]
  split
  · next hsaturated => exact result_answered hreduce h hsaturated.1
  · exact .ok ⟨h.alike, hleft, fun hright => hleft (h.kind.2 hright)⟩

theorem applyReduced_answered (hreduce : reduce.Answered f layers) (h : Evaluated f a b)
    (hx : Alike f x y) :
    Answered (Evaluated f) (applyReduced options reduce a x)
      fun n => applyReduced options (layers n) b y := by
  have hfailed : ∀ e, Evaluated f (failed e) (failed e) :=
    fun e => ⟨.failed e, by simp [IsApply], by simp [IsApply]⟩
  by_cases hexception : ∃ e, a = failed e
  · obtain ⟨e, rfl⟩ := hexception
    cases h.alike with
    | failed => exact .ok (hfailed e)
    | fixpoint ha => cases ha
  · have hother : ∀ e, b ≠ failed e := by
      rintro e rfl
      cases h.alike with
      | failed => exact hexception ⟨e, rfl⟩
      | fixpoint ha hb => cases hb
    simp only [applyReduced_of_not_failed hother,
      applyReduced_of_not_failed fun e heq => hexception ⟨e, heq⟩]
    exact (Answered.always (refused_sameEnd hfailed (bindTo_sameEnd h.matches hx))).bind
      fun v w hvw => saturate_answered hreduce hvw.matches hvw.left

theorem application_answered (hreduce : reduce.Answered f layers) (hf : Alike f a b)
    (hx : Alike f x y) :
    Answered (Evaluated f) (application options reduce a x)
      fun n => application options (layers n) b y :=
  (hreduce a b hf).bind fun _ _ h => applyReduced_answered hreduce h hx

theorem tie_of_two_le (hmissing : 2 ≤ f.missing) : f.tie = .ok (tied f) := by
  rw [tie]
  split <;> simp_all

theorem application_fix (hcode : f.code?.isSome) (hmissing : 2 ≤ f.missing)
    (hreduce : ∀ t, t.IsNormal → reduce t = .ok t) :
    application options reduce (function Primitive.fix.code) f = .ok (tied f) := by
  have hfix : (function Primitive.fix.code).IsNormal := isNormal_function rfl (by decide)
  have hf : reduce f = .ok f := hreduce f (isNormal_function hcode (by omega))
  have htied : reduce (tied f) = .ok (tied f) :=
    hreduce _ (isNormal_function hcode (by rw [missing_tied hcode]; omega))
  have hbody : run reduce ⟨Primitive.fix.name, [f]⟩ .tie = .ok (tied f) := by
    have hlazy : Given.lazy ⟨Primitive.fix.name, [f]⟩ 0 = .ok f := rfl
    simp only [run, Given.force, hlazy, ok_bind, hf, intoResult_of_code? hcode,
      tie_of_two_le hmissing]
  have hbound : saturate options reduce (bound (function Primitive.fix.code) f) = .ok (tied f) := by
    have hsaturated : (bound (function Primitive.fix.code) f).missing = 0 := rfl
    have hresult : result options reduce (bound (function Primitive.fix.code) f) =
        caught options (run reduce ⟨Primitive.fix.name, [f]⟩ .tie) >>= fun v => reduce v := rfl
    rw [saturate, if_pos ⟨rfl, hsaturated⟩, hresult, hbody]
    exact htied
  rw [application, hreduce _ hfix, ok_bind]
  exact hbound

theorem application_unrolled (hcode : f.code?.isSome) (hmissing : 2 ≤ f.missing)
    (hreduce : ∀ t, t.IsNormal → reduce t = .ok t) (x : Tree) :
    application options reduce f x = .ok (bound f x) := by
  have hf : reduce f = .ok f := hreduce f (isNormal_function hcode (by omega))
  obtain ⟨c, hc⟩ := Option.isSome_iff_exists.1 hcode
  have hother : ∀ e, f ≠ failed e := by
    rintro e rfl
    cases hc
  have hbind : f.bindTo x = .ok (bound f x) := by
    rw [bindTo, hc]
    exact if_neg (by omega)
  have hopen : ¬ ((bound f x).code?.isSome ∧ (bound f x).missing = 0) := by
    rw [missing_bound hcode]
    omega
  have hrefused : refused (.ok (bound f x)) = .ok (bound f x) := rfl
  rw [application, hf, ok_bind, applyReduced_of_not_failed hother, hbind, hrefused, ok_bind,
    saturate, if_neg hopen]

/-- Each way to write the fixpoint has one of the two functions for its result. -/
theorem IsFixpoint.reduceUpTo (options : Options) (hcode : f.code?.isSome)
    (hmissing : 2 ≤ f.missing) (ha : IsFixpoint f a) : ∃ v, IsFixpoint f v ∧ ¬ v.IsApply ∧
      (∀ n, reduceUpTo options (n + 2) a = .ok v) ∧
      ∀ n, reduceUpTo options n a = .error .exhausted ∨ reduceUpTo options n a = .ok v := by
  have hnormal : ∀ n t, t.IsNormal → Tree.reduceUpTo options (n + 1) t = .ok t :=
    fun n t ht => reduceUpTo_of_isNormal ht n
  have hgives : ∀ t, t.IsNormal → (∀ n, Tree.reduceUpTo options (n + 2) t = .ok t) ∧
      ∀ n, Tree.reduceUpTo options n t = .error .exhausted ∨
        Tree.reduceUpTo options n t = .ok t := by
    refine fun t ht => ⟨fun n => hnormal (n + 1) t ht, fun n => ?_⟩
    cases n with
    | zero => exact .inl rfl
    | succ n => exact .inr (hnormal n t ht)
  have hlate : ∀ g x v, (∀ n, application options (Tree.reduceUpTo options (n + 1)) g x = .ok v) →
      (∀ n, Tree.reduceUpTo options (n + 2) (Tree.apply g x) = .ok v) ∧
      ∀ n, Tree.reduceUpTo options n (Tree.apply g x) = .error .exhausted ∨
        Tree.reduceUpTo options n (Tree.apply g x) = .ok v := by
    refine fun g x v h => ⟨fun n => h n, fun n => ?_⟩
    rcases n with _ | _ | n
    · exact .inl rfl
    · exact .inl rfl
    · exact .inr (h n)
  have htied : (Tree.tied f).IsNormal :=
    isNormal_function hcode (by rw [missing_tied hcode]; omega)
  have hbound : ∀ x, (Tree.bound f x).IsNormal := fun x =>
    isNormal_function hcode (by rw [missing_bound hcode]; omega)
  cases ha with
  | tied => exact ⟨_, .tied, htied.1, hgives _ htied⟩
  | bound => exact ⟨_, .bound, (hbound _).1, hgives _ (hbound _)⟩
  | applied =>
    exact ⟨_, .tied, htied.1, hlate _ _ _ fun n => application_fix hcode hmissing (hnormal n)⟩
  | unrolled =>
    exact ⟨_, .bound, (hbound _).1,
      hlate _ _ _ fun n => application_unrolled hcode hmissing (hnormal n) _⟩

theorem reduceUpTo_answered (hcode : f.code?.isSome) (hmissing : 2 ≤ f.missing) (n : Nat) :
    Reducer.Answered f (reduceUpTo options n) (reduceUpTo options) := by
  induction n with
  | zero => exact fun a b _ hends => (hends rfl).elim
  | succ n ih =>
    intro a b h
    suffices hnext : Answered (Evaluated f) (reduceUpTo options (n + 1) a)
        fun k => reduceUpTo options (k + 1) b by
      intro hends
      obtain ⟨o, N, hsame, hlate⟩ := hnext hends
      refine ⟨o, N + 1, hsame, fun k hk => ?_⟩
      obtain ⟨k, rfl⟩ : ∃ j, k = j + 1 := ⟨k - 1, by omega⟩
      exact hlate k (by omega)
    -- All but an application is at its head already, and only its saturation is left.
    have hdone : ∀ a b, Matches f a b → ¬ a.IsApply →
        Answered (Evaluated f) (reduceUpTo options (n + 1) a)
          fun k => reduceUpTo options (k + 1) b := by
      intro a b h hleft
      have hright : ¬ b.IsApply := fun hb => hleft (h.kind.2 hb)
      simp only [reduceUpTo, reduceOnce_of_not_isApply hleft, reduceOnce_of_not_isApply hright]
      exact saturate_answered ih h hleft
    cases h with
    -- The one case where the two differ in shape: either way to write the fixpoint takes two layers
    -- at most to become the function that it is.
    | fixpoint ha hb =>
      obtain ⟨v, hv, hleft, -, hearly⟩ := ha.reduceUpTo options hcode hmissing
      obtain ⟨w, hw, hright, hlate, -⟩ := hb.reduceUpTo options hcode hmissing
      intro hends
      obtain hgiven | hvalue := hearly (n + 1)
      · exact (hends hgiven).elim
      · exact ⟨.ok w, 1, hvalue ▸ .ok ⟨.fixpoint hv hw, hleft, hright⟩, fun k hk => by
          obtain ⟨k, rfl⟩ : ∃ j, k = j + 1 := ⟨k - 1, by omega⟩
          exact hlate k⟩
    | apply hg hx => exact application_answered ih hg hx
    | value v => exact hdone _ _ (.refl f _) (by simp [IsApply])
    | failed e => exact hdone _ _ (.refl f _) (by simp [IsApply])
    | function c => exact hdone _ _ (.refl f _) (by simp [IsApply])
    | pair hfirst hsecond =>
      exact hdone _ _ ⟨.pair hfirst hsecond, by simp [IsApply]⟩ (by simp [IsApply])
    | bound hsame hg hx =>
      exact hdone _ _ ⟨.bound hsame hg hx, by simp [IsApply]⟩ (by simp [IsApply])
    | tied hsame hg => exact hdone _ _ ⟨.tied hsame hg, by simp [IsApply]⟩ (by simp [IsApply])

end Reduction

end GraphReduction.Tree
