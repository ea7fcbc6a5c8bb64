import Mathlib
import GraphReduction.Proofs.Types.Substitute
import GraphReduction.Proofs.Types.Written

/-! Labels identify nodes. All nodes built so far make a list that has each node at the place of its
label, and whatever builds nodes only makes the list longer. So in a run of commands two nodes that
can be reached have one label exactly if they are the same node, and an arrow that a replacement
builds is none of the nodes that were there. -/
namespace GraphReduction

namespace Node

/-- Every node of the tree is in the list, at the place of its label. -/
def Recorded (built : List Node) (n : Node) : Prop :=
  ∀ path k, n.at? path = some k → built[k.label]? = some k

variable {built built' : List Node} {a b n m image parameter result : Node}

theorem at?_append (n : Node) (path rest : List TyPart) :
    n.at? (path ++ rest) = (n.at? path).bind (·.at? rest) := by
  induction path generalizing n with
  | nil => rfl
  | cons which path ih =>
    cases hside : n.side? which with
    | none => simp [at?, hside]
    | some side => simp [at?, hside, ih]

namespace Recorded

theorem mono (h : n.Recorded built) (hbuilt : built <+: built') : n.Recorded built' := by
  intro path k hat
  obtain ⟨more, rfl⟩ := hbuilt
  obtain ⟨hplace, -⟩ := List.getElem?_eq_some_iff.1 (h path k hat)
  rw [List.getElem?_append_left hplace]
  exact h path k hat

theorem at? (h : n.Recorded built) {path : List TyPart} {k : Node} (hat : n.at? path = some k) :
    k.Recorded built := by
  intro rest j hj
  apply h (path ++ rest) j
  rw [at?_append, hat, Option.bind_some, hj]

theorem label_lt (h : n.Recorded built) : n.label < built.length :=
  (List.getElem?_eq_some_iff.1 (h [] n rfl)).1

theorem identical_iff (ha : a.Recorded built) (hb : b.Recorded built) :
    a.identical b = true ↔ a = b := by
  constructor
  · intro hsame
    have hplace := ha [] a rfl
    rw [eq_of_beq hsame, hb [] b rfl] at hplace
    exact (Option.some.inj hplace).symm
  · rintro rfl
    exact beq_self_eq_true _

theorem arrow {label : Nat} (hplace : built[label]? = some (.arrow label parameter result))
    (hparameter : parameter.Recorded built) (hresult : result.Recorded built) :
    (Node.arrow label parameter result).Recorded built := by
  intro path k hat
  match path with
  | [] =>
    obtain rfl : _ = k := Option.some.inj hat
    exact hplace
  | .parameter :: path => exact hparameter path k hat
  | .result :: path => exact hresult path k hat

theorem leaf (hleaf : n.arrow? = none) (hplace : built[n.label]? = some n) : n.Recorded built := by
  intro path k hat
  cases path with
  | nil =>
    obtain rfl : n = k := Option.some.inj hat
    exact hplace
  | cons which path =>
    rw [at?_cons_of_leaf hleaf] at hat
    cases hat

theorem sides {label : Nat} (h : (Node.arrow label parameter result).Recorded built) :
    parameter.Recorded built ∧ result.Recorded built := by
  have hparameter : (Node.arrow label parameter result).at? [.parameter] = some parameter := rfl
  have hresult : (Node.arrow label parameter result).at? [.result] = some result := rfl
  exact ⟨h.at? hparameter, h.at? hresult⟩

end Recorded

end Node

/-! Building nodes -/

/-- The next label is the next place of the list. -/
def NodeSupply.Counts (s : NodeSupply) (built : List Node) : Prop := s.nextLabel = built.length

namespace Node

abbrev Makes {α : Type} (built : List Node) (act : Building α) (P : List Node → α → Prop) : Prop :=
  Builds (· <+: ·) NodeSupply.Counts built act P

variable {built : List Node} {n image parameter result : Node}

theorem makes_freshVar : Makes built Building.freshVar fun _ _ => True :=
  fun _ hcounts => ⟨built, List.prefix_refl _, hcounts, trivial⟩

theorem makes_genericVar (index : Nat) : Makes built (Building.genericVar index) fun _ _ => True :=
  fun _ hcounts => ⟨built, List.prefix_refl _, hcounts, trivial⟩

theorem makes_label (n : Nat → Node) :
    Makes built (return n (← Building.label)) fun built' m =>
      m = n built.length ∧ built'[built.length]? = some m := by
  intro s hcounts
  have hlabel : s.nextLabel = built.length := hcounts
  refine ⟨built ++ [n built.length], List.prefix_append _ _, ?_, ?_, ?_⟩
  · show s.nextLabel + 1 = _
    simp [hlabel]
  · show n s.nextLabel = _
    rw [hlabel]
  · show (built ++ [n built.length])[built.length]? = some (n s.nextLabel)
    simp [hlabel]

theorem makes_newNamed (name : TypeName) :
    Makes built (newNamed name) fun built' n => n.Recorded built' :=
  (makes_label (named · name)).imp fun _ _ _ ⟨hn, hplace⟩ => by
    subst hn
    exact .leaf rfl hplace

theorem makes_newVar (id : VarId) : Makes built (newVar id) fun built' n => n.Recorded built' :=
  (makes_label (var · id)).imp fun _ _ _ ⟨hn, hplace⟩ => by
    subst hn
    exact .leaf rfl hplace

theorem makes_newArrow (hparameter : parameter.Recorded built) (hresult : result.Recorded built) :
    Makes built (newArrow parameter result) fun built' n => n.Recorded built' :=
  (makes_label (arrow · parameter result)).imp fun _ _ hbuilt ⟨hn, hplace⟩ => by
    subst hn
    exact .arrow hplace (hparameter.mono hbuilt) (hresult.mono hbuilt)

theorem makes_fresh : Makes built freshVar fun built' n => n.Recorded built' :=
  makes_freshVar.bind fun _ v _ _ => makes_newVar v

theorem makes_substitute (v : VarId) (hn : n.Recorded built) (himage : image.Recorded built) :
    Makes built (n.substitute v image) fun built' m => m.Recorded built' := by
  induction n generalizing built with
  | named label name =>
    unfold substitute
    split
    · exact .pure hn
    · exact .pure hn
  | var label id =>
    unfold substitute
    split
    · exact .pure himage
    · exact .pure hn
  | arrow label parameter result ihp ihr =>
    unfold substitute
    split
    · refine (ihp hn.sides.1 himage).bind fun _ _ hbuilt hparameter => ?_
      refine (ihr (hn.sides.2.mono hbuilt) (himage.mono hbuilt)).bind fun _ _ hbuilt' hresult => ?_
      exact makes_newArrow (hparameter.mono hbuilt') hresult
    · exact .pure hn

theorem makes_deepCopy (n : Node) : Makes built n.deepCopy fun built' m => m.Recorded built' := by
  induction n generalizing built with
  | named label name => exact makes_newNamed name
  | var label id => exact makes_newVar id
  | arrow label parameter result ihp ihr =>
    exact ihp.bind fun _ _ _ hparameter => ihr.bind fun _ _ hbuilt hresult =>
      makes_newArrow (hparameter.mono hbuilt) hresult

/-- All images of a renaming are in the list. -/
def ImagesRecorded (built : List Node) (known : List (VarId × Node)) : Prop :=
  ∀ p ∈ known, p.2.Recorded built

theorem ImagesRecorded.mono {built' : List Node} {known : List (VarId × Node)}
    (h : ImagesRecorded built known) (hbuilt : built <+: built') : ImagesRecorded built' known :=
  fun p hp => (h p hp).mono hbuilt

theorem makes_instantiateWith {known : List (VarId × Node)} (hn : n.Recorded built)
    (hknown : ImagesRecorded built known) :
    Makes built (n.instantiateWith known) fun built' found =>
      found.1.Recorded built' ∧ ImagesRecorded built' found.2 := by
  induction n generalizing built known with
  | named label name => exact .pure ⟨hn, hknown⟩
  | var label id =>
    unfold instantiateWith
    split
    · next image himage =>
      obtain ⟨before, after, hmem, -⟩ := List.lookup_eq_some_iff.1 himage
      exact .pure ⟨hknown (id, image) (by simp [hmem]), hknown⟩
    · exact makes_fresh.bind fun _ _ hbuilt hfresh =>
        .pure ⟨hfresh, List.forall_mem_cons.2 ⟨hfresh, hknown.mono hbuilt⟩⟩
  | arrow label parameter result ihp ihr =>
    refine (ihp hn.sides.1 hknown).bind fun _ _ hbuilt hparameter => ?_
    refine (ihr (hn.sides.2.mono hbuilt) hparameter.2).bind fun _ _ hbuilt' hresult => ?_
    exact (makes_newArrow (hparameter.1.mono hbuilt') hresult.1).bind fun _ _ hbuilt'' hnew =>
      .pure ⟨hnew, hresult.2.mono hbuilt''⟩

theorem makes_instantiate (hn : n.Recorded built) :
    Makes built n.instantiate fun built' m => m.Recorded built' :=
  (makes_instantiateWith hn (by simp [ImagesRecorded])).bind fun _ _ _ hfound => .pure hfound.1

theorem makes_generalize (hn : n.Recorded built) :
    Makes built n.generalize fun built' m => m.Recorded built' := by
  unfold generalize
  refine Builds.bind (P := ImagesRecorded) (.mapM (fun hbuilt h => h.mono hbuilt) fun _ _ place => ?_)
    fun _ _ hbuilt hknown => ?_
  · exact (makes_genericVar place.2).bind fun _ generic _ _ =>
      (makes_newVar generic).bind fun _ _ _ hnew => .pure hnew
  · exact (makes_instantiateWith (hn.mono hbuilt) hknown).bind fun _ _ _ hfound => .pure hfound.1

theorem makes_instantiateAll {ns : List Node} (hns : ∀ n ∈ ns, n.Recorded built) :
    Makes built (instantiateAll ns) fun _ _ => True := by
  refine Builds.bind (P := fun built' found => ImagesRecorded built' found.2)
    (.foldlM (by simp [ImagesRecorded]) fun built' found hbuilt hknown n hn => ?_)
    fun _ _ _ _ => .pure trivial
  exact (makes_instantiateWith ((hns n hn).mono hbuilt) hknown).bind fun _ _ _ hfound =>
    .pure hfound.2

end Node

/-! Expressions and commands -/

structure TyScope.Recorded (scope : TyScope) (built : List Node) : Prop where
  counts : scope.supply.Counts built
  base : ∀ type : BaseTy, type.node.Recorded built
  registers : ∀ p ∈ scope.registers, p.2.Recorded built

namespace TyExpr

/-- A computation that may fail, and after which what can be reached has been built. -/
abbrev Records {α : Type} (built : List Node) (act : Denotes α) (P : List Node → α → Prop) : Prop :=
  Yields (· <+: ·) TyScope.Recorded built act P

variable {α : Type} {built : List Node} {P : List Node → α → Prop}

theorem records_require (a? : Option α) : Records built (TyCommand.require a?) fun _ _ => True := by
  cases a? with
  | none => exact .throw _
  | some a => exact .pure trivial

theorem builds_liftBuilding {b : Building α} (h : Node.Makes built b P) :
    Builds (· <+: ·) TyScope.Recorded built (TyScope.liftBuilding b) P := by
  intro scope hscope
  obtain ⟨built', hbuilt, hcounts, ha⟩ := h scope.supply hscope.counts
  exact ⟨built', hbuilt, ⟨hcounts, fun type => (hscope.base type).mono hbuilt,
    fun p hp => (hscope.registers p hp).mono hbuilt⟩, ha⟩

theorem records_building {b : Building α} (h : Node.Makes built b P) :
    Records built (TyCommand.building b) P := .lift (builds_liftBuilding h)

theorem builds_varOfName (name : String) :
    Builds (· <+: ·) TyScope.Recorded built (TyScope.varOfName name) fun _ _ => True := by
  have hget : Builds (· <+: ·) TyScope.Recorded built (get : StateM TyScope TyScope) fun _ _ => True :=
    fun scope hscope => ⟨built, List.prefix_refl _, hscope, trivial⟩
  refine hget.bind fun built' scope _ _ => ?_
  split
  · exact .pure trivial
  · exact (builds_liftBuilding Node.makes_freshVar).bind fun built' v _ _ =>
      Builds.bind (P := fun _ _ => True)
        (fun scope hscope =>
          ⟨built', List.prefix_refl _, ⟨hscope.counts, hscope.base, hscope.registers⟩, trivial⟩)
        fun _ _ _ _ => .pure trivial

theorem rules_recorded :
    Rules (· <+: ·) TyScope.Recorded (fun built n => n.Recorded built) fun _ _ => True where
  mono hbuilt hn := hn.mono hbuilt
  base hscope type := hscope.base type
  register hscope := hscope.registers
  newNamed _ name := builds_liftBuilding (Node.makes_newNamed name)
  newArrow hparameter hresult := builds_liftBuilding (Node.makes_newArrow hparameter hresult)
  newVar {_ v} _ := builds_liftBuilding (Node.makes_newVar v)
  genericVar _ index := builds_liftBuilding (Node.makes_genericVar index)
  varOfName _ name := builds_varOfName name

end TyExpr

/-- No two types that differ were found to be one node. -/
def TyAnswer.Sound : TyAnswer → Prop
  | .compared same identical => identical = true → same = true
  | _ => True

namespace TyCommand

open TyExpr (Records Yields records_building records_require rules_recorded builds_varOfName)

variable {built : List Node} {n : Node}

theorem makes_copyAs (how : TyCopy) (hn : n.Recorded built) :
    Node.Makes built (copyAs how n) fun built' m => m.Recorded built' := by
  cases how with
  | same => exact .pure hn
  | deep => exact n.makes_deepCopy
  | instantiated => exact Node.makes_instantiate hn
  | generalized => exact Node.makes_generalize hn

theorem makes_drawGaps (before : VarId) (count : Nat) :
    Node.Makes built (drawGaps before count) fun _ _ => True := by
  induction count generalizing built before with
  | zero => exact .pure trivial
  | succ count ih =>
    exact Node.makes_freshVar.bind fun _ v _ _ => (ih v).bind fun _ _ _ _ => .pure trivial

theorem builds_setRegister (register : String) (hn : n.Recorded built) :
    Builds (· <+: ·) TyScope.Recorded built (modify (·.setRegister register n)) fun _ _ => True := by
  intro scope hscope
  refine ⟨built, List.prefix_refl _, ⟨hscope.counts, hscope.base, fun p hp => ?_⟩, trivial⟩
  obtain rfl | hp := List.mem_cons.1 hp
  · exact hn
  · exact hscope.registers p (List.mem_filter.1 hp).1

theorem yields_store (into : OptionalPart String) (hn : n.Recorded built) :
    Records built (store into n) fun _ a => a.Sound := by
  refine (records_require into.read?).bind fun _ register? hbuilt _ => ?_
  split
  · next register =>
    exact (Yields.lift (builds_setRegister register (hn.mono hbuilt))).bind fun _ _ _ _ =>
      .pure trivial
  · exact .pure trivial

theorem yields_answer (c : TyCommand) : Records built c.answer fun _ a => a.Sound := by
  cases c with
  | name text =>
    simp only [answer]
    split
    · exact .pure trivial
    · exact .throw _
  | copy how t into =>
    unfold answer
    exact (rules_recorded.yields_build t built).bind fun _ _ _ hn =>
      (records_building (makes_copyAs how hn)).bind fun _ _ _ hm => yields_store into hm
  | freshVar into =>
    unfold answer
    exact (records_building Node.makes_fresh).bind fun _ _ _ hn => yields_store into hn
  | substitute t replacement v? into =>
    unfold answer
    refine (rules_recorded.yields_build t built).bind fun built₁ n _ hn => ?_
    refine (rules_recorded.yields_build replacement built₁).bind fun _ image hbuilt himage => ?_
    refine (records_require v?).bind fun _ name hbuilt' _ => ?_
    refine (Yields.lift (builds_varOfName name)).bind fun _ v hbuilt'' _ => ?_
    have hmoves := hbuilt'.trans hbuilt''
    exact (records_building (Node.makes_substitute v (hn.mono (hbuilt.trans hmoves))
      (himage.mono hmoves))).bind fun _ _ _ hm => yields_store into hm
  | part which t into =>
    unfold answer
    refine (rules_recorded.yields_build t built).bind fun _ n _ hn => ?_
    split
    · next parameter result hsides =>
      cases n with
      | named | var => cases hsides
      | arrow label _ _ =>
        cases hsides
        cases which with
        | parameter => exact yields_store into hn.sides.1
        | result => exact yields_store into hn.sides.2
    · exact .pure trivial
  | instantiateAll ts =>
    unfold answer
    exact (rules_recorded.yields_buildAll ts built).bind fun _ _ _ hns =>
      (records_building (Node.makes_instantiateAll hns)).bind fun _ _ _ _ => .pure trivial
  | inspect t =>
    unfold answer
    exact (rules_recorded.yields_build t built).bind fun _ _ _ _ => .pure trivial
  | uncurry t count? =>
    unfold answer
    refine (rules_recorded.yields_build t built).bind fun _ n _ _ =>
      (records_require count?).bind fun _ count _ _ => ?_
    cases n.uncurry count with
    | ok parts? => exact .pure trivial
    | error message => exact .pure trivial
  | occurs t v? =>
    unfold answer
    exact (rules_recorded.yields_build t built).bind fun _ _ _ _ =>
      (records_require v?).bind fun _ name _ _ =>
        (Yields.lift (builds_varOfName name)).bind fun _ _ _ _ => .pure trivial
  | compare a b =>
    unfold answer
    refine (rules_recorded.yields_build a built).bind fun built₁ m _ hm => ?_
    refine (rules_recorded.yields_build b built₁).bind fun _ n hbuilt hn => .pure fun hidentical => ?_
    obtain rfl := ((hm.mono hbuilt).identical_iff hn).1 hidentical
    exact beq_self_eq_true _
  | freshIds count =>
    unfold answer
    cases count with
    | zero => exact .pure trivial
    | succ count =>
      exact (records_building Node.makes_freshVar).bind fun _ v _ _ =>
        (records_building (makes_drawGaps v count)).bind fun _ _ _ _ => .pure trivial
  | genericIds a b =>
    unfold answer
    exact (records_building (Node.makes_genericVar a)).bind fun _ _ _ _ =>
      (records_building (Node.makes_genericVar b)).bind fun _ _ _ _ => .pure trivial
  | malformed =>
    unfold answer
    exact .throw _

end TyCommand

namespace TyScope

/-- The scopes that commands lead to. -/
inductive Reached : TyScope → Prop
  | initial : Reached {}
  | step {scope : TyScope} (h : Reached scope) (c : TyCommand) :
    Reached (c.answer.run.run scope).2

variable {scope : TyScope}

theorem recorded_initial :
    Recorded {} [.sharedInt, .sharedBool, .sharedStr] where
  counts := rfl
  base type := by
    cases type with
    | int | bool | str => exact .leaf rfl rfl
  registers := by simp

theorem Reached.recorded (h : Reached scope) : ∃ built, scope.Recorded built := by
  induction h with
  | initial => exact ⟨_, recorded_initial⟩
  | @step scope h c ih =>
    obtain ⟨built, hscope⟩ := ih
    obtain ⟨built', -, hscope', -⟩ := c.yields_answer scope hscope
    exact ⟨built', hscope'⟩

/-- The node is part of a type that a register holds. -/
def Holds (scope : TyScope) (n : Node) : Prop :=
  ∃ p ∈ scope.registers, ∃ path, p.2.at? path = some n

theorem Recorded.holds {built : List Node} {n : Node} (h : scope.Recorded built)
    (hn : scope.Holds n) : n.Recorded built := by
  obtain ⟨p, hp, path, hat⟩ := hn
  exact (h.registers p hp).at? hat

theorem Reached.identical_iff (h : Reached scope) {a b : Node} (ha : scope.Holds a)
    (hb : scope.Holds b) : a.identical b = true ↔ a = b := by
  obtain ⟨built, hscope⟩ := h.recorded
  exact (hscope.holds ha).identical_iff (hscope.holds hb)

theorem Reached.sound (h : Reached scope) (c : TyCommand) {a : TyAnswer}
    (ha : (c.answer.run.run scope).1 = .ok a) : a.Sound := by
  obtain ⟨built, hscope⟩ := h.recorded
  obtain ⟨_, -, -, hsound⟩ := c.yields_answer scope hscope
  exact hsound a ha

theorem Reached.substitute_new (h : Reached scope) {n image m k : Node} {v : VarId}
    {path : List TyPart} (habove : n.Above v path)
    (hat : ((n.substitute v image).run scope.supply).1.at? path = some k) (hm : scope.Holds m) :
    ¬ k.identical m = true := by
  obtain ⟨built, hscope⟩ := h.recorded
  have hnew := ((n.run_substitute v image scope.supply).builtArrow habove hat).2.1
  have hold : m.label < scope.supply.nextLabel := hscope.counts ▸ (hscope.holds hm).label_lt
  exact fun hsame => hnew.not_gt (eq_of_beq hsame ▸ hold)

end TyScope

end GraphReduction
