import Mathlib
import GraphReduction.Proofs.Terms.Laid
import GraphReduction.Proofs.Terms.TypeLabels
import GraphReduction.Proofs.Types.Principal

/-! Types of terms under evaluation. Types that fit together before anything is evaluated are labels
for what a term is made of. Evaluation keeps labels. -/
namespace GraphReduction

open Heap

theorem Ty.subst_of_ground {t : Ty} (h : t.leaves = []) (θ : Assignment) : t.subst θ = t :=
  (Ty.subst_congr fun v hv => by rw [h] at hv; cases hv).trans (Ty.subst_id t)

namespace Heap

variable {m : Heap} {h : Handle} {o : ObjectId}

theorem eq_target_of_occurrence (hat : m.occurrence (some h) = .object o) : o = h.target := by
  simp only [occurrence] at hat
  split at hat
  · cases hat
  · split at hat
    · cases hat
    · split at hat
      · cases hat
      · exact (Occurrence.object.inj hat).symm
    · exact (Occurrence.object.inj hat).symm

inductive IsPart (m : Heap) (h : Handle) : Handle → Prop
  | self : IsPart m h h
  | function {g f x} (hg : IsPart m h g) (hkind : m.kind? g = some (.application (.pending f x))) :
      IsPart m h f
  | argument {g f x} (hg : IsPart m h g) (hkind : m.kind? g = some (.application (.pending f x))) :
      IsPart m h x

theorem Implements.declared_eq {c : Closure} {p : Primitive} {held : Multiset Holding}
    (h : m.Implements c.combinator p) (hvalid : m.Valid held)
    (hkind : m.kindOf? o = some (.closure c)) : m.declared c = p.declaredType := by
  have hdeclared : m.declared c =
      ((m.combinatorOf? c.combinator).map Combinator.type).getD .int := by
    rw [declared, combinatorOf?, Option.map_map]
    rfl
  rw [hdeclared, h.combinatorOf?_eq hvalid hkind]
  rfl

end Heap

/-- The roles of typed terms: what the type of the handle depends on has the type it is given. -/
noncomputable def Roles.typed (m : Heap) (h : Handle) (term : ObjectId → Term) (τ : Typing) :
    Roles Ty where
  object o :=
    open Classical in
    match (Roles.library : Roles Ty).object o, term o with
    | some role, _ => some role
    | none, .literal l => if m.Visible (some h) o then some (.value l.boxed) else none
    | none, .apply f x =>
      if m.Visible (some h) o then some (.node (τ.object o) (2 * (Term.apply f x).height)) else none
    | none, .primitive _ => none
  thunk _ := none

theorem Roles.typed_cases {m : Heap} {h : Handle} {term : ObjectId → Term} {τ : Typing}
    {o : ObjectId} {role : Role Ty} (hrole : (Roles.typed m h term τ).object o = some role) :
    (∃ p : Primitive, o = ⟨p.place⟩ ∧ role = .declaration p) ∨
      m.Visible (some h) o ∧ ((∃ l, term o = .literal l ∧ role = .value l.boxed) ∨
        ∃ f x, term o = .apply f x ∧ role = .node (τ.object o) (2 * (Term.apply f x).height)) := by
  cases hlibrary : (Roles.library : Roles Ty).object o with
  | some role' =>
    obtain rfl : role' = role := by simpa [Roles.typed, hlibrary] using hrole
    exact .inl (Roles.eq_place_of_library hlibrary)
  | none =>
    cases hterm : term o with
    | literal l =>
      obtain ⟨hvisible, rfl⟩ : m.Visible (some h) o ∧ Role.value l.boxed = role := by
        simpa [Roles.typed, hlibrary, hterm] using hrole
      exact .inr ⟨hvisible, .inl ⟨l, rfl, rfl⟩⟩
    | primitive p => simp [Roles.typed, hlibrary, hterm] at hrole
    | apply f x =>
      obtain ⟨hvisible, rfl⟩ : m.Visible (some h) o ∧
          Role.node (τ.object o) (2 * (Term.apply f x).height) = role := by
        simpa [Roles.typed, hlibrary, hterm] using hrole
      exact .inr ⟨hvisible, .inr ⟨f, x, rfl, rfl⟩⟩

namespace Client.Laid

variable {c : Client} {term : ObjectId → Term} {τ : Typing} {root g h : Handle} {t whole : Term}
  {y : Ty} {o : ObjectId} {kind : ObjectKind}

theorem library_eq_none (hup : (Ty.labelling whole).Upholds c.heap Roles.library c.holdings)
    (hkind : c.heap.kindOf? o = some kind) (hclosure : ∀ k, kind ≠ .closure k) :
    (Roles.library : Roles Ty).object o = none := by
  cases hrole : (Roles.library : Roles Ty).object o with
  | none => rfl
  | some role =>
    obtain ⟨p, -, rfl⟩ := Roles.eq_place_of_library hrole
    obtain ⟨k, heq, -⟩ := hup.supports.object _ _ _ hrole hkind
    exact (hclosure _ heq).elim

theorem parts_made (hlaid : c.Laid term)
    (hup : (Ty.labelling whole).Upholds c.heap Roles.library c.holdings) {f x : Handle}
    (hg : (g, t) ∈ c.terms)
    (hkind : c.heap.kindOf? g.target = some (.application (.pending f x))) :
    ∃ tf tx, t = .apply tf tx ∧ (f, tf) ∈ c.terms ∧ (x, tx) ∈ c.terms := by
  have hlies := hlaid.lies _ _ _ hg hkind
  cases t with
  | literal l => cases hlies
  | primitive p =>
    have hplace : g.target = ⟨p.place⟩ := hlies
    obtain ⟨k, heq, -⟩ := hup.supports.object _ _ _ (Roles.library_place p) (hplace ▸ hkind)
    cases heq
  | apply tf tx =>
    obtain ⟨f', x', heq, hf, hx⟩ := hlies
    cases heq
    exact ⟨tf, tx, rfl, hf, hx⟩

theorem made_of_isPart (hlaid : c.Laid term)
    (hup : (Ty.labelling whole).Upholds c.heap Roles.library c.holdings) (hroot : (root, t) ∈ c.terms)
    (hpart : c.heap.IsPart root g) : (g, term g.target) ∈ c.terms := by
  have hmade : ∃ u, (g, u) ∈ c.terms := by
    induction hpart with
    | self => exact ⟨t, hroot⟩
    | function _ hkind ih =>
      obtain ⟨u, hu⟩ := ih
      obtain ⟨tf, tx, -, hf, -⟩ := hlaid.parts_made hup hu hkind
      exact ⟨tf, hf⟩
    | argument _ hkind ih =>
      obtain ⟨u, hu⟩ := ih
      obtain ⟨tf, tx, -, -, hx⟩ := hlaid.parts_made hup hu hkind
      exact ⟨tx, hx⟩
  obtain ⟨u, hu⟩ := hmade
  rwa [hlaid.made _ _ hu]

theorem mem_subterms_of_isPart (hlaid : c.Laid term)
    (hup : (Ty.labelling whole).Upholds c.heap Roles.library c.holdings) (hroot : (root, t) ∈ c.terms)
    (hpart : c.heap.IsPart root g) : term g.target ∈ t.subterms := by
  have hparts : ∀ {g f x}, c.heap.IsPart root g → term g.target ∈ t.subterms →
      c.heap.kind? g = some (.application (.pending f x)) →
      term f.target ∈ t.subterms ∧ term x.target ∈ t.subterms := by
    intro g f x hg hmem hkind
    obtain ⟨tf, tx, hterm, hf, hx⟩ :=
      hlaid.parts_made hup (hlaid.made_of_isPart hup hroot hg) hkind
    have hsub := Term.subterms_subset hmem
    rw [hterm] at hsub
    rw [hlaid.made _ _ hf, hlaid.made _ _ hx]
    exact ⟨hsub (.tail _ (List.mem_append_left _ tf.mem_subterms_self)),
      hsub (.tail _ (List.mem_append_right _ tx.mem_subterms_self))⟩
  induction hpart with
  | self => exact (hlaid.made _ _ hroot).symm ▸ t.mem_subterms_self
  | function hg hkind ih => exact (hparts hg ih hkind).1
  | argument hg hkind ih => exact (hparts hg ih hkind).2

theorem kindOf?_of_isPart (hup : (Ty.labelling whole).Upholds c.heap Roles.library c.holdings)
    (hheld : root ∈ c.held) (hpart : c.heap.IsPart root g) :
    ∃ kind, c.heap.kindOf? g.target = some kind := by
  have hlive : c.heap.IsLive g.edge := by
    cases hpart with
    | self => exact hup.live (holding_mem hheld)
    | @function g f x _ hkind =>
      have hkind : c.heap.kindOf? g.target = _ := hkind
      exact hup.valid.counted.live_of_kind hkind (by simp [Handle.holding])
    | @argument g f x _ hkind =>
      have hkind : c.heap.kindOf? g.target = _ := hkind
      exact hup.valid.counted.live_of_kind hkind (by simp [Handle.holding])
  obtain ⟨z, hz⟩ := Option.isSome_iff_exists.1 hlive
  exact ⟨z.kind, by simp [kindOf?, hz]⟩

theorem isException_eq_false (hlaid : c.Laid term) (hg : (g, t) ∈ c.terms) :
    g.isException = false := by
  rw [hlaid.plain _ _ hg]
  rfl

theorem visible_of_isPart (hlaid : c.Laid term)
    (hup : (Ty.labelling whole).Upholds c.heap Roles.library c.holdings) (hroot : (root, t) ∈ c.terms)
    (hpart : c.heap.IsPart root g) (hat : c.heap.occurrence (some g) = .object o) :
    c.heap.Visible (some root) o := by
  induction hpart generalizing o with
  | self => exact .here hat
  | function hg hkind ih =>
    have hexception := hlaid.isException_eq_false (hlaid.made_of_isPart hup hroot hg)
    exact .part (ih (occurrence_of_kind hexception hkind (by simp))) hkind (by simp [parts]) hat
  | argument hg hkind ih =>
    have hexception := hlaid.isException_eq_false (hlaid.made_of_isPart hup hroot hg)
    exact .part (ih (occurrence_of_kind hexception hkind (by simp))) hkind (by simp [parts]) hat

theorem isPart_of_visible (hlaid : c.Laid term)
    (hup : (Ty.labelling whole).Upholds c.heap Roles.library c.holdings) (hroot : (root, t) ∈ c.terms)
    (hvisible : c.heap.Visible (some root) o) : c.heap.IsPart root (.plain o) := by
  induction hvisible with
  | here hat =>
    rw [eq_target_of_occurrence hat, ← hlaid.plain _ _ hroot]
    exact .self
  | @part o o' kind part _ hkind hpart hat ih =>
    have hlies := hlaid.lies _ _ _ (hlaid.made_of_isPart hup hroot ih) hkind
    cases hterm : term (Handle.plain o).target with
    | literal l =>
      rw [hterm] at hlies
      cases hlies
      cases hpart
    | primitive p =>
      rw [hterm] at hlies
      obtain rfl : o = ⟨p.place⟩ := hlies
      obtain ⟨k, rfl, -⟩ := hup.supports.object _ _ _ (Roles.library_place p) hkind
      simp [parts, Closure.arguments_bare] at hpart
    | apply tf tx =>
      rw [hterm] at hlies
      obtain ⟨f, x, rfl, hf, hx⟩ := hlies
      obtain rfl | rfl : part = some f ∨ part = some x := by simpa [parts] using hpart
      · rw [eq_target_of_occurrence hat, ← hlaid.plain _ _ hf]
        exact .function ih hkind
      · rw [eq_target_of_occurrence hat, ← hlaid.plain _ _ hx]
        exact .argument ih hkind

theorem stands (hlaid : c.Laid term) (hup : (Ty.labelling t).Upholds c.heap Roles.library c.holdings)
    (hroot : (root, t) ∈ c.terms) (hheld : root ∈ c.held)
    (hconsistent : τ.Consistent c.heap (some root)) (hpart : c.heap.IsPart root h)
    (hy : τ.Allows c.heap (some h) y) :
    (Roles.typed c.heap root term τ).Stands (Ty.labelling t) h y (2 * (term h.target).height) := by
  obtain ⟨kind, hkind⟩ := kindOf?_of_isPart hup hheld hpart
  have hmem := hlaid.mem_subterms_of_isPart hup hroot hpart
  have hmade := hlaid.made_of_isPart hup hroot hpart
  have hexception := hlaid.isException_eq_false hmade
  have hplain : h.tag = .plain := by rw [hlaid.plain _ _ hmade]; rfl
  have hlies := hlaid.lies _ _ _ hmade hkind
  have hvisible : ∀ {o}, c.heap.occurrence (some h) = .object o → c.heap.Visible (some root) o :=
    hlaid.visible_of_isPart hup hroot hpart
  cases hterm : term h.target with
  | literal l =>
    rw [hterm] at hlies
    cases hlies
    have hat := occurrence_of_kind hexception hkind (by simp)
    have hseen := hvisible hat
    have hlibrary := library_eq_none hup hkind (by simp)
    have hfits := hconsistent _ _ hseen hkind
    refine ⟨.value l.boxed, by simp [Roles.typed, hlibrary, hterm, hseen],
      ⟨l, fun _ _ => hterm ▸ hmem, rfl, ?_⟩, by simp [Role.Tagged, hplain]⟩
    rw [(Typing.allows_object hat).1 hy]
    exact hfits.trans (Ty.subst_of_ground l.leaves_type _)
  | primitive p =>
    rw [hterm] at hlies
    have hplace : h.target = ⟨p.place⟩ := hlies
    have hrole : (Roles.library : Roles Ty).object h.target = some (.declaration p) := by
      rw [hplace, Roles.library_place]
    obtain ⟨k, rfl, himpl⟩ := hup.supports.object _ _ _ hrole hkind
    have hat := occurrence_of_bare hexception hkind
      (by simp [Closure.bound, Closure.total, Closure.bare])
    have hinstance := (Typing.allows_declaration hat).1 hy
    rw [himpl.declared_eq hup.valid hkind] at hinstance
    exact ⟨.declaration p, by simp [Roles.typed, hrole], ⟨hterm ▸ hmem, hinstance⟩,
      by simp [Role.Tagged, hplain]⟩
  | apply tf tx =>
    rw [hterm] at hlies
    obtain ⟨f, x, rfl, hf, hx⟩ := hlies
    have hat := occurrence_of_kind hexception hkind (by simp)
    have hseen := hvisible hat
    have hlibrary := library_eq_none hup hkind (by simp)
    exact ⟨.node (τ.object h.target) _, by simp [Roles.typed, hlibrary, hterm, hseen],
      ⟨((Typing.allows_object hat).1 hy).symm, le_rfl⟩, hplain⟩

theorem supports_typed (hlaid : c.Laid term)
    (hup : (Ty.labelling t).Upholds c.heap Roles.library c.holdings) (hroot : (root, t) ∈ c.terms)
    (hheld : root ∈ c.held) (hconsistent : τ.Consistent c.heap (some root)) :
    (Ty.labelling t).Supports c.heap (Roles.typed c.heap root term τ) := by
  have hmade : ∀ {o}, c.heap.Visible (some root) o → (Handle.plain o, term o) ∈ c.terms :=
    fun hvisible => hlaid.made_of_isPart hup hroot (hlaid.isPart_of_visible hup hroot hvisible)
  refine ⟨fun o role hrole => ?_, by rintro t h ⟨⟩, by rintro t h ⟨⟩,
    fun o role kind hrole hkind => ?_, by rintro t h state ⟨⟩, fun p => ?_, hup.supports.ground⟩
  · obtain ⟨p, rfl, -⟩ | ⟨hvisible, -⟩ := Roles.typed_cases hrole
    · exact (hup.valid.library.live p).allocated
    · exact hlaid.allocated _ _ (hmade hvisible)
  · obtain ⟨p, rfl, rfl⟩ | ⟨hvisible, ⟨l, hterm, rfl⟩ | ⟨tf, tx, hterm, rfl⟩⟩ :=
      Roles.typed_cases hrole
    · exact hup.supports.object _ _ _ (Roles.library_place p) hkind
    · have hlies := hlaid.lies _ _ _ (hmade hvisible) hkind
      rw [hterm] at hlies
      exact hlies
    · have hlies := hlaid.lies _ _ _ (hmade hvisible) hkind
      rw [hterm] at hlies
      obtain ⟨f, x, rfl, hf, hx⟩ := hlies
      obtain ⟨a, hfa, hxa⟩ := hconsistent _ _ hvisible hkind
      have howner := hlaid.isPart_of_visible hup hroot hvisible
      have hstandsf := hlaid.stands hup hroot hheld hconsistent (.function howner hkind) hfa
      have hstandsx := hlaid.stands hup hroot hheld hconsistent (.argument howner hkind) hxa
      rw [hlaid.made _ _ hf] at hstandsf
      rw [hlaid.made _ _ hx] at hstandsx
      refine .inl ⟨f, x, .arrow a (τ.object o), a, 2 * max tf.height tx.height, rfl,
        hstandsf.mono (by omega), hstandsx.mono (by omega), ?_, rfl⟩
      rw [Term.height]
      omega
  · simp [Roles.typed, Roles.library_place]

end Client.Laid

end GraphReduction
