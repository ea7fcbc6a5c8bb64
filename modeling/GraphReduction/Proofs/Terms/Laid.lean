import Mathlib
import GraphReduction.Proofs.Terms.Client

/-! Terms as they are made. Before anything is evaluated, the graph behind a handle unfolds into the
term that the handle was made as: there is a literal, a primitive, or an application of two handles
that were made as the parts. -/
namespace GraphReduction

open Heap

/-- What is behind a handle that was made as the term. -/
def Term.Lies (terms : List (Handle × Term)) (o : ObjectId) (kind : ObjectKind) : Term → Prop
  | literal l => kind = .value l.boxed
  | primitive p => o = ⟨p.place⟩
  | apply tf tx => ∃ f x, kind = .application (.pending f x) ∧ (f, tf) ∈ terms ∧ (x, tx) ∈ terms

theorem Term.Lies.mono {terms terms' : List (Handle × Term)} {o : ObjectId} {kind : ObjectKind}
    {t : Term} (h : t.Lies terms o kind) (hsub : terms ⊆ terms') : t.Lies terms' o kind := by
  cases t with
  | literal l => exact h
  | primitive p => exact h
  | apply tf tx =>
    obtain ⟨f, x, hkind, hf, hx⟩ := h
    exact ⟨f, x, hkind, hsub hf, hsub hx⟩

namespace Client

/-- Every object has been made as one term, and is as it was made. -/
structure Laid (c : Client) (term : ObjectId → Term) : Prop where
  library : ∀ p : Primitive, term ⟨p.place⟩ = .primitive p
  plain : ∀ h t, (h, t) ∈ c.terms → h = .plain h.target
  made : ∀ h t, (h, t) ∈ c.terms → term h.target = t
  allocated : ∀ h t, (h, t) ∈ c.terms → c.heap.Allocated h.edge
  lies : ∀ h t kind, (h, t) ∈ c.terms → c.heap.kindOf? h.target = some kind →
    t.Lies c.terms h.target kind

variable {usable : Primitive → Prop} {c c' : Client} {term : ObjectId → Term}

theorem laid_initial : ∃ term, Laid {} term := by
  refine ⟨fun o => (Primitive.all[o.index]?.map Term.primitive).getD (.literal (.bool true)),
    ?_, ?_, ?_, ?_, ?_⟩
  · intro p
    simp [Primitive.all_getElem?_place]
  all_goals simp

theorem Laid.keep (h : c.Laid term) (hmakes : Makes usable c c') (hterms : c'.terms = c.terms) :
    c'.Laid term where
  library := h.library
  plain g t hg := h.plain g t (hterms ▸ hg)
  made g t hg := h.made g t (hterms ▸ hg)
  allocated g t hg :=
    (hmakes.evolves (Roles.library : Roles Unit)).allocated _ (h.allocated g t (hterms ▸ hg))
  lies g t kind hg hkind := by
    rw [hterms] at hg ⊢
    exact h.lies g t kind hg (hmakes.kindOf?_eq (h.allocated g t hg) hkind)

theorem Laid.cons {term' : ObjectId → Term} (h : c.Laid term) (hmakes : Makes usable c c')
    {o : ObjectId} {t : Term} (hterms : c'.terms = (.plain o, t) :: c.terms)
    (hsame : ∀ p, c.heap.Allocated (.object p) → term' p = term p)
    (hlibrary : ∀ p : Primitive, c.heap.Allocated (.object ⟨p.place⟩))
    (hmade : term' o = t) (halloc : c'.heap.Allocated (.object o))
    (hlies : ∀ kind, c'.heap.kindOf? o = some kind → t.Lies c'.terms o kind) : c'.Laid term' where
  library p := (hsame _ (hlibrary p)).trans (h.library p)
  plain g u hg := by
    rw [hterms, List.mem_cons] at hg
    obtain heq | hg := hg
    · cases heq
      rfl
    · exact h.plain g u hg
  made g u hg := by
    rw [hterms, List.mem_cons] at hg
    obtain heq | hg := hg
    · cases heq
      exact hmade
    · exact (hsame _ (h.allocated g u hg)).trans (h.made g u hg)
  allocated g u hg := by
    rw [hterms, List.mem_cons] at hg
    obtain heq | hg := hg
    · cases heq
      exact halloc
    · exact (hmakes.evolves (Roles.library : Roles Unit)).allocated _ (h.allocated g u hg)
  lies g u kind hg hkind := by
    rw [hterms, List.mem_cons] at hg
    obtain heq | hg := hg
    · cases heq
      exact hlies kind hkind
    · have hold := h.lies g u kind hg (hmakes.kindOf?_eq (h.allocated g u hg) hkind)
      exact hold.mono fun x hx => hterms ▸ List.mem_cons_of_mem _ hx

theorem Laid.add (h : c.Laid term) (hmakes : Makes usable c c') {kind : ObjectKind} {t : Term}
    (hlibrary : ∀ p : Primitive, c.heap.Allocated (.object ⟨p.place⟩))
    (hheap : c'.heap = (c.heap.newObject kind).2)
    (hterms : c'.terms = (.plain c.heap.nextObject, t) :: c.terms)
    (hlies : t.Lies c'.terms c.heap.nextObject kind) :
    c'.Laid (Function.update term c.heap.nextObject t) := by
  have hgrows := grows_newObject c.heap kind
  refine h.cons hmakes hterms (fun p hp => ?_) hlibrary (Function.update_self ..) ?_
    fun kind' hkind => ?_
  · have hne : p ≠ c.heap.nextObject := by
      rintro rfl
      exact hgrows.fresh hp
    exact Function.update_of_ne hne ..
  · rw [hheap, hgrows.allocated]
    exact .inl rfl
  · rw [hheap, kindOf?_newObject, if_pos rfl] at hkind
    obtain rfl := Option.some.inj hkind
    exact hlies

theorem Makes.laid (hmakes : Makes usable c c') (hlibrary : c.heap.Library) (h : c.Laid term) :
    ∃ term, c'.Laid term := by
  have hplaces : ∀ p : Primitive, c.heap.Allocated (.object ⟨p.place⟩) := fun p =>
    (hlibrary.live p).allocated
  have hstep := hmakes
  cases hmakes with
  | literal l hrun =>
    rw [l.box_run] at hrun
    cases hrun
    exact ⟨_, h.add hstep hplaces rfl rfl rfl⟩
  | primitive p husable hrun =>
    cases hrun
    exact ⟨_, h.cons hstep rfl (fun _ _ => rfl) hplaces (h.library p)
      ((hstep.evolves (Roles.library : Roles Unit)).allocated _ (hplaces p)) fun _ _ => rfl⟩
  | apply hf hx hrun =>
    cases hrun
    exact ⟨_, h.add hstep hplaces rfl rfl
      ⟨_, _, rfl, List.mem_cons_of_mem _ hf, List.mem_cons_of_mem _ hx⟩⟩
  | share hlive hrun => exact ⟨_, h.keep hstep rfl⟩
  | release hrun => exact ⟨_, h.keep hstep rfl⟩
  | reorder hperm => exact ⟨_, h.keep hstep rfl⟩

/-- Before anything is evaluated, the graph is as it was made, and only primitives have roles. -/
theorem Reaches.laid {X : Type} (L : Labelling X) (h : Reaches usable ∅ {} c) :
    L.Upholds c.heap Roles.library c.holdings ∧ ∃ term, c.Laid term := by
  induction h with
  | refl => exact ⟨L.upholds_initial, laid_initial⟩
  | tail _ hstep ih =>
    obtain ⟨hup, term, hlaid⟩ := ih
    obtain hmakes | ⟨hterm, hamong, -⟩ := hstep
    · exact ⟨hmakes.upholds hup, hmakes.laid hup.valid.library hlaid⟩
    · exact hamong.elim

end Client

end GraphReduction
