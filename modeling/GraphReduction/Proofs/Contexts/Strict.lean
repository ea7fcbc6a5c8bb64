import Mathlib
import GraphReduction.Proofs.Contexts.Propagation

/-! Strict contexts of any depth. An error passes every layer of a context that demands what carries
it; in function positions it is one object that all nodes keep, and their arguments are left alone. -/
namespace GraphReduction.Evaluator

open Heap Run

variable {s s' : Machine} {m : Heap} {rest : Multiset Holding} {f h head x y : Handle}
  {n : ObjectId} {p : Primitive} {xs : List Handle} {ns done : List ObjectId} {e : EvalError}
  {options : Options}

/-- Where functions are applied to arguments and the first of them comes to an error, all nodes keep
the same exception. Nothing is changed but what the first function leads to and the nodes; what they
gave back may be gone. -/
theorem spine_keeps (hspine : m.Spine head xs ns f) (hbreaks : Breaks options e m head [])
    (hapart : ∀ n ∈ ns, ¬ m.Reaches head (.object n)) (hsame : s.heap.contents = m.contents)
    (hup : s.heap.Upright rest) (hheld : f.holding ∈ rest) (hhonest : s.heap.Honest f)
    (hintact : s.heap.Intact) :
    ∃ depth r s', reduceUpTo options depth f s = .ok r s' ∧ s'.heap.error? r = some e ∧
      (∀ n ∈ ns, s'.heap.Is (· = .application (.reduced r)) n) ∧
      FadesOff { cell | m.Reaches head cell ∨ ∃ n ∈ ns, cell = .object n } s.heap s'.heap := by
  have hnodup : ns.Nodup := hspine.nodup fun n hn heq => hapart n hn (heq ▸ .here)
  induction hspine generalizing s rest with
  | nil =>
    have hunchanged : m.Unchanged s.heap head := .of_contents hsame
    obtain ⟨depth, r, s', hrun, herror, -⟩ := hbreaks hup hheld hhonest hintact hunchanged
    have hconfined := reduceUpTo_confined options depth hup hheld hhonest hintact
    rw [hrun] at hconfined
    refine ⟨depth, r, s', hrun, herror, by simp, .of_agreeOff (fun cell halloc =>
      (hconfined.2 cell halloc).1) fun cell hout halloc => (hconfined.2 cell halloc).2 ?_⟩
    exact fun hreached => absurd (.inl (hunchanged.reaches hreached)) hout
  | @snoc xs ns f n x hf hkind ih =>
    obtain ⟨hnodup, -, hn⟩ := List.nodup_append.mp hnodup
    have htaken := contents_takeNode s f x
    have hkind' := (kindOf?_congr hsame n).trans hkind
    have hup₀ := upright_takeNode hup hkind'
    have hf₀ := (hup₀.cells.object n _ ((kindOf?_congr htaken n).trans hkind')).1
    obtain ⟨depth, r, s₁, hrun, herror, hkeeps, hfades⟩ :=
      ih (fun k hk => hapart k (by simp [hk])) (htaken.trans hsame) hup₀ (by simp) hf₀
        (hintact.of_contents htaken) hnodup
    have hleaves := reduceUpTo_finishes options depth hup₀ (by simp) hf₀
    rw [hrun] at hleaves
    have hup₁ := hleaves.2.1
    rw [Multiset.singleton_add, Multiset.cons_swap] at hup₁
    have hup₂ := hup₁.release
    have herror₂ : (s₁.on (·.release x)).heap.error? r = some e :=
      Settles.error? (Keeps.release s₁.heap x) herror (hup₂.live (by simp))
    -- the function does not lead to the node, so the node is still there to be written
    have hkind₂ : (s₁.on (·.release x)).heap.kindOf? n = some (.application (.pending f x)) := by
      have hlive : s₁.heap.IsLive (Handle.plain n).edge := hup₁.live (by simp [hheld])
      have hlive' : (s₁.heap.release x).IsLive (Handle.plain n).edge := hup₂.live (by simp [hheld])
      have hthere := (kindOf?_congr htaken n).trans hkind'
      refine (FadesOff.kindOf?_eq (W := ∅) (.release s₁.heap x) hlive.allocated (by simp)
        hlive').trans ((hfades.kindOf?_eq (isLive_of_kindOf? hthere).allocated ?_ hlive).trans hthere)
      rintro (hreached | ⟨k, hk, heq⟩)
      · exact hapart n (by simp) hreached
      · exact hn k hk n (by simp) (Edge.object.inj heq).symm
    have happlication : application options (reduceUpTo options depth) f x (takeNode s f x) =
        .ok r (s₁.on (·.release x)) :=
      application_exception hrun (isException_of_error? herror)
    obtain ⟨s₃, hrun', herror', hkept, -, hsettles, hfades'⟩ :=
      node_keeps hup hheld hkind' happlication herror₂ hkind₂
    have hlast : s₁.heap.Settles s₃.heap := (Keeps.release _ x).trans hsettles
    refine ⟨depth + 1, r, s₃, hrun', herror', List.forall_mem_append.mpr ⟨fun k hk => ?_, ?_⟩, ?_⟩
    · exact Keeps.is hlast (hkeeps k hk) (.inr ⟨r, rfl⟩)
    · exact List.forall_mem_singleton.mpr hkept
    · refine (FadesOff.of_contents htaken).trans ((hfades.mono ?_).trans
        ((FadesOff.release _ x).trans (hfades'.mono ?_)))
      · rintro cell (hreached | ⟨k, hk, rfl⟩) -
        · exact .inl hreached
        · exact .inr ⟨k, by simp [hk], rfl⟩
      · rintro _ rfl -
        exact .inr ⟨n, by simp, rfl⟩

/-- A strict context, built from the inside: what is in the hole comes to the error, and each layer
demands what is inside of it, in a position that is asked for first or whose turn comes. The nodes
are the ones that complete the layers, inner ones first. Where something else is asked for before,
the layers inside are about the heap that this leaves. -/
inductive Fails (options : Options) (e : EvalError) : Heap → Handle → List ObjectId → Prop
  | hole {m : Heap} {y : Handle} (hy : Breaks options e m y []) : Fails options e m y []
  | function {m : Heap} {f x : Handle} {n : ObjectId} {done : List ObjectId}
      (hf : Fails options e m f done)
      (hkind : m.kindOf? n = some (.application (.pending f x)))
      (hapart : ¬ m.Reaches f (.object n)) : Fails options e m (.plain n) (done ++ [n])
  | argument {m : Heap} {p : Primitive} {y h : Handle} {xs : List Handle} {ns done : List ObjectId}
      {n : ObjectId} (hy : Fails options e m y done)
      (hcall : m.Call p (y :: xs) (ns ++ [n]) h)
      (hapart : ∀ k ∈ ns ++ [n], ¬ m.Reaches y (.object k)) : Fails options e m h (done ++ [n])
  | operand {m : Heap} {p : Primitive} {x y h : Handle} {ns done : List ObjectId} {n : ObjectId}
      (hp : p.IsOperation) (hcall : m.Call p [x, y] (ns ++ [n]) h)
      (hapart : ∀ z ∈ [x, y], ∀ k ∈ ns ++ [n], ¬ m.Reaches z (.object k))
      (hpasses : ∀ s rest args, Demands m x y s rest args →
        ∃ depth v s', args.int (reduceUpTo options depth) 0 s = .ok v s')
      (hnext : ∀ s rest args depth v s', Demands m x y s rest args →
        args.int (reduceUpTo options depth) 0 s = .ok v s' → Fails options e s'.heap y done) :
      Fails options e m h (done ++ [n])
  | branch {m : Heap} {x yes no h : Handle} {ns done : List ObjectId} {n : ObjectId} (v : Bool)
      (hcall : m.Call .ifThenElse [x, yes, no] (ns ++ [n]) h)
      (hapart : ∀ z ∈ [x, if v then yes else no], ∀ k ∈ ns ++ [n], ¬ m.Reaches z (.object k))
      (hpasses : ∀ s rest args, Demands m x (if v then yes else no) s rest args →
        ∃ depth s', args.bool (reduceUpTo options depth) 0 s = .ok v s')
      (hnext : ∀ s rest args depth s', Demands m x (if v then yes else no) s rest args →
        args.bool (reduceUpTo options depth) 0 s = .ok v s' →
          Fails options e s'.heap (if v then yes else no) done) : Fails options e m h (done ++ [n])

theorem Fails.breaks (h : Fails options e m y done) : Breaks options e m y done := by
  induction h with
  | hole hy => exact hy
  | function _ hkind hapart ih => exact ih.function hkind hapart
  | argument _ hcall hapart ih => exact ih.argument hcall hapart
  | operand hp hcall hapart hpasses _ ih =>
    refine BreaksAfter.operand (fun s rest args hdemands => ?_) hp hcall hapart
    obtain ⟨depth, v, s', hrun⟩ := hpasses s rest args hdemands
    exact ⟨depth, v, s', hrun, trivial, ih s rest args depth v s' hdemands hrun⟩
  | branch v hcall hapart hpasses _ ih =>
    refine BreaksAfter.branch (v := v) (fun s rest args hdemands => ?_) hcall hapart
    obtain ⟨depth, s', hrun⟩ := hpasses s rest args hdemands
    exact ⟨depth, v, s', hrun, rfl, ih s rest args depth s' hdemands hrun⟩

/-- Evaluating the whole, given enough layers, comes to an exception with exactly the error of what is
in the hole, and so does what every layer keeps. -/
theorem Fails.evaluates (h : Fails options e s.heap y done) (hup : s.heap.Upright rest)
    (hheld : y.holding ∈ rest) (hhonest : s.heap.Honest y) (hintact : s.heap.Intact) :
    ∃ depth r s', (∀ more, depth ≤ more → reduceUpTo options more y s = .ok r s') ∧
      s'.heap.error? r = some e ∧ ∀ n ∈ done, s'.heap.Memoizes e n := by
  obtain ⟨depth, r, s', hrun, hend⟩ := h.breaks hup hheld hhonest hintact (.refl ..)
  exact ⟨depth, r, s', fun more hmore => reduceUpTo_mono hrun hmore, hend⟩

end GraphReduction.Evaluator
