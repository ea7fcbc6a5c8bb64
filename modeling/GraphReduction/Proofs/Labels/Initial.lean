import Mathlib
import GraphReduction.Proofs.Labels.Ends

/-! The machine before anything has happened. Its heap is valid while nobody holds anything, and its
objects play the roles of declarations. -/
namespace GraphReduction

open Heap

namespace Machine

/-- Static closures without arguments are all there is, and what they hold is counted. -/
structure Fresh (m : Heap) : Prop where
  counted : m.Counted 0
  bare : ∀ o kind, m.kindOf? o = some kind → ∃ c arity, kind = .closure (.bare c arity)

theorem fresh_empty : Fresh {} where
  counted :=
    { exact := by rintro ((_ | _ | _) | _ | _) n ⟨⟩
      positive := by rintro (_ | _ | _) n ⟨⟩
      live := by rintro cell ⟨⟩
      allocated := by rintro o ⟨⟩ }
  bare := by rintro o kind ⟨⟩

theorem Fresh.newStatic {m : Heap} (h : Fresh m) {k : Combinator} (hk : k.holdings = 0) :
    Fresh ((m.newCombinator k).2.newStatic (.closure (.bare (m.newCombinator k).1 k.arity))).2 where
  counted := by
    have hcombinator : (m.newCombinator k).2.Counted
        (.strong (.combinator (m.newCombinator k).1) ::ₘ 0) :=
      Counted.grow (by simpa [hk] using h.counted) (grows_newCombinator m k)
    have hholds : (ObjectKind.closure (.bare (m.newCombinator k).1 k.arity)).holdings =
        {.strong (.combinator (m.newCombinator k).1)} := by
      rw [ObjectKind.holdings_closure, Closure.arguments_bare]
      rfl
    refine Counted.forget (Counted.grow (by rw [hholds]; simpa using hcombinator)
      (grows_newStatic (m.newCombinator k).2 (.closure (.bare (m.newCombinator k).1 k.arity)))) ?_
    simp [recorded, Heap.newStatic, addObject, object?, nextObject, Hold.strong?]
  bare o kind hkind := by
    simp only [Heap.newStatic, kindOf?, object?_addObject] at hkind
    split at hkind
    · simp only [Option.map_some, Option.some.injEq] at hkind
      exact ⟨_, _, hkind.symm⟩
    · exact h.bare o kind hkind

theorem Fresh.addPrimitive {s : Machine} (h : Fresh s.heap) (p : Primitive) :
    Fresh (s.addPrimitive p).heap := by
  refine h.newStatic (k := (p.combinator s.vars).1) ?_
  simp [Combinator.holdings, Primitive.combinator]

theorem fresh_initial : Fresh initial.heap := by
  have hfold : ∀ (ps : List Primitive) (s : Machine), Fresh s.heap →
      Fresh (ps.foldl Machine.addPrimitive s).heap := by
    intro ps
    induction ps with
    | nil => exact fun s h => h
    | cons p ps ih => exact fun s h => ih _ (h.addPrimitive p)
  exact hfold _ _ fresh_empty

theorem kindOf?_initial (p : Primitive) :
    initial.heap.kindOf? ⟨p.place⟩ = some (.closure (.bare ⟨p.place⟩ p.arity)) := by
  cases p <;> rfl

theorem combinatorOf?_initial (p : Primitive) :
    initial.heap.combinatorOf? ⟨p.place⟩ = some p.declared := by
  cases p <;> rfl

theorem valid_initial : initial.heap.Valid 0 where
  counted := fresh_initial.counted
  library p := ⟨isLive_of_kindOf? (kindOf?_initial p), by cases p <;> rfl⟩
  proper o c hkind := by
    obtain ⟨k, arity, heq⟩ := fresh_initial.bare o _ hkind
    cases heq
    exact Closure.proper_bare k arity

end Machine

variable {X : Type} {L : Labelling X}

namespace Roles

def library : Roles X where
  object o := Primitive.all[o.index]?.map .declaration
  thunk _ := none

theorem library_place (p : Primitive) :
    (library : Roles X).object ⟨p.place⟩ = some (.declaration p) := by
  simp [library, Primitive.all_getElem?_place]

theorem eq_place_of_library {o : ObjectId} {role : Role X} (h : library.object o = some role) :
    ∃ p : Primitive, o = ⟨p.place⟩ ∧ role = .declaration p := by
  obtain ⟨p, hp, rfl⟩ := Option.map_eq_some_iff.1 h
  refine ⟨p, ?_, rfl⟩
  obtain ⟨i⟩ := o
  have hplace : ∀ j < Primitive.all.length, ∀ q, Primitive.all[j]? = some q → j = q.place := by
    decide
  exact congrArg _ (hplace i (List.getElem?_eq_some_iff.1 hp).1 p hp)

end Roles

theorem Labelling.upholds_initial (L : Labelling X) :
    L.Upholds Machine.initial.heap Roles.library 0 where
  valid := Machine.valid_initial
  supports :=
    { allocated := fun o role hrole => by
        obtain ⟨p, rfl, -⟩ := Roles.eq_place_of_library hrole
        exact (isLive_of_kindOf? (Machine.kindOf?_initial p)).allocated
      allocatedThunk := by rintro t h ⟨⟩
      suspended := by rintro t h ⟨⟩
      object := fun o role kind hrole hkind => by
        obtain ⟨p, rfl, rfl⟩ := Roles.eq_place_of_library hrole
        obtain rfl := Option.some.inj ((Machine.kindOf?_initial p).symm.trans hkind)
        refine ⟨_, rfl, fun k hk => ?_⟩
        exact Option.some.inj (hk.symm.trans (Machine.combinatorOf?_initial p))
      thunk := by rintro t h state ⟨⟩
      library := Roles.library_place
      ground := fun o v hkind => by
        obtain ⟨c, arity, heq⟩ := Machine.fresh_initial.bare o _ hkind
        cases heq }

end GraphReduction
