import Mathlib
import GraphReduction.Reconstruct
import GraphReduction.Proofs.Types.Rename

/-! When types for the objects behind a handle fit together. An object has one type for all its uses,
while an exception and a declaration without arguments have a type of their own at every use. Typing
looks through applications and what they are reduced to, through self references, and into the
arguments of closures. What a payload owns and what a closure remembers are no part of it. -/
namespace GraphReduction

/-- What a handle leads to, as far as types are concerned. -/
inductive Occurrence where
  /-- An exception or nothing at all: every use has any type it likes. -/
  | anything
  /-- A closure without arguments: every use has an instance of the declared type. -/
  | declaration (type : Ty)
  /-- An object with the same type at every use. -/
  | object (o : ObjectId)

namespace Heap

def declared (m : Heap) (c : Closure) : Ty :=
  ((m.combinator? c.combinator).map (·.combinator.type)).getD .int

def occurrence (m : Heap) : Option Handle → Occurrence
  | none => .anything
  | some h =>
    if h.isException then .anything
    else
      match m.kind? h with
      | none => .anything
      | some (.closure c) => if c.bound = 0 then .declaration (m.declared c) else .object h.target
      | some _ => .object h.target

/-- The handles whose types the type of an object is made from. -/
def parts (m : Heap) : ObjectKind → List (Option Handle)
  | .value _ | .exception _ => []
  | .closure c => c.arguments.map m.slotHandle?
  | .application (.pending function argument) => [some function, some argument]
  | .application (.reduced result) => [some result]
  | .application (.knot k) => [m.knotHandle? k]

/-- The objects that the type of a handle depends on. -/
inductive Visible (m : Heap) (h? : Option Handle) : ObjectId → Prop
  | here {o} (hat : m.occurrence h? = .object o) : Visible m h? o
  | part {o o' kind part} (howner : Visible m h? o) (hkind : m.kind? (.plain o) = some kind)
      (hpart : part ∈ m.parts kind) (hat : m.occurrence part = .object o') : Visible m h? o'

end Heap

/-- Types for the variables of value tags and for objects. -/
structure Typing where
  tags : Assignment
  object : ObjectId → Ty

namespace Typing

def Allows (τ : Typing) (m : Heap) (h? : Option Handle) (t : Ty) : Prop :=
  match m.occurrence h? with
  | .anything => True
  | .declaration declared => t.IsInstanceOf declared
  | .object o => t = τ.object o

def Fits (τ : Typing) (m : Heap) : ObjectKind → Ty → Prop
  | .value v, t => t = v.type.subst τ.tags
  | .exception _, _ => True
  | .closure c, t =>
    ∃ arguments, List.Forall₂ (fun slot a => τ.Allows m (m.slotHandle? slot) a) c.arguments arguments ∧
      (Ty.arrowChain arguments t).IsInstanceOf (m.declared c)
  | .application (.pending function argument), t =>
    ∃ a, τ.Allows m (some function) (.arrow a t) ∧ τ.Allows m (some argument) a
  | .application (.reduced result), t => τ.Allows m (some result) t
  | .application (.knot k), t => τ.Allows m (m.knotHandle? k) t

/-- Every object that the type of the handle depends on has a type that fits what it holds. -/
def Consistent (τ : Typing) (m : Heap) (h? : Option Handle) : Prop :=
  ∀ o kind, m.Visible h? o → m.kind? (.plain o) = some kind → τ.Fits m kind (τ.object o)

end Typing

namespace Heap

variable {m : Heap} {h? : Option Handle}

theorem Visible.trans {o o' : ObjectId} {kind : ObjectKind} {part : Option Handle}
    (h : m.Visible h? o) (hkind : m.kind? (.plain o) = some kind) (hpart : part ∈ m.parts kind)
    (h' : m.Visible part o') : m.Visible h? o' := by
  induction h' with
  | here hat => exact .part h hkind hpart hat
  | part _ hkind' hpart' hat ih => exact .part ih hkind' hpart' hat

theorem occurrence_of_plain {h : Handle} (hplain : h.isException = false) :
    m.occurrence (some h) = m.occurrence (some (.plain h.target)) := by
  have hplain' : (Handle.plain h.target).isException = false := rfl
  simp only [occurrence, hplain, hplain', Bool.false_eq_true, if_false]
  rfl

theorem occurrence_of_exception {h : Handle} (hexception : h.isException = true) :
    m.occurrence (some h) = .anything := by
  simp [occurrence, hexception]

theorem occurrence_of_gone {h : Handle} (hgone : m.kind? h = none) :
    m.occurrence (some h) = .anything := by
  simp [occurrence, hgone]

theorem occurrence_of_bare {h : Handle} (hplain : h.isException = false) {c : Closure}
    (hkind : m.kind? h = some (.closure c)) (hbare : c.bound = 0) :
    m.occurrence (some h) = .declaration (m.declared c) := by
  simp [occurrence, hplain, hkind, hbare]

theorem occurrence_of_kind {h : Handle} (hplain : h.isException = false) {kind : ObjectKind}
    (hkind : m.kind? h = some kind) (hbound : ∀ c, kind = .closure c → c.bound ≠ 0) :
    m.occurrence (some h) = .object h.target := by
  cases kind with
  | closure c => simp [occurrence, hplain, hkind, hbound c rfl]
  | value v => simp [occurrence, hplain, hkind]
  | application a => simp [occurrence, hplain, hkind]
  | exception e => simp [occurrence, hplain, hkind]

theorem kind?_of_occurrence {o o' : ObjectId}
    (hat : m.occurrence (some (.plain o)) = .object o') : (m.kind? (.plain o)).isSome := by
  cases hkind : m.kind? (.plain o) with
  | none => rw [occurrence_of_gone hkind] at hat; cases hat
  | some kind => rfl

end Heap

namespace Typing

variable {τ : Typing} {m : Heap} {h? : Option Handle}

theorem allows_of_anything (hat : m.occurrence h? = .anything) (t : Ty) : τ.Allows m h? t := by
  simp [Allows, hat]

theorem allows_declaration {declared : Ty} (hat : m.occurrence h? = .declaration declared) {t : Ty} :
    τ.Allows m h? t ↔ t.IsInstanceOf declared := by
  simp [Allows, hat]

theorem allows_object {o : ObjectId} (hat : m.occurrence h? = .object o) {t : Ty} :
    τ.Allows m h? t ↔ t = τ.object o := by
  simp [Allows, hat]

theorem exists_allows (τ : Typing) (m : Heap) (h? : Option Handle) : ∃ t, τ.Allows m h? t := by
  cases hat : m.occurrence h? with
  | anything => exact ⟨.int, allows_of_anything hat _⟩
  | declaration declared => exact ⟨declared, (allows_declaration hat).2 (.refl _)⟩
  | object o => exact ⟨τ.object o, (allows_object hat).2 rfl⟩

theorem Consistent.part {o : ObjectId} {kind : ObjectKind} {part : Option Handle}
    (h : τ.Consistent m h?) (ho : m.Visible h? o) (hkind : m.kind? (.plain o) = some kind)
    (hpart : part ∈ m.parts kind) : τ.Consistent m part :=
  fun o' kind' ho' hkind' => h o' kind' (ho.trans hkind hpart ho') hkind'

end Typing

end GraphReduction
