import Mathlib
import GraphReduction.Error

/-! Rendered types can be read back. A name ends where the first delimiter stands, a variable is the
only text that reaches an opening bracket, and an arrow is the only one that starts with a
parenthesis. So a type is determined by any text that starts with it, and whoever compares two
rendered types compares the types, as long as no name contains a delimiter itself. -/
namespace GraphReduction

/-- The characters that end a name in a rendered type. -/
def delimiters : List Char := ['(', ')', '[', ' ']

/-- The name can be told from what follows it. -/
def TypeName.Plain (name : TypeName) : Prop := ∀ c ∈ name.text.toList, c ∉ delimiters

namespace Ty

def names : Ty → List TypeName
  | named name => [name]
  | arrow parameter result => parameter.names ++ result.names
  | var _ => []

def Plain (t : Ty) : Prop := ∀ name ∈ t.names, name.Plain

@[simp] theorem plain_named (name : TypeName) : (named name).Plain ↔ name.Plain := by
  simp [Plain, names]

@[simp] theorem plain_var (id : VarId) : (var id).Plain := by simp [Plain, names]

@[simp] theorem plain_arrow (parameter result : Ty) :
    (arrow parameter result).Plain ↔ parameter.Plain ∧ result.Plain := by
  simp [Plain, names, or_imp, forall_and]

def chars (t : Ty) : List Char := t.text.toList

@[simp] theorem chars_named (name : TypeName) : (named name).chars = name.text.toList := rfl

@[simp] theorem chars_arrow (parameter result : Ty) :
    (arrow parameter result).chars =
      '(' :: (parameter.chars ++ (' ' :: '-' :: '>' :: ' ' :: (result.chars ++ [')']))) := by
  simp [chars, text]

@[simp] theorem chars_var (id : VarId) :
    (var id).chars =
      'V' :: 'a' :: 'r' :: '[' :: ((Nat.toDigits 10 id.raw.toNat) ++ [']']) := by
  simp [chars, text, VarId.text, Nat.toList_repr]

theorem text_eq_iff_chars {t u : Ty} : t.text = u.text ↔ t.chars = u.chars :=
  String.toList_inj.symm

end Ty

/-- What follows a rendered type inside another one, if anything does. -/
def Delimited (rest : List Char) : Prop := ∀ c ∈ rest.head?, c = ' ' ∨ c = ')'

@[simp] theorem delimited_nil : Delimited [] := by simp [Delimited]

@[simp] theorem delimited_cons (c : Char) (rest : List Char) :
    Delimited (c :: rest) ↔ c = ' ' ∨ c = ')' := by simp [Delimited]

theorem append_inj_of_head {p : Char → Bool} {text text' rest rest' : List Char}
    (htext : ∀ c ∈ text, p c) (htext' : ∀ c ∈ text', p c) (hrest : ∀ c ∈ rest.head?, p c = false)
    (hrest' : ∀ c ∈ rest'.head?, p c = false) (hsame : text ++ rest = text' ++ rest') :
    text = text' ∧ rest = rest' := by
  have hstops : ∀ {rest : List Char}, (∀ c ∈ rest.head?, p c = false) → rest.takeWhile p = [] := by
    intro rest h
    cases rest with
    | nil => rfl
    | cons c cs => simp [h c (by simp)]
  have htaken := congrArg (List.takeWhile p) hsame
  rw [List.takeWhile_append_of_pos htext, List.takeWhile_append_of_pos htext', hstops hrest,
    hstops hrest', List.append_nil, List.append_nil] at htaken
  subst htaken
  exact ⟨rfl, List.append_cancel_left hsame⟩

namespace TypeName

/-- Whether a character can stand in a name. -/
def isPlainChar (c : Char) : Bool := c ∉ delimiters

theorem Plain.chars {name : TypeName} (h : name.Plain) : ∀ c ∈ name.text.toList, isPlainChar c :=
  fun c hc => by simpa [isPlainChar] using h c hc

theorem plain_builtin : ∀ name ∈ [TypeName.int, .bool, .str, .pair, .tracked], name.Plain := by
  simp [Plain, delimiters, int, bool, str, pair, tracked]

theorem toList_ne_nil (name : TypeName) : name.text.toList ≠ [] :=
  fun h => name.ne_empty (String.toList_inj.1 (by simpa using h))

theorem isPlainChar_of_delimited {rest : List Char} (h : Delimited rest) :
    ∀ c ∈ rest.head?, isPlainChar c = false := by
  intro c hc
  rcases h c hc with rfl | rfl <;> decide

end TypeName

namespace Ty

theorem named_ne_var {name : TypeName} (hname : name.Plain) {id : VarId} {rest rest' : List Char}
    (hrest : Delimited rest) : (named name).chars ++ rest ≠ (var id).chars ++ rest' := by
  intro hsame
  have hsplit : name.text.toList ++ rest =
      ['V', 'a', 'r'] ++ '[' :: (Nat.toDigits 10 id.raw.toNat ++ [']'] ++ rest') := by
    simpa using hsame
  obtain ⟨-, hbracket⟩ := append_inj_of_head hname.chars (by simp [TypeName.isPlainChar, delimiters])
    (TypeName.isPlainChar_of_delimited hrest) (by simp [TypeName.isPlainChar, delimiters]) hsplit
  subst hbracket
  simp at hrest

theorem named_ne_arrow {name : TypeName} (hname : name.Plain) {parameter result : Ty}
    {rest rest' : List Char} (hrest : Delimited rest) :
    (named name).chars ++ rest ≠ (arrow parameter result).chars ++ rest' := by
  intro hsame
  rw [chars_arrow, List.cons_append] at hsame
  have hsplit : name.text.toList ++ rest = [] ++ '(' :: _ := hsame
  obtain ⟨hempty, -⟩ := append_inj_of_head hname.chars (by simp)
    (TypeName.isPlainChar_of_delimited hrest) (by simp [TypeName.isPlainChar, delimiters]) hsplit
  exact name.toList_ne_nil hempty

theorem var_append_inj {v w : VarId} {rest rest' : List Char}
    (hsame : (var v).chars ++ rest = (var w).chars ++ rest') : v = w ∧ rest = rest' := by
  simp only [chars_var, List.cons_append, List.append_assoc, List.cons.injEq, true_and] at hsame
  have hdigits : ∀ v : VarId, ∀ c ∈ Nat.toDigits 10 v.raw.toNat, c.isDigit :=
    fun v c hc => Nat.isDigit_of_mem_toDigits (by decide) (by decide) hc
  obtain ⟨hnumber, hrest⟩ := append_inj_of_head (hdigits v) (hdigits w) (by simp) (by simp) hsame
  constructor
  · have hrepr : v.raw.toNat.repr = w.raw.toNat.repr := by
      rw [Nat.repr_eq_ofList_toDigits, Nat.repr_eq_ofList_toDigits, hnumber]
    cases v; cases w
    simpa using UInt32.toNat_inj.1 (Nat.repr_inj.1 hrepr)
  · simpa using hrest

theorem chars_append_inj {t u : Ty} (ht : t.Plain) (hu : u.Plain) {rest rest' : List Char}
    (hrest : Delimited rest) (hrest' : Delimited rest')
    (hsame : t.chars ++ rest = u.chars ++ rest') : t = u ∧ rest = rest' := by
  induction t generalizing u rest rest' with
  | named name =>
    rw [plain_named] at ht
    cases u with
    | named name' =>
      obtain ⟨htext, hrest⟩ := append_inj_of_head ht.chars (TypeName.Plain.chars (by simpa using hu))
        (TypeName.isPlainChar_of_delimited hrest) (TypeName.isPlainChar_of_delimited hrest') hsame
      exact ⟨congrArg _ (TypeName.text_injective (String.toList_inj.1 htext)), hrest⟩
    | arrow => exact absurd hsame (named_ne_arrow ht hrest)
    | var => exact absurd hsame (named_ne_var ht hrest)
  | arrow parameter result ihp ihr =>
    rw [plain_arrow] at ht
    cases u with
    | named => exact absurd hsame.symm (named_ne_arrow (by simpa using hu) hrest')
    | arrow parameter' result' =>
      rw [plain_arrow] at hu
      simp only [chars_arrow, List.cons_append, List.append_assoc, List.cons.injEq, true_and] at hsame
      -- Both parameters end at the space before their arrow, both results at the parenthesis.
      obtain ⟨rfl, hresults⟩ := ihp ht.1 hu.1 (by simp) (by simp) hsame
      simp only [List.cons.injEq, true_and] at hresults
      obtain ⟨rfl, hends⟩ := ihr ht.2 hu.2 (by simp) (by simp) hresults
      exact ⟨rfl, by simpa using hends⟩
    | var => simp at hsame
  | var v =>
    cases u with
    | named => exact absurd hsame.symm (named_ne_var (by simpa using hu) hrest')
    | arrow => simp at hsame
    | var w =>
      obtain ⟨rfl, hrest⟩ := var_append_inj hsame
      exact ⟨rfl, hrest⟩

theorem text_inj {t u : Ty} (ht : t.Plain) (hu : u.Plain) : t.text = u.text ↔ t = u := by
  refine ⟨fun h => ?_, congrArg text⟩
  have hsame : t.chars ++ [] = u.chars ++ [] := by simpa using text_eq_iff_chars.1 h
  exact (chars_append_inj ht hu (by simp) (by simp) hsame).1

end Ty

namespace UnifyError

def types : UnifyError → List Ty
  | typeMismatch expected actual => [expected, actual]
  | circularConstraint v within => [.var v, within]

def Plain (error : UnifyError) : Prop := ∀ t ∈ error.types, t.Plain

end UnifyError

theorem EvalError.ofUnify_inj {error error' : UnifyError} (h : error.Plain) (h' : error'.Plain) :
    EvalError.ofUnify error = EvalError.ofUnify error' ↔ error = error' := by
  cases error with
  | typeMismatch expected actual =>
    cases error' with
    | typeMismatch expected' actual' =>
      simp only [UnifyError.Plain, UnifyError.types, List.forall_mem_cons] at h h'
      simp [EvalError.ofUnify, Ty.text_inj h.1 h'.1, Ty.text_inj h.2.1 h'.2.1]
    | circularConstraint => simp [EvalError.ofUnify]
  | circularConstraint v within =>
    cases error' with
    | typeMismatch => simp [EvalError.ofUnify]
    | circularConstraint v' within' =>
      simp only [UnifyError.Plain, UnifyError.types, List.forall_mem_cons] at h h'
      have hvar : v.text = v'.text ↔ v = v' := by
        simpa [Ty.text] using Ty.text_inj h.1 h'.1
      simp [EvalError.ofUnify, hvar, Ty.text_inj h.2.1 h'.2.1]

/-- Comparing rendered types compares the types, and so does comparing the errors of an evaluation
that hold rendered types. -/
theorem text_unambiguous :
    (∀ t u : Ty, t.Plain → u.Plain → (t.text = u.text ↔ t = u)) ∧
      ∀ error error' : UnifyError, error.Plain → error'.Plain →
        (EvalError.ofUnify error = EvalError.ofUnify error' ↔ error = error') :=
  ⟨fun _ _ => Ty.text_inj, fun _ _ => EvalError.ofUnify_inj⟩

/-- Where the parenthesis stands decides which argument is the function. -/
theorem text_unambiguous_nested :
    (Ty.arrow (.arrow .int (.var ⟨12⟩)) .bool).text ≠ (Ty.arrow .int (.arrow (.var ⟨12⟩) .bool)).text ∧
      EvalError.ofUnify (.circularConstraint ⟨1⟩ (.arrow (.var ⟨1⟩) .int)) ≠
        EvalError.ofUnify (.circularConstraint ⟨11⟩ (.arrow (.var ⟨1⟩) .int)) := by
  have hint : Ty.int.Plain := (Ty.plain_named _).2 (TypeName.plain_builtin _ (by simp))
  have hbool : Ty.bool.Plain := (Ty.plain_named _).2 (TypeName.plain_builtin _ (by simp))
  constructor
  · intro hsame
    have htypes := (text_unambiguous.1 _ _ (by simp [hint, hbool]) (by simp [hint, hbool])).1 hsame
    exact absurd htypes (by decide)
  · intro hsame
    have herrors := (text_unambiguous.2 _ _ (by simp [UnifyError.Plain, UnifyError.types, hint])
      (by simp [UnifyError.Plain, UnifyError.types, hint])).1 hsame
    exact absurd herrors (by decide)

/-- A name that contains a bracket can look like a variable. -/
example : (Ty.named ⟨"Var[1]", by decide, by decide⟩).text = (Ty.var ⟨1⟩).text := by decide

end GraphReduction
