import Mathlib
import GraphReduction.Reduce.Evaluator
import GraphReduction.Proofs.Labels.Labelling

/-! Trees that stand for what is in a heap. A tree has no sharing, no memo and no self reference: a
function that was tied to itself is a node of its own, which has itself as its last argument. Trees
are evaluated as handles are, layer by layer, with every argument evaluated anew at each demand. -/
namespace GraphReduction

namespace Body

variable {Capture Other : Type}

/-- The same body over other captures. -/
def map (f : Capture → Other) : Body Capture → Body Other
  | captured c => captured (f c)
  | apply a b => apply (a.map f) (b.map f)
  | bind a b => bind (a.map f) (b.map f)
  | pair a b => pair (a.map f) (b.map f)
  | seq a b => seq (a.map f) (b.map f)
  | recover a b => recover (a.map f) (b.map f)
  | compare how i n a b => compare how i n (a.map f) (b.map f)
  | cond i a b => cond i (a.map f) (b.map f)
  | field i e => field i (e.map f)
  | eval e => eval (e.map f)
  | clone e => clone (e.map f)
  | bindSelf e => bindSelf (e.map f)
  | typeOf e => typeOf (e.map f)
  | log text e => log text (e.map f)
  | lazy i => lazy i
  | force i => force i
  | value type i => value type i
  | length => length
  | isEmpty => isEmpty
  | name => name
  | int n => int n
  | bool b => bool b
  | str s => str s
  | primitive p => primitive p
  | raise error => raise error
  | panic payload => panic payload
  | arith op => arith op
  | test how => test how
  | fail i => fail i
  | tie => tie

theorem map_congr {f g : Capture → Other} (b : Body Capture) (h : ∀ c ∈ b.captures, f c = g c) :
    b.map f = b.map g := by
  induction b <;> simp_all [map, captures]

@[simp] theorem map_body (f : Capture → Other) (p : Primitive) : p.body.map f = p.body := by
  cases p <;> rfl

/-- A form whose handle leads to what it made or evaluated, and not to an argument as it was bound
or to a part that was put away unevaluated. -/
def IsExact : Body Capture → Prop
  | lazy _ | field .. => False
  | seq _ b => b.IsExact
  | log _ e => e.IsExact
  | recover a b | compare _ _ _ a b | cond _ a b => a.IsExact ∧ b.IsExact
  | _ => True

/-- Arguments are only forced, passed on unevaluated as parts of what is built, or returned. What is
taken apart or bound in place has been evaluated or built before, and no handle is copied or asked
for its type. -/
def IsStateless : Body Capture → Prop
  | apply a b | pair a b | seq a b | recover a b | compare _ _ _ a b | cond _ a b =>
    a.IsStateless ∧ b.IsStateless
  | bind a b => a.IsExact ∧ a.IsStateless ∧ b.IsStateless
  | field _ e => e.IsExact ∧ e.IsStateless
  | eval e | log _ e => e.IsStateless
  | clone _ | bindSelf _ | typeOf _ => False
  | lazy _ | force _ | value .. | length | isEmpty | name | int _ | bool _ | str _ | primitive _ |
    captured _ | raise _ | panic _ | arith _ | test _ | fail _ | tie => True

instance decidableIsExact : (b : Body Capture) → Decidable b.IsExact
  | lazy _ | field .. => .isFalse id
  | seq _ b | log _ b => decidableIsExact b
  | recover a b | compare _ _ _ a b | cond _ a b =>
    have := decidableIsExact a
    have := decidableIsExact b
    inferInstanceAs (Decidable (a.IsExact ∧ b.IsExact))
  | force _ | value .. | length | isEmpty | name | int _ | bool _ | str _ | primitive _ |
    captured _ | apply .. | bind .. | pair .. | eval _ | clone _ | bindSelf _ | typeOf _ | raise _ |
    panic _ | arith _ | test _ | fail _ | tie => .isTrue trivial

instance decidableIsStateless : (b : Body Capture) → Decidable b.IsStateless
  | apply a b | pair a b | seq a b | recover a b | compare _ _ _ a b | cond _ a b =>
    have := decidableIsStateless a
    have := decidableIsStateless b
    inferInstanceAs (Decidable (a.IsStateless ∧ b.IsStateless))
  | bind a b =>
    have := decidableIsStateless a
    have := decidableIsStateless b
    inferInstanceAs (Decidable (a.IsExact ∧ a.IsStateless ∧ b.IsStateless))
  | field _ e =>
    have := decidableIsStateless e
    inferInstanceAs (Decidable (e.IsExact ∧ e.IsStateless))
  | eval e | log _ e => decidableIsStateless e
  | clone _ | bindSelf _ | typeOf _ => .isFalse id
  | lazy _ | force _ | value .. | length | isEmpty | name | int _ | bool _ | str _ | primitive _ |
    captured _ | raise _ | panic _ | arith _ | test _ | fail _ | tie => .isTrue trivial

@[simp] theorem isExact_map (f : Capture → Other) (b : Body Capture) :
    (b.map f).IsExact ↔ b.IsExact := by
  induction b <;> simp_all [map, IsExact]

@[simp] theorem isStateless_map (f : Capture → Other) (b : Body Capture) :
    (b.map f).IsStateless ↔ b.IsStateless := by
  induction b <;> simp_all [map, IsStateless]

end Body

theorem Primitive.isStateless_body {Capture : Type} (p : Primitive) :
    (p.body : Body Capture).IsStateless := by
  cases p <;> simp [Primitive.body, Body.IsStateless]

/-- A combinator, its captures read as something else. -/
structure Code (Capture : Type) where
  place : CombinatorId
  name : String
  arity : Nat
  body : Body Capture

inductive Tree where
  | value (v : Boxed)
  | pair (first second : Tree)
  | failed (e : EvalError)
  | function (code : Code Tree)
  | bound (function argument : Tree)
  /-- The function with itself as its next argument. -/
  | tied (function : Tree)
  | apply (function argument : Tree)

instance : Inhabited Tree := ⟨.failed .blackHole⟩

/-- The combinator of a primitive, which has the place of the primitive. -/
def Primitive.code (p : Primitive) : Code Tree := ⟨⟨p.place⟩, p.name, p.arity, p.body⟩

namespace Tree

/-- The combinator at the head of a function. -/
def code? : Tree → Option (Code Tree)
  | function c => some c
  | bound f _ | tied f => f.code?
  | _ => none

def args : Tree → List Tree
  | bound f x => f.args ++ [x]
  | tied f => f.args ++ [tied f]
  | _ => []

def missing (t : Tree) : Nat := (t.code?.map fun c => c.arity - t.args.length).getD 0

def IsFailed (t : Tree) : Prop := ∃ e, t = failed e

def IsApply (t : Tree) : Prop := ∃ f x, t = apply f x

/-- There is nothing left to evaluate. -/
def IsNormal (t : Tree) : Prop := ¬ t.IsApply ∧ (t.code?.isSome → 0 < t.missing)

def describe : Tree → String
  | value v => v.type.text
  | pair _ _ => Ty.pair.text
  | failed e => "exception: " ++ e.message
  | apply _ _ => "unevaluated application"
  | t => (t.code?.map fun c => "closure `" ++ c.name ++ "` (" ++ t.missing.repr ++ " of " ++
      c.arity.repr ++ " arguments missing)").getD ""

/-! Evaluation -/

abbrev Reducer := Tree → Except Signal Tree

@[simp] theorem ok_bind {α β : Type} (a : α) (next : α → Except Signal β) :
    (Except.ok a >>= next) = next a := rfl

@[simp] theorem error_bind {α β : Type} (signal : Signal) (next : α → Except Signal β) :
    (Except.error signal >>= next) = .error signal := rfl

def raise {α : Type} (e : EvalError) : Except Signal α := .error (.raised e)

def intoResult : Tree → Except Signal Tree
  | failed e => raise e
  | t => .ok t

def bindTo (f x : Tree) : Except Signal Tree :=
  match f.code? with
  | none => raise (.badApply f.describe)
  | some c => if f.missing = 0 then raise (.tooManyArguments c.name) else .ok (bound f x)

/-- Tie a function to itself. There is no tree for the result of a function that misses one argument
and has it for that argument. -/
def tie (f : Tree) : Except Signal Tree :=
  match f.missing with
  | 0 => raise (.badFix f.describe)
  | 1 => .error .exhausted
  | _ => .ok (tied f)

def field (t : Tree) (i : Nat) : Except Signal Tree :=
  match t, i with
  | pair a _, 0 => .ok a
  | pair _ b, 1 => .ok b
  | _, _ => raise (.foreign ("no field " ++ i.repr))

structure Given where
  combinator : String
  args : List Tree

namespace Given

def lazy (given : Given) (i : Nat) : Except Signal Tree :=
  match given.args[i]? with
  | some t => .ok t
  | none => raise (.foreign ("argument " ++ i.repr ++ " of `" ++ given.combinator ++
      "` is not bound"))

def force (reduce : Reducer) (given : Given) (i : Nat) : Except Signal Tree := do
  let t ← given.lazy i
  intoResult (← reduce t)

/-- The payload that is expected, or the error that its absence is. -/
def take {α : Type} (expected : TypeName) (take? : Payload → Option α) (t : Tree) :
    Except Signal α :=
  match t with
  | value v =>
    match take? v.payload with
    | some a => .ok a
    | none => raise (.typeMismatch expected.text t.describe)
  | t => raise (.typeMismatch expected.text t.describe)

def int (reduce : Reducer) (given : Given) (i : Nat) : Except Signal Int64 := do
  take .int Payload.int? (← given.force reduce i)

def bool (reduce : Reducer) (given : Given) (i : Nat) : Except Signal Bool := do
  take .bool Payload.bool? (← given.force reduce i)

def str (reduce : Reducer) (given : Given) (i : Nat) : Except Signal String := do
  take .str Payload.str? (← given.force reduce i)

def takePair : Tree → Except Signal Tree
  | pair a b => .ok (pair a b)
  | t => raise (.typeMismatch TypeName.pair.text t.describe)

end Given

/-- The number, or the error that it has too many bits. -/
def arith (op : Arith) (a b : Int64) : Except Signal Tree :=
  match op.result? a b with
  | some n => .ok (value ⟨.int, .int n⟩)
  | none => raise (op.overflow a b)

/-- An error that is raised gives way to another outcome. -/
def recovered (outcome other : Except Signal Tree) : Except Signal Tree :=
  match outcome with
  | .error (.raised _) => other
  | _ => outcome

/-- Run a body. Forms that are not stateless are given no meaning. -/
def run (reduce : Reducer) (given : Given) : Body Tree → Except Signal Tree
  | .lazy i => given.lazy i
  | .force i => given.force reduce i
  | .value .int i => do return value ⟨.int, .int (← given.int reduce i)⟩
  | .value .bool i => do return value ⟨.bool, .bool (← given.bool reduce i)⟩
  | .value .str i => do return value ⟨.str, .str (← given.str reduce i)⟩
  | .value .pair i => do Given.takePair (← given.force reduce i)
  | .length => .ok (value ⟨.int, .int (Int64.ofNat given.args.length)⟩)
  | .isEmpty => .ok (value ⟨.bool, .bool (given.args.length == 0)⟩)
  | .name => .ok (value ⟨.str, .str given.combinator⟩)
  | .int n => .ok (value ⟨.int, .int n⟩)
  | .bool b => .ok (value ⟨.bool, .bool b⟩)
  | .str s => .ok (value ⟨.str, .str s⟩)
  | .primitive p => .ok (function p.code)
  | .captured t => .ok t
  | .apply f x => do
    let f ← run reduce given f
    let x ← run reduce given x
    .ok (apply f x)
  | .bind f x => do
    let f ← run reduce given f
    let x ← run reduce given x
    f.bindTo x
  | .pair a b => do
    let a ← run reduce given a
    let b ← run reduce given b
    .ok (pair a b)
  | .field i e => do (← run reduce given e).field i
  | .eval e => do
    let t ← run reduce given e
    intoResult (← reduce t)
  | .seq a b => do
    let _ ← run reduce given a
    run reduce given b
  | .recover a b => recovered (run reduce given a) (run reduce given b)
  | .log _ e => run reduce given e
  | .compare how i n yes no => do
    if how.holds (← given.int reduce i) n then run reduce given yes else run reduce given no
  | .cond i yes no => do
    if ← given.bool reduce i then run reduce given yes else run reduce given no
  | .raise e => raise e
  | .panic payload => .error (.panicked payload)
  | .arith op => do
    let a ← given.int reduce 0
    let b ← given.int reduce 1
    arith op a b
  | .test how => do
    let a ← given.int reduce 0
    let b ← given.int reduce 1
    .ok (value ⟨.bool, .bool (how.holds a b)⟩)
  | .fail i => do raise (.foreign (← given.str reduce i))
  | .tie => do tie (← given.force reduce 0)
  | .clone _ | .bindSelf _ | .typeOf _ => .error .exhausted

/-- An error that is raised is a result here. -/
def refused : Except Signal Tree → Except Signal Tree
  | .error (.raised e) => .ok (failed e)
  | outcome => outcome

/-- Errors end where the body ends, and panics do if they are caught. -/
def caught (options : Options) : Except Signal Tree → Except Signal Tree
  | .error (.panicked payload) =>
    if options.catchPanics then .ok (failed (.foreign payload.message))
    else .error (.panicked payload)
  | outcome => refused outcome

def result (options : Options) (reduce : Reducer) (t : Tree) : Except Signal Tree :=
  match t.code? with
  | none => .ok t
  | some c =>
    if c.body.IsStateless then do reduce (← caught options (run reduce ⟨c.name, t.args⟩ c.body))
    else .error .exhausted

/-- A function that has been bound to its last argument has a result. -/
def saturate (options : Options) (reduce : Reducer) (t : Tree) : Except Signal Tree :=
  if t.code?.isSome ∧ t.missing = 0 then result options reduce t else .ok t

def applyReduced (options : Options) (reduce : Reducer) (f x : Tree) : Except Signal Tree :=
  match f with
  | failed e => .ok (failed e)
  | g => do saturate options reduce (← refused (g.bindTo x))

def application (options : Options) (reduce : Reducer) (f x : Tree) : Except Signal Tree := do
  applyReduced options reduce (← reduce f) x

def reduceOnce (options : Options) (reduce : Reducer) : Tree → Except Signal Tree
  | apply f x => application options reduce f x
  | t => saturate options reduce t

def reduceUpTo (options : Options) : Nat → Tree → Except Signal Tree
  | 0, _ => .error .exhausted
  | depth + 1, t => reduceOnce options (reduceUpTo options depth) t

/-! What is normal is its own result -/

variable {options : Options} {reduce : Reducer} {t f x : Tree}

theorem not_isApply_of_code? {c : Code Tree} (h : t.code? = some c) : ¬ t.IsApply := by
  rintro ⟨f, x, rfl⟩
  cases h

theorem reduceOnce_of_not_isApply (h : ¬ t.IsApply) :
    reduceOnce options reduce t = saturate options reduce t := by
  cases t with
  | apply f x => exact (h ⟨f, x, rfl⟩).elim
  | value | pair | failed | function | bound | tied => rfl

theorem reduceOnce_of_isNormal (h : t.IsNormal) : reduceOnce options reduce t = .ok t := by
  rw [reduceOnce_of_not_isApply h.1, saturate, if_neg]
  rintro ⟨hcode, hmissing⟩
  have := h.2 hcode
  omega

theorem reduceUpTo_of_isNormal (h : t.IsNormal) (n : Nat) :
    reduceUpTo options (n + 1) t = .ok t :=
  reduceOnce_of_isNormal h

theorem missing_of_code? {c : Code Tree} (h : t.code? = some c) :
    t.missing = c.arity - t.args.length := by
  simp [missing, h]

theorem describe_of_code? {c : Code Tree} (h : t.code? = some c) :
    t.describe = "closure `" ++ c.name ++ "` (" ++ t.missing.repr ++ " of " ++ c.arity.repr ++
      " arguments missing)" := by
  cases t with
  | value | pair | failed | apply => cases h
  | function | bound | tied => simp [describe, h]

theorem missing_bound (hf : f.code?.isSome) : (bound f x).missing = f.missing - 1 := by
  obtain ⟨c, hc⟩ := Option.isSome_iff_exists.1 hf
  have hc' : (bound f x).code? = some c := hc
  rw [missing_of_code? hc, missing_of_code? hc', args, List.length_append, List.length_singleton]
  omega

theorem missing_tied (hf : f.code?.isSome) : (tied f).missing = f.missing - 1 := by
  obtain ⟨c, hc⟩ := Option.isSome_iff_exists.1 hf
  have hc' : (tied f).code? = some c := hc
  rw [missing_of_code? hc, missing_of_code? hc', args, List.length_append, List.length_singleton]
  omega

theorem isNormal_function (hcode : t.code?.isSome) (hmissing : 0 < t.missing) : t.IsNormal := by
  obtain ⟨c, hc⟩ := Option.isSome_iff_exists.1 hcode
  exact ⟨not_isApply_of_code? hc, fun _ => hmissing⟩

theorem applyReduced_of_not_failed (h : ∀ e, f ≠ failed e) :
    applyReduced options reduce f x =
      refused (f.bindTo x) >>= fun g => saturate options reduce g := by
  cases f with
  | failed e => exact (h e rfl).elim
  | value | pair | function | bound | tied | apply => rfl

theorem intoResult_of_code? (h : t.code?.isSome) : intoResult t = .ok t := by
  cases t with
  | failed e => cases h
  | value | pair | function | bound | tied | apply => rfl

theorem isNormal_saturate {v : Tree} (hreduce : ∀ t v, reduce t = .ok v → v.IsNormal)
    (ht : ¬ t.IsApply) (h : saturate options reduce t = .ok v) : v.IsNormal := by
  rw [saturate] at h
  split at h
  · next hsaturated =>
    obtain ⟨c, hc⟩ := Option.isSome_iff_exists.1 hsaturated.1
    simp only [result, hc] at h
    split at h
    · cases hbody : caught options (run reduce ⟨c.name, t.args⟩ c.body) with
      | error signal =>
        rw [hbody] at h
        cases h
      | ok raw =>
        rw [hbody] at h
        exact hreduce raw v h
    · cases h
  · next hopen =>
    cases h
    exact ⟨ht, fun hcode => Nat.pos_of_ne_zero fun hmissing => hopen ⟨hcode, hmissing⟩⟩

theorem isNormal_failed (e : EvalError) : (failed e).IsNormal :=
  ⟨by simp [IsApply], fun hcode => by cases hcode⟩

theorem not_isApply_refused {g : Tree} (h : refused (f.bindTo x) = .ok g) : ¬ g.IsApply := by
  rw [bindTo] at h
  split at h
  · cases h
    simp [IsApply]
  · split at h <;> cases h <;> simp [IsApply]

theorem isNormal_reduceUpTo {v : Tree} {n : Nat} (h : reduceUpTo options n t = .ok v) :
    v.IsNormal := by
  induction n generalizing t v with
  | zero => cases h
  | succ n ih =>
    have hreduce : ∀ t v, reduceUpTo options n t = .ok v → v.IsNormal := fun _ _ => ih
    by_cases ht : t.IsApply
    · obtain ⟨f, x, rfl⟩ := ht
      simp only [reduceUpTo, reduceOnce, application] at h
      cases hf : reduceUpTo options n f with
      | error signal =>
        rw [hf] at h
        cases h
      | ok g =>
        rw [hf, ok_bind] at h
        by_cases hfailed : ∃ e, g = failed e
        · obtain ⟨e, rfl⟩ := hfailed
          cases h
          exact isNormal_failed e
        · rw [applyReduced_of_not_failed fun e heq => hfailed ⟨e, heq⟩] at h
          cases hbind : refused (g.bindTo x) with
          | ok bound =>
            rw [hbind] at h
            exact isNormal_saturate hreduce (not_isApply_refused hbind) h
          | error signal =>
            rw [hbind] at h
            cases h
    · rw [reduceUpTo, reduceOnce_of_not_isApply ht] at h
      exact isNormal_saturate hreduce ht h

end Tree

/-! What a computation comes to when it is given more and more layers -/

/-- It gives up as long as there are too few layers, and then ends in one way. -/
def Settles {α : Type} (layers : Nat → Except Signal α) (o : Except Signal α) : Prop :=
  ∃ N, (∀ n < N, layers n = .error .exhausted) ∧ ∀ n ≥ N, layers n = o

namespace Settles

variable {α β : Type} {layers : Nat → Except Signal α} {o o' : Except Signal α}

theorem always (o : Except Signal α) : Settles (fun _ => o) o :=
  ⟨0, fun _ hn => absurd hn (Nat.not_lt_zero _), fun _ _ => rfl⟩

theorem congr {layers' : Nat → Except Signal α} (h : Settles layers o)
    (hsame : ∀ n, layers n = layers' n) : Settles layers' o := by
  obtain rfl : layers = layers' := funext hsame
  exact h

theorem unique (h : Settles layers o) (h' : Settles layers o') : o = o' := by
  obtain ⟨N, -, hlate⟩ := h
  obtain ⟨N', -, hlate'⟩ := h'
  rw [← hlate (max N N') (le_max_left ..), hlate' (max N N') (le_max_right ..)]

theorem eq_or (h : Settles layers o) (n : Nat) : layers n = .error .exhausted ∨ layers n = o := by
  obtain ⟨N, hearly, hlate⟩ := h
  rcases lt_or_ge n N with hn | hn
  · exact .inl (hearly n hn)
  · exact .inr (hlate n hn)

theorem succ_iff (hzero : layers 0 = .error .exhausted) :
    Settles (fun n => layers (n + 1)) o ↔ Settles layers o := by
  constructor
  · rintro ⟨N, hearly, hlate⟩
    refine ⟨N + 1, fun n hn => ?_, fun n hn => ?_⟩
    · cases n with
      | zero => exact hzero
      | succ n => exact hearly n (by omega)
    · obtain ⟨k, rfl⟩ : ∃ k, n = k + 1 := ⟨n - 1, by omega⟩
      exact hlate k (by omega)
  · rintro ⟨N, hearly, hlate⟩
    exact ⟨N - 1, fun n hn => hearly (n + 1) (by omega), fun n hn => hlate (n + 1) (by omega)⟩

theorem after {f : Except Signal α → Nat → Except Signal β} {o' : Except Signal β}
    (h : Settles layers o) (hgiven : ∀ n, f (.error .exhausted) n = .error .exhausted)
    (hnext : Settles (f o) o') : Settles (fun n => f (layers n) n) o' := by
  obtain ⟨N, hearly, hlate⟩ := h
  obtain ⟨N', hearly', hlate'⟩ := hnext
  refine ⟨max N N', fun n hn => ?_, fun n hn => ?_⟩
  · dsimp only
    rcases lt_or_ge n N with hn' | hn'
    · rw [hearly n hn', hgiven]
    · rw [hlate n hn']
      exact hearly' n (by omega)
  · dsimp only
    rw [hlate n (le_of_max_le_left hn)]
    exact hlate' n (le_of_max_le_right hn)

theorem bind_error {next : α → Nat → Except Signal β} {signal : Signal}
    (h : Settles layers (.error signal)) :
    Settles (fun n => layers n >>= fun a => next a n) (.error signal) :=
  h.after (f := fun o n => o >>= fun a => next a n) (fun _ => rfl) (always _)

end Settles

/-- The tree comes to `v`. -/
def Tree.Yields (options : Options) (t v : Tree) : Prop :=
  Settles (fun n => reduceUpTo options n t) (.ok v)

namespace Tree

variable {options : Options} {t v w : Tree}

theorem Yields.isNormal (h : t.Yields options v) : v.IsNormal := by
  obtain ⟨N, -, hlate⟩ := h
  exact isNormal_reduceUpTo (hlate N le_rfl)

theorem Yields.of_isNormal (h : t.IsNormal) : t.Yields options t :=
  (Settles.succ_iff rfl).1 (by simpa only [reduceUpTo_of_isNormal h] using .always _)

theorem Yields.unique (h : t.Yields options v) (h' : t.Yields options w) : v = w := by
  have heq := Settles.unique h h'
  cases heq
  rfl

end Tree

end GraphReduction
