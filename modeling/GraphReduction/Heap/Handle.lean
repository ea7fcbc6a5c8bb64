/-!
References into the heap. Cells are known by their place, and a place is never used twice, so a
reference whose cell is gone can be told from any later one. A handle is one strong reference to an
object with a tag that says how the reference came about; tags belong to references, not to objects.
-/
namespace GraphReduction

structure ObjectId where
  index : Nat
deriving DecidableEq

structure ThunkId where
  index : Nat
deriving DecidableEq

structure CombinatorId where
  index : Nat
deriving DecidableEq

inductive Tag where
  | plain
  /-- A memoized reduction result. -/
  | cached
  /-- An error on its way out of an evaluation. -/
  | exception
deriving DecidableEq

structure Handle where
  tag : Tag
  target : ObjectId
deriving DecidableEq

namespace Handle

def plain (o : ObjectId) : Handle := ⟨.plain, o⟩

def untagged (h : Handle) : Handle := { h with tag := .plain }

/-- Mark as a memoized result. An exception stays one. -/
def asCached (h : Handle) : Handle :=
  match h.tag with
  | .exception => h
  | _ => { h with tag := .cached }

def isException (h : Handle) : Bool := h.tag == .exception

def isCached (h : Handle) : Bool := h.tag == .cached

@[simp] theorem target_untagged (h : Handle) : h.untagged.target = h.target := rfl

@[simp] theorem target_asCached (h : Handle) : h.asCached.target = h.target := by
  unfold asCached; split <;> rfl

end Handle

end GraphReduction
