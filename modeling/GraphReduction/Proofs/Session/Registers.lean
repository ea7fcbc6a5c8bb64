import Mathlib
import GraphReduction.Proofs.Session.Balance

/-! The registers of a session hold references, one for each register. Taking an operand, borrowing
it and keeping a result move references between the registers and the command that is running. -/
namespace GraphReduction

open Heap

namespace RegisterFile

variable {α : Type} {file : RegisterFile α} {name : String} {a : α}

def Orderly (file : RegisterFile α) : Prop := (file.map Prod.fst).Nodup

/-- What the registers hold, where `hold` is what one content is. -/
def holdings (hold : α → Holding) (file : RegisterFile α) : Multiset Holding :=
  ↑(file.map fun entry => hold entry.2)

@[simp] theorem holdings_nil (hold : α → Holding) : holdings hold ([] : RegisterFile α) = 0 := rfl

@[simp] theorem holdings_cons (hold : α → Holding) (entry : String × α) (file : RegisterFile α) :
    holdings hold (entry :: file) = hold entry.2 ::ₘ holdings hold file := rfl

theorem orderly_nil : Orderly ([] : RegisterFile α) := List.nodup_nil

theorem Orderly.erase (h : file.Orderly) (name : String) : (file.erase name).Orderly :=
  h.sublist (List.filter_sublist.map Prod.fst)

theorem Orderly.set (h : file.Orderly) (name : String) (a : α) : (file.set name a).Orderly := by
  refine List.nodup_cons.mpr ⟨fun hmem => ?_, h.erase name⟩
  obtain ⟨entry, hentry, rfl⟩ := List.mem_map.mp hmem
  simp [RegisterFile.erase] at hentry

theorem erase_of_lookup_eq_none (h : file.lookup name = none) : file.erase name = file := by
  refine List.filter_eq_self.mpr fun entry hentry => ?_
  have hne := List.lookup_eq_none_iff.mp h entry hentry
  simp only [bne_iff_ne] at hne ⊢
  exact Ne.symm hne

theorem holdings_erase {hold : α → Holding} (horderly : file.Orderly)
    (hlookup : file.lookup name = some a) :
    file.holdings hold = hold a ::ₘ (file.erase name).holdings hold := by
  induction file with
  | nil => simp at hlookup
  | cons entry file ih =>
    obtain ⟨other, b⟩ := entry
    obtain ⟨hother, horderly⟩ := List.nodup_cons.mp horderly
    by_cases hname : name = other
    · subst hname
      obtain rfl : b = a := by simpa using hlookup
      have hrest : RegisterFile.erase file name = file := by
        refine List.filter_eq_self.mpr fun entry hentry => ?_
        have hne : entry.1 ≠ name := fun h => hother (List.mem_map.mpr ⟨entry, hentry, h⟩)
        simpa using hne
      have herase : RegisterFile.erase ((name, b) :: file) name = file := by
        rw [← hrest]
        simp [RegisterFile.erase]
      rw [herase, holdings_cons]
    · have hlookup : file.lookup name = some a := by
        simpa [List.lookup_cons, beq_eq_false_iff_ne.mpr hname] using hlookup
      have herase : RegisterFile.erase ((other, b) :: file) name =
          (other, b) :: RegisterFile.erase file name := by
        simp [RegisterFile.erase, Ne.symm hname]
      rw [herase, holdings_cons, holdings_cons, ih horderly hlookup, Multiset.cons_swap]

theorem mem_holdings (hold : α → Holding) (hlookup : file.lookup name = some a) :
    hold a ∈ file.holdings hold := by
  have hmem : (name, a) ∈ file := by
    obtain ⟨l, r, rfl, -⟩ := List.lookup_eq_some_iff.mp hlookup
    simp
  exact Multiset.mem_coe.mpr (List.mem_map.mpr ⟨_, hmem, rfl⟩)

theorem holdings_set (hold : α → Holding) (horderly : file.Orderly) (name : String) (a : α) :
    hold a ::ₘ file.holdings hold =
      ↑((file.lookup name).toList.map hold) + (file.set name a).holdings hold := by
  cases hlookup : file.lookup name with
  | none => simp [RegisterFile.set, erase_of_lookup_eq_none hlookup]
  | some old =>
    rw [holdings_erase horderly hlookup]
    simp [RegisterFile.set]

end RegisterFile

namespace Session

def holdings (s : Session) : Multiset Holding :=
  s.handles.holdings Handle.holding + s.thunks.holdings (fun t => .strong (.thunk t)) +
    s.weaks.holdings .weak

/-- A session with exact counts, while a command that is running holds `own`. -/
structure Good (own : Multiset Holding) (s : Session) : Prop where
  heap : s.machine.heap.Valid (own + s.holdings)
  handles : s.handles.Orderly
  thunks : s.thunks.Orderly
  weaks : s.weaks.Orderly

end Session

namespace Step

variable {α β : Type} {s : Session} {own left : Multiset Holding} {post : α → Multiset Holding}

theorem run_balances {act : Run α}
    (h : Balances (Machine.Good s.holdings) s.machine own act post left) :
    Balances Session.Good s own (run act) post left := by
  rintro ⟨hheap, hhandles, hthunks, hweaks⟩
  have hmachine := h hheap
  obtain ⟨machine, handles, thunks, weaks, options, varNames⟩ := s
  simp only [run]
  cases hact : act machine with
  | ok a machine =>
    rw [hact] at hmachine
    exact ⟨hmachine, hhandles, hthunks, hweaks⟩
  | error signal machine =>
    rw [hact] at hmachine
    exact ⟨hmachine, hhandles, hthunks, hweaks⟩

theorem run_does {act : Run α} (h : Does s.holdings Set.univ s.machine own act post left) :
    Balances Session.Good s own (run act) post left :=
  run_balances h.balances

theorem run_framed {act : Run α} {used mid : Multiset Holding}
    (h : Does (own + s.holdings) Set.univ s.machine used act post mid) :
    Balances Session.Good s (used + own) (run act) (fun a => post a + own) (mid + own) :=
  run_does (Does.frame own (h.mono Set.subset_union_left))

theorem run_borrowed {act : Run α} (h : Does (own + s.holdings) Set.univ s.machine 0 act post 0) :
    Balances Session.Good s own (run act) (fun a => post a + own) own :=
  (run_framed h).conv (zero_add own).symm (fun _ => rfl) (zero_add own).symm

theorem get_bind {next : Session → Step α} (h : Balances Session.Good s own (next s) post left) :
    Balances Session.Good s own (get >>= next) post left :=
  .step rfl id h

theorem modify_bind {f : Session → Session} {own₁ : Multiset Holding} {next : PUnit → Step α}
    (hf : s.Good own → (f s).Good own₁)
    (h : Balances Session.Good (f s) own₁ (next ⟨⟩) post left) :
    Balances Session.Good s own (modify f >>= next) post left :=
  .step rfl hf h

theorem inspect_bind {f : Heap → β} {next : β → Step α}
    (h : Balances Session.Good s own (next (f s.machine.heap)) post left) :
    Balances Session.Good s own (inspect f >>= next) post left :=
  .step rfl id h

theorem require_bind {b? : Option β} {failure : Failure} {next : β → Step α}
    (h : ∀ b, b? = some b → Balances Session.Good s own (next b) post own) :
    Balances Session.Good s own (require b? failure >>= next) post own := by
  cases b? with
  | none => exact .of_error rfl id
  | some b => exact .step rfl id (h b rfl)

/-! Cleaning up -/

/-- A step that gives `gone` back and does not fail. -/
def GivesBack (act : Step Unit) (gone : Multiset Holding) : Prop :=
  ∀ s own left, Balances Session.Good s (gone + own) act (fun _ => own) left

theorem release_givesBack (h : Handle) : GivesBack (release h) {h.holding} := by
  intro s own left
  refine run_balances (.of_ok rfl fun hgood => ?_)
  rw [Machine.Good, Multiset.singleton_add, Multiset.cons_add] at hgood
  exact Valid.release hgood

theorem GivesBack.bind {gone : Multiset Holding} {cleanUp : Step Unit} {next : Unit → Step α}
    (hclean : GivesBack cleanUp gone)
    (hnext : ∀ s', Balances Session.Good s' own (next ()) post left) :
    Balances Session.Good s (gone + own) (cleanUp >>= next) post left :=
  .bind (hclean s own left) fun _ s' _ => hnext s'

theorem onFailure_balances {act : Step α} {cleanUp : Step Unit} {gone : Multiset Holding}
    (hclean : GivesBack cleanUp gone) (h : Balances Session.Good s own act post (gone + left)) :
    Balances Session.Good s own (onFailure act cleanUp) post left :=
  .tryCatch h fun _ _ _ => hclean.bind fun _ => .throw rfl

theorem onFailure_ok {act : Step α} {cleanUp : Step Unit} {a : α} {s' : Session}
    (hrun : onFailure act cleanUp s = .ok a s') : act s = .ok a s' := by
  rw [onFailure, Balances.tryCatch_run] at hrun
  cases hact : act s with
  | ok b s₁ => rwa [hact] at hrun
  | error failure s₁ =>
    rw [hact] at hrun
    dsimp only at hrun
    rw [Balances.bind_run] at hrun
    cases hclean : cleanUp s₁ with
    | ok _ s₂ =>
      rw [hclean] at hrun
      cases hrun
    | error other s₂ =>
      rw [hclean] at hrun
      cases hrun

theorem cleaningUp_balances {act : Step α} {cleanUp : Step Unit} {gone : Multiset Holding}
    (hclean : GivesBack cleanUp gone)
    (h : Balances Session.Good s own act (fun a => gone + post a) (gone + left)) :
    Balances Session.Good s own (cleaningUp act cleanUp) post left :=
  .bind (.tryCatch h fun _ _ _ => hclean.bind fun _ => .throw rfl) fun a _ _ =>
    hclean.bind fun _ => .pure a rfl

end Step

namespace Operand

/-- What the command holds of an operand that it was told to move out. -/
def taken (x : Operand) (h : Handle) : Multiset Holding := if x.moved then {h.holding} else 0

end Operand

namespace Session

variable {s : Session} {own : Multiset Holding} {name : String}

theorem Good.eraseHandle {h : Handle} (hgood : s.Good own)
    (hlookup : s.handles.lookup name = some h) :
    ({ s with handles := s.handles.erase name } : Session).Good (h.holding ::ₘ own) where
  heap := by
    have hheap := hgood.heap
    rw [holdings, RegisterFile.holdings_erase hgood.handles hlookup] at hheap
    simpa [holdings, Multiset.cons_add, Multiset.add_cons] using hheap
  handles := hgood.handles.erase name
  thunks := hgood.thunks
  weaks := hgood.weaks

theorem Good.eraseThunk {t : ThunkId} (hgood : s.Good own)
    (hlookup : s.thunks.lookup name = some t) :
    ({ s with thunks := s.thunks.erase name } : Session).Good (.strong (.thunk t) ::ₘ own) where
  heap := by
    have hheap := hgood.heap
    rw [holdings, RegisterFile.holdings_erase hgood.thunks hlookup] at hheap
    simpa [holdings, Multiset.cons_add, Multiset.add_cons] using hheap
  handles := hgood.handles
  thunks := hgood.thunks.erase name
  weaks := hgood.weaks

theorem Good.setHandle {h : Handle} (hgood : s.Good (h.holding ::ₘ own)) (name : String) :
    ({ s with handles := s.handles.set name h } : Session).Good
      (↑((s.handles.lookup name).toList.map Handle.holding) + own) where
  heap := by
    have hset := RegisterFile.holdings_set Handle.holding hgood.handles name h
    have hheap := hgood.heap
    rw [holdings, Multiset.cons_add, add_assoc (s.handles.holdings _), add_left_comm,
      ← Multiset.cons_add, hset] at hheap
    convert hheap using 1
    simp only [holdings]
    abel
  handles := hgood.handles.set name h
  thunks := hgood.thunks
  weaks := hgood.weaks

theorem Good.setThunk {t : ThunkId} (hgood : s.Good (.strong (.thunk t) ::ₘ own)) (name : String) :
    ({ s with thunks := s.thunks.set name t } : Session).Good
      (↑((s.thunks.lookup name).toList.map fun t => Holding.strong (.thunk t)) + own) where
  heap := by
    have hset := RegisterFile.holdings_set (fun t => .strong (.thunk t)) hgood.thunks name t
    have hheap := hgood.heap
    rw [holdings, Multiset.cons_add, add_assoc (s.handles.holdings _),
      add_left_comm (s.handles.holdings _), add_left_comm own, ← Multiset.cons_add, hset] at hheap
    convert hheap using 1
    simp only [holdings]
    abel
  handles := hgood.handles
  thunks := hgood.thunks.set name t
  weaks := hgood.weaks

theorem Good.setWeak {o : ObjectId} (hgood : s.Good (.weak o ::ₘ own)) (name : String) :
    ({ s with weaks := s.weaks.set name o } : Session).Good
      (↑((s.weaks.lookup name).toList.map Holding.weak) + own) where
  heap := by
    have hset := RegisterFile.holdings_set .weak hgood.weaks name o
    have hheap := hgood.heap
    rw [holdings, Multiset.cons_add, ← add_assoc, add_comm _ (s.weaks.holdings _),
      ← Multiset.cons_add, hset] at hheap
    convert hheap using 1
    simp only [holdings]
    abel
  handles := hgood.handles
  thunks := hgood.thunks
  weaks := hgood.weaks.set name o

end Session

end GraphReduction
