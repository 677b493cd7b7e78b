/-!
# Entries of tables

Tables refer to each other by index.  An index that is not in its table may be passed over, with
something else done in its place, or it may be a fault, after which there is no answer.  Everything
that looks up entries is written once, for computations that do either.

* `Access` — computations that say what becomes of an index outside of a table.
* `Access.follow`, `Access.entry` — go on with what was looked up.
* `Access.anyEntry`, `Access.firstAmong?`, `Access.change` — search some entries, and change one.
-/

set_option autoImplicit false

namespace Hypercube

/-- Computations that look up entries of tables. -/
class Access (m : Type → Type) where
  /-- What is done where an index is not in its table, given what else could be done. -/
  missing {α : Type} (instead : m α) : m α

/-- Without faults, something else is done. -/
instance : Access Id where
  missing instead := instead

/-- A fault leaves no answer. -/
instance : Access Option where
  missing _ := none

instance {σ : Type} {m : Type → Type} [Access m] : Access (StateT σ m) where
  missing instead s := Access.missing (instead s)

instance {ε : Type} {m : Type → Type} [Access m] : Access (ExceptT ε m) where
  missing instead := ExceptT.mk (Access.missing instead.run)

namespace Access

variable {m : Type → Type} [Access m] {α β : Type}

/-- Go on with what was looked up. -/
def follow (found : Option α) (instead : m β) (next : α → m β) : m β :=
  match found with
  | some a => next a
  | none => missing instead

theorem follow_some (a : α) (instead : m β) (next : α → m β) :
    follow (some a) instead next = next a := rfl

variable [Monad m]

/-- What was looked up. -/
def entry (found : Option α) (instead : m α) : m α :=
  follow found instead pure

theorem entry_some (a : α) (instead : m α) : entry (some a) instead = pure a := rfl

/-- Some entry among those with given indices has a property. -/
def anyEntry (xs : Array α) (p : α → Bool) (ids : List Nat) : m Bool :=
  ids.anyM fun id => entry (xs[id]?.map p) (pure false)

/-- The first of some indices whose entry has a property. -/
def firstAmong? (xs : Array α) (p : α → Bool) (ids : List Nat) : m (Option Nat) :=
  ids.findM? fun id => entry (xs[id]?.map p) (pure false)

/-- The table with a changed entry. -/
def change (xs : Array α) (id : Nat) (f : α → α) : m (Array α) :=
  if id < xs.size then pure (xs.modify id f) else missing (pure xs)

/-! ## Without faults -/

theorem idRun_follow (found : Option α) (instead : Id β) (next : α → Id β) :
    Id.run (follow found instead next) = found.elim (Id.run instead) fun a => Id.run (next a) := by
  cases found <;> rfl

theorem idRun_entry (found : Option α) (instead : Id α) :
    Id.run (entry found instead) = found.getD (Id.run instead) := by
  cases found <;> rfl

theorem idRun_firstAmong? (xs : Array α) (p : α → Bool) (ids : List Nat) :
    Id.run (firstAmong? xs p ids) = ids.find? fun id => xs[id]?.any p := by
  unfold firstAmong?
  rw [List.idRun_findM?]
  congr 1
  funext id
  cases xs[id]? <;> rfl

theorem find?_range_eq_findIdx? (xs : Array α) (p : α → Bool) :
    (List.range xs.size).find? (fun i => xs[i]?.any p) = xs.findIdx? p := by
  cases h : xs.findIdx? p with
  | none =>
    rw [List.find?_range_eq_none]
    intro i hi
    rw [Array.findIdx?_eq_none_iff] at h
    simp [hi, h]
  | some i =>
    obtain ⟨hi, hp, hbefore⟩ := Array.findIdx?_eq_some_iff_getElem.1 h
    rw [List.find?_range_eq_some]
    refine ⟨by simp [hi, hp], List.mem_range.2 hi, fun j hj => ?_⟩
    have hlt : j < xs.size := Nat.lt_trans hj hi
    simp [hlt, hbefore j hj]

end Access

end Hypercube
