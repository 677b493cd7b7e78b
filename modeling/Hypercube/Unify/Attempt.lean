import Hypercube.Ty

/-!
# Attempts at unification

Unifying types may fail, counts the conversions that it applies on the way, and notes where a
member and a tuple lose their structure.  The count and the notes survive a failure.

* `Attempt` — a result with a count that is a natural number.
* `Counting` — what unification asks of a computation that counts, whatever it counts with.
-/

set_option autoImplicit false

namespace Hypercube

/-- A member type and a tuple type that have no structured type in common. -/
inductive Note where
  /-- They are joined as scalars. -/
  | asScalars (member : Binding) (tuple : List Atom)
  /-- As elements of sets, they are joined as an amorphous item. -/
  | structureLost (member : Binding) (tuple : List Atom)
deriving DecidableEq, Repr

/-- The result of an attempt, if there is one, the conversions counted, and the notes taken. -/
structure Attempt (α : Type) where
  result : Option α
  conversions : Nat
  notes : List Note
deriving DecidableEq, Repr

namespace Attempt

variable {α β : Type}

/-- Succeed without conversions. -/
def free (a : α) : Attempt α :=
  ⟨some a, 0, []⟩

/-- Succeed at the price of some conversions. -/
def paying (n : Nat) (a : α) : Attempt α :=
  ⟨some a, n, []⟩

/-- Succeed at the price of one conversion, and take a note. -/
def noting (n : Note) (a : α) : Attempt α :=
  ⟨some a, 1, [n]⟩

/-- Fail. -/
def refuse : Attempt α :=
  ⟨none, 0, []⟩

/-- Go on with the result of an attempt.  Conversions add up and notes follow each other. -/
def andThen (x : Attempt α) (f : α → Attempt β) : Attempt β :=
  match x.result with
  | some a => ⟨(f a).result, x.conversions + (f a).conversions, x.notes ++ (f a).notes⟩
  | none => ⟨none, x.conversions, x.notes⟩

/-- Change the result. -/
def map (f : α → β) (x : Attempt α) : Attempt β :=
  ⟨x.result.map f, x.conversions, x.notes⟩

instance : Monad Attempt where
  pure := free
  bind := andThen
  map := map

/-- Keep a result that needed conversions only if conversions are allowed. -/
def allowing (conversions : Bool) (x : Attempt α) : Attempt α :=
  if conversions = true ∨ x.conversions = 0 then x else { x with result := none }

/-- Make use of a result at the price of its conversions.  One that is of no use counts nothing, and
another attempt takes its place. -/
def trial (x : Attempt α) (use : α → Option β) (fallback : Attempt β) : Attempt β :=
  match x.result.bind use with
  | some b => .paying x.conversions b
  | none => fallback

/-- The result with its conversions. -/
def outcome? (x : Attempt α) : Option (α × Nat) :=
  x.result.map (·, x.conversions)

/-! ## What sequencing does to each part -/

@[simp] theorem pure_eq_free (a : α) : (pure a : Attempt α) = free a := rfl

@[simp] theorem result_bind (x : Attempt α) (f : α → Attempt β) :
    (x >>= f).result = x.result.bind fun a => (f a).result := by
  show (andThen x f).result = _
  unfold andThen
  cases x.result <;> rfl

@[simp] theorem conversions_bind (x : Attempt α) (f : α → Attempt β) :
    (x >>= f).conversions = x.conversions + (x.result.elim 0 fun a => (f a).conversions) := by
  show (andThen x f).conversions = _
  unfold andThen
  cases x.result <;> rfl

@[simp] theorem notes_bind (x : Attempt α) (f : α → Attempt β) :
    (x >>= f).notes = x.notes ++ (x.result.elim [] fun a => (f a).notes) := by
  show (andThen x f).notes = _
  unfold andThen
  cases x.result <;> simp

end Attempt

/-! ## Counting -/

/-- Computations in which types can be unified.  They differ in how conversions are counted. -/
class Counting (m : Type → Type) where
  /-- Carry out an attempt, and add its conversions in one go. -/
  book {α : Type} : Attempt α → m α
  /-- Keep a result that needed conversions only if conversions are allowed. -/
  allowing {α : Type} (conversions : Bool) : m α → m α
  /-- Make use of a result at the price of its conversions, or else do something in its place. -/
  trial {α β : Type} : m α → (α → Option β) → m β → m β

instance : Counting Attempt where
  book := id
  allowing := Attempt.allowing
  trial := Attempt.trial

end Hypercube
