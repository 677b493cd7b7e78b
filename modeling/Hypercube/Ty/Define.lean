import Hypercube.Catalog
import Hypercube.Ty

/-!
# Defining types

Types are defined from parts, and definitions that make no sense are refused with a cause.

* `Ty.ofDigits`, `Ty.ofPositions`, `Ty.setOf`, `Ty.ofDimensions` — decimals, tuples, sets and
  amorphous items.
* `Catalog.metadataAt?` — the metadata type bound down to one element.
* `Catalog.metadataOf` — the metadata type bound to any consistent choice of elements.
-/

set_option autoImplicit false

namespace Hypercube

/-- Types that are made of other types. -/
inductive Composite where
  | tuple
  | set
deriving DecidableEq, Repr

/-- Name of a composite. -/
def Composite.name : Composite → String
  | tuple => "tuple"
  | set => "set"

/-- Why a definition of a type is refused. -/
inductive DefinitionError where
  | invalidDecimal (precision scale : UInt32)
  | inconsistentBinding (element claimed : Element)
  | emptyTuple
  | invalidElement (element : Ty) (composite : Composite)
deriving DecidableEq, Repr

namespace Ty

/-- The decimal type with some digit counts. -/
def ofDigits (precision scale : UInt32) : Except DefinitionError Ty :=
  match Decimal.ofDigits? precision scale with
  | some d => .ok (.scalar (.decimal d))
  | none => .error (.invalidDecimal precision scale)

/-- The atom that a type is, if it can be a position of a tuple. -/
def atom? : Ty → Option Atom
  | item (.atom a) => some a
  | _ => none

/-- The item that a type is, if it can be the element of a set. -/
def item? : Ty → Option Item
  | item i => some i
  | _ => none

/-- The atoms that types are, or the first type that is none. -/
def atoms : List Ty → Except DefinitionError (List Atom)
  | [] => .ok []
  | t :: ts =>
    match t.atom? with
    | some a => (a :: ·) <$> atoms ts
    | none => .error (.invalidElement t .tuple)

/-- The tuple type with some positions. -/
def ofPositions (positions : List Ty) : Except DefinitionError Ty :=
  if positions.isEmpty then .error .emptyTuple
  else .tuple <$> atoms positions

/-- The type of sets of an element. -/
def setOf (element : Ty) : Except DefinitionError Ty :=
  match element.item? with
  | some i => .ok (.set i)
  | none => .error (.invalidElement element .set)

theorem setOf_eq_ok_iff {x s : Ty} : setOf x = .ok s ↔ ∃ i, x = .item i ∧ s = .set i := by
  cases x with
  | item i => simp [setOf, item?, eq_comm]
  | set i => simp [setOf, item?]
  | cube r => simp [setOf, item?]

/-- The amorphous item that may depend on some dimensions. -/
def ofDimensions (dimensions : List Ref) : Ty :=
  .amorphous (Ref.canonical dimensions)

end Ty

/-- A choice of elements that a metadata type is to be bound to. -/
structure Choice where
  dimension : Option Ref := none
  hierarchy : Option Ref := none
  level : Option Ref := none
  member : Option Ref := none
deriving DecidableEq, Repr

/-- The part of a choice that types of a kind can be bound to. -/
def Choice.upTo (k : Kind) (ch : Choice) : Choice where
  dimension := ch.dimension
  hierarchy := if 1 ≤ k.depth then ch.hierarchy else none
  level := if 2 ≤ k.depth then ch.level else none
  member := if 3 ≤ k.depth then ch.member else none

namespace Catalog

/-- The metadata type of a kind that is bound down to an element. -/
def metadataAt? (c : Catalog) (k : Kind) (e : Element) : Option Metadata :=
  (c.path? e).map (⟨k, ·⟩)

/-- The container of an element: the claimed one if it is right, the actual one if none is
claimed. -/
def agreedContainer (c : Catalog) (outer inner : Kind) (claimed element : Option Ref) :
    Except DefinitionError (Option Ref) :=
  match element with
  | none => .ok claimed
  | some r =>
    match claimed, c.container? ⟨inner, r⟩ with
    | some q, some actual =>
      if actual = q then .ok (some q)
      else .error (.inconsistentBinding ⟨inner, r⟩ ⟨outer, q⟩)
    | some q, none => .ok (some q)
    | none, actual => .ok actual

/-- The path of a choice of elements, each of which has to lie in those chosen around it. -/
def resolve (c : Catalog) (ch : Choice) : Except DefinitionError Binding := do
  let level ← c.agreedContainer .level .member ch.level ch.member
  let hierarchy ← c.agreedContainer .hierarchy .level ch.hierarchy level
  let dimension ← c.agreedContainer .dimension .hierarchy ch.dimension hierarchy
  return [dimension, hierarchy, level, ch.member].filterMap id

/-- The metadata type of a kind that is bound to a choice of elements. -/
def metadataOf (c : Catalog) (k : Kind) (ch : Choice) : Except DefinitionError Metadata :=
  (⟨k, ·⟩) <$> c.resolve (ch.upTo k)

/-- The type of the value of a member in the current context. -/
def valueType (c : Catalog) (m : Metadata) : Scalar :=
  if (m.bound? .dimension).any c.isMeasures then .numeric else .generic

end Catalog

end Hypercube
