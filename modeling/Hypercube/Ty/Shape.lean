import Hypercube.Category
import Hypercube.Ty

/-!
# The shape of a type

Queries on a type that need no schema: its class, the elements it is bound to, its arity, and the
hierarchies of its positions.  A set is asked about its element.
-/

set_option autoImplicit false

namespace Hypercube

namespace Atom

/-- The metadata type of an atom that is one. -/
def metadata? : Atom → Option Metadata
  | metadata m => some m
  | _ => none

/-- The element of a kind that an atom is bound to. -/
def bound? (a : Atom) (k : Kind) : Option Ref :=
  a.metadata?.bind (·.bound? k)

end Atom

namespace Item

/-- The metadata type of an item that is one. -/
def metadata? : Item → Option Metadata
  | atom a => a.metadata?
  | _ => none

/-- The element of a kind that an item is bound to. -/
def bound? (i : Item) (k : Kind) : Option Ref :=
  i.metadata?.bind (·.bound? k)

/-- Number of positions of a tuple; everything else has one. -/
def arity : Item → Nat
  | tuple positions => positions.length
  | _ => 1

/-- The known hierarchy of each position. -/
def hierarchies : Item → List (Option Ref)
  | tuple positions => positions.map (·.bound? .hierarchy)
  | i => [i.bound? .hierarchy]

/-- The category of an item. -/
def category : Item → Category
  | atom .null => .null
  | atom (.scalar .string) => .string
  | atom (.scalar .numeric) => .numeric
  | atom (.scalar (.decimal _)) => .numeric
  | atom (.scalar .dateTime) => .dateTime
  | atom (.scalar .boolean) => .logical
  | atom (.scalar .symbol) => .symbol
  | atom (.scalar .generic) => .value
  | atom (.metadata ⟨.dimension, _⟩) => .dimension
  | atom (.metadata ⟨.hierarchy, _⟩) => .hierarchy
  | atom (.metadata ⟨.level, _⟩) => .level
  | atom (.metadata ⟨.member, _⟩) => .member
  | tuple _ => .tuple
  | amorphous _ => .value

end Item

namespace Ty

/-- The null type. -/
def isNull : Ty → Bool
  | null => true
  | _ => false

/-- Types that evaluate like a scalar. -/
def isScalar : Ty → Bool
  | scalar _ | amorphous _ => true
  | _ => false

/-- Set types. -/
def isSet : Ty → Bool
  | set _ => true
  | _ => false

/-- The scalar type of a type that is one. -/
def scalar? : Ty → Option Scalar
  | scalar s => some s
  | _ => none

/-- The metadata type of a type that is one. -/
def metadata? : Ty → Option Metadata
  | item i => i.metadata?
  | _ => none

/-- Types of expressions that stand for an element of a schema. -/
def isMetadata (t : Ty) : Bool :=
  t.metadata?.isSome

/-- The metadata type of a member type. -/
def member? (t : Ty) : Option Metadata :=
  t.metadata?.filter (·.kind = .member)

/-- Types whose expressions can be used where a member is wanted. -/
def couldBeMember (t : Ty) : Bool :=
  t.metadata?.any (·.kind ≠ .level)

/-- The element type of a set; any other type itself. -/
def stripSet : Ty → Ty
  | set e => item e
  | t => t

/-- The element of a kind that a type, or the element of a set, is bound to. -/
def bound? (t : Ty) (k : Kind) : Option Ref :=
  match t with
  | item i => i.bound? k
  | set e => e.bound? k
  | cube _ => none

/-- Number of positions of a tuple, or of the element of a set; everything else has one. -/
def arity : Ty → Nat
  | item i => i.arity
  | set e => e.arity
  | cube _ => 1

/-- The member type with the binding of a metadata type. -/
def toMember? (t : Ty) : Option Metadata :=
  t.metadata?.map (·.toMember)

/-- The known hierarchy of each position of a type, or of the element of a set. -/
def hierarchies : Ty → List (Option Ref)
  | item i => i.hierarchies
  | set e => e.hierarchies
  | cube _ => [none]

/-- Two sets can be united: their elements have the same hierarchies in the same order. -/
def unionCompatible (a b : Ty) : Bool :=
  a.isSet && b.isSet && a.hierarchies == b.hierarchies

/-- The category of a type. -/
def category : Ty → Category
  | item i => i.category
  | set _ => .set
  | cube _ => .cube

/-- Cost of converting a type to a category.  A tuple converts to a member only if it has one
position. -/
def conversionCost? (t : Ty) (target : Category) : Option Nat :=
  match t with
  | tuple positions =>
    if target = .member ∧ 1 < positions.length then none
    else Category.conversionCost? .tuple target
  | _ => Category.conversionCost? t.category target

end Ty

end Hypercube
