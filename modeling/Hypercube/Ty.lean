import Hypercube.Metadata
import Hypercube.Scalar

/-!
# Types of expressions

Types come in three layers.  An `Atom` can be a position of a tuple, an `Item` can be the element of
a set, and a `Ty` is the type of an expression.  So tuples hold no tuples or sets, and sets hold no
sets or cubes.

An amorphous item is the element of a set whose members and tuples did not agree: it evaluates like
a scalar, and remembers which dimensions it may depend on.
-/

set_option autoImplicit false

namespace Hypercube

/-- What a position of a tuple can be. -/
inductive Atom where
  | null
  | scalar (type : Scalar)
  | metadata (type : Metadata)
deriving DecidableEq, Repr

/-- What an element of a set can be. -/
inductive Item where
  | atom (type : Atom)
  | tuple (positions : List Atom)
  | amorphous (dimensions : List Ref)
deriving DecidableEq, Repr

/-- The type of an expression. -/
inductive Ty where
  | item (type : Item)
  | set (element : Item)
  | cube (cube : Ref)
deriving DecidableEq, Repr

namespace Ty

/-- The type of the null value. -/
@[match_pattern] abbrev null : Ty := .item (.atom .null)

/-- A scalar type. -/
@[match_pattern] abbrev scalar (s : Scalar) : Ty := .item (.atom (.scalar s))

/-- A metadata type. -/
@[match_pattern] abbrev metadata (m : Metadata) : Ty := .item (.atom (.metadata m))

/-- A tuple type. -/
@[match_pattern] abbrev tuple (positions : List Atom) : Ty := .item (.tuple positions)

/-- An item without structure that may depend on some dimensions. -/
@[match_pattern] abbrev amorphous (dimensions : List Ref) : Ty := .item (.amorphous dimensions)

end Ty

end Hypercube
