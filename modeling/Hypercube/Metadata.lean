import Hypercube.Kind
import Hypercube.Ref

/-!
# Metadata types

An expression can stand for a piece of cube structure.  Its metadata type has a kind and a binding:
the path of known elements from a dimension downwards, which ends where knowledge does.  The empty
binding is the unknown element of the kind.
-/

set_option autoImplicit false

namespace Hypercube

/-- A path of elements: a dimension, one of its hierarchies, one of that hierarchy's levels, one of
that level's members.  It may end early. -/
abbrev Binding := List Ref

/-- The type of expressions that stand for an element of a kind, as far as it is known. -/
structure Metadata where
  kind : Kind
  binding : Binding
deriving DecidableEq, Repr

namespace Metadata

/-- An element of a kind of which nothing more is known. -/
def unknown (k : Kind) : Metadata :=
  ⟨k, []⟩

/-- Nothing is known beyond the kind. -/
def isUnknown (m : Metadata) : Bool :=
  m.binding.isEmpty

/-- The element of a kind that a type is bound to. -/
def bound? (m : Metadata) (k : Kind) : Option Ref :=
  m.binding[k.depth]?

/-- The type of members with the same binding. -/
def toMember (m : Metadata) : Metadata :=
  ⟨.member, m.binding⟩

end Metadata

end Hypercube
