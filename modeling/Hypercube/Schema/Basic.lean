/-!
# Schemas

A schema holds its elements in five tables and refers to an element by its index there.  Containment
is recorded on both sides: an element names its container, and a container lists its parts in the
order in which they were added.

`Tables` is that data at any stage.  A `Schema` is the data of a finished schema.
-/

set_option autoImplicit false

namespace Hypercube

/-- Index of a cube. -/
abbrev CubeId := Nat

/-- Index of a dimension. -/
abbrev DimensionId := Nat

/-- Index of a hierarchy. -/
abbrev HierarchyId := Nat

/-- Index of a level. -/
abbrev LevelId := Nat

/-- Index of a member. -/
abbrev MemberId := Nat

/-- A cube and the dimensions that span it. -/
structure Cube where
  name : String
  dimensions : List DimensionId
deriving DecidableEq, Repr

/-- A dimension and its hierarchies. -/
structure Dimension where
  name : String
  uniqueName : String
  hierarchies : List HierarchyId
  measures : Bool
deriving DecidableEq, Repr

/-- A hierarchy of a dimension, with its levels from the root downwards. -/
structure Hierarchy where
  name : String
  uniqueName : String
  dimension : DimensionId
  levels : List LevelId
  defaultMember : Option MemberId
deriving DecidableEq, Repr

/-- A level of a hierarchy.  An `all` level holds the member that stands for all others. -/
structure Level where
  name : String
  uniqueName : String
  hierarchy : HierarchyId
  depth : Nat
  all : Bool
  members : List MemberId
deriving DecidableEq, Repr

/-- A member of a level, below its parent on the level above. -/
structure Member where
  name : String
  uniqueName : String
  level : LevelId
  parent : Option MemberId
  children : List MemberId
deriving DecidableEq, Repr

/-- The elements of a schema, and an index from the unique names of members, in the order in which
they were added. -/
structure Tables where
  name : String
  cubes : Array Cube
  dimensions : Array Dimension
  hierarchies : Array Hierarchy
  levels : Array Level
  members : Array Member
  memberIndex : List (String × MemberId)
deriving DecidableEq, Repr

/-- Tables without any element. -/
def Tables.empty (name : String) : Tables :=
  ⟨name, #[], #[], #[], #[], #[], []⟩

/-- A finished schema. -/
structure Schema extends Tables
deriving DecidableEq, Repr

/-- A name in brackets. -/
def bracket (name : String) : String :=
  "[" ++ name ++ "]"

/-- The name of something inside a scope. -/
def qualify (scope name : String) : String :=
  scope ++ "." ++ bracket name

end Hypercube
