import Hypercube.Kind

/-!
# Causes of failure when a schema is drafted
-/

set_option autoImplicit false

namespace Hypercube

/-- What can be added twice. -/
inductive Named where
  | cube
  | dimension
  | hierarchy
  | level
  | member
  | allMember
deriving DecidableEq, Repr

/-- The noun for something that was added twice. -/
def Named.noun : Named → String
  | cube => "cube"
  | dimension => "dimension"
  | hierarchy => "hierarchy"
  | level => "level"
  | member => "member"
  | allMember => "all member"

/-- Why a command is refused, or a draft cannot be finished. -/
inductive SchemaError where
  | unknownId (kind : Kind) (id : Nat)
  | duplicate (what : Named) (name scope : String)
  | invalidParent (member parent : String)
  | missingParent (member level : String)
  | misplacedAllLevel (hierarchy : String)
  | foreignDefaultMember (member hierarchy : String)
  | emptyDimension (dimension : String)
  | emptyHierarchy (hierarchy : String)
deriving DecidableEq, Repr

namespace SchemaError

/-- Text of a cause of failure. -/
def message : SchemaError → String
  | unknownId kind id => "Unknown " ++ kind.name ++ " id " ++ toString id
  | duplicate what name scope => "Duplicate " ++ what.noun ++ " '" ++ name ++ "' in " ++ scope
  | invalidParent member parent =>
    "Member '" ++ member ++ "' cannot be a child of '" ++ parent ++ "'"
  | missingParent member level =>
    "Member '" ++ member ++ "' on level '" ++ level ++ "' needs a parent"
  | misplacedAllLevel hierarchy =>
    "Hierarchy '" ++ hierarchy ++ "' already has levels; the all level must come first"
  | foreignDefaultMember member hierarchy =>
    "Member '" ++ member ++ "' is not in hierarchy '" ++ hierarchy ++ "'"
  | emptyDimension dimension => "Dimension '" ++ dimension ++ "' has no hierarchies"
  | emptyHierarchy hierarchy => "Hierarchy '" ++ hierarchy ++ "' has no levels"

end SchemaError

end Hypercube
