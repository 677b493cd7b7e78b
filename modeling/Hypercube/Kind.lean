/-!
# Kinds of metadata

Dimensions contain hierarchies, hierarchies contain levels, levels contain members.  A kind's depth
is its place in that chain.
-/

set_option autoImplicit false

namespace Hypercube

/-- The kinds of metadata element, outermost first. -/
inductive Kind where
  | dimension
  | hierarchy
  | level
  | member
deriving DecidableEq, Repr

namespace Kind

/-- Every kind, outermost first. -/
def all : List Kind :=
  [dimension, hierarchy, level, member]

/-- Number of kinds around a kind. -/
def depth : Kind → Nat
  | dimension => 0
  | hierarchy => 1
  | level => 2
  | member => 3

/-- Number of elements on the path from a dimension down to an element of a kind. -/
def fields (k : Kind) : Nat :=
  k.depth + 1

/-- The kind at a depth. -/
def ofDepth? : Nat → Option Kind
  | 0 => some dimension
  | 1 => some hierarchy
  | 2 => some level
  | 3 => some member
  | _ => none

instance : Ord Kind where
  compare a b := compare a.depth b.depth

/-- The outer one of two kinds. -/
def outer (a b : Kind) : Kind :=
  if a.depth ≤ b.depth then a else b

/-- Name of a kind of element. -/
def name : Kind → String
  | dimension => "dimension"
  | hierarchy => "hierarchy"
  | level => "level"
  | member => "member"

/-- Name of a kind of element, as a title. -/
def title : Kind → String
  | dimension => "Dimension"
  | hierarchy => "Hierarchy"
  | level => "Level"
  | member => "Member"

/-- Name of the metadata type of a kind. -/
def typeName (k : Kind) : String :=
  k.title ++ "Type"

@[simp] theorem ofDepth?_depth (k : Kind) : ofDepth? k.depth = some k := by
  cases k <;> rfl

theorem depth_injective {a b : Kind} (h : a.depth = b.depth) : a = b := by
  have hb := ofDepth?_depth b
  rw [← h, ofDepth?_depth] at hb
  exact Option.some.inj hb

theorem outer_comm (a b : Kind) : outer a b = outer b a := by
  cases a <;> cases b <;> rfl

end Kind

end Hypercube
