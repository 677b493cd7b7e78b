/-!
# Categories

A category is the coarse class of a type, by which arguments are matched with parameters.
`Category.conversionCost?` is the matrix of permitted conversions: its entry is the cost of the
conversion, `none` where there is none.
-/

set_option autoImplicit false

namespace Hypercube

/-- The coarse class of a type. -/
inductive Category where
  | member
  | level
  | hierarchy
  | dimension
  | tuple
  | set
  | numeric
  | string
  | dateTime
  | logical
  | value
  | null
  | symbol
  | cube
deriving DecidableEq, Repr

namespace Category

/-- Every category, in order. -/
def all : List Category :=
  [member, level, hierarchy, dimension, tuple, set, numeric, string, dateTime, logical, value, null,
    symbol, cube]

/-- Place of a category among all of them. -/
def rank : Category → Nat
  | member => 0
  | level => 1
  | hierarchy => 2
  | dimension => 3
  | tuple => 4
  | set => 5
  | numeric => 6
  | string => 7
  | dateTime => 8
  | logical => 9
  | value => 10
  | null => 11
  | symbol => 12
  | cube => 13

instance : Ord Category where
  compare a b := compare a.rank b.rank

/-- Name of a category. -/
def name : Category → String
  | member => "Member"
  | level => "Level"
  | hierarchy => "Hierarchy"
  | dimension => "Dimension"
  | tuple => "Tuple"
  | set => "Set"
  | numeric => "Numeric"
  | string => "String"
  | dateTime => "DateTime"
  | logical => "Logical"
  | value => "Value"
  | null => "Null"
  | symbol => "Symbol"
  | cube => "Cube"

/-- The category of a name. -/
def ofName? (s : String) : Option Category :=
  all.find? (·.name == s)

/-- Cost of converting to a different category.  Members and tuples convert to values because they
evaluate to one in the current context. -/
def crossCost? : Category → Category → Option Nat
  | null, numeric | null, string | null, dateTime | null, logical | null, value
  | null, symbol => some 0
  | null, member | null, tuple => some 1
  | numeric, value | string, value | dateTime, value | logical, value | symbol, value => some 1
  | value, numeric | value, string | value, dateTime | value, logical => some 1
  | numeric, logical | logical, numeric => some 2
  | member, numeric | member, string | member, dateTime | member, logical
  | member, value => some 1
  | tuple, numeric | tuple, string | tuple, dateTime | tuple, logical | tuple, value => some 1
  | member, level | member, hierarchy | member, dimension | member, tuple
  | member, set => some 1
  | level, hierarchy | level, dimension => some 1
  | hierarchy, dimension | hierarchy, member => some 1
  | dimension, hierarchy | dimension, member => some 1
  | hierarchy, tuple | dimension, tuple => some 2
  | tuple, set => some 1
  | tuple, member => some 2
  | _, _ => none

/-- Cost of converting a value of one category to another; staying in a category is free. -/
def conversionCost? (source target : Category) : Option Nat :=
  if source = target then some 0 else crossCost? source target

theorem mem_all (c : Category) : c ∈ all := by
  cases c <;> decide

theorem ofName?_name (c : Category) : ofName? c.name = some c := by
  cases c <;> decide

end Category

end Hypercube
