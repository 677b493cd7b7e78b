import Hypercube.Decimal

/-!
# Scalar types

The types of single values.  `generic` is the scalar of which nothing more is known.
-/

set_option autoImplicit false

namespace Hypercube

/-- The type of a single value. -/
inductive Scalar where
  | string
  | numeric
  | decimal (digits : Decimal)
  | dateTime
  | boolean
  | symbol
  | generic
deriving DecidableEq, Repr

namespace Scalar

/-- Numbers of any kind. -/
def isNumeric : Scalar → Bool
  | numeric | decimal _ => true
  | _ => false

/-- The scalar of which nothing more is known. -/
def isGeneric : Scalar → Bool
  | generic => true
  | _ => false

/-- The digit counts of a decimal. -/
def decimal? : Scalar → Option Decimal
  | decimal d => some d
  | _ => none

theorem decimal?_eq_some_iff {s : Scalar} {d : Decimal} : s.decimal? = some d ↔ s = decimal d := by
  cases s <;> simp [decimal?]

/-- Name of a scalar type, without digit counts. -/
def name : Scalar → String
  | string => "STRING"
  | numeric => "NUMERIC"
  | decimal _ => "DECIMAL"
  | dateTime => "DATETIME"
  | boolean => "BOOLEAN"
  | symbol => "SYMBOL"
  | generic => "SCALAR"

/-- Text of a scalar type. -/
def render : Scalar → String
  | decimal d => Decimal.renderDigits d.precision d.scale
  | s => s.name

/-- Decimals are the only scalars that can be ill-formed. -/
def Valid : Scalar → Prop
  | decimal d => d.Valid
  | _ => True

instance : (s : Scalar) → Decidable s.Valid
  | decimal d => inferInstanceAs (Decidable d.Valid)
  | string | numeric | dateTime | boolean | symbol | generic => isTrue trivial

end Scalar

end Hypercube
