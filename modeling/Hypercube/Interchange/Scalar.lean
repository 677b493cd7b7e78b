import Hypercube.Interchange.Encoding
import Hypercube.Scalar

/-!
# Scalar types as JSON

A scalar type is a variant, of which the tag is `type`; a decimal has its `precision` and its
`scale` as words.  Where they are read, they are validated before there is a decimal.

* `Scalar.toJson` — the written form.
* `Scalar.ofJson` — reads a scalar type and validates decimals.
-/

set_option autoImplicit false

namespace Hypercube

/-- Why a JSON value is not a scalar type. -/
inductive ScalarReadError where
  | malformed
  | invalidDecimal (precision scale : UInt32)
deriving DecidableEq, Repr

namespace Scalar

/-- The name of a scalar type in JSON. -/
def tag : Scalar → String
  | string => "String"
  | numeric => "Numeric"
  | decimal _ => "Decimal"
  | dateTime => "DateTime"
  | boolean => "Boolean"
  | symbol => "Symbol"
  | generic => "Generic"

/-- The digit counts that a scalar type is written with. -/
def counts : Scalar → List (String × UInt32)
  | decimal d => [("precision", d.precision), ("scale", d.scale)]
  | _ => []

theorem distinct_counts (t : Scalar) : ("type" :: t.counts.map Prod.fst).Nodup := by
  cases t with
  | decimal d => exact (by decide : ["type", "precision", "scale"].Nodup)
  | string | numeric | dateTime | boolean | symbol | generic => exact (by decide : ["type"].Nodup)

/-- The JSON form of a scalar type. -/
def toJson (E : Encoding) (t : Scalar) : Json :=
  E.tagged "type" t.tag t.counts t.distinct_counts

/-- The scalar type of a name that needs no digit counts. -/
def ofPlainTag? : String → Option Scalar
  | "String" => some string
  | "Numeric" => some numeric
  | "DateTime" => some dateTime
  | "Boolean" => some boolean
  | "Symbol" => some symbol
  | "Generic" => some generic
  | _ => none

/-- The decimal with digit counts that were read. -/
def ofWrittenCounts (precision scale : UInt32) : Except ScalarReadError Scalar :=
  match Decimal.ofDigits? precision scale with
  | some d => .ok (decimal d)
  | none => .error (.invalidDecimal precision scale)

/-- The scalar type of a name, with its content. -/
def ofVariant (E : Encoding) (name : String) (content : Json) : Except ScalarReadError Scalar :=
  if name = "Decimal" then
    match E.words "precision" "scale" content with
    | some (precision, scale) => ofWrittenCounts precision scale
    | none => .error .malformed
  else
    match ofPlainTag? name with
    | some t => if E.isBare content then .ok t else .error .malformed
    | none => .error .malformed

/-- The scalar type that a JSON value describes. -/
def ofJson (E : Encoding) (v : Json) : Except ScalarReadError Scalar :=
  match E.untag "type" v with
  | some (name, content) => ofVariant E name content
  | none => .error .malformed

end Scalar

end Hypercube
