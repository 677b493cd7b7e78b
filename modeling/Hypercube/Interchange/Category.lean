import Hypercube.Category
import Hypercube.Interchange.Encoding

/-!
# Categories as JSON

A category stands for itself, by its name.
-/

set_option autoImplicit false

namespace Hypercube.Category

/-- The JSON form of a category. -/
def toJson (E : Encoding) (c : Category) : Json :=
  E.ofName c.name

/-- The category that a JSON value names. -/
def ofJson? (E : Encoding) (v : Json) : Option Category :=
  (E.name? v).bind ofName?

theorem ofJson?_toJson {E : Encoding} (hE : E.Lawful) (c : Category) :
    ofJson? E (c.toJson E) = some c := by
  rw [ofJson?, toJson, hE.name?_ofName, Option.bind_some, ofName?_name]

end Hypercube.Category
