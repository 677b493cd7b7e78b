import Hypercube.Catalog
import Hypercube.Text.Quoted

/-!
# Inspecting schemas

One-line descriptions of a schema and of its elements, for people who look at them.
-/

set_option autoImplicit false

namespace Hypercube

/-- Description of a schema by its name and the sizes of its tables. -/
def Schema.inspect (s : Schema) : String :=
  "Schema \x7b name: " ++ Text.quote s.name
    ++ ", cubes: " ++ toString s.cubes.size
    ++ ", dimensions: " ++ toString s.dimensions.size
    ++ ", members: " ++ toString s.members.size ++ " \x7d"

/-- Description of an element by its kind and its unique name. -/
def Catalog.inspect (c : Catalog) (e : Element) : String :=
  e.kind.title ++ "(" ++ c.render e ++ ")"

/-- Description of a cube by its name. -/
def Catalog.inspectCube (c : Catalog) (r : Ref) : String :=
  "Cube(" ++ c.renderCube r ++ ")"

end Hypercube
