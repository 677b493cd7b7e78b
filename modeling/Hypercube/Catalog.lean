import Hypercube.Metadata
import Hypercube.Schema.Lookup

/-!
# Catalogs

A catalog is the list of schemas that references point into.  Containers of elements are found
through it, and so are their names.
-/

set_option autoImplicit false

namespace Hypercube

/-- The schemas that references point into, by their numbers. -/
structure Catalog where
  schemas : Array Schema

/-- An element together with its kind. -/
structure Element where
  kind : Kind
  ref : Ref
deriving DecidableEq, Repr

namespace Catalog

/-- The schema of an element. -/
def schemaOf? (c : Catalog) (r : Ref) : Option Schema :=
  c.schemas[r.schema]?

/-- The element that directly contains an element of a kind. -/
def container? (c : Catalog) (e : Element) : Option Ref := do
  let s ← c.schemaOf? e.ref
  let index ← match e.kind with
    | .dimension => none
    | .hierarchy => s.dimensionOf? e.ref.index
    | .level => s.hierarchyOf? e.ref.index
    | .member => s.levelOf? e.ref.index
  return ⟨e.ref.schema, index⟩

/-- A dimension of measures. -/
def isMeasures (c : Catalog) (d : Ref) : Bool :=
  (c.schemaOf? d).any (·.isMeasures d.index)

/-- The unique name of an element. -/
def uniqueName? (c : Catalog) (e : Element) : Option String := do
  let s ← c.schemaOf? e.ref
  match e.kind with
  | .dimension => s.dimensions[e.ref.index]?.map (·.uniqueName)
  | .hierarchy => s.hierarchies[e.ref.index]?.map (·.uniqueName)
  | .level => s.levels[e.ref.index]?.map (·.uniqueName)
  | .member => s.members[e.ref.index]?.map (·.uniqueName)

/-- Text of an element. -/
def render (c : Catalog) (e : Element) : String :=
  (c.uniqueName? e).getD ""

/-- Text of a cube. -/
def renderCube (c : Catalog) (r : Ref) : String :=
  (((c.schemaOf? r).bind fun s => s.cubes[r.index]?).map fun cube => bracket cube.name).getD ""

/-- Every dimension, by schema first and index second. -/
def dimensions (c : Catalog) : List Ref :=
  c.schemas.toList.zipIdx.flatMap fun (s, number) =>
    (List.range s.dimensions.size).map fun index => ⟨number, index⟩

/-! ## Paths -/

/-- The path from a dimension down to an element. -/
def path? (c : Catalog) (e : Element) : Option Binding :=
  match e.kind with
  | .dimension => some [e.ref]
  | .hierarchy => do
    let d ← c.container? e
    return [d, e.ref]
  | .level => do
    let h ← c.container? e
    let d ← c.container? ⟨.hierarchy, h⟩
    return [d, h, e.ref]
  | .member => do
    let l ← c.container? e
    let h ← c.container? ⟨.level, l⟩
    let d ← c.container? ⟨.hierarchy, h⟩
    return [d, h, l, e.ref]

end Catalog

end Hypercube
