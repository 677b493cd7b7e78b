import Hypercube.Ty

/-!
# Dimensions that a type depends on

A metadata type depends on the dimension that it is bound to, a tuple on those of its positions, a
set on those of its element.  An amorphous item only may depend on the dimensions it remembers.
-/

set_option autoImplicit false

namespace Hypercube

namespace Atom

/-- The dimension that an atom depends on, if any. -/
def dimensions : Atom → List Ref
  | metadata m => (m.bound? .dimension).toList
  | _ => []

end Atom

namespace Item

/-- The dimensions that an item depends on or may depend on. -/
def dimensions : Item → List Ref
  | atom a => a.dimensions
  | tuple positions => positions.flatMap (·.dimensions)
  | amorphous ds => ds

/-- An item depends on a dimension.  With `maybe`, it is enough that it may depend on it. -/
def uses (i : Item) (d : Ref) (maybe : Bool) : Bool :=
  match i with
  | atom a => a.dimensions.contains d
  | tuple positions => positions.any (·.dimensions.contains d)
  | amorphous ds => maybe && ds.contains d

end Item

/-- A type depends on a dimension.  With `maybe`, it is enough that it may depend on it. -/
def Ty.uses (t : Ty) (d : Ref) (maybe : Bool) : Bool :=
  match t with
  | item i => i.uses d maybe
  | set e => e.uses d maybe
  | cube _ => false

end Hypercube
