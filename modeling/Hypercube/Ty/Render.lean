import Hypercube.Ty.Define

/-!
# Text of types

Elements are written by their names, so rendering needs the catalog that they belong to.
-/

set_option autoImplicit false

namespace Hypercube

/-- Text of a metadata type: its kind, and the innermost element it is bound to. -/
def Metadata.render (c : Catalog) (m : Metadata) : String :=
  let bound := match m.binding.getLast?, Kind.ofDepth? (m.binding.length - 1) with
    | some r, some k => k.name ++ "=" ++ c.render ⟨k, r⟩
    | _, _ => ""
  m.kind.typeName ++ "<" ++ bound ++ ">"

/-- Text of an atom. -/
def Atom.render (c : Catalog) : Atom → String
  | null => "NULL"
  | scalar s => s.render
  | metadata m => m.render c

/-- Text of a tuple type. -/
def renderTuple (c : Catalog) (positions : List Atom) : String :=
  "TupleType<" ++ ", ".intercalate (positions.map (·.render c)) ++ ">"

/-- Text of an amorphous item: a scalar with the dimensions that it may depend on. -/
def renderAmorphous (c : Catalog) (dimensions : List Ref) : String :=
  let names := ", ".intercalate (dimensions.map fun d => c.render ⟨.dimension, d⟩)
  "SCALAR<maybe" ++ (if dimensions.isEmpty then "" else " " ++ names) ++ ">"

/-- Text of an item. -/
def Item.render (c : Catalog) : Item → String
  | atom a => a.render c
  | tuple positions => renderTuple c positions
  | amorphous ds => renderAmorphous c ds

/-- Text of a type. -/
def Ty.render (c : Catalog) : Ty → String
  | item i => i.render c
  | set e => "SetType<" ++ e.render c ++ ">"
  | cube r => "CubeType<cube=" ++ c.renderCube r ++ ">"

/-- Text of a cause for which a definition is refused. -/
def DefinitionError.message (c : Catalog) : DefinitionError → String
  | invalidDecimal precision scale => Decimal.refusal precision scale
  | inconsistentBinding element claimed =>
    "Invalid type definition: " ++ c.render element ++ " does not belong to " ++ c.render claimed
  | emptyTuple => "Invalid type definition: a tuple needs at least one element"
  | invalidElement element composite =>
    "Invalid type definition: " ++ element.render c ++ " cannot be an element of a "
      ++ composite.name

end Hypercube
