import Hypercube.Unify.Attempt

/-!
# Common types of atoms

* Scalars: decimals widen, numbers become `numeric`, and `generic` takes in every scalar.
* Metadata types: what remains is the path that both bindings share.  A kind remains possible as
  long as the bindings do not contradict each other outside of it.
* A member evaluates to a generic scalar.
-/

set_option autoImplicit false

namespace Hypercube

/-! ## Scalars -/

namespace Scalar

/-- A common scalar type, with one conversion for each side that differs from it. -/
def settle (a b joined : Scalar) : Attempt Scalar :=
  .paying ((if a = joined then 0 else 1) + (if b = joined then 0 else 1)) joined

/-- The common type of two different scalar types. -/
def common? : Scalar → Scalar → Option Scalar
  | decimal x, decimal y =>
    match x.widen? y with
    | some d => some (decimal d)
    | none => some numeric
  | decimal _, numeric | numeric, decimal _ => some numeric
  | generic, _ | _, generic => some generic
  | _, _ => none

/-- Unify two scalar types. -/
def join (a b : Scalar) : Attempt Scalar :=
  if a = b then .free a
  else
    match common? a b with
    | some joined => settle a b joined
    | none => .refuse

end Scalar

/-! ## Metadata -/

namespace Binding

/-- The longest path with which two bindings start. -/
def shared : Binding → Binding → Binding
  | x :: xs, y :: ys => if x = y then x :: shared xs ys else []
  | _, _ => []

/-- Two bindings go on differently after the path that they share. -/
def diverge (a b : Binding) : Bool :=
  (shared a b).length < a.length && (shared a b).length < b.length

end Binding

namespace Metadata

/-- The kind that remains for two bound types: the outer one, or that of the first element in which
the bindings differ if it is further out. -/
def sharedKind (a b : Metadata) : Kind :=
  let outer := a.kind.outer b.kind
  match Binding.diverge a.binding b.binding,
      Kind.ofDepth? (Binding.shared a.binding b.binding).length with
  | true, some k => k.outer outer
  | _, _ => outer

/-- The common metadata type of two others.  An unknown type takes on the binding of the other as
far as the outer kind goes; bound types need to share at least their dimension. -/
def common? (a b : Metadata) : Option Metadata :=
  let outer := a.kind.outer b.kind
  if a.binding.isEmpty then some ⟨outer, b.binding.take outer.fields⟩
  else if b.binding.isEmpty then some ⟨outer, a.binding.take outer.fields⟩
  else
    let shared := Binding.shared a.binding b.binding
    if shared.isEmpty then none
    else some ⟨sharedKind a b, shared.take (sharedKind a b).fields⟩

/-- Unify two metadata types, with one conversion for each depth at which a binding is lost. -/
def join (a b : Metadata) : Attempt Metadata :=
  match common? a b with
  | some m => .paying (max a.binding.length b.binding.length - m.binding.length) m
  | none => .refuse

end Metadata

/-! ## Atoms -/

/-- Unify two atoms. -/
def Atom.join : Atom → Atom → Attempt Atom
  | null, null => .free .null
  | null, scalar s | scalar s, null => .free (.scalar s)
  | scalar x, scalar y => .map .scalar (x.join y)
  | metadata x, metadata y => .map .metadata (x.join y)
  | scalar .generic, metadata ⟨.member, _⟩ | metadata ⟨.member, _⟩, scalar .generic =>
    .paying 1 (.scalar .generic)
  | _, _ => .refuse

end Hypercube
