import Hypercube.Ty.Usage
import Hypercube.Unify.Atom

/-!
# Common types

The common type of two types is the most specific type that both can be treated as.

* Tuples are unified position by position.
* A member and a tuple of one position are unified as members where that gives a member.  Otherwise
  they become a generic scalar, and as elements of sets an amorphous item.
* An amorphous item takes in scalars, members and tuples, and remembers their dimensions.
* `Ty.joinM`, `Ty.joinAllM` — unification of two types and of a list, however conversions are
  counted.
* `Ty.join`, `Ty.commonType?` — the common type of two types.
* `Ty.joinAll` — the common type of a list of types.
-/

set_option autoImplicit false

namespace Hypercube

variable {m : Type → Type} [Monad m] [Counting m]

open Counting

/-! ## Tuples -/

/-- Unify the positions of two tuples from the left. -/
def joinPositionsM : List Atom → List Atom → m (List Atom)
  | x :: xs, y :: ys => do
    let z ← book (x.join y)
    let zs ← joinPositionsM xs ys
    return z :: zs
  | _, _ => return []

/-- Unify two tuples, which need to have the same arity. -/
def joinTuplesM (xs ys : List Atom) : m (List Atom) :=
  if xs.length = ys.length then joinPositionsM xs ys else book .refuse

/-! ## Items -/

namespace Item

/-- The item of an atom that is a member. -/
def ofMember? : Atom → Option Item
  | .metadata ⟨.member, b⟩ => some (.atom (.metadata ⟨.member, b⟩))
  | _ => none

/-- Items that can be taken in by an amorphous item. -/
def absorbable : Item → Bool
  | atom (.scalar _) | atom (.metadata ⟨.member, _⟩) | tuple _ | amorphous _ => true
  | atom _ => false

/-- Take another item into an amorphous one.  Null is taken in as it is. -/
def absorb (dimensions : List Ref) (other : Item) : Attempt Item :=
  if other = .atom .null then .free (.amorphous dimensions)
  else if other.absorbable then
    let joined := amorphous (Ref.canonical (dimensions ++ other.dimensions))
    .paying ((if other = joined then 0 else 1) + (if amorphous dimensions = joined then 0 else 1))
      joined
  else .refuse

/-- Unify a member and a tuple.  The only position of a tuple may have a member type in common with
the member; `fallback` is what they become if they share no structure. -/
def joinMemberTupleM (member : Binding) (positions : List Atom) (fallback : Attempt Item) :
    m Item :=
  match positions with
  | [only] => trial (book ((Atom.metadata ⟨.member, member⟩).join only)) ofMember? (book fallback)
  | _ => book fallback

/-- Unify two items. -/
def joinM : Item → Item → m Item
  | amorphous ds, other => book (absorb ds other)
  | other, amorphous ds => book (absorb ds other)
  | tuple xs, tuple ys => .tuple <$> joinTuplesM xs ys
  | atom (.metadata ⟨.member, b⟩), tuple t | tuple t, atom (.metadata ⟨.member, b⟩) =>
    joinMemberTupleM b t (.noting (.asScalars b t) (.atom (.scalar .generic)))
  | atom (.scalar .generic), tuple _ | tuple _, atom (.scalar .generic) =>
    book (.paying 1 (.atom (.scalar .generic)))
  | atom x, atom y => .atom <$> book (x.join y)
  | _, _ => book .refuse

/-- Unify two items as elements of sets.  A member and a tuple that share no structure become an
amorphous item over the dimensions of both. -/
def joinElementsM : Item → Item → m Item
  | atom (.metadata ⟨.member, b⟩), tuple t | tuple t, atom (.metadata ⟨.member, b⟩) =>
    let dimensions := (atom (.metadata ⟨.member, b⟩)).dimensions ++ (tuple t).dimensions
    joinMemberTupleM b t (.noting (.structureLost b t) (.amorphous (Ref.canonical dimensions)))
  | x, y => x.joinM y

end Item

/-! ## Types -/

namespace Ty

/-- Unify two types. -/
def joinM : Ty → Ty → m Ty
  | item x, item y => .item <$> x.joinM y
  | set x, set y => .set <$> x.joinElementsM y
  | cube x, cube y => if x = y then return .cube x else book .refuse
  | _, _ => book .refuse

/-- Unify a type with further types, one after the other. -/
def joinFromM (conversions : Bool) (t : Ty) : List Ty → m Ty
  | [] => return t
  | u :: us => do
    let joined ← allowing conversions (t.joinM u)
    joinFromM conversions joined us

/-- Unify a list of types from the left; `conversions` says whether they are allowed. -/
def joinAllM (conversions : Bool) : List Ty → m Ty
  | [] => book .refuse
  | t :: ts => joinFromM conversions t ts

end Ty

/-! ## Unification by attempts -/

/-- Unify the positions of two tuples from the left. -/
def joinPositions (xs ys : List Atom) : Attempt (List Atom) :=
  joinPositionsM xs ys

/-- Unify two tuples, which need to have the same arity. -/
def joinTuples (xs ys : List Atom) : Attempt (List Atom) :=
  joinTuplesM xs ys

theorem joinPositions_cons (x y : Atom) (xs ys : List Atom) :
    joinPositions (x :: xs) (y :: ys) = (do
      let z ← x.join y
      let zs ← joinPositions xs ys
      return z :: zs) := rfl

theorem joinTuples_eq (xs ys : List Atom) :
    joinTuples xs ys = if xs.length = ys.length then joinPositions xs ys else .refuse := rfl

namespace Item

/-- Unify a member and a tuple; `fallback` is what they become if they share no structure. -/
def joinMemberTuple (member : Binding) (positions : List Atom) (fallback : Attempt Item) :
    Attempt Item :=
  joinMemberTupleM member positions fallback

/-- Unify two items. -/
def join (x y : Item) : Attempt Item :=
  x.joinM y

/-- Unify two items as elements of sets. -/
def joinElements (x y : Item) : Attempt Item :=
  x.joinElementsM y

end Item

namespace Ty

/-- Unify two types. -/
def join (a b : Ty) : Attempt Ty :=
  a.joinM b

/-- The common type of two types. -/
def commonType? (a b : Ty) : Option Ty :=
  (a.join b).result

/-- Unify a type with further types, one after the other. -/
def joinFrom (conversions : Bool) (t : Ty) (us : List Ty) : Attempt Ty :=
  joinFromM conversions t us

/-- Unify a list of types from the left; `conversions` says whether they are allowed. -/
def joinAll (conversions : Bool) (ts : List Ty) : Attempt Ty :=
  joinAllM conversions ts

theorem join_items (x y : Item) : (item x).join (item y) = (x.join y).map .item := rfl

theorem join_sets (x y : Item) : (set x).join (set y) = (x.joinElements y).map .set := rfl

theorem join_cubes (q r : Ref) :
    (cube q).join (cube r) = if q = r then .free (.cube q) else .refuse := rfl

theorem join_eq (a b : Ty) :
    a.join b = match a, b with
      | item x, item y => (x.join y).map .item
      | set x, set y => (x.joinElements y).map .set
      | cube x, cube y => if x = y then .free (.cube x) else .refuse
      | _, _ => .refuse := by
  cases a <;> cases b <;> rfl

theorem joinFrom_nil (conversions : Bool) (t : Ty) : joinFrom conversions t [] = .free t := rfl

theorem joinFrom_cons (conversions : Bool) (t u : Ty) (us : List Ty) :
    joinFrom conversions t (u :: us) = (do
      let joined ← (t.join u).allowing conversions
      joinFrom conversions joined us) := rfl

theorem joinAll_cons (conversions : Bool) (t : Ty) (ts : List Ty) :
    joinAll conversions (t :: ts) = joinFrom conversions t ts := rfl

end Ty

end Hypercube
