import Hypercube.Schema.Build

/-!
# Finding and following elements of a schema

* `dimensionOf?`, `hierarchyOf?`, `levelOf?` — the container of an element.
* `findCubeM?`, `findDimensionM?`, `findHierarchyM?`, `memberByUniqueName?` — elements by name.
* `memberBySegmentsM?` — a member by the names on the path to it, starting with a hierarchy.
* `findCube?`, `memberBySegments?`, … — the same, without faults.
-/

set_option autoImplicit false

namespace Hypercube.Schema

/-! ## Containers -/

/-- The dimension of a hierarchy. -/
def dimensionOf? (s : Schema) (h : HierarchyId) : Option DimensionId :=
  s.hierarchies[h]?.map (·.dimension)

/-- The hierarchy of a level. -/
def hierarchyOf? (s : Schema) (l : LevelId) : Option HierarchyId :=
  s.levels[l]?.map (·.hierarchy)

/-- The level of a member. -/
def levelOf? (s : Schema) (m : MemberId) : Option LevelId :=
  s.members[m]?.map (·.level)

/-- The dimension of a level. -/
def dimensionOfLevel? (s : Schema) (l : LevelId) : Option DimensionId :=
  (s.hierarchyOf? l).bind s.dimensionOf?

/-- The hierarchy of a member. -/
def hierarchyOfMember? (s : Schema) (m : MemberId) : Option HierarchyId :=
  (s.levelOf? m).bind s.hierarchyOf?

/-- The dimension of a member. -/
def dimensionOfMember? (s : Schema) (m : MemberId) : Option DimensionId :=
  (s.hierarchyOfMember? m).bind s.dimensionOf?

/-- The first hierarchy of a dimension. -/
def firstHierarchy? (s : Schema) (d : DimensionId) : Option HierarchyId := do
  let dimension ← s.dimensions[d]?
  dimension.hierarchies.head?

/-- The member of a unique name. -/
def memberByUniqueName? (s : Schema) (uniqueName : String) : Option MemberId :=
  s.memberIndex.lookup uniqueName

section Access

variable {m : Type → Type} [Monad m] [Access m]

open Access

/-! ## Parts and marks -/

/-- A dimension of measures. -/
def isMeasuresM (s : Schema) (d : DimensionId) : m Bool :=
  entry (s.dimensions[d]?.map (·.measures)) (pure false)

/-- A level that holds the member that stands for all others. -/
def isAllLevelM (s : Schema) (l : LevelId) : m Bool :=
  entry (s.levels[l]?.map (·.all)) (pure false)

/-- A hierarchy that starts with an all level. -/
def hasAllM (s : Schema) (h : HierarchyId) : m Bool :=
  follow s.hierarchies[h]? (pure false) fun hierarchy =>
    match hierarchy.levels.head? with
    | some root => s.isAllLevelM root
    | none => pure false

/-- The member that stands for all others of its hierarchy. -/
def isAllMemberM (s : Schema) (q : MemberId) : m Bool :=
  follow (s.levelOf? q) (pure false) s.isAllLevelM

/-- A member of a dimension of measures. -/
def isMeasureM (s : Schema) (q : MemberId) : m Bool :=
  follow (s.dimensionOfMember? q) (pure false) s.isMeasuresM

/-- The children of a member. -/
def childrenM (s : Schema) (q : MemberId) : m (List MemberId) :=
  entry (s.members[q]?.map (·.children)) (pure [])

/-- The members of the first level of a hierarchy. -/
def rootMembersM (s : Schema) (h : HierarchyId) : m (List MemberId) :=
  follow s.hierarchies[h]? (pure []) fun hierarchy =>
    match hierarchy.levels.head? with
    | some root => entry (s.levels[root]?.map (·.members)) (pure [])
    | none => pure []

/-! ## Elements by name -/

/-- The cube of a name. -/
def findCubeM? (s : Schema) (name : String) : m (Option CubeId) :=
  firstAmong? s.cubes (·.name == name) (List.range s.cubes.size)

/-- The dimension of a name. -/
def findDimensionM? (s : Schema) (name : String) : m (Option DimensionId) :=
  firstAmong? s.dimensions (·.name == name) (List.range s.dimensions.size)

/-- The first hierarchy of the dimension of a name, or else the first hierarchy of that name. -/
def findHierarchyM? (s : Schema) (name : String) : m (Option HierarchyId) := do
  match ← s.findDimensionM? name with
  | some d => follow (s.firstHierarchy? d) (pure none) fun h => pure (some h)
  | none => return s.hierarchies.findIdx? (·.name == name)

/-- The dimension of a name among those that span a cube. -/
def cubeDimensionM? (s : Schema) (c : CubeId) (name : String) : m (Option DimensionId) :=
  follow s.cubes[c]? (pure none) fun cube =>
    firstAmong? s.dimensions (·.name == name) cube.dimensions

/-! ## Members by path -/

/-- The first of some members with a name. -/
def pickNamedM? (s : Schema) (candidates : List MemberId) (name : String) : m (Option MemberId) :=
  firstAmong? s.members (·.name == name) candidates

/-- The children of a member if it is an all member. -/
def skipM (s : Schema) (q : MemberId) : m (List MemberId) := do
  if ← s.isAllMemberM q then s.childrenM q else return []

/-- The first of some members with a name or, failing that, of the children of all members among
them. -/
def pickM? (s : Schema) (candidates : List MemberId) (name : String) : m (Option MemberId) := do
  match ← s.pickNamedM? candidates name with
  | some q => return some q
  | none => do
    let below ← candidates.mapM s.skipM
    s.pickNamedM? below.flatten name

/-- Follow names from some members downwards; `last` is the member reached so far. -/
def descendM? (s : Schema) (candidates : List MemberId) (last : Option MemberId) :
    List String → m (Option MemberId)
  | [] => return last
  | name :: rest => do
    match ← s.pickM? candidates name with
    | some q => do
      let below ← s.childrenM q
      s.descendM? below (some q) rest
    | none => return none

/-- The member reached by the names on a path, of which the first is that of a hierarchy.  The name
of an all member may be left out. -/
def memberBySegmentsM? (s : Schema) : List String → m (Option MemberId)
  | [] => return none
  | first :: rest => do
    match ← s.findHierarchyM? first with
    | some h => do
      let candidates ← s.rootMembersM h
      s.descendM? candidates none rest
    | none => return none

end Access

/-! ## Without faults -/

variable (s : Schema)

/-- A dimension of measures. -/
def isMeasures (d : DimensionId) : Bool :=
  Id.run (s.isMeasuresM d)

/-- A level that holds the member that stands for all others. -/
def isAllLevel (l : LevelId) : Bool :=
  Id.run (s.isAllLevelM l)

/-- A hierarchy that starts with an all level. -/
def hasAll (h : HierarchyId) : Bool :=
  Id.run (s.hasAllM h)

/-- The member that stands for all others of its hierarchy. -/
def isAllMember (q : MemberId) : Bool :=
  Id.run (s.isAllMemberM q)

/-- A member of a dimension of measures. -/
def isMeasure (q : MemberId) : Bool :=
  Id.run (s.isMeasureM q)

/-- The children of a member. -/
def children (q : MemberId) : List MemberId :=
  Id.run (s.childrenM q)

/-- The members of the first level of a hierarchy. -/
def rootMembers (h : HierarchyId) : List MemberId :=
  Id.run (s.rootMembersM h)

/-- The cube of a name. -/
def findCube? (name : String) : Option CubeId :=
  Id.run (s.findCubeM? name)

/-- The dimension of a name. -/
def findDimension? (name : String) : Option DimensionId :=
  Id.run (s.findDimensionM? name)

/-- The first hierarchy of the dimension of a name, or else the first hierarchy of that name. -/
def findHierarchy? (name : String) : Option HierarchyId :=
  Id.run (s.findHierarchyM? name)

/-- The dimension of a name among those that span a cube. -/
def cubeDimension? (c : CubeId) (name : String) : Option DimensionId :=
  Id.run (s.cubeDimensionM? c name)

/-- The first of some members with a name. -/
def pickNamed? (candidates : List MemberId) (name : String) : Option MemberId :=
  Id.run (s.pickNamedM? candidates name)

/-- The first of some members with a name or, failing that, of the children of all members among
them. -/
def pick? (candidates : List MemberId) (name : String) : Option MemberId :=
  Id.run (s.pickM? candidates name)

/-- Follow names from some members downwards; `last` is the member reached so far. -/
def descend? (candidates : List MemberId) (last : Option MemberId) (names : List String) :
    Option MemberId :=
  Id.run (s.descendM? candidates last names)

/-- The member reached by the names on a path, of which the first is that of a hierarchy.  The name
of an all member may be left out. -/
def memberBySegments? (segments : List String) : Option MemberId :=
  Id.run (s.memberBySegmentsM? segments)

/-! ## What is looked up without faults -/

theorem findCube?_eq (name : String) : s.findCube? name = s.cubes.findIdx? (·.name == name) := by
  rw [findCube?, findCubeM?, Access.idRun_firstAmong?, Access.find?_range_eq_findIdx?]

theorem findDimension?_eq (name : String) :
    s.findDimension? name = s.dimensions.findIdx? (·.name == name) := by
  rw [findDimension?, findDimensionM?, Access.idRun_firstAmong?, Access.find?_range_eq_findIdx?]

theorem findHierarchy?_eq (name : String) :
    s.findHierarchy? name =
      match s.findDimension? name with
      | some d => s.firstHierarchy? d
      | none => s.hierarchies.findIdx? (·.name == name) := by
  rw [findHierarchy?, findHierarchyM?, Id.run_bind]
  show Id.run (match s.findDimension? name with | some d => _ | none => _) = _
  cases s.findDimension? name with
  | none => rfl
  | some d =>
    show Id.run (Access.follow (s.firstHierarchy? d) (pure none) fun h => pure (some h)) =
      s.firstHierarchy? d
    cases s.firstHierarchy? d <;> rfl

theorem pickNamed?_eq (candidates : List MemberId) (name : String) :
    s.pickNamed? candidates name = candidates.find? fun q => s.members[q]?.any (·.name == name) :=
  Access.idRun_firstAmong? _ _ _

theorem flatten_map_ite {α β : Type} (l : List α) (p : α → Bool) (f : α → List β) :
    (l.map fun a => if p a then f a else []).flatten = (l.filter p).flatMap f := by
  induction l with
  | nil => rfl
  | cons a l ih =>
    rw [List.map_cons, List.flatten_cons, ih, List.filter_cons]
    cases p a <;> rfl

theorem pick?_eq_or (candidates : List MemberId) (name : String) :
    s.pick? candidates name =
      (s.pickNamed? candidates name).or
        (s.pickNamed? ((candidates.filter s.isAllMember).flatMap s.children) name) := by
  have hbelow : Id.run (candidates.mapM s.skipM) =
      candidates.map fun q => if s.isAllMember q then s.children q else [] := List.idRun_mapM
  rw [pick?, pickM?, Id.run_bind]
  show Id.run (match s.pickNamed? candidates name with | some q => _ | none => _) = _
  cases s.pickNamed? candidates name with
  | some q => rfl
  | none =>
    show Id.run (s.pickNamedM? (Id.run (candidates.mapM s.skipM)).flatten name) = _
    rw [hbelow, flatten_map_ite]
    rfl

theorem descend?_nil (candidates : List MemberId) (last : Option MemberId) :
    s.descend? candidates last [] = last := rfl

theorem descend?_cons (candidates : List MemberId) (last : Option MemberId) (name : String)
    (rest : List String) :
    s.descend? candidates last (name :: rest) =
      match s.pick? candidates name with
      | some q => s.descend? (s.children q) (some q) rest
      | none => none := by
  rw [descend?, descendM?, Id.run_bind]
  show Id.run (match s.pick? candidates name with | some q => _ | none => _) = _
  cases s.pick? candidates name <;> rfl

theorem memberBySegments?_cons (first : String) (rest : List String) :
    s.memberBySegments? (first :: rest) =
      match s.findHierarchy? first with
      | some h => s.descend? (s.rootMembers h) none rest
      | none => none := by
  rw [memberBySegments?, memberBySegmentsM?, Id.run_bind]
  show Id.run (match s.findHierarchy? first with | some h => _ | none => _) = _
  cases s.findHierarchy? first <;> rfl

end Hypercube.Schema
