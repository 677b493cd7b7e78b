import Hypercube.Proofs.Defaults
import Hypercube.Proofs.StrictDrafts

/-!
# Lookups and navigation stay inside the tables

An element is reached by its id, by a name, by the names on a path, or from another element, and all
that is known of it is then read from the tables.  In a finished schema this does not depend on the
kind of access to the tables.  Where an index outside of a table is a fault, every lookup and every
reading has an answer, for every element that can be reached.

* `Schema.Whole` — sound tables in which no dimension and no hierarchy is empty.
* `Schema.Whole.findHierarchyM?_eq`, `Schema.Whole.memberBySegmentsM?_eq`, … — lookups by name find
  the same with every kind of access.
* `Schema.strictFindHierarchy?`, `Schema.strictMemberBySegments?`, … — lookups by name, with faults.
* `Handle`, `Schema.read?` — elements, and what their accessors read, with faults.
* `Schema.Whole.read?_ok` — in range, every accessor has an answer, and leads to what is in range.
* `Schema.Obtained`, `Schema.Obtained.inRange` — everything that lookups and accessors lead to.
* `Schema.exists_ancestor`, `Schema.Whole.exists_top` — the members above a member, one on every
  level up to the first.
* `Tables.navigation_stays_inside` — drafting, finishing, lookups and accessors together.
-/

set_option autoImplicit false

namespace Hypercube

variable {m : Type → Type} [Monad m] {α : Type}

/-! ## Searching entries -/

/-- A search that can test every candidate finds the first that passes. -/
theorem findM?_eq_pure_find? [LawfulMonad m] {l : List α} {f : α → m Bool} {p : α → Bool}
    (h : ∀ a ∈ l, f a = pure (p a)) : l.findM? f = pure (l.find? p) := by
  induction l with
  | nil => rfl
  | cons a l ih =>
    obtain ⟨ha, hl⟩ := List.forall_mem_cons.1 h
    rw [List.findM?, ha, pure_bind, List.find?_cons]
    cases p a with
    | true => rfl
    | false => exact ih hl

theorem Access.firstAmong?_of_lt [LawfulMonad m] [Access m] {xs : Array α} {ids : List Nat}
    (p : α → Bool) (h : ∀ i ∈ ids, i < xs.size) :
    (firstAmong? xs p ids : m (Option Nat)) = pure (ids.find? fun i => xs[i]?.any p) := by
  refine findM?_eq_pure_find? fun i hi => ?_
  rw [Array.getElem?_eq_getElem (h i hi)]
  rfl

theorem lt_size_of_findIdx? {xs : Array α} {p : α → Bool} {i : Nat}
    (h : xs.findIdx? p = some i) : i < xs.size := by
  obtain ⟨hi, -⟩ := Array.findIdx?_eq_some_iff_getElem.1 h
  exact hi

/-- A container that is not empty starts with a part that is in its table. -/
theorem Lists.exists_head {β : Type} {parts : α → List Nat} {container : β → Option Nat}
    {outer : Array α} {inner : Array β} (h : Lists parts container outer inner) {i : Nat} {o : α}
    (ho : outer[i]? = some o) (hne : parts o ≠ []) :
    ∃ j, (parts o).head? = some j ∧ j < inner.size := by
  obtain ⟨j, rest, hj⟩ := List.exists_cons_of_ne_nil hne
  refine ⟨j, by rw [hj, List.head?_cons], (h i o ho).lt_size ?_⟩
  rw [hj]
  exact List.mem_cons_self

theorem Tables.lt_size_of_place? {t : Tables} {m : MemberId} {p : HierarchyId × Nat}
    (h : t.place? m = some p) : m < t.members.size := by
  obtain ⟨l, hl, -⟩ := Option.bind_eq_some_iff.1 h
  obtain ⟨mem, hm, -⟩ := Option.map_eq_some_iff.1 hl
  exact (Array.getElem?_eq_some_iff.1 hm).1

namespace Schema

/-! ## Whole schemas -/

/-- The tables are sound, and no dimension and no hierarchy is empty. -/
structure Whole (s : Schema) : Prop where
  sound : s.Sound
  dimensions : ∀ d ∈ s.dimensions, d.hierarchies ≠ []
  hierarchies : ∀ h ∈ s.hierarchies, h.levels ≠ []

/-- Finished schemas are whole. -/
theorem Whole.of_build {t : Tables} {s : Schema} (ht : t.Sound) (h : t.build = .ok s) :
    s.Whole := by
  obtain ⟨hdims, hhiers⟩ := Tables.exists_build_iff_parts.1 ⟨s, h⟩
  refine ⟨ht.build h, ?_, ?_⟩
  · rw [Tables.build_ok h]
    exact hdims
  · rw [Tables.build_ok h]
    intro hier hh
    obtain ⟨old, ho, rfl⟩ := Array.mem_map.1 hh
    exact hhiers old ho

variable {s : Schema}

/-! ## What is found is in its table -/

theorem lt_of_findDimension? {name : String} {d : DimensionId}
    (h : s.findDimension? name = some d) : d < s.dimensions.size := by
  rw [findDimension?_eq] at h
  exact lt_size_of_findIdx? h

/-- A member that was picked by its name is in the table. -/
theorem lt_of_pickNamed? {ids : List MemberId} {name : String} {q : MemberId}
    (h : s.pickNamed? ids name = some q) : q < s.members.size := by
  rw [pickNamed?_eq] at h
  have hpasses := List.find?_some h
  obtain ⟨mem, hq, -⟩ := (Option.any_eq_true _ _).1 hpasses
  exact (Array.getElem?_eq_some_iff.1 hq).1

theorem lt_of_pick? {ids : List MemberId} {name : String} {q : MemberId}
    (h : s.pick? ids name = some q) : q < s.members.size := by
  rw [pick?_eq] at h
  exact lt_of_pickNamed? h

theorem lt_of_descend? {ids : List MemberId} {last : Option MemberId} {names : List String}
    (hlast : ∀ q, last = some q → q < s.members.size) :
    ∀ q, s.descend? ids last names = some q → q < s.members.size := by
  induction names generalizing ids last with
  | nil => exact hlast
  | cons name rest ih =>
    intro q h
    rw [descend?_cons] at h
    cases hp : s.pick? ids name with
    | none =>
      rw [hp] at h
      cases h
    | some next =>
      rw [hp] at h
      refine ih (fun last hlast => ?_) q h
      cases hlast
      exact lt_of_pick? hp

theorem lt_of_memberBySegments? {segments : List String} {q : MemberId}
    (h : s.memberBySegments? segments = some q) : q < s.members.size := by
  cases segments with
  | nil => cases h
  | cons first rest =>
    rw [memberBySegments?_cons] at h
    split at h
    · refine lt_of_descend? (fun last hlast => ?_) q h
      cases hlast
    · cases h

namespace Whole

theorem exists_first (hs : s.Whole) {d : DimensionId} {dim : Dimension}
    (hd : s.dimensions[d]? = some dim) :
    ∃ h, dim.hierarchies.head? = some h ∧ h < s.hierarchies.size :=
  hs.sound.hierarchies.exists_head hd (hs.dimensions dim (Array.mem_of_getElem? hd))

theorem exists_firstHierarchy? (hs : s.Whole) {d : DimensionId} (hd : d < s.dimensions.size) :
    ∃ h, s.firstHierarchy? d = some h ∧ h < s.hierarchies.size := by
  have hdim := Array.getElem?_eq_getElem hd
  obtain ⟨h, hfirst, hlt⟩ := hs.exists_first hdim
  exact ⟨h, by rw [firstHierarchy?, hdim]; exact hfirst, hlt⟩

theorem exists_root (hs : s.Whole) {h : HierarchyId} {hier : Hierarchy}
    (hh : s.hierarchies[h]? = some hier) :
    ∃ l, hier.levels.head? = some l ∧ l < s.levels.size :=
  hs.sound.levels.exists_head hh (hs.hierarchies hier (Array.mem_of_getElem? hh))

theorem lt_of_findHierarchy? (hs : s.Whole) {name : String} {h : HierarchyId}
    (hh : s.findHierarchy? name = some h) : h < s.hierarchies.size := by
  rw [findHierarchy?_eq] at hh
  split at hh
  · rename_i d hd
    obtain ⟨first, hfirst, hlt⟩ := hs.exists_firstHierarchy? (lt_of_findDimension? hd)
    cases hfirst.symm.trans hh
    exact hlt
  · exact lt_size_of_findIdx? hh

theorem lt_of_mem_children (hs : s.Whole) {p q : MemberId} (h : q ∈ s.children p) :
    q < s.members.size := by
  obtain ⟨mem, hq, -⟩ := (mem_children_iff hs.sound).1 h
  exact (Array.getElem?_eq_some_iff.1 hq).1

/-- The level, the hierarchy and the dimension of a member are all in their tables. -/
theorem exists_dimensionOfMember? (hs : s.Whole) {q : MemberId} (hq : q < s.members.size) :
    ∃ l h d, s.levelOf? q = some l ∧ s.hierarchyOfMember? q = some h ∧
      s.dimensionOfMember? q = some d ∧ l < s.levels.size ∧ h < s.hierarchies.size ∧
      d < s.dimensions.size := by
  have hl := hs.sound.anchored.members _ (Array.getElem_mem hq)
  have hh := hs.sound.anchored.levels _ (Array.getElem_mem hl)
  have hd := hs.sound.anchored.hierarchies _ (Array.getElem_mem hh)
  refine ⟨_, _, _, ?_, ?_, ?_, hl, hh, hd⟩
  all_goals
    simp [dimensionOfMember?, hierarchyOfMember?, levelOf?, hierarchyOf?, dimensionOf?, hq, hl, hh]

theorem lt_of_mem_rootMembers (hs : s.Whole) {h : HierarchyId} {q : MemberId}
    (hq : q ∈ s.rootMembers h) : q < s.members.size :=
  Tables.lt_size_of_place? ((mem_rootMembers_iff hs.sound).1 hq)

end Whole

/-! ## Accessors with every kind of access -/

section Access

variable [Access m]

theorem isMeasuresM_eq {d : DimensionId} (hd : d < s.dimensions.size) :
    (s.isMeasuresM d : m Bool) = pure (s.isMeasures d) := by
  simp only [isMeasures, isMeasuresM, Array.getElem?_eq_getElem hd]
  rfl

theorem isAllLevelM_eq {l : LevelId} (hl : l < s.levels.size) :
    (s.isAllLevelM l : m Bool) = pure (s.isAllLevel l) := by
  simp only [isAllLevel, isAllLevelM, Array.getElem?_eq_getElem hl]
  rfl

theorem childrenM_eq {q : MemberId} (hq : q < s.members.size) :
    (s.childrenM q : m (List MemberId)) = pure (s.children q) := by
  simp only [children, childrenM, Array.getElem?_eq_getElem hq]
  rfl

namespace Whole

theorem hasAllM_eq (hs : s.Whole) {h : HierarchyId} (hh : h < s.hierarchies.size) :
    (s.hasAllM h : m Bool) = pure (s.hasAll h) := by
  have hhier := Array.getElem?_eq_getElem hh
  obtain ⟨root, hroot, hlt⟩ := hs.exists_root hhier
  simp only [hasAll, hasAllM, hhier, Access.follow_some, hroot]
  exact isAllLevelM_eq hlt

theorem isAllMemberM_eq (hs : s.Whole) {q : MemberId} (hq : q < s.members.size) :
    (s.isAllMemberM q : m Bool) = pure (s.isAllMember q) := by
  have hl := hs.sound.anchored.members _ (Array.getElem_mem hq)
  simp only [isAllMember, isAllMemberM, levelOf?, Array.getElem?_eq_getElem hq, Option.map_some,
    Access.follow_some]
  exact isAllLevelM_eq hl

theorem isMeasureM_eq (hs : s.Whole) {q : MemberId} (hq : q < s.members.size) :
    (s.isMeasureM q : m Bool) = pure (s.isMeasure q) := by
  obtain ⟨_, _, d, -, -, hdim, -, -, hd⟩ := hs.exists_dimensionOfMember? hq
  simp only [isMeasure, isMeasureM, hdim, Access.follow_some]
  exact isMeasuresM_eq hd

theorem rootMembersM_eq (hs : s.Whole) {h : HierarchyId} (hh : h < s.hierarchies.size) :
    (s.rootMembersM h : m (List MemberId)) = pure (s.rootMembers h) := by
  have hhier := Array.getElem?_eq_getElem hh
  obtain ⟨root, hroot, hlt⟩ := hs.exists_root hhier
  simp only [rootMembers, rootMembersM, hhier, Access.follow_some, hroot,
    Array.getElem?_eq_getElem hlt]
  rfl

end Whole

/-! ## Lookups with every kind of access -/

variable [LawfulMonad m]

theorem findCubeM?_eq (s : Schema) (name : String) :
    (s.findCubeM? name : m (Option CubeId)) = pure (s.findCube? name) := by
  rw [findCube?_eq, ← Access.find?_range_eq_findIdx?]
  exact Access.firstAmong?_of_lt _ fun c hc => List.mem_range.1 hc

theorem findDimensionM?_eq (s : Schema) (name : String) :
    (s.findDimensionM? name : m (Option DimensionId)) = pure (s.findDimension? name) := by
  rw [findDimension?_eq, ← Access.find?_range_eq_findIdx?]
  exact Access.firstAmong?_of_lt _ fun d hd => List.mem_range.1 hd

theorem pickNamedM?_eq {ids : List MemberId} (h : ∀ q ∈ ids, q < s.members.size) (name : String) :
    (s.pickNamedM? ids name : m (Option MemberId)) = pure (s.pickNamed? ids name) := by
  rw [pickNamed?_eq]
  exact Access.firstAmong?_of_lt _ h

namespace Whole

theorem findHierarchyM?_eq (hs : s.Whole) (name : String) :
    (s.findHierarchyM? name : m (Option HierarchyId)) = pure (s.findHierarchy? name) := by
  rw [findHierarchyM?, findDimensionM?_eq, pure_bind, findHierarchy?_eq]
  cases hd : s.findDimension? name with
  | none => rfl
  | some d =>
    obtain ⟨h, hfirst, -⟩ := hs.exists_firstHierarchy? (lt_of_findDimension? hd)
    simp only [hfirst]
    rfl

theorem cubeDimensionM?_eq (hs : s.Whole) {c : CubeId} (hc : c < s.cubes.size) (name : String) :
    (s.cubeDimensionM? c name : m (Option DimensionId)) =
      pure (s.cubes[c].dimensions.find? fun d => s.dimensions[d]?.any (·.name == name)) := by
  rw [cubeDimensionM?, Array.getElem?_eq_getElem hc]
  exact Access.firstAmong?_of_lt _ (hs.sound.cubes _ (Array.getElem_mem hc))

theorem skipM_eq (hs : s.Whole) {q : MemberId} (hq : q < s.members.size) :
    (s.skipM q : m (List MemberId)) = pure (if s.isAllMember q then s.children q else []) := by
  rw [skipM, hs.isAllMemberM_eq hq, pure_bind]
  split
  · exact childrenM_eq hq
  · rfl

theorem pickM?_eq (hs : s.Whole) {ids : List MemberId} (h : ∀ q ∈ ids, q < s.members.size)
    (name : String) : (s.pickM? ids name : m (Option MemberId)) = pure (s.pick? ids name) := by
  rw [pickM?, pickNamedM?_eq h, pure_bind, pick?_eq_or]
  cases s.pickNamed? ids name with
  | some q => rfl
  | none =>
    have hbelow : ids.mapM s.skipM = (_ : m (List (List MemberId))) :=
      mapM_eq_pure_map fun q hq => hs.skipM_eq (h q hq)
    have hrange : ∀ q ∈ (ids.filter s.isAllMember).flatMap s.children, q < s.members.size := by
      intro q hq
      obtain ⟨_, -, hq⟩ := List.mem_flatMap.1 hq
      exact hs.lt_of_mem_children hq
    simp only [hbelow, pure_bind, flatten_map_ite, pickNamedM?_eq hrange, Option.none_or]

theorem descendM?_eq (hs : s.Whole) {ids : List MemberId} {last : Option MemberId}
    (names : List String) (h : ∀ q ∈ ids, q < s.members.size) :
    (s.descendM? ids last names : m (Option MemberId)) = pure (s.descend? ids last names) := by
  induction names generalizing ids last with
  | nil => rfl
  | cons name rest ih =>
    rw [descendM?, hs.pickM?_eq h, pure_bind, descend?_cons]
    cases hp : s.pick? ids name with
    | none => rfl
    | some q =>
      simp only [childrenM_eq (lt_of_pick? hp), pure_bind]
      exact ih fun _ hbelow => hs.lt_of_mem_children hbelow

theorem memberBySegmentsM?_eq (hs : s.Whole) (segments : List String) :
    (s.memberBySegmentsM? segments : m (Option MemberId)) =
      pure (s.memberBySegments? segments) := by
  cases segments with
  | nil => rfl
  | cons first rest =>
    rw [memberBySegmentsM?, hs.findHierarchyM?_eq, pure_bind, memberBySegments?_cons]
    cases hh : s.findHierarchy? first with
    | none => rfl
    | some h =>
      simp only [hs.rootMembersM_eq (hs.lt_of_findHierarchy? hh), pure_bind]
      exact hs.descendM?_eq rest fun _ hq => hs.lt_of_mem_rootMembers hq

end Whole

end Access

/-! ## Lookups with faults -/

/-- The cube of a name. -/
def strictFindCube? (s : Schema) (name : String) : Option (Option CubeId) :=
  s.findCubeM? name

/-- The dimension of a name. -/
def strictFindDimension? (s : Schema) (name : String) : Option (Option DimensionId) :=
  s.findDimensionM? name

/-- The first hierarchy of the dimension of a name, or else the first hierarchy of that name. -/
def strictFindHierarchy? (s : Schema) (name : String) : Option (Option HierarchyId) :=
  s.findHierarchyM? name

/-- The member reached by the names on a path, of which the first is that of a hierarchy. -/
def strictMemberBySegments? (s : Schema) (segments : List String) : Option (Option MemberId) :=
  s.memberBySegmentsM? segments

end Schema

/-! ## Elements and their accessors -/

/-- An element of a schema. -/
inductive Handle where
  | cube (id : CubeId)
  | dimension (id : DimensionId)
  | hierarchy (id : HierarchyId)
  | level (id : LevelId)
  | member (id : MemberId)
deriving DecidableEq, Repr

/-- What can be asked of a cube. -/
inductive CubeAccessor where
  | name
  | text
  | dimensions
  | dimension (name : String)

/-- What can be asked of a dimension. -/
inductive DimensionAccessor where
  | name
  | uniqueName
  | measures
  | hierarchies
  | hierarchy

/-- What can be asked of a hierarchy. -/
inductive HierarchyAccessor where
  | name
  | uniqueName
  | dimension
  | levels
  | defaultMember
  | hasAll

/-- What can be asked of a level. -/
inductive LevelAccessor where
  | name
  | uniqueName
  | hierarchy
  | dimension
  | depth
  | all
  | members

/-- What can be asked of a member. -/
inductive MemberAccessor where
  | name
  | uniqueName
  | level
  | hierarchy
  | dimension
  | parent
  | children
  | all
  | measure

/-- What can be asked of an element. -/
def Handle.Accessor : Handle → Type
  | cube _ => CubeAccessor
  | dimension _ => DimensionAccessor
  | hierarchy _ => HierarchyAccessor
  | level _ => LevelAccessor
  | member _ => MemberAccessor

/-- The answer of an accessor. -/
inductive Answer where
  | text (value : String)
  | number (value : Nat)
  | flag (value : Bool)
  | one (element : Handle)
  | maybe (element : Option Handle)
  | many (elements : List Handle)
deriving DecidableEq, Repr

/-- The elements that an answer leads to. -/
def Answer.handles : Answer → List Handle
  | one h => [h]
  | maybe h => h.toList
  | many hs => hs
  | _ => []

namespace Schema

/-- What an accessor of a cube reads. -/
def readCube? (s : Schema) (c : CubeId) : CubeAccessor → Option Answer
  | .name => s.cubes[c]?.map fun cube => .text cube.name
  | .text => s.cubes[c]?.map fun cube => .text (bracket cube.name)
  | .dimensions => s.cubes[c]?.map fun cube => .many (cube.dimensions.map .dimension)
  | .dimension name => (fun d => .maybe (d.map .dimension)) <$> s.cubeDimensionM? c name

/-- What an accessor of a dimension reads. -/
def readDimension? (s : Schema) (d : DimensionId) : DimensionAccessor → Option Answer
  | .name => s.dimensions[d]?.map fun dim => .text dim.name
  | .uniqueName => s.dimensions[d]?.map fun dim => .text dim.uniqueName
  | .measures => .flag <$> s.isMeasuresM d
  | .hierarchies => s.dimensions[d]?.map fun dim => .many (dim.hierarchies.map .hierarchy)
  | .hierarchy => (s.firstHierarchy? d).map (.one <| .hierarchy ·)

/-- What an accessor of a hierarchy reads. -/
def readHierarchy? (s : Schema) (h : HierarchyId) : HierarchyAccessor → Option Answer
  | .name => s.hierarchies[h]?.map fun hier => .text hier.name
  | .uniqueName => s.hierarchies[h]?.map fun hier => .text hier.uniqueName
  | .dimension => (s.dimensionOf? h).map (.one <| .dimension ·)
  | .levels => s.hierarchies[h]?.map fun hier => .many (hier.levels.map .level)
  | .defaultMember => s.hierarchies[h]?.map fun hier => .maybe (hier.defaultMember.map .member)
  | .hasAll => .flag <$> s.hasAllM h

/-- What an accessor of a level reads. -/
def readLevel? (s : Schema) (l : LevelId) : LevelAccessor → Option Answer
  | .name => s.levels[l]?.map fun lvl => .text lvl.name
  | .uniqueName => s.levels[l]?.map fun lvl => .text lvl.uniqueName
  | .hierarchy => (s.hierarchyOf? l).map (.one <| .hierarchy ·)
  | .dimension => (s.dimensionOfLevel? l).map (.one <| .dimension ·)
  | .depth => s.levels[l]?.map fun lvl => .number lvl.depth
  | .all => .flag <$> s.isAllLevelM l
  | .members => s.levels[l]?.map fun lvl => .many (lvl.members.map .member)

/-- What an accessor of a member reads. -/
def readMember? (s : Schema) (q : MemberId) : MemberAccessor → Option Answer
  | .name => s.members[q]?.map fun mem => .text mem.name
  | .uniqueName => s.members[q]?.map fun mem => .text mem.uniqueName
  | .level => (s.levelOf? q).map (.one <| .level ·)
  | .hierarchy => (s.hierarchyOfMember? q).map (.one <| .hierarchy ·)
  | .dimension => (s.dimensionOfMember? q).map (.one <| .dimension ·)
  | .parent => s.members[q]?.map fun mem => .maybe (mem.parent.map .member)
  | .children => (fun below => .many (below.map .member)) <$> s.childrenM q
  | .all => .flag <$> s.isAllMemberM q
  | .measure => .flag <$> s.isMeasureM q

/-- What an accessor of an element reads; nothing if it leaves a table on the way. -/
def read? (s : Schema) : (h : Handle) → h.Accessor → Option Answer
  | .cube c, a => s.readCube? c a
  | .dimension d, a => s.readDimension? d a
  | .hierarchy h, a => s.readHierarchy? h a
  | .level l, a => s.readLevel? l a
  | .member m, a => s.readMember? m a

/-- An element is in its table. -/
def InRange (s : Schema) : Handle → Prop
  | .cube c => c < s.cubes.size
  | .dimension d => d < s.dimensions.size
  | .hierarchy h => h < s.hierarchies.size
  | .level l => l < s.levels.size
  | .member m => m < s.members.size

/-- The elements that can be reached: by id, by name, by the names on a path, and from there by
accessors. -/
inductive Obtained (s : Schema) : Handle → Prop where
  | byId {h : Handle} (inRange : s.InRange h) : Obtained s h
  | cubeNamed {name : String} {c : CubeId} (found : s.findCube? name = some c) :
      Obtained s (.cube c)
  | dimensionNamed {name : String} {d : DimensionId} (found : s.findDimension? name = some d) :
      Obtained s (.dimension d)
  | hierarchyNamed {name : String} {h : HierarchyId} (found : s.findHierarchy? name = some h) :
      Obtained s (.hierarchy h)
  | memberNamed {uniqueName : String} {m : MemberId}
      (found : s.memberByUniqueName? uniqueName = some m) : Obtained s (.member m)
  | memberAt {segments : List String} {m : MemberId}
      (found : s.memberBySegments? segments = some m) : Obtained s (.member m)
  | next {h h' : Handle} {a : h.Accessor} {answer : Answer} (reached : Obtained s h)
      (read : s.read? h a = some answer) (listed : h' ∈ answer.handles) : Obtained s h'

variable {s : Schema}

/-! ## Accessors lead from element to element -/

/-- A reading has an answer, and that leads to elements in range. -/
def Leads (s : Schema) (o : Option Answer) : Prop :=
  ∃ answer, o = some answer ∧ ∀ h ∈ answer.handles, s.InRange h

namespace Leads

theorem nowhere {answer : Answer} (h : answer.handles = []) : s.Leads (some answer) := by
  refine ⟨answer, rfl, fun e he => ?_⟩
  rw [h] at he
  cases he

theorem one {h : Handle} (hh : s.InRange h) : s.Leads (some (.one h)) :=
  ⟨_, rfl, fun _ he => List.mem_singleton.1 he ▸ hh⟩

theorem maybe {o : Option Nat} {f : Nat → Handle} (h : ∀ i, o = some i → s.InRange (f i)) :
    s.Leads (some (.maybe (o.map f))) := by
  refine ⟨_, rfl, fun e he => ?_⟩
  obtain ⟨i, hi, rfl⟩ := Option.map_eq_some_iff.1 (Option.mem_toList.1 he)
  exact h i hi

theorem many {ids : List Nat} {f : Nat → Handle} (h : ∀ i ∈ ids, s.InRange (f i)) :
    s.Leads (some (.many (ids.map f))) := by
  refine ⟨_, rfl, fun e he => ?_⟩
  obtain ⟨i, hi, rfl⟩ := List.mem_map.1 he
  exact h i hi

end Leads

namespace Whole

theorem readCube?_ok (hs : s.Whole) {c : CubeId} (hc : c < s.cubes.size) (a : CubeAccessor) :
    s.Leads (s.readCube? c a) := by
  have hcube := Array.getElem?_eq_getElem hc
  have hdims : ∀ d ∈ s.cubes[c].dimensions, d < s.dimensions.size :=
    hs.sound.cubes _ (Array.getElem_mem hc)
  cases a with
  | name | text =>
    rw [readCube?, hcube]
    exact .nowhere rfl
  | dimensions =>
    rw [readCube?, hcube]
    exact .many hdims
  | dimension name =>
    rw [readCube?, hs.cubeDimensionM?_eq hc]
    exact .maybe fun d hd => hdims d (List.mem_of_find?_eq_some hd)

theorem readDimension?_ok (hs : s.Whole) {d : DimensionId} (hd : d < s.dimensions.size)
    (a : DimensionAccessor) : s.Leads (s.readDimension? d a) := by
  have hdim := Array.getElem?_eq_getElem hd
  cases a with
  | name | uniqueName =>
    rw [readDimension?, hdim]
    exact .nowhere rfl
  | measures =>
    rw [readDimension?, isMeasuresM_eq hd]
    exact .nowhere rfl
  | hierarchies =>
    rw [readDimension?, hdim]
    exact .many fun h hh => (hs.sound.hierarchies d _ hdim).lt_size hh
  | hierarchy =>
    obtain ⟨first, hfirst, hlt⟩ := hs.exists_firstHierarchy? hd
    rw [readDimension?, hfirst]
    exact .one hlt

theorem readHierarchy?_ok (hs : s.Whole) {h : HierarchyId} (hh : h < s.hierarchies.size)
    (a : HierarchyAccessor) : s.Leads (s.readHierarchy? h a) := by
  have hhier := Array.getElem?_eq_getElem hh
  cases a with
  | name | uniqueName =>
    rw [readHierarchy?, hhier]
    exact .nowhere rfl
  | dimension =>
    rw [readHierarchy?, dimensionOf?, hhier]
    exact .one (hs.sound.anchored.hierarchies _ (Array.getElem_mem hh))
  | levels =>
    rw [readHierarchy?, hhier]
    exact .many fun l hl => (hs.sound.levels h _ hhier).lt_size hl
  | defaultMember =>
    rw [readHierarchy?, hhier]
    refine .maybe fun q hq => ?_
    obtain ⟨k, hplace⟩ := hs.sound.defaults h _ hhier q hq
    exact Tables.lt_size_of_place? hplace
  | hasAll =>
    rw [readHierarchy?, hs.hasAllM_eq hh]
    exact .nowhere rfl

theorem readLevel?_ok (hs : s.Whole) {l : LevelId} (hl : l < s.levels.size) (a : LevelAccessor) :
    s.Leads (s.readLevel? l a) := by
  have hlevel := Array.getElem?_eq_getElem hl
  have hlt := hs.sound.anchored.levels _ (Array.getElem_mem hl)
  cases a with
  | name | uniqueName | depth =>
    rw [readLevel?, hlevel]
    exact .nowhere rfl
  | hierarchy =>
    rw [readLevel?, hierarchyOf?, hlevel]
    exact .one hlt
  | dimension =>
    rw [readLevel?, dimensionOfLevel?, hierarchyOf?, hlevel, Option.map_some, Option.bind_some,
      dimensionOf?, Array.getElem?_eq_getElem hlt]
    exact .one (hs.sound.anchored.hierarchies _ (Array.getElem_mem hlt))
  | all =>
    rw [readLevel?, isAllLevelM_eq hl]
    exact .nowhere rfl
  | members =>
    rw [readLevel?, hlevel]
    exact .many fun q hq => (hs.sound.members l _ hlevel).lt_size hq

theorem readMember?_ok (hs : s.Whole) {q : MemberId} (hq : q < s.members.size)
    (a : MemberAccessor) : s.Leads (s.readMember? q a) := by
  have hmem := Array.getElem?_eq_getElem hq
  obtain ⟨l, h, d, hlevel, hhier, hdim, hl, hh, hd⟩ := hs.exists_dimensionOfMember? hq
  cases a with
  | name | uniqueName =>
    rw [readMember?, hmem]
    exact .nowhere rfl
  | level =>
    rw [readMember?, hlevel]
    exact .one hl
  | hierarchy =>
    rw [readMember?, hhier]
    exact .one hh
  | dimension =>
    rw [readMember?, hdim]
    exact .one hd
  | parent =>
    rw [readMember?, hmem]
    exact .maybe fun p hp => hs.sound.parent_lt (Array.getElem_mem hq) hp
  | children =>
    rw [readMember?, childrenM_eq hq]
    exact .many fun _ hbelow => hs.lt_of_mem_children hbelow
  | all =>
    rw [readMember?, hs.isAllMemberM_eq hq]
    exact .nowhere rfl
  | measure =>
    rw [readMember?, hs.isMeasureM_eq hq]
    exact .nowhere rfl

/-- In range, every accessor has an answer, and leads to what is in range. -/
theorem read?_ok (hs : s.Whole) {h : Handle} (hh : s.InRange h) (a : h.Accessor) :
    s.Leads (s.read? h a) := by
  cases h with
  | cube c => exact hs.readCube?_ok hh a
  | dimension d => exact hs.readDimension?_ok hh a
  | hierarchy q => exact hs.readHierarchy?_ok hh a
  | level l => exact hs.readLevel?_ok hh a
  | member m => exact hs.readMember?_ok hh a

end Whole

/-- Whatever can be reached is in range. -/
theorem Obtained.inRange (hs : s.Whole) {h : Handle} (ho : s.Obtained h) : s.InRange h := by
  induction ho with
  | byId inRange => exact inRange
  | cubeNamed found =>
    rw [findCube?_eq] at found
    exact lt_size_of_findIdx? found
  | dimensionNamed found => exact lt_of_findDimension? found
  | hierarchyNamed found => exact hs.lt_of_findHierarchy? found
  | @memberNamed uniqueName m found =>
    obtain ⟨before, after, hindex, -⟩ := List.lookup_eq_some_iff.1 found
    have hmem : (uniqueName, m) ∈ s.memberIndex := by simp [hindex]
    exact hs.sound.memberIndex _ hmem
  | memberAt found => exact lt_of_memberBySegments? found
  | next _ read listed ih =>
    obtain ⟨answer, hanswer, hrange⟩ := hs.read?_ok ih _
    cases read.symm.trans hanswer
    exact hrange _ listed

/-- What accessors read agrees with the lookups of the schema that answer the same question. -/
def ReadsAsLookedUp (s : Schema) : Handle → Prop
  | .cube c => ∀ name, s.readCube? c (.dimension name) =
      some (.maybe ((s.cubeDimension? c name).map .dimension))
  | .dimension d =>
      s.readDimension? d .hierarchy = (s.firstHierarchy? d).map (.one <| .hierarchy ·) ∧
      s.readDimension? d .measures = some (.flag (s.isMeasures d))
  | .hierarchy h =>
      s.readHierarchy? h .dimension = (s.dimensionOf? h).map (.one <| .dimension ·) ∧
      s.readHierarchy? h .hasAll = some (.flag (s.hasAll h))
  | .level l =>
      s.readLevel? l .hierarchy = (s.hierarchyOf? l).map (.one <| .hierarchy ·) ∧
      s.readLevel? l .dimension = (s.dimensionOfLevel? l).map (.one <| .dimension ·) ∧
      s.readLevel? l .all = some (.flag (s.isAllLevel l))
  | .member m =>
      s.readMember? m .level = (s.levelOf? m).map (.one <| .level ·) ∧
      s.readMember? m .hierarchy = (s.hierarchyOfMember? m).map (.one <| .hierarchy ·) ∧
      s.readMember? m .dimension = (s.dimensionOfMember? m).map (.one <| .dimension ·) ∧
      s.readMember? m .children = some (.many ((s.children m).map .member)) ∧
      s.readMember? m .all = some (.flag (s.isAllMember m)) ∧
      s.readMember? m .measure = some (.flag (s.isMeasure m))

theorem Whole.readsAsLookedUp (hs : s.Whole) {h : Handle} (hh : s.InRange h) :
    s.ReadsAsLookedUp h := by
  cases h with
  | cube c =>
    intro name
    have hfound : s.cubeDimension? c name = _ := hs.cubeDimensionM?_eq (m := Id) hh name
    rw [readCube?, hs.cubeDimensionM?_eq hh, hfound]
    rfl
  | dimension d =>
    refine ⟨rfl, ?_⟩
    rw [readDimension?, isMeasuresM_eq hh]
    rfl
  | hierarchy q =>
    refine ⟨rfl, ?_⟩
    rw [readHierarchy?, hs.hasAllM_eq hh]
    rfl
  | level l =>
    refine ⟨rfl, rfl, ?_⟩
    rw [readLevel?, isAllLevelM_eq hh]
    rfl
  | member q =>
    refine ⟨rfl, rfl, rfl, ?_, ?_, ?_⟩
    · rw [readMember?, childrenM_eq hh]
      rfl
    · rw [readMember?, hs.isAllMemberM_eq hh]
      rfl
    · rw [readMember?, hs.isMeasureM_eq hh]
      rfl

/-! ## Ancestors -/

/-- The member that is some steps above a member. -/
def ancestor? (s : Schema) : Nat → MemberId → Option MemberId
  | 0, m => some m
  | n + 1, m => (s.members[m]?.bind (·.parent)).bind (s.ancestor? n)

/-- Each step leads one level up, as far as the first level. -/
theorem exists_ancestor (hs : s.Sound) {n k : Nat} {m : MemberId} {h : HierarchyId}
    (hplace : s.place? m = some (h, k)) (hn : n ≤ k) :
    ∃ a, s.ancestor? n m = some a ∧ s.place? a = some (h, k - n) := by
  induction n generalizing m k with
  | zero => exact ⟨m, rfl, hplace⟩
  | succ n ih =>
    have hmem := Array.getElem?_eq_getElem (Tables.lt_size_of_place? hplace)
    obtain ⟨h', k', hplace', ⟨hzero, -⟩ | ⟨p, j, hp, -, hk, habove⟩⟩ := hs.parents m _ hmem
    · cases hplace.symm.trans hplace'
      omega
    · cases hplace.symm.trans hplace'
      obtain ⟨a, ha, hpa⟩ := ih habove (by omega)
      refine ⟨a, ?_, ?_⟩
      · rw [ancestor?, hmem, Option.bind_some, hp, Option.bind_some, ha]
      · rw [hpa, hk]
        congr 2
        omega

/-- No step leads beyond the first level. -/
theorem ancestor?_eq_none (hs : s.Sound) {n k : Nat} {m : MemberId} {h : HierarchyId}
    (hplace : s.place? m = some (h, k)) (hn : k < n) : s.ancestor? n m = none := by
  induction n generalizing m k with
  | zero => omega
  | succ n ih =>
    have hmem := Array.getElem?_eq_getElem (Tables.lt_size_of_place? hplace)
    rw [ancestor?, hmem, Option.bind_some]
    obtain ⟨h', k', hplace', ⟨-, hp⟩ | ⟨p, j, hp, -, hk, habove⟩⟩ := hs.parents m _ hmem
    · rw [hp, Option.bind_none]
    · cases hplace.symm.trans hplace'
      rw [hp, Option.bind_some]
      exact ih habove (by omega)

/-- From a member, as many steps lead up as its level is deep, and the last one to a member without
parent. -/
theorem Whole.exists_top (hs : s.Whole) {m : MemberId} (hm : m < s.members.size) :
    ∃ l k top, s.readMember? m .level = some (.one (.level l)) ∧
      s.readLevel? l .depth = some (.number k) ∧ s.ancestor? k m = some top ∧
      s.readMember? top .parent = some (.maybe none) ∧
      ∀ n, (s.ancestor? n m).isSome ↔ n ≤ k := by
  have hmem := Array.getElem?_eq_getElem hm
  obtain ⟨h, k, hplace, -⟩ := hs.sound.parents m _ hmem
  have hrank : s.rank? s.members[m].level = some (h, k) := by
    rwa [Tables.place?, hmem, Option.map_some, Option.bind_some] at hplace
  obtain ⟨lvl, hlvl, hpair⟩ := Option.map_eq_some_iff.1 hrank
  obtain ⟨-, rfl⟩ := Prod.mk.inj hpair
  obtain ⟨top, htop, hfirst⟩ := exists_ancestor hs.sound hplace (Nat.le_refl _)
  rw [Nat.sub_self] at hfirst
  obtain ⟨mem, hmemtop, hnone⟩ := hs.sound.parentless_of_place? hfirst
  refine ⟨s.members[m].level, lvl.depth, top, ?_, ?_, htop, ?_, fun n => ?_⟩
  · rw [readMember?, levelOf?, hmem]
    rfl
  · rw [readLevel?, hlvl]
    rfl
  · simp [readMember?, hmemtop, hnone]
  · constructor
    · intro hsome
      refine Nat.le_of_not_lt fun hn => ?_
      rw [ancestor?_eq_none hs.sound hplace hn] at hsome
      cases hsome
    · intro hn
      obtain ⟨a, ha, -⟩ := exists_ancestor hs.sound hplace hn
      rw [ha]
      rfl

end Schema

/-- Whatever commands are given, drafting looks up no index outside of a table, and neither does
finishing the schema.  In the finished schema, lookups by name and by the names on a path stay in
the tables; everything that they and accessors lead to is in its table, and has an answer to every
accessor.  Following parents from a member ends after as many steps as its level is deep. -/
theorem Tables.navigation_stays_inside (name : String) (commands : List Command) :
    let t := (Tables.empty name).after commands
    (∀ c, (Strict.execute c).on t = some (c.run t)) ∧
    t.strictBuild? = some t.build ∧
    ∀ s, t.build = .ok s →
      (∀ n, s.strictFindCube? n = some (s.findCube? n) ∧
        s.strictFindDimension? n = some (s.findDimension? n) ∧
        s.strictFindHierarchy? n = some (s.findHierarchy? n)) ∧
      (∀ segments, s.strictMemberBySegments? segments = some (s.memberBySegments? segments)) ∧
      (∀ h, s.Obtained h →
        s.InRange h ∧ (∀ a, ∃ answer, s.read? h a = some answer) ∧ s.ReadsAsLookedUp h) ∧
      ∀ m, s.Obtained (.member m) →
        ∃ l k top, s.readMember? m .level = some (.one (.level l)) ∧
          s.readLevel? l .depth = some (.number k) ∧ s.ancestor? k m = some top ∧
          s.readMember? top .parent = some (.maybe none) ∧
          ∀ n, (s.ancestor? n m).isSome ↔ n ≤ k := by
  intro t
  have ht : t.Sound := .after name commands
  refine ⟨ht.meets_execute, ht.buildM_eq, fun s hb => ?_⟩
  have hs : s.Whole := .of_build ht hb
  refine ⟨fun n => ⟨s.findCubeM?_eq n, s.findDimensionM?_eq n, hs.findHierarchyM?_eq n⟩,
    hs.memberBySegmentsM?_eq, fun h ho => ?_,
    fun m ho => hs.exists_top (ho.inRange hs)⟩
  have hrange := ho.inRange hs
  refine ⟨hrange, fun a => ?_, hs.readsAsLookedUp hrange⟩
  obtain ⟨answer, hanswer, -⟩ := hs.read?_ok hrange a
  exact ⟨answer, hanswer⟩

/-- A city is found below its country.  Two steps lead up from there to the all member, and its
hierarchy leads to the dimension. -/
theorem Tables.navigation_stays_inside_of_italianCity :
    let s := Schema.italianCity
    let t := (Tables.empty "Shop").after [.dimension "Store", .hierarchy 0 "Store",
      .allLevel 0 "All", .level 0 "Country", .level 0 "City", .member 1 "Italy" (some 0),
      .member 2 "Rome" (some 1)]
    t.build = .ok s ∧ t.strictBuild? = some (.ok s) ∧
      s.strictMemberBySegments? ["Store", "Italy", "Rome"] = some (some 2) ∧
      s.Obtained (.member 2) ∧ s.Obtained (.member 1) ∧ s.Obtained (.dimension 0) ∧
      (∀ a, ∃ answer, s.read? (.dimension 0) a = some answer) ∧
      (∃ top, s.ancestor? 2 2 = some top ∧ s.readMember? top .parent = some (.maybe none)) ∧
      ∀ n, (s.ancestor? n 2).isSome ↔ n ≤ 2 := by
  intro s t
  have hb : t.build = .ok s := build_of_toOption (by decide +kernel)
  have hfound : s.memberBySegments? ["Store", "Italy", "Rome"] = some 2 := by decide +kernel
  have hparent : s.read? (.member 2) MemberAccessor.parent = some (.maybe (some (.member 1))) := rfl
  have hdim : s.read? (.member 1) MemberAccessor.dimension = some (.one (.dimension 0)) := rfl
  have hcity : s.Obtained (.member 2) := .memberAt hfound
  have hcountry : s.Obtained (.member 1) := .next hcity hparent List.mem_cons_self
  have hstore : s.Obtained (.dimension 0) := .next hcountry hdim List.mem_cons_self
  obtain ⟨-, hbuild, hnav⟩ := navigation_stays_inside "Shop" [.dimension "Store",
    .hierarchy 0 "Store", .allLevel 0 "All", .level 0 "Country", .level 0 "City",
    .member 1 "Italy" (some 0), .member 2 "Rome" (some 1)]
  obtain ⟨-, hsegments, hreads, hclimb⟩ := hnav s hb
  obtain ⟨-, hanswers, -⟩ := hreads _ hstore
  obtain ⟨l, k, top, hlevel, hdepth, htop, hnone, hexact⟩ := hclimb 2 hcity
  cases hlevel
  cases hdepth
  refine ⟨hb, ?_, ?_, hcity, hcountry, hstore, hanswers, ⟨top, htop, hnone⟩, hexact⟩
  · rw [hbuild, hb]
  · rw [hsegments, hfound]

end Hypercube
