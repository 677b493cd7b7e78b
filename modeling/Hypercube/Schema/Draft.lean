import Hypercube.Schema.Access
import Hypercube.Schema.Basic
import Hypercube.Schema.Error

/-!
# Drafting a schema

A schema is drafted by commands, each of which adds an element, or names a default member.  A
command that fails keeps whatever it had added before it failed, and later commands go on from
there.  The ids given to a command are checked; other indices are looked up as they are.

* `DraftT`, `Draft` — computations on the tables that may fail without losing them, with any kind of
  access to the tables and with the one that has no faults.
* `Command.execute`, `Command.run` — the effect of one command.
* `Tables.after` — the tables after any sequence of commands, failing ones included.
-/

set_option autoImplicit false

namespace Hypercube

/-- Name of the level of an all member. -/
def allLevelName : String := "(All)"

/-- Name of the dimension of measures, and of its hierarchy. -/
def measuresName : String := "Measures"

/-- Name of the level of measures. -/
def measuresLevelName : String := "MeasuresLevel"

/-- A computation on the tables that can fail; the tables survive a failure. -/
abbrev DraftT (m : Type → Type) := ExceptT SchemaError (StateT Tables m)

/-- A computation on the tables that has no faults. -/
abbrev Draft := DraftT Id

namespace Draft

section Run

variable {α β : Type}

/-- The answer of a computation on given tables, and the tables after it. -/
def on (x : Draft α) (t : Tables) : Except SchemaError α × Tables :=
  (ExceptT.run x).run t

@[simp] theorem on_pure (a : α) (t : Tables) : (pure a : Draft α).on t = (.ok a, t) := rfl

@[simp] theorem on_throw (e : SchemaError) (t : Tables) :
    (throw e : Draft α).on t = (.error e, t) := rfl

@[simp] theorem on_get (t : Tables) : (get : Draft Tables).on t = (.ok t, t) := rfl

@[simp] theorem on_set (s t : Tables) : (set s : Draft PUnit).on t = (.ok ⟨⟩, s) := rfl

/-- A computation goes on where the one before it succeeded, and stops where it failed. -/
theorem on_bind (x : Draft α) (f : α → Draft β) (t : Tables) :
    (x >>= f).on t =
      match x.on t with
      | (.ok a, t') => (f a).on t'
      | (.error e, t') => (.error e, t') := by
  unfold on
  rw [ExceptT.run_bind, StateT.run_bind]
  rcases (ExceptT.run x).run t with ⟨r, t'⟩
  cases r <;> rfl

@[simp] theorem on_map (f : α → β) (x : Draft α) (t : Tables) :
    (f <$> x).on t = ((x.on t).1.map f, (x.on t).2) := by
  show (x >>= fun a => pure (f a)).on t = _
  rw [on_bind]
  rcases x.on t with ⟨r, t'⟩
  cases r <;> rfl

@[simp] theorem on_ite (p : Prop) [Decidable p] (x y : Draft α) (t : Tables) :
    (if p then x else y).on t = if p then x.on t else y.on t := by
  split <;> rfl

end Run

variable {m : Type → Type} [Monad m] [Access m]

open Access

/-! ## Looking up elements -/

/-- The entry of a table with an id that was given. -/
def known {α : Type} (kind : Kind) (table : Tables → Array α) (id : Nat) : DraftT m α := do
  match (table (← get))[id]? with
  | some a => pure a
  | none => throw (.unknownId kind id)

/-- The dimension with an id. -/
def dimension (id : DimensionId) : DraftT m Dimension :=
  known .dimension (·.dimensions) id

/-- The hierarchy with an id. -/
def hierarchy (id : HierarchyId) : DraftT m Hierarchy :=
  known .hierarchy (·.hierarchies) id

/-- The level with an id. -/
def level (id : LevelId) : DraftT m Level :=
  known .level (·.levels) id

/-- The member with an id. -/
def member (id : MemberId) : DraftT m Member :=
  known .member (·.members) id

/-! ## Adding one element -/

/-- Add a dimension.  Dimensions have different names. -/
def pushDimension (name : String) (measures : Bool) : DraftT m DimensionId := do
  let t ← get
  if t.dimensions.any (·.name == name) then
    throw (.duplicate .dimension name t.name)
  else do
    set { t with dimensions := t.dimensions.push ⟨name, bracket name, [], measures⟩ }
    return t.dimensions.size

/-- The unique name of a hierarchy: that of its dimension if it has its name, else both names. -/
def hierarchyUniqueName (dimension : Dimension) (name : String) : String :=
  if name = dimension.name then dimension.uniqueName
  else bracket (dimension.name ++ "." ++ name)

/-- Add a hierarchy to a dimension.  Its hierarchies have different names. -/
def pushHierarchy (id : DimensionId) (name : String) : DraftT m HierarchyId := do
  let dim ← dimension id
  let t ← get
  if ← anyEntry t.hierarchies (·.name == name) dim.hierarchies then
    throw (.duplicate .hierarchy name dim.uniqueName)
  else do
    let new := t.hierarchies.size
    let dimensions ← change t.dimensions id fun d =>
      { d with hierarchies := d.hierarchies ++ [new] }
    set { t with
      hierarchies := t.hierarchies.push ⟨name, hierarchyUniqueName dim name, id, [], none⟩
      dimensions }
    return new

/-- Add a level below the levels of a hierarchy.  Its levels have different names. -/
def pushLevel (id : HierarchyId) (name : String) (all : Bool) : DraftT m LevelId := do
  let hier ← hierarchy id
  let t ← get
  if ← anyEntry t.levels (·.name == name) hier.levels then
    throw (.duplicate .level name hier.uniqueName)
  else do
    let new := t.levels.size
    let hierarchies ← change t.hierarchies id fun h => { h with levels := h.levels ++ [new] }
    set { t with
      levels := t.levels.push ⟨name, qualify hier.uniqueName name, id, hier.levels.length, all, []⟩
      hierarchies }
    return new

/-- The scope in which a member of a level is named: its parent's unique name, or that of the
hierarchy for a member without parent and for a child of an all member.  Only members of the first
level have no parent, and a parent is on the level just above. -/
def memberScope (level : Level) (name : String) (parent : Option MemberId) : DraftT m String := do
  let t ← get
  let hier ← entry t.hierarchies[level.hierarchy]?
    (throw (.unknownId .hierarchy level.hierarchy))
  match parent with
  | none =>
    if level.depth = 0 then pure hier.uniqueName
    else throw (.missingParent name level.uniqueName)
  | some id => do
    let above ← member id
    let levelAbove ← entry t.levels[above.level]? (throw (.unknownId .level above.level))
    if levelAbove.hierarchy ≠ level.hierarchy ∨ levelAbove.depth + 1 ≠ level.depth then
      throw (.invalidParent name above.uniqueName)
    else if levelAbove.all then pure hier.uniqueName
    else pure above.uniqueName

/-- Add a child to the list of its parent, if it has one. -/
def pushChild (members : Array Member) (parent : Option MemberId) (child : MemberId) :
    DraftT m (Array Member) :=
  match parent with
  | none => pure members
  | some id => change members id fun m => { m with children := m.children ++ [child] }

/-- Add a member to a level.  Members have different unique names. -/
def pushMember (id : LevelId) (name : String) (parent : Option MemberId) : DraftT m MemberId := do
  let lvl ← level id
  let scope ← memberScope lvl name parent
  let t ← get
  let uniqueName := qualify scope name
  if (t.memberIndex.lookup uniqueName).isSome then
    throw (.duplicate .member name lvl.uniqueName)
  else do
    let new := t.members.size
    let levels ← change t.levels id fun l => { l with members := l.members ++ [new] }
    let members ← pushChild (t.members.push ⟨name, uniqueName, id, parent, []⟩) parent new
    set { t with
      memberIndex := t.memberIndex ++ [(uniqueName, new)]
      members
      levels }
    return new

/-! ## Commands -/

/-- Add the dimension of measures with its only hierarchy and level. -/
def addMeasures : DraftT m (DimensionId × LevelId) := do
  let d ← pushDimension measuresName true
  let h ← pushHierarchy d measuresName
  let l ← pushLevel h measuresLevelName false
  return (d, l)

/-- Open a hierarchy with a level that holds only an all member. -/
def addAllLevel (id : HierarchyId) (allMember : String) : DraftT m (LevelId × MemberId) := do
  let hier ← hierarchy id
  if hier.levels.isEmpty then do
    let l ← pushLevel id allLevelName true
    let m ← pushMember l allMember none
    return (l, m)
  else throw (.misplacedAllLevel hier.uniqueName)

/-- Add a member to a level other than an all level. -/
def addMember (id : LevelId) (name : String) (parent : Option MemberId) : DraftT m MemberId := do
  let lvl ← level id
  if lvl.all then throw (.duplicate .allMember name lvl.uniqueName)
  else pushMember id name parent

/-- Make a member of a hierarchy its default member. -/
def setDefaultMember (id : HierarchyId) (chosen : MemberId) : DraftT m Unit := do
  let hier ← hierarchy id
  let mem ← member chosen
  let t ← get
  let lvl ← entry t.levels[mem.level]? (throw (.unknownId .level mem.level))
  if lvl.hierarchy ≠ id then do
    -- the name for the message is looked up once more
    let hier ← entry t.hierarchies[id]? (pure hier)
    throw (.foreignDefaultMember mem.uniqueName hier.uniqueName)
  else do
    let hierarchies ← change t.hierarchies id fun h => { h with defaultMember := some chosen }
    set { t with hierarchies }

/-- Add a cube spanned by dimensions.  Cubes have different names. -/
def addCube (name : String) (dimensions : List DimensionId) : DraftT m CubeId := do
  let t ← get
  if t.cubes.any (·.name == name) then
    throw (.duplicate .cube name t.name)
  else
    match dimensions.find? (fun d => t.dimensions.size ≤ d) with
    | some d => throw (.unknownId .dimension d)
    | none => do
      set { t with cubes := t.cubes.push ⟨name, dimensions⟩ }
      return t.cubes.size

end Draft

/-- One step of drafting a schema. -/
inductive Command where
  | dimension (name : String)
  | measures
  | hierarchy (dimension : DimensionId) (name : String)
  | allLevel (hierarchy : HierarchyId) (member : String)
  | level (hierarchy : HierarchyId) (name : String)
  | member (level : LevelId) (name : String) (parent : Option MemberId)
  | defaultMember (hierarchy : HierarchyId) (member : MemberId)
  | cube (name : String) (dimensions : List DimensionId)
deriving DecidableEq, Repr

/-- What a command answers: the ids of what it added. -/
inductive Reply where
  | one (id : Nat)
  | two (outer inner : Nat)
  | done
deriving DecidableEq, Repr

namespace Command

/-- The effect of a command. -/
def execute {m : Type → Type} [Monad m] [Access m] : Command → DraftT m Reply
  | dimension name => .one <$> Draft.pushDimension name false
  | measures => (fun (d, l) => .two d l) <$> Draft.addMeasures
  | hierarchy d name => .one <$> Draft.pushHierarchy d name
  | allLevel h name => (fun (l, m) => .two l m) <$> Draft.addAllLevel h name
  | level h name => .one <$> Draft.pushLevel h name false
  | member l name parent => .one <$> Draft.addMember l name parent
  | defaultMember h m => (fun _ => .done) <$> Draft.setDefaultMember h m
  | cube name dims => .one <$> Draft.addCube name dims

/-- Answer of a command on given tables, and the tables after it. -/
def run (c : Command) (t : Tables) : Except SchemaError Reply × Tables :=
  Draft.on c.execute t

end Command

/-- The tables after a sequence of commands, whether they succeed or fail. -/
def Tables.after (t : Tables) (commands : List Command) : Tables :=
  commands.foldl (fun t c => (c.run t).2) t

end Hypercube
