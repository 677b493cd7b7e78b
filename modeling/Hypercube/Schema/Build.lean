import Hypercube.Schema.Draft

/-!
# Finishing a schema

Drafted tables make a schema when every dimension has a hierarchy and every hierarchy has a level.
A hierarchy for which no default member was named gets the first member of its first level.

* `Tables.buildM` — the finished schema, with any kind of access to the tables.
* `Tables.build` — the finished schema, without faults.
-/

set_option autoImplicit false

namespace Hypercube

namespace Tables

section Access

variable {m : Type → Type} [Monad m] [Access m]

open Access

/-- The first member of the first level of a hierarchy. -/
def firstMemberM? (t : Tables) (h : Hierarchy) : m (Option MemberId) :=
  follow h.levels.head? (pure none) fun root =>
    follow t.levels[root]? (pure none) fun level => pure level.members.head?

/-- The default member that was named for a hierarchy, or else its first member. -/
def chosenM? (t : Tables) (h : Hierarchy) : m (Option MemberId) :=
  match h.defaultMember with
  | some chosen => return some chosen
  | none => t.firstMemberM? h

/-- A hierarchy with its default member filled in. -/
def withDefaultM (t : Tables) (h : Hierarchy) : m Hierarchy := do
  let chosen ← t.chosenM? h
  return { h with defaultMember := chosen }

/-- The schema that drafted tables describe. -/
def buildM (t : Tables) : m (Except SchemaError Schema) :=
  match t.dimensions.find? (·.hierarchies.isEmpty) with
  | some d => return .error (.emptyDimension d.uniqueName)
  | none =>
    match t.hierarchies.find? (·.levels.isEmpty) with
    | some h => return .error (.emptyHierarchy h.uniqueName)
    | none => do
      let hierarchies ← t.hierarchies.toList.mapM t.withDefaultM
      return .ok { t with hierarchies := hierarchies.toArray }

end Access

/-- The first member of the first level of a hierarchy. -/
def firstMember? (t : Tables) (h : Hierarchy) : Option MemberId :=
  Id.run (t.firstMemberM? h)

/-- A hierarchy with its default member filled in. -/
def withDefault (t : Tables) (h : Hierarchy) : Hierarchy :=
  Id.run (t.withDefaultM h)

/-- The schema that drafted tables describe. -/
def build (t : Tables) : Except SchemaError Schema :=
  Id.run t.buildM

theorem firstMember?_eq (t : Tables) (h : Hierarchy) :
    t.firstMember? h = (do
      let root ← h.levels.head?
      let level ← t.levels[root]?
      level.members.head?) := by
  unfold firstMember? firstMemberM?
  cases h.levels.head? with
  | none => rfl
  | some root =>
    show _ = (t.levels[root]?.bind fun level => level.members.head?)
    rw [Access.follow_some]
    cases t.levels[root]? <;> rfl

theorem withDefault_eq (t : Tables) (h : Hierarchy) :
    t.withDefault h = { h with defaultMember := h.defaultMember.or (t.firstMember? h) } := by
  unfold withDefault withDefaultM chosenM?
  cases h.defaultMember <;> rfl

theorem build_eq (t : Tables) :
    t.build =
      match t.dimensions.find? (·.hierarchies.isEmpty) with
      | some d => .error (.emptyDimension d.uniqueName)
      | none =>
        match t.hierarchies.find? (·.levels.isEmpty) with
        | some h => .error (.emptyHierarchy h.uniqueName)
        | none => .ok { t with hierarchies := t.hierarchies.map t.withDefault } := by
  have hdefaults : Id.run (t.hierarchies.toList.mapM t.withDefaultM) =
      t.hierarchies.toList.map t.withDefault := List.idRun_mapM
  unfold build buildM
  cases t.dimensions.find? (·.hierarchies.isEmpty) with
  | some d => rfl
  | none =>
    cases t.hierarchies.find? (·.levels.isEmpty) with
    | some h => rfl
    | none =>
      simp only [Id.run_bind, hdefaults, ← Array.toList_map]
      rfl

end Tables

/-- The line that reports a finished schema. -/
def Schema.report (s : Schema) : String :=
  "built schema '" ++ s.name ++ "': "
    ++ toString s.cubes.size ++ " cubes, "
    ++ toString s.dimensions.size ++ " dimensions, "
    ++ toString s.hierarchies.size ++ " hierarchies, "
    ++ toString s.levels.size ++ " levels, "
    ++ toString s.members.size ++ " members"

end Hypercube
