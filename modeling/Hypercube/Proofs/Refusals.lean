import Hypercube.Proofs.Edits

/-!
# What refused commands leave behind

Commands check their arguments before they change anything, and so a refused command leaves the
tables as they were.  One command changes them first: an all level is added before its all member,
and stays when the all member is refused because its unique name is taken.

* `Draft.on_addMeasures`, `Draft.on_addAllLevel`, `Draft.on_addMember` — what the commands of
  several steps answer, and the tables after them.
* `Command.StopsMidway` — the all member of a new all level has a unique name that is taken.
* `Command.refusal_keeps_tables_iff` — a refused command leaves the tables as they were unless it
  stops midway.
-/

set_option autoImplicit false

namespace Hypercube

namespace Draft

/-! ## Commands of several steps -/

/-- A dimension without hierarchies accepts every hierarchy. -/
theorem on_pushHierarchy_first {t : Tables} {id : DimensionId} {dim : Dimension} (name : String)
    (found : t.dimensions[id]? = some dim) (first : dim.hierarchies = []) :
    on (pushHierarchy id name) t = (.ok t.hierarchies.size, t.addHierarchy id dim name) := by
  simp only [on_pushHierarchy, found, first, List.any_nil, Bool.false_eq_true, if_false]

/-- A hierarchy without levels accepts every level. -/
theorem on_pushLevel_first {t : Tables} {id : HierarchyId} {hier : Hierarchy} (name : String)
    (all : Bool) (found : t.hierarchies[id]? = some hier) (first : hier.levels = []) :
    on (pushLevel id name all) t = (.ok t.levels.size, t.addLevel id hier name all) := by
  simp only [on_pushLevel, found, first, List.any_nil, Bool.false_eq_true, if_false]

/-- The dimension of measures, as it is when it is added. -/
abbrev measuresDimension : Dimension :=
  ⟨measuresName, bracket measuresName, [], true⟩

/-- The hierarchy of measures, as it is when it is added to its dimension. -/
abbrev measuresHierarchy (id : DimensionId) : Hierarchy :=
  ⟨measuresName, hierarchyUniqueName measuresDimension measuresName, id, [], none⟩

/-- Once the dimension of measures is accepted, so are its hierarchy and its level. -/
theorem on_addMeasures (t : Tables) :
    on addMeasures t =
      if t.dimensions.any (·.name == measuresName) then
        (.error (.duplicate .dimension measuresName t.name), t)
      else
        (.ok (t.dimensions.size, t.levels.size),
          ((t.addDimension measuresName true).addHierarchy t.dimensions.size measuresDimension
            measuresName).addLevel t.hierarchies.size (measuresHierarchy t.dimensions.size)
            measuresLevelName false) := by
  rw [addMeasures, on_bind, on_pushDimension]
  by_cases taken : t.dimensions.any (·.name == measuresName)
  · rw [if_pos taken, if_pos taken]
  · have hdim : (t.addDimension measuresName true).dimensions[t.dimensions.size]? =
        some measuresDimension := Array.getElem?_push_size
    have hhier : ((t.addDimension measuresName true).addHierarchy t.dimensions.size
        measuresDimension measuresName).hierarchies[t.hierarchies.size]? =
        some (measuresHierarchy t.dimensions.size) := Array.getElem?_push_size
    have hpush := on_pushHierarchy_first measuresName hdim rfl
    have hpush' := on_pushLevel_first measuresLevelName false hhier rfl
    rw [if_neg taken, if_neg taken]
    simp only [on_bind, hpush]
    rw [show (t.addDimension measuresName true).hierarchies.size = t.hierarchies.size from rfl,
      hpush']
    rfl

/-- A member without parent on the first level of a hierarchy is named in the hierarchy, and refused
only if its unique name is taken. -/
theorem on_pushMember_top {t : Tables} {id : LevelId} {lvl : Level} {scope : String}
    (name : String) (found : t.levels[id]? = some lvl)
    (inside : t.hierarchies[lvl.hierarchy]?.map (·.uniqueName) = some scope)
    (top : lvl.depth = 0) :
    on (pushMember id name none) t =
      if (t.memberIndex.lookup (qualify scope name)).isSome then
        (.error (.duplicate .member name lvl.uniqueName), t)
      else (.ok t.members.size, t.addMember id scope name none) := by
  obtain ⟨hier, hhier, rfl⟩ := Option.map_eq_some_iff.1 inside
  have hscope : on (memberScope lvl name none) t = (.ok hier.uniqueName, t) := by
    simp only [memberScope, on_bind, on_get, on_entry, hhier, top, if_true, on_pure]
  simp only [on_pushMember, found, hscope]

/-- The all level is added before the unique name of the all member is looked up. -/
theorem on_addAllLevel (id : HierarchyId) (name : String) (t : Tables) :
    on (addAllLevel id name) t =
      match t.hierarchies[id]? with
      | none => (.error (.unknownId .hierarchy id), t)
      | some hier =>
        if hier.levels.isEmpty then
          if (t.memberIndex.lookup (qualify hier.uniqueName name)).isSome then
            (.error (.duplicate .member name (qualify hier.uniqueName allLevelName)),
              t.addLevel id hier allLevelName true)
          else
            (.ok (t.levels.size, t.members.size),
              (t.addLevel id hier allLevelName true).addMember t.levels.size hier.uniqueName name
                none)
        else (.error (.misplacedAllLevel hier.uniqueName), t) := by
  rw [addAllLevel, on_bind, on_hierarchy]
  cases found : t.hierarchies[id]? with
  | none => rfl
  | some hier =>
    simp only [on_ite]
    split
    · rename_i hempty
      have first : hier.levels = [] := List.isEmpty_iff.1 hempty
      let lvl : Level :=
        ⟨allLevelName, qualify hier.uniqueName allLevelName, id, hier.levels.length, true, []⟩
      have hlvl : (t.addLevel id hier allLevelName true).levels[t.levels.size]? = some lvl :=
        Array.getElem?_push_size
      have hhier : (t.addLevel id hier allLevelName true).hierarchies[lvl.hierarchy]?.map
          (·.uniqueName) = some hier.uniqueName := by
        simp [Tables.addLevel, lvl, Array.getElem?_modify, found]
      have hpush : on (pushMember t.levels.size name none) (t.addLevel id hier allLevelName true) =
          if (t.memberIndex.lookup (qualify hier.uniqueName name)).isSome then
            (.error (.duplicate .member name lvl.uniqueName), t.addLevel id hier allLevelName true)
          else (.ok t.members.size, (t.addLevel id hier allLevelName true).addMember t.levels.size
            hier.uniqueName name none) :=
        on_pushMember_top name hlvl hhier (congrArg List.length first)
      rw [on_bind, on_pushLevel_first allLevelName true found first]
      simp only [on_bind, hpush]
      by_cases taken : (t.memberIndex.lookup (qualify hier.uniqueName name)).isSome
      · rw [if_pos taken, if_pos taken]
      · rw [if_neg taken, if_neg taken]
        rfl
    · rfl

theorem on_addMember (id : LevelId) (name : String) (parent : Option MemberId) (t : Tables) :
    on (addMember id name parent) t =
      match t.levels[id]? with
      | none => (.error (.unknownId .level id), t)
      | some lvl =>
        if lvl.all then (.error (.duplicate .allMember name lvl.uniqueName), t)
        else on (pushMember id name parent) t := by
  rw [addMember, on_bind, on_level]
  cases t.levels[id]? with
  | none => rfl
  | some lvl => simp only [on_ite, on_throw]

/-! ## Computations that change nothing where they fail -/

/-- A computation succeeds, or leaves the tables as they were. -/
def Careful {α : Type} (x : Draft α) (t : Tables) : Prop :=
  (∃ a, (x.on t).1 = .ok a) ∨ (x.on t).2 = t

theorem Careful.map {α β : Type} {x : Draft α} {t : Tables} (f : α → β) (h : x.Careful t) :
    (f <$> x).Careful t := by
  unfold Careful
  rw [on_map]
  obtain ⟨a, ha⟩ | h := h
  · exact .inl ⟨f a, by rw [ha]; rfl⟩
  · exact .inr h

variable (t : Tables)

theorem careful_pushDimension (name : String) (measures : Bool) :
    Careful (pushDimension name measures) t := by
  rw [Careful, on_pushDimension]
  split
  · exact .inr rfl
  · exact .inl ⟨_, rfl⟩

theorem careful_addMeasures : Careful addMeasures t := by
  rw [Careful, on_addMeasures]
  split
  · exact .inr rfl
  · exact .inl ⟨_, rfl⟩

theorem careful_pushHierarchy (id : DimensionId) (name : String) :
    Careful (pushHierarchy id name) t := by
  rw [Careful, on_pushHierarchy]
  split
  · exact .inr rfl
  · split
    · exact .inr rfl
    · exact .inl ⟨_, rfl⟩

theorem careful_pushLevel (id : HierarchyId) (name : String) (all : Bool) :
    Careful (pushLevel id name all) t := by
  rw [Careful, on_pushLevel]
  split
  · exact .inr rfl
  · split
    · exact .inr rfl
    · exact .inl ⟨_, rfl⟩

theorem careful_addMember (id : LevelId) (name : String) (parent : Option MemberId) :
    Careful (addMember id name parent) t := by
  rw [Careful, on_addMember]
  split
  · exact .inr rfl
  · split
    · exact .inr rfl
    · rw [on_pushMember]
      split
      · exact .inr rfl
      · split
        · exact .inr rfl
        · split
          · exact .inr rfl
          · exact .inl ⟨_, rfl⟩

theorem careful_setDefaultMember (id : HierarchyId) (chosen : MemberId) :
    Careful (setDefaultMember id chosen) t := by
  rw [Careful, on_setDefaultMember]
  split
  · exact .inr rfl
  · split
    · exact .inr rfl
    · split
      · exact .inr rfl
      · split
        · exact .inr rfl
        · exact .inl ⟨_, rfl⟩

theorem careful_addCube (name : String) (dimensions : List DimensionId) :
    Careful (addCube name dimensions) t := by
  rw [Careful, on_addCube]
  split
  · exact .inr rfl
  · split
    · exact .inr rfl
    · exact .inl ⟨_, rfl⟩

end Draft

/-! ## Refused commands -/

namespace Command

/-- A command is to open a hierarchy with an all level, and the unique name of its all member is
taken. -/
def StopsMidway (c : Command) (t : Tables) : Prop :=
  ∃ id name hier, c = .allLevel id name ∧ t.hierarchies[id]? = some hier ∧ hier.levels = [] ∧
    (t.memberIndex.lookup (qualify hier.uniqueName name)).isSome = true

theorem careful_addAllLevel {t : Tables} {id : HierarchyId} {name : String}
    (h : ¬ (allLevel id name).StopsMidway t) : Draft.Careful (Draft.addAllLevel id name) t := by
  rw [Draft.Careful, Draft.on_addAllLevel]
  cases found : t.hierarchies[id]? with
  | none => exact .inr rfl
  | some hier =>
    simp only
    split
    · rename_i hempty
      split
      · rename_i taken
        exact absurd ⟨id, name, hier, rfl, found, List.isEmpty_iff.1 hempty, taken⟩ h
      · exact .inl ⟨_, rfl⟩
    · exact .inr rfl

/-- Commands that do not stop midway succeed, or leave the tables as they were. -/
theorem careful_execute {c : Command} {t : Tables} (h : ¬ c.StopsMidway t) :
    Draft.Careful c.execute t := by
  cases c with
  | dimension name => exact (Draft.careful_pushDimension t name false).map _
  | measures => exact (Draft.careful_addMeasures t).map _
  | hierarchy d name => exact (Draft.careful_pushHierarchy t d name).map _
  | allLevel id name => exact (careful_addAllLevel h).map _
  | level id name => exact (Draft.careful_pushLevel t id name false).map _
  | member l name parent => exact (Draft.careful_addMember t l name parent).map _
  | defaultMember id m => exact (Draft.careful_setDefaultMember t id m).map _
  | cube name dims => exact (Draft.careful_addCube t name dims).map _

/-- An all level whose all member is refused stays. -/
theorem run_allLevel_of_taken {t : Tables} {id : HierarchyId} {name : String} {hier : Hierarchy}
    (found : t.hierarchies[id]? = some hier) (first : hier.levels = [])
    (taken : (t.memberIndex.lookup (qualify hier.uniqueName name)).isSome = true) :
    (allLevel id name).run t =
      (.error (.duplicate .member name (qualify hier.uniqueName allLevelName)),
        t.addLevel id hier allLevelName true) := by
  simp only [run, execute, Draft.on_map, Draft.on_addAllLevel, found, first, List.isEmpty_nil,
    taken, if_true]
  rfl

/-- A refused command leaves the tables as they were, unless it stops midway.  Then the new all
level is all that it leaves behind. -/
theorem refusal_keeps_tables_iff {c : Command} {t : Tables} {e : SchemaError}
    (h : (c.run t).1 = .error e) :
    ((c.run t).2 = t ↔ ¬ c.StopsMidway t) ∧
      (c.StopsMidway t → ∃ id name hier, c = .allLevel id name ∧ t.hierarchies[id]? = some hier ∧
        e = .duplicate .member name (qualify hier.uniqueName allLevelName) ∧
        (c.run t).2 = t.addLevel id hier allLevelName true) := by
  have midway : c.StopsMidway t → ∃ id name hier, c = .allLevel id name ∧
      t.hierarchies[id]? = some hier ∧
      e = .duplicate .member name (qualify hier.uniqueName allLevelName) ∧
      (c.run t).2 = t.addLevel id hier allLevelName true := by
    intro hstop
    obtain ⟨id, name, hier, rfl, found, first, taken⟩ := hstop
    rw [run_allLevel_of_taken found first taken] at h ⊢
    cases h
    exact ⟨id, name, hier, rfl, found, rfl, rfl⟩
  refine ⟨⟨fun hkept hstop => ?_, fun hstop => ?_⟩, midway⟩
  · obtain ⟨id, name, hier, -, -, -, hafter⟩ := midway hstop
    have hsize := congrArg (·.levels.size) (hkept.symm.trans hafter)
    simp [Tables.addLevel] at hsize
  · obtain ⟨reply, hok⟩ | hkept := careful_execute hstop
    · cases h.symm.trans hok
    · exact hkept

/-- Two hierarchies can have the same unique name, and then so can their members.  Here the second
one is to be opened with an all member whose unique name is that of a member of the first.  It is
left with an all level that no all member can be added to. -/
theorem refusal_keeps_tables_iff_not_all_member_taken :
    let t := (Tables.empty "Sales").after [.dimension "A.B", .hierarchy 0 "A.B", .level 0 "City",
      .member 0 "Rome" none, .dimension "A", .hierarchy 1 "B"]
    let c := Command.allLevel 1 "Rome"
    (c.run t).1 = .error (.duplicate .member "Rome" "[A.B].[(All)]") ∧ c.StopsMidway t ∧
      (c.run t).2 ≠ t ∧ ((Command.allLevel 1 "All").run (c.run t).2).1.toOption = none := by
  intro t c
  have found : t.hierarchies[1]? = some ⟨"B", "[A.B]", 1, [], none⟩ := by decide +kernel
  have taken : (t.memberIndex.lookup (qualify "[A.B]" "Rome")).isSome = true := by decide +kernel
  have hrefused : (c.run t).1 = .error (.duplicate .member "Rome" "[A.B].[(All)]") :=
    congrArg Prod.fst (run_allLevel_of_taken found rfl taken)
  have hstop : c.StopsMidway t := ⟨1, "Rome", _, rfl, found, rfl, taken⟩
  refine ⟨hrefused, hstop, fun hkept => ?_, by decide +kernel⟩
  exact (refusal_keeps_tables_iff hrefused).1.1 hkept hstop

end Command

end Hypercube
