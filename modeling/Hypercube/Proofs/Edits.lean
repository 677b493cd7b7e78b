import Hypercube.Schema.Build
import Mathlib.Logic.Relation

/-!
# Drafting as a sequence of edits

A command checks its arguments and then changes the tables in one or several places.  Each change is
an edit, which says what was known of the tables before it and what became of them.  Whatever holds
of empty tables and is kept by every edit holds of all tables that commands can lead to.

* `Tables.addDimension`, `Tables.addHierarchy`, … — the changes, as functions on tables.
* `Draft.on_pushDimension`, `Draft.on_pushHierarchy`, … — what each computation answers, and the
  tables after it.
* `Draft.memberScope_ok` — where a member may be added, and in which scope it is named.
* `Edit` — a change together with the checks that preceded it.
* `Command.run_edits`, `Tables.after_edits` — commands do nothing but edits, whether they succeed
  or fail.
* `Tables.invariant_after` — invariants of edits hold along every run.
-/

set_option autoImplicit false

namespace Hypercube

open Relation

/-! ## Changes of the tables -/

namespace Tables

/-- The tables with one more dimension. -/
def addDimension (t : Tables) (name : String) (measures : Bool) : Tables :=
  { t with dimensions := t.dimensions.push ⟨name, bracket name, [], measures⟩ }

/-- The tables with one more hierarchy, of a dimension. -/
def addHierarchy (t : Tables) (id : DimensionId) (dim : Dimension) (name : String) : Tables :=
  { t with
    hierarchies := t.hierarchies.push ⟨name, Draft.hierarchyUniqueName dim name, id, [], none⟩
    dimensions := t.dimensions.modify id fun d =>
      { d with hierarchies := d.hierarchies ++ [t.hierarchies.size] } }

/-- The tables with one more level, of a hierarchy. -/
def addLevel (t : Tables) (id : HierarchyId) (hier : Hierarchy) (name : String) (all : Bool) :
    Tables :=
  { t with
    levels := t.levels.push ⟨name, qualify hier.uniqueName name, id, hier.levels.length, all, []⟩
    hierarchies := t.hierarchies.modify id fun h =>
      { h with levels := h.levels ++ [t.levels.size] } }

/-- The members with one more child of a parent, if there is one. -/
def addChild (members : Array Member) (parent : Option MemberId) (child : MemberId) :
    Array Member :=
  match parent with
  | none => members
  | some id => members.modify id fun m => { m with children := m.children ++ [child] }

/-- The tables with one more member, of a level. -/
def addMember (t : Tables) (id : LevelId) (scope name : String) (parent : Option MemberId) :
    Tables :=
  { t with
    memberIndex := t.memberIndex ++ [(qualify scope name, t.members.size)]
    members := addChild (t.members.push ⟨name, qualify scope name, id, parent, []⟩) parent
      t.members.size
    levels := t.levels.modify id fun l => { l with members := l.members ++ [t.members.size] } }

/-- The tables with a default member of a hierarchy. -/
def nameDefault (t : Tables) (id : HierarchyId) (chosen : MemberId) : Tables :=
  { t with
    hierarchies := t.hierarchies.modify id fun h => { h with defaultMember := some chosen } }

/-- The tables with one more cube. -/
def addCube (t : Tables) (name : String) (dimensions : List DimensionId) : Tables :=
  { t with cubes := t.cubes.push ⟨name, dimensions⟩ }

end Tables

/-! ## What computations do -/

/-- What a computation answers, from a test that can be evaluated. -/
theorem ok_of_toOption {ε α : Type} {x : Except ε α} {a : α} (h : x.toOption = some a) :
    x = .ok a := by
  cases x with
  | error e => cases h
  | ok b =>
    cases h
    rfl

namespace Draft

variable {t : Tables}

theorem on_known {α : Type} (kind : Kind) (table : Tables → Array α) (id : Nat) (t : Tables) :
    on (known kind table id) t =
      (match (table t)[id]? with
        | some a => .ok a
        | none => .error (.unknownId kind id), t) := by
  rw [known, on_bind, on_get]
  simp only
  cases (table t)[id]? <;> rfl

theorem on_dimension (id : DimensionId) (t : Tables) :
    on (dimension id) t =
      (match t.dimensions[id]? with
        | some d => .ok d
        | none => .error (.unknownId .dimension id), t) := by
  rw [dimension, on_known]
  cases t.dimensions[id]? <;> rfl

theorem on_hierarchy (id : HierarchyId) (t : Tables) :
    on (hierarchy id) t =
      (match t.hierarchies[id]? with
        | some h => .ok h
        | none => .error (.unknownId .hierarchy id), t) := by
  rw [hierarchy, on_known]
  cases t.hierarchies[id]? <;> rfl

theorem on_level (id : LevelId) (t : Tables) :
    on (level id) t =
      (match t.levels[id]? with
        | some l => .ok l
        | none => .error (.unknownId .level id), t) := by
  rw [level, on_known]
  cases t.levels[id]? <;> rfl

theorem on_member (id : MemberId) (t : Tables) :
    on (member id) t =
      (match t.members[id]? with
        | some m => .ok m
        | none => .error (.unknownId .member id), t) := by
  rw [member, on_known]
  cases t.members[id]? <;> rfl

theorem on_entry {α : Type} (found : Option α) (instead : Draft α) (t : Tables) :
    on (Access.entry found instead) t =
      match found with
      | some a => (.ok a, t)
      | none => on instead t := by
  cases found <;> rfl

theorem on_anyEntry {α : Type} (xs : Array α) (p : α → Bool) (ids : List Nat) (t : Tables) :
    on (Access.anyEntry xs p ids) t = (.ok (ids.any fun id => xs[id]?.any p), t) := by
  induction ids with
  | nil => rfl
  | cons id ids ih =>
    rw [Access.anyEntry, List.anyM, on_bind, on_entry, List.any_cons]
    cases xs[id]? with
    | none => exact ih
    | some a =>
      simp only [Option.map_some, Option.any_some]
      cases p a with
      | true => rfl
      | false => exact ih

theorem on_change {α : Type} (xs : Array α) (id : Nat) (f : α → α) (t : Tables) :
    on (Access.change xs id f) t = (.ok (xs.modify id f), t) := by
  unfold Access.change
  split
  · rfl
  · rename_i hid
    have hsame : xs.modify id f = xs := by
      apply Array.ext_getElem?
      intro i
      rw [Array.getElem?_modify]
      split
      · rename_i hi
        rw [← hi, Array.getElem?_eq_none (Nat.le_of_not_lt hid)]
        rfl
      · rfl
    rw [hsame]
    rfl

theorem on_pushChild (members : Array Member) (parent : Option MemberId) (child : MemberId)
    (t : Tables) :
    on (pushChild members parent child) t = (.ok (Tables.addChild members parent child), t) := by
  cases parent with
  | none => rfl
  | some id => exact on_change _ _ _ _

theorem on_pushDimension (name : String) (measures : Bool) (t : Tables) :
    on (pushDimension name measures) t =
      if t.dimensions.any (·.name == name) then (.error (.duplicate .dimension name t.name), t)
      else (.ok t.dimensions.size, t.addDimension name measures) := by
  rw [pushDimension, on_bind, on_get]
  simp only
  split <;> rfl

theorem on_pushHierarchy (id : DimensionId) (name : String) (t : Tables) :
    on (pushHierarchy id name) t =
      match t.dimensions[id]? with
      | none => (.error (.unknownId .dimension id), t)
      | some dim =>
        if dim.hierarchies.any fun h => t.hierarchies[h]?.any (·.name == name) then
          (.error (.duplicate .hierarchy name dim.uniqueName), t)
        else (.ok t.hierarchies.size, t.addHierarchy id dim name) := by
  rw [pushHierarchy, on_bind, on_dimension]
  cases t.dimensions[id]? with
  | none => rfl
  | some dim =>
    simp only [on_bind, on_get, on_anyEntry, on_ite, on_change]
    rfl

theorem on_pushLevel (id : HierarchyId) (name : String) (all : Bool) (t : Tables) :
    on (pushLevel id name all) t =
      match t.hierarchies[id]? with
      | none => (.error (.unknownId .hierarchy id), t)
      | some hier =>
        if hier.levels.any fun l => t.levels[l]?.any (·.name == name) then
          (.error (.duplicate .level name hier.uniqueName), t)
        else (.ok t.levels.size, t.addLevel id hier name all) := by
  rw [pushLevel, on_bind, on_hierarchy]
  cases t.hierarchies[id]? with
  | none => rfl
  | some hier =>
    simp only [on_bind, on_get, on_anyEntry, on_ite, on_change]
    rfl

theorem pushLevel_ok {id : HierarchyId} {name : String} {all : Bool} {t t' : Tables}
    {l : LevelId} (h : on (pushLevel id name all) t = (.ok l, t')) :
    ∃ hier, l = t.levels.size ∧ t' = t.addLevel id hier name all := by
  rw [on_pushLevel] at h
  split at h
  · cases h
  · rename_i hier _
    split at h
    · cases h
    · cases h
      exact ⟨hier, rfl, rfl⟩

/-- Finding the scope of a member leaves the tables as they are. -/
theorem on_memberScope_tables (lvl : Level) (name : String) (parent : Option MemberId)
    (t : Tables) : (on (memberScope lvl name parent) t).2 = t := by
  simp only [memberScope, on_bind, on_get, on_entry]
  cases t.hierarchies[lvl.hierarchy]? with
  | none => rfl
  | some hier =>
    cases parent with
    | none =>
      simp only [on_ite]
      split <;> rfl
    | some id =>
      simp only [on_bind, on_member]
      cases t.members[id]? with
      | none => rfl
      | some above =>
        simp only [on_entry]
        cases t.levels[above.level]? with
        | none => rfl
        | some levelAbove =>
          simp only [on_ite]
          split
          · rfl
          · split <;> rfl

/-- A scope is found for a member without parent on a first level, and for a member whose parent is
on the level just above. -/
theorem memberScope_ok {lvl : Level} {name scope : String} {parent : Option MemberId}
    (h : (on (memberScope lvl name parent) t).1 = .ok scope) :
    ∃ hier, t.hierarchies[lvl.hierarchy]? = some hier ∧
      (parent = none ∧ lvl.depth = 0 ∧ scope = hier.uniqueName ∨
        ∃ id above levelAbove, parent = some id ∧ t.members[id]? = some above ∧
          t.levels[above.level]? = some levelAbove ∧ levelAbove.hierarchy = lvl.hierarchy ∧
          levelAbove.depth + 1 = lvl.depth ∧
          scope = if levelAbove.all then hier.uniqueName else above.uniqueName) := by
  simp only [memberScope, on_bind, on_get, on_entry] at h
  cases hh : t.hierarchies[lvl.hierarchy]? with
  | none =>
    rw [hh] at h
    cases h
  | some hier =>
    refine ⟨hier, rfl, ?_⟩
    simp only [hh] at h
    cases parent with
    | none =>
      simp only [on_ite] at h
      split at h
      · rename_i hdepth
        cases h
        exact .inl ⟨rfl, hdepth, rfl⟩
      · cases h
    | some id =>
      simp only [on_bind, on_member] at h
      cases hm : t.members[id]? with
      | none =>
        rw [hm] at h
        cases h
      | some above =>
        simp only [hm, on_entry] at h
        cases hl : t.levels[above.level]? with
        | none =>
          rw [hl] at h
          cases h
        | some levelAbove =>
          simp only [hl, on_ite] at h
          split at h
          · cases h
          · rename_i hplace
            obtain ⟨hhier, hdepth⟩ := not_or.1 hplace
            refine .inr ⟨id, above, levelAbove, rfl, hm, hl, Decidable.not_not.1 hhier,
              Decidable.not_not.1 hdepth, ?_⟩
            split at h
            · rename_i hall
              cases h
              rw [if_pos hall]
            · rename_i hall
              cases h
              rw [if_neg hall]

theorem on_pushMember (id : LevelId) (name : String) (parent : Option MemberId) (t : Tables) :
    on (pushMember id name parent) t =
      match t.levels[id]? with
      | none => (.error (.unknownId .level id), t)
      | some lvl =>
        match (on (memberScope lvl name parent) t).1 with
        | .error e => (.error e, t)
        | .ok scope =>
          if (t.memberIndex.lookup (qualify scope name)).isSome then
            (.error (.duplicate .member name lvl.uniqueName), t)
          else (.ok t.members.size, t.addMember id scope name parent) := by
  rw [pushMember, on_bind, on_level]
  cases t.levels[id]? with
  | none => rfl
  | some lvl =>
    simp only [on_bind]
    have htables := on_memberScope_tables lvl name parent t
    rcases hscope : on (memberScope lvl name parent) t with ⟨answer, t'⟩
    rw [hscope] at htables
    cases htables
    cases answer with
    | error e => rfl
    | ok scope =>
      simp only [on_get, on_ite, on_bind, on_change, on_pushChild]
      rfl

theorem on_setDefaultMember (id : HierarchyId) (chosen : MemberId) (t : Tables) :
    on (setDefaultMember id chosen) t =
      match t.hierarchies[id]? with
      | none => (.error (.unknownId .hierarchy id), t)
      | some hier =>
        match t.members[chosen]? with
        | none => (.error (.unknownId .member chosen), t)
        | some mem =>
          match t.levels[mem.level]? with
          | none => (.error (.unknownId .level mem.level), t)
          | some lvl =>
            if lvl.hierarchy ≠ id then
              (.error (.foreignDefaultMember mem.uniqueName hier.uniqueName), t)
            else (.ok (), t.nameDefault id chosen) := by
  rw [setDefaultMember, on_bind, on_hierarchy]
  cases found : t.hierarchies[id]? with
  | none => rfl
  | some hier =>
    simp only [on_bind, on_member]
    cases t.members[chosen]? with
    | none => rfl
    | some mem =>
      simp only [on_get, on_entry]
      cases t.levels[mem.level]? with
      | none => rfl
      | some lvl =>
        simp only [on_ite, on_bind, on_entry, found, on_change]
        rfl

theorem on_addCube (name : String) (dimensions : List DimensionId) (t : Tables) :
    on (addCube name dimensions) t =
      if t.cubes.any (·.name == name) then (.error (.duplicate .cube name t.name), t)
      else
        match dimensions.find? (fun d => t.dimensions.size ≤ d) with
        | some d => (.error (.unknownId .dimension d), t)
        | none => (.ok t.cubes.size, t.addCube name dimensions) := by
  rw [addCube, on_bind, on_get]
  simp only
  split
  · rfl
  · cases dimensions.find? (fun d => t.dimensions.size ≤ d) <;> rfl

end Draft

/-! ## Edits -/

/-- A change of the tables, with what is known of them when it happens. -/
inductive Edit (t : Tables) : Tables → Prop where
  | dimension (name : String) (measures : Bool)
      (fresh : ¬ t.dimensions.any (·.name == name))
      (marked : measures = true → name = measuresName) :
      Edit t (t.addDimension name measures)
  | hierarchy (id : DimensionId) (dim : Dimension) (name : String)
      (found : t.dimensions[id]? = some dim)
      (fresh : ¬ dim.hierarchies.any fun h => t.hierarchies[h]?.any (·.name == name)) :
      Edit t (t.addHierarchy id dim name)
  | level (id : HierarchyId) (hier : Hierarchy) (name : String) (all : Bool)
      (found : t.hierarchies[id]? = some hier)
      (fresh : ¬ hier.levels.any fun l => t.levels[l]?.any (·.name == name))
      (first : all = true → hier.levels = []) :
      Edit t (t.addLevel id hier name all)
  | member (id : LevelId) (lvl : Level) (scope name : String) (parent : Option MemberId)
      (found : t.levels[id]? = some lvl)
      (named : (Draft.on (Draft.memberScope lvl name parent) t).1 = .ok scope)
      (fresh : ¬ (t.memberIndex.lookup (qualify scope name)).isSome)
      (only : lvl.all = true → lvl.members = []) :
      Edit t (t.addMember id scope name parent)
  | defaultMember (id : HierarchyId) (hier : Hierarchy) (chosen : MemberId) (mem : Member)
      (lvl : Level) (found : t.hierarchies[id]? = some hier)
      (known : t.members[chosen]? = some mem) (placed : t.levels[mem.level]? = some lvl)
      (inside : lvl.hierarchy = id) :
      Edit t (t.nameDefault id chosen)
  | cube (name : String) (dimensions : List DimensionId)
      (fresh : ¬ t.cubes.any (·.name == name))
      (known : ∀ d ∈ dimensions, d < t.dimensions.size) :
      Edit t (t.addCube name dimensions)

namespace Draft

variable {t : Tables}

theorem edit_pushDimension (name : String) (measures : Bool)
    (marked : measures = true → name = measuresName) :
    ReflGen Edit t (on (pushDimension name measures) t).2 := by
  rw [on_pushDimension]
  split
  · exact .refl
  · rename_i fresh
    exact .single (.dimension name measures fresh marked)

theorem edit_pushHierarchy (id : DimensionId) (name : String) :
    ReflGen Edit t (on (pushHierarchy id name) t).2 := by
  rw [on_pushHierarchy]
  cases found : t.dimensions[id]? with
  | none => exact .refl
  | some dim =>
    simp only
    split
    · exact .refl
    · rename_i fresh
      exact .single (.hierarchy id dim name found fresh)

theorem edit_pushLevel (id : HierarchyId) (name : String) (all : Bool)
    (first : all = true → ∀ hier, t.hierarchies[id]? = some hier → hier.levels = []) :
    ReflGen Edit t (on (pushLevel id name all) t).2 := by
  rw [on_pushLevel]
  cases found : t.hierarchies[id]? with
  | none => exact .refl
  | some hier =>
    simp only
    split
    · exact .refl
    · rename_i fresh
      exact .single (.level id hier name all found fresh fun h => first h hier found)

theorem edit_pushMember (id : LevelId) (name : String) (parent : Option MemberId)
    (only : ∀ lvl, t.levels[id]? = some lvl → lvl.all = true → lvl.members = []) :
    ReflGen Edit t (on (pushMember id name parent) t).2 := by
  rw [on_pushMember]
  cases found : t.levels[id]? with
  | none => exact .refl
  | some lvl =>
    simp only
    cases named : (on (memberScope lvl name parent) t).1 with
    | error e => exact .refl
    | ok scope =>
      simp only
      split
      · exact .refl
      · rename_i fresh
        exact .single (.member id lvl scope name parent found named fresh (only lvl found))

theorem edit_setDefaultMember (id : HierarchyId) (chosen : MemberId) :
    ReflGen Edit t (on (setDefaultMember id chosen) t).2 := by
  rw [on_setDefaultMember]
  cases found : t.hierarchies[id]? with
  | none => exact .refl
  | some hier =>
    cases known : t.members[chosen]? with
    | none => exact .refl
    | some mem =>
      simp only
      cases placed : t.levels[mem.level]? with
      | none => exact .refl
      | some lvl =>
        simp only
        split
        · exact .refl
        · rename_i inside
          exact .single (.defaultMember id hier chosen mem lvl found known placed
            (Decidable.not_not.1 inside))

theorem edit_addCube (name : String) (dimensions : List DimensionId) :
    ReflGen Edit t (on (addCube name dimensions) t).2 := by
  rw [on_addCube]
  split
  · exact .refl
  · rename_i fresh
    cases known : dimensions.find? (fun d => t.dimensions.size ≤ d) with
    | some d => exact .refl
    | none =>
      refine .single (.cube name dimensions fresh fun d hd => ?_)
      have := List.find?_eq_none.1 known d hd
      rw [decide_eq_true_eq] at this
      exact Nat.lt_of_not_le this

/-- Computations that do nothing but edits can follow each other. -/
theorem edits_bind {α β : Type} {x : Draft α} {f : α → Draft β}
    (hx : ReflTransGen Edit t (x.on t).2)
    (hf : ∀ a t', x.on t = (.ok a, t') → ReflTransGen Edit t' ((f a).on t').2) :
    ReflTransGen Edit t ((x >>= f).on t).2 := by
  rw [on_bind]
  rcases h : x.on t with ⟨answer, t'⟩
  rw [h] at hx
  cases answer with
  | error e => exact hx
  | ok a => exact hx.trans (hf a t' h)

theorem edits_addMeasures : ReflTransGen Edit t (on addMeasures t).2 := by
  unfold addMeasures
  refine edits_bind (edit_pushDimension measuresName true fun _ => rfl).to_reflTransGen
    fun d t₁ _ => ?_
  refine edits_bind (edit_pushHierarchy d measuresName).to_reflTransGen fun h t₂ _ => ?_
  refine edits_bind (edit_pushLevel h measuresLevelName false ?_).to_reflTransGen fun l t₃ _ => ?_
  · intro hall
    cases hall
  · exact .refl

/-- The level of an all member is added to a hierarchy without levels, and has no member yet when
the all member is added to it. -/
theorem edits_addAllLevel (id : HierarchyId) (name : String) :
    ReflTransGen Edit t (on (addAllLevel id name) t).2 := by
  rw [addAllLevel, on_bind, on_hierarchy]
  cases found : t.hierarchies[id]? with
  | none => exact .refl
  | some hier =>
    simp only [on_ite]
    split
    · rename_i hempty
      have first : ∀ h, t.hierarchies[id]? = some h → h.levels = [] := by
        intro h hh
        cases found.symm.trans hh
        exact List.isEmpty_iff.1 hempty
      refine edits_bind (edit_pushLevel id _ true fun _ => first).to_reflTransGen fun l t₁ h₁ => ?_
      refine edits_bind (edit_pushMember l name none ?_).to_reflTransGen fun m t₂ _ => .refl
      obtain ⟨hier', rfl, rfl⟩ := pushLevel_ok h₁
      intro lvl hl _
      simp only [Tables.addLevel, Array.getElem?_push_size, Option.some.injEq] at hl
      rw [← hl]
    · exact .refl

theorem edits_addMember (id : LevelId) (name : String) (parent : Option MemberId) :
    ReflTransGen Edit t (on (addMember id name parent) t).2 := by
  rw [addMember, on_bind, on_level]
  cases found : t.levels[id]? with
  | none => exact .refl
  | some lvl =>
    simp only [on_ite]
    split
    · exact .refl
    · rename_i hall
      refine (edit_pushMember id name parent fun lvl' hl hall' => ?_).to_reflTransGen
      cases found.symm.trans hl
      exact absurd hall' hall

end Draft

/-! ## Runs -/

/-- A command does nothing but edits. -/
theorem Command.run_edits (c : Command) (t : Tables) : ReflTransGen Edit t (c.run t).2 := by
  cases c <;> simp only [run, execute, Draft.on_map]
  case dimension name =>
    exact (Draft.edit_pushDimension name false fun h => nomatch h).to_reflTransGen
  case measures => exact Draft.edits_addMeasures
  case hierarchy d name => exact (Draft.edit_pushHierarchy d name).to_reflTransGen
  case allLevel h name => exact Draft.edits_addAllLevel h name
  case level h name => exact (Draft.edit_pushLevel h name false fun h => nomatch h).to_reflTransGen
  case member l name parent => exact Draft.edits_addMember l name parent
  case defaultMember h m => exact (Draft.edit_setDefaultMember h m).to_reflTransGen
  case cube name dims => exact (Draft.edit_addCube name dims).to_reflTransGen

theorem Tables.after_edits (t : Tables) (commands : List Command) :
    ReflTransGen Edit t (t.after commands) := by
  induction commands generalizing t with
  | nil => exact .refl
  | cons c cs ih => exact (c.run_edits t).trans (ih (c.run t).2)

theorem Edit.invariant {P : Tables → Prop} (hstep : ∀ t t', P t → Edit t t' → P t')
    {t t' : Tables} (hrun : ReflTransGen Edit t t') (h : P t) : P t' := by
  induction hrun with
  | refl => exact h
  | tail _ hedit ih => exact hstep _ _ ih hedit

/-- What holds of tables and is kept by every edit holds after every run of commands. -/
theorem Tables.invariant_after {P : Tables → Prop} (hstep : ∀ t t', P t → Edit t t' → P t')
    {t : Tables} (h : P t) (commands : List Command) : P (t.after commands) :=
  Edit.invariant hstep (t.after_edits commands) h

end Hypercube
