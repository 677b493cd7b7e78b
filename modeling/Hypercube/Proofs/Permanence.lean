import Hypercube.Proofs.Growth
import Hypercube.Proofs.Refusals

/-!
# Indices stay valid

An index that a command answers is the place of the element that it added, and stays so: commands
add entries at the end of tables and parts at the end of lists, and change nothing else but default
members.

* `Tables.Extends.trans`, `Tables.extends_after` — growth composes, and so whole runs extend the
  tables they start from.
* `Command.Effect` — what a command that succeeds answers, and what it makes of the tables.
* `Command.Stands` — the elements that a command was asked for are where it answered.
* `Tables.drafting_only_appends` — runs of commands only append, and answers are sizes of tables.
-/

set_option autoImplicit false

namespace Hypercube

open Relation

/-! ## Growth composes -/

theorem Dimension.Grows.trans {d d' d'' : Dimension} (h : d.Grows d') (h' : d'.Grows d'') :
    d.Grows d'' :=
  ⟨h'.name.trans h.name, h'.uniqueName.trans h.uniqueName, h'.measures.trans h.measures,
    h.hierarchies.trans h'.hierarchies⟩

theorem Hierarchy.Grows.trans {h h' h'' : Hierarchy} (g : h.Grows h') (g' : h'.Grows h'') :
    h.Grows h'' :=
  ⟨g'.name.trans g.name, g'.uniqueName.trans g.uniqueName, g'.dimension.trans g.dimension,
    g.levels.trans g'.levels⟩

theorem Level.Grows.trans {l l' l'' : Level} (h : l.Grows l') (h' : l'.Grows l'') : l.Grows l'' :=
  ⟨h'.name.trans h.name, h'.uniqueName.trans h.uniqueName, h'.hierarchy.trans h.hierarchy,
    h'.depth.trans h.depth, h'.all.trans h.all, h.members.trans h'.members⟩

theorem Grown.size_le {α : Type} {R : α → α → Prop} {xs ys : Array α} (h : Grown R xs ys) :
    xs.size ≤ ys.size := by
  apply Nat.le_of_not_lt
  intro hlt
  -- the entry after the last one of `ys` would have to be in `ys`
  obtain ⟨y, hy, -⟩ := h ys.size xs[ys.size] (Array.getElem?_eq_getElem hlt)
  have hin := (Array.getElem?_eq_some_iff.1 hy).1
  omega

namespace Tables

variable {t t' t'' : Tables}

theorem Extends.trans (h : t.Extends t') (h' : t'.Extends t'') : t.Extends t'' where
  cubes := h.cubes.trans (fun _ _ _ => Eq.trans) h'.cubes
  dimensions := h.dimensions.trans (fun _ _ _ => Dimension.Grows.trans) h'.dimensions
  hierarchies := h.hierarchies.trans (fun _ _ _ => Hierarchy.Grows.trans) h'.hierarchies
  levels := h.levels.trans (fun _ _ _ => Level.Grows.trans) h'.levels
  members := h.members.trans (fun _ _ _ => Member.Grows.trans) h'.members
  memberIndex := h.memberIndex.trans h'.memberIndex

/-- Tables extend those that any number of edits started from. -/
theorem extends_of_edits (h : ReflTransGen Edit t t') : t.Extends t' := by
  induction h with
  | refl => exact .refl t
  | tail _ hedit ih => exact ih.trans hedit.extends

theorem extends_after (t : Tables) (commands : List Command) : t.Extends (t.after commands) :=
  extends_of_edits (t.after_edits commands)

theorem Extends.count_le (h : t.Extends t') (k : Kind) : t.count k ≤ t'.count k := by
  cases k with
  | dimension => exact h.dimensions.size_le
  | hierarchy => exact h.hierarchies.size_le
  | level => exact h.levels.size_le
  | member => exact h.members.size_le

/-- What the index leads to is found in all later tables. -/
theorem Extends.lookup (h : t.Extends t') {n : String} {m : MemberId}
    (hm : t.memberIndex.lookup n = some m) : t'.memberIndex.lookup n = some m := by
  obtain ⟨added, hadded⟩ := h.memberIndex
  rw [← hadded, List.lookup_append, hm, Option.some_or]

theorem name_after (t : Tables) (commands : List Command) : (t.after commands).name = t.name := by
  refine invariant_after (P := fun t' => t'.name = t.name) ?_ rfl commands
  intro t₁ t₂ h e
  cases e <;> exact h

end Tables

/-! ## Commands that succeed -/

namespace Draft

variable {α β : Type} {t t' : Tables}

theorem map_ok {f : α → β} {x : Draft α} {b : β} (h : (f <$> x).on t = (.ok b, t')) :
    ∃ a, x.on t = (.ok a, t') ∧ b = f a := by
  rw [on_map] at h
  rcases hx : x.on t with ⟨answer, t₁⟩
  rw [hx] at h
  cases answer with
  | error e => cases h
  | ok a =>
    cases h
    exact ⟨a, rfl, rfl⟩

theorem pushDimension_ok {name : String} {measures : Bool} {i : DimensionId}
    (h : on (pushDimension name measures) t = (.ok i, t')) :
    i = t.dimensions.size ∧ t' = t.addDimension name measures := by
  rw [on_pushDimension] at h
  split at h
  · cases h
  · cases h
    exact ⟨rfl, rfl⟩

theorem addMeasures_ok {d : DimensionId} {l : LevelId} (h : on addMeasures t = (.ok (d, l), t')) :
    d = t.dimensions.size ∧ l = t.levels.size ∧
      t' = ((t.addDimension measuresName true).addHierarchy t.dimensions.size measuresDimension
        measuresName).addLevel t.hierarchies.size (measuresHierarchy t.dimensions.size)
        measuresLevelName false := by
  rw [on_addMeasures] at h
  split at h
  · cases h
  · cases h
    exact ⟨rfl, rfl, rfl⟩

theorem pushHierarchy_ok {id : DimensionId} {name : String} {i : HierarchyId}
    (h : on (pushHierarchy id name) t = (.ok i, t')) :
    ∃ dim, i = t.hierarchies.size ∧ t' = t.addHierarchy id dim name := by
  rw [on_pushHierarchy] at h
  split at h
  · cases h
  · rename_i dim _
    split at h
    · cases h
    · cases h
      exact ⟨dim, rfl, rfl⟩

theorem addAllLevel_ok {id : HierarchyId} {name : String} {l : LevelId} {m : MemberId}
    (h : on (addAllLevel id name) t = (.ok (l, m), t')) :
    ∃ hier, l = t.levels.size ∧ m = t.members.size ∧
      t' = (t.addLevel id hier allLevelName true).addMember t.levels.size hier.uniqueName name
        none := by
  rw [on_addAllLevel] at h
  split at h
  · cases h
  · rename_i hier _
    split at h
    · split at h
      · cases h
      · cases h
        exact ⟨hier, rfl, rfl, rfl⟩
    · cases h

theorem addMember_ok {id : LevelId} {name : String} {parent : Option MemberId} {i : MemberId}
    (h : on (addMember id name parent) t = (.ok i, t')) :
    ∃ scope, i = t.members.size ∧ t' = t.addMember id scope name parent := by
  rw [on_addMember] at h
  split at h
  · cases h
  · split at h
    · cases h
    · rw [on_pushMember] at h
      split at h
      · cases h
      · split at h
        · cases h
        · rename_i scope _
          split at h
          · cases h
          · cases h
            exact ⟨scope, rfl, rfl⟩

theorem setDefaultMember_ok {id : HierarchyId} {chosen : MemberId} {u : Unit}
    (h : on (setDefaultMember id chosen) t = (.ok u, t')) :
    ∃ hier, t.hierarchies[id]? = some hier ∧ t' = t.nameDefault id chosen := by
  rw [on_setDefaultMember] at h
  split at h
  · cases h
  · rename_i hier found
    split at h
    · cases h
    · split at h
      · cases h
      · split at h
        · cases h
        · cases h
          exact ⟨hier, found, rfl⟩

theorem addCube_ok {name : String} {dimensions : List DimensionId} {i : CubeId}
    (h : on (addCube name dimensions) t = (.ok i, t')) :
    i = t.cubes.size ∧ t' = t.addCube name dimensions := by
  rw [on_addCube] at h
  split at h
  · cases h
  · split at h
    · cases h
    · cases h
      exact ⟨rfl, rfl⟩

end Draft

namespace Command

/-- What a command that succeeds answers, and what it makes of the tables. -/
inductive Effect (t : Tables) : Command → Reply → Tables → Prop where
  | dimension (name : String) :
      Effect t (.dimension name) (.one t.dimensions.size) (t.addDimension name false)
  | measures :
      Effect t .measures (.two t.dimensions.size t.levels.size)
        (((t.addDimension measuresName true).addHierarchy t.dimensions.size
          Draft.measuresDimension measuresName).addLevel t.hierarchies.size
          (Draft.measuresHierarchy t.dimensions.size) measuresLevelName false)
  | hierarchy (id : DimensionId) (dim : Dimension) (name : String) :
      Effect t (.hierarchy id name) (.one t.hierarchies.size) (t.addHierarchy id dim name)
  | allLevel (id : HierarchyId) (hier : Hierarchy) (name : String) :
      Effect t (.allLevel id name) (.two t.levels.size t.members.size)
        ((t.addLevel id hier allLevelName true).addMember t.levels.size hier.uniqueName name none)
  | level (id : HierarchyId) (hier : Hierarchy) (name : String) :
      Effect t (.level id name) (.one t.levels.size) (t.addLevel id hier name false)
  | member (id : LevelId) (scope name : String) (parent : Option MemberId) :
      Effect t (.member id name parent) (.one t.members.size) (t.addMember id scope name parent)
  | defaultMember (id : HierarchyId) (hier : Hierarchy) (chosen : MemberId)
      (found : t.hierarchies[id]? = some hier) :
      Effect t (.defaultMember id chosen) .done (t.nameDefault id chosen)
  | cube (name : String) (dimensions : List DimensionId) :
      Effect t (.cube name dimensions) (.one t.cubes.size) (t.addCube name dimensions)

theorem effect_of_ok {c : Command} {t t' : Tables} {reply : Reply}
    (h : c.run t = (.ok reply, t')) : Effect t c reply t' := by
  cases c <;> obtain ⟨a, ha, rfl⟩ := Draft.map_ok h
  case dimension name =>
    obtain ⟨rfl, rfl⟩ := Draft.pushDimension_ok ha
    exact .dimension name
  case measures =>
    obtain ⟨d, l⟩ := a
    obtain ⟨rfl, rfl, rfl⟩ := Draft.addMeasures_ok ha
    exact .measures
  case hierarchy id name =>
    obtain ⟨dim, rfl, rfl⟩ := Draft.pushHierarchy_ok ha
    exact .hierarchy id dim name
  case allLevel id name =>
    obtain ⟨l, m⟩ := a
    obtain ⟨hier, rfl, rfl, rfl⟩ := Draft.addAllLevel_ok ha
    exact .allLevel id hier name
  case level id name =>
    obtain ⟨hier, rfl, rfl⟩ := Draft.pushLevel_ok ha
    exact .level id hier name
  case member id name parent =>
    obtain ⟨scope, rfl, rfl⟩ := Draft.addMember_ok ha
    exact .member id scope name parent
  case defaultMember id chosen =>
    obtain ⟨hier, found, rfl⟩ := Draft.setDefaultMember_ok ha
    exact .defaultMember id hier chosen found
  case cube name dims =>
    obtain ⟨rfl, rfl⟩ := Draft.addCube_ok ha
    exact .cube name dims

/-- The indices after the last ones of the tables that a command adds to. -/
def nextIds (t : Tables) : Command → Reply
  | dimension _ => .one t.dimensions.size
  | measures => .two t.dimensions.size t.levels.size
  | hierarchy _ _ => .one t.hierarchies.size
  | allLevel _ _ => .two t.levels.size t.members.size
  | level _ _ => .one t.levels.size
  | member _ _ _ => .one t.members.size
  | defaultMember _ _ => .done
  | cube _ _ => .one t.cubes.size

/-- The elements that a command was asked for are in the tables, where it answered. -/
def Stands (t : Tables) : Command → Reply → Prop
  | dimension name, .one i => t.dimensions[i]?.map (·.name) = some name
  | measures, .two i l =>
    t.dimensions[i]?.map (fun d => (d.name, d.measures)) = some (measuresName, true) ∧
      ∃ h, t.levels[l]?.map (fun lvl => (lvl.name, lvl.hierarchy)) = some (measuresLevelName, h) ∧
        t.hierarchies[h]?.map (fun hier => (hier.name, hier.dimension)) = some (measuresName, i)
  | hierarchy id name, .one i =>
    t.hierarchies[i]?.map (fun h => (h.name, h.dimension)) = some (name, id)
  | allLevel id name, .two l m =>
    t.levels[l]?.map (fun lvl => (lvl.hierarchy, lvl.all)) = some (id, true) ∧
      t.members[m]?.map (fun mem => (mem.name, mem.level, mem.parent)) = some (name, l, none)
  | level id name, .one i =>
    t.levels[i]?.map (fun lvl => (lvl.name, lvl.hierarchy)) = some (name, id)
  | member id name parent, .one i =>
    t.members[i]?.map (fun mem => (mem.name, mem.level, mem.parent)) = some (name, id, parent)
  | defaultMember id chosen, .done => t.hierarchies[id]?.bind (·.defaultMember) = some chosen
  | cube name dimensions, .one i => t.cubes[i]? = some ⟨name, dimensions⟩
  | _, _ => False

/-- What a change keeps of a new entry is what the entry was added with. -/
theorem map_getElem?_modify_push {α γ : Type} (g : α → γ) {f : α → α} (xs : Array α) (x : α)
    (hf : ∀ a, g (f a) = g a) : ((xs.push x).modify xs.size f)[xs.size]?.map g = some (g x) := by
  rw [map_getElem?_modify g _ _ _ hf, Array.getElem?_push_size, Option.map_some]

/-- A new level is at the end of its table, with its name and hierarchy. -/
theorem level_added (t : Tables) (id : HierarchyId) (hier : Hierarchy) (name : String)
    (all : Bool) :
    (t.addLevel id hier name all).levels[t.levels.size]?.map
      (fun lvl => (lvl.name, lvl.hierarchy)) = some (name, id) := by
  simp only [Tables.addLevel]
  rw [Array.getElem?_push_size, Option.map_some]

/-- A new member is at the end of its table, with its name, level and parent. -/
theorem member_added (t : Tables) (id : LevelId) (scope name : String) (parent : Option MemberId) :
    (t.addMember id scope name parent).members[t.members.size]?.map
      (fun mem => (mem.name, mem.level, mem.parent)) = some (name, id, parent) := by
  simp only [Tables.addMember]
  rw [Tables.map_getElem?_addChild _ fun _ _ => rfl, Array.getElem?_push_size]
  rfl

namespace Effect

variable {t t' : Tables} {c : Command} {reply : Reply}

theorem reply_eq (h : Effect t c reply t') : reply = c.nextIds t := by
  cases h <;> rfl

theorem stands (h : Effect t c reply t') : c.Stands t' reply := by
  cases h with
  | dimension name => simp [Stands, Tables.addDimension]
  | measures =>
    refine ⟨?_, t.hierarchies.size, level_added _ _ _ _ _, ?_⟩
    · exact map_getElem?_modify_push (fun d : Dimension => (d.name, d.measures)) _ _ fun _ => rfl
    · exact map_getElem?_modify_push (fun h : Hierarchy => (h.name, h.dimension)) _ _ fun _ => rfl
  | hierarchy id dim name => simp [Stands, Tables.addHierarchy]
  | allLevel id hier name =>
    refine ⟨?_, member_added (t.addLevel id hier allLevelName true) _ _ name none⟩
    exact map_getElem?_modify_push (fun l : Level => (l.hierarchy, l.all)) _ _ fun _ => rfl
  | level id hier name => exact level_added t id hier name false
  | member id scope name parent => exact member_added t id scope name parent
  | defaultMember id hier chosen found =>
    simp [Stands, Tables.nameDefault, Array.getElem?_modify, found]
  | cube name dims => simp [Stands, Tables.addCube]

end Effect

end Command

/-! ## Runs of commands -/

/-- Whatever commands follow, and whether they succeed or fail, tables only grow: none of them gets
shorter, the entries that were there keep all that was recorded of them apart from default members,
their lists of parts get longer at the end only, and the index leads where it led.  A command that
succeeds answers the sizes of the tables that it adds to, and there the new elements are. -/
theorem Tables.drafting_only_appends (t : Tables) (commands : List Command) :
    t.Extends (t.after commands) ∧ (t.after commands).name = t.name ∧
      t.cubes.size ≤ (t.after commands).cubes.size ∧
      (∀ k, t.count k ≤ (t.after commands).count k) ∧
      (∀ n m, t.memberIndex.lookup n = some m →
        (t.after commands).memberIndex.lookup n = some m) ∧
      ∀ (c : Command) (reply : Reply) (t' : Tables), c.run t = (.ok reply, t') →
        reply = c.nextIds t ∧ c.Stands t' reply := by
  have hext := t.extends_after commands
  refine ⟨hext, t.name_after commands, hext.cubes.size_le, hext.count_le, ?_, ?_⟩
  · intro n m hm
    exact hext.lookup hm
  · intro c reply t' h
    have heffect := Command.effect_of_ok h
    exact ⟨heffect.reply_eq, heffect.stands⟩

/-- A second member is added after the first one, the first one is refused when it is to be added
again, and the second one becomes the default member.  The first one is still found. -/
theorem Tables.drafting_only_appends_past_refusal :
    let t := (Tables.empty "Sales").after [.dimension "Store", .hierarchy 0 "Store",
      .level 0 "City", .member 0 "Rome" none]
    let c := Command.member 0 "Oslo" none
    let t' := t.after [c, .member 0 "Rome" none, .defaultMember 0 1]
    t.memberIndex.lookup "[Store].[Rome]" = some 0 ∧ t.Extends t' ∧
      t'.memberIndex.lookup "[Store].[Rome]" = some 0 ∧
      (c.run t).1 = .ok (.one 1) ∧ c.nextIds t = .one 1 ∧ c.Stands (c.run t).2 (.one 1) := by
  intro t c t'
  have hlookup : t.memberIndex.lookup "[Store].[Rome]" = some 0 := by decide +kernel
  have hok : (c.run t).1 = .ok (.one 1) := ok_of_toOption (by decide +kernel)
  obtain ⟨hext, -, -, -, hindex, hanswer⟩ :=
    drafting_only_appends t [c, .member 0 "Rome" none, .defaultMember 0 1]
  obtain ⟨hnext, hstands⟩ := hanswer c (.one 1) (c.run t).2 (Prod.ext hok rfl)
  exact ⟨hlookup, hext, hindex _ _ hlookup, hok, hnext.symm, hstands⟩

end Hypercube
