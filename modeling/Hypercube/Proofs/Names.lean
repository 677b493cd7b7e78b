import Hypercube.Proofs.Growth

/-!
# Unique names of members

A member is named in a scope: its parent's unique name, or that of its hierarchy if it has no parent
or its parent is an all member.  Unique names of members are kept in an index, in which a new one
must not be found.  So members of one scope have different names.

* `Tables.scope?` — the scope of a member, read off the tables.
* `Tables.WellNamed` — unique names are made of scope and name, and the index holds exactly the
  unique names of members; an invariant of drafting, and of finishing a schema.
* `Tables.WellNamed.front_names_differ` — members of a hierarchy that have none but an all member
  above them have different names.
* `Tables.WellNamed.sibling_names_differ` — children of one parent have different names.
-/

set_option autoImplicit false

namespace Hypercube

namespace Tables

/-! ## Scopes -/

/-- The unique name of the hierarchy of a level. -/
def hierarchyName? (t : Tables) (l : LevelId) : Option String :=
  (t.levels[l]?.bind fun lvl => t.hierarchies[lvl.hierarchy]?).map (·.uniqueName)

/-- A member is on an all level. -/
def onAllLevel (t : Tables) (m : MemberId) : Bool :=
  (t.members[m]?.bind fun mem => t.levels[mem.level]?).any (·.all)

/-- The scope in which a member of a level is named. -/
def scope? (t : Tables) (l : LevelId) : Option MemberId → Option String
  | none => t.hierarchyName? l
  | some p => if t.onAllLevel p then t.hierarchyName? l else t.members[p]?.map (·.uniqueName)

variable {t t' : Tables}

theorem onAllLevel_iff {m : MemberId} :
    t.onAllLevel m = true ↔
      ∃ mem lvl, t.members[m]? = some mem ∧ t.levels[mem.level]? = some lvl ∧ lvl.all = true := by
  simp only [onAllLevel, Option.any_eq_true, Option.bind_eq_some_iff]
  constructor
  · rintro ⟨lvl, ⟨mem, hm, hl⟩, hall⟩
    exact ⟨mem, lvl, hm, hl, hall⟩
  · rintro ⟨mem, lvl, hm, hl, hall⟩
    exact ⟨lvl, ⟨mem, hm, hl⟩, hall⟩

/-- The scope that is found for a new member. -/
theorem scope?_of_memberScope {id : LevelId} {lvl : Level} {name scope : String}
    {parent : Option MemberId} (found : t.levels[id]? = some lvl)
    (named : (Draft.on (Draft.memberScope lvl name parent) t).1 = .ok scope) :
    t.scope? id parent = some scope := by
  obtain ⟨hier, hhier, hroot | hbelow⟩ := Draft.memberScope_ok named
  · obtain ⟨rfl, -, rfl⟩ := hroot
    simp [scope?, hierarchyName?, found, hhier]
  · obtain ⟨p, above, levelAbove, rfl, habove, hlevel, -, -, rfl⟩ := hbelow
    have hall : t.onAllLevel p = levelAbove.all := by
      simp [onAllLevel, habove, hlevel]
    rw [scope?, hall]
    split
    · simp [hierarchyName?, found, hhier]
    · simp [habove]

namespace Extends

theorem hierarchyName? (he : t.Extends t') {l : LevelId} {n : String}
    (h : t.hierarchyName? l = some n) : t'.hierarchyName? l = some n := by
  obtain ⟨hier, hhier, rfl⟩ := Option.map_eq_some_iff.1 h
  obtain ⟨lvl, hlvl, hhier⟩ := Option.bind_eq_some_iff.1 hhier
  obtain ⟨lvl', hlvl', grow⟩ := he.levels l lvl hlvl
  obtain ⟨hier', hhier', grow'⟩ := he.hierarchies _ hier hhier
  simp [Tables.hierarchyName?, hlvl', grow.hierarchy, hhier', grow'.uniqueName]

/-- A member that is on an all level stays on it, and no other member gets there. -/
theorem onAllLevel (he : t.Extends t') (ha : t.Anchored) {m : MemberId} {mem : Member}
    (hm : t.members[m]? = some mem) : t'.onAllLevel m = t.onAllLevel m := by
  have hlt := ha.members mem (Array.mem_of_getElem? hm)
  have hlvl : t.levels[mem.level]? = some t.levels[mem.level] := Array.getElem?_eq_getElem hlt
  obtain ⟨mem', hm', grow⟩ := he.members m mem hm
  obtain ⟨lvl', hlvl', grow'⟩ := he.levels _ _ hlvl
  simp only [Tables.onAllLevel, hm, hm', Option.bind_some, grow.level, hlvl, hlvl', Option.any_some,
    grow'.all]

/-- Scopes stay. -/
theorem scope? (he : t.Extends t') (ha : t.Anchored) {l : LevelId} {parent : Option MemberId}
    {n : String} (h : t.scope? l parent = some n) : t'.scope? l parent = some n := by
  cases parent with
  | none => exact he.hierarchyName? h
  | some p =>
    simp only [Tables.scope?] at h ⊢
    cases hp : t.members[p]? with
    | none =>
      rw [hp, Tables.onAllLevel, hp] at h
      cases h
    | some above =>
      rw [he.onAllLevel ha hp]
      split at h
      · rename_i hall
        rw [if_pos hall]
        exact he.hierarchyName? h
      · rename_i hall
        obtain ⟨above', habove', grow⟩ := he.members p above hp
        rw [if_neg hall, habove', Option.map_some, grow.uniqueName]
        rwa [hp] at h

end Extends

/-! ## Unique names -/

/-- Unique names of members are made of their scope and their name, and the index leads from them
to the members. -/
structure WellNamed (t : Tables) : Prop where
  composed : ∀ (m : MemberId) (mem : Member), t.members[m]? = some mem →
    ∃ scope, t.scope? mem.level mem.parent = some scope ∧ mem.uniqueName = qualify scope mem.name
  indexed : ∀ (n : String) (m : MemberId),
    t.memberIndex.lookup n = some m ↔ t.members[m]?.map (·.uniqueName) = some n

/-- A member after one is added is an old one, or the new one. -/
theorem of_getElem?_addMember {id : LevelId} {scope name : String} {parent : Option MemberId}
    {m : MemberId} {mem : Member}
    (hm : (t.addMember id scope name parent).members[m]? = some mem) :
    (∃ old, t.members[m]? = some old ∧ old.Grows mem) ∨
      m = t.members.size ∧ Member.Grows ⟨name, qualify scope name, id, parent, []⟩ mem := by
  have grown : ∃ old, (t.members.push ⟨name, qualify scope name, id, parent, []⟩)[m]? = some old ∧
      old.Grows mem := by
    cases parent with
    | none => exact ⟨mem, hm, .refl mem⟩
    | some p =>
      obtain ⟨old, ho, rfl | ⟨-, rfl⟩⟩ := of_getElem?_modify hm
      · exact ⟨_, ho, .refl _⟩
      · exact ⟨old, ho, rfl, rfl, rfl, rfl, List.prefix_append _ _⟩
  obtain ⟨old, ho, grow⟩ := grown
  obtain ho | ⟨rfl, rfl⟩ := of_getElem?_push ho
  · exact .inl ⟨old, ho, grow⟩
  · exact .inr ⟨rfl, grow⟩

namespace WellNamed

theorem empty (name : String) : (Tables.empty name).WellNamed :=
  ⟨(fun _ _ hm => nomatch hm), fun _ _ => ⟨(fun h => nomatch h), fun h => nomatch h⟩⟩

/-- As long as no member is added, unique names stay what they are. -/
theorem of_same_members (h : t.WellNamed) (ha : t.Anchored) (he : t.Extends t')
    (hmembers : t'.members = t.members) (hindex : t'.memberIndex = t.memberIndex) :
    t'.WellNamed := by
  refine ⟨fun m mem hm => ?_, by rw [hmembers, hindex]; exact h.indexed⟩
  obtain ⟨scope, hscope, hname⟩ := h.composed m mem (hmembers ▸ hm)
  exact ⟨scope, he.scope? ha hscope, hname⟩

/-- A member with a unique name that was not in the index is the only one of that name. -/
theorem indexed_addMember (h : t.WellNamed) {id : LevelId} {scope name : String}
    {parent : Option MemberId} (fresh : ¬ (t.memberIndex.lookup (qualify scope name)).isSome) :
    ∀ n m, (t.addMember id scope name parent).memberIndex.lookup n = some m ↔
      (t.addMember id scope name parent).members[m]?.map (·.uniqueName) = some n := by
  intro n m
  have hfresh : t.memberIndex.lookup (qualify scope name) = none :=
    Option.not_isSome_iff_eq_none.1 fresh
  have hlookup : (t.addMember id scope name parent).memberIndex.lookup n =
      if n = qualify scope name then some t.members.size else t.memberIndex.lookup n := by
    simp only [addMember]
    rw [List.lookup_append]
    split
    · rename_i hn
      rw [hn, hfresh]
      simp
    · rename_i hn
      have hne : (n == qualify scope name) = false := beq_false_of_ne hn
      rw [List.lookup_cons, hne, List.lookup_nil, Option.or_none]
  have hmember : (t.addMember id scope name parent).members[m]?.map (·.uniqueName) =
      if m = t.members.size then some (qualify scope name)
      else t.members[m]?.map (·.uniqueName) := by
    simp only [addMember]
    rw [Tables.map_getElem?_addChild (·.uniqueName) fun _ _ => rfl, Array.getElem?_push]
    split <;> rfl
  have hold := h.indexed n m
  rw [hlookup, hmember]
  by_cases hn : n = qualify scope name
  · by_cases hm : m = t.members.size
    · rw [if_pos hn, if_pos hm, hn, hm]
      exact iff_of_true rfl rfl
    · rw [if_pos hn, if_neg hm, ← hold, hn, hfresh]
      exact iff_of_false (fun hi => hm (Option.some.inj hi).symm) (Option.some_ne_none m).symm
  · by_cases hm : m = t.members.size
    · rw [if_neg hn, if_pos hm, hold, hm]
      exact iff_of_false (by simp) fun hi => hn (Option.some.inj hi).symm
    · rw [if_neg hn, if_neg hm, hold]

theorem edit (h : t.WellNamed) (ha : t.Anchored) (e : Edit t t') : t'.WellNamed := by
  have he := e.extends
  cases e with
  | member id lvl scope name parent found named fresh only =>
    refine ⟨fun m mem hm => ?_, h.indexed_addMember fresh⟩
    obtain ⟨old, ho, grow⟩ | ⟨-, grow⟩ := of_getElem?_addMember hm
    · obtain ⟨scope, hscope, hname⟩ := h.composed m old ho
      rw [grow.level, grow.parent, grow.name, grow.uniqueName]
      exact ⟨scope, he.scope? ha hscope, hname⟩
    · rw [grow.level, grow.parent, grow.name, grow.uniqueName]
      exact ⟨scope, he.scope? ha (scope?_of_memberScope found named), rfl⟩
  | dimension | hierarchy | level | defaultMember | cube => exact h.of_same_members ha he rfl rfl

theorem after (name : String) (commands : List Command) :
    ((Tables.empty name).after commands).WellNamed := by
  have both : ((Tables.empty name).after commands).Anchored ∧
      ((Tables.empty name).after commands).WellNamed :=
    invariant_after (P := fun t => t.Anchored ∧ t.WellNamed)
      (fun _ _ h e => ⟨h.1.edit e, h.2.edit h.1 e⟩) ⟨.empty name, .empty name⟩ commands
  exact both.2

theorem build {s : Schema} (h : t.WellNamed) (ha : t.Anchored) (hb : t.build = .ok s) :
    s.toTables.WellNamed := by
  refine h.of_same_members ha (extends_of_build hb) ?_ ?_
  · rw [build_ok hb]
  · rw [build_ok hb]

/-! ## Members of one scope -/

theorem eq_of_uniqueName (h : t.WellNamed) {i j : MemberId} {n : String}
    (hi : t.members[i]?.map (·.uniqueName) = some n)
    (hj : t.members[j]?.map (·.uniqueName) = some n) : i = j :=
  Option.some.inj (((h.indexed n i).2 hi).symm.trans ((h.indexed n j).2 hj))

theorem eq_of_scope (h : t.WellNamed) {i j : MemberId} {a b : Member} (hi : t.members[i]? = some a)
    (hj : t.members[j]? = some b)
    (hscope : t.scope? a.level a.parent = t.scope? b.level b.parent) (hname : a.name = b.name) :
    i = j := by
  obtain ⟨scope, ha, hua⟩ := h.composed i a hi
  obtain ⟨scope', hb, hub⟩ := h.composed j b hj
  obtain rfl : scope = scope' := Option.some.inj (ha.symm.trans (hscope.trans hb))
  refine h.eq_of_uniqueName (n := qualify scope a.name) ?_ ?_
  · rw [hi, Option.map_some, hua]
  · rw [hj, Option.map_some, hub, hname]

end WellNamed

/-- The name of a member. -/
def memberName (t : Tables) (m : MemberId) : String :=
  (t.members[m]?.map (·.name)).getD ""

theorem memberName_of {m : MemberId} {mem : Member} (hm : t.members[m]? = some mem) :
    t.memberName m = mem.name := by
  rw [memberName, hm]
  rfl

/-- A member of a hierarchy has no parent, or an all member as its parent. -/
def AtFront (t : Tables) (h : HierarchyId) (m : MemberId) : Prop :=
  ∃ mem k, t.members[m]? = some mem ∧ t.place? m = some (h, k) ∧
    (mem.parent = none ∨ ∃ p, mem.parent = some p ∧ t.onAllLevel p = true)

/-- Members at the front of a hierarchy are named in the hierarchy. -/
theorem scope?_of_atFront {h k : Nat} {m : MemberId} {mem : Member}
    (hm : t.members[m]? = some mem) (hplace : t.place? m = some (h, k))
    (hfront : mem.parent = none ∨ ∃ p, mem.parent = some p ∧ t.onAllLevel p = true) :
    t.scope? mem.level mem.parent = t.hierarchies[h]?.map (·.uniqueName) := by
  have hname : t.hierarchyName? mem.level = t.hierarchies[h]?.map (·.uniqueName) := by
    rw [place?, hm] at hplace
    obtain ⟨lvl, hlvl, hq⟩ := Option.map_eq_some_iff.1 hplace
    cases hq
    simp only [hierarchyName?, hlvl, Option.bind_some]
  obtain hnone | ⟨p, hp, hall⟩ := hfront
  · rw [hnone, scope?, hname]
  · rw [hp, scope?, if_pos hall, hname]

/-- Members at the front of a hierarchy have different names. -/
theorem WellNamed.front_names_differ (hn : t.WellNamed) {h : HierarchyId} {i j : MemberId}
    (hi : t.AtFront h i) (hj : t.AtFront h j) (hname : t.memberName i = t.memberName j) :
    i = j := by
  obtain ⟨a, _, ha, hplace, hfront⟩ := hi
  obtain ⟨b, _, hb, hplace', hfront'⟩ := hj
  rw [memberName_of ha, memberName_of hb] at hname
  refine hn.eq_of_scope ha hb ?_ hname
  rw [scope?_of_atFront ha hplace hfront, scope?_of_atFront hb hplace' hfront']

/-- A child is in the hierarchy of its parent. -/
theorem Sound.place?_of_child (hs : t.Sound) {m p : MemberId} {mem : Member}
    (hm : t.members[m]? = some mem) (hp : mem.parent = some p) :
    ∃ h k, t.place? m = some (h, k + 1) ∧ t.place? p = some (h, k) := by
  obtain ⟨h, k, hplace, ⟨-, hnone⟩ | ⟨q, j, hq, -, rfl, habove⟩⟩ := hs.parents m mem hm
  · cases hp.symm.trans hnone
  · cases hp.symm.trans hq
    exact ⟨h, j, hplace, habove⟩

/-- Children of one parent have different names. -/
theorem WellNamed.sibling_names_differ (hn : t.WellNamed) (hs : t.Sound) {i j p : MemberId}
    {a b : Member} (ha : t.members[i]? = some a) (hb : t.members[j]? = some b)
    (hpa : a.parent = some p) (hpb : b.parent = some p)
    (hname : t.memberName i = t.memberName j) : i = j := by
  by_cases hall : t.onAllLevel p
  · obtain ⟨h, k, hi, hp⟩ := hs.place?_of_child ha hpa
    obtain ⟨h', k', hj, hp'⟩ := hs.place?_of_child hb hpb
    cases hp.symm.trans hp'
    exact hn.front_names_differ ⟨a, _, ha, hi, .inr ⟨p, hpa, hall⟩⟩
      ⟨b, _, hb, hj, .inr ⟨p, hpb, hall⟩⟩ hname
  · rw [memberName_of ha, memberName_of hb] at hname
    refine hn.eq_of_scope ha hb ?_ hname
    rw [hpa, hpb, scope?, scope?, if_neg hall, if_neg hall]

end Tables

end Hypercube
