import Hypercube.Proofs.Addressing

/-!
# Unique names of members spell out the way to them

A unique name is put together step by step, from the stored name of the parent, and names of an all
level are left out on the way.  In the end it spells out the lineage of the member, from the unique
name of its hierarchy downwards.  The index is the exact inverse: it has one entry for each member,
in the order in which they were added.

* `Tables.spell`, `Tables.mentioned` — a scope followed by names, and the members of a lineage that
  a unique name mentions.
* `Tables.uniqueName_of_lineage` — the unique name of a member with a lineage.
* `Tables.Listed` — the index lists the members; an invariant of drafting.
* `Tables.CanonicallyNamed`, `Tables.member_names_are_canonical` — all that is required of unique
  names of members, and that it holds after every run of commands, and of every finished schema.
-/

set_option autoImplicit false

namespace Hypercube

namespace Tables

variable {t t' : Tables}

/-! ## Spelling -/

/-- A scope followed by names, each in brackets. -/
def spell (scope : String) (names : List String) : String :=
  names.foldl qualify scope

theorem spell_concat (scope : String) (names : List String) (name : String) :
    spell scope (names ++ [name]) = qualify (spell scope names) name := by
  simp [spell]

/-- The members of a lineage that a unique name mentions.  An all member is left out, unless it is
the member that is named. -/
def mentioned (t : Tables) : List MemberId → List MemberId
  | a :: b :: below => if t.onAllLevel a then b :: below else a :: b :: below
  | ids => ids

/-- Below the top, unique names mention one member more at each step. -/
theorem mentioned_concat {above : List MemberId} (m : MemberId) (hne : above ≠ [])
    (hall : ∀ a, above = [a] → t.onAllLevel a = false) :
    t.mentioned (above ++ [m]) = t.mentioned above ++ [m] := by
  match above with
  | [] => exact absurd rfl hne
  | [a] => simp [mentioned, hall a rfl]
  | a :: b :: below =>
    by_cases ha : t.onAllLevel a = true
    · simp [mentioned, ha]
    · simp [mentioned, ha]

/-- The unique name of a member at the front of a hierarchy. -/
theorem uniqueName_of_atFront (hn : t.WellNamed) {m : MemberId} {mem : Member} {h k : Nat}
    {hier : Hierarchy} (hm : t.members[m]? = some mem) (hplace : t.place? m = some (h, k))
    (hhier : t.hierarchies[h]? = some hier)
    (hfront : mem.parent = none ∨ ∃ p, mem.parent = some p ∧ t.onAllLevel p = true) :
    mem.uniqueName = spell hier.uniqueName [t.memberName m] := by
  obtain ⟨scope, hscope, hname⟩ := hn.composed m mem hm
  have hscope' := scope?_of_atFront hm hplace hfront
  rw [hscope, hhier, Option.map_some, Option.some.injEq] at hscope'
  rw [hname, hscope', ← memberName_of hm]
  rfl

/-- A unique name spells out the lineage of its member, from the hierarchy downwards. -/
theorem uniqueName_of_lineage (hs : t.Sound) (hn : t.WellNamed) {m : MemberId}
    {ids : List MemberId} (hline : t.Lineage m ids) {mem : Member} {h k : Nat} {hier : Hierarchy}
    (hm : t.members[m]? = some mem) (hplace : t.place? m = some (h, k))
    (hhier : t.hierarchies[h]? = some hier) :
    mem.uniqueName = spell hier.uniqueName ((t.mentioned ids).map t.memberName) := by
  -- on the lineage; the member just above has been spelled out before
  induction hline generalizing mem k with
  | top found parentless =>
    cases hm.symm.trans found
    exact uniqueName_of_atFront hn found hplace hhier (.inl parentless)
  | @child m p _ above found parent up ih =>
    cases hm.symm.trans found
    by_cases hall : t.onAllLevel p = true
    · obtain ⟨_, hplace'⟩ := hs.place?_of_onAllLevel hall
      obtain ⟨all, hp, hnone⟩ := hs.parentless_of_place? hplace'
      have habove : above = [p] := up.unique (.top hp hnone)
      have hshown : t.mentioned (above ++ [m]) = [m] := by
        simp [habove, mentioned, hall]
      rw [hshown]
      exact uniqueName_of_atFront hn found hplace hhier (.inr ⟨p, parent, hall⟩)
    · have hfirst : ∀ a, above = [a] → t.onAllLevel a = false := by
        rintro a rfl
        have hlast : a = p := Option.some.inj up.getLast?
        rw [hlast]
        exact Bool.eq_false_iff.2 hall
      obtain ⟨h', k', hplace', hp⟩ := hs.place?_of_child found parent
      cases hplace.symm.trans hplace'
      obtain ⟨scope, hscope, hname⟩ := hn.composed m _ found
      rw [parent, scope?, if_neg hall] at hscope
      obtain ⟨parentMem, hparent, rfl⟩ := Option.map_eq_some_iff.1 hscope
      rw [mentioned_concat m up.ne_nil hfirst, List.map_append, List.map_singleton, spell_concat,
        ← ih hparent hp, memberName_of found, hname]

/-! ## The index -/

/-- The index lists the unique names of all members, each with its place in the table. -/
def Listed (t : Tables) : Prop :=
  t.memberIndex = (t.members.toList.map (·.uniqueName)).zipIdx

namespace Listed

theorem empty (name : String) : (Tables.empty name).Listed := rfl

/-- A new member adds its unique name at the end. -/
theorem names_addMember (t : Tables) (id : LevelId) (scope name : String)
    (parent : Option MemberId) :
    (t.addMember id scope name parent).members.toList.map (·.uniqueName) =
      t.members.toList.map (·.uniqueName) ++ [qualify scope name] := by
  have hpush : t.members.toList.map (·.uniqueName) ++ [qualify scope name] =
      (t.members.push ⟨name, qualify scope name, id, parent, []⟩).toList.map (·.uniqueName) := by
    simp
  rw [hpush]
  apply List.ext_getElem?
  intro i
  simp only [List.getElem?_map, Array.getElem?_toList]
  exact Tables.map_getElem?_addChild _ (fun _ _ => rfl) _ parent _ i

theorem edit (h : t.Listed) (e : Edit t t') : t'.Listed := by
  cases e with
  | member id lvl scope name parent found named fresh only =>
    unfold Listed at *
    rw [names_addMember, List.zipIdx_append, ← h]
    simp [addMember]
  | dimension | hierarchy | level | defaultMember | cube => exact h

theorem after (name : String) (commands : List Command) :
    ((Tables.empty name).after commands).Listed :=
  invariant_after (fun _ _ h e => h.edit e) (.empty name) commands

theorem build {s : Schema} (h : t.Listed) (hb : t.build = .ok s) : s.toTables.Listed := by
  rw [build_ok hb]
  exact h

end Listed

/-! ## Canonical names -/

/-- What is required of unique names of members, and of the index. -/
structure CanonicallyNamed (t : Tables) : Prop where
  /-- A unique name spells out the lineage, from the unique name of the hierarchy downwards. -/
  spelled : ∀ m mem, t.members[m]? = some mem → ∃ h k hier ids, t.place? m = some (h, k) ∧
    t.hierarchies[h]? = some hier ∧ t.Lineage m ids ∧
    mem.uniqueName = spell hier.uniqueName ((t.mentioned ids).map t.memberName)
  /-- Members have different unique names. -/
  distinct : ∀ (i j : MemberId) (a b : Member), t.members[i]? = some a → t.members[j]? = some b →
    a.uniqueName = b.uniqueName → i = j
  /-- The index has one entry for each member, and leads from unique names back to members. -/
  listed : t.Listed
  inverse : ∀ (n : String) (m : MemberId),
    t.memberIndex.lookup n = some m ↔ ∃ mem, t.members[m]? = some mem ∧ mem.uniqueName = n
  /-- Children of one parent have different names, and so have members of one level without
  parents. -/
  siblings : ∀ (i j : MemberId) (a b : Member), t.members[i]? = some a → t.members[j]? = some b →
    a.parent = b.parent → (a.parent = none → a.level = b.level) → a.name = b.name → i = j
  /-- No child of an all member has its name. -/
  belowAll : ∀ (m p : MemberId) (mem all : Member), t.members[m]? = some mem →
    t.members[p]? = some all → mem.parent = some p → t.onAllLevel p = true → mem.name ≠ all.name

/-- Members of one level without parents are named in the same scope. -/
theorem WellNamed.parentless_names_differ (hn : t.WellNamed) {i j : MemberId} {a b : Member}
    (ha : t.members[i]? = some a) (hb : t.members[j]? = some b) (hpa : a.parent = none)
    (hpb : b.parent = none) (hlevel : a.level = b.level) (hname : a.name = b.name) : i = j := by
  refine hn.eq_of_scope ha hb ?_ hname
  rw [hpa, hpb, hlevel]

/-- An all member and its children are named in the same scope. -/
theorem WellNamed.name_ne_of_all_parent (hn : t.WellNamed) (hs : t.Sound) {m p : MemberId}
    {mem all : Member} (hm : t.members[m]? = some mem) (hp : t.members[p]? = some all)
    (hparent : mem.parent = some p) (hall : t.onAllLevel p = true) : mem.name ≠ all.name := by
  intro hname
  obtain ⟨h, k, hplace, hplace'⟩ := hs.place?_of_child hm hparent
  obtain ⟨h', htop⟩ := hs.place?_of_onAllLevel hall
  obtain ⟨all', hp', hnone⟩ := hs.parentless_of_place? htop
  cases hp.symm.trans hp'
  rw [← memberName_of hm, ← memberName_of hp] at hname
  have hsame : m = p := hn.front_names_differ ⟨mem, _, hm, hplace, .inr ⟨p, hparent, hall⟩⟩
    ⟨all, _, hp, hplace', .inl hnone⟩ hname
  -- the all member would be its own child
  subst hsame
  cases hm.symm.trans hp
  cases hparent.symm.trans hnone

theorem canonicallyNamed (hs : t.Sound) (hn : t.WellNamed) (hl : t.Listed) :
    t.CanonicallyNamed where
  spelled m mem hm := by
    obtain ⟨h, k, hplace, -⟩ := hs.parents m mem hm
    obtain ⟨ids, hline⟩ := hs.exists_lineage (Array.getElem?_eq_some_iff.1 hm).1
    obtain ⟨l, hl, hrank⟩ := Option.bind_eq_some_iff.1 hplace
    obtain ⟨lvl, hlvl, hq⟩ := Option.map_eq_some_iff.1 hrank
    obtain ⟨rfl, -⟩ := Prod.mk.inj hq
    have hlt := hs.anchored.levels lvl (Array.mem_of_getElem? hlvl)
    have hhier : t.hierarchies[lvl.hierarchy]? = some t.hierarchies[lvl.hierarchy] :=
      Array.getElem?_eq_getElem hlt
    exact ⟨_, k, _, ids, hplace, hhier, hline,
      uniqueName_of_lineage hs hn hline hm hplace hhier⟩
  distinct i j a b ha hb hname := by
    refine hn.eq_of_uniqueName (n := a.uniqueName) ?_ ?_
    · rw [ha, Option.map_some]
    · rw [hb, Option.map_some, hname]
  listed := hl
  inverse n m := by rw [hn.indexed, Option.map_eq_some_iff]
  siblings i j a b ha hb hparent hlevel hname := by
    cases hp : a.parent with
    | none => exact hn.parentless_names_differ ha hb hp (hparent ▸ hp) (hlevel hp) hname
    | some p =>
      refine hn.sibling_names_differ hs ha hb hp (hparent ▸ hp) ?_
      rw [memberName_of ha, memberName_of hb, hname]
  belowAll m p mem all hm hp hparent hall :=
    hn.name_ne_of_all_parent hs hm hp hparent hall

/-- Whatever commands are run on empty tables, and whichever of them fail, unique names of members
spell out the way to them, they are all different, and the index leads from exactly these names back
to the members.  The same holds of the schema that the tables are finished to, in which a member is
found by its unique name and by no other. -/
theorem member_names_are_canonical (name : String) (commands : List Command) :
    ((Tables.empty name).after commands).CanonicallyNamed ∧
      ∀ s, ((Tables.empty name).after commands).build = .ok s →
        s.toTables.CanonicallyNamed ∧
          ∀ n m, s.memberByUniqueName? n = some m ↔
            ∃ mem, s.members[m]? = some mem ∧ mem.uniqueName = n := by
  have hs := Sound.after name commands
  have hn := WellNamed.after name commands
  have hl := Listed.after name commands
  refine ⟨canonicallyNamed hs hn hl, fun s hb => ?_⟩
  have hfinished := canonicallyNamed (hs.build hb) (hn.build hs.anchored hb) (hl.build hb)
  exact ⟨hfinished, hfinished.inverse⟩

/-- A country that is called like the way to a city, or like the all member, is refused.  The city is
found by the names of the country and its own. -/
theorem member_names_are_canonical_of_italianCity :
    let t := (Tables.empty "Shop").after [.dimension "Store", .hierarchy 0 "Store",
      .allLevel 0 "All", .level 0 "Country", .level 0 "City", .member 1 "Italy" (some 0),
      .member 2 "Rome" (some 1), .member 1 "Italy].[Rome" (some 0), .member 1 "All" (some 0)]
    t.build = .ok Schema.italianCity ∧ t.CanonicallyNamed ∧
      Schema.italianCity.Lineage 2 [0, 1, 2] ∧
      (Schema.italianCity.mentioned [0, 1, 2]).map Schema.italianCity.memberName =
        ["Italy", "Rome"] ∧
      Schema.italianCity.memberByUniqueName? (spell "[Store]" ["Italy", "Rome"]) = some 2 := by
  intro t
  have hb : t.build = .ok Schema.italianCity := build_of_toOption (by decide +kernel)
  obtain ⟨ht, hbuilt⟩ := member_names_are_canonical "Shop" [.dimension "Store",
    .hierarchy 0 "Store", .allLevel 0 "All", .level 0 "Country", .level 0 "City",
    .member 1 "Italy" (some 0), .member 2 "Rome" (some 1), .member 1 "Italy].[Rome" (some 0),
    .member 1 "All" (some 0)]
  obtain ⟨-, hfound⟩ := hbuilt _ hb
  refine ⟨hb, ht, Schema.lineage_italianCity, by decide +kernel, ?_⟩
  exact (hfound _ 2).2 ⟨_, rfl, by decide +kernel⟩

end Tables

end Hypercube
