import Hypercube.Proofs.Addressing
import Hypercube.Proofs.Permanence

/-!
# Finishing a schema, and default members

A schema can be finished when no dimension is without a hierarchy and no hierarchy without a level.
Finishing changes nothing but default members: a hierarchy keeps the one that was named for it last,
and otherwise gets the first member of its first level.  Only that level is looked at, which is
enough, since every member has a member of the first level above it.

* `Tables.Sound.exists_build_iff` — which tables make a schema.
* `Command.chosen?`, `Tables.choices` — the default members that accepted commands name.
* `Command.default?_run`, `Tables.default?_after` — one command, and whole runs: the last accepted
  choice is the default member.
* `Tables.FirstAdded`, `Tables.Sound.exists_firstMember?` — the member that was added first to the
  first level, and that there is one wherever a hierarchy has members.
* `Tables.finished_schema_has_defaults` — when a schema can be finished, what it consists of, and
  the default members of its hierarchies.
-/

set_option autoImplicit false

namespace Hypercube

/-! ## Tables that make a schema -/

/-- A container has a part exactly if some entry names it as its container. -/
theorem Lists.ne_nil_iff {α β : Type} {parts : α → List Nat} {container : β → Option Nat}
    {outer : Array α} {inner : Array β} (h : Lists parts container outer inner) {i : Nat} {o : α}
    (ho : outer[i]? = some o) : parts o ≠ [] ↔ ∃ x ∈ inner, container x = some i := by
  have hindexes := h i o ho
  constructor
  · intro hne
    obtain ⟨j, hj⟩ := List.exists_mem_of_ne_nil _ hne
    obtain ⟨x, hx, hc⟩ := (hindexes.mem_iff j).1 hj
    exact ⟨x, Array.mem_of_getElem? hx, hc⟩
  · rintro ⟨x, hx, hc⟩
    obtain ⟨j, hj⟩ := Array.mem_iff_getElem?.1 hx
    exact List.ne_nil_of_mem ((hindexes.mem_iff j).2 ⟨x, hj, hc⟩)

theorem Lists.forall_ne_nil_iff {α β : Type} {parts : α → List Nat} {container : β → Option Nat}
    {outer : Array α} {inner : Array β} (h : Lists parts container outer inner) :
    (∀ o ∈ outer, parts o ≠ []) ↔ ∀ i < outer.size, ∃ x ∈ inner, container x = some i := by
  constructor
  · intro hall i hi
    exact (h.ne_nil_iff (Array.getElem?_eq_getElem hi)).1 (hall _ (Array.getElem_mem hi))
  · intro hall o ho
    obtain ⟨i, hi⟩ := Array.mem_iff_getElem?.1 ho
    exact (h.ne_nil_iff hi).2 (hall i (Array.getElem?_eq_some_iff.1 hi).1)

namespace Tables

variable {t : Tables}

/-- Tables make a schema if no dimension and no hierarchy is without parts. -/
theorem exists_build_iff_parts :
    (∃ s, t.build = .ok s) ↔
      (∀ d ∈ t.dimensions, d.hierarchies ≠ []) ∧ ∀ h ∈ t.hierarchies, h.levels ≠ [] := by
  have hdims : t.dimensions.find? (·.hierarchies.isEmpty) = none ↔
      ∀ d ∈ t.dimensions, d.hierarchies ≠ [] := by simp
  have hhiers : t.hierarchies.find? (·.levels.isEmpty) = none ↔
      ∀ h ∈ t.hierarchies, h.levels ≠ [] := by simp
  rw [← hdims, ← hhiers]
  simp only [build_eq]
  cases t.dimensions.find? (·.hierarchies.isEmpty) with
  | some d => simp
  | none => cases t.hierarchies.find? (·.levels.isEmpty) <;> simp

theorem Sound.exists_build_iff (ht : t.Sound) :
    (∃ s, t.build = .ok s) ↔
      (∀ d < t.dimensions.size, ∃ hier ∈ t.hierarchies, hier.dimension = d) ∧
        ∀ h < t.hierarchies.size, ∃ lvl ∈ t.levels, lvl.hierarchy = h := by
  rw [exists_build_iff_parts, ht.hierarchies.forall_ne_nil_iff, ht.levels.forall_ne_nil_iff]
  simp only [Option.some.injEq]

/-- The tables without their default members. -/
def withoutDefaults (t : Tables) : Tables :=
  { t with hierarchies := t.hierarchies.map fun h => { h with defaultMember := none } }

theorem withoutDefaults_build {s : Schema} (h : t.build = .ok s) :
    s.toTables.withoutDefaults = t.withoutDefaults := by
  rw [build_ok h]
  simp only [withoutDefaults, Array.map_map]
  rfl

/-! ## Default members along a run -/

/-- The default member of a hierarchy. -/
def default? (t : Tables) (h : HierarchyId) : Option MemberId :=
  t.hierarchies[h]?.bind (·.defaultMember)

theorem default?_addHierarchy (t : Tables) (id : DimensionId) (dim : Dimension) (name : String)
    (h : HierarchyId) : (t.addHierarchy id dim name).default? h = t.default? h := by
  simp only [default?, addHierarchy, Array.getElem?_push]
  split
  · rename_i hsize
    rw [hsize, Array.getElem?_eq_none (Nat.le_refl _)]
    rfl
  · rfl

theorem default?_addLevel (t : Tables) (id : HierarchyId) (hier : Hierarchy) (name : String)
    (all : Bool) (h : HierarchyId) : (t.addLevel id hier name all).default? h = t.default? h := by
  simp only [default?, addLevel, Array.getElem?_modify]
  split
  · cases t.hierarchies[h]? <;> rfl
  · rfl

theorem default?_nameDefault {id : HierarchyId} {hier : Hierarchy} (chosen : MemberId)
    (found : t.hierarchies[id]? = some hier) (h : HierarchyId) :
    (t.nameDefault id chosen).default? h = if id = h then some chosen else t.default? h := by
  simp only [default?, nameDefault, Array.getElem?_modify]
  split
  · rename_i hid
    rw [← hid, found]
    rfl
  · rfl

end Tables

namespace Command

/-- The default member that a command names for a hierarchy, if it is accepted. -/
def chosen? (h : HierarchyId) (c : Command) (t : Tables) : Option MemberId :=
  match c, (c.run t).1 with
  | defaultMember h' m, .ok _ => if h' = h then some m else none
  | _, _ => none

theorem chosen?_of_error {c : Command} {t : Tables} {e : SchemaError}
    (he : (c.run t).1 = .error e) (h : HierarchyId) : c.chosen? h t = none := by
  unfold chosen?
  rw [he]
  split
  · rename_i hok
    cases hok
  · rfl

theorem chosen?_defaultMember {id : HierarchyId} {m : MemberId} {t : Tables} {reply : Reply}
    (hok : ((defaultMember id m).run t).1 = .ok reply) (h : HierarchyId) :
    (defaultMember id m).chosen? h t = if id = h then some m else none := by
  simp only [chosen?, hok]

/-- A refused command leaves default members as they were. -/
theorem default?_of_error {c : Command} {t : Tables} {e : SchemaError}
    (he : (c.run t).1 = .error e) (h : HierarchyId) : (c.run t).2.default? h = t.default? h := by
  by_cases hstop : c.StopsMidway t
  · obtain ⟨id, name, hier, rfl, found, first, taken⟩ := hstop
    rw [run_allLevel_of_taken found first taken]
    exact Tables.default?_addLevel _ _ _ _ _ _
  · obtain ⟨reply, hok⟩ | hkept := careful_execute hstop
    · cases he.symm.trans hok
    · exact congrArg (Tables.default? · h) hkept

/-- A command changes a default member only if it names one and is accepted. -/
theorem default?_run (c : Command) (t : Tables) (h : HierarchyId) :
    (c.run t).2.default? h = (c.chosen? h t).or (t.default? h) := by
  cases hanswer : (c.run t).1 with
  | error e => rw [chosen?_of_error hanswer, Option.none_or, default?_of_error hanswer]
  | ok reply =>
    have heffect : Effect t c reply (c.run t).2 := effect_of_ok (Prod.ext hanswer rfl)
    generalize (c.run t).2 = t' at heffect ⊢
    cases heffect with
    | dimension name => rfl
    | measures =>
      rw [Tables.default?_addLevel, Tables.default?_addHierarchy]
      rfl
    | hierarchy id dim name => exact Tables.default?_addHierarchy _ _ _ _ _
    | allLevel id hier name => exact t.default?_addLevel id hier allLevelName true h
    | level id hier name => exact Tables.default?_addLevel _ _ _ _ _ _
    | member id scope name parent => rfl
    | defaultMember id hier chosen found =>
      rw [chosen?_defaultMember hanswer, Tables.default?_nameDefault chosen found]
      split <;> rfl
    | cube name dims => rfl

end Command

namespace Tables

/-- The default members that the accepted commands of a run name for a hierarchy, in order. -/
def choices (h : HierarchyId) : Tables → List Command → List MemberId
  | _, [] => []
  | t, c :: cs => (c.chosen? h t).toList ++ choices h (c.run t).2 cs

/-- After a run, the last accepted choice is the default member. -/
theorem default?_after (t : Tables) (commands : List Command) (h : HierarchyId) :
    (t.after commands).default? h = (t.choices h commands).getLast?.or (t.default? h) := by
  induction commands generalizing t with
  | nil => rfl
  | cons c cs ih =>
    have hlast : (c.chosen? h t).toList.getLast? = c.chosen? h t := by
      cases c.chosen? h t <;> rfl
    calc (t.after (c :: cs)).default? h
        = (choices h (c.run t).2 cs).getLast?.or ((c.run t).2.default? h) := ih (c.run t).2
      _ = (choices h (c.run t).2 cs).getLast?.or ((c.chosen? h t).or (t.default? h)) := by
          rw [c.default?_run]
      _ = (t.choices h (c :: cs)).getLast?.or (t.default? h) := by
          rw [choices, List.getLast?_append, hlast, Option.or_assoc]

theorem default?_after_empty (name : String) (commands : List Command) (h : HierarchyId) :
    ((Tables.empty name).after commands).default? h =
      ((Tables.empty name).choices h commands).getLast? := by
  rw [default?_after]
  exact Option.or_none

/-- A finished schema has the default members that were named, and the first members of first levels
where none was. -/
theorem defaultMember_of_build {t : Tables} {s : Schema} (hb : t.build = .ok s) {h : HierarchyId}
    {hier : Hierarchy} (hh : s.hierarchies[h]? = some hier) :
    hier.defaultMember = (t.default? h).or (s.firstMember? hier) := by
  rw [build_ok hb] at hh ⊢
  obtain ⟨old, ho, rfl⟩ := Option.map_eq_some_iff.1 (Array.getElem?_map ▸ hh)
  rw [default?, ho]
  exact congrArg Hierarchy.defaultMember (withDefault_eq t old)

end Tables

/-! ## First members -/

/-- The first index of an increasing list is the least one. -/
theorem Indexes.head?_eq_some_iff {α : Type} {ids : List Nat} {xs : Array α} {p : α → Prop}
    (h : Indexes ids xs p) {i : Nat} :
    ids.head? = some i ↔
      (∃ x, xs[i]? = some x ∧ p x) ∧ ∀ j x, xs[j]? = some x → p x → i ≤ j := by
  rw [← h.mem_iff]
  have hinc := h.increasing
  constructor
  · intro hi
    refine ⟨List.mem_of_head? hi, fun j x hx hp => ?_⟩
    have hj : j ∈ ids := (h.mem_iff j).2 ⟨x, hx, hp⟩
    cases ids with
    | nil => cases hi
    | cons k ids =>
      cases hi
      obtain rfl | hj := List.mem_cons.1 hj
      · exact Nat.le_refl _
      · exact Nat.le_of_lt ((List.pairwise_cons.1 hinc).1 j hj)
  · rintro ⟨hi, hleast⟩
    cases ids with
    | nil => cases hi
    | cons k ids =>
      obtain ⟨x, hx, hp⟩ := (h.mem_iff k).1 List.mem_cons_self
      obtain rfl | hi := List.mem_cons.1 hi
      · rfl
      · have hlt := (List.pairwise_cons.1 hinc).1 i hi
        have hle := hleast k x hx hp
        omega

namespace Tables

variable {t : Tables}

/-- A member is on the first level of a hierarchy, and no member was added to that level before
it. -/
def FirstAdded (t : Tables) (hier : Hierarchy) (m : MemberId) : Prop :=
  ∃ root, hier.levels.head? = some root ∧ (∃ mem, t.members[m]? = some mem ∧ mem.level = root) ∧
    ∀ m' mem', t.members[m']? = some mem' → mem'.level = root → m ≤ m'

namespace Sound

theorem firstMember?_eq_some_iff (ht : t.Sound) {h : HierarchyId} {hier : Hierarchy}
    (hh : t.hierarchies[h]? = some hier) {m : MemberId} :
    t.firstMember? hier = some m ↔ t.FirstAdded hier m := by
  rw [firstMember?_eq, FirstAdded]
  cases hroot : hier.levels.head? with
  | none => simp
  | some root =>
    have hrank : t.rank? root = some (h, 0) := ht.head?_levels_iff.1 ⟨hier, hh, hroot⟩
    obtain ⟨lvl, hlvl, -⟩ := Option.map_eq_some_iff.1 hrank
    have hfirst := (ht.members root lvl hlvl).head?_eq_some_iff (i := m)
    simp only [Option.some.injEq] at hfirst
    simp only [Option.bind_eq_bind, Option.bind_some, hlvl, hfirst]
    constructor
    · intro hm
      exact ⟨root, rfl, hm⟩
    · rintro ⟨root', hroot', hm⟩
      cases hroot'
      exact hm

/-- The first level of a hierarchy has a member if any level of the hierarchy has one, as above
every member there is one on the first level. -/
theorem exists_firstMember? (ht : t.Sound) {h : HierarchyId} {hier : Hierarchy}
    (hh : t.hierarchies[h]? = some hier) {m : MemberId} {k : Nat}
    (hm : t.place? m = some (h, k)) : ∃ first, t.firstMember? hier = some first := by
  obtain ⟨l, hl, -⟩ := Option.bind_eq_some_iff.1 hm
  obtain ⟨mem, hmem, -⟩ := Option.map_eq_some_iff.1 hl
  obtain ⟨ids, hids⟩ := ht.exists_lineage (Array.getElem?_eq_some_iff.1 hmem).1
  obtain ⟨top, below, rfl⟩ := List.exists_cons_of_ne_nil hids.ne_nil
  obtain ⟨h', k', htop, hm'⟩ := ht.place?_head hids rfl
  cases hm.symm.trans hm'
  -- the level of the topmost member is the first one, and the member is listed there
  obtain ⟨root, hroot, hrank⟩ := Option.bind_eq_some_iff.1 htop
  obtain ⟨mem', hmem', rfl⟩ := Option.map_eq_some_iff.1 hroot
  obtain ⟨hier', hh', hhead⟩ := ht.head?_levels_iff.2 hrank
  cases hh.symm.trans hh'
  obtain ⟨lvl, hlvl, -⟩ := Option.map_eq_some_iff.1 hrank
  have hlisted : top ∈ lvl.members := ((ht.members _ lvl hlvl).mem_iff top).2 ⟨mem', hmem', rfl⟩
  obtain ⟨first, rest, hmembers⟩ := List.exists_cons_of_ne_nil (List.ne_nil_of_mem hlisted)
  exact ⟨first, by simp [firstMember?_eq, hhead, hlvl, hmembers]⟩

/-- A hierarchy has a member somewhere exactly if one of its levels lists a member. -/
theorem exists_place?_iff (ht : t.Sound) {h : HierarchyId} {hier : Hierarchy}
    (hh : t.hierarchies[h]? = some hier) :
    (∃ m k, t.place? m = some (h, k)) ↔
      ∃ l ∈ hier.levels, ∃ lvl, t.levels[l]? = some lvl ∧ lvl.members ≠ [] := by
  constructor
  · rintro ⟨m, k, hm⟩
    obtain ⟨l, hl, hrank⟩ := Option.bind_eq_some_iff.1 hm
    obtain ⟨mem, hmem, rfl⟩ := Option.map_eq_some_iff.1 hl
    obtain ⟨lvl, hlvl, hq⟩ := Option.map_eq_some_iff.1 hrank
    cases hq
    refine ⟨mem.level, ((ht.levels _ hier hh).mem_iff _).2 ⟨lvl, hlvl, rfl⟩, lvl, hlvl, ?_⟩
    exact List.ne_nil_of_mem (((ht.members _ lvl hlvl).mem_iff m).2 ⟨mem, hmem, rfl⟩)
  · rintro ⟨l, hl, lvl, hlvl, hne⟩
    obtain ⟨m, hm⟩ := List.exists_mem_of_ne_nil _ hne
    obtain ⟨mem, hmem, hin⟩ := ((ht.members l lvl hlvl).mem_iff m).1 hm
    obtain ⟨lvl', hlvl', hinside⟩ := ((ht.levels h hier hh).mem_iff l).1 hl
    cases hlvl.symm.trans hlvl'
    cases hin
    cases hinside
    exact ⟨m, lvl.depth, by simp [place?, rank?, hmem, hlvl]⟩

end Sound

/-! ## Finished schemas -/

/-- Drafted tables can be finished exactly if every dimension has a hierarchy and every hierarchy
has a level, and then the schema is what was drafted, but for default members.  A hierarchy has a
default member exactly if one of its levels has a member.  The default member is in the hierarchy;
it is the one that was last named for the hierarchy by a command that was accepted, and if there was
none it is the first member that was added to the first level. -/
theorem finished_schema_has_defaults (name : String) (commands : List Command) :
    let t := (Tables.empty name).after commands
    ((∃ s, t.build = .ok s) ↔
      (∀ d < t.dimensions.size, ∃ hier ∈ t.hierarchies, hier.dimension = d) ∧
        ∀ h < t.hierarchies.size, ∃ lvl ∈ t.levels, lvl.hierarchy = h) ∧
    ∀ s, t.build = .ok s →
      s.toTables.withoutDefaults = t.withoutDefaults ∧
      ∀ h hier, s.hierarchies[h]? = some hier →
        (hier.defaultMember.isSome = true ↔
          ∃ l ∈ hier.levels, ∃ lvl, s.levels[l]? = some lvl ∧ lvl.members ≠ []) ∧
        (∀ m, hier.defaultMember = some m → s.hierarchyOfMember? m = some h) ∧
        (∀ m, ((Tables.empty name).choices h commands).getLast? = some m →
          hier.defaultMember = some m) ∧
        ((Tables.empty name).choices h commands = [] →
          ∀ m, hier.defaultMember = some m ↔ s.FirstAdded hier m) := by
  intro t
  have ht : t.Sound := .after name commands
  refine ⟨ht.exists_build_iff, fun s hb => ⟨withoutDefaults_build hb, fun h hier hh => ?_⟩⟩
  have hs : s.Sound := ht.build hb
  have hdefault : hier.defaultMember =
      ((Tables.empty name).choices h commands).getLast?.or (s.firstMember? hier) := by
    rw [defaultMember_of_build hb hh, default?_after_empty]
  have hinside : ∀ m, hier.defaultMember = some m → ∃ k, s.place? m = some (h, k) :=
    hs.defaults h hier hh
  refine ⟨?_, fun m hm => ?_, fun m hm => ?_, fun hnone m => ?_⟩
  · rw [← hs.exists_place?_iff hh, Option.isSome_iff_exists]
    constructor
    · rintro ⟨m, hm⟩
      exact ⟨m, hinside m hm⟩
    · rintro ⟨m, k, hm⟩
      obtain ⟨first, hfirst⟩ := hs.exists_firstMember? hh hm
      rw [hdefault, hfirst]
      cases ((Tables.empty name).choices h commands).getLast? with
      | none => exact ⟨first, rfl⟩
      | some chosen => exact ⟨chosen, rfl⟩
  · obtain ⟨k, hk⟩ := hinside m hm
    rw [Schema.hierarchyOfMember?_eq, hk]
    rfl
  · rw [hdefault, hm, Option.some_or]
  · rw [hdefault, hnone, ← hs.firstMember?_eq_some_iff hh]
    rfl

/-- Of two choices the later one counts, and a third one is refused since there is no such member.
Without a choice, the all member is the default member. -/
theorem finished_schema_has_defaults_of_italianCity :
    let drafted := [.dimension "Store", .hierarchy 0 "Store", .allLevel 0 "All",
      .level 0 "Country", .level 0 "City", .member 1 "Italy" (some 0), .member 2 "Rome" (some 1)]
    let chosen := drafted ++ [.defaultMember 0 2, .defaultMember 0 1, .defaultMember 0 3]
    let store : Hierarchy := ⟨"Store", "[Store]", 0, [0, 1, 2], some 1⟩
    let italy : Schema := { Schema.italianCity with hierarchies := #[store] }
    ((Tables.empty "Shop").after drafted).build = .ok Schema.italianCity ∧
      (Tables.empty "Shop").choices 0 drafted = [] ∧
      Schema.italianCity.FirstAdded { store with defaultMember := some 0 } 0 ∧
      ((Tables.empty "Shop").after chosen).build = .ok italy ∧
      (Tables.empty "Shop").choices 0 chosen = [2, 1] ∧ italy.hierarchyOfMember? 1 = some 0 ∧
      ∃ l ∈ store.levels, ∃ lvl, italy.levels[l]? = some lvl ∧ lvl.members ≠ [] := by
  intro drafted chosen store italy
  have hdrafted : ((Tables.empty "Shop").after drafted).build = .ok Schema.italianCity :=
    build_of_toOption (by decide +kernel)
  have hchosen : ((Tables.empty "Shop").after chosen).build = .ok italy :=
    build_of_toOption (by decide +kernel)
  have hnone : (Tables.empty "Shop").choices 0 drafted = [] := by decide +kernel
  have htwo : (Tables.empty "Shop").choices 0 chosen = [2, 1] := by decide +kernel
  obtain ⟨-, hbuilt⟩ := finished_schema_has_defaults "Shop" drafted
  obtain ⟨-, hdefaults⟩ := hbuilt _ hdrafted
  obtain ⟨-, -, -, hfirst⟩ := hdefaults 0 { store with defaultMember := some 0 } rfl
  obtain ⟨-, hbuilt'⟩ := finished_schema_has_defaults "Shop" chosen
  obtain ⟨-, hdefaults'⟩ := hbuilt' _ hchosen
  obtain ⟨hsome, hinside, hlast, -⟩ := hdefaults' 0 store rfl
  have hitaly : store.defaultMember = some 1 := hlast 1 (by rw [htwo]; rfl)
  exact ⟨hdrafted, hnone, (hfirst hnone 0).1 rfl, hchosen, htwo, hinside 1 hitaly, hsome.1 rfl⟩

end Tables

end Hypercube
