import Mathlib.Logic.ExistsUnique
import Hypercube.Proofs.Names
import Hypercube.Schema.Lookup

/-!
# Members found by the names on the path to them

Following names downwards takes the first candidate of a name, and looks among the children of an
all member only if no candidate has the name.  Whichever candidate comes first, the member found is
the one that the names are meant for: candidates have different names.

* `Tables.Lineage` — the members above a member, from the top down to the member itself.
* `Schema.withinReach` — the members that one name can lead to from some candidates.
* `Schema.pickNamed?_eq_some_iff` — among members of different names, the one with a name.
* `Schema.descend?_eq_some_iff` — the members that names lead to from a member.
* `Schema.Addresses`, `Schema.found_iff_addressed` — which names address a member, and that exactly
  the addressed member is found.
-/

set_option autoImplicit false

namespace Hypercube

namespace Tables

/-! ## Lineages -/

/-- The members above a member, from one without parent downwards, and the member itself. -/
inductive Lineage (t : Tables) : MemberId → List MemberId → Prop where
  | top {m : MemberId} {mem : Member} (found : t.members[m]? = some mem)
      (parentless : mem.parent = none) : Lineage t m [m]
  | child {m p : MemberId} {mem : Member} {above : List MemberId}
      (found : t.members[m]? = some mem) (parent : mem.parent = some p)
      (up : Lineage t p above) : Lineage t m (above ++ [m])

namespace Lineage

variable {t : Tables} {m p q : MemberId} {ids above below : List MemberId}

theorem getLast? (h : t.Lineage m ids) : ids.getLast? = some m := by
  cases h with
  | top => rfl
  | child => exact List.getLast?_concat

theorem ne_nil (h : t.Lineage m ids) : ids ≠ [] := by
  rintro rfl
  cases h.getLast?

theorem eq_of_same (hp : t.Lineage p ids) (hq : t.Lineage q ids) : p = q :=
  Option.some.inj (hp.getLast?.symm.trans hq.getLast?)

theorem unique (h : t.Lineage m ids) {ids' : List MemberId} (h' : t.Lineage m ids') :
    ids = ids' := by
  induction h generalizing ids' with
  | top found parentless =>
    cases h' with
    | top => rfl
    | child found' parent =>
      cases found.symm.trans found'
      cases parentless.symm.trans parent
  | child found parent up ih =>
    cases h' with
    | top found' parentless =>
      cases found.symm.trans found'
      cases parentless.symm.trans parent
    | child found' parent' up' =>
      cases found.symm.trans found'
      cases parent.symm.trans parent'
      rw [ih up']

/-- Every member of a lineage is the parent of the next one. -/
theorem next (h : t.Lineage m (above ++ q :: below)) (hp : t.Lineage p above) :
    ∃ mem, t.members[q]? = some mem ∧ mem.parent = some p := by
  generalize hids : above ++ q :: below = ids at h
  induction h generalizing below with
  | top found parentless =>
    obtain ⟨hnil, -⟩ | ⟨-, hnil⟩ := List.append_eq_singleton_iff.1 hids
    · exact absurd hnil hp.ne_nil
    · cases hnil
  | @child x y mem up found parent hup ih =>
    obtain rfl | ⟨rest, last, rfl⟩ := List.eq_nil_or_concat below
    · obtain ⟨rfl, hq⟩ := List.append_inj' hids rfl
      cases hq
      cases hup.eq_of_same hp
      exact ⟨mem, found, parent⟩
    · rw [List.concat_eq_append, ← List.cons_append, ← List.append_assoc] at hids
      obtain ⟨hup', -⟩ := List.append_inj' hids rfl
      exact ih hup'

end Lineage

namespace Sound

variable {t : Tables}

/-- A member without parent is at the top of its hierarchy. -/
theorem place?_of_parentless (hs : t.Sound) {m : MemberId} {mem : Member}
    (hm : t.members[m]? = some mem) (hp : mem.parent = none) : ∃ h, t.place? m = some (h, 0) := by
  obtain ⟨h, k, hplace, ⟨rfl, -⟩ | ⟨q, j, hq, -⟩⟩ := hs.parents m mem hm
  · exact ⟨h, hplace⟩
  · cases hp.symm.trans hq

theorem parentless_of_place? (hs : t.Sound) {m : MemberId} {h : HierarchyId}
    (hplace : t.place? m = some (h, 0)) :
    ∃ mem, t.members[m]? = some mem ∧ mem.parent = none := by
  obtain ⟨l, hl, -⟩ := Option.bind_eq_some_iff.1 hplace
  obtain ⟨mem, hm, -⟩ := Option.map_eq_some_iff.1 hl
  refine ⟨mem, hm, ?_⟩
  obtain ⟨_, _, hplace', ⟨-, hnone⟩ | ⟨_, j, -, -, rfl, -⟩⟩ := hs.parents m mem hm
  · exact hnone
  · cases hplace.symm.trans hplace'

/-- A member on an all level is at the top of its hierarchy. -/
theorem place?_of_onAllLevel (hs : t.Sound) {m : MemberId} (hall : t.onAllLevel m = true) :
    ∃ h, t.place? m = some (h, 0) := by
  obtain ⟨mem, lvl, hm, hl, hall⟩ := onAllLevel_iff.1 hall
  refine ⟨lvl.hierarchy, ?_⟩
  rw [place?, hm, Option.map_some, Option.bind_some, rank?, hl, Option.map_some,
    (hs.allLevels lvl (Array.mem_of_getElem? hl) hall).1]

/-- The first level of a hierarchy is the one of depth 0. -/
theorem head?_levels_iff (hs : t.Sound) {h : HierarchyId} {l : LevelId} :
    (∃ hier, t.hierarchies[h]? = some hier ∧ hier.levels.head? = some l) ↔
      t.rank? l = some (h, 0) := by
  constructor
  · rintro ⟨hier, hh, hl⟩
    exact hs.depths h hier hh 0 l (List.head?_eq_getElem? ▸ hl)
  · intro hrank
    obtain ⟨lvl, hlvl, hq⟩ := Option.map_eq_some_iff.1 hrank
    obtain ⟨rfl, -⟩ := Prod.mk.inj hq
    have hlt := hs.anchored.levels lvl (Array.mem_of_getElem? hlvl)
    have hh : t.hierarchies[lvl.hierarchy]? = some t.hierarchies[lvl.hierarchy] :=
      Array.getElem?_eq_getElem hlt
    have hmem : l ∈ t.hierarchies[lvl.hierarchy].levels :=
      ((hs.levels _ _ hh).mem_iff l).2 ⟨lvl, hlvl, rfl⟩
    -- the level is listed somewhere, and there it has the depth of its place in the list
    obtain ⟨i, hi⟩ := List.mem_iff_getElem?.1 hmem
    have hdepth := hs.depths _ _ hh i l hi
    rw [hrank] at hdepth
    cases hdepth
    exact ⟨_, hh, List.head?_eq_getElem? ▸ hi⟩

/-- Every member has a lineage, as its parent was there before it. -/
theorem exists_lineage (hs : t.Sound) {m : MemberId} (hm : m < t.members.size) :
    ∃ ids, t.Lineage m ids := by
  induction m using Nat.strongRecOn with
  | ind m ih =>
    have found : t.members[m]? = some t.members[m] := Array.getElem?_eq_getElem hm
    obtain ⟨_, _, -, ⟨-, hnone⟩ | ⟨p, _, hp, hlt, -⟩⟩ := hs.parents m _ found
    · exact ⟨[m], .top found hnone⟩
    · obtain ⟨above, up⟩ := ih p hlt (Nat.lt_trans hlt hm)
      exact ⟨above ++ [m], .child found hp up⟩

/-- A lineage starts at the top of the hierarchy of its member. -/
theorem place?_head (hs : t.Sound) {m a : MemberId} {ids below : List MemberId}
    (h : t.Lineage m ids) (hids : ids = a :: below) :
    ∃ q k, t.place? a = some (q, 0) ∧ t.place? m = some (q, k) := by
  induction h generalizing below with
  | top found parentless =>
    cases hids
    obtain ⟨q, hq⟩ := hs.place?_of_parentless found parentless
    exact ⟨q, 0, hq, hq⟩
  | child found parent up ih =>
    obtain ⟨first, rest, rfl⟩ := List.exists_cons_of_ne_nil up.ne_nil
    cases hids
    obtain ⟨q, k, ha, hp⟩ := ih rfl
    obtain ⟨q', j, hm, hp'⟩ := hs.place?_of_child found parent
    cases hp.symm.trans hp'
    exact ⟨q, _, ha, hm⟩

/-- A member is in the hierarchy of every member of its lineage. -/
theorem place?_of_lineage (hs : t.Sound) {m q : MemberId} {up below : List MemberId}
    {h : HierarchyId} {k : Nat} (hq : t.Lineage q up) (hm : t.Lineage m (up ++ below))
    (hplace : t.place? q = some (h, k)) : ∃ j, t.place? m = some (h, j) := by
  obtain ⟨a, rest, rfl⟩ := List.exists_cons_of_ne_nil hq.ne_nil
  obtain ⟨h₁, _, ha, hq'⟩ := hs.place?_head hq rfl
  obtain ⟨h₂, j, ha', hm'⟩ := hs.place?_head hm rfl
  cases ha.symm.trans ha'
  cases hplace.symm.trans hq'
  exact ⟨j, hm'⟩

end Sound

end Tables

namespace Schema

variable {s : Schema}

/-! ## Lists of members -/

theorem isAllMember_eq (s : Schema) (m : MemberId) : s.isAllMember m = s.onAllLevel m := by
  unfold isAllMember isAllMemberM levelOf? Tables.onAllLevel
  cases s.members[m]? with
  | none => rfl
  | some mem =>
    show Id.run (s.isAllLevelM mem.level) = s.levels[mem.level]?.any (·.all)
    rw [isAllLevelM, Access.idRun_entry]
    cases s.levels[mem.level]? <;> rfl

theorem hierarchyOfMember?_eq (s : Schema) (m : MemberId) :
    s.hierarchyOfMember? m = (s.place? m).map Prod.fst := by
  unfold hierarchyOfMember? levelOf? hierarchyOf? Tables.place? Tables.rank?
  cases s.members[m]? with
  | none => rfl
  | some mem =>
    simp only [Option.map_some, Option.bind_some, Option.map_map]
    rfl

theorem mem_children_iff (hs : s.Sound) {p q : MemberId} :
    q ∈ s.children p ↔ ∃ mem, s.members[q]? = some mem ∧ mem.parent = some p := by
  rw [children, childrenM, Access.idRun_entry]
  cases hp : s.members[p]? with
  | none =>
    refine iff_of_false List.not_mem_nil ?_
    rintro ⟨mem, hq, hparent⟩
    have hlt := hs.parent_lt (Array.mem_of_getElem? hq) hparent
    rw [Array.getElem?_eq_getElem hlt] at hp
    cases hp
  | some above => exact (hs.children p above hp).mem_iff q

/-- The members of the first level of a hierarchy are those at its top. -/
theorem mem_rootMembers_iff (hs : s.Sound) {h : HierarchyId} {m : MemberId} :
    m ∈ s.rootMembers h ↔ s.place? m = some (h, 0) := by
  have unfolded : m ∈ s.rootMembers h ↔ ∃ l, (∃ hier, s.hierarchies[h]? = some hier ∧
      hier.levels.head? = some l) ∧ ∃ level, s.levels[l]? = some level ∧ m ∈ level.members := by
    rw [rootMembers, rootMembersM, Access.idRun_follow]
    cases s.hierarchies[h]? with
    | none => simp
    | some hier =>
      cases hl : hier.levels.head? with
      | none => simp [hl]
      | some l => cases hlevel : s.levels[l]? <;> simp [hl, hlevel, Access.idRun_entry]
  have listed : ∀ l, (∃ level, s.levels[l]? = some level ∧ m ∈ level.members) ↔
      s.members[m]?.map (·.level) = some l := by
    intro l
    constructor
    · rintro ⟨level, hlevel, hm⟩
      obtain ⟨mem, hmem, hin⟩ := ((hs.members l level hlevel).mem_iff m).1 hm
      rw [hmem]
      exact hin
    · intro hm
      obtain ⟨mem, hmem, rfl⟩ := Option.map_eq_some_iff.1 hm
      have hlt := hs.anchored.members mem (Array.mem_of_getElem? hmem)
      have hlevel : s.levels[mem.level]? = some s.levels[mem.level] := Array.getElem?_eq_getElem hlt
      exact ⟨_, hlevel, ((hs.members _ _ hlevel).mem_iff m).2 ⟨mem, hmem, rfl⟩⟩
  rw [unfolded, Tables.place?, Option.bind_eq_some_iff]
  refine exists_congr fun l => ?_
  rw [hs.head?_levels_iff, listed, and_comm]

/-! ## Picking a member by its name -/

/-- The members that one name can lead to from some candidates. -/
def withinReach (s : Schema) (candidates : List MemberId) : List MemberId :=
  candidates ++ (candidates.filter s.isAllMember).flatMap s.children

theorem pick?_eq (s : Schema) (candidates : List MemberId) (name : String) :
    s.pick? candidates name = s.pickNamed? (s.withinReach candidates) name := by
  rw [pick?_eq_or, withinReach, pickNamed?_eq, pickNamed?_eq, pickNamed?_eq, List.find?_append]

/-- Among members of different names, a name picks the member that has it. -/
theorem pickNamed?_eq_some_iff {ids : List MemberId} {name : String} {m : MemberId}
    (known : ∀ i ∈ ids, ∃ mem, s.members[i]? = some mem)
    (differ : ∀ i ∈ ids, ∀ j ∈ ids, s.memberName i = s.memberName j → i = j) :
    s.pickNamed? ids name = some m ↔ m ∈ ids ∧ s.memberName m = name := by
  rw [pickNamed?_eq]
  have test : ∀ i ∈ ids, s.members[i]?.any (·.name == name) = true ↔ s.memberName i = name := by
    intro i hi
    obtain ⟨mem, hmem⟩ := known i hi
    simp [hmem, Tables.memberName]
  constructor
  · intro h
    have hm := List.mem_of_find?_eq_some h
    have hname := List.find?_some h
    exact ⟨hm, (test m hm).1 hname⟩
  · rintro ⟨hm, hname⟩
    cases hq : ids.find? fun i => s.members[i]?.any (·.name == name) with
    | none => exact absurd ((test m hm).2 hname) (List.find?_eq_none.1 hq m hm)
    | some q =>
      have hq' := List.mem_of_find?_eq_some hq
      have hname' := List.find?_some hq
      rw [differ q hq' m hm (((test q hq').1 hname').trans hname.symm)]

/-- From the members of the first level, one name leads to the members at the front. -/
theorem mem_withinReach_rootMembers_iff (hs : s.Sound) {h : HierarchyId} {q : MemberId} :
    q ∈ s.withinReach (s.rootMembers h) ↔ s.AtFront h q := by
  simp only [withinReach, List.mem_append, List.mem_flatMap, List.mem_filter, isAllMember_eq,
    mem_rootMembers_iff hs, mem_children_iff hs]
  constructor
  · rintro (hplace | ⟨a, ⟨ha, hall⟩, mem, hq, hparent⟩)
    · obtain ⟨mem, hq, hnone⟩ := hs.parentless_of_place? hplace
      exact ⟨mem, 0, hq, hplace, .inl hnone⟩
    · obtain ⟨h', k, hplace, ha'⟩ := hs.place?_of_child hq hparent
      cases ha.symm.trans ha'
      exact ⟨mem, _, hq, hplace, .inr ⟨a, hparent, hall⟩⟩
  · rintro ⟨mem, k, hq, hplace, hnone | ⟨a, hparent, hall⟩⟩
    · obtain ⟨h', hplace'⟩ := hs.place?_of_parentless hq hnone
      cases hplace.symm.trans hplace'
      exact .inl hplace
    · obtain ⟨h', k', hplace', ha⟩ := hs.place?_of_child hq hparent
      cases hplace.symm.trans hplace'
      obtain ⟨h'', ha'⟩ := hs.place?_of_onAllLevel hall
      cases ha.symm.trans ha'
      exact .inr ⟨a, ⟨ha, hall⟩, mem, hq, hparent⟩

/-- No child is an all member, so from the children of a member one name leads no further. -/
theorem withinReach_children (hs : s.Sound) (p : MemberId) :
    s.withinReach (s.children p) = s.children p := by
  have hnone : (s.children p).filter s.isAllMember = [] := by
    rw [List.filter_eq_nil_iff]
    intro q hq hall
    obtain ⟨mem, hmem, hparent⟩ := (mem_children_iff hs).1 hq
    obtain ⟨h, hplace⟩ := hs.place?_of_onAllLevel (isAllMember_eq s q ▸ hall)
    obtain ⟨mem', hmem', hnone⟩ := hs.parentless_of_place? hplace
    cases hmem.symm.trans hmem'
    cases hparent.symm.trans hnone
  rw [withinReach, hnone, List.flatMap_nil, List.append_nil]

theorem pick?_rootMembers_iff (hs : s.Sound) (hn : s.WellNamed) {h : HierarchyId} {name : String}
    {q : MemberId} :
    s.pick? (s.rootMembers h) name = some q ↔ s.AtFront h q ∧ s.memberName q = name := by
  rw [pick?_eq, pickNamed?_eq_some_iff, mem_withinReach_rootMembers_iff hs]
  · intro i hi
    obtain ⟨mem, -, hi, -⟩ := (mem_withinReach_rootMembers_iff hs).1 hi
    exact ⟨mem, hi⟩
  · intro i hi j hj
    exact hn.front_names_differ ((mem_withinReach_rootMembers_iff hs).1 hi)
      ((mem_withinReach_rootMembers_iff hs).1 hj)

theorem pick?_children_iff (hs : s.Sound) (hn : s.WellNamed) {p : MemberId} {name : String}
    {q : MemberId} :
    s.pick? (s.children p) name = some q ↔
      (∃ mem, s.members[q]? = some mem ∧ mem.parent = some p) ∧ s.memberName q = name := by
  rw [pick?_eq, withinReach_children hs, pickNamed?_eq_some_iff, mem_children_iff hs]
  · intro i hi
    obtain ⟨mem, hi, -⟩ := (mem_children_iff hs).1 hi
    exact ⟨mem, hi⟩
  · intro i hi j hj
    obtain ⟨a, ha, hpa⟩ := (mem_children_iff hs).1 hi
    obtain ⟨b, hb, hpb⟩ := (mem_children_iff hs).1 hj
    exact hn.sibling_names_differ hs ha hb hpa hpb

/-! ## Following names -/

/-- From a member, names lead to the members whose lineage goes on with members of these names. -/
theorem descend?_eq_some_iff (hs : s.Sound) (hn : s.WellNamed) {p m : MemberId}
    {up : List MemberId} {names : List String} (hp : s.Lineage p up) :
    s.descend? (s.children p) (some p) names = some m ↔
      ∃ below, s.Lineage m (up ++ below) ∧ names = below.map s.memberName := by
  induction names generalizing p up with
  | nil =>
    rw [descend?_nil, Option.some.injEq]
    constructor
    · rintro rfl
      exact ⟨[], by rwa [List.append_nil], rfl⟩
    · rintro ⟨below, hm, hnil⟩
      rw [List.map_eq_nil_iff.1 hnil.symm, List.append_nil] at hm
      exact hp.eq_of_same hm
  | cons name names ih =>
    rw [descend?_cons]
    constructor
    · intro h
      split at h
      · rename_i q hq
        obtain ⟨⟨mem, hmem, hparent⟩, rfl⟩ := (pick?_children_iff hs hn).1 hq
        obtain ⟨below, hm, rfl⟩ := (ih (.child hmem hparent hp)).1 h
        exact ⟨q :: below, by simpa using hm, rfl⟩
      · cases h
    · rintro ⟨below, hm, hnames⟩
      obtain ⟨q, below, rfl, rfl, rfl⟩ := List.map_eq_cons_iff.1 hnames.symm
      obtain ⟨mem, hmem, hparent⟩ := hm.next hp
      rw [(pick?_children_iff hs hn).2 ⟨⟨mem, hmem, hparent⟩, rfl⟩]
      exact (ih (.child hmem hparent hp)).2 ⟨below, by simpa using hm, rfl⟩

/-- From the first level of a hierarchy, names lead to the members whose lineage goes on from a
member at the front with members of these names. -/
theorem descend?_rootMembers_iff (hs : s.Sound) (hn : s.WellNamed) {h : HierarchyId}
    {m : MemberId} {names : List String} :
    s.descend? (s.rootMembers h) none names = some m ↔
      ∃ q up below, s.AtFront h q ∧ s.Lineage q up ∧ s.Lineage m (up ++ below) ∧
        names = (q :: below).map s.memberName := by
  cases names with
  | nil => simp [descend?_nil]
  | cons name names =>
    rw [descend?_cons]
    constructor
    · intro hm
      split at hm
      · rename_i q hq
        obtain ⟨hfront, rfl⟩ := (pick?_rootMembers_iff hs hn).1 hq
        obtain ⟨mem, -, hmem, -⟩ := id hfront
        obtain ⟨up, hup⟩ := hs.exists_lineage (Array.getElem?_eq_some_iff.1 hmem).1
        obtain ⟨below, hline, rfl⟩ := (descend?_eq_some_iff hs hn hup).1 hm
        exact ⟨q, up, below, hfront, hup, hline, rfl⟩
      · cases hm
    · rintro ⟨q, up, below, hfront, hup, hm, hnames⟩
      cases hnames
      rw [(pick?_rootMembers_iff hs hn).2 ⟨hfront, rfl⟩]
      exact (descend?_eq_some_iff hs hn hup).2 ⟨below, hm, rfl⟩

/-! ## Addresses -/

/-- Names address a member if the first is that of its hierarchy and the others are those of its
lineage, of which an all member above it may be left out. -/
def Addresses (s : Schema) (first : String) (rest : List String) (m : MemberId) : Prop :=
  ∃ h ids, s.findHierarchy? first = some h ∧ s.hierarchyOfMember? m = some h ∧ s.Lineage m ids ∧
    (rest = ids.map s.memberName ∨
      ∃ a below, ids = a :: below ∧ s.isAllMember a = true ∧ m ≠ a ∧
        rest = below.map s.memberName)

/-- A member that names lead to is addressed by them. -/
theorem addressed_of_front (hs : s.Sound) {h : HierarchyId} {q m : MemberId}
    {up below : List MemberId} (hfront : s.AtFront h q) (hup : s.Lineage q up)
    (hm : s.Lineage m (up ++ below)) :
    s.hierarchyOfMember? m = some h ∧
      (up ++ below = q :: below ∨
        ∃ a, up ++ below = a :: q :: below ∧ s.isAllMember a = true ∧ m ≠ a) := by
  obtain ⟨mem, k, hmem, hplace, habove⟩ := hfront
  obtain ⟨j, hplace'⟩ := hs.place?_of_lineage hup hm hplace
  refine ⟨by rw [hierarchyOfMember?_eq, hplace']; rfl, ?_⟩
  obtain hnone | ⟨a, hparent, hall⟩ := habove
  · cases hup.unique (.top hmem hnone)
    exact .inl rfl
  · obtain ⟨_, hplace'⟩ := hs.place?_of_onAllLevel hall
    obtain ⟨mem', hmem', hnone⟩ := hs.parentless_of_place? hplace'
    have htop : s.Lineage a [a] := .top hmem' hnone
    cases hup.unique (.child hmem hparent htop)
    refine .inr ⟨a, rfl, isAllMember_eq s a ▸ hall, ?_⟩
    -- the all member has no lineage but itself
    rintro rfl
    cases hm.unique htop

/-- The first member of a lineage is at the front, and so is the second one if the first one is an
all member. -/
theorem front_of_lineage (hs : s.Sound) {h : HierarchyId} {m : MemberId} {a : MemberId}
    {below : List MemberId} (hh : s.hierarchyOfMember? m = some h)
    (hm : s.Lineage m (a :: below)) :
    s.Lineage a [a] ∧ s.AtFront h a ∧ (s.isAllMember a = true → ∀ q rest, below = q :: rest →
      s.Lineage q [a, q] ∧ s.AtFront h q) := by
  obtain ⟨h', k, ha, hplace⟩ := hs.place?_head hm rfl
  rw [hierarchyOfMember?_eq, hplace] at hh
  cases hh
  obtain ⟨mem, hmem, hnone⟩ := hs.parentless_of_place? ha
  have htop : s.Lineage a [a] := .top hmem hnone
  refine ⟨htop, ⟨mem, 0, hmem, ha, .inl hnone⟩, ?_⟩
  rintro hall q rest rfl
  have hbelow : s.Lineage m ([a] ++ q :: rest) := hm
  obtain ⟨mem', hmem', hparent⟩ := hbelow.next htop
  obtain ⟨h'', j, hq, ha'⟩ := hs.place?_of_child hmem' hparent
  cases ha.symm.trans ha'
  exact ⟨.child hmem' hparent htop,
    mem', _, hmem', hq, .inr ⟨a, hparent, isAllMember_eq s a ▸ hall⟩⟩

theorem memberBySegments?_iff (hs : s.Sound) (hn : s.WellNamed) {first : String}
    {rest : List String} {m : MemberId} :
    s.memberBySegments? (first :: rest) = some m ↔ s.Addresses first rest m := by
  have hsteps : s.memberBySegments? (first :: rest) = some m ↔
      ∃ h, s.findHierarchy? first = some h ∧ s.descend? (s.rootMembers h) none rest = some m := by
    rw [memberBySegments?_cons]
    cases s.findHierarchy? first <;> simp
  rw [hsteps]
  constructor
  · rintro ⟨h, hfirst, hfound⟩
    obtain ⟨q, up, below, hfront, hup, hm, rfl⟩ := (descend?_rootMembers_iff hs hn).1 hfound
    obtain ⟨hh, hids | ⟨a, hids, hall, hne⟩⟩ := addressed_of_front hs hfront hup hm
    · exact ⟨h, _, hfirst, hh, hm, .inl (by rw [hids])⟩
    · exact ⟨h, _, hfirst, hh, hm, .inr ⟨a, q :: below, hids, hall, hne, rfl⟩⟩
  · rintro ⟨h, ids, hfirst, hh, hm, rfl | ⟨a, below, rfl, hall, hne, rfl⟩⟩
    · obtain ⟨a, below, rfl⟩ := List.exists_cons_of_ne_nil hm.ne_nil
      obtain ⟨htop, hfront, -⟩ := front_of_lineage hs hh hm
      exact ⟨h, hfirst, (descend?_rootMembers_iff hs hn).2 ⟨a, [a], below, hfront, htop, hm, rfl⟩⟩
    · obtain ⟨htop, -, hsecond⟩ := front_of_lineage hs hh hm
      cases below with
      | nil => exact absurd (hm.eq_of_same htop) hne
      | cons q below =>
        obtain ⟨hup, hfront⟩ := hsecond hall q below rfl
        exact ⟨h, hfirst,
          (descend?_rootMembers_iff hs hn).2 ⟨q, [a, q], below, hfront, hup, hm, rfl⟩⟩

/-- In every finished schema, the member found by names is exactly the one that they address.  Every
member has one lineage, no two members have the same address, an address with an all member and the
address without it find the same member, and no names, or that of a hierarchy alone, find none. -/
theorem found_iff_addressed {name : String} {commands : List Command} {s : Schema}
    (built : ((Tables.empty name).after commands).build = .ok s) :
    (∀ first rest m, s.memberBySegments? (first :: rest) = some m ↔ s.Addresses first rest m) ∧
    (∀ m < s.members.size, ∃! ids, s.Lineage m ids) ∧
    (∀ first rest m m', s.Addresses first rest m → s.Addresses first rest m' → m = m') ∧
    (∀ first h m a below, s.findHierarchy? first = some h → s.hierarchyOfMember? m = some h →
      s.Lineage m (a :: below) → s.isAllMember a = true → m ≠ a →
        s.memberBySegments? (first :: (a :: below).map s.memberName) = some m ∧
        s.memberBySegments? (first :: below.map s.memberName) = some m) ∧
    s.memberBySegments? [] = none ∧ ∀ first, s.memberBySegments? [first] = none := by
  have hsound := Tables.Sound.after name commands
  have hs : s.Sound := hsound.build built
  have hn : s.WellNamed := (Tables.WellNamed.after name commands).build hsound.anchored built
  have found : ∀ first rest m,
      s.memberBySegments? (first :: rest) = some m ↔ s.Addresses first rest m :=
    fun _ _ _ => memberBySegments?_iff hs hn
  refine ⟨found, fun m hm => ?_, fun first rest m m' hm hm' => ?_, ?_, rfl, fun first => ?_⟩
  · obtain ⟨ids, hids⟩ := hs.exists_lineage hm
    exact ⟨ids, hids, fun _ h => h.unique hids⟩
  · have hsame := ((found first rest m).2 hm).symm.trans ((found first rest m').2 hm')
    exact Option.some.inj hsame
  · intro first h m a below hfirst hh hm hall hne
    constructor
    · exact (found _ _ _).2 ⟨h, _, hfirst, hh, hm, .inl rfl⟩
    · exact (found _ _ _).2 ⟨h, _, hfirst, hh, hm, .inr ⟨a, below, rfl, hall, hne, rfl⟩⟩
  · rw [memberBySegments?_cons]
    cases s.findHierarchy? first <;> rfl

/-- A city in a country, below an all member. -/
def italianCity : Schema :=
  ⟨⟨"Shop", #[], #[⟨"Store", "[Store]", [0], false⟩],
    #[⟨"Store", "[Store]", 0, [0, 1, 2], some 0⟩],
    #[⟨"(All)", "[Store].[(All)]", 0, 0, true, [0]⟩,
      ⟨"Country", "[Store].[Country]", 0, 1, false, [1]⟩,
      ⟨"City", "[Store].[City]", 0, 2, false, [2]⟩],
    #[⟨"All", "[Store].[All]", 0, none, [1]⟩, ⟨"Italy", "[Store].[Italy]", 1, some 0, [2]⟩,
      ⟨"Rome", "[Store].[Italy].[Rome]", 2, some 1, []⟩],
    [("[Store].[All]", 0), ("[Store].[Italy]", 1), ("[Store].[Italy].[Rome]", 2)]⟩⟩

theorem lineage_italianCity : italianCity.Lineage 2 [0, 1, 2] := by
  have hall : italianCity.Lineage 0 [0] := .top rfl rfl
  have hcountry : italianCity.Lineage 1 ([0] ++ [1]) := .child rfl rfl hall
  have hcity : italianCity.Lineage 2 ([0, 1] ++ [2]) := .child rfl rfl hcountry
  exact hcity

/-- The city is found through the all member and past it, and nothing is found for the hierarchy. -/
theorem found_iff_addressed_italianCity :
    ((Tables.empty "Shop").after [.dimension "Store", .hierarchy 0 "Store", .allLevel 0 "All",
      .level 0 "Country", .level 0 "City", .member 1 "Italy" (some 0),
      .member 2 "Rome" (some 1)]).build = .ok italianCity ∧
      italianCity.Lineage 2 [0, 1, 2] ∧
      italianCity.memberBySegments? ["Store", "All", "Italy", "Rome"] = some 2 ∧
      italianCity.memberBySegments? ["Store", "Italy", "Rome"] = some 2 ∧
      italianCity.memberBySegments? ["Store"] = none := by
  have hb : ((Tables.empty "Shop").after [.dimension "Store", .hierarchy 0 "Store",
      .allLevel 0 "All", .level 0 "Country", .level 0 "City", .member 1 "Italy" (some 0),
      .member 2 "Rome" (some 1)]).build = .ok italianCity :=
    Tables.build_of_toOption (by decide +kernel)
  obtain ⟨-, -, -, hall, -, hnone⟩ := found_iff_addressed hb
  obtain ⟨hthrough, hpast⟩ := hall "Store" 0 2 0 [1, 2] (by decide +kernel) (by decide +kernel)
    lineage_italianCity (by decide +kernel) (by decide)
  exact ⟨hb, lineage_italianCity, hthrough, hpast, hnone "Store"⟩

end Schema

end Hypercube
