import Hypercube.Proofs.Containers

/-!
# Drafted tables refer to each other soundly

Containment is recorded twice: an element names its container, and a container lists its parts.
Commands keep both records in step by hand, and a command that fails midway keeps what it had done
before.  Whatever commands are given, with whatever names and indices, the records agree.

* `Indexes`, `Lists` — a list of indices is the exact record of some entries of a table, and every
  container lists its parts; with one rule for each way in which tables change.
* `Tables.rank?`, `Tables.place?` — the hierarchy and the depth of a level, and of a member's level.
* `Edit.place?` — elements stay where they are.
* `Tables.Sound` — all that is required of references between the tables.
* `Tables.Sound.edit`, `Tables.Sound.after` — every edit keeps it, and so does every run.
* `Tables.references_stay_sound` — it holds after every run of commands.
-/

set_option autoImplicit false

namespace Hypercube

variable {α β : Type}

/-! ## Lists of indices -/

/-- A list holds the indices of the entries that have a property, in increasing order. -/
structure Indexes (ids : List Nat) (xs : Array α) (p : α → Prop) : Prop where
  increasing : ids.Pairwise (· < ·)
  mem_iff : ∀ i, i ∈ ids ↔ ∃ x, xs[i]? = some x ∧ p x

namespace Indexes

variable {ids : List Nat} {xs : Array α} {p : α → Prop} {x : α} {f : α → α}

theorem lt_size (h : Indexes ids xs p) {i : Nat} (hi : i ∈ ids) : i < xs.size := by
  obtain ⟨x, hx, -⟩ := (h.mem_iff i).1 hi
  exact (Array.getElem?_eq_some_iff.1 hx).1

theorem nil (h : ∀ x ∈ xs, ¬ p x) : Indexes [] xs p := by
  refine ⟨List.Pairwise.nil, fun i => iff_of_false List.not_mem_nil ?_⟩
  rintro ⟨x, hx, hp⟩
  exact h x (Array.mem_of_getElem? hx) hp

/-- A new entry with the property is listed last. -/
theorem push (h : Indexes ids xs p) (hx : p x) : Indexes (ids ++ [xs.size]) (xs.push x) p := by
  constructor
  · refine List.pairwise_append.2 ⟨h.increasing, List.pairwise_singleton _ _, ?_⟩
    intro i hi j hj
    rw [List.mem_singleton.1 hj]
    exact h.lt_size hi
  · intro i
    rw [List.mem_append, List.mem_singleton, h.mem_iff, Array.getElem?_push]
    by_cases hi : i = xs.size
    · simp [hi, hx]
    · simp [hi]

/-- A new entry without the property is not listed. -/
theorem push_of_not (h : Indexes ids xs p) (hx : ¬ p x) : Indexes ids (xs.push x) p := by
  refine ⟨h.increasing, fun i => ?_⟩
  rw [h.mem_iff, Array.getElem?_push]
  by_cases hi : i = xs.size
  · simp [hi, hx]
  · simp [hi]

/-- A change of an entry that does not touch the property changes no list. -/
theorem modify (h : Indexes ids xs p) (j : Nat) (hf : ∀ x, p (f x) ↔ p x) :
    Indexes ids (xs.modify j f) p := by
  refine ⟨h.increasing, fun i => ?_⟩
  rw [h.mem_iff, Array.getElem?_modify]
  by_cases hj : j = i
  · rw [if_pos hj]
    constructor
    · rintro ⟨x, hx, hp⟩
      exact ⟨f x, by rw [hx, Option.map_some], (hf x).2 hp⟩
    · rintro ⟨y, hy, hp⟩
      obtain ⟨x, hx, rfl⟩ := Option.map_eq_some_iff.1 hy
      exact ⟨x, hx, (hf x).1 hp⟩
  · rw [if_neg hj]

end Indexes

/-- Every container of one table lists its parts in the other one. -/
def Lists (parts : α → List Nat) (container : β → Option Nat) (outer : Array α)
    (inner : Array β) : Prop :=
  ∀ i o, outer[i]? = some o → Indexes (parts o) inner fun x => container x = some i

namespace Lists

variable {parts : α → List Nat} {container : β → Option Nat} {outer : Array α} {inner : Array β}

theorem empty (inner : Array β) : Lists parts container #[] inner := by
  intro i o ho
  cases ho

/-- A new container is empty, as nothing refers to it yet. -/
theorem push_outer (h : Lists parts container outer inner) {o : α} (ho : parts o = [])
    (hfresh : ∀ x ∈ inner, container x ≠ some outer.size) :
    Lists parts container (outer.push o) inner := by
  intro i o' ho'
  rw [Array.getElem?_push] at ho'
  split at ho'
  · rename_i hi
    cases ho'
    rw [hi, ho]
    exact .nil hfresh
  · exact h i o' ho'

/-- A new part is added to the list of its container, and to no other. -/
theorem push_inner (h : Lists parts container outer inner) {x : β} {j : Nat} {f : α → α}
    (hx : container x = some j) (hf : ∀ o, parts (f o) = parts o ++ [inner.size]) :
    Lists parts container (outer.modify j f) (inner.push x) := by
  intro i o ho
  rw [Array.getElem?_modify] at ho
  split at ho
  · rename_i hi
    obtain ⟨o', ho', rfl⟩ := Option.map_eq_some_iff.1 ho
    rw [hf]
    exact (h i o' ho').push (hi ▸ hx)
  · rename_i hi
    refine (h i o ho).push_of_not fun hc => ?_
    exact hi (Option.some.inj (hx.symm.trans hc))

theorem push_free (h : Lists parts container outer inner) {x : β} (hx : container x = none) :
    Lists parts container outer (inner.push x) := by
  intro i o ho
  refine (h i o ho).push_of_not ?_
  rw [hx]
  exact fun hc => nomatch hc

theorem modify_outer (h : Lists parts container outer inner) (j : Nat) {f : α → α}
    (hf : ∀ o, parts (f o) = parts o) : Lists parts container (outer.modify j f) inner := by
  intro i o ho
  rw [Array.getElem?_modify] at ho
  split at ho
  · obtain ⟨o', ho', rfl⟩ := Option.map_eq_some_iff.1 ho
    rw [hf]
    exact h i o' ho'
  · exact h i o ho

theorem modify_inner (h : Lists parts container outer inner) (j : Nat) {f : β → β}
    (hf : ∀ x, container (f x) = container x) :
    Lists parts container outer (inner.modify j f) := by
  intro i o ho
  refine (h i o ho).modify j fun x => ?_
  rw [hf]

end Lists

/-! ## Places -/

namespace Tables

/-- The hierarchy and the depth of a level. -/
def rank? (t : Tables) (l : LevelId) : Option (HierarchyId × Nat) :=
  t.levels[l]?.map fun lvl => (lvl.hierarchy, lvl.depth)

/-- The hierarchy and the depth of the level that a member is on. -/
def place? (t : Tables) (m : MemberId) : Option (HierarchyId × Nat) :=
  (t.members[m]?.map (·.level)).bind t.rank?

end Tables

/-- An entry after a change is an old one, or a changed one. -/
theorem of_getElem?_modify {xs : Array α} {f : α → α} {i j : Nat} {y : α}
    (h : (xs.modify i f)[j]? = some y) : ∃ x, xs[j]? = some x ∧ (y = x ∨ i = j ∧ y = f x) := by
  rw [Array.getElem?_modify] at h
  split at h
  · rename_i hij
    obtain ⟨x, hx, rfl⟩ := Option.map_eq_some_iff.1 h
    exact ⟨x, hx, .inr ⟨hij, rfl⟩⟩
  · exact ⟨y, h, .inl rfl⟩

theorem of_getElem?_push {xs : Array α} {x y : α} {i : Nat} (h : (xs.push x)[i]? = some y) :
    xs[i]? = some y ∨ i = xs.size ∧ y = x := by
  rw [Array.getElem?_push] at h
  split at h
  · rename_i hi
    cases h
    exact .inr ⟨hi, rfl⟩
  · exact .inl h

/-- An entry keeps what a change of entries keeps. -/
theorem map_getElem?_modify {γ : Type} (g : α → γ) {f : α → α} (xs : Array α) (i j : Nat)
    (hf : ∀ a, g (f a) = g a) : (xs.modify i f)[j]?.map g = xs[j]?.map g := by
  rw [Array.getElem?_modify]
  split
  · rw [Option.map_map]
    exact congrArg (Option.map · _) (funext hf)
  · rfl

/-- Old entries stay when one is added. -/
theorem map_getElem?_push {γ : Type} {g : α → γ} {xs : Array α} {i : Nat} {c : γ}
    (h : xs[i]?.map g = some c) (x : α) : (xs.push x)[i]?.map g = some c := by
  obtain ⟨a, ha, rfl⟩ := Option.map_eq_some_iff.1 h
  obtain ⟨hlt, rfl⟩ := Array.getElem?_eq_some_iff.1 ha
  rw [Array.getElem?_push_lt hlt]
  rfl

/-- Adding a child to its parent changes nothing but lists of children. -/
theorem Tables.map_getElem?_addChild {γ : Type} (g : Member → γ)
    (hg : ∀ (m : Member) (cs : List MemberId), g { m with children := cs } = g m)
    (ms : Array Member) (parent : Option MemberId) (child : MemberId) (j : Nat) :
    (addChild ms parent child)[j]?.map g = ms[j]?.map g := by
  cases parent with
  | none => rfl
  | some p => exact map_getElem?_modify g ms p j fun m => hg m _

/-- A member with a new child is the old one but for its children. -/
theorem Tables.of_getElem?_addChild {ms : Array Member} {parent : Option MemberId}
    {child j : MemberId} {m : Member} (h : (addChild ms parent child)[j]? = some m) :
    ∃ old, ms[j]? = some old ∧ m.parent = old.parent := by
  cases parent with
  | none => exact ⟨m, h, rfl⟩
  | some p =>
    obtain ⟨old, ho, rfl | ⟨-, rfl⟩⟩ := of_getElem?_modify h
    · exact ⟨_, ho, rfl⟩
    · exact ⟨old, ho, rfl⟩

theorem Tables.size_addChild (ms : Array Member) (parent : Option MemberId) (child : MemberId) :
    (addChild ms parent child).size = ms.size := by
  cases parent with
  | none => rfl
  | some p => exact Array.size_modify

/-- A new member is where its level is. -/
theorem Tables.place?_addMember {t : Tables} {id : LevelId} {lvl : Level} {scope name : String}
    {parent : Option MemberId} (found : t.levels[id]? = some lvl) :
    (t.addMember id scope name parent).place? t.members.size =
      some (lvl.hierarchy, lvl.depth) := by
  have hlevel : (t.addMember id scope name parent).members[t.members.size]?.map (·.level) =
      some id := by
    simp only [addMember]
    rw [Tables.map_getElem?_addChild (·.level) fun _ _ => rfl, Array.getElem?_push_size]
    rfl
  have hrank : (t.addMember id scope name parent).rank? id = some (lvl.hierarchy, lvl.depth) := by
    simp [rank?, addMember, Array.getElem?_modify, found]
  rw [place?, hlevel, Option.bind_some, hrank]

namespace Edit

variable {t t' : Tables}

theorem rank? (e : Edit t t') {l : LevelId} {q : HierarchyId × Nat} (h : t.rank? l = some q) :
    t'.rank? l = some q := by
  cases e with
  | level id hier name all found fresh first => exact map_getElem?_push h _
  | member id lvl scope name parent found named fresh only =>
    refine (map_getElem?_modify (fun l : Level => (l.hierarchy, l.depth)) t.levels id l ?_).trans h
    exact fun _ => rfl
  | dimension | hierarchy | defaultMember | cube => exact h

theorem level? (e : Edit t t') {m : MemberId} {l : LevelId}
    (h : t.members[m]?.map (·.level) = some l) : t'.members[m]?.map (·.level) = some l := by
  cases e with
  | member id lvl scope name parent found named fresh only =>
    simp only [Tables.addMember]
    rw [Tables.map_getElem?_addChild (·.level) (fun _ _ => rfl)]
    exact map_getElem?_push h _
  | dimension | hierarchy | level | defaultMember | cube => exact h

/-- Members stay on their level, and levels stay in their place. -/
theorem place? (e : Edit t t') {m : MemberId} {q : HierarchyId × Nat} (h : t.place? m = some q) :
    t'.place? m = some q := by
  obtain ⟨l, hl, hq⟩ := Option.bind_eq_some_iff.1 h
  exact Option.bind_eq_some_iff.2 ⟨l, e.level? hl, e.rank? hq⟩

end Edit

/-! ## Sound tables -/

/-- What is required of the references between tables. -/
structure Tables.Sound (t : Tables) : Prop where
  /-- References to containers point into the tables. -/
  anchored : t.Anchored
  /-- Containers list their parts, each once and in the order of their indices. -/
  hierarchies : Lists Dimension.hierarchies (fun h => some h.dimension) t.dimensions t.hierarchies
  levels : Lists Hierarchy.levels (fun l => some l.hierarchy) t.hierarchies t.levels
  members : Lists Level.members (fun m => some m.level) t.levels t.members
  children : Lists Member.children Member.parent t.members t.members
  /-- The levels of a hierarchy are listed by depth. -/
  depths : ∀ h hier, t.hierarchies[h]? = some hier →
    ∀ i l, hier.levels[i]? = some l → t.rank? l = some (h, i)
  /-- Members at depth 0 have no parent; the others have one that was there before them, in the same
  hierarchy and one level up. -/
  parents : ∀ m mem, t.members[m]? = some mem → ∃ h k, t.place? m = some (h, k) ∧
    (k = 0 ∧ mem.parent = none ∨
      ∃ p j, mem.parent = some p ∧ p < m ∧ k = j + 1 ∧ t.place? p = some (h, j))
  /-- All levels come first and hold at most their all member. -/
  allLevels : ∀ lvl ∈ t.levels, lvl.all = true → lvl.depth = 0 ∧ lvl.members.length ≤ 1
  /-- A default member is in its hierarchy. -/
  defaults : ∀ h hier, t.hierarchies[h]? = some hier →
    ∀ m, hier.defaultMember = some m → ∃ k, t.place? m = some (h, k)
  cubes : ∀ cube ∈ t.cubes, ∀ d ∈ cube.dimensions, d < t.dimensions.size
  memberIndex : ∀ entry ∈ t.memberIndex, entry.2 < t.members.size
  /-- Dimensions have different names, and those of measures are called so. -/
  names : ∀ (i j : Nat) (n : String), t.dimensions[i]?.map (·.name) = some n →
    t.dimensions[j]?.map (·.name) = some n → i = j
  marked : ∀ d ∈ t.dimensions, d.measures = true → d.name = measuresName

namespace Tables.Sound

variable {t t' : Tables}

theorem empty (name : String) : (Tables.empty name).Sound where
  anchored := .empty name
  hierarchies := .empty _
  levels := .empty _
  members := .empty _
  children := .empty _
  depths := fun _ _ hh => nomatch hh
  parents := fun _ _ hm => nomatch hm
  allLevels := fun _ hl => by simp [Tables.empty] at hl
  defaults := fun _ _ hh => nomatch hh
  cubes := fun _ hc => by simp [Tables.empty] at hc
  memberIndex := fun _ he => nomatch he
  names := fun _ _ _ hi => nomatch hi
  marked := fun _ hd => by simp [Tables.empty] at hd

/-! ### Containers and parts -/

theorem edit_hierarchies (h : t.Sound) (e : Edit t t') :
    Lists Dimension.hierarchies (fun h => some h.dimension) t'.dimensions t'.hierarchies := by
  cases e with
  | dimension name measures fresh marked =>
    refine h.hierarchies.push_outer rfl fun x hx hc => ?_
    exact Nat.ne_of_lt (h.anchored.hierarchies x hx) (Option.some.inj hc)
  | hierarchy id dim name found fresh => exact h.hierarchies.push_inner rfl fun _ => rfl
  | level id hier name all found fresh first =>
    simp only [addLevel]
    exact h.hierarchies.modify_inner id fun _ => rfl
  | defaultMember id hier chosen mem lvl found known placed inside =>
    simp only [nameDefault]
    exact h.hierarchies.modify_inner id fun _ => rfl
  | member | cube => exact h.hierarchies

theorem edit_levels (h : t.Sound) (e : Edit t t') :
    Lists Hierarchy.levels (fun l => some l.hierarchy) t'.hierarchies t'.levels := by
  cases e with
  | hierarchy id dim name found fresh =>
    refine h.levels.push_outer rfl fun x hx hc => ?_
    exact Nat.ne_of_lt (h.anchored.levels x hx) (Option.some.inj hc)
  | level id hier name all found fresh first => exact h.levels.push_inner rfl fun _ => rfl
  | member id lvl scope name parent found named fresh only =>
    simp only [addMember]
    exact h.levels.modify_inner id fun _ => rfl
  | defaultMember id hier chosen mem lvl found known placed inside =>
    exact h.levels.modify_outer id fun _ => rfl
  | dimension | cube => exact h.levels

theorem edit_members (h : t.Sound) (e : Edit t t') :
    Lists Level.members (fun m => some m.level) t'.levels t'.members := by
  cases e with
  | level id hier name all found fresh first =>
    refine h.members.push_outer rfl fun x hx hc => ?_
    exact Nat.ne_of_lt (h.anchored.members x hx) (Option.some.inj hc)
  | member id lvl scope name parent found named fresh only =>
    have hpush := h.members.push_inner (x := ⟨name, qualify scope name, id, parent, []⟩)
      (f := fun l => { l with members := l.members ++ [t.members.size] }) rfl fun _ => rfl
    cases parent with
    | none => exact hpush
    | some p =>
      simp only [addMember, addChild]
      exact hpush.modify_inner p fun _ => rfl
  | dimension | hierarchy | defaultMember | cube => exact h.members

/-- Nothing is below a member that is not there yet. -/
theorem parent_lt (h : t.Sound) {m : Member} {p : MemberId} (hm : m ∈ t.members)
    (hp : m.parent = some p) : p < t.members.size := by
  obtain ⟨i, hi⟩ := Array.mem_iff_getElem?.1 hm
  have hlt := (Array.getElem?_eq_some_iff.1 hi).1
  obtain ⟨_, _, -, ⟨-, hnone⟩ | ⟨q, _, hq, hlt', -⟩⟩ := h.parents i m hi
  · cases hp.symm.trans hnone
  · cases hp.symm.trans hq
    exact Nat.lt_trans hlt' hlt

theorem edit_children (h : t.Sound) (e : Edit t t') :
    Lists Member.children Member.parent t'.members t'.members := by
  cases e with
  | member id lvl scope name parent found named fresh only =>
    -- the new member first becomes a container without children, and then a child
    let new : Member := ⟨name, qualify scope name, id, parent, []⟩
    have houter := h.children.push_outer (o := new) rfl
      fun x hx hc => Nat.lt_irrefl _ (h.parent_lt hx hc)
    cases parent with
    | none => exact houter.push_free rfl
    | some p =>
      have hinner := houter.push_inner (x := new) (j := p)
        (f := fun m => { m with children := m.children ++ [t.members.size] }) rfl fun _ => rfl
      simp only [addMember, addChild]
      exact hinner.modify_inner p fun _ => rfl
  | dimension | hierarchy | level | defaultMember | cube => exact h.children

/-! ### Places of levels and members -/

theorem edit_depths (h : t.Sound) (e : Edit t t') :
    ∀ q hier, t'.hierarchies[q]? = some hier →
      ∀ i l, hier.levels[i]? = some l → t'.rank? l = some (q, i) := by
  intro q hier hq i l hl
  have kept : ∀ old, t.hierarchies[q]? = some old → old.levels[i]? = some l →
      t'.rank? l = some (q, i) := fun old ho hl => e.rank? (h.depths q old ho i l hl)
  cases e with
  | hierarchy id dim name found fresh =>
    obtain hq | ⟨-, rfl⟩ := of_getElem?_push hq
    · exact kept hier hq hl
    · cases hl
  | level id hier' name all found fresh first =>
    obtain ⟨old, ho, rfl | ⟨rfl, rfl⟩⟩ := of_getElem?_modify hq
    · exact kept _ ho hl
    · cases found.symm.trans ho
      have hi : i < hier'.levels.length + 1 := by
        simpa using (List.getElem?_eq_some_iff.1 hl).1
      obtain hlt | rfl := Nat.lt_or_eq_of_le (Nat.le_of_lt_succ hi)
      · rw [List.getElem?_append_left hlt] at hl
        exact kept hier' ho hl
      · rw [List.getElem?_concat_length] at hl
        cases hl
        simp [rank?, addLevel]
  | defaultMember id hier chosen mem lvl found known placed inside =>
    obtain ⟨old, ho, rfl | ⟨-, rfl⟩⟩ := of_getElem?_modify hq
    · exact kept _ ho hl
    · exact kept old ho hl
  | dimension | member | cube => exact kept hier hq hl

theorem edit_parents (h : t.Sound) (e : Edit t t') :
    ∀ m mem, t'.members[m]? = some mem → ∃ q k, t'.place? m = some (q, k) ∧
      (k = 0 ∧ mem.parent = none ∨
        ∃ p j, mem.parent = some p ∧ p < m ∧ k = j + 1 ∧ t'.place? p = some (q, j)) := by
  have stays : ∀ m q, t.place? m = some q → t'.place? m = some q := fun _ _ => e.place?
  have kept : ∀ m old, t.members[m]? = some old → ∃ q k, t'.place? m = some (q, k) ∧
      (k = 0 ∧ old.parent = none ∨
        ∃ p j, old.parent = some p ∧ p < m ∧ k = j + 1 ∧ t'.place? p = some (q, j)) := by
    intro m old ho
    obtain ⟨q, k, hplace, hroot | ⟨p, j, hp, hlt, hk, habove⟩⟩ := h.parents m old ho
    · exact ⟨q, k, stays m _ hplace, .inl hroot⟩
    · exact ⟨q, k, stays m _ hplace, .inr ⟨p, j, hp, hlt, hk, stays p _ habove⟩⟩
  intro m mem hm
  cases e with
  | member id lvl scope name parent found named fresh only =>
    obtain ⟨old, ho, hparent⟩ := Tables.of_getElem?_addChild hm
    rw [hparent]
    obtain ho | ⟨rfl, rfl⟩ := of_getElem?_push ho
    · exact kept m old ho
    · refine ⟨lvl.hierarchy, lvl.depth, place?_addMember found, ?_⟩
      obtain ⟨_, -, hroot | hbelow⟩ := Draft.memberScope_ok named
      · obtain ⟨hnone, hdepth, -⟩ := hroot
        exact .inl ⟨hdepth, hnone⟩
      · obtain ⟨p, above, levelAbove, hp, habove, hlevel, hhier, hdepth, -⟩ := hbelow
        have hplace : t.place? p = some (lvl.hierarchy, levelAbove.depth) := by
          simp [place?, rank?, habove, hlevel, hhier]
        exact .inr ⟨p, levelAbove.depth, hp, (Array.getElem?_eq_some_iff.1 habove).1, hdepth.symm,
          stays p _ hplace⟩
  | dimension | hierarchy | level | defaultMember | cube => exact kept m mem hm

theorem edit_defaults (h : t.Sound) (e : Edit t t') :
    ∀ q hier, t'.hierarchies[q]? = some hier →
      ∀ m, hier.defaultMember = some m → ∃ k, t'.place? m = some (q, k) := by
  intro q hier hq m hm
  have kept : ∀ old, t.hierarchies[q]? = some old → old.defaultMember = some m →
      ∃ k, t'.place? m = some (q, k) := by
    intro old ho hm
    obtain ⟨k, hk⟩ := h.defaults q old ho m hm
    exact ⟨k, e.place? hk⟩
  cases e with
  | hierarchy id dim name found fresh =>
    obtain hq | ⟨-, rfl⟩ := of_getElem?_push hq
    · exact kept hier hq hm
    · cases hm
  | level id hier' name all found fresh first =>
    obtain ⟨old, ho, rfl | ⟨-, rfl⟩⟩ := of_getElem?_modify hq
    · exact kept _ ho hm
    · exact kept old ho hm
  | defaultMember id hier' chosen mem lvl found known placed inside =>
    obtain ⟨old, ho, rfl | ⟨rfl, rfl⟩⟩ := of_getElem?_modify hq
    · exact kept _ ho hm
    · cases hm
      refine ⟨lvl.depth, ?_⟩
      simp [place?, rank?, nameDefault, known, placed, inside]
  | dimension | member | cube => exact kept hier hq hm

theorem edit_allLevels (h : t.Sound) (e : Edit t t') :
    ∀ lvl ∈ t'.levels, lvl.all = true → lvl.depth = 0 ∧ lvl.members.length ≤ 1 := by
  cases e with
  | level id hier name all found fresh first =>
    refine Array.forall_mem_push.2 ⟨fun hall => ?_, h.allLevels⟩
    simp only [first hall, List.length_nil, Nat.zero_le, and_self]
  | member id lvl scope name parent found named fresh only =>
    intro lvl' hlvl' hall
    obtain ⟨i, hi⟩ := Array.mem_iff_getElem?.1 hlvl'
    obtain ⟨old, ho, rfl | ⟨rfl, rfl⟩⟩ := of_getElem?_modify hi
    · exact h.allLevels _ (Array.mem_of_getElem? ho) hall
    · cases found.symm.trans ho
      refine ⟨(h.allLevels _ (Array.mem_of_getElem? ho) hall).1, ?_⟩
      simp [only hall]
  | dimension | hierarchy | defaultMember | cube => exact h.allLevels

/-! ### Other references, and names of dimensions -/

theorem edit_cubes (h : t.Sound) (e : Edit t t') :
    ∀ cube ∈ t'.cubes, ∀ d ∈ cube.dimensions, d < t'.dimensions.size := by
  cases e with
  | dimension name measures fresh marked =>
    intro cube hcube d hd
    simp only [addDimension, Array.size_push]
    exact Nat.lt_succ_of_lt (h.cubes cube hcube d hd)
  | hierarchy id dim name found fresh =>
    simp only [addHierarchy, Array.size_modify]
    exact h.cubes
  | cube name dims fresh known => exact Array.forall_mem_push.2 ⟨known, h.cubes⟩
  | level | member | defaultMember => exact h.cubes

theorem edit_memberIndex (h : t.Sound) (e : Edit t t') :
    ∀ entry ∈ t'.memberIndex, entry.2 < t'.members.size := by
  cases e with
  | member id lvl scope name parent found named fresh only =>
    intro entry hentry
    simp only [addMember, Tables.size_addChild, Array.size_push]
    obtain hentry | hentry := List.mem_append.1 hentry
    · exact Nat.lt_succ_of_lt (h.memberIndex entry hentry)
    · rw [List.mem_singleton.1 hentry]
      exact Nat.lt_succ_self _
  | dimension | hierarchy | level | defaultMember | cube => exact h.memberIndex

theorem edit_names (h : t.Sound) (e : Edit t t') :
    ∀ (i j : Nat) (n : String), t'.dimensions[i]?.map (·.name) = some n →
      t'.dimensions[j]?.map (·.name) = some n → i = j := by
  cases e with
  | dimension name measures fresh marked =>
    have hnew : ∀ i : Nat, t.dimensions[i]?.map (·.name) ≠ some name := by
      intro i hi
      obtain ⟨d, hd, hname⟩ := Option.map_eq_some_iff.1 hi
      obtain ⟨hlt, hget⟩ := Array.getElem?_eq_some_iff.1 hd
      exact fresh (Array.any_eq_true.2 ⟨i, hlt, by simp [hget, hname]⟩)
    intro i j n hi hj
    simp only [addDimension, Array.getElem?_push] at hi hj
    split at hi <;> split at hj
    · rename_i hi' hj'
      rw [hi', hj']
    · cases hi
      exact absurd hj (hnew j)
    · cases hj
      exact absurd hi (hnew i)
    · exact h.names i j n hi hj
  | hierarchy id dim name found fresh =>
    have hkeep : ∀ i : Nat, (t.addHierarchy id dim name).dimensions[i]?.map (·.name) =
        t.dimensions[i]?.map (·.name) := by
      intro i
      simp only [addHierarchy]
      exact map_getElem?_modify Dimension.name _ _ _ fun _ => rfl
    intro i j n hi hj
    exact h.names i j n (hkeep i ▸ hi) (hkeep j ▸ hj)
  | level | member | defaultMember | cube => exact h.names

theorem edit_marked (h : t.Sound) (e : Edit t t') :
    ∀ d ∈ t'.dimensions, d.measures = true → d.name = measuresName := by
  cases e with
  | dimension name measures fresh marked => exact Array.forall_mem_push.2 ⟨marked, h.marked⟩
  | hierarchy id dim name found fresh =>
    simp only [addHierarchy]
    exact forall_mem_modify id h.marked fun _ hd => hd
  | level | member | defaultMember | cube => exact h.marked

/-- Every edit keeps the references sound. -/
theorem edit (h : t.Sound) (e : Edit t t') : t'.Sound where
  anchored := h.anchored.edit e
  hierarchies := h.edit_hierarchies e
  levels := h.edit_levels e
  members := h.edit_members e
  children := h.edit_children e
  depths := h.edit_depths e
  parents := h.edit_parents e
  allLevels := h.edit_allLevels e
  defaults := h.edit_defaults e
  cubes := h.edit_cubes e
  memberIndex := h.edit_memberIndex e
  names := h.edit_names e
  marked := h.edit_marked e

/-- Every run of commands keeps the references sound. -/
theorem after (name : String) (commands : List Command) :
    ((Tables.empty name).after commands).Sound :=
  invariant_after (fun _ _ h e => h.edit e) (.empty name) commands

/-- Two dimensions of measures would have the same name. -/
theorem one_measures (h : t.Sound) {i j : Nat} {d e : Dimension}
    (hi : t.dimensions[i]? = some d) (hj : t.dimensions[j]? = some e) (hd : d.measures = true)
    (he : e.measures = true) : i = j := by
  refine h.names i j measuresName ?_ ?_
  · rw [hi, Option.map_some, h.marked d (Array.mem_of_getElem? hi) hd]
  · rw [hj, Option.map_some, h.marked e (Array.mem_of_getElem? hj) he]

end Tables.Sound

/-- Whatever commands are run on empty tables, and whichever of them fail, the references of the
tables are sound, and at most one dimension is one of measures. -/
theorem Tables.references_stay_sound (name : String) (commands : List Command) :
    ((Tables.empty name).after commands).Sound ∧
      ∀ (i j : Nat) (d e : Dimension),
        ((Tables.empty name).after commands).dimensions[i]? = some d →
        ((Tables.empty name).after commands).dimensions[j]? = some e →
        d.measures = true → e.measures = true → i = j := by
  have h : ((Tables.empty name).after commands).Sound := .after name commands
  exact ⟨h, fun _ _ _ _ hi hj hd he => h.one_measures hi hj hd he⟩

/-- A second dimension of measures and a city without a parent are refused, and leave the tables
sound. -/
theorem Tables.references_stay_sound_past_refusals :
    let t := (Tables.empty "Sales").after [.measures, .measures, .dimension "Store",
      .hierarchy 1 "Store", .allLevel 1 "All Stores", .level 1 "City", .member 2 "Rome" none,
      .member 2 "Rome" (some 0)]
    t.dimensions[0]? = some ⟨measuresName, "[Measures]", [0], true⟩ ∧
      t.dimensions.size = 2 ∧ t.members.size = 2 ∧ t.Sound ∧
      ∀ (j : Nat) (e : Dimension), t.dimensions[j]? = some e → e.measures = true → 0 = j := by
  intro t
  have hfirst : t.dimensions[0]? = some ⟨measuresName, "[Measures]", [0], true⟩ := by
    decide +kernel
  have hdims : t.dimensions.size = 2 := by decide +kernel
  have hmembers : t.members.size = 2 := by decide +kernel
  obtain ⟨hsound, hone⟩ : t.Sound ∧ _ := references_stay_sound "Sales" _
  exact ⟨hfirst, hdims, hmembers, hsound, fun j e hj he => hone 0 j _ e hfirst hj rfl he⟩

end Hypercube
