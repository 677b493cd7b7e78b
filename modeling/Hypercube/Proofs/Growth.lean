import Hypercube.Proofs.Integrity

/-!
# Tables only grow

Edits add entries at the end of tables and parts at the end of lists.  Apart from default members,
nothing that was recorded changes, and finishing a schema changes nothing but default members.

* `Grown` — entries stay where they are, and change as a relation between entries allows.
* `Dimension.Grows`, `Hierarchy.Grows`, `Level.Grows`, `Member.Grows` — how entries may change.
* `Tables.Extends` — how tables may change; `Edit.extends` and `Tables.extends_of_build` say that
  edits and finishing do no more.
* `Tables.Sound.build` — references stay sound when a schema is finished.
-/

set_option autoImplicit false

namespace Hypercube

variable {α β : Type}

/-! ## Entries -/

/-- Every entry is still in its place, changed at most as `R` allows. -/
def Grown (R : α → α → Prop) (xs ys : Array α) : Prop :=
  ∀ (i : Nat) (x : α), xs[i]? = some x → ∃ y, ys[i]? = some y ∧ R x y

namespace Grown

variable {R : α → α → Prop} {xs ys zs : Array α}

theorem refl (hR : ∀ x, R x x) (xs : Array α) : Grown R xs xs :=
  fun _ x hx => ⟨x, hx, hR x⟩

theorem trans (hR : ∀ x y z, R x y → R y z → R x z) (h : Grown R xs ys) (h' : Grown R ys zs) :
    Grown R xs zs := by
  intro i x hx
  obtain ⟨y, hy, hxy⟩ := h i x hx
  obtain ⟨z, hz, hyz⟩ := h' i y hy
  exact ⟨z, hz, hR x y z hxy hyz⟩

theorem push (hR : ∀ x, R x x) (xs : Array α) (new : α) : Grown R xs (xs.push new) := by
  intro i x hx
  obtain ⟨hi, -⟩ := Array.getElem?_eq_some_iff.1 hx
  exact ⟨x, by rw [Array.getElem?_push_lt hi, ← Array.getElem?_eq_getElem hi, hx], hR x⟩

theorem modify (hR : ∀ x, R x x) (xs : Array α) (j : Nat) {f : α → α} (hf : ∀ x, R x (f x)) :
    Grown R xs (xs.modify j f) := by
  intro i x hx
  rw [Array.getElem?_modify, hx]
  split
  · exact ⟨f x, rfl, hf x⟩
  · exact ⟨x, rfl, hR x⟩

end Grown

/-- A dimension may get further hierarchies. -/
structure Dimension.Grows (d d' : Dimension) : Prop where
  name : d'.name = d.name
  uniqueName : d'.uniqueName = d.uniqueName
  measures : d'.measures = d.measures
  hierarchies : d.hierarchies <+: d'.hierarchies

/-- A hierarchy may get further levels, and a default member. -/
structure Hierarchy.Grows (h h' : Hierarchy) : Prop where
  name : h'.name = h.name
  uniqueName : h'.uniqueName = h.uniqueName
  dimension : h'.dimension = h.dimension
  levels : h.levels <+: h'.levels

/-- A level may get further members. -/
structure Level.Grows (l l' : Level) : Prop where
  name : l'.name = l.name
  uniqueName : l'.uniqueName = l.uniqueName
  hierarchy : l'.hierarchy = l.hierarchy
  depth : l'.depth = l.depth
  all : l'.all = l.all
  members : l.members <+: l'.members

/-- A member may get further children. -/
structure Member.Grows (m m' : Member) : Prop where
  name : m'.name = m.name
  uniqueName : m'.uniqueName = m.uniqueName
  level : m'.level = m.level
  parent : m'.parent = m.parent
  children : m.children <+: m'.children

theorem Dimension.Grows.refl (d : Dimension) : d.Grows d :=
  ⟨rfl, rfl, rfl, List.prefix_rfl⟩

theorem Hierarchy.Grows.refl (h : Hierarchy) : h.Grows h :=
  ⟨rfl, rfl, rfl, List.prefix_rfl⟩

theorem Level.Grows.refl (l : Level) : l.Grows l :=
  ⟨rfl, rfl, rfl, rfl, rfl, List.prefix_rfl⟩

theorem Member.Grows.refl (m : Member) : m.Grows m :=
  ⟨rfl, rfl, rfl, rfl, List.prefix_rfl⟩

theorem Member.Grows.trans {m m' m'' : Member} (h : m.Grows m') (h' : m'.Grows m'') :
    m.Grows m'' :=
  ⟨h'.name.trans h.name, h'.uniqueName.trans h.uniqueName, h'.level.trans h.level,
    h'.parent.trans h.parent, h.children.trans h'.children⟩

/-- A new member is listed after the members there are, and after the children of its parent. -/
theorem Tables.grown_addChild (ms : Array Member) (new : Member) (parent : Option MemberId)
    (child : MemberId) : Grown Member.Grows ms (addChild (ms.push new) parent child) := by
  have hpush : Grown Member.Grows ms (ms.push new) := .push Member.Grows.refl ms new
  cases parent with
  | none => exact hpush
  | some p =>
    refine hpush.trans (fun _ _ _ => Member.Grows.trans) (.modify Member.Grows.refl _ p ?_)
    exact fun m => ⟨rfl, rfl, rfl, rfl, List.prefix_append _ _⟩

/-! ## Tables -/

/-- What was recorded in tables stays recorded, apart from default members. -/
structure Tables.Extends (t t' : Tables) : Prop where
  cubes : Grown Eq t.cubes t'.cubes
  dimensions : Grown Dimension.Grows t.dimensions t'.dimensions
  hierarchies : Grown Hierarchy.Grows t.hierarchies t'.hierarchies
  levels : Grown Level.Grows t.levels t'.levels
  members : Grown Member.Grows t.members t'.members
  memberIndex : t.memberIndex <+: t'.memberIndex

theorem Tables.Extends.refl (t : Tables) : t.Extends t where
  cubes := .refl (fun _ => rfl) _
  dimensions := .refl Dimension.Grows.refl _
  hierarchies := .refl Hierarchy.Grows.refl _
  levels := .refl Level.Grows.refl _
  members := .refl Member.Grows.refl _
  memberIndex := List.prefix_rfl

/-- Edits extend tables. -/
theorem Edit.extends {t t' : Tables} (e : Edit t t') : t.Extends t' := by
  have same := Tables.Extends.refl t
  cases e with
  | dimension name measures fresh marked =>
    exact { same with dimensions := .push Dimension.Grows.refl _ _ }
  | hierarchy id dim name found fresh =>
    refine { same with
      hierarchies := .push Hierarchy.Grows.refl _ _
      dimensions := .modify Dimension.Grows.refl _ id ?_ }
    exact fun d => ⟨rfl, rfl, rfl, List.prefix_append _ _⟩
  | level id hier name all found fresh first =>
    refine { same with
      levels := .push Level.Grows.refl _ _
      hierarchies := .modify Hierarchy.Grows.refl _ id ?_ }
    exact fun h => ⟨rfl, rfl, rfl, List.prefix_append _ _⟩
  | member id lvl scope name parent found named fresh only =>
    refine { same with
      members := Tables.grown_addChild _ _ parent _
      memberIndex := List.prefix_append _ _
      levels := .modify Level.Grows.refl _ id ?_ }
    exact fun l => ⟨rfl, rfl, rfl, rfl, rfl, List.prefix_append _ _⟩
  | defaultMember id hier chosen mem lvl found known placed inside =>
    refine { same with hierarchies := .modify Hierarchy.Grows.refl _ id ?_ }
    exact fun h => ⟨rfl, rfl, rfl, List.prefix_rfl⟩
  | cube name dims fresh known => exact { same with cubes := .push (fun _ => rfl) _ _ }

/-- Finishing a schema extends its tables. -/
theorem Tables.extends_of_build {t : Tables} {s : Schema} (h : t.build = .ok s) :
    t.Extends s.toTables := by
  rw [build_ok h]
  refine { Tables.Extends.refl t with hierarchies := fun i hier hi => ?_ }
  exact ⟨t.withDefault hier, by simp [hi], rfl, rfl, rfl, List.prefix_rfl⟩

/-! ## Finished schemas -/

/-- Changes of entries that touch neither parts nor containers change no list of parts. -/
theorem Lists.map_outer {parts : α → List Nat} {container : β → Option Nat} {outer : Array α}
    {inner : Array β} (h : Lists parts container outer inner) {f : α → α}
    (hf : ∀ o, parts (f o) = parts o) : Lists parts container (outer.map f) inner := by
  intro i o ho
  rw [Array.getElem?_map] at ho
  obtain ⟨o', ho', rfl⟩ := Option.map_eq_some_iff.1 ho
  rw [hf]
  exact h i o' ho'

theorem Lists.map_inner {parts : α → List Nat} {container : β → Option Nat} {outer : Array α}
    {inner : Array β} (h : Lists parts container outer inner) {f : β → β}
    (hf : ∀ x, container (f x) = container x) : Lists parts container outer (inner.map f) := by
  intro i o ho
  refine ⟨(h i o ho).increasing, fun j => ?_⟩
  rw [(h i o ho).mem_iff]
  simp only [Array.getElem?_map, Option.map_eq_some_iff]
  constructor
  · rintro ⟨x, hx, hc⟩
    exact ⟨f x, ⟨x, hx, rfl⟩, (hf x).trans hc⟩
  · rintro ⟨-, ⟨x, hx, rfl⟩, hc⟩
    exact ⟨x, hx, (hf x).symm.trans hc⟩

namespace Tables.Sound

variable {t : Tables}

/-- The first member of the first level of a hierarchy is at the top of the hierarchy. -/
theorem place?_firstMember? (ht : t.Sound) {h : HierarchyId} {hier : Hierarchy} {m : MemberId}
    (hh : t.hierarchies[h]? = some hier) (hm : t.firstMember? hier = some m) :
    t.place? m = some (h, 0) := by
  simp only [firstMember?_eq, Option.bind_eq_bind, Option.bind_eq_some_iff] at hm
  obtain ⟨root, hroot, level, hlevel, hhead⟩ := hm
  rw [List.head?_eq_getElem?] at hroot
  obtain ⟨mem, hmem, hin⟩ := ((ht.members root level hlevel).mem_iff m).1 (List.mem_of_head? hhead)
  cases hin
  rw [place?, hmem]
  exact ht.depths h hier hh 0 mem.level hroot

/-- References of finished schemas are sound, those to default members included. -/
theorem build {s : Schema} (ht : t.Sound) (h : t.build = .ok s) : s.toTables.Sound := by
  have hanchored := ht.anchored.build h
  rw [build_ok h] at hanchored ⊢
  refine { ht with
    anchored := hanchored
    hierarchies := ht.hierarchies.map_inner fun _ => rfl
    levels := ht.levels.map_outer fun _ => rfl
    depths := fun q hier hq => ?_
    defaults := fun q hier hq m hm => ?_ }
  · obtain ⟨old, ho, rfl⟩ := Option.map_eq_some_iff.1 (Array.getElem?_map ▸ hq)
    exact ht.depths q old ho
  · obtain ⟨old, ho, rfl⟩ := Option.map_eq_some_iff.1 (Array.getElem?_map ▸ hq)
    rw [withDefault_eq] at hm
    obtain hchosen | ⟨-, hfirst⟩ := Option.or_eq_some_iff.1 hm
    · exact ht.defaults q old ho m hchosen
    · exact ⟨0, ht.place?_firstMember? ho hfirst⟩

end Tables.Sound

end Hypercube
