import Hypercube.Proofs.Edits
import Hypercube.Ty.Define

/-!
# Elements of finished schemas lie in elements

References from an element to its container are never checked when they are followed.  They need no
check: whatever commands have led to a schema, they point into its tables.

* `Tables.Anchored` — containers of elements are elements; an invariant of drafting.
* `Catalog.Built`, `Catalog.Has` — catalogs of finished schemas, and their elements.
* `Catalog.Built.container` — every element but a dimension has a container.
* `Catalog.Built.resolve_ok` — a choice of elements that is accepted resolves to the path of the
  innermost element chosen.
-/

set_option autoImplicit false

namespace Hypercube

/-! ## References to containers -/

/-- References to containers point into the tables. -/
structure Tables.Anchored (t : Tables) : Prop where
  hierarchies : ∀ h ∈ t.hierarchies, h.dimension < t.dimensions.size
  levels : ∀ l ∈ t.levels, l.hierarchy < t.hierarchies.size
  members : ∀ m ∈ t.members, m.level < t.levels.size

/-- What a change of entries keeps holds of all entries after one of them is changed. -/
theorem forall_mem_modify {α : Type} {p : α → Prop} {xs : Array α} {f : α → α} (i : Nat)
    (h : ∀ a ∈ xs, p a) (hf : ∀ a, p a → p (f a)) : ∀ a ∈ xs.modify i f, p a := by
  intro a ha
  obtain ⟨j, hj⟩ := Array.mem_iff_getElem?.1 ha
  rw [Array.getElem?_modify] at hj
  split at hj
  · obtain ⟨b, hb, rfl⟩ := Option.map_eq_some_iff.1 hj
    exact hf b (h b (Array.mem_of_getElem? hb))
  · exact h a (Array.mem_of_getElem? hj)

namespace Tables.Anchored

theorem empty (name : String) : (Tables.empty name).Anchored :=
  ⟨by simp [Tables.empty], by simp [Tables.empty], by simp [Tables.empty]⟩

theorem edit {t t' : Tables} (h : t.Anchored) (e : Edit t t') : t'.Anchored := by
  cases e with
  | dimension name measures fresh marked =>
    refine ⟨fun x hx => ?_, h.levels, h.members⟩
    simp only [addDimension, Array.size_push]
    exact Nat.lt_succ_of_lt (h.hierarchies x hx)
  | hierarchy id dim name found fresh =>
    refine ⟨?_, fun l hl => ?_, h.members⟩
    · simp only [addHierarchy, Array.size_modify]
      exact Array.forall_mem_push.2 ⟨(Array.getElem?_eq_some_iff.1 found).1, h.hierarchies⟩
    · simp only [addHierarchy, Array.size_push]
      exact Nat.lt_succ_of_lt (h.levels l hl)
  | level id hier name all found fresh first =>
    refine ⟨?_, ?_, fun m hm => ?_⟩
    · simp only [addLevel]
      exact forall_mem_modify id h.hierarchies fun _ hx => hx
    · simp only [addLevel, Array.size_modify]
      exact Array.forall_mem_push.2 ⟨(Array.getElem?_eq_some_iff.1 found).1, h.levels⟩
    · simp only [addLevel, Array.size_push]
      exact Nat.lt_succ_of_lt (h.members m hm)
  | member id lvl scope name parent found named fresh only =>
    refine ⟨h.hierarchies, ?_, ?_⟩
    · simp only [addMember]
      exact forall_mem_modify id h.levels fun _ hx => hx
    · simp only [addMember, Array.size_modify]
      have hpush : ∀ m ∈ t.members.push ⟨name, qualify scope name, id, parent, []⟩,
          m.level < t.levels.size :=
        Array.forall_mem_push.2 ⟨(Array.getElem?_eq_some_iff.1 found).1, h.members⟩
      cases parent with
      | none => exact hpush
      | some p =>
        refine forall_mem_modify p hpush ?_
        exact fun _ hx => hx
  | defaultMember id hier chosen mem lvl found known placed inside =>
    refine ⟨?_, ?_, h.members⟩
    · simp only [nameDefault]
      exact forall_mem_modify id h.hierarchies fun _ hx => hx
    · simp only [nameDefault, Array.size_modify]
      exact h.levels
  | cube name dims fresh known => exact ⟨h.hierarchies, h.levels, h.members⟩

theorem after (name : String) (commands : List Command) :
    ((Tables.empty name).after commands).Anchored :=
  invariant_after (fun _ _ => edit) (empty name) commands

end Tables.Anchored

/-- What the builder gives, from a test that can be evaluated. -/
theorem Tables.build_of_toOption {t : Tables} {s : Schema} (h : t.build.toOption = some s) :
    t.build = .ok s :=
  ok_of_toOption h

/-- Finishing a schema changes nothing but default members. -/
theorem Tables.build_ok {t : Tables} {s : Schema} (h : t.build = .ok s) :
    s.toTables = { t with hierarchies := t.hierarchies.map t.withDefault } := by
  rw [build_eq] at h
  split at h
  · cases h
  · split at h
    · cases h
    · cases h
      rfl

theorem Tables.Anchored.build {t : Tables} {s : Schema} (ht : t.Anchored) (h : t.build = .ok s) :
    s.toTables.Anchored := by
  rw [build_ok h]
  refine ⟨fun x hx => ?_, fun l hl => ?_, ht.members⟩
  · obtain ⟨h', hh', rfl⟩ := Array.mem_map.1 hx
    exact ht.hierarchies h' hh'
  · simp only [Array.size_map]
    exact ht.levels l hl

/-! ## Elements of catalogs -/

/-- The number of elements of a kind. -/
def Tables.count (t : Tables) : Kind → Nat
  | .dimension => t.dimensions.size
  | .hierarchy => t.hierarchies.size
  | .level => t.levels.size
  | .member => t.members.size

namespace Catalog

/-- An element is in the tables of its schema. -/
def Has (c : Catalog) (e : Element) : Prop :=
  ∃ s, c.schemaOf? e.ref = some s ∧ e.ref.index < s.count e.kind

/-- Every schema of a catalog was drafted by commands and finished. -/
def Built (c : Catalog) : Prop :=
  ∀ s ∈ c.schemas, ∃ name commands, ((Tables.empty name).after commands).build = .ok s

variable {c : Catalog}

/-- A catalog of one schema, from the commands that draft it. -/
theorem built_singleton (name : String) (commands : List Command) {s : Schema}
    (h : ((Tables.empty name).after commands).build.toOption = some s) : Built ⟨#[s]⟩ := by
  intro s' hs'
  obtain rfl : s' = s := by simpa using hs'
  exact ⟨name, commands, Tables.build_of_toOption h⟩

/-- A dimension with a hierarchy of years and one of weeks. -/
def calendars : Catalog :=
  ⟨#[⟨⟨"Sales", #[], #[⟨"Time", "[Time]", [0, 1], false⟩],
    #[⟨"Year", "[Time.Year]", 0, [0], some 0⟩, ⟨"Week", "[Time.Week]", 0, [1], some 1⟩],
    #[⟨"Year", "[Time.Year].[Year]", 0, 0, false, [0]⟩,
      ⟨"Week", "[Time.Week].[Week]", 1, 0, false, [1]⟩],
    #[⟨"2024", "[Time.Year].[2024]", 0, none, []⟩, ⟨"W1", "[Time.Week].[W1]", 1, none, []⟩],
    [("[Time.Year].[2024]", 0), ("[Time.Week].[W1]", 1)]⟩⟩]⟩

theorem calendars_built : calendars.Built := by
  refine built_singleton "Sales" [.dimension "Time", .hierarchy 0 "Year", .hierarchy 0 "Week",
    .level 0 "Year", .level 1 "Week", .member 0 "2024" none, .member 1 "W1" none] ?_
  decide +kernel

/-- Cities of stores, genders and years, in a dimension each. -/
def retail : Catalog :=
  ⟨#[⟨⟨"Sales", #[],
    #[⟨"Store", "[Store]", [0], false⟩, ⟨"Gender", "[Gender]", [1], false⟩,
      ⟨"Time", "[Time]", [2], false⟩],
    #[⟨"Store", "[Store]", 0, [0], some 0⟩, ⟨"Gender", "[Gender]", 1, [1], some 2⟩,
      ⟨"Time", "[Time]", 2, [2], some 4⟩],
    #[⟨"City", "[Store].[City]", 0, 0, false, [0, 1]⟩,
      ⟨"Gender", "[Gender].[Gender]", 1, 0, false, [2, 3]⟩,
      ⟨"Year", "[Time].[Year]", 2, 0, false, [4]⟩],
    #[⟨"Oslo", "[Store].[Oslo]", 0, none, []⟩, ⟨"Rome", "[Store].[Rome]", 0, none, []⟩,
      ⟨"F", "[Gender].[F]", 1, none, []⟩, ⟨"M", "[Gender].[M]", 1, none, []⟩,
      ⟨"2024", "[Time].[2024]", 2, none, []⟩],
    [("[Store].[Oslo]", 0), ("[Store].[Rome]", 1), ("[Gender].[F]", 2), ("[Gender].[M]", 3),
      ("[Time].[2024]", 4)]⟩⟩]⟩

theorem retail_built : retail.Built := by
  refine built_singleton "Sales" [.dimension "Store", .dimension "Gender", .dimension "Time",
    .hierarchy 0 "Store", .hierarchy 1 "Gender", .hierarchy 2 "Time", .level 0 "City",
    .level 1 "Gender", .level 2 "Year", .member 0 "Oslo" none, .member 0 "Rome" none,
    .member 1 "F" none, .member 1 "M" none, .member 2 "2024" none] ?_
  decide +kernel

theorem Built.anchored (hc : c.Built) {r : Ref} {s : Schema} (h : c.schemaOf? r = some s) :
    s.toTables.Anchored := by
  obtain ⟨name, commands, hb⟩ := hc s (Array.mem_of_getElem? h)
  exact (Tables.Anchored.after name commands).build hb

/-- Every element other than a dimension lies in an element of the kind around its own. -/
theorem Built.container (hc : c.Built) {outer inner : Kind} {r : Ref}
    (hk : outer.depth + 1 = inner.depth) (h : c.Has ⟨inner, r⟩) :
    ∃ q, c.container? ⟨inner, r⟩ = some q ∧ c.Has ⟨outer, q⟩ := by
  obtain ⟨s, hs, hi⟩ := h
  have ha := hc.anchored hs
  cases inner with
  | dimension => cases hk
  | hierarchy =>
    obtain rfl : outer = .dimension := Kind.depth_injective (Nat.succ.inj hk)
    have hget : s.hierarchies[r.index]? = some s.hierarchies[r.index] :=
      Array.getElem?_eq_getElem hi
    refine ⟨⟨r.schema, s.hierarchies[r.index].dimension⟩, ?_, s, hs, ?_⟩
    · simp only [container?, hs, Schema.dimensionOf?, hget, Option.bind_eq_bind, Option.bind_some,
        Option.map_some, Option.pure_def]
    · exact ha.hierarchies _ (Array.getElem_mem hi)
  | level =>
    obtain rfl : outer = .hierarchy := Kind.depth_injective (Nat.succ.inj hk)
    have hget : s.levels[r.index]? = some s.levels[r.index] := Array.getElem?_eq_getElem hi
    refine ⟨⟨r.schema, s.levels[r.index].hierarchy⟩, ?_, s, hs, ?_⟩
    · simp only [container?, hs, Schema.hierarchyOf?, hget, Option.bind_eq_bind, Option.bind_some,
        Option.map_some, Option.pure_def]
    · exact ha.levels _ (Array.getElem_mem hi)
  | member =>
    obtain rfl : outer = .level := Kind.depth_injective (Nat.succ.inj hk)
    have hget : s.members[r.index]? = some s.members[r.index] := Array.getElem?_eq_getElem hi
    refine ⟨⟨r.schema, s.members[r.index].level⟩, ?_, s, hs, ?_⟩
    · simp only [container?, hs, Schema.levelOf?, hget, Option.bind_eq_bind, Option.bind_some,
        Option.map_some, Option.pure_def]
    · exact ha.members _ (Array.getElem_mem hi)

/-! ## Paths of chosen elements -/

/-- The claimed container of an element is accepted if it is the actual one. -/
theorem agreedContainer_some {outer inner : Kind} {claimed : Option Ref} {r actual : Ref}
    (h : c.container? ⟨inner, r⟩ = some actual) :
    c.agreedContainer outer inner claimed (some r) =
      match claimed with
      | none => .ok (some actual)
      | some q =>
        if actual = q then .ok (some actual)
        else .error (.inconsistentBinding ⟨inner, r⟩ ⟨outer, q⟩) := by
  cases claimed with
  | none => simp only [agreedContainer, h]
  | some q =>
    simp only [agreedContainer, h]
    split
    · rename_i hq
      rw [hq]
    · rfl

theorem agreedContainer_ok {outer inner : Kind} {claimed result : Option Ref} {r actual : Ref}
    (hr : c.container? ⟨inner, r⟩ = some actual)
    (h : c.agreedContainer outer inner claimed (some r) = .ok result) : result = some actual := by
  rw [agreedContainer_some hr] at h
  split at h
  · cases h
    rfl
  · split at h
    · cases h
      rfl
    · cases h

end Catalog

/-- The element of a kind that is chosen. -/
def Choice.at? (ch : Choice) : Kind → Option Ref
  | .dimension => ch.dimension
  | .hierarchy => ch.hierarchy
  | .level => ch.level
  | .member => ch.member

/-- The innermost element chosen. -/
def Choice.innermost? (ch : Choice) : Option Element :=
  [Kind.member, .level, .hierarchy, .dimension].findSome? fun k => (ch.at? k).map (⟨k, ·⟩)

namespace Catalog

variable {c : Catalog}

/-- Every chosen element is in the catalog. -/
def Knows (c : Catalog) (ch : Choice) : Prop :=
  ∀ k r, ch.at? k = some r → c.Has ⟨k, r⟩

/-- The path to an element goes through its container. -/
theorem path?_of_container {outer inner : Kind} {q r : Ref} (hk : outer.depth + 1 = inner.depth)
    (h : c.container? ⟨inner, r⟩ = some q) :
    c.path? ⟨inner, r⟩ = (c.path? ⟨outer, q⟩).map (· ++ [r]) := by
  cases inner with
  | dimension => cases hk
  | hierarchy =>
    obtain rfl : outer = .dimension := Kind.depth_injective (Nat.succ.inj hk)
    simp [path?, h]
  | level =>
    obtain rfl : outer = .hierarchy := Kind.depth_injective (Nat.succ.inj hk)
    simp only [path?, h, Option.bind_eq_bind, Option.bind_some]
    cases c.container? ⟨.hierarchy, q⟩ <;> rfl
  | member =>
    obtain rfl : outer = .level := Kind.depth_injective (Nat.succ.inj hk)
    simp only [path?, h, Option.bind_eq_bind, Option.bind_some]
    cases c.container? ⟨.level, q⟩ with
    | none => rfl
    | some p =>
      simp only [Option.bind_some]
      cases c.container? ⟨.hierarchy, p⟩ <;> rfl

/-- One step of resolving a choice: the container that is agreed on for an element is the actual
one, and the path to the element goes through it. -/
theorem Built.agreed (hc : c.Built) {outer inner : Kind} {claimed result : Option Ref} {r : Ref}
    (hk : outer.depth + 1 = inner.depth) (hr : c.Has ⟨inner, r⟩)
    (h : c.agreedContainer outer inner claimed (some r) = .ok result) :
    ∃ q, result = some q ∧ c.Has ⟨outer, q⟩ ∧
      c.path? ⟨inner, r⟩ = (c.path? ⟨outer, q⟩).map (· ++ [r]) := by
  obtain ⟨q, hq, hhas⟩ := hc.container hk hr
  exact ⟨q, agreedContainer_ok hq h, hhas, path?_of_container hk hq⟩

theorem resolve_cases {ch : Choice} {b : Binding} (h : c.resolve ch = .ok b) :
    ∃ lvl hier dim, c.agreedContainer .level .member ch.level ch.member = .ok lvl ∧
      c.agreedContainer .hierarchy .level ch.hierarchy lvl = .ok hier ∧
      c.agreedContainer .dimension .hierarchy ch.dimension hier = .ok dim ∧
      b = [dim, hier, lvl, ch.member].filterMap id := by
  unfold resolve at h
  cases hl : c.agreedContainer .level .member ch.level ch.member with
  | error e =>
    rw [hl] at h
    cases h
  | ok lvl =>
    cases hh : c.agreedContainer .hierarchy .level ch.hierarchy lvl with
    | error e =>
      simp only [hl, hh, bind, Except.bind] at h
      cases h
    | ok hier =>
      cases hd : c.agreedContainer .dimension .hierarchy ch.dimension hier with
      | error e =>
        simp only [hl, hh, hd, bind, Except.bind] at h
        cases h
      | ok dim =>
        simp only [hl, hh, hd, bind, Except.bind] at h
        cases h
        exact ⟨lvl, hier, dim, rfl, hh, hd, rfl⟩

/-- A choice that is accepted resolves to the path of its innermost element, and the empty choice
to the empty path. -/
theorem Built.resolve_ok (hc : c.Built) {ch : Choice} {b : Binding} (hch : c.Knows ch)
    (h : c.resolve ch = .ok b) :
    match ch.innermost? with
    | none => b = []
    | some e => c.path? e = some b := by
  obtain ⟨lvl, hier, dim, hl, hh, hd, rfl⟩ := resolve_cases h
  have hlvl := hch .level
  have hhier := hch .hierarchy
  obtain ⟨dim₀, hier₀, lvl₀, mem₀⟩ := ch
  simp only [Choice.at?] at *
  -- where an element is chosen, its containers follow from it; where none is, the next one decides
  have fromHierarchy : ∀ r, hier = some r → c.Has ⟨.hierarchy, r⟩ →
      ∃ d, dim = some d ∧ c.path? ⟨.hierarchy, r⟩ = some [d, r] := by
    rintro r rfl hr
    obtain ⟨d, rfl, -, hp⟩ := hc.agreed rfl hr hd
    exact ⟨d, rfl, hp⟩
  have fromLevel : ∀ r, lvl = some r → c.Has ⟨.level, r⟩ →
      ∃ d q, dim = some d ∧ hier = some q ∧ c.path? ⟨.level, r⟩ = some [d, q, r] := by
    rintro r rfl hr
    obtain ⟨q, hq, hhas, hp⟩ := hc.agreed rfl hr hh
    obtain ⟨d, hd', hp'⟩ := fromHierarchy q hq hhas
    exact ⟨d, q, hd', hq, by rw [hp, hp']; rfl⟩
  cases mem₀ with
  | some m =>
    obtain ⟨r, hr, hhas, hp⟩ := hc.agreed rfl (hch .member m rfl) hl
    obtain ⟨d, q, hd', hq, hp'⟩ := fromLevel r hr hhas
    show c.path? ⟨.member, m⟩ = _
    rw [hp, hp', hd', hq, hr]
    rfl
  | none =>
    cases hl
    cases lvl with
    | some r =>
      obtain ⟨d, q, hd', hq, hp⟩ := fromLevel r rfl (hlvl r rfl)
      show c.path? ⟨.level, r⟩ = _
      rw [hp, hd', hq]
      rfl
    | none =>
      cases hh
      cases hier with
      | some q =>
        obtain ⟨d, hd', hp⟩ := fromHierarchy q rfl (hhier q rfl)
        show c.path? ⟨.hierarchy, q⟩ = _
        rw [hp, hd']
        rfl
      | none =>
        cases hd
        cases dim <;> rfl

end Catalog

end Hypercube
