import Hypercube.Proofs.Growth

/-!
# When unique names of structure are not unique

Dimensions have different names, and so do the hierarchies of a dimension and the levels of a
hierarchy.  Unique names are put together from these names without a check, and names may hold any
characters.  Unique names of dimensions are unique; those of hierarchies and levels need not be.
Here it is said exactly when they are not.

* `dotted_cases` — two ways to put a text together from two parts and a dot.
* `hierarchyText_eq_iff`, `Overlaps` — when two hierarchies are called the same: the name of one
  dimension goes on, after a dot, from the name of the other.
* `qualify_eq_iff`, `Nests` — when two levels are called the same although their hierarchies are
  not: the name of one level holds a closing and an opening bracket.
* `ApartIn`, `Tables.StructureNamed` — names differ within a container, and unique names are made of
  names; an invariant of drafting, and of finishing a schema.
* `Schema.structure_names_clash_iff` — which elements of a finished schema share a unique name.
-/

set_option autoImplicit false

namespace Hypercube

/-! ## Texts with dots -/

theorem append_cons_cases {α : Type} {dot : α} {a b c d : List α}
    (h : a ++ dot :: b = c ++ dot :: d) :
    (a = c ∧ b = d) ∨ (∃ x, c = a ++ dot :: x ∧ b = x ++ dot :: d) ∨
      ∃ x, a = c ++ dot :: x ∧ d = x ++ dot :: b := by
  rcases List.append_eq_append_iff.1 h with ⟨w, hc, hb⟩ | ⟨w, ha, hd⟩
  · cases w with
    | nil => exact .inl ⟨by simp [hc], (List.cons.inj hb).2⟩
    | cons e x =>
      obtain ⟨rfl, hrest⟩ := List.cons.inj hb
      exact .inr (.inl ⟨x, hc, hrest⟩)
  · cases w with
    | nil => exact .inl ⟨by simp [ha], (List.cons.inj hd).2.symm⟩
    | cons e x =>
      obtain ⟨rfl, hrest⟩ := List.cons.inj hd
      exact .inr (.inr ⟨x, ha, hrest⟩)

/-- Two ways to put a text together from two parts and a dot between them: the parts are the same,
or one of them goes over the dot of the other. -/
theorem dotted_cases {a b c d : String} (h : a ++ "." ++ b = c ++ "." ++ d) :
    (a = c ∧ b = d) ∨ (∃ x, c = a ++ "." ++ x ∧ b = x ++ "." ++ d) ∨
      ∃ x, a = c ++ "." ++ x ∧ d = x ++ "." ++ b := by
  have hlist : a.toList ++ '.' :: b.toList = c.toList ++ '.' :: d.toList := by
    have := congrArg String.toList h
    simpa using this
  rcases append_cons_cases hlist with ⟨ha, hb⟩ | ⟨x, hc, hb⟩ | ⟨x, ha, hd⟩
  · exact .inl ⟨String.ext ha, String.ext hb⟩
  · refine .inr (.inl ⟨.ofList x, String.ext ?_, String.ext ?_⟩)
    · simp [hc]
    · simp [hb]
  · refine .inr (.inr ⟨.ofList x, String.ext ?_, String.ext ?_⟩)
    · simp [ha]
    · simp [hd]

theorem bracket_inj {a b : String} : bracket a = bracket b ↔ a = b := by
  simp [bracket]

/-! ## Names of hierarchies -/

/-- What stands in the brackets of the unique name of a hierarchy. -/
def hierarchyText (dimension name : String) : String :=
  if name = dimension then dimension else dimension ++ "." ++ name

theorem hierarchyUniqueName_eq {dim : Dimension} (h : dim.uniqueName = bracket dim.name)
    (name : String) :
    Draft.hierarchyUniqueName dim name = bracket (hierarchyText dim.name name) := by
  unfold Draft.hierarchyUniqueName hierarchyText
  split
  · exact h
  · rfl

/-- The name of a dimension goes on from that of another one after a dot, and the name of a
hierarchy of the other one goes on in the same way. -/
def Overlaps (dimension name dimension' name' : String) : Prop :=
  name ≠ dimension ∧ ∃ x, dimension' = dimension ++ "." ++ x ∧
    name = if name' = dimension' then x else x ++ "." ++ name'

theorem hierarchyText_of_overlaps {d n d' n' : String} (h : Overlaps d n d' n') :
    hierarchyText d n = hierarchyText d' n' := by
  obtain ⟨hne, x, rfl, hn⟩ := h
  rw [hierarchyText, if_neg hne, hierarchyText, hn]
  split
  · rfl
  · simp [String.append_assoc]

/-- Two hierarchies are called the same if their names and those of their dimensions are the same,
or if these overlap. -/
theorem hierarchyText_eq_iff {d n d' n' : String} :
    hierarchyText d n = hierarchyText d' n' ↔
      (d = d' ∧ n = n') ∨ Overlaps d n d' n' ∨ Overlaps d' n' d n := by
  constructor
  · intro h
    unfold hierarchyText at h
    by_cases hn : n = d
    · by_cases hn' : n' = d'
      · rw [if_pos hn, if_pos hn'] at h
        exact .inl ⟨h, by rw [hn, hn', h]⟩
      · rw [if_pos hn, if_neg hn'] at h
        exact .inr (.inr ⟨hn', n', h, by rw [if_pos hn]⟩)
    · by_cases hn' : n' = d'
      · rw [if_neg hn, if_pos hn'] at h
        exact .inr (.inl ⟨hn, n, h.symm, by rw [if_pos hn']⟩)
      · rw [if_neg hn, if_neg hn'] at h
        rcases dotted_cases h with hsame | ⟨x, hd', hx⟩ | ⟨x, hd, hx⟩
        · exact .inl hsame
        · exact .inr (.inl ⟨hn, x, hd', by rw [if_neg hn', hx]⟩)
        · exact .inr (.inr ⟨hn', x, hd, by rw [if_neg hn, hx]⟩)
  · rintro (⟨rfl, rfl⟩ | h | h)
    · rfl
    · exact hierarchyText_of_overlaps h
    · exact (hierarchyText_of_overlaps h).symm

/-- Names overlap only where the name of a dimension has a dot. -/
theorem Overlaps.dot_mem {d n d' n' : String} (h : Overlaps d n d' n') : '.' ∈ d'.toList := by
  obtain ⟨-, x, rfl, -⟩ := h
  simp

/-! ## Names of levels -/

/-- The unique name of a hierarchy goes on from that of another one like that of a level, and the
name of a level of the other one goes on in the same way. -/
def Nests (scope name scope' name' : String) : Prop :=
  ∃ y, scope' = qualify scope y ∧ name = y ++ "].[" ++ name'

theorem qualify_of_nests {u n v k : String} (h : Nests u n v k) : qualify u n = qualify v k := by
  obtain ⟨y, rfl, rfl⟩ := h
  apply String.ext
  simp [qualify, bracket]

/-- A text between a bracketed one and a dot that ends like a bracketed one is itself in brackets. -/
theorem eq_bracket {n u x w b : String} (hstart : bracket n = x ++ "." ++ b)
    (hend : bracket w = u ++ "." ++ x) : ∃ y, x = bracket y := by
  have hfirst : '[' :: (n.toList ++ [']']) = x.toList ++ '.' :: b.toList := by
    have := congrArg String.toList hstart
    simpa [bracket] using this
  have hlast : ('[' :: w.toList) ++ [']'] = u.toList ++ '.' :: x.toList := by
    have := congrArg String.toList hend
    simpa [bracket] using this
  cases hx : x.toList with
  | nil =>
    rw [hx] at hfirst
    cases (List.cons.inj hfirst).1
  | cons c cs =>
    rw [hx] at hfirst hlast
    obtain ⟨rfl, -⟩ := List.cons.inj hfirst
    rcases List.eq_nil_or_concat cs with rfl | ⟨ys, l, rfl⟩
    · have hsplit : ('[' :: w.toList) ++ [']'] = (u.toList ++ ['.']) ++ ['['] := by simpa using hlast
      cases (List.append_inj' hsplit rfl).2
    · have hsplit : ('[' :: w.toList) ++ [']'] = (u.toList ++ '.' :: '[' :: ys) ++ [l] := by
        simpa using hlast
      obtain rfl : ']' = l := (List.cons.inj (List.append_inj' hsplit rfl).2).1
      refine ⟨.ofList ys, String.ext ?_⟩
      simp [bracket, hx]

theorem nests_of_dotted {u n v k w x : String} (hv : v = bracket w) (hx : v = u ++ "." ++ x)
    (hn : bracket n = x ++ "." ++ bracket k) : Nests u n v k := by
  obtain ⟨y, rfl⟩ := eq_bracket hn (hv.symm.trans hx)
  refine ⟨y, hx, String.ext ?_⟩
  have hsplit : n.toList ++ [']'] = (y.toList ++ ']' :: '.' :: '[' :: k.toList) ++ [']'] := by
    have := congrArg String.toList hn
    simpa [bracket] using this
  simpa using List.append_cancel_right hsplit

/-- Two levels are called the same if their names and the unique names of their hierarchies are the
same, or if one of these is nested in the other. -/
theorem qualify_eq_iff {u n v k a b : String} (hu : u = bracket a) (hv : v = bracket b) :
    qualify u n = qualify v k ↔ (u = v ∧ n = k) ∨ Nests u n v k ∨ Nests v k u n := by
  constructor
  · intro h
    rcases dotted_cases h with ⟨hscope, hname⟩ | ⟨x, hx, hn⟩ | ⟨x, hx, hk⟩
    · exact .inl ⟨hscope, bracket_inj.1 hname⟩
    · exact .inr (.inl (nests_of_dotted hv hx hn))
    · exact .inr (.inr (nests_of_dotted hu hx hk))
  · rintro (⟨rfl, rfl⟩ | h | h)
    · rfl
    · exact qualify_of_nests h
    · exact (qualify_of_nests h).symm

/-- Names are nested only where the name of a level has two brackets with a dot between them. -/
theorem Nests.brackets_inside {u n v k : String} (h : Nests u n v k) :
    "].[".toList <:+: n.toList := by
  obtain ⟨y, -, rfl⟩ := h
  exact ⟨y.toList, k.toList, by simp⟩

/-! ## Names within a container -/

/-- Entries of one container have different names. -/
def ApartIn {α : Type} (container : α → Nat) (name : α → String) (xs : Array α) : Prop :=
  ∀ (i j : Nat) (a b : α), xs[i]? = some a → xs[j]? = some b → container a = container b →
    name a = name b → i = j

namespace ApartIn

variable {α : Type} {container : α → Nat} {name : α → String} {xs : Array α}

/-- A new entry has a name that is not taken in its container. -/
theorem push (h : ApartIn container name xs) {x : α}
    (fresh : ∀ a ∈ xs, container a = container x → name a ≠ name x) :
    ApartIn container name (xs.push x) := by
  intro i j a b ha hb hcontainer hname
  rcases of_getElem?_push ha with hold | ⟨rfl, rfl⟩
  · rcases of_getElem?_push hb with hold' | ⟨rfl, rfl⟩
    · exact h i j a b hold hold' hcontainer hname
    · exact absurd hname (fresh a (Array.mem_of_getElem? hold) hcontainer)
  · rcases of_getElem?_push hb with hold' | ⟨rfl, rfl⟩
    · exact absurd hname.symm (fresh b (Array.mem_of_getElem? hold') hcontainer.symm)
    · rfl

/-- Changes of entries that touch neither names nor containers keep names apart. -/
theorem of_map {ys : Array α} (h : ApartIn container name xs)
    (hold : ∀ (i : Nat) (y : α), ys[i]? = some y →
      ∃ x, xs[i]? = some x ∧ container y = container x ∧ name y = name x) :
    ApartIn container name ys := by
  intro i j a b ha hb hcontainer hname
  obtain ⟨x, hx, hcx, hnx⟩ := hold i a ha
  obtain ⟨y, hy, hcy, hny⟩ := hold j b hb
  refine h i j x y hx hy ?_ ?_
  · rw [← hcx, ← hcy, hcontainer]
  · rw [← hnx, ← hny, hname]

theorem modify (h : ApartIn container name xs) (k : Nat) {f : α → α}
    (hcontainer : ∀ a, container (f a) = container a) (hname : ∀ a, name (f a) = name a) :
    ApartIn container name (xs.modify k f) := by
  refine h.of_map fun i y hy => ?_
  obtain ⟨x, hx, rfl | ⟨-, rfl⟩⟩ := of_getElem?_modify hy
  · exact ⟨_, hx, rfl, rfl⟩
  · exact ⟨x, hx, hcontainer x, hname x⟩

end ApartIn

/-- A name that no part of a container has is fresh there. -/
theorem Indexes.fresh {α : Type} {ids : List Nat} {xs : Array α} {p : α → Prop}
    {name : α → String} {n : String} (h : Indexes ids xs p)
    (fresh : ¬ ids.any fun i => xs[i]?.any (name · == n)) : ∀ a ∈ xs, p a → name a ≠ n := by
  intro a ha hp hname
  obtain ⟨i, hi⟩ := Array.mem_iff_getElem?.1 ha
  apply fresh
  rw [List.any_eq_true]
  exact ⟨i, (h.mem_iff i).2 ⟨a, hi, hp⟩, by simp [hi, hname]⟩

/-! ## Names in tables -/

/-- Unique names of structure are made of names, and names differ within a container. -/
structure Tables.StructureNamed (t : Tables) : Prop where
  dimensions : ∀ d ∈ t.dimensions, d.uniqueName = bracket d.name
  hierarchies : ∀ hier ∈ t.hierarchies, ∃ dim, t.dimensions[hier.dimension]? = some dim ∧
    hier.uniqueName = bracket (hierarchyText dim.name hier.name)
  levels : ∀ lvl ∈ t.levels, ∃ hier, t.hierarchies[lvl.hierarchy]? = some hier ∧
    lvl.uniqueName = qualify hier.uniqueName lvl.name
  hierarchyNames : ApartIn Hierarchy.dimension Hierarchy.name t.hierarchies
  levelNames : ApartIn Level.hierarchy Level.name t.levels

namespace Tables.StructureNamed

variable {t t' : Tables}

theorem empty (name : String) : (Tables.empty name).StructureNamed where
  dimensions := by simp [Tables.empty]
  hierarchies := by simp [Tables.empty]
  levels := by simp [Tables.empty]
  hierarchyNames := fun _ _ _ _ ha => nomatch ha
  levelNames := fun _ _ _ _ ha => nomatch ha

/-- Dimensions keep their names, so hierarchies stay named after them. -/
theorem hierarchies_of_extends (h : t.StructureNamed) (he : t.Extends t') :
    ∀ hier ∈ t.hierarchies, ∃ dim, t'.dimensions[hier.dimension]? = some dim ∧
      hier.uniqueName = bracket (hierarchyText dim.name hier.name) := by
  intro hier hhier
  obtain ⟨dim, hdim, hname⟩ := h.hierarchies hier hhier
  obtain ⟨dim', hdim', grow⟩ := he.dimensions _ dim hdim
  exact ⟨dim', hdim', by rw [hname, grow.name]⟩

/-- Hierarchies keep their unique names, so levels stay named after them. -/
theorem levels_of_extends (h : t.StructureNamed) (he : t.Extends t') :
    ∀ lvl ∈ t.levels, ∃ hier, t'.hierarchies[lvl.hierarchy]? = some hier ∧
      lvl.uniqueName = qualify hier.uniqueName lvl.name := by
  intro lvl hlvl
  obtain ⟨hier, hhier, hname⟩ := h.levels lvl hlvl
  obtain ⟨hier', hhier', grow⟩ := he.hierarchies _ hier hhier
  exact ⟨hier', hhier', by rw [hname, grow.uniqueName]⟩

theorem edit (h : t.StructureNamed) (hs : t.Sound) (e : Edit t t') : t'.StructureNamed := by
  have he := e.extends
  have hhierarchies := h.hierarchies_of_extends he
  have hlevels := h.levels_of_extends he
  cases e with
  | dimension name measures fresh marked =>
    exact { h with
      dimensions := Array.forall_mem_push.2 ⟨rfl, h.dimensions⟩
      hierarchies := hhierarchies
      levels := hlevels }
  | hierarchy id dim name found fresh =>
    have hname := hierarchyUniqueName_eq (h.dimensions dim (Array.mem_of_getElem? found)) name
    obtain ⟨dim', hdim', grow⟩ := he.dimensions id dim found
    refine { h with
      dimensions := ?_
      hierarchies := Array.forall_mem_push.2 ⟨⟨dim', hdim', ?_⟩, hhierarchies⟩
      levels := hlevels
      hierarchyNames := h.hierarchyNames.push ?_ }
    · simp only [addHierarchy]
      exact forall_mem_modify id h.dimensions fun _ hd => hd
    · rw [hname, grow.name]
    · intro a ha hdimension
      exact (hs.hierarchies id dim found).fresh fresh a ha (congrArg some hdimension)
  | level id hier name all found fresh first =>
    obtain ⟨hier', hhier', grow⟩ := he.hierarchies id hier found
    refine { h with
      hierarchies := ?_
      levels := Array.forall_mem_push.2 ⟨⟨hier', hhier', ?_⟩, hlevels⟩
      hierarchyNames := h.hierarchyNames.modify id (fun _ => rfl) fun _ => rfl
      levelNames := h.levelNames.push ?_ }
    · simp only [addLevel]
      exact forall_mem_modify id h.hierarchies fun _ hh => hh
    · rw [grow.uniqueName]
    · intro a ha hhierarchy
      exact (hs.levels id hier found).fresh fresh a ha (congrArg some hhierarchy)
  | member id lvl scope name parent found named fresh only =>
    refine { h with
      levels := ?_
      levelNames := h.levelNames.modify id (fun _ => rfl) fun _ => rfl }
    simp only [addMember]
    exact forall_mem_modify id h.levels fun _ hl => hl
  | defaultMember id hier chosen mem lvl found known placed inside =>
    refine { h with
      hierarchies := ?_
      levels := hlevels
      hierarchyNames := h.hierarchyNames.modify id (fun _ => rfl) fun _ => rfl }
    simp only [nameDefault]
    exact forall_mem_modify id h.hierarchies fun _ hh => hh
  | cube name dims fresh known => exact { h with }

theorem after (name : String) (commands : List Command) :
    ((Tables.empty name).after commands).StructureNamed := by
  have both : ((Tables.empty name).after commands).Sound ∧
      ((Tables.empty name).after commands).StructureNamed :=
    invariant_after (P := fun t => t.Sound ∧ t.StructureNamed)
      (fun _ _ h e => ⟨h.1.edit e, h.2.edit h.1 e⟩) ⟨.empty name, .empty name⟩ commands
  exact both.2

theorem build {s : Schema} (h : t.StructureNamed) (hb : t.build = .ok s) :
    s.toTables.StructureNamed := by
  have hlevels := h.levels_of_extends (extends_of_build hb)
  rw [build_ok hb] at hlevels ⊢
  refine { h with hierarchies := fun hier hhier => ?_, levels := hlevels, hierarchyNames := ?_ }
  · obtain ⟨old, hold, rfl⟩ := Array.mem_map.1 hhier
    exact h.hierarchies old hold
  · refine h.hierarchyNames.of_map fun i hier hi => ?_
    obtain ⟨old, hold, rfl⟩ := Option.map_eq_some_iff.1 (Array.getElem?_map ▸ hi)
    exact ⟨old, hold, rfl, rfl⟩

/-! ## Elements of one unique name -/

/-- Dimensions are told apart by their names. -/
theorem eq_of_same_name (hs : t.Sound) {i j : DimensionId} {d e : Dimension}
    (hi : t.dimensions[i]? = some d) (hj : t.dimensions[j]? = some e) (hname : d.name = e.name) :
    i = j := by
  refine hs.names i j d.name ?_ ?_
  · rw [hi, Option.map_some]
  · rw [hj, Option.map_some, hname]

theorem eq_of_dimension_name (h : t.StructureNamed) (hs : t.Sound) {i j : DimensionId}
    {d e : Dimension} (hi : t.dimensions[i]? = some d) (hj : t.dimensions[j]? = some e)
    (hname : d.uniqueName = e.uniqueName) : i = j := by
  rw [h.dimensions d (Array.mem_of_getElem? hi), h.dimensions e (Array.mem_of_getElem? hj),
    bracket_inj] at hname
  exact eq_of_same_name hs hi hj hname

/-- Two hierarchies share a unique name if their names overlap with those of their dimensions. -/
theorem hierarchy_clash_iff (h : t.StructureNamed) (hs : t.Sound) {i j : HierarchyId}
    {a b : Hierarchy} {d e : Dimension} (hi : t.hierarchies[i]? = some a)
    (hj : t.hierarchies[j]? = some b) (hd : t.dimensions[a.dimension]? = some d)
    (he : t.dimensions[b.dimension]? = some e) :
    a.uniqueName = b.uniqueName ↔
      i = j ∨ Overlaps d.name a.name e.name b.name ∨ Overlaps e.name b.name d.name a.name := by
  obtain ⟨d', hd', ha⟩ := h.hierarchies a (Array.mem_of_getElem? hi)
  obtain ⟨e', he', hb⟩ := h.hierarchies b (Array.mem_of_getElem? hj)
  cases hd.symm.trans hd'
  cases he.symm.trans he'
  have hsame : d.name = e.name ∧ a.name = b.name ↔ i = j := by
    constructor
    · rintro ⟨hdim, hname⟩
      have hdimension : a.dimension = b.dimension := eq_of_same_name hs hd he hdim
      exact h.hierarchyNames i j a b hi hj hdimension hname
    · rintro rfl
      cases hi.symm.trans hj
      cases hd.symm.trans he
      exact ⟨rfl, rfl⟩
  rw [ha, hb, bracket_inj, hierarchyText_eq_iff, hsame]

/-- Two levels share a unique name if they are called the same in different hierarchies that share
a unique name, or if their names are nested. -/
theorem level_clash_iff (h : t.StructureNamed) {i j : LevelId} {a b : Level} {g k : Hierarchy}
    (hi : t.levels[i]? = some a) (hj : t.levels[j]? = some b)
    (hg : t.hierarchies[a.hierarchy]? = some g) (hk : t.hierarchies[b.hierarchy]? = some k) :
    a.uniqueName = b.uniqueName ↔
      i = j ∨ (a.hierarchy ≠ b.hierarchy ∧ g.uniqueName = k.uniqueName ∧ a.name = b.name) ∨
        Nests g.uniqueName a.name k.uniqueName b.name ∨
        Nests k.uniqueName b.name g.uniqueName a.name := by
  obtain ⟨g', hg', ha⟩ := h.levels a (Array.mem_of_getElem? hi)
  obtain ⟨k', hk', hb⟩ := h.levels b (Array.mem_of_getElem? hj)
  cases hg.symm.trans hg'
  cases hk.symm.trans hk'
  obtain ⟨_, -, hgname⟩ := h.hierarchies g (Array.mem_of_getElem? hg)
  obtain ⟨_, -, hkname⟩ := h.hierarchies k (Array.mem_of_getElem? hk)
  have hsame : g.uniqueName = k.uniqueName ∧ a.name = b.name ↔
      i = j ∨ a.hierarchy ≠ b.hierarchy ∧ g.uniqueName = k.uniqueName ∧ a.name = b.name := by
    constructor
    · intro hboth
      by_cases hhier : a.hierarchy = b.hierarchy
      · exact .inl (h.levelNames i j a b hi hj hhier hboth.2)
      · exact .inr ⟨hhier, hboth⟩
    · rintro (rfl | ⟨-, hboth⟩)
      · cases hi.symm.trans hj
        cases hg.symm.trans hk
        exact ⟨rfl, rfl⟩
      · exact hboth
  rw [ha, hb, qualify_eq_iff hgname hkname]
  exact (or_congr_left hsame).trans or_assoc

end Tables.StructureNamed

namespace Schema

/-- In every finished schema, unique names of dimensions are unique.  Two hierarchies share a unique
name exactly if their names overlap with those of their dimensions, and two levels exactly if their
hierarchies share one and they have the same name, or if their names are nested.  So unique names of
hierarchies and levels are unique where no dimension has a dot in its name and no level has two
brackets with a dot between them. -/
theorem structure_names_clash_iff {name : String} {commands : List Command} {s : Schema}
    (built : ((Tables.empty name).after commands).build = .ok s) :
    (∀ (i j : DimensionId) (d e : Dimension), s.dimensions[i]? = some d →
      s.dimensions[j]? = some e → d.uniqueName = e.uniqueName → i = j) ∧
    (∀ (i j : HierarchyId) (a b : Hierarchy) (d e : Dimension), s.hierarchies[i]? = some a →
      s.hierarchies[j]? = some b → s.dimensions[a.dimension]? = some d →
      s.dimensions[b.dimension]? = some e →
      (a.uniqueName = b.uniqueName ↔
        i = j ∨ Overlaps d.name a.name e.name b.name ∨ Overlaps e.name b.name d.name a.name)) ∧
    (∀ (i j : LevelId) (a b : Level) (g k : Hierarchy), s.levels[i]? = some a →
      s.levels[j]? = some b → s.hierarchies[a.hierarchy]? = some g →
      s.hierarchies[b.hierarchy]? = some k →
      (a.uniqueName = b.uniqueName ↔
        i = j ∨ (a.hierarchy ≠ b.hierarchy ∧ g.uniqueName = k.uniqueName ∧ a.name = b.name) ∨
          Nests g.uniqueName a.name k.uniqueName b.name ∨
          Nests k.uniqueName b.name g.uniqueName a.name)) ∧
    ((∀ d ∈ s.dimensions, '.' ∉ d.name.toList) →
      (∀ l ∈ s.levels, ¬ "].[".toList <:+: l.name.toList) →
      (∀ (i j : HierarchyId) (a b : Hierarchy), s.hierarchies[i]? = some a →
        s.hierarchies[j]? = some b → a.uniqueName = b.uniqueName → i = j) ∧
      ∀ (i j : LevelId) (a b : Level), s.levels[i]? = some a → s.levels[j]? = some b →
        a.uniqueName = b.uniqueName → i = j) := by
  have hsound := Tables.Sound.after name commands
  have hs : s.Sound := hsound.build built
  have hn : s.StructureNamed := (Tables.StructureNamed.after name commands).build built
  refine ⟨fun i j d e hi hj => hn.eq_of_dimension_name hs hi hj,
    fun i j a b d e hi hj hd he => hn.hierarchy_clash_iff hs hi hj hd he,
    fun i j a b g k hi hj hg hk => hn.level_clash_iff hi hj hg hk, ?_⟩
  intro hdots hbrackets
  have hhierarchies : ∀ (i j : HierarchyId) (a b : Hierarchy), s.hierarchies[i]? = some a →
      s.hierarchies[j]? = some b → a.uniqueName = b.uniqueName → i = j := by
    intro i j a b hi hj hname
    obtain ⟨d, hd, -⟩ := hn.hierarchies a (Array.mem_of_getElem? hi)
    obtain ⟨e, he, -⟩ := hn.hierarchies b (Array.mem_of_getElem? hj)
    rcases (hn.hierarchy_clash_iff hs hi hj hd he).1 hname with hij | hover | hover
    · exact hij
    · exact absurd hover.dot_mem (hdots e (Array.mem_of_getElem? he))
    · exact absurd hover.dot_mem (hdots d (Array.mem_of_getElem? hd))
  refine ⟨hhierarchies, fun i j a b hi hj hname => ?_⟩
  obtain ⟨g, hg, -⟩ := hn.levels a (Array.mem_of_getElem? hi)
  obtain ⟨k, hk, -⟩ := hn.levels b (Array.mem_of_getElem? hj)
  rcases (hn.level_clash_iff hi hj hg hk).1 hname with hij | ⟨hne, hshared, -⟩ | hnest | hnest
  · exact hij
  · exact absurd (hhierarchies _ _ g k hg hk hshared) hne
  · exact absurd hnest.brackets_inside (hbrackets a (Array.mem_of_getElem? hi))
  · exact absurd hnest.brackets_inside (hbrackets b (Array.mem_of_getElem? hj))

/-- Hierarchies of the dimensions `A` and `A.B` that are called the same, each with a level `City`,
and two further levels that are called the same because of brackets in names. -/
def homonyms : Schema :=
  ⟨⟨"Sales", #[], #[⟨"A.B", "[A.B]", [0], false⟩, ⟨"A", "[A]", [1], false⟩,
      ⟨"C", "[C]", [2], false⟩, ⟨"C].[x", "[C].[x]", [3], false⟩],
    #[⟨"A.B", "[A.B]", 0, [0], none⟩, ⟨"B", "[A.B]", 1, [1], none⟩, ⟨"C", "[C]", 2, [2], none⟩,
      ⟨"C].[x", "[C].[x]", 3, [3], none⟩],
    #[⟨"City", "[A.B].[City]", 0, 0, false, []⟩, ⟨"City", "[A.B].[City]", 1, 0, false, []⟩,
      ⟨"x].[y", "[C].[x].[y]", 2, 0, false, []⟩, ⟨"y", "[C].[x].[y]", 3, 0, false, []⟩],
    #[], []⟩⟩

/-- Different hierarchies, and different levels, can share a unique name: in both ways. -/
theorem structure_names_clash_iff_homonyms :
    ((Tables.empty "Sales").after [.dimension "A.B", .hierarchy 0 "A.B", .level 0 "City",
      .dimension "A", .hierarchy 1 "B", .level 1 "City", .dimension "C", .hierarchy 2 "C",
      .level 2 "x].[y", .dimension "C].[x", .hierarchy 3 "C].[x", .level 3 "y"]).build =
        .ok homonyms ∧
      Overlaps "A" "B" "A.B" "A.B" ∧ Nests "[C]" "x].[y" "[C].[x]" "y" ∧
      homonyms.hierarchies[1]?.map (·.uniqueName) = homonyms.hierarchies[0]?.map (·.uniqueName) ∧
      homonyms.levels[1]?.map (·.uniqueName) = homonyms.levels[0]?.map (·.uniqueName) ∧
      homonyms.levels[2]?.map (·.uniqueName) = homonyms.levels[3]?.map (·.uniqueName) := by
  have hb : ((Tables.empty "Sales").after [.dimension "A.B", .hierarchy 0 "A.B", .level 0 "City",
      .dimension "A", .hierarchy 1 "B", .level 1 "City", .dimension "C", .hierarchy 2 "C",
      .level 2 "x].[y", .dimension "C].[x", .hierarchy 3 "C].[x", .level 3 "y"]).build =
        .ok homonyms := Tables.build_of_toOption (by decide +kernel)
  obtain ⟨-, hhierarchies, hlevels, -⟩ := structure_names_clash_iff hb
  have hover : Overlaps "A" "B" "A.B" "A.B" := ⟨by decide, "B", by decide, by decide⟩
  have hnest : Nests "[C]" "x].[y" "[C].[x]" "y" := ⟨"x", by decide, by decide⟩
  have hshared := (hhierarchies 1 0 _ _ _ _ rfl rfl rfl rfl).2 (.inr (.inl hover))
  refine ⟨hb, hover, hnest, congrArg some hshared, congrArg some ?_, congrArg some ?_⟩
  · exact (hlevels 1 0 _ _ _ _ rfl rfl rfl rfl).2 (.inr (.inl ⟨by decide, hshared, rfl⟩))
  · exact (hlevels 2 3 _ _ _ _ rfl rfl rfl rfl).2 (.inr (.inr (.inl hnest)))

end Schema

end Hypercube
