import Hypercube.Proofs.Containers
import Hypercube.Proofs.WellFormed
import Hypercube.Ty.Shape

/-!
# The algebra of types stays well-formed

Types are defined from elements of finished schemas and from other types, and are unified, taken out
of sets, and turned into member types.  Definitions are checked, the other operations are not.
Nothing ill-formed comes out of any composition of them.

* `Formed` — the types that come out of some composition.
* `Catalog.linked_path`, `Catalog.Built.wellFormed_metadataOf` — bindings that are derived from
  elements are paths.
* `Formed.stays_well_formed` — the statement.
-/

set_option autoImplicit false

namespace Hypercube

/-! ## Derived bindings -/

variable {c : Catalog}

/-- A path goes on with an element that lies in its last one. -/
theorem Binding.Linked.snoc {b : Binding} {k : Kind} {r : Ref} (h : b.Linked c)
    (hlen : b.length = k.depth)
    (hr : k ≠ .dimension → c.container? ⟨k, r⟩ = b[k.depth - 1]?) : (b ++ [r]).Linked c := by
  intro k' r' hr' hk'
  have hpos : k'.depth ≠ 0 := fun h0 => hk' (Kind.depth_injective h0)
  by_cases hlt : k'.depth < b.length
  · rw [List.getElem?_append_left (by omega)]
    exact h k' r' (List.getElem?_append_left hlt ▸ hr') hk'
  · obtain ⟨hbound, hget⟩ := List.getElem?_eq_some_iff.1 hr'
    simp only [List.length_append, List.length_singleton] at hbound
    obtain rfl : k' = k := Kind.depth_injective (by omega)
    rw [List.getElem?_append_left (by omega), ← hr hk']
    simp only [← hlen, List.getElem_concat_length] at hget
    rw [hget]

theorem Binding.Linked.singleton (d : Ref) : Binding.Linked c [d] := by
  intro k r hr hk
  cases k with
  | dimension => exact absurd rfl hk
  | hierarchy | level | member => cases hr

/-- The path to an element is as long as its kind is deep, and each of its elements lies in the one
before it. -/
theorem Catalog.linked_path {e : Element} {b : Binding} (h : c.path? e = some b) :
    b.length = e.kind.fields ∧ b.Linked c := by
  obtain ⟨k, r⟩ := e
  cases k with
  | dimension =>
    cases h
    exact ⟨rfl, .singleton r⟩
  | hierarchy =>
    simp only [path?, Option.bind_eq_bind, Option.bind_eq_some_iff, Option.pure_def,
      Option.some.injEq] at h
    obtain ⟨d, hd, rfl⟩ := h
    exact ⟨rfl, (Binding.Linked.singleton d).snoc (k := .hierarchy) rfl fun _ => hd⟩
  | level =>
    simp only [path?, Option.bind_eq_bind, Option.bind_eq_some_iff, Option.pure_def,
      Option.some.injEq] at h
    obtain ⟨q, hq, d, hd, rfl⟩ := h
    have hlinked := (Binding.Linked.singleton d).snoc (k := .hierarchy) rfl fun _ => hd
    exact ⟨rfl, hlinked.snoc (k := .level) rfl fun _ => hq⟩
  | member =>
    simp only [path?, Option.bind_eq_bind, Option.bind_eq_some_iff, Option.pure_def,
      Option.some.injEq] at h
    obtain ⟨l, hl, q, hq, d, hd, rfl⟩ := h
    have hlinked := (Binding.Linked.singleton d).snoc (k := .hierarchy) rfl fun _ => hd
    have hlinked' := hlinked.snoc (k := .level) rfl fun _ => hq
    exact ⟨rfl, hlinked'.snoc (k := .member) rfl fun _ => hl⟩

theorem Metadata.wellFormed_unknown (k : Kind) : (Metadata.unknown k).WellFormed c := by
  refine ⟨Nat.zero_le _, ?_⟩
  intro k' r hr
  cases hr

/-- A type bound down to an element of its own kind, or of a kind around it. -/
theorem Catalog.wellFormed_metadataAt? {k : Kind} {e : Element} {m : Metadata}
    (hk : e.kind.depth ≤ k.depth) (h : c.metadataAt? k e = some m) : m.WellFormed c := by
  obtain ⟨b, hb, rfl⟩ := Option.map_eq_some_iff.1 h
  obtain ⟨hlen, hlinked⟩ := linked_path hb
  refine ⟨?_, hlinked⟩
  rw [hlen]
  exact Nat.succ_le_succ hk

/-- What a choice has left within a kind is what it had. -/
theorem Choice.at?_upTo (ch : Choice) (k k' : Kind) :
    (ch.upTo k).at? k' = if k'.depth ≤ k.depth then ch.at? k' else none := by
  cases k <;> cases k' <;> rfl

theorem Choice.innermost?_depth {ch : Choice} {e : Element} {n : Nat}
    (hn : ∀ k r, ch.at? k = some r → k.depth ≤ n) (h : ch.innermost? = some e) :
    e.kind.depth ≤ n := by
  unfold innermost? at h
  obtain ⟨k, -, hk⟩ := List.exists_of_findSome?_eq_some h
  obtain ⟨r, hr, rfl⟩ := Option.map_eq_some_iff.1 hk
  exact hn k r hr

/-- A type bound to a choice of elements that is accepted. -/
theorem Catalog.Built.wellFormed_metadataOf (hc : c.Built) {k : Kind} {ch : Choice} {m : Metadata}
    (hch : c.Knows ch) (h : c.metadataOf k ch = .ok m) : m.WellFormed c := by
  have hwithin : ∀ k' r, (ch.upTo k).at? k' = some r → k'.depth ≤ k.depth ∧ ch.at? k' = some r := by
    intro k' r hr
    rw [Choice.at?_upTo] at hr
    split at hr
    · rename_i hle
      exact ⟨hle, hr⟩
    · cases hr
  unfold metadataOf at h
  cases hb : c.resolve (ch.upTo k) with
  | error e =>
    rw [hb] at h
    cases h
  | ok b =>
    rw [hb] at h
    cases h
    have hpath := hc.resolve_ok (fun k' r hr => hch k' r (hwithin k' r hr).2) hb
    split at hpath
    · rw [hpath]
      exact Metadata.wellFormed_unknown k
    · rename_i e he
      have hdepth := Choice.innermost?_depth (fun k' r hr => (hwithin k' r hr).1) he
      exact wellFormed_metadataAt? (e := e) hdepth (by rw [metadataAt?, hpath]; rfl)

/-! ## Definitions from other types -/

namespace Ty

theorem wellFormed_ofDigits {p s : UInt32} {t : Ty} (h : ofDigits p s = .ok t) :
    t.WellFormed c := by
  unfold ofDigits at h
  split at h
  · rename_i d hd
    cases h
    exact (Decimal.ofDigits?_eq_some_iff.1 hd).2
  · cases h

/-- Positions of a tuple are the atoms that the given types are. -/
theorem atoms_ok {ts : List Ty} {as : List Atom} (h : atoms ts = .ok as) :
    ts = as.map fun a => item (.atom a) := by
  induction ts generalizing as with
  | nil =>
    cases h
    rfl
  | cons t ts ih =>
    unfold atoms at h
    split at h
    · rename_i a ha
      cases has : atoms ts with
      | error e =>
        rw [has] at h
        cases h
      | ok as' =>
        rw [has] at h
        cases h
        unfold atom? at ha
        split at ha
        · cases ha
          rw [ih has, List.map_cons]
        · cases ha
    · cases h

theorem wellFormed_ofPositions {ts : List Ty} {t : Ty} (hts : ∀ u ∈ ts, u.WellFormed c)
    (h : ofPositions ts = .ok t) : t.WellFormed c := by
  unfold ofPositions at h
  split at h
  · cases h
  · rename_i hne
    cases has : atoms ts with
    | error e =>
      rw [has] at h
      cases h
    | ok as =>
      rw [has] at h
      cases h
      rw [atoms_ok has] at hts hne
      refine ⟨?_, fun a ha => hts _ (List.mem_map_of_mem ha)⟩
      rintro rfl
      exact hne rfl

theorem wellFormed_setOf {e t : Ty} (he : e.WellFormed c) (h : setOf e = .ok t) :
    t.WellFormed c := by
  obtain ⟨i, rfl, rfl⟩ := setOf_eq_ok_iff.1 h
  exact he

theorem wellFormed_stripSet {t : Ty} (h : t.WellFormed c) : t.stripSet.WellFormed c := by
  cases t <;> exact h

/-- Member types carry every binding. -/
theorem wellFormed_toMember? {t : Ty} {m : Metadata} (ht : t.WellFormed c)
    (h : t.toMember? = some m) : m.WellFormed c := by
  obtain ⟨m', hm', rfl⟩ := Option.map_eq_some_iff.1 h
  have hm : m'.WellFormed c := by
    unfold metadata? at hm'
    split at hm'
    · unfold Item.metadata? at hm'
      split at hm'
      · unfold Atom.metadata? at hm'
        split at hm'
        · cases hm'
          exact ht
        · cases hm'
      · cases hm'
    · cases hm'
  refine ⟨Nat.le_trans hm.within ?_, hm.linked⟩
  exact Nat.succ_le_succ m'.kind.depth_le_three

end Ty

/-! ## Compositions -/

/-- Types that come out of a composition of definitions and operations, starting from well-formed
types and from elements of a catalog. -/
inductive Formed (c : Catalog) : Ty → Prop where
  | given {t : Ty} : t.WellFormed c → Formed c t
  | null : Formed c .null
  | constant {s : Scalar} : s.decimal? = none → Formed c (.scalar s)
  | digits {p s : UInt32} {t : Ty} : Ty.ofDigits p s = .ok t → Formed c t
  | unknown (k : Kind) : Formed c (.metadata (.unknown k))
  | element {k : Kind} {e : Element} {m : Metadata} : c.Has e → e.kind.depth ≤ k.depth →
      c.metadataAt? k e = some m → Formed c (.metadata m)
  | choice {k : Kind} {ch : Choice} {m : Metadata} : c.Knows ch → c.metadataOf k ch = .ok m →
      Formed c (.metadata m)
  | positions {ts : List Ty} {t : Ty} : (∀ u ∈ ts, Formed c u) → Ty.ofPositions ts = .ok t →
      Formed c t
  | elements {e t : Ty} : Formed c e → Ty.setOf e = .ok t → Formed c t
  | dimensions (ds : List Ref) : Formed c (Ty.ofDimensions ds)
  | cube (r : Ref) : Formed c (.cube r)
  | join {a b t : Ty} {n : Nat} : Formed c a → Formed c b → (a.join b).outcome? = some (t, n) →
      Formed c t
  | commonType {a b t : Ty} : Formed c a → Formed c b → a.commonType? b = some t → Formed c t
  | joinAll {conversions : Bool} {ts : List Ty} {t : Ty} : (∀ u ∈ ts, Formed c u) →
      (Ty.joinAll conversions ts).result = some t → Formed c t
  | stripSet {t : Ty} : Formed c t → Formed c t.stripSet
  | toMember {t : Ty} {m : Metadata} : Formed c t → t.toMember? = some m → Formed c (.metadata m)

namespace Formed

/-- Whatever definitions and operations are composed, over the elements of whatever finished
schemas, the type that comes out is well-formed. -/
theorem stays_well_formed (c : Catalog) (hc : c.Built) {t : Ty} (h : Formed c t) :
    t.WellFormed c := by
  induction h with
  | given ht => exact ht
  | null => trivial
  | @constant s hs =>
    cases s with
    | decimal d => cases hs
    | string | numeric | dateTime | boolean | symbol | generic => trivial
  | digits h => exact Ty.wellFormed_ofDigits h
  | unknown k => exact Metadata.wellFormed_unknown k
  | element _ hk hm => exact Catalog.wellFormed_metadataAt? hk hm
  | choice hch hm => exact hc.wellFormed_metadataOf hch hm
  | positions _ h ih => exact Ty.wellFormed_ofPositions ih h
  | elements _ h ih => exact Ty.wellFormed_setOf ih h
  | dimensions ds => exact Ref.increasing_canonical ds
  | cube r => trivial
  | join _ _ h iha ihb => exact Ty.wellFormed_join iha ihb (Attempt.outcome?_eq_some_iff.1 h).1
  | commonType _ _ h iha ihb => exact Ty.wellFormed_join iha ihb h
  | joinAll _ h ih => exact Ty.wellFormed_joinAll ih h
  | stripSet _ ih => exact Ty.wellFormed_stripSet ih
  | toMember _ h ih => exact Ty.wellFormed_toMember? ih h

/-- Two members of a level. -/
def twoCities : Catalog :=
  ⟨#[⟨⟨"Shop", #[], #[⟨"Store", "[Store]", [0], false⟩], #[⟨"Store", "[Store]", 0, [0], some 0⟩],
    #[⟨"City", "[Store].[City]", 0, 0, false, [0, 1]⟩],
    #[⟨"Oslo", "[Store].[Oslo]", 0, none, []⟩, ⟨"Rome", "[Store].[Rome]", 0, none, []⟩],
    [("[Store].[Oslo]", 0), ("[Store].[Rome]", 1)]⟩⟩]⟩

theorem twoCities_built : twoCities.Built := by
  refine Catalog.built_singleton "Shop" [.dimension "Store", .hierarchy 0 "Store",
    .level 0 "City", .member 0 "Oslo" none, .member 0 "Rome" none] ?_
  decide +kernel

/-- The sets of members of their level, from the two members. -/
theorem formed_cities :
    Formed twoCities (.set (.atom (.metadata ⟨.member, [⟨0, 0⟩, ⟨0, 0⟩, ⟨0, 0⟩]⟩))) := by
  have city : ∀ i, i < 2 →
      Formed twoCities (.metadata ⟨.member, [⟨0, 0⟩, ⟨0, 0⟩, ⟨0, 0⟩, ⟨0, i⟩]⟩) := by
    intro i hi
    refine .element (e := ⟨.member, ⟨0, i⟩⟩) ⟨_, rfl, hi⟩ (Nat.le_refl _) ?_
    match i, hi with
    | 0, _ => rfl
    | 1, _ => rfl
  exact .elements (.join (city 0 (by decide)) (city 1 (by decide)) rfl) rfl

theorem stays_well_formed_cities :
    twoCities.Built ∧
      Formed twoCities (.set (.atom (.metadata ⟨.member, [⟨0, 0⟩, ⟨0, 0⟩, ⟨0, 0⟩]⟩))) ∧
      Ty.WellFormed twoCities (.set (.atom (.metadata ⟨.member, [⟨0, 0⟩, ⟨0, 0⟩, ⟨0, 0⟩]⟩))) :=
  ⟨twoCities_built, formed_cities, stays_well_formed twoCities twoCities_built formed_cities⟩

end Formed

end Hypercube
