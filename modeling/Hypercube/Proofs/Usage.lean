import Hypercube.Proofs.Chains

/-!
# Dimensions through unification

Unification clears, shortens and unwraps bindings, and gives up the structure of members and tuples
that do not agree.  None of this invents a dimension, and only a generic scalar forgets one.

* `Ty.uses_iff` — dependence on a dimension by the dimensions that are listed.
* `Item.dimensions_join`, `Item.dimensions_joinElements`, `Ty.dimensions_join` — the dimensions of a
  common type are among those of its sides.
* `Item.Takes.dimensions`, `Ty.Takes.dimensions` — without a generic scalar, a type lists the
  dimensions of what it takes in.
* `Ty.uses_joinFrom` — what the common type of a list depends on, some entry depends on.
* `Ty.unification_conserves_dimensions` — all of this for two types and for lists.
-/

set_option autoImplicit false

namespace Hypercube

variable {conversions : Bool}

/-! ## No dimension is invented -/

namespace Metadata

theorem mem_dimensions {m : Metadata} {d : Ref} :
    d ∈ (Atom.metadata m).dimensions ↔ m.binding.head? = some d := by
  show d ∈ (m.binding[0]?).toList ↔ _
  rw [Option.mem_toList, List.head?_eq_getElem?]

theorem head?_prefix_eq {p b : Binding} (h : p <+: b) (hp : p ≠ []) : b.head? = p.head? := by
  obtain ⟨rest, rfl⟩ := h
  cases p with
  | nil => exact absurd rfl hp
  | cons r p => rfl

/-- What remains of two bindings starts as one of them does. -/
theorem dimensions_of_common? {a b m : Metadata} (h : common? a b = some m) :
    ∀ d ∈ (Atom.metadata m).dimensions,
      d ∈ (Atom.metadata a).dimensions ∨ d ∈ (Atom.metadata b).dimensions := by
  intro d hd
  simp only [mem_dimensions] at hd ⊢
  have hne : m.binding ≠ [] := by
    intro hnil
    rw [hnil] at hd
    cases hd
  obtain hp | hp := prefix_of_common? h
  · exact .inl (head?_prefix_eq hp hne ▸ hd)
  · exact .inr (head?_prefix_eq hp hne ▸ hd)

end Metadata

theorem Atom.dimensions_join {a b z : Atom} (h : (a.join b).result = some z) :
    ∀ d ∈ z.dimensions, d ∈ a.dimensions ∨ d ∈ b.dimensions := by
  intro d hd
  unfold join at h
  split at h
  · cases h
    cases hd
  · cases h
    cases hd
  · cases h
    cases hd
  · obtain ⟨s, -, rfl⟩ := Option.map_eq_some_iff.1 h
    cases hd
  · obtain ⟨m, hm, rfl⟩ := Option.map_eq_some_iff.1 h
    unfold Metadata.join at hm
    split at hm
    · rename_i hm'
      cases hm
      exact Metadata.dimensions_of_common? hm' d hd
    · cases hm
  · cases h
    cases hd
  · cases h
    cases hd
  · cases h

theorem dimensions_joinPositions {xs ys zs : List Atom}
    (h : (joinPositions xs ys).result = some zs) :
    ∀ d ∈ (Item.tuple zs).dimensions,
      d ∈ (Item.tuple xs).dimensions ∨ d ∈ (Item.tuple ys).dimensions := by
  intro d hd
  simp only [Item.dimensions, List.mem_flatMap] at hd ⊢
  induction xs generalizing ys zs with
  | nil =>
    cases h
    obtain ⟨z, hz, -⟩ := hd
    cases hz
  | cons x xs ih =>
    cases ys with
    | nil =>
      cases h
      obtain ⟨z, hz, -⟩ := hd
      cases hz
    | cons y ys =>
      obtain ⟨z, zs', hz, hzs, rfl⟩ := joinPositions_cons_result.1 h
      obtain ⟨w, hw, hd⟩ := hd
      rcases List.mem_cons.1 hw with rfl | hw
      · obtain hx | hy := Atom.dimensions_join hz d hd
        · exact .inl ⟨x, List.mem_cons_self, hx⟩
        · exact .inr ⟨y, List.mem_cons_self, hy⟩
      · obtain ⟨x', hx', hd'⟩ | ⟨y', hy', hd'⟩ := ih hzs ⟨w, hw, hd⟩
        · exact .inl ⟨x', List.mem_cons_of_mem x hx', hd'⟩
        · exact .inr ⟨y', List.mem_cons_of_mem y hy', hd'⟩

namespace Item

theorem dimensions_joinTuples {xs ys zs : List Atom} (h : (joinTuples xs ys).result = some zs) :
    ∀ d ∈ (tuple zs).dimensions, d ∈ (tuple xs).dimensions ∨ d ∈ (tuple ys).dimensions := by
  rw [joinTuples_eq] at h
  split at h
  · exact dimensions_joinPositions h
  · cases h

theorem dimensions_absorb {ds : List Ref} {y z : Item} (h : (absorb ds y).result = some z) :
    ∀ d ∈ z.dimensions, d ∈ ds ∨ d ∈ y.dimensions := by
  intro d hd
  unfold absorb at h
  split at h
  · cases h
    exact .inl hd
  · split at h
    · cases h
      exact List.mem_append.1 (Ref.mem_canonical.1 hd)
    · cases h

theorem dimensions_joinMemberTuple {m : Binding} {t : List Atom} {fallback : Attempt Item}
    {z : Item}
    (hf : ∀ i, fallback.result = some i →
      ∀ d ∈ i.dimensions, d ∈ (member m).dimensions ∨ d ∈ (tuple t).dimensions)
    (h : (joinMemberTuple m t fallback).result = some z) :
    ∀ d ∈ z.dimensions, d ∈ (member m).dimensions ∨ d ∈ (tuple t).dimensions := by
  obtain ⟨b, n, hu, hj⟩ | ⟨-, hj⟩ := joinMemberTuple_cases m t fallback
  · rw [hj] at h
    cases h
    obtain ⟨-, only, rfl, ho⟩ := unwrap?_eq_some_iff.1 hu
    intro d hd
    obtain hm | ho := Atom.dimensions_join (Attempt.outcome?_eq_some_iff.1 ho).1 d hd
    · exact .inl hm
    · exact .inr (List.mem_flatMap.2 ⟨only, List.mem_cons_self, ho⟩)
  · rw [hj] at h
    exact hf z h

/-- The dimensions of a common item are among those of its sides. -/
theorem dimensions_join {x y z : Item} (h : (x.join y).result = some z) :
    ∀ d ∈ z.dimensions, d ∈ x.dimensions ∨ d ∈ y.dimensions := by
  induction x, y using pair_cases with
  | symm x y ih =>
    intro d hd
    exact (ih (join_comm x y ▸ h) d hd).symm
  | amorphous ds y => exact dimensions_absorb h
  | tuples xs ys =>
    obtain ⟨zs, hzs, rfl⟩ := Option.map_eq_some_iff.1 h
    exact dimensions_joinTuples hzs
  | member_tuple m t =>
    refine dimensions_joinMemberTuple ?_ h
    intro i hi d hd
    cases hi
    cases hd
  | generic_tuple t =>
    cases h
    intro d hd
    cases hd
  | atom_tuple a t ha =>
    rw [join_atom_tuple t ha] at h
    cases h
  | atoms a b =>
    rw [join_atoms] at h
    obtain ⟨a', ha', rfl⟩ := Option.map_eq_some_iff.1 h
    exact Atom.dimensions_join ha'

/-- As elements of sets, a member and a tuple without common structure leave their dimensions. -/
theorem dimensions_joinElements {x y z : Item} (h : (x.joinElements y).result = some z) :
    ∀ d ∈ z.dimensions, d ∈ x.dimensions ∨ d ∈ y.dimensions := by
  have mixed : ∀ m t, ((member m).joinElements (tuple t)).result = some z →
      ∀ d ∈ z.dimensions, d ∈ (member m).dimensions ∨ d ∈ (tuple t).dimensions := by
    intro m t h
    rw [joinElements_member_tuple] at h
    refine dimensions_joinMemberTuple ?_ h
    intro i hi d hd
    cases hi
    exact List.mem_append.1 (Ref.mem_canonical.1 hd)
  obtain ⟨m, t, rfl, rfl⟩ | ⟨m, t, rfl, rfl⟩ | hxy := joinElements_cases x y
  · exact mixed m t h
  · exact fun d hd => (mixed m t h d hd).symm
  · exact dimensions_join (hxy ▸ h)

end Item

namespace Ty

/-- The dimensions that a type depends on or may depend on. -/
def dimensions : Ty → List Ref
  | item i | set i => i.dimensions
  | cube _ => []

theorem uses_iff {t : Ty} {d : Ref} {maybe : Bool} :
    t.uses d maybe = true ↔ d ∈ t.dimensions ∧ (maybe = true ∨ t.isAmorphous = false) := by
  cases t with
  | item i => exact Item.uses_iff
  | set e => exact Item.uses_iff
  | cube r =>
    refine iff_of_false (fun h => ?_) fun h => ?_
    · cases h
    · cases h.1

theorem dimensions_join {a b j : Ty} (h : (a.join b).result = some j) :
    ∀ d ∈ j.dimensions, d ∈ a.dimensions ∨ d ∈ b.dimensions := by
  rw [join_eq] at h
  split at h
  · obtain ⟨z, hz, rfl⟩ := Option.map_eq_some_iff.1 h
    exact Item.dimensions_join hz
  · obtain ⟨z, hz, rfl⟩ := Option.map_eq_some_iff.1 h
    exact Item.dimensions_joinElements hz
  · split at h
    · cases h
      exact fun d hd => .inl hd
    · cases h
  · cases h

/-- What takes in an amorphous type is one. -/
theorem Takes.isAmorphous {z x : Ty} (h : z.Takes conversions x) (hx : x.isAmorphous = true) :
    z.isAmorphous = true := by
  cases h with
  | item h => exact h.isAmorphous hx
  | set h => exact h.isAmorphous hx
  | cube r => exact hx

end Ty

/-! ## Only a generic scalar forgets a dimension -/

/-- The scalar of which nothing more is known. -/
def Atom.isGeneric : Atom → Bool
  | scalar s => s.isGeneric
  | _ => false

/-- A generic scalar occurs in an item. -/
def Item.hasGeneric : Item → Bool
  | atom a => a.isGeneric
  | tuple positions => positions.any (·.isGeneric)
  | amorphous _ => false

/-- A generic scalar occurs in a type: as the type, a position of a tuple, or the element of a
set. -/
def Ty.hasGeneric : Ty → Bool
  | item i | set i => i.hasGeneric
  | cube _ => false

theorem Metadata.Takes.dimensions {m a : Metadata} (h : m.Takes conversions a) :
    ∀ d ∈ (Atom.metadata a).dimensions, d ∈ (Atom.metadata m).dimensions := by
  intro d hd
  rw [mem_dimensions] at hd ⊢
  obtain ha | ⟨hne, hp⟩ := h.1.path
  · rw [ha] at hd
    cases hd
  · exact head?_prefix_eq hp hne ▸ hd

theorem Atom.Takes.dimensions {z x : Atom} (h : z.Takes conversions x)
    (hz : z.isGeneric = false) : ∀ d ∈ x.dimensions, d ∈ z.dimensions := by
  cases h with
  | null | scalar_null | scalars =>
    intro d hd
    cases hd
  | metadata h => exact h.dimensions
  | generic_member => cases hz

theorem dimensions_of_positions {zs xs : List Atom}
    (h : List.Forall₂ (Atom.Takes conversions) zs xs) (hz : ∀ z ∈ zs, z.isGeneric = false) :
    ∀ d ∈ (Item.tuple xs).dimensions, d ∈ (Item.tuple zs).dimensions := by
  intro d hd
  simp only [Item.dimensions, List.mem_flatMap] at hd ⊢
  induction h with
  | nil => exact hd
  | @cons z x zs xs h _ ih =>
    obtain ⟨hz, hzs⟩ := List.forall_mem_cons.1 hz
    obtain ⟨w, hw, hd⟩ := hd
    rcases List.mem_cons.1 hw with rfl | hw
    · exact ⟨z, List.mem_cons_self, h.dimensions hz d hd⟩
    · obtain ⟨z', hz', hd'⟩ := ih hzs ⟨w, hw, hd⟩
      exact ⟨z', List.mem_cons_of_mem z hz', hd'⟩

/-- Without a generic scalar, an item lists the dimensions of what it takes in. -/
theorem Item.Takes.dimensions {z x : Item} (h : z.Takes conversions x)
    (hz : z.hasGeneric = false) : ∀ d ∈ x.dimensions, d ∈ z.dimensions := by
  cases h with
  | atoms h => exact h.dimensions hz
  | tuples h =>
    refine dimensions_of_positions h fun z hmem => ?_
    simpa using List.any_eq_false.1 hz z hmem
  | @member_singleton b p h =>
    intro d hd
    obtain ⟨only, ho, hd⟩ := List.mem_flatMap.1 hd
    cases List.mem_singleton.1 ho
    exact h.dimensions d hd
  | generic_tuple => cases hz
  | amorphous_null =>
    intro d hd
    cases hd
  | amorphous _ _ hsub => exact hsub

namespace Ty

theorem Takes.dimensions {z x : Ty} (h : z.Takes conversions x) (hz : z.hasGeneric = false) :
    ∀ d ∈ x.dimensions, d ∈ z.dimensions := by
  cases h with
  | item h => exact Item.Takes.dimensions h hz
  | set h => exact Item.Takes.dimensions h hz
  | cube r => exact fun d hd => hd

/-! ## Dependence on dimensions -/

/-- What a common type depends on, one of its sides depends on.  For definite dependence, note that
an amorphous side would make the common type amorphous. -/
theorem uses_join {c : Catalog} {a b j : Ty} (ha : a.WellFormed c) (hb : b.WellFormed c)
    (h : ((a.join b).allowing conversions).result = some j) {d : Ref} {maybe : Bool}
    (hd : j.uses d maybe = true) : a.uses d maybe = true ∨ b.uses d maybe = true := by
  obtain ⟨hja, hjb⟩ := takes_operands ha hb h
  rw [uses_iff] at hd
  obtain ⟨hd, hmaybe⟩ := hd
  have structured : ∀ x : Ty, j.Takes conversions x → maybe = true ∨ x.isAmorphous = false := by
    intro x hx
    refine hmaybe.imp_right fun hj => ?_
    rw [← Bool.not_eq_true] at hj ⊢
    exact mt hx.isAmorphous hj
  obtain hda | hdb := dimensions_join (result_of_allowing h) d hd
  · exact .inl (uses_iff.2 ⟨hda, structured a hja⟩)
  · exact .inr (uses_iff.2 ⟨hdb, structured b hjb⟩)

/-- What a type and further types are unified to depends on what one of them depends on. -/
theorem uses_joinFrom {c : Catalog} {t r : Ty} {us : List Ty} (ht : t.WellFormed c)
    (hus : ∀ u ∈ us, u.WellFormed c) (h : (joinFrom conversions t us).result = some r) {d : Ref}
    {maybe : Bool} (hd : r.uses d maybe = true) : ∃ u ∈ t :: us, u.uses d maybe = true := by
  induction us generalizing t with
  | nil =>
    cases h
    exact ⟨r, List.mem_cons_self, hd⟩
  | cons u us ih =>
    obtain ⟨j, hj, hr⟩ := joinFrom_cons_result.1 h
    obtain ⟨hu, hus⟩ := List.forall_mem_cons.1 hus
    obtain ⟨v, hv, hvd⟩ := ih (wellFormed_join ht hu (result_of_allowing hj)) hus hr
    -- what depends on the dimension is the common type so far or a later entry
    rcases List.mem_cons.1 hv with rfl | hv
    · obtain htd | hud := uses_join ht hu hj hvd
      · exact ⟨t, List.mem_cons_self, htd⟩
      · exact ⟨u, List.mem_cons_of_mem t List.mem_cons_self, hud⟩
    · exact ⟨v, List.mem_cons_of_mem t (List.mem_cons_of_mem u hv), hvd⟩

/-- Unification conserves dimensions.  The common type of two types, and that of a list, depends on
nothing that no entry depends on; and without a generic scalar in it, the common type of two types
may depend on whatever they may depend on. -/
theorem unification_conserves_dimensions (c : Catalog) :
    (∀ (a b j : Ty) (n : Nat), a.WellFormed c → b.WellFormed c →
      (a.join b).outcome? = some (j, n) →
        (∀ d maybe, j.uses d maybe = true → a.uses d maybe = true ∨ b.uses d maybe = true) ∧
        (j.hasGeneric = false →
          ∀ d, a.uses d true = true ∨ b.uses d true = true → j.uses d true = true)) ∧
    (∀ (conversions : Bool) (ts : List Ty) (r : Ty) (n : Nat), (∀ t ∈ ts, t.WellFormed c) →
      (joinAll conversions ts).outcome? = some (r, n) →
        ∀ d maybe, r.uses d maybe = true → ∃ t ∈ ts, t.uses d maybe = true) := by
  constructor
  · intro a b j n ha hb h
    have hj : ((a.join b).allowing true).result = some j :=
      Attempt.result_allowing_eq_some_iff.2 ⟨n, h, .inl rfl⟩
    refine ⟨fun d maybe hd => uses_join ha hb hj hd, fun hgeneric d hd => ?_⟩
    obtain ⟨hja, hjb⟩ := takes_operands ha hb hj
    simp only [uses_iff] at hd ⊢
    obtain ⟨hd, -⟩ | ⟨hd, -⟩ := hd
    · exact ⟨hja.dimensions hgeneric d hd, .inl trivial⟩
    · exact ⟨hjb.dimensions hgeneric d hd, .inl trivial⟩
  · intro conversions ts r n hts h d maybe hd
    obtain ⟨hr, -⟩ := Attempt.outcome?_eq_some_iff.1 h
    cases ts with
    | nil => cases hr
    | cons t ts =>
      obtain ⟨ht, hts⟩ := List.forall_mem_cons.1 hts
      exact uses_joinFrom ht hts hr hd

/-- Sets of years and sets of pairs of a gender and a city: the elements lose their structure and
keep the three dimensions. -/
theorem unification_conserves_dimensions_of_fused_sets :
    let year : Binding := [⟨0, 2⟩, ⟨0, 2⟩, ⟨0, 2⟩, ⟨0, 4⟩]
    let female : Binding := [⟨0, 1⟩, ⟨0, 1⟩, ⟨0, 1⟩, ⟨0, 2⟩]
    let oslo : Binding := [⟨0, 0⟩, ⟨0, 0⟩, ⟨0, 0⟩, ⟨0, 0⟩]
    let members : Ty := .set (.atom (.metadata ⟨.member, year⟩))
    let pairs : Ty := .set (.tuple [.metadata ⟨.member, female⟩, .metadata ⟨.member, oslo⟩])
    let fused : Ty := .set (.amorphous [⟨0, 0⟩, ⟨0, 1⟩, ⟨0, 2⟩])
    Catalog.retail.Built ∧ members.WellFormed .retail ∧ pairs.WellFormed .retail ∧
      (members.join pairs).outcome? = some (fused, 1) ∧ fused.hasGeneric = false ∧
      (∀ d, fused.uses d true = true ↔ members.uses d true = true ∨ pairs.uses d true = true) ∧
      (pairs.uses ⟨0, 0⟩ false = true ∧ fused.uses ⟨0, 0⟩ true = true ∧
        fused.uses ⟨0, 0⟩ false = false ∧ fused.uses ⟨0, 3⟩ true = false) ∧
      (joinAll true [members, pairs, fused]).outcome? = some (fused, 1) ∧
      ∀ d, fused.uses d true = true → ∃ t ∈ [members, pairs, fused], t.uses d true = true := by
  intro year female oslo members pairs fused
  have hm : members.WellFormed .retail := by decide
  have hp : pairs.WellFormed .retail := by decide
  have hj : (members.join pairs).outcome? = some (fused, 1) := by decide
  have hall : (joinAll true [members, pairs, fused]).outcome? = some (fused, 1) := by decide
  obtain ⟨two, list⟩ := unification_conserves_dimensions .retail
  obtain ⟨down, up⟩ := two members pairs fused 1 hm hp hj
  have hstore : fused.uses ⟨0, 0⟩ true = true := up rfl ⟨0, 0⟩ (.inr rfl)
  refine ⟨Catalog.retail_built, hm, hp, hj, rfl, fun d => ⟨down d true, up rfl d⟩,
    ⟨rfl, hstore, rfl, rfl⟩, hall, fun d => ?_⟩
  exact list true [members, pairs, fused] fused 1 (by decide) hall d true

end Ty

end Hypercube
