import Hypercube.Proofs.Usage
import Hypercube.Ty.Define

/-!
# Sets follow their elements

Sets are unified through their elements, with one rule of their own: a member and a tuple that share
no structure become a generic scalar, but as elements of sets an amorphous item.  So two sets have a
common type exactly if their elements do, at the same price, and outside of that rule it is the set
of what the elements have in common.

* `Unwraps` — a tuple stands for a member type that it shares with a member.
* `Ty.LosesStructure` — a member and a tuple that share no structure.
* `Item.joinElements_of_kept` — other elements are unified as they are on their own.
* `Ty.outcome?_of_lost`, `Ty.outcome?_sets_of_lost` — what becomes of those that share no structure,
  on their own and as elements of sets.
* `Ty.sets_follow_elements` — the common type of two sets, from that of their elements.
-/

set_option autoImplicit false

namespace Hypercube

/-! ## Members and tuples -/

/-- A tuple has one position, and that has a member type in common with a member. -/
def Unwraps (m : Binding) (t : List Atom) : Prop :=
  ∃ only b, t = [only] ∧
    (Ty.metadata ⟨.member, m⟩).commonType? (.item (.atom only)) = some (.metadata ⟨.member, b⟩)

theorem commonType?_atoms_eq_some_iff {x y z : Atom} :
    (Ty.item (.atom x)).commonType? (.item (.atom y)) = some (.item (.atom z)) ↔
      (x.join y).result = some z := by
  simp [Ty.commonType?, Ty.join_items, Item.join_atoms]

theorem unwraps_iff {m : Binding} {t : List Atom} : Unwraps m t ↔ unwrap? m t ≠ none := by
  rw [Option.ne_none_iff_exists']
  constructor
  · rintro ⟨only, b, rfl, h⟩
    have hr := commonType?_atoms_eq_some_iff.1 h
    exact ⟨_, unwrap?_eq_some_iff.2 ⟨rfl, only, rfl, Attempt.outcome?_eq_some_iff.2 ⟨hr, rfl⟩⟩⟩
  · rintro ⟨⟨⟨k, b⟩, n⟩, h⟩
    obtain ⟨hk, only, rfl, ho⟩ := unwrap?_eq_some_iff.1 h
    cases hk
    exact ⟨only, b, rfl, commonType?_atoms_eq_some_iff.2 (Attempt.outcome?_eq_some_iff.1 ho).1⟩

namespace Item

/-- A tuple that unwraps leaves no use for the fallback. -/
theorem joinMemberTuple_of_unwraps {m : Binding} {t : List Atom} (h : Unwraps m t)
    (f g : Attempt Item) : joinMemberTuple m t f = joinMemberTuple m t g := by
  obtain ⟨p, hp⟩ := Option.ne_none_iff_exists'.1 (unwraps_iff.1 h)
  rw [joinMemberTuple_eq, joinMemberTuple_eq, hp]

theorem joinMemberTuple_of_not_unwraps {m : Binding} {t : List Atom} (h : ¬Unwraps m t)
    (f : Attempt Item) : joinMemberTuple m t f = f := by
  have hnone : unwrap? m t = none := not_not.1 (mt unwraps_iff.2 h)
  rw [joinMemberTuple_eq, hnone]

end Item

namespace Ty

/-- One of two types is a member and the other a tuple that does not unwrap. -/
def LosesStructure (x y : Ty) : Prop :=
  ∃ m t, (x = .metadata ⟨.member, m⟩ ∧ y = .tuple t ∨ x = .tuple t ∧ y = .metadata ⟨.member, m⟩) ∧
    ¬Unwraps m t

theorem losesStructure_member_tuple_iff {m : Binding} {t : List Atom} :
    LosesStructure (.metadata ⟨.member, m⟩) (.tuple t) ↔ ¬Unwraps m t := by
  constructor
  · rintro ⟨m', t', ⟨hm, ht⟩ | ⟨hm, -⟩, hu⟩
    · cases hm
      cases ht
      exact hu
    · cases hm
  · exact fun hu => ⟨m, t, .inl ⟨rfl, rfl⟩, hu⟩

theorem losesStructure_comm {x y : Ty} : LosesStructure x y ↔ LosesStructure y x := by
  have turn : ∀ a b, LosesStructure a b → LosesStructure b a := by
    rintro a b ⟨m, t, hab, hu⟩
    exact ⟨m, t, hab.symm.imp And.symm And.symm, hu⟩
  exact ⟨turn x y, turn y x⟩

end Ty

/-- Elements that keep their structure are unified as they are on their own. -/
theorem Item.joinElements_of_kept {i j : Item} (h : ¬Ty.LosesStructure (.item i) (.item j)) :
    i.joinElements j = i.join j := by
  obtain ⟨m, t, rfl, rfl⟩ | ⟨m, t, rfl, rfl⟩ | hij := joinElements_cases i j
  · have hu : Unwraps m t := not_not.1 (mt Ty.losesStructure_member_tuple_iff.2 h)
    rw [joinElements_member_tuple, join_member_tuple]
    exact joinMemberTuple_of_unwraps hu _ _
  · rw [Ty.losesStructure_comm] at h
    have hu : Unwraps m t := not_not.1 (mt Ty.losesStructure_member_tuple_iff.2 h)
    rw [joinElements_tuple_member, joinElements_member_tuple, join_tuple_atom, join_member_tuple]
    exact joinMemberTuple_of_unwraps hu _ _
  · exact hij

namespace Ty

/-! ## What loses its structure -/

/-- A member and a tuple that share no structure become a generic scalar. -/
theorem outcome?_of_lost {x y : Ty} (h : LosesStructure x y) :
    (x.join y).outcome? = some (.scalar .generic, 1) := by
  obtain ⟨m, t, ⟨rfl, rfl⟩ | ⟨rfl, rfl⟩, hu⟩ := h
  · rw [join_items, Item.join_member_tuple, Item.joinMemberTuple_of_not_unwraps hu]
    rfl
  · rw [join_comm, join_items, Item.join_member_tuple, Item.joinMemberTuple_of_not_unwraps hu]
    rfl

/-- As elements of sets, they become an amorphous item over the dimensions of both. -/
theorem outcome?_sets_of_lost {i j : Item} (h : LosesStructure (.item i) (.item j)) :
    ((Ty.set i).join (.set j)).outcome? =
      some (.set (.amorphous (Ref.canonical (i.dimensions ++ j.dimensions))), 1) := by
  obtain ⟨m, t, ⟨hi, hj⟩ | ⟨hi, hj⟩, hu⟩ := h
  · cases hi
    cases hj
    rw [join_sets, Item.joinElements_member_tuple, Item.joinMemberTuple_of_not_unwraps hu]
    rfl
  · cases hi
    cases hj
    -- the rule puts the dimensions of the member first, which makes no difference
    rw [Ref.canonical_append_comm, join_sets, Item.joinElements_tuple_member,
      Item.joinElements_member_tuple, Item.joinMemberTuple_of_not_unwraps hu]
    rfl

/-! ## Sets and their elements -/

/-- A type is unified with itself for free. -/
theorem outcome?_join_self {c : Catalog} {t : Ty} (ht : t.WellFormed c) :
    (t.join t).outcome? = some (t, 0) := by
  have hself : ((t.join t).allowing false).result = some t := takes_iff.2 (.refl ht)
  obtain ⟨n, h, hn⟩ := Attempt.result_allowing_eq_some_iff.1 hself
  obtain hn | rfl := hn
  · cases hn
  · exact h

/-- Two sets have a common type exactly if their elements do, and at the same price.  It is the set
of what the elements have in common, unless these lose their structure: then they become a generic
scalar on their own, and in the set the amorphous item over the dimensions that they may depend on.
Equal sets and equal elements alike are unified for free. -/
theorem sets_follow_elements {x y sx sy : Ty} (hx : setOf x = .ok sx) (hy : setOf y = .ok sy) :
    ((sx.commonType? sy).isSome ↔ (x.commonType? y).isSome) ∧
    (sx.join sy).conversions = (x.join y).conversions ∧
    (¬LosesStructure x y →
      ∀ z, x.commonType? y = some z → ∃ sz, setOf z = .ok sz ∧ sx.commonType? sy = some sz) ∧
    (LosesStructure x y →
      x.commonType? y = some (.scalar .generic) ∧
      ∃ ds, sx.commonType? sy = some (.set (.amorphous ds)) ∧ Ref.Increasing ds ∧
        ∀ d, d ∈ ds ↔ x.uses d true = true ∨ y.uses d true = true) ∧
    ∀ c : Catalog, x.WellFormed c →
      (x.join x).outcome? = some (x, 0) ∧ (sx.join sx).outcome? = some (sx, 0) := by
  obtain ⟨i, rfl, rfl⟩ := setOf_eq_ok_iff.1 hx
  obtain ⟨j, rfl, rfl⟩ := setOf_eq_ok_iff.1 hy
  have hself : ∀ c : Catalog, (Ty.item i).WellFormed c →
      ((Ty.item i).join (.item i)).outcome? = some (.item i, 0) ∧
        ((Ty.set i).join (.set i)).outcome? = some (.set i, 0) :=
    fun c hi => ⟨outcome?_join_self hi, outcome?_join_self (c := c) (t := .set i) hi⟩
  by_cases hlost : LosesStructure (.item i) (.item j)
  · obtain ⟨hr, hn⟩ := Attempt.outcome?_eq_some_iff.1 (outcome?_of_lost hlost)
    obtain ⟨hsr, hsn⟩ := Attempt.outcome?_eq_some_iff.1 (outcome?_sets_of_lost hlost)
    refine ⟨?_, hsn.trans hn.symm, fun h => absurd hlost h, fun _ => ⟨hr, _, hsr, ?_, ?_⟩, hself⟩
    · simp [commonType?, hr, hsr]
    · exact Ref.increasing_canonical _
    · intro d
      rw [Ref.mem_canonical, List.mem_append]
      exact (or_congr Item.uses_maybe_iff Item.uses_maybe_iff).symm
  · have hkept := Item.joinElements_of_kept hlost
    have hset : (Ty.set i).join (.set j) = (i.join j).map .set := by rw [join_sets, hkept]
    have hitem : (Ty.item i).join (.item j) = (i.join j).map .item := rfl
    refine ⟨?_, ?_, fun _ z hz => ?_, fun h => absurd h hlost, hself⟩
    · simp [commonType?, hset, hitem]
    · rw [hset, hitem, Attempt.conversions_map, Attempt.conversions_map]
    · rw [commonType?, hitem, Attempt.result_map] at hz
      obtain ⟨k, hk, rfl⟩ := Option.map_eq_some_iff.1 hz
      refine ⟨.set k, rfl, ?_⟩
      rw [commonType?, hset, Attempt.result_map, hk]
      rfl

/-- The sets of cities and of pairs of a gender and a year lose the structure of their elements.  A
tuple of one unknown member does not: its set has the set of cities in common with theirs. -/
theorem sets_follow_elements_of_cities :
    let city : Item := .atom (.metadata ⟨.member, [⟨0, 0⟩, ⟨0, 0⟩, ⟨0, 0⟩, ⟨0, 1⟩]⟩)
    let pair : Item := .tuple [.metadata ⟨.member, [⟨0, 1⟩, ⟨0, 1⟩, ⟨0, 1⟩, ⟨0, 2⟩]⟩,
      .metadata ⟨.member, [⟨0, 2⟩, ⟨0, 2⟩, ⟨0, 2⟩, ⟨0, 4⟩]⟩]
    let single : Item := .tuple [.metadata ⟨.member, []⟩]
    setOf (.item city) = .ok (.set city) ∧ setOf (.item pair) = .ok (.set pair) ∧
      setOf (.item single) = .ok (.set single) ∧
      (Catalog.retail.Built ∧ (Ty.item city).WellFormed .retail ∧
        (Ty.item pair).WellFormed .retail) ∧
      LosesStructure (.item city) (.item pair) ∧ ¬LosesStructure (.item city) (.item single) ∧
      ((Ty.item city).commonType? (.item pair) = some (.scalar .generic) ∧
        ∃ ds, (Ty.set city).commonType? (.set pair) = some (.set (.amorphous ds)) ∧
          Ref.Increasing ds ∧ ∀ d, d ∈ ds ↔ city.uses d true = true ∨ pair.uses d true = true) ∧
      ((Ty.item city).commonType? (.item single) = some (.item city) ∧
        ∃ s, setOf (.item city) = .ok s ∧ (Ty.set city).commonType? (.set single) = some s) ∧
      ((Ty.set city).join (.set city)).outcome? = some (.set city, 0) := by
  intro city pair single
  have hcity : (Ty.item city).WellFormed .retail := by decide
  have hcommon : (Ty.item city).commonType? (.item single) = some (.item city) := by decide
  have hlost : LosesStructure (.item city) (.item pair) := by
    refine losesStructure_member_tuple_iff.2 ?_
    rintro ⟨only, b, h, -⟩
    cases h
  have hkept : ¬LosesStructure (.item city) (.item single) :=
    fun h => losesStructure_member_tuple_iff.1 h ⟨_, _, rfl, hcommon⟩
  obtain ⟨-, -, -, lost, self⟩ := sets_follow_elements (x := .item city) (y := .item pair) rfl rfl
  obtain ⟨-, -, kept, -, -⟩ := sets_follow_elements (x := .item city) (y := .item single) rfl rfl
  exact ⟨rfl, rfl, rfl, ⟨Catalog.retail_built, hcity, by decide⟩, hlost, hkept, lost hlost,
    ⟨hcommon, kept hkept _ hcommon⟩, (self .retail hcity).2⟩

end Ty

end Hypercube
