import Hypercube.Proofs.Subsumption

/-!
# Chains of types

If a type takes in another one, which takes in a third one, then the first usually takes in the
third one as well.  For items there are two exceptions: a tuple of one position is taken in by a
member but by none of the types around members, and an amorphous item takes in a generic scalar
without the dimensions of what the scalar stands for.  Unification of a list goes along such chains,
so its result need not be common to all entries.

* `Atom.Takes.trans` — there are no exceptions among atoms.
* `Item.Takes.chain` — the exceptions among items.
* `Item.Over`, `Ty.Over` — what lies at the end of a chain, and `Ty.Over.step`, one more step of it.
* `Ty.joinFrom_over`, `Ty.joinAll_over` — the result of unifying a list lies over every entry.
* `Ty.list_type_common_to_entry_iff` — it is common to all entries but the exceptions.
-/

set_option autoImplicit false

namespace Hypercube

variable {conversions : Bool}

/-! ## Atoms -/

/-- A decimal that keeps the digits of another keeps those that the other keeps. -/
theorem Decimal.widen?_trans {a b d : Decimal} (hd : d.widen? b = some d)
    (hb : b.widen? a = some b) : d.widen? a = some d := by
  have hint := integerDigits_of_widened hd
  have hint' := integerDigits_of_widened hb
  obtain ⟨hs, hp, hle⟩ := widen?_eq_some_iff.1 hd
  obtain ⟨hs', -, -⟩ := widen?_eq_some_iff.1 hb
  refine widen?_eq_some_iff.2 ⟨?_, ?_, hle⟩
  · omega
  · omega

namespace Scalar

theorem common?_generic_left (x : Scalar) : common? generic x = some generic := by
  cases x <;> rfl

/-- Only the generic scalar takes in the generic one. -/
theorem Takes.eq_generic {z : Scalar} (h : z.Takes conversions generic) : z = generic := by
  obtain rfl | ⟨-, h⟩ := h
  · rfl
  · rw [common?_comm, common?_generic_left] at h
    exact (Option.some.inj h).symm

/-- The three ways in which a scalar is the common type of itself and another one. -/
theorem common?_eq_left {z x : Scalar} (h : common? z x = some z) :
    z = generic ∨ (z = numeric ∧ ∃ d, x = decimal d) ∨
      ∃ d e, z = decimal d ∧ x = decimal e ∧ d.widen? e = some d := by
  unfold common? at h
  split at h
  · rename_i d e
    split at h
    · rename_i w hw
      cases h
      exact .inr (.inr ⟨d, e, rfl, rfl, hw⟩)
    · cases h
  · cases h
  · rename_i d
    exact .inr (.inl ⟨rfl, d, rfl⟩)
  · exact .inl rfl
  · cases h
    exact .inl rfl
  · cases h

theorem Takes.trans {x y z : Scalar} (hzy : z.Takes conversions y) (hyx : y.Takes conversions x) :
    z.Takes conversions x := by
  obtain rfl | ⟨hpay, hzy⟩ := hzy
  · exact hyx
  · obtain rfl | ⟨-, hyx⟩ := hyx
    · exact .inr ⟨hpay, hzy⟩
    · refine .inr ⟨hpay, ?_⟩
      obtain rfl | ⟨rfl, d, rfl⟩ | ⟨d, e, rfl, rfl, hd⟩ := common?_eq_left hzy
      · exact common?_generic_left x
      · obtain h | ⟨h, -⟩ | ⟨_, e, -, rfl, -⟩ := common?_eq_left hyx
        · cases h
        · cases h
        · rfl
      · obtain h | ⟨h, -⟩ | ⟨_, f, h, rfl, he⟩ := common?_eq_left hyx
        · cases h
        · cases h
        · cases h
          simp only [common?, Decimal.widen?_trans hd he]

end Scalar

namespace Metadata

theorem Covers.trans {a b m : Metadata} (hm : m.Covers b) (hb : b.Covers a) : m.Covers a := by
  refine ⟨Nat.le_trans hm.kind hb.kind, hm.within, ?_⟩
  obtain ha | ⟨hne, hpre⟩ := hb.path
  · exact .inl ha
  · obtain h | ⟨hne', hpre'⟩ := hm.path
    · exact absurd h hne
    · exact .inr ⟨hne', hpre'.trans hpre⟩

theorem Takes.trans {a b m : Metadata} (hm : m.Takes conversions b) (hb : b.Takes conversions a) :
    m.Takes conversions a := by
  refine ⟨hm.1.trans hb.1, ?_⟩
  obtain hpay | hle := hm.2
  · exact .inl hpay
  · exact hb.2.imp_right fun hle' => Nat.le_trans hle' hle

end Metadata

theorem Atom.Takes.trans {x y z : Atom} (hzy : z.Takes conversions y)
    (hyx : y.Takes conversions x) : z.Takes conversions x := by
  cases hzy with
  | null => exact hyx
  | scalar_null s =>
    cases hyx
    exact .scalar_null s
  | scalars h =>
    cases hyx with
    | scalar_null => exact .scalar_null _
    | scalars h' => exact .scalars (h.trans h')
    | generic_member b hpay =>
      rw [h.eq_generic]
      exact .generic_member b hpay
  | metadata h =>
    cases hyx with
    | metadata h' => exact .metadata (h.trans h')
  | generic_member b hpay =>
    cases hyx with
    | @metadata _ a h' =>
      obtain ⟨k, b'⟩ := a
      cases h'.kind_eq_member rfl
      exact .generic_member b' hpay

theorem takes_positions_trans {xs ys zs : List Atom}
    (hzy : List.Forall₂ (Atom.Takes conversions) zs ys)
    (hyx : List.Forall₂ (Atom.Takes conversions) ys xs) :
    List.Forall₂ (Atom.Takes conversions) zs xs := by
  induction hzy generalizing xs with
  | nil => exact hyx
  | cons hz _ ih =>
    cases hyx with
    | cons hy hys => exact .cons (hz.trans hy) (ih hys)

/-! ## Items -/

namespace Item

/-- Tuples of one position. -/
def isSingleton : Item → Bool
  | tuple [_] => true
  | _ => false

/-- Metadata types of dimensions, hierarchies and levels. -/
def isCoarse : Item → Bool
  | atom (.metadata m) => m.kind ≠ .member
  | _ => false

/-- Items without structure. -/
def isAmorphous : Item → Bool
  | amorphous _ => true
  | _ => false

/-- What an amorphous item can take in takes in nothing but null and such items. -/
theorem Takes.absorbable {x y : Item} (h : y.Takes conversions x) (hy : y.absorbable = true) :
    x = .atom .null ∨ x.absorbable = true := by
  cases h with
  | atoms h =>
    cases h with
    | null => cases hy
    | scalar_null => exact .inl rfl
    | scalars => exact .inr rfl
    | @metadata m a h =>
      obtain ⟨k, b⟩ := m
      obtain ⟨j, p⟩ := a
      cases k with
      | member =>
        cases h.kind_eq_member rfl
        exact .inr rfl
      | dimension | hierarchy | level => cases hy
    | generic_member => exact .inr rfl
  | tuples => exact .inr rfl
  | member_singleton => exact .inr rfl
  | generic_tuple => exact .inr rfl
  | amorphous_null => exact .inl rfl
  | amorphous hx => exact .inr hx

/-- What takes in a member takes in every tuple that the member takes in, unless it is a type around
members. -/
theorem Takes.chain_member {z : Atom} {b p : Binding}
    (hz : z.Takes conversions (.metadata ⟨.member, b⟩))
    (hb : Metadata.Takes conversions ⟨.member, b⟩ ⟨.member, p⟩) :
    (atom z).Takes conversions (tuple [.metadata ⟨.member, p⟩]) ∨ (atom z).isCoarse = true := by
  cases hz with
  | @metadata m _ hm =>
    obtain ⟨k, q⟩ := m
    cases k with
    | member => exact .inl (.member_singleton (hm.trans hb))
    | dimension | hierarchy | level => exact .inr rfl
  | generic_member _ hpay => exact .inl (.generic_tuple _ hpay)

/-- An item takes in what the items that it takes in take in.  Not so a type around members and a
tuple of one position, and not always so an amorphous item and what stands for a scalar. -/
theorem Takes.chain {x y z : Item} (hzy : z.Takes conversions y) (hyx : y.Takes conversions x) :
    z.Takes conversions x ∨ (x.isSingleton = true ∧ z.isCoarse = true) ∨
      (conversions = true ∧ z.isAmorphous = true ∧ x.absorbable = true) := by
  cases hzy with
  | atoms hz =>
    cases hyx with
    | atoms hy => exact .inl (.atoms (hz.trans hy))
    | member_singleton hb => exact (Takes.chain_member hz hb).imp_right fun h => .inl ⟨rfl, h⟩
    | generic_tuple t hpay =>
      cases hz with
      | scalars hs =>
        rw [hs.eq_generic]
        exact .inl (.generic_tuple t hpay)
  | tuples hz =>
    cases hyx with
    | tuples hy => exact .inl (.tuples (takes_positions_trans hz hy))
  | member_singleton hb =>
    cases hyx with
    | tuples hy =>
      cases hy with
      | cons ha hnil =>
        cases hnil
        cases ha with
        | @metadata _ a ha =>
          obtain ⟨k, q⟩ := a
          cases ha.kind_eq_member rfl
          exact .inl (.member_singleton (hb.trans ha))
  | generic_tuple t hpay =>
    cases hyx with
    | tuples => exact .inl (.generic_tuple _ hpay)
  | amorphous_null ds =>
    cases hyx with
    | atoms h =>
      cases h
      exact .inl (.amorphous_null ds)
  | amorphous hy hds hsub hpay =>
    obtain hpay | rfl := hpay
    · -- `y` may be a generic scalar, which has forgotten the dimensions of `x`
      obtain rfl | hx := hyx.absorbable hy
      · exact .inl (.amorphous_null _)
      · exact .inr (.inr ⟨hpay, rfl, hx⟩)
    · exact .inl hyx

theorem not_isCoarse_of_absorbable {x : Item} (hx : x.absorbable = true) : x.isCoarse = false := by
  unfold absorbable at hx
  split at hx
  · rfl
  · rfl
  · rfl
  · rfl
  · cases hx

/-- What takes in a type around members is one. -/
theorem Takes.isCoarse {y z : Item} (h : z.Takes conversions y) (hy : y.isCoarse = true) :
    z.isCoarse = true := by
  cases h with
  | atoms h =>
    cases h with
    | metadata hm =>
      refine decide_eq_true fun hmem => ?_
      exact of_decide_eq_true hy (hm.kind_eq_member hmem)
    | null | scalar_null | scalars | generic_member => cases hy
  | tuples | member_singleton | generic_tuple | amorphous_null => cases hy
  | amorphous hx =>
    rw [not_isCoarse_of_absorbable hx] at hy
    cases hy

/-- What takes in an amorphous item is one. -/
theorem Takes.isAmorphous {y z : Item} (h : z.Takes conversions y) (hy : y.isAmorphous = true) :
    z.isAmorphous = true := by
  cases h with
  | atoms | tuples | member_singleton | generic_tuple => cases hy
  | amorphous_null | amorphous => rfl

/-- What lies at the end of a chain of items that take in one another. -/
def Over (conversions : Bool) (z x : Item) : Prop :=
  z.Takes conversions x ∨ (x.isSingleton = true ∧ z.isCoarse = true) ∨
    (conversions = true ∧ z.isAmorphous = true ∧ x.absorbable = true)

/-- The two exceptions to transitivity are for good: they hold of the rest of the chain. -/
theorem Over.step {x z z' : Item} (hz : z'.Takes conversions z) (h : z.Over conversions x) :
    z'.Over conversions x := by
  obtain h | ⟨hx, hcoarse⟩ | ⟨hpay, hamorphous, hx⟩ := h
  · exact hz.chain h
  · exact .inr (.inl ⟨hx, hz.isCoarse hcoarse⟩)
  · exact .inr (.inr ⟨hpay, hz.isAmorphous hamorphous, hx⟩)

/-! ## Ends of chains -/

/-- An item depends on the dimensions that it lists, and an amorphous one only may depend on
them. -/
theorem uses_iff {i : Item} {d : Ref} {maybe : Bool} :
    i.uses d maybe = true ↔ d ∈ i.dimensions ∧ (maybe = true ∨ i.isAmorphous = false) := by
  cases i with
  | atom a => simp [uses, dimensions, isAmorphous]
  | tuple t => simp [uses, dimensions, isAmorphous]
  | amorphous ds => simp [uses, dimensions, isAmorphous, and_comm]

theorem uses_maybe_iff {i : Item} {d : Ref} : i.uses d true = true ↔ d ∈ i.dimensions := by
  rw [uses_iff]
  exact and_iff_left (.inl rfl)

theorem not_isCoarse_of_takes_singleton {z x : Item} (h : z.Takes conversions x)
    (hx : x.isSingleton = true) : z.isCoarse = false := by
  cases h with
  | atoms | amorphous_null => cases hx
  | tuples | member_singleton | generic_tuple | amorphous => rfl

theorem dimensions_of_takes {z x : Item} (h : z.Takes conversions x) (hz : z.isAmorphous = true) :
    ∀ d ∈ x.dimensions, d ∈ z.dimensions := by
  cases h with
  | atoms | tuples | member_singleton | generic_tuple => cases hz
  | amorphous_null =>
    intro d hd
    cases hd
  | amorphous _ _ hsub => exact hsub

/-- At the end of a chain, an item is taken in unless it is one of the exceptions. -/
theorem Over.takes_iff {c : Catalog} {z x : Item} (hz : z.WellFormed c) (h : z.Over true x) :
    z.Takes true x ↔ ¬(x.isSingleton = true ∧ z.isCoarse = true) ∧
      ¬(z.isAmorphous = true ∧ ∃ d, x.uses d true = true ∧ z.uses d true = false) := by
  simp only [← Bool.not_eq_true, uses_maybe_iff]
  constructor
  · intro ht
    constructor
    · rintro ⟨hx, hcoarse⟩
      rw [not_isCoarse_of_takes_singleton ht hx] at hcoarse
      cases hcoarse
    · rintro ⟨hamorphous, d, hd, hd'⟩
      exact hd' (dimensions_of_takes ht hamorphous d hd)
  · rintro ⟨hsingle, hdims⟩
    obtain ht | hs | ⟨-, hamorphous, hx⟩ := h
    · exact ht
    · exact absurd hs hsingle
    · cases z with
      | atom a => cases hamorphous
      | tuple t => cases hamorphous
      | amorphous ds =>
        refine .amorphous hx hz (fun r hr => ?_) (.inl rfl)
        by_contra hr'
        exact hdims ⟨rfl, r, hr, hr'⟩

/-- At the end of a chain, only one of the exceptions leaves no common item. -/
theorem Over.join_eq_none_iff {z x : Item} (h : z.Over conversions x) :
    (z.join x).result = none ↔ x.isSingleton = true ∧ z.isCoarse = true := by
  constructor
  · intro hnone
    obtain ht | hs | ⟨-, hamorphous, hx⟩ := h
    · obtain ⟨n, ho, -⟩ := Attempt.result_allowing_eq_some_iff.1 (Item.takes_iff.2 ht)
      rw [(Attempt.outcome?_eq_some_iff.1 ho).1] at hnone
      cases hnone
    · exact hs
    · cases z with
      | atom a => cases hamorphous
      | tuple t => cases hamorphous
      | amorphous ds =>
        rw [join_amorphous, absorb, if_pos hx] at hnone
        split at hnone
        · cases hnone
        · cases hnone
  · rintro ⟨hx, hz⟩
    unfold Item.isCoarse at hz
    split at hz
    · rename_i m
      unfold isSingleton at hx
      split at hx
      · obtain ⟨k, b⟩ := m
        cases k with
        | member => cases hz
        | dimension | hierarchy | level => rfl
      · cases hx
    · cases hz

/-- Elements of sets have no common item just where items have none. -/
theorem joinElements_eq_none_iff {z x : Item} :
    (z.joinElements x).result = none ↔ (z.join x).result = none := by
  have mixed : ∀ m t note i, (joinMemberTuple m t (.noting note i)).result ≠ none := by
    intro m t note i
    obtain ⟨b, k, -, hj⟩ | ⟨-, hj⟩ := joinMemberTuple_cases m t (.noting note i)
    · rw [hj]
      exact Option.some_ne_none _
    · rw [hj]
      exact Option.some_ne_none _
  obtain ⟨m, t, rfl, rfl⟩ | ⟨m, t, rfl, rfl⟩ | hzx := joinElements_cases z x
  · rw [joinElements_member_tuple, join_member_tuple]
    exact iff_of_false (mixed m t _ _) (mixed m t _ _)
  · rw [joinElements_tuple_member, join_tuple_atom, joinElements_member_tuple, join_member_tuple]
    exact iff_of_false (mixed m t _ _) (mixed m t _ _)
  · rw [hzx]

end Item

/-! ## Types -/

namespace Ty

theorem Lift.imp {R S : Item → Item → Prop} (h : ∀ z x, R z x → S z x) {z x : Ty}
    (hzx : Lift R z x) : Lift S z x := by
  cases hzx with
  | item hzx => exact .item (h _ _ hzx)
  | set hzx => exact .set (h _ _ hzx)
  | cube r => exact .cube r

theorem Lift.comp {R S T : Item → Item → Prop} (h : ∀ z y x, R z y → S y x → T z x) {x y z : Ty}
    (hzy : Lift R z y) (hyx : Lift S y x) : Lift T z x := by
  cases hzy with
  | item hzy =>
    cases hyx with
    | item hyx => exact .item (h _ _ _ hzy hyx)
  | set hzy =>
    cases hyx with
    | set hyx => exact .set (h _ _ _ hzy hyx)
  | cube r =>
    cases hyx
    exact .cube r

/-- Tuples of one position, and sets of them. -/
def isSingleton : Ty → Bool
  | item i | set i => i.isSingleton
  | cube _ => false

/-- Dimension, hierarchy and level types, and sets of them. -/
def isCoarse : Ty → Bool
  | item i | set i => i.isCoarse
  | cube _ => false

/-- Amorphous types, and sets of them. -/
def isAmorphous : Ty → Bool
  | item i | set i => i.isAmorphous
  | cube _ => false

/-- What lies at the end of a chain of types that take in one another. -/
def Over (conversions : Bool) : Ty → Ty → Prop :=
  Lift (Item.Over conversions)

theorem Over.of_takes {z x : Ty} (h : z.Takes conversions x) : z.Over conversions x :=
  Lift.imp (fun _ _ h => .inl h) h

theorem Over.step {x z z' : Ty} (hz : z'.Takes conversions z) (h : z.Over conversions x) :
    z'.Over conversions x :=
  Lift.comp (R := Item.Takes conversions) (S := Item.Over conversions)
    (fun _ _ _ => Item.Over.step) hz h

/-- The first of the further types is unified first. -/
theorem joinFrom_cons_result {t u r : Ty} {us : List Ty} :
    (joinFrom conversions t (u :: us)).result = some r ↔
      ∃ j, ((t.join u).allowing conversions).result = some j ∧
        (joinFrom conversions j us).result = some r := by
  rw [joinFrom_cons, Attempt.result_bind, Option.bind_eq_some_iff]

/-- Unifying a type with further types goes up a chain from each of them. -/
theorem joinFrom_over {c : Catalog} {t r : Ty} {us : List Ty} (ht : t.WellFormed c)
    (hus : ∀ u ∈ us, u.WellFormed c) (h : (joinFrom conversions t us).result = some r) :
    (∀ x, t.Over conversions x → r.Over conversions x) ∧ ∀ u ∈ us, r.Over conversions u := by
  induction us generalizing t with
  | nil =>
    cases h
    refine ⟨fun x hx => hx, fun u hu => ?_⟩
    cases hu
  | cons u us ih =>
    obtain ⟨j, hj, hr⟩ := joinFrom_cons_result.1 h
    obtain ⟨hu, hus⟩ := List.forall_mem_cons.1 hus
    obtain ⟨hjt, hju⟩ := takes_operands ht hu hj
    obtain ⟨up, rest⟩ := ih (wellFormed_join ht hu (result_of_allowing hj)) hus hr
    refine ⟨fun x hx => up x (hx.step hjt), ?_⟩
    exact List.forall_mem_cons.2 ⟨up u (.of_takes hju), rest⟩

/-- The common type of a list lies at the end of a chain from each entry. -/
theorem joinAll_over {c : Catalog} {ts : List Ty} {r : Ty} (hts : ∀ t ∈ ts, t.WellFormed c)
    (h : (joinAll conversions ts).result = some r) : ∀ t ∈ ts, r.Over conversions t := by
  cases ts with
  | nil => cases h
  | cons t ts =>
    obtain ⟨ht, hts⟩ := List.forall_mem_cons.1 hts
    obtain ⟨up, rest⟩ := joinFrom_over ht hts h
    exact List.forall_mem_cons.2 ⟨up t (.of_takes (.refl ht)), rest⟩

theorem commonType?_eq_right_iff {t r : Ty} : t.commonType? r = some r ↔ r.Takes true t := by
  rw [commonType?, join_comm, ← takes_iff, Attempt.allowing, if_pos (.inl rfl)]

theorem Over.takes_iff {c : Catalog} {r t : Ty} (hr : r.WellFormed c) (h : r.Over true t) :
    r.Takes true t ↔ ¬(t.isSingleton = true ∧ r.isCoarse = true) ∧
      ¬(r.isAmorphous = true ∧ ∃ d, t.uses d true = true ∧ r.uses d true = false) := by
  cases h with
  | item h => exact lift_item_iff.trans (h.takes_iff hr)
  | set h => exact lift_set_iff.trans (h.takes_iff hr)
  | cube r =>
    refine iff_of_true (.cube r) ⟨?_, ?_⟩
    · rintro ⟨hs, -⟩
      cases hs
    · rintro ⟨ha, -⟩
      cases ha

theorem Over.commonType?_eq_none_iff {r t : Ty} (h : r.Over conversions t) :
    t.commonType? r = none ↔ t.isSingleton = true ∧ r.isCoarse = true := by
  rw [commonType?, join_comm]
  cases h with
  | item h =>
    rw [join_items, Attempt.map, Option.map_eq_none_iff]
    exact h.join_eq_none_iff
  | set h =>
    rw [join_sets, Attempt.map, Option.map_eq_none_iff, Item.joinElements_eq_none_iff]
    exact h.join_eq_none_iff
  | cube r =>
    refine iff_of_false ?_ fun h => ?_
    · rw [join_cubes, if_pos rfl]
      exact Option.some_ne_none _
    · cases h.1

/-- The common type of a list is common to all of its entries, with two exceptions: tuples of one
position where it is a type around members, with which they have nothing in common, and entries
with dimensions that it does not remember where it is amorphous. -/
theorem list_type_common_to_entry_iff {c : Catalog} {ts : List Ty} {r : Ty} {n : Nat}
    (hts : ∀ t ∈ ts, t.WellFormed c) (h : (joinAll true ts).outcome? = some (r, n)) :
    ∀ t ∈ ts,
      (t.commonType? r = some r ↔ ¬(t.isSingleton = true ∧ r.isCoarse = true) ∧
        ¬(r.isAmorphous = true ∧ ∃ d, t.uses d true = true ∧ r.uses d true = false)) ∧
      (t.commonType? r = none ↔ t.isSingleton = true ∧ r.isCoarse = true) := by
  intro t ht
  obtain ⟨hresult, -⟩ := Attempt.outcome?_eq_some_iff.1 h
  have hover := joinAll_over hts hresult t ht
  rw [commonType?_eq_right_iff]
  exact ⟨hover.takes_iff (wellFormed_joinAll hts hresult), hover.commonType?_eq_none_iff⟩

/-- The common type of a tuple of a city, a city and their level is common to the city and not to the
tuple. -/
theorem list_type_common_to_member_below_level :
    let tuple : Ty := .tuple [.metadata ⟨.member, [⟨0, 0⟩, ⟨0, 0⟩, ⟨0, 0⟩, ⟨0, 0⟩]⟩]
    let member : Ty := .metadata ⟨.member, [⟨0, 0⟩, ⟨0, 0⟩, ⟨0, 0⟩, ⟨0, 0⟩]⟩
    let level : Ty := .metadata ⟨.level, [⟨0, 0⟩, ⟨0, 0⟩, ⟨0, 0⟩]⟩
    Catalog.retail.Built ∧ (∀ t ∈ [tuple, member, level], t.WellFormed .retail) ∧
      (joinAll true [tuple, member, level]).outcome? = some (level, 1) ∧
      member.commonType? level = some level ∧ tuple.commonType? level = none := by
  intro tuple member level
  have hwf : ∀ t ∈ [tuple, member, level], t.WellFormed .retail := by decide
  have hj : (joinAll true [tuple, member, level]).outcome? = some (level, 1) := by decide
  obtain ⟨common_iff, -⟩ := list_type_common_to_entry_iff hwf hj member (by decide)
  obtain ⟨-, none_iff⟩ := list_type_common_to_entry_iff hwf hj tuple (by decide)
  refine ⟨Catalog.retail_built, hwf, hj, common_iff.2 ⟨by decide, ?_⟩, none_iff.2 (by decide)⟩
  rintro ⟨hamorphous, -⟩
  cases hamorphous

/-- Both exceptions arise.  A tuple of a member, a member and a level have a common type, but the
tuple and the level have none.  A member, a generic scalar and an amorphous item are unified without
the dimension of the member. -/
theorem list_type_not_common_to_every_entry :
    let tuple : Ty := .tuple [.metadata ⟨.member, []⟩]
    let member : Ty := .metadata ⟨.member, []⟩
    let level : Ty := .metadata ⟨.level, []⟩
    let store : Ty := .metadata ⟨.member, [⟨0, 0⟩]⟩
    ((∀ t ∈ [tuple, member, level], t.WellFormed ⟨#[]⟩) ∧
      (joinAll true [tuple, member, level]).outcome? = some (level, 0) ∧
      tuple.commonType? level = none) ∧
    ((∀ t ∈ [store, .scalar .generic, .amorphous []], t.WellFormed ⟨#[]⟩) ∧
      (joinAll true [store, .scalar .generic, .amorphous []]).outcome? = some (.amorphous [], 2) ∧
      store.commonType? (.amorphous []) = some (.amorphous [⟨0, 0⟩])) := by
  decide

end Ty

end Hypercube
