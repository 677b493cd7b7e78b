import Hypercube.Proofs.Chains
import Hypercube.Proofs.Consensus
import Hypercube.Ty.Shape

/-!
# Unification and the matrix of conversions

Two sets of rules say what types can be treated as others: unification, and the matrix of permitted
conversions between categories.  They agree in both directions.

* `Ty.Takes.convertible` — what a type takes in can be converted to its category.
* `Category.free_iff` — the conversions that are free.
* `Item.join_of_free` — items between whose categories conversion is free have a common item, unless
  they are bound to different dimensions.
* `Ty.conversions_agree_with_unification` — the agreement for types.
-/

set_option autoImplicit false

namespace Hypercube

/-! ## From unification to conversions -/

/-- The category of metadata types of a kind. -/
def Kind.category : Kind → Category
  | dimension => .dimension
  | hierarchy => .hierarchy
  | level => .level
  | member => .member

theorem Item.category_metadata (m : Metadata) :
    (atom (.metadata m)).category = m.kind.category := by
  obtain ⟨k, b⟩ := m
  cases k <;> rfl

namespace Category

theorem conversionCost?_self (c : Category) : conversionCost? c c = some 0 := by
  rw [conversionCost?, if_pos rfl]

/-- Metadata types can be converted to those of outer kinds. -/
theorem convertible_of_depth_le {j k : Kind} (h : k.depth ≤ j.depth) :
    (conversionCost? j.category k.category).isSome = true := by
  revert h
  cases k <;> cases j <;> decide

end Category

/-- Scalars can be converted to the generic scalar. -/
theorem Scalar.convertible_to_value (s : Scalar) :
    (Category.conversionCost? (Item.atom (.scalar s)).category .value).isSome = true := by
  cases s <;> rfl

theorem Scalar.Takes.convertible {z x : Scalar} (h : z.Takes true x) :
    (Category.conversionCost? (Item.atom (.scalar x)).category
      (Item.atom (.scalar z)).category).isSome = true := by
  obtain rfl | ⟨-, h⟩ := h
  · rw [Category.conversionCost?_self]
    rfl
  · obtain rfl | ⟨rfl, d, rfl⟩ | ⟨d, e, rfl, rfl, -⟩ := common?_eq_left h
    · exact convertible_to_value x
    · rfl
    · rfl

theorem Atom.Takes.convertible {z x : Atom} (h : z.Takes true x) :
    (Category.conversionCost? (Item.atom x).category (Item.atom z).category).isSome = true := by
  cases h with
  | null => rfl
  | scalar_null s => cases s <;> rfl
  | scalars h => exact h.convertible
  | metadata h =>
    rw [Item.category_metadata, Item.category_metadata]
    exact Category.convertible_of_depth_le h.1.kind
  | generic_member => rfl

/-- What an amorphous item takes in can be converted to a value. -/
theorem Item.convertible_of_absorbable {x : Item} (h : x.absorbable = true) :
    ((Ty.item x).conversionCost? .value).isSome = true := by
  unfold absorbable at h
  split at h
  · exact Scalar.convertible_to_value _
  · rfl
  · rfl
  · rfl
  · cases h

theorem Item.Takes.convertible {z x : Item} (h : z.Takes true x) :
    ((Ty.item x).conversionCost? z.category).isSome = true := by
  cases h with
  | atoms h => exact h.convertible
  | tuples => rfl
  | member_singleton => rfl
  | generic_tuple => rfl
  | amorphous_null => rfl
  | amorphous hx => exact convertible_of_absorbable hx

/-- What a type takes in can be converted to its category. -/
theorem Ty.Takes.convertible {z x : Ty} (h : z.Takes true x) :
    (x.conversionCost? z.category).isSome = true := by
  cases h with
  | item h => exact h.convertible
  | set => rfl
  | cube => rfl

/-! ## From free conversions to unification -/

/-- Free conversions stay in a category, or lead from null to a scalar. -/
theorem Category.free_iff {source target : Category} :
    conversionCost? source target = some 0 ↔
      source = target ∨ source = .null ∧
        target ∈ [numeric, string, dateTime, logical, value, symbol] := by
  cases source <;> cases target <;> decide

theorem Category.eq_of_free_to_kind {c : Category} {k : Kind}
    (h : conversionCost? c k.category = some 0) : c = k.category := by
  obtain heq | ⟨-, hscalar⟩ := free_iff.1 h
  · exact heq
  · cases k <;> exact absurd hscalar (by decide)

theorem Category.eq_of_free_of_kind {c : Category} {k : Kind}
    (h : conversionCost? k.category c = some 0) : c = k.category := by
  obtain heq | ⟨hnull, -⟩ := free_iff.1 h
  · exact heq.symm
  · cases k <;> cases hnull

theorem Scalar.common?_of_category {s t : Scalar} (hne : s ≠ t)
    (h : (Item.atom (.scalar s)).category = (Item.atom (.scalar t)).category) :
    (common? s t).isSome = true := by
  cases s with
  | numeric =>
    cases t with
    | numeric => exact absurd rfl hne
    | decimal => rfl
    | string | dateTime | boolean | symbol | generic => cases h
  | decimal d =>
    cases t with
    | numeric => rfl
    | decimal e =>
      simp only [common?]
      split <;> rfl
    | string | dateTime | boolean | symbol | generic => cases h
  | string | dateTime | boolean | symbol | generic =>
    -- the other categories have one scalar each
    cases t <;> cases h
    exact absurd rfl hne

theorem Scalar.join_of_category {s t : Scalar}
    (h : (Item.atom (.scalar s)).category = (Item.atom (.scalar t)).category) :
    (s.join t).result.isSome = true := by
  by_cases hne : s = t
  · rw [hne, join_self]
    rfl
  · obtain ⟨z, hz⟩ := Option.isSome_iff_exists.1 (common?_of_category hne h)
    rw [join, if_neg hne, hz]
    rfl

/-- Metadata types are unified unless they are bound to different dimensions. -/
theorem Metadata.join_of_dimensions {a b : Metadata}
    (h : ∀ d e, a.bound? .dimension = some d → b.bound? .dimension = some e → d = e) :
    (a.join b).result.isSome = true := by
  have some_of_common : ∀ z, common? a b = some z → (a.join b).result.isSome = true := by
    intro z hz
    rw [join, hz]
    rfl
  by_cases ha : a.binding = []
  · exact some_of_common _ (common?_of_unknown b ha)
  · by_cases hb : b.binding = []
    · rw [common?_comm] at some_of_common
      exact some_of_common _ (common?_of_unknown a hb)
    · refine some_of_common _ ((common?_of_bound ha hb).trans (if_neg fun hshared => ?_))
      obtain ⟨-, -, hdim⟩ := clash_of_shared_nil ha List.prefix_rfl hb hshared
      obtain ⟨d, as, has⟩ := List.exists_cons_of_ne_nil ha
      obtain ⟨e, bs, hbs⟩ := List.exists_cons_of_ne_nil hb
      have hd : a.bound? .dimension = some d := by rw [bound?, has]; rfl
      have he : b.bound? .dimension = some e := by rw [bound?, hbs]; rfl
      rw [hd, he, h d e hd he] at hdim
      exact hdim rfl

/-- The categories of metadata types are their own. -/
theorem Item.category_ne_kind {a : Atom} (ha : a.metadata? = none) (k : Kind) :
    (atom a).category ≠ k.category := by
  cases a with
  | null => cases k <;> exact nofun
  | scalar s => cases s <;> cases k <;> exact nofun
  | metadata m => cases ha

theorem Atom.join_of_free {a b : Atom}
    (hfree : Category.conversionCost? (Item.atom a).category (Item.atom b).category = some 0)
    (hdims : ∀ d e, a.bound? .dimension = some d → b.bound? .dimension = some e → d = e) :
    (a.join b).result.isSome = true := by
  cases a with
  | null =>
    cases b with
    | null => rfl
    | scalar s => rfl
    | metadata m =>
      rw [Item.category_metadata] at hfree
      exact absurd (Category.eq_of_free_to_kind hfree) (Item.category_ne_kind rfl _)
  | scalar s =>
    cases b with
    | null => rfl
    | scalar t =>
      obtain hcat | ⟨hnull, -⟩ := Category.free_iff.1 hfree
      · rw [join, Attempt.result_map, Option.isSome_map]
        exact Scalar.join_of_category hcat
      · cases s <;> cases hnull
    | metadata m =>
      rw [Item.category_metadata] at hfree
      exact absurd (Category.eq_of_free_to_kind hfree) (Item.category_ne_kind rfl _)
  | metadata m =>
    cases b with
    | null | scalar =>
      rw [Item.category_metadata] at hfree
      exact absurd (Category.eq_of_free_of_kind hfree) (Item.category_ne_kind rfl _)
    | metadata m' =>
      rw [join, Attempt.result_map, Option.isSome_map]
      exact Metadata.join_of_dimensions hdims

namespace Item

/-- Amorphous items take in every atom that can be converted to a value, or a value to it, for
free. -/
theorem absorb_of_free {a : Atom} (ds : List Ref)
    (h : Category.conversionCost? (atom a).category .value = some 0 ∨
      Category.conversionCost? .value (atom a).category = some 0) :
    (absorb ds (atom a)).result.isSome = true := by
  cases a with
  | null => rfl
  | scalar s => rfl
  | metadata m =>
    rw [category_metadata] at h
    have hvalue : Category.value = m.kind.category :=
      h.elim Category.eq_of_free_of_kind Category.eq_of_free_to_kind
    exact absurd hvalue (category_ne_kind (a := .scalar .generic) rfl _)

/-- Items between whose categories conversion is free have a common item, unless they are tuples or
bound to different dimensions. -/
theorem join_of_free {x y : Item} (hx : ∀ t, x ≠ tuple t) (hy : ∀ t, y ≠ tuple t)
    (hfree : Category.conversionCost? x.category y.category = some 0)
    (hdims : ∀ d e, x.bound? .dimension = some d → y.bound? .dimension = some e → d = e) :
    (x.join y).result.isSome = true := by
  cases x with
  | tuple t => exact absurd rfl (hx t)
  | atom a =>
    cases y with
    | tuple t => exact absurd rfl (hy t)
    | atom b =>
      rw [join_atoms, Attempt.result_map, Option.isSome_map]
      exact Atom.join_of_free hfree hdims
    | amorphous ds =>
      rw [join_comm]
      exact absorb_of_free ds (.inl hfree)
  | amorphous ds =>
    cases y with
    | tuple t => exact absurd rfl (hy t)
    | atom b => exact absorb_of_free ds (.inr hfree)
    | amorphous es => rfl

end Item

namespace Ty

/-- Tuples, sets and cubes. -/
def isComposite : Ty → Bool
  | tuple _ | set _ | cube _ => true
  | _ => false

theorem exists_item_of_not_isComposite {t : Ty} (h : t.isComposite = false) :
    ∃ i, t = item i ∧ ∀ positions, i ≠ .tuple positions := by
  cases t with
  | item i =>
    refine ⟨i, rfl, ?_⟩
    rintro positions rfl
    cases h
  | set e => cases h
  | cube r => cases h

/-- Every common type can be reached from both sides by permitted conversions.  Types that are not
composed of others and between whose categories conversion is free have a common type, unless they
are bound to different dimensions. -/
theorem conversions_agree_with_unification {c : Catalog} {a b : Ty} (ha : a.WellFormed c)
    (hb : b.WellFormed c) :
    (∀ j, a.commonType? b = some j →
      (a.conversionCost? j.category).isSome = true ∧
        (b.conversionCost? j.category).isSome = true) ∧
    (a.isComposite = false → b.isComposite = false →
      (∀ d e, a.bound? .dimension = some d → b.bound? .dimension = some e → d = e) →
      Category.conversionCost? a.category b.category = some 0 →
      (a.commonType? b).isSome = true) := by
  constructor
  · intro j hj
    have hallowed : ((a.join b).allowing true).result = some j := hj
    obtain ⟨hja, hjb⟩ := takes_operands ha hb hallowed
    exact ⟨hja.convertible, hjb.convertible⟩
  · intro hac hbc hdims hfree
    obtain ⟨x, rfl, hx⟩ := exists_item_of_not_isComposite hac
    obtain ⟨y, rfl, hy⟩ := exists_item_of_not_isComposite hbc
    rw [commonType?, join_items, Attempt.result_map, Option.isSome_map]
    exact Item.join_of_free hx hy hfree hdims

/-- A city and a tuple of an unknown member meet as the city, to which the tuple can be converted.
Two cities have a common type because they need no conversion. -/
theorem conversions_agree_with_unification_of_members :
    let oslo : Ty := .metadata ⟨.member, [⟨0, 0⟩, ⟨0, 0⟩, ⟨0, 0⟩, ⟨0, 0⟩]⟩
    let rome : Ty := .metadata ⟨.member, [⟨0, 0⟩, ⟨0, 0⟩, ⟨0, 0⟩, ⟨0, 1⟩]⟩
    let tuple : Ty := .tuple [.metadata ⟨.member, []⟩]
    Catalog.retail.Built ∧ oslo.WellFormed .retail ∧ tuple.WellFormed .retail ∧
      rome.WellFormed .retail ∧ oslo.commonType? tuple = some oslo ∧
      (tuple.conversionCost? .member).isSome = true ∧
      Category.conversionCost? oslo.category rome.category = some 0 ∧
      (oslo.commonType? rome).isSome = true := by
  intro oslo rome tuple
  have ho : oslo.WellFormed .retail := by decide
  have ht : tuple.WellFormed .retail := by decide
  have hr : rome.WellFormed .retail := by decide
  have hj : oslo.commonType? tuple = some oslo := by decide
  have hfree : Category.conversionCost? oslo.category rome.category = some 0 := by decide
  have hdims : ∀ d e, oslo.bound? .dimension = some d → rome.bound? .dimension = some e →
      d = e := by
    rintro d e ⟨⟩ ⟨⟩
    rfl
  exact ⟨Catalog.retail_built, ho, ht, hr, hj,
    ((conversions_agree_with_unification ho ht).1 oslo hj).2, hfree,
    (conversions_agree_with_unification ho hr).2 rfl rfl hdims hfree⟩

end Ty

end Hypercube
