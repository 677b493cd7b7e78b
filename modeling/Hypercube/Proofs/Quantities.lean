import Hypercube.Proofs.Usage
import Hypercube.Ty.Shape

/-!
# Common types of quantities

Numbers, the generic scalar, null and amorphous items always have a common type.  It is read off a
list of them as a whole, so their order does not matter, nor how often each of them occurs.

* `Scalar.spanning` — the type of numbers with given counts of digits before and after the point.
* `Scalar.overDecimals`, `Scalar.overall`, `Ty.overall` — the common type of a list, without regard
  to order.
* `Scalar.join_overDecimals`, `Scalar.join_overall`, `Ty.join_overall` — one more entry.
* `Ty.joinFrom_overall` — any number of further entries.
* `Ty.overall_congr` — lists with the same entries have the same common type.
* `Ty.quantities_unify_in_any_order` — unification of a list gives its overall type.
-/

set_option autoImplicit false

namespace Hypercube

/-! ## Decimals -/

namespace Decimal

/-- Number of digits before the point, as a natural number. -/
def wholeDigits (d : Decimal) : Nat :=
  d.precision.toNat - d.scale.toNat

/-- Number of digits after the point, as a natural number. -/
def fractionDigits (d : Decimal) : Nat :=
  d.scale.toNat

/-- The largest of a count over some decimals. -/
def most (count : Decimal → Nat) : List Decimal → Nat
  | [] => 0
  | d :: ds => max (count d) (most count ds)

variable {count : Decimal → Nat}

theorem most_cons (d : Decimal) (ds : List Decimal) :
    most count (d :: ds) = max (count d) (most count ds) := rfl

theorem most_le_iff {ds : List Decimal} {n : Nat} : most count ds ≤ n ↔ ∀ d ∈ ds, count d ≤ n := by
  induction ds with
  | nil => simp [most]
  | cons d ds ih => rw [most_cons, Nat.max_le, ih, List.forall_mem_cons]

theorem most_congr {ds es : List Decimal} (h : ∀ d, d ∈ ds ↔ d ∈ es) :
    most count ds = most count es := by
  apply Nat.le_antisymm
  · rw [most_le_iff]
    intro d hd
    exact most_le_iff.1 (Nat.le_refl _) d ((h d).1 hd)
  · rw [most_le_iff]
    intro d hd
    exact most_le_iff.1 (Nat.le_refl _) d ((h d).2 hd)

/-- Over copies of a decimal, the largest count is that of the decimal. -/
theorem most_of_same {d : Decimal} {ds : List Decimal} (h : ∀ e ∈ ds, e = d) :
    most count (d :: ds) = count d := by
  have hle : most count ds ≤ count d := by
    rw [most_le_iff]
    intro e he
    exact Nat.le_of_eq (congrArg count (h e he))
  exact Nat.max_eq_left hle

/-- The decimal with given counts of digits before and after the point. -/
def ofCounts (whole fraction : Nat) : Decimal :=
  ⟨.ofNat (whole + fraction), .ofNat fraction⟩

variable {whole fraction : Nat}

/-- Counts within the limit are words. -/
theorem toNat_ofNat_of_le {n : Nat} (h : n ≤ maxDecimalPrecision.toNat) :
    (UInt32.ofNat n).toNat = n := by
  have hmax : maxDecimalPrecision.toNat = 38 := rfl
  have hsize : UInt32.size = 4294967296 := rfl
  exact UInt32.toNat_ofNat_of_lt' (by omega)

theorem toNat_precision_ofCounts (h : whole + fraction ≤ maxDecimalPrecision.toNat) :
    (ofCounts whole fraction).precision.toNat = whole + fraction :=
  toNat_ofNat_of_le h

theorem toNat_scale_ofCounts (h : whole + fraction ≤ maxDecimalPrecision.toNat) :
    (ofCounts whole fraction).scale.toNat = fraction :=
  toNat_ofNat_of_le (by omega)

/-- Widening two decimals keeps the larger counts, if there are not too many digits then. -/
theorem widen?_eq {x y : Decimal} (hx : x.scale.toNat ≤ x.precision.toNat)
    (hy : y.scale.toNat ≤ y.precision.toNat) :
    x.widen? y =
      if max x.wholeDigits y.wholeDigits + max x.fractionDigits y.fractionDigits ≤
          maxDecimalPrecision.toNat then
        some (ofCounts (max x.wholeDigits y.wholeDigits) (max x.fractionDigits y.fractionDigits))
      else none := by
  split
  · rename_i hle
    rw [widen?_eq_some_iff, toNat_integerDigits hx, toNat_integerDigits hy,
      toNat_scale_ofCounts hle, toNat_precision_ofCounts hle]
    exact ⟨rfl, rfl, hle⟩
  · rename_i hgt
    apply Option.eq_none_iff_forall_ne_some.2
    intro w hw
    obtain ⟨hs, hp, hle⟩ := widen?_eq_some_iff.1 hw
    rw [toNat_integerDigits hx, toNat_integerDigits hy] at hp
    unfold wholeDigits fractionDigits at hgt
    omega

end Decimal

namespace Scalar

open Decimal

/-- The type of numbers with given counts of digits before and after the point: a decimal if there
are not too many of them. -/
def spanning (whole fraction : Nat) : Scalar :=
  if whole + fraction ≤ maxDecimalPrecision.toNat then .decimal (ofCounts whole fraction)
  else .numeric

theorem join_result (a b : Scalar) :
    (a.join b).result = if a = b then some a else common? a b := by
  unfold join
  split
  · rfl
  · cases common? a b <;> rfl

/-- Two decimals become the type of numbers with the larger counts, unless they are the same. -/
theorem join_decimals {x y : Decimal} (hx : x.scale.toNat ≤ x.precision.toNat)
    (hy : y.scale.toNat ≤ y.precision.toNat) (hne : x ≠ y) :
    ((decimal x).join (decimal y)).result =
      some (spanning (max x.wholeDigits y.wholeDigits)
        (max x.fractionDigits y.fractionDigits)) := by
  have hne' : decimal x ≠ decimal y := fun h => hne (decimal.inj h)
  rw [join_result, if_neg hne', common?, widen?_eq hx hy]
  by_cases hle : max x.wholeDigits y.wholeDigits + max x.fractionDigits y.fractionDigits ≤
      maxDecimalPrecision.toNat
  · rw [spanning, if_pos hle, if_pos hle]
  · rw [spanning, if_neg hle, if_neg hle]

theorem isNumeric_spanning (whole fraction : Nat) : (spanning whole fraction).isNumeric = true := by
  unfold spanning
  split <;> rfl

theorem join_numeric_left {x : Scalar} (hx : x.isNumeric = true) :
    (numeric.join x).result = some numeric := by
  unfold isNumeric at hx
  split at hx
  · rfl
  · rfl
  · cases hx

/-- A decimal more makes the counts larger.  What has given up on decimals does so for good. -/
theorem join_spanning (whole fraction : Nat) {e : Decimal} (he : e.Valid) :
    ((spanning whole fraction).join (decimal e)).result =
      some (spanning (max whole e.wholeDigits) (max fraction e.fractionDigits)) := by
  by_cases hle : whole + fraction ≤ maxDecimalPrecision.toNat
  · have hspan : spanning whole fraction = decimal (ofCounts whole fraction) := if_pos hle
    have hp := toNat_precision_ofCounts hle
    have hs := toNat_scale_ofCounts hle
    have hwhole : (ofCounts whole fraction).wholeDigits = whole := by
      rw [wholeDigits, hp, hs, Nat.add_sub_cancel]
    have hfraction : (ofCounts whole fraction).fractionDigits = fraction := hs
    by_cases heq : ofCounts whole fraction = e
    · subst heq
      rw [hwhole, hfraction, Nat.max_self, Nat.max_self, hspan, join_result, if_pos rfl]
    · rw [hspan, join_decimals (by omega) he.2 heq, hwhole, hfraction]
  · have hspan : spanning whole fraction = numeric := if_neg hle
    have hspan' : spanning (max whole e.wholeDigits) (max fraction e.fractionDigits) = numeric :=
      if_neg (by omega)
    rw [hspan, hspan', join_numeric_left rfl]

/-- The common type of some decimals: the decimal that all of them are, or else the type of numbers
with the largest counts. -/
def overDecimals : List Decimal → Scalar
  | [] => .numeric
  | d :: ds =>
    if ∀ e ∈ ds, e = d then .decimal d
    else spanning (most wholeDigits (d :: ds)) (most fractionDigits (d :: ds))

theorem isNumeric_overDecimals (ds : List Decimal) : (overDecimals ds).isNumeric = true := by
  unfold overDecimals
  split
  · rfl
  · split
    · rfl
    · exact isNumeric_spanning _ _

/-- One decimal more.  As long as all are the same there may be too many digits; from the first
different one on, only the counts matter. -/
theorem join_overDecimals {ds : List Decimal} {e : Decimal} (hne : ds ≠ [])
    (hds : ∀ d ∈ ds, d.Valid) (he : e.Valid) :
    ((overDecimals ds).join (decimal e)).result = some (overDecimals (e :: ds)) := by
  cases ds with
  | nil => exact absurd rfl hne
  | cons d ds =>
    by_cases hsame : ∀ x ∈ ds, x = d
    · rw [overDecimals, if_pos hsame]
      by_cases hde : d = e
      · subst hde
        have hall : ∀ x ∈ d :: ds, x = d := List.forall_mem_cons.2 ⟨rfl, hsame⟩
        rw [join_self, overDecimals, if_pos hall]
        rfl
      · have hmix : ¬ ∀ x ∈ d :: ds, x = e := fun h => hde (h d List.mem_cons_self)
        rw [join_decimals (hds d List.mem_cons_self).2 he.2 hde, overDecimals, if_neg hmix,
          most_cons, most_of_same hsame, most_cons, most_of_same hsame,
          Nat.max_comm d.wholeDigits, Nat.max_comm d.fractionDigits]
    · have hmix : ¬ ∀ x ∈ d :: ds, x = e := by
        intro h
        apply hsame
        intro x hx
        rw [h x (List.mem_cons_of_mem d hx), h d List.mem_cons_self]
      rw [overDecimals, if_neg hsame, join_spanning _ _ he, overDecimals, if_neg hmix,
        most_cons e, most_cons e, Nat.max_comm e.wholeDigits, Nat.max_comm e.fractionDigits]

/-- Whether all decimals of a list are the same does not depend on which of them comes first. -/
theorem same_of_mem_iff {d e : Decimal} {ds es : List Decimal}
    (h : ∀ x, x ∈ d :: ds ↔ x ∈ e :: es) (hsame : ∀ x ∈ ds, x = d) : d = e ∧ ∀ x ∈ es, x = e := by
  have hall : ∀ x ∈ e :: es, x = d := by
    intro x hx
    rcases List.mem_cons.1 ((h x).2 hx) with rfl | hx
    · rfl
    · exact hsame x hx
  obtain ⟨rfl, hes⟩ := List.forall_mem_cons.1 hall
  exact ⟨rfl, hes⟩

theorem overDecimals_congr {ds es : List Decimal} (h : ∀ d, d ∈ ds ↔ d ∈ es) :
    overDecimals ds = overDecimals es := by
  cases ds with
  | nil =>
    cases es with
    | nil => rfl
    | cons e es => cases (h e).2 List.mem_cons_self
  | cons d ds =>
    cases es with
    | nil => cases (h d).1 List.mem_cons_self
    | cons e es =>
      by_cases hsame : ∀ x ∈ ds, x = d
      · obtain ⟨rfl, hsame'⟩ := same_of_mem_iff h hsame
        rw [overDecimals, overDecimals, if_pos hsame, if_pos hsame']
      · have hmix : ¬ ∀ x ∈ es, x = e := by
          intro hes
          exact hsame (same_of_mem_iff (fun x => (h x).symm) hes).2
        rw [overDecimals, overDecimals, if_neg hsame, if_neg hmix, most_congr h, most_congr h]

/-! ## Scalars -/

/-- Numbers of any kind, and the scalar of which nothing more is known. -/
def Quantity : Scalar → Prop
  | numeric | generic => True
  | decimal d => d.Valid
  | string | dateTime | boolean | symbol => False

instance : (s : Scalar) → Decidable s.Quantity
  | .numeric | .generic => isTrue trivial
  | .decimal d => inferInstanceAs (Decidable d.Valid)
  | .string | .dateTime | .boolean | .symbol => isFalse id

theorem Quantity.cases {s : Scalar} (h : s.Quantity) :
    s = generic ∨ s = numeric ∨ ∃ d, s = decimal d ∧ d.Valid := by
  cases s with
  | generic => exact .inl rfl
  | numeric => exact .inr (.inl rfl)
  | decimal d => exact .inr (.inr ⟨d, rfl, h⟩)
  | string | dateTime | boolean | symbol => cases h

/-- The common type of some scalars: generic or numeric if one of them is, and else that of the
decimals. -/
def overall (ss : List Scalar) : Scalar :=
  if .generic ∈ ss then .generic
  else if .numeric ∈ ss then .numeric
  else overDecimals (ss.filterMap decimal?)

theorem overall_singleton {s : Scalar} (hs : s.Quantity) : overall [s] = s := by
  obtain rfl | rfl | ⟨d, rfl, -⟩ := hs.cases
  · rfl
  · rfl
  · rfl

theorem overall_congr {ss us : List Scalar} (h : ∀ s, s ∈ ss ↔ s ∈ us) :
    overall ss = overall us := by
  have hdecimals : overDecimals (ss.filterMap decimal?) = overDecimals (us.filterMap decimal?) := by
    apply overDecimals_congr
    intro d
    simp only [List.mem_filterMap, h]
  simp only [overall, h, hdecimals]

theorem isNumeric_overall {ss : List Scalar} (h : generic ∉ ss) :
    (overall ss).isNumeric = true := by
  rw [overall, if_neg h]
  split
  · rfl
  · exact isNumeric_overDecimals _

theorem join_generic_left (x : Scalar) : (generic.join x).result = some generic := by
  rw [join_result, common?_generic_left, ite_self]

theorem join_numeric_right {x : Scalar} (hx : x.isNumeric = true) :
    (x.join numeric).result = some numeric := by
  rw [join_comm, join_numeric_left hx]

/-- Where neither the generic nor the numeric scalar occurs, quantities are decimals. -/
theorem Quantity.decimal {s : Scalar} (h : s.Quantity) (hg : s ≠ generic) (hn : s ≠ numeric) :
    ∃ d, s = .decimal d ∧ d.Valid := by
  obtain rfl | rfl | hd := h.cases
  · exact absurd rfl hg
  · exact absurd rfl hn
  · exact hd

/-- One scalar more. -/
theorem join_overall {ss : List Scalar} {x : Scalar} (hne : ss ≠ [])
    (hss : ∀ s ∈ ss, s.Quantity) (hx : x.Quantity) :
    ((overall ss).join x).result = some (overall (x :: ss)) := by
  by_cases hg : generic ∈ x :: ss
  · have hall : overall (x :: ss) = generic := if_pos hg
    rw [hall]
    rcases List.mem_cons.1 hg with rfl | hg
    · rw [join_comm, join_generic_left]
    · rw [overall, if_pos hg, join_generic_left]
  · obtain ⟨hxg, hg'⟩ : generic ≠ x ∧ generic ∉ ss := by
      rwa [List.mem_cons, not_or] at hg
    by_cases hn : numeric ∈ x :: ss
    · have hall : overall (x :: ss) = numeric := by rw [overall, if_neg hg, if_pos hn]
      rw [hall]
      rcases List.mem_cons.1 hn with rfl | hn
      · exact join_numeric_right (isNumeric_overall hg')
      · rw [overall, if_neg hg', if_pos hn, join_numeric_left]
        obtain rfl | rfl | ⟨d, rfl, -⟩ := hx.cases
        · exact absurd rfl hxg
        · rfl
        · rfl
    · obtain ⟨hxn, hn'⟩ : numeric ≠ x ∧ numeric ∉ ss := by
        rwa [List.mem_cons, not_or] at hn
      obtain ⟨e, rfl, he⟩ := hx.decimal hxg.symm hxn.symm
      have hdecimal : ∀ s ∈ ss, ∃ d, s = .decimal d ∧ d.Valid := by
        intro s hs
        refine (hss s hs).decimal ?_ ?_
        · rintro rfl
          exact hg' hs
        · rintro rfl
          exact hn' hs
      rw [overall, if_neg hg', if_neg hn', overall, if_neg hg, if_neg hn]
      -- only decimals are left, and there is one among those before
      refine join_overDecimals ?_ ?_ he
      · obtain ⟨s, hs⟩ := List.exists_mem_of_ne_nil ss hne
        obtain ⟨d, rfl, -⟩ := hdecimal s hs
        exact List.ne_nil_of_mem (List.mem_filterMap.2 ⟨_, hs, rfl⟩)
      · intro d hd
        obtain ⟨s, hs, hsd⟩ := List.mem_filterMap.1 hd
        obtain ⟨d', rfl, hd'⟩ := hdecimal s hs
        cases hsd
        exact hd'

end Scalar

/-! ## Types -/

/-- An amorphous item takes in null and what it can absorb, with all dimensions. -/
theorem Item.absorb_result {ds : List Ref} {y : Item} (hds : Ref.Increasing ds)
    (hy : y = .atom .null ∨ y.absorbable = true) :
    (absorb ds y).result = some (.amorphous (Ref.canonical (ds ++ y.dimensions))) := by
  unfold absorb
  split
  · rename_i hnull
    rw [hnull, show (atom .null).dimensions = [] from rfl, List.append_nil,
      Ref.canonical_of_increasing hds]
    rfl
  · rename_i hnull
    rw [if_pos (hy.resolve_left hnull)]
    rfl

namespace Ty

/-- Null, scalar quantities and amorphous items. -/
def Quantity : Ty → Prop
  | null => True
  | scalar s => s.Quantity
  | amorphous ds => Ref.Increasing ds
  | _ => False

instance : (t : Ty) → Decidable t.Quantity
  | .null => isTrue trivial
  | .scalar s => inferInstanceAs (Decidable s.Quantity)
  | .amorphous ds => inferInstanceAs (Decidable (Ref.Increasing ds))
  | .metadata _ | .tuple _ | .set _ | .cube _ => isFalse id

/-- The common type of some quantities.  An amorphous one makes it amorphous, over the dimensions of
all of them; otherwise it is that of the scalars, if there is one. -/
def overall (ts : List Ty) : Ty :=
  if ∃ t ∈ ts, t.isAmorphous = true then .amorphous (Ref.canonical (ts.flatMap (·.dimensions)))
  else if ts.filterMap scalar? = [] then .null
  else .scalar (Scalar.overall (ts.filterMap scalar?))

theorem Quantity.cases {t : Ty} (h : t.Quantity) :
    t = null ∨ (∃ s, t = scalar s ∧ s.Quantity) ∨ ∃ ds, t = amorphous ds ∧ Ref.Increasing ds := by
  unfold Quantity at h
  split at h
  · exact .inl rfl
  · exact .inr (.inl ⟨_, rfl, h⟩)
  · exact .inr (.inr ⟨_, rfl, h⟩)
  · cases h

theorem overall_congr {ts us : List Ty} (h : ∀ t, t ∈ ts ↔ t ∈ us) : overall ts = overall us := by
  have hscalars : ∀ s, s ∈ ts.filterMap scalar? ↔ s ∈ us.filterMap scalar? := by
    intro s
    simp only [List.mem_filterMap, h]
  have hnil : ts.filterMap scalar? = [] ↔ us.filterMap scalar? = [] := by
    simp only [List.eq_nil_iff_forall_not_mem, hscalars]
  have hdims : Ref.canonical (ts.flatMap (·.dimensions)) =
      Ref.canonical (us.flatMap (·.dimensions)) := by
    rw [Ref.canonical_eq_iff]
    intro r
    simp only [List.mem_flatMap, h]
  simp only [overall, h, hnil, hdims, Scalar.overall_congr hscalars]

theorem overall_singleton {t : Ty} (ht : t.Quantity) : overall [t] = t := by
  obtain rfl | ⟨s, rfl, hs⟩ | ⟨ds, rfl, hds⟩ := ht.cases
  · rfl
  · show scalar (Scalar.overall [s]) = _
    rw [Scalar.overall_singleton hs]
  · show amorphous (Ref.canonical (ds ++ [])) = _
    rw [List.append_nil, Ref.canonical_of_increasing hds]

/-- One quantity more, where an amorphous one was among those before. -/
theorem join_overall_of_amorphous {seen : List Ty} {u : Ty}
    (hseen : ∃ t ∈ seen, t.isAmorphous = true) (hu : u.Quantity) :
    ((overall seen).join u).result = some (overall (u :: seen)) := by
  have hall : ∃ t ∈ u :: seen, t.isAmorphous = true := by
    obtain ⟨t, ht, hamorphous⟩ := hseen
    exact ⟨t, List.mem_cons_of_mem u ht, hamorphous⟩
  obtain ⟨i, rfl, hi⟩ : ∃ i, u = .item i ∧ (i = .atom .null ∨ i.absorbable = true) := by
    obtain rfl | ⟨s, rfl, -⟩ | ⟨ds, rfl, -⟩ := hu.cases
    · exact ⟨_, rfl, .inl rfl⟩
    · exact ⟨_, rfl, .inr rfl⟩
    · exact ⟨_, rfl, .inr rfl⟩
  have hdims : Ref.canonical (Ref.canonical (seen.flatMap (·.dimensions)) ++ i.dimensions) =
      Ref.canonical ((.item i :: seen : List Ty).flatMap (·.dimensions)) := by
    rw [Ref.canonical_eq_iff]
    intro r
    rw [List.flatMap_cons, List.mem_append, List.mem_append, Ref.mem_canonical, or_comm]
    rfl
  rw [overall, if_pos hseen, overall, if_pos hall, join_items, Attempt.result_map, ← hdims]
  show Option.map _ (Item.absorb _ i).result = _
  rw [Item.absorb_result (Ref.increasing_canonical _) hi]
  rfl

/-- Without an amorphous one, quantities have a null or scalar type in common, and no
dimensions. -/
theorem overall_of_structured {seen : List Ty} (hseen : ¬ ∃ t ∈ seen, t.isAmorphous = true) :
    ∃ a, overall seen = .item (.atom a) ∧ a.dimensions = [] ∧
      ((Item.atom a) = .atom .null ∨ (Item.atom a).absorbable = true) := by
  rw [overall, if_neg hseen]
  split
  · exact ⟨.null, rfl, rfl, .inl rfl⟩
  · exact ⟨.scalar _, rfl, rfl, .inr rfl⟩

theorem Quantity.dimensions_eq_nil {t : Ty} (ht : t.Quantity) (h : ¬ t.isAmorphous = true) :
    t.dimensions = [] := by
  obtain rfl | ⟨s, rfl, -⟩ | ⟨ds, rfl, -⟩ := ht.cases
  · rfl
  · rfl
  · exact absurd rfl h

/-- The first amorphous quantity. -/
theorem join_overall_amorphous {seen : List Ty} {ds : List Ref}
    (hquantities : ∀ t ∈ seen, t.Quantity) (hseen : ¬ ∃ t ∈ seen, t.isAmorphous = true)
    (hds : Ref.Increasing ds) :
    ((overall seen).join (amorphous ds)).result = some (overall (amorphous ds :: seen)) := by
  have hall : ∃ t ∈ amorphous ds :: seen, t.isAmorphous = true := ⟨_, List.mem_cons_self, rfl⟩
  have hdims : seen.flatMap (·.dimensions) = [] := by
    rw [List.flatMap_eq_nil_iff]
    intro t ht
    exact (hquantities t ht).dimensions_eq_nil fun h => hseen ⟨t, ht, h⟩
  obtain ⟨a, ha, hnone, habsorbed⟩ := overall_of_structured hseen
  rw [ha, overall, if_pos hall, List.flatMap_cons, hdims, join_comm, join_items, Attempt.result_map]
  show Option.map _ (Item.absorb ds (.atom a)).result = _
  rw [Item.absorb_result hds habsorbed, show (Item.atom a).dimensions = [] from hnone]
  rfl

/-- One null or scalar quantity more, where none before was amorphous. -/
theorem join_overall_structured {seen : List Ty} {u : Ty} (hquantities : ∀ t ∈ seen, t.Quantity)
    (hseen : ¬ ∃ t ∈ seen, t.isAmorphous = true) (hu : u.Quantity)
    (hstructured : ¬ u.isAmorphous = true) :
    ((overall seen).join u).result = some (overall (u :: seen)) := by
  have hall : ¬ ∃ t ∈ u :: seen, t.isAmorphous = true := by
    rintro ⟨t, ht, hamorphous⟩
    rcases List.mem_cons.1 ht with rfl | ht
    · exact hstructured hamorphous
    · exact hseen ⟨t, ht, hamorphous⟩
  have hscalars : ∀ s ∈ seen.filterMap scalar?, s.Quantity := by
    intro s hs
    obtain ⟨t, ht, hts⟩ := List.mem_filterMap.1 hs
    obtain rfl | ⟨s', rfl, hs'⟩ | ⟨ds, rfl, -⟩ := (hquantities t ht).cases
    · cases hts
    · cases hts
      exact hs'
    · cases hts
  rw [overall, if_neg hseen, overall, if_neg hall]
  obtain rfl | ⟨x, rfl, hx⟩ | ⟨ds, rfl, -⟩ := hu.cases
  · show _ = some (if seen.filterMap scalar? = [] then null else _)
    split
    · rfl
    · rfl
  · show _ = some (scalar (Scalar.overall (x :: seen.filterMap scalar?)))
    split
    · rename_i hnil
      rw [hnil, Scalar.overall_singleton hx]
      rfl
    · rename_i hne
      rw [join_items, Item.join_atoms, Atom.join, Attempt.result_map, Attempt.result_map,
        Attempt.result_map, Scalar.join_overall hne hscalars hx]
      rfl
  · exact absurd rfl hstructured

/-- One quantity more. -/
theorem join_overall {seen : List Ty} {u : Ty} (hseen : ∀ t ∈ seen, t.Quantity)
    (hu : u.Quantity) : ((overall seen).join u).result = some (overall (u :: seen)) := by
  by_cases hbefore : ∃ t ∈ seen, t.isAmorphous = true
  · exact join_overall_of_amorphous hbefore hu
  · by_cases hamorphous : u.isAmorphous = true
    · obtain rfl | ⟨s, rfl, -⟩ | ⟨ds, rfl, hds⟩ := hu.cases
      · cases hamorphous
      · cases hamorphous
      · exact join_overall_amorphous hseen hbefore hds
    · exact join_overall_structured hseen hbefore hu hamorphous

/-- Going on from the overall type of the quantities seen so far ends with that of all of them. -/
theorem joinFrom_overall {seen us : List Ty} (hseen : ∀ t ∈ seen, t.Quantity)
    (hus : ∀ u ∈ us, u.Quantity) :
    (joinFrom true (overall seen) us).result = some (overall (us.reverse ++ seen)) := by
  -- on the entries to come; the latest one seen stands first
  induction us generalizing seen with
  | nil => rfl
  | cons u us ih =>
    obtain ⟨hu, hus⟩ := List.forall_mem_cons.1 hus
    rw [joinFrom_allowing_result, join_overall hseen hu, Option.bind_some,
      ih (List.forall_mem_cons.2 ⟨hu, hseen⟩) hus, List.reverse_cons, List.append_assoc,
      List.singleton_append]

theorem joinAll_overall {ts : List Ty} (hne : ts ≠ []) (hts : ∀ t ∈ ts, t.Quantity) :
    (joinAll true ts).result = some (overall ts) := by
  cases ts with
  | nil => exact absurd rfl hne
  | cons t ts =>
    obtain ⟨ht, hts⟩ := List.forall_mem_cons.1 hts
    have hrun := joinFrom_overall (List.forall_mem_singleton.2 ht) hts
    rw [overall_singleton ht] at hrun
    rw [joinAll_cons, hrun]
    -- the entries were seen in reverse order
    refine congrArg some (overall_congr fun u => ?_)
    rw [List.mem_append, List.mem_reverse, List.mem_singleton, List.mem_cons, or_comm]

/-- Quantities have a common type.  It is amorphous over the dimensions of all of them if one of
them is amorphous; else generic if one of them is; else numeric if one of them is; else null if none
of them is a decimal; else the decimal that all the decimals are; else the decimal with the largest
counts of digits before and after the point, if it is within the limit, and numeric if not.  Their
order does not matter. -/
theorem quantities_unify_in_any_order (ts : List Ty) (hne : ts ≠ [])
    (hts : ∀ t ∈ ts, t.Quantity) :
    (joinAll true ts).result = some (overall ts) ∧
      ∀ us : List Ty, us.Perm ts → (joinAll true us).result = some (overall ts) := by
  refine ⟨joinAll_overall hne hts, fun us hperm => ?_⟩
  have hne' : us ≠ [] := by
    rintro rfl
    exact hne hperm.nil_eq.symm
  rw [joinAll_overall hne' fun u hu => hts u (hperm.mem_iff.1 hu)]
  exact congrArg some (overall_congr fun t => hperm.mem_iff)

/-- Decimals of forty digits keep their type among themselves, and become numeric together with one
of two digits. -/
theorem quantities_unify_in_any_order_of_long_decimals :
    let long : Ty := .scalar (.decimal ⟨40, 2⟩)
    let short : Ty := .scalar (.decimal ⟨2, 0⟩)
    (∀ t ∈ [long, .null, long], t.Quantity) ∧ (∀ t ∈ [long, .null, short], t.Quantity) ∧
      (joinAll true [long, .null, long]).result = some long ∧
      (joinAll true [short, long, .null]).result = some (.scalar .numeric) := by
  intro long short
  have hsame : ∀ t ∈ [long, .null, long], t.Quantity := by decide
  have hmixed : ∀ t ∈ [long, .null, short], t.Quantity := by decide
  obtain ⟨hfirst, -⟩ := quantities_unify_in_any_order _ (List.cons_ne_nil _ _) hsame
  obtain ⟨-, hsecond⟩ := quantities_unify_in_any_order _ (List.cons_ne_nil _ _) hmixed
  refine ⟨hsame, hmixed, hfirst, ?_⟩
  exact hsecond [short, long, .null] (by decide)

end Ty

end Hypercube
